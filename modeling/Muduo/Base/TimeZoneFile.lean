import Muduo.Base.TimeZone
import Muduo.Support.BigEndian
import Muduo.Support.Reader

/-! # Zone files

`readTimeZoneFile` of `base/TimeZone.cpp`. It fills the tables while it reads, prints what is thrown on the
way and returns `true` in any case. A size of less than nothing and an index out of range are faults.
`ZoneFile` is what a file is to say, and `zoneFile_loads_iff` that the tables are in range exactly for the
files that begin with such a text. -/

namespace Muduo

open Support

/-- A type of local time in a file. -/
structure TypeInfo where
  gmtoff : Int
  isdst : UInt8
  abbrind : UInt8
  deriving DecidableEq, Repr

/-- The entry that is made of it. -/
def TypeInfo.localtime (info : TypeInfo) : Localtime :=
  ⟨info.gmtoff, info.isdst ≠ 0, info.abbrind.toNat⟩

/-- A reader that fills the tables. -/
abbrev ZoneReader : Type → Type := Reader UInt8 ZoneData

namespace ZoneReader

/-- `readBytes(n)`. -/
def readBytes (n : Int) : ZoneReader (List UInt8) := do
  Reader.lift (assert (0 ≤ n) "char buf[n]")
  Reader.take n.toNat "no enough data"

/-- `File::readInt32`. -/
def readInt32 : ZoneReader Int := intOfBytes <$> Reader.take 4 "bad int32_t data"

/-- `File::readUInt8`. -/
def readUInt8 : ZoneReader UInt8 := (·.headD 0) <$> Reader.take 1 "bad uint8_t data"

end ZoneReader

open ZoneReader

/-- What a file has before its tables. -/
structure ZoneHeader where
  version : List UInt8
  unused : List UInt8
  isgmtcnt : Int
  isstdcnt : Int
  leapcnt : Int
  timecnt : Int
  typecnt : Int
  charcnt : Int
  deriving DecidableEq, Repr

/-- `"TZif"`. -/
def zoneMagic : List UInt8 := [84, 90, 105, 102]

/-- `readTimeZoneFile` up to the tables. -/
def readHeader : ZoneReader ZoneHeader := do
  let head ← readBytes 4
  if head ≠ zoneMagic then throw "bad head"
  else
    let version ← readBytes 1
    let unused ← readBytes 15
    let isgmtcnt ← readInt32
    let isstdcnt ← readInt32
    let leapcnt ← readInt32
    let timecnt ← readInt32
    let typecnt ← readInt32
    let charcnt ← readInt32
    return { version, unused, isgmtcnt, isstdcnt, leapcnt, timecnt, typecnt, charcnt }

/-- A turn of the loop that reads the types of local time. -/
def readLocaltime : ZoneReader TypeInfo := do
  let gmtoff ← readInt32
  let isdst ← readUInt8
  let abbrind ← readUInt8
  let info : TypeInfo := { gmtoff, isdst, abbrind }
  Reader.update fun data => { data with localtimes := data.localtimes ++ [info.localtime] }
  return info

/-- A turn of the loop that makes the transitions. -/
def pushTransition (p : Int × UInt8) : ZoneReader Unit := do
  let data ← Reader.record
  let loc ← Reader.lift (elementAt data.localtimes p.2.toNat "data->localtimes[localIdx]")
  Reader.update fun data =>
    { data with transitions := data.transitions ++ [⟨p.1, p.1 + loc.gmtOffset, p.2.toNat⟩] }

/-- The `try` block of `readTimeZoneFile`. The loop over the leap seconds does nothing. -/
def readZone : ZoneReader Unit := do
  let head ← readHeader
  -- `trans.reserve(timecnt)` throws a `length_error`, which is a `logic_error`
  if head.timecnt < 0 then throw "vector::reserve"
  else
    let trans ← readInt32.times head.timecnt.toNat
    let localtimes ← readUInt8.times head.timecnt.toNat
    let _ ← readLocaltime.times head.typecnt.toNat
    (trans.zip localtimes).forM pushTransition
    let abbreviation ← readBytes head.charcnt
    Reader.update fun data => { data with abbreviation }

/-- `readTimeZoneFile(zonefile, data)`, with the content of the file, if there is one. -/
def readTimeZoneFile : Option (List UInt8) → Checked (Bool × ZoneData)
  | none => return (true, {})
  | some bytes => do
      -- what was thrown is printed
      let (_, s) ← readZone.outcome ⟨bytes, {}⟩
      return (true, s.record)

/-- `TimeZone(zonefile)`. -/
def TimeZone.ofFile (file : Option (List UInt8)) : Checked TimeZone := do
  let (ok, data) ← readTimeZoneFile file
  return if ok then ⟨some data⟩ else ⟨none⟩

/-! ## What the readers read -/

/-- A block of bytes of the length asked for. -/
theorem reads_readBytes (n : Int) :
    (readBytes n).Reads (fun a => (a.length : Int) = n) id (fun d _ => d) := by
  intro s a t
  rw [readBytes, Reader.gives_bind]
  constructor
  · rintro ⟨_, s', hcheck, htake⟩
    obtain ⟨hassert, rfl⟩ := Reader.gives_lift.mp hcheck
    obtain ⟨hlength, hrest, hrecord⟩ := (Reader.reads_take _ _ _).mp htake
    have hn : 0 ≤ n := by
      by_contra hneg
      rw [assert_neg hneg] at hassert
      cases hassert
    exact ⟨(congrArg Nat.cast hlength).trans (Int.toNat_of_nonneg hn), hrest, hrecord⟩
  · rintro ⟨rfl, hrest, hrecord⟩
    refine ⟨(), s, Reader.gives_lift.mpr ⟨assert_pos (Int.natCast_nonneg _) _, rfl⟩, ?_⟩
    exact (Reader.reads_take _ _ _).mpr ⟨(Int.toNat_natCast _).symm, hrest, hrecord⟩

/-- A 32-bit number, most significant byte first. -/
theorem reads_readInt32 : readInt32.Reads (FitsInt 4) (intToBytes 4) (fun d _ => d) := by
  have hto : ∀ bytes : List UInt8, bytes.length = 4 →
      FitsInt 4 (intOfBytes bytes) ∧ intToBytes 4 (intOfBytes bytes) = bytes := by
    intro bytes hlength
    have hne : bytes ≠ [] := List.ne_nil_of_length_eq_add_one hlength
    rw [← hlength]
    exact ⟨fitsInt_intOfBytes hne, intToBytes_intOfBytes bytes⟩
  have hof : ∀ x, FitsInt 4 x → (intToBytes 4 x).length = 4 ∧ intOfBytes (intToBytes 4 x) = x :=
    fun x hx => ⟨length_intToBytes 4 x, intOfBytes_intToBytes hx⟩
  exact Reader.reads_take.map hto hof

/-- One byte. -/
theorem reads_readUInt8 : readUInt8.Reads (fun _ => True) (fun b => [b]) (fun d _ => d) := by
  refine Reader.reads_take.map ?_ ?_
  · intro bytes hlength
    obtain ⟨b, rfl⟩ := List.length_eq_one_iff.mp hlength
    exact ⟨trivial, rfl⟩
  · intro b _
    exact ⟨rfl, rfl⟩

namespace TypeInfo

/-- The text of a type of local time. -/
def print (info : TypeInfo) : List UInt8 := intToBytes 4 info.gmtoff ++ [info.isdst, info.abbrind]

end TypeInfo

/-- A local time is read from its six bytes. -/
theorem reads_readLocaltime : readLocaltime.Reads (fun info => FitsInt 4 info.gmtoff) TypeInfo.print
    (fun d info => { d with localtimes := d.localtimes ++ [info.localtime] }) := by
  refine .intro ?_ ?_
  · intro s info t h
    obtain ⟨gmtoff, s₁, h₁, h⟩ := Reader.gives_bind.mp h
    obtain ⟨isdst, s₂, h₂, h⟩ := Reader.gives_bind.mp h
    obtain ⟨abbrind, s₃, h₃, h⟩ := Reader.gives_bind.mp h
    obtain ⟨_, s₄, h₄, h⟩ := Reader.gives_bind.mp h
    obtain ⟨rfl, rfl⟩ := Reader.gives_pure.mp h
    obtain ⟨hfits, hrest₁, hrecord₁⟩ := (reads_readInt32 _ _ _).mp h₁
    obtain ⟨-, hrest₂, hrecord₂⟩ := (reads_readUInt8 _ _ _).mp h₂
    obtain ⟨-, hrest₃, hrecord₃⟩ := (reads_readUInt8 _ _ _).mp h₃
    obtain rfl := Reader.gives_update.mp h₄
    refine ⟨hfits, ?_, ?_⟩
    · rw [hrest₁, hrest₂, hrest₃, TypeInfo.print, List.append_assoc]
      rfl
    · rw [hrecord₃, hrecord₂, hrecord₁]
  · intro info rest d hfits
    rw [TypeInfo.print, List.append_assoc]
    refine Reader.gives_bind.mpr ⟨_, _, reads_readInt32.gives hfits, ?_⟩
    refine Reader.gives_bind.mpr ⟨_, _, reads_readUInt8.gives trivial, ?_⟩
    refine Reader.gives_bind.mpr ⟨_, _, reads_readUInt8.gives trivial, ?_⟩
    refine Reader.gives_bind.mpr ⟨(), _, Reader.gives_update.mpr rfl, ?_⟩
    exact Reader.gives_pure.mpr ⟨rfl, rfl⟩

namespace ZoneHeader

/-- The text of a header. -/
def print (head : ZoneHeader) : List UInt8 :=
  zoneMagic ++ (head.version ++ (head.unused ++ (intToBytes 4 head.isgmtcnt ++
    (intToBytes 4 head.isstdcnt ++ (intToBytes 4 head.leapcnt ++ (intToBytes 4 head.timecnt ++
      (intToBytes 4 head.typecnt ++ intToBytes 4 head.charcnt)))))))

/-- The fields have their sizes. -/
structure WF (head : ZoneHeader) : Prop where
  version : head.version.length = 1
  unused : head.unused.length = 15
  isgmtcnt : FitsInt 4 head.isgmtcnt
  isstdcnt : FitsInt 4 head.isstdcnt
  leapcnt : FitsInt 4 head.leapcnt
  timecnt : FitsInt 4 head.timecnt
  typecnt : FitsInt 4 head.typecnt
  charcnt : FitsInt 4 head.charcnt

end ZoneHeader

/-- The header is read from its bytes. -/
theorem reads_readHeader : readHeader.Reads ZoneHeader.WF ZoneHeader.print (fun d _ => d) := by
  refine .intro ?_ ?_
  · intro s head t h
    obtain ⟨magic, s₀, h₀, h⟩ := Reader.gives_bind.mp h
    by_cases hmagic : magic = zoneMagic
    · rw [if_neg (not_not_intro hmagic)] at h
      obtain ⟨version, s₁, h₁, h⟩ := Reader.gives_bind.mp h
      obtain ⟨unused, s₂, h₂, h⟩ := Reader.gives_bind.mp h
      obtain ⟨isgmtcnt, s₃, h₃, h⟩ := Reader.gives_bind.mp h
      obtain ⟨isstdcnt, s₄, h₄, h⟩ := Reader.gives_bind.mp h
      obtain ⟨leapcnt, s₅, h₅, h⟩ := Reader.gives_bind.mp h
      obtain ⟨timecnt, s₆, h₆, h⟩ := Reader.gives_bind.mp h
      obtain ⟨typecnt, s₇, h₇, h⟩ := Reader.gives_bind.mp h
      obtain ⟨charcnt, s₈, h₈, h⟩ := Reader.gives_bind.mp h
      obtain ⟨rfl, rfl⟩ := Reader.gives_pure.mp h
      obtain ⟨-, hrest₀, hrecord₀⟩ := (reads_readBytes _ _ _ _).mp h₀
      obtain ⟨hversion, hrest₁, hrecord₁⟩ := (reads_readBytes _ _ _ _).mp h₁
      obtain ⟨hunused, hrest₂, hrecord₂⟩ := (reads_readBytes _ _ _ _).mp h₂
      obtain ⟨hisgmtcnt, hrest₃, hrecord₃⟩ := (reads_readInt32 _ _ _).mp h₃
      obtain ⟨hisstdcnt, hrest₄, hrecord₄⟩ := (reads_readInt32 _ _ _).mp h₄
      obtain ⟨hleapcnt, hrest₅, hrecord₅⟩ := (reads_readInt32 _ _ _).mp h₅
      obtain ⟨htimecnt, hrest₆, hrecord₆⟩ := (reads_readInt32 _ _ _).mp h₆
      obtain ⟨htypecnt, hrest₇, hrecord₇⟩ := (reads_readInt32 _ _ _).mp h₇
      obtain ⟨hcharcnt, hrest₈, hrecord₈⟩ := (reads_readInt32 _ _ _).mp h₈
      refine ⟨?_, ?_, ?_⟩
      · exact ⟨Int.ofNat.inj hversion, Int.ofNat.inj hunused, hisgmtcnt, hisstdcnt, hleapcnt, htimecnt,
          htypecnt, hcharcnt⟩
      · simp only [hrest₀, hmagic, hrest₁, hrest₂, hrest₃, hrest₄, hrest₅, hrest₆, hrest₇, hrest₈,
          ZoneHeader.print, List.append_assoc, id]
      · rw [hrecord₈, hrecord₇, hrecord₆, hrecord₅, hrecord₄, hrecord₃, hrecord₂, hrecord₁, hrecord₀]
    · rw [if_pos hmagic] at h
      exact absurd h Reader.not_gives_throw
  · intro head rest d hwf
    simp only [ZoneHeader.print, List.append_assoc]
    refine Reader.gives_bind.mpr ⟨zoneMagic, _, (reads_readBytes 4).gives rfl, ?_⟩
    rw [if_neg (not_not_intro rfl)]
    refine Reader.gives_bind.mpr ⟨_, _, (reads_readBytes 1).gives (congrArg Nat.cast hwf.version), ?_⟩
    refine Reader.gives_bind.mpr ⟨_, _, (reads_readBytes 15).gives (congrArg Nat.cast hwf.unused), ?_⟩
    refine Reader.gives_bind.mpr ⟨_, _, reads_readInt32.gives hwf.isgmtcnt, ?_⟩
    refine Reader.gives_bind.mpr ⟨_, _, reads_readInt32.gives hwf.isstdcnt, ?_⟩
    refine Reader.gives_bind.mpr ⟨_, _, reads_readInt32.gives hwf.leapcnt, ?_⟩
    refine Reader.gives_bind.mpr ⟨_, _, reads_readInt32.gives hwf.timecnt, ?_⟩
    refine Reader.gives_bind.mpr ⟨_, _, reads_readInt32.gives hwf.typecnt, ?_⟩
    refine Reader.gives_bind.mpr ⟨_, _, reads_readInt32.gives hwf.charcnt, ?_⟩
    exact Reader.gives_pure.mpr ⟨rfl, rfl⟩

/-! ## The tables -/

/-- The transition that is made of a time and the index of its type. -/
def transitionOf (localtimes : List Localtime) (p : Int × UInt8) : Transition :=
  ⟨p.1, p.1 + (localtimes[p.2.toNat]?).elim 0 Localtime.gmtOffset, p.2.toNat⟩

/-- A transition is pushed where its type exists. -/
theorem gives_pushTransition {p : Int × UInt8} {s t : Source UInt8 ZoneData} :
    (pushTransition p).Gives s () t ↔ p.2.toNat < s.record.localtimes.length ∧ t =
      { s with record := { s.record with
          transitions := s.record.transitions ++ [transitionOf s.record.localtimes p] } } := by
  constructor
  · intro h
    obtain ⟨data, s₁, hrecord, hindex⟩ := Reader.gives_bind.mp h
    obtain ⟨rfl, rfl⟩ := Reader.gives_record.mp hrecord
    obtain ⟨loc, s₂, hlift, hupdate⟩ := Reader.gives_bind.mp hindex
    obtain ⟨hloc, rfl⟩ := Reader.gives_lift.mp hlift
    rw [elementAt_eq_ok] at hloc
    obtain ⟨hlt, -⟩ := List.getElem?_eq_some_iff.mp hloc
    refine ⟨hlt, ?_⟩
    rw [Reader.gives_update.mp hupdate, transitionOf, hloc]
    rfl
  · rintro ⟨hlt, rfl⟩
    have hloc := List.getElem?_eq_getElem hlt
    refine Reader.gives_bind.mpr ⟨_, _, Reader.gives_record.mpr ⟨rfl, rfl⟩, ?_⟩
    refine Reader.gives_bind.mpr ⟨_, _, Reader.gives_lift.mpr ⟨elementAt_eq_ok.mpr hloc, rfl⟩, ?_⟩
    rw [Reader.gives_update, transitionOf, hloc]
    rfl

/-- Transitions are pushed where their types exist. -/
theorem gives_pushTransitions {ps : List (Int × UInt8)} {s t : Source UInt8 ZoneData} :
    (ps.forM pushTransition).Gives s () t ↔
      (∀ p ∈ ps, p.2.toNat < s.record.localtimes.length) ∧ t =
        { s with record := { s.record with
            transitions := s.record.transitions ++ ps.map (transitionOf s.record.localtimes) } } := by
  induction ps generalizing s with
  | nil =>
      have hnil : ([] : List (Int × UInt8)).forM pushTransition = pure () := rfl
      rw [hnil, Reader.gives_pure]
      simp
  | cons p ps ih =>
      have hcons : (p :: ps).forM pushTransition =
          pushTransition p >>= fun _ => ps.forM pushTransition := rfl
      rw [hcons, Reader.gives_bind]
      constructor
      · rintro ⟨⟨⟩, u, hp, hps⟩
        obtain ⟨hlt, rfl⟩ := gives_pushTransition.mp hp
        obtain ⟨hall, rfl⟩ := ih.mp hps
        refine ⟨List.forall_mem_cons.mpr ⟨hlt, hall⟩, ?_⟩
        simp
      · rintro ⟨hall, rfl⟩
        obtain ⟨hlt, hall⟩ := List.forall_mem_cons.mp hall
        refine ⟨(), _, gives_pushTransition.mpr ⟨hlt, rfl⟩, ih.mpr ⟨hall, ?_⟩⟩
        simp

/-- What a zone file says. -/
structure ZoneFile where
  version : List UInt8
  unused : List UInt8
  isgmtcnt : Int
  isstdcnt : Int
  leapcnt : Int
  /-- The transitions, each with the index of its type. -/
  times : List (Int × UInt8)
  types : List TypeInfo
  chars : List UInt8

namespace ZoneFile

variable (z : ZoneFile)

/-- The header, with the sizes of the tables. -/
def header : ZoneHeader :=
  { z with timecnt := z.times.length, typecnt := z.types.length, charcnt := z.chars.length }

/-- The text of a zone file. -/
def render : List UInt8 :=
  z.header.print ++ (z.times.flatMap (fun p => intToBytes 4 p.1) ++ (z.times.flatMap (fun p => [p.2]) ++
    (z.types.flatMap TypeInfo.print ++ z.chars)))

/-- The pieces of the text in the order in which they are read. -/
theorem render_append (rest : List UInt8) : z.render ++ rest = z.header.print ++
    ((z.times.map Prod.fst).flatMap (intToBytes 4) ++ ((z.times.map Prod.snd).flatMap (fun b => [b]) ++
      (z.types.flatMap TypeInfo.print ++ (z.chars ++ rest)))) := by
  simp only [render, List.append_assoc, List.flatMap_map]

/-- The tables that it stands for. -/
def data : ZoneData :=
  { transitions := z.times.map (transitionOf (z.types.map TypeInfo.localtime))
    localtimes := z.types.map TypeInfo.localtime
    abbreviation := z.chars }

/-- The fields have their sizes, and the transitions are to types that there are. -/
structure Readable : Prop where
  header : z.header.WF
  times : ∀ p ∈ z.times, FitsInt 4 p.1 ∧ p.2.toNat < z.types.length
  types : ∀ info ∈ z.types, FitsInt 4 info.gmtoff

/-- There also is a type, and every abbreviation begins in the characters. -/
structure WF : Prop extends z.Readable where
  types_ne : z.types ≠ []
  abbrind : ∀ info ∈ z.types, info.abbrind.toNat < z.chars.length

end ZoneFile

/-- The local times, one after the other. -/
theorem foldl_localtimes (infos : List TypeInfo) (d : ZoneData) :
    infos.foldl (fun d info => { d with localtimes := d.localtimes ++ [info.localtime] }) d =
      { d with localtimes := d.localtimes ++ infos.map TypeInfo.localtime } := by
  induction infos generalizing d with
  | nil => simp
  | cons info infos ih =>
      rw [List.foldl_cons, ih]
      simp

/-- The loops that fill no table. -/
theorem reads_times {α : Type} {r : ZoneReader α} {ok : α → Prop} {print : α → List UInt8}
    (hr : r.Reads ok print (fun d _ => d)) (n : Nat) :
    (r.times n).Reads (fun as => as.length = n ∧ ∀ a ∈ as, ok a) (List.flatMap print) (fun d _ => d) := by
  have hfill : List.foldl (fun (d : ZoneData) (_ : α) => d) = fun d _ => d := by
    funext d as
    induction as with
    | nil => rfl
    | cons a as ih => exact ih
  rw [← hfill]
  exact hr.times n

/-- The local times are read from their bytes. -/
theorem reads_localtimes (n : Nat) : (readLocaltime.times n).Reads
    (fun infos => infos.length = n ∧ ∀ info ∈ infos, FitsInt 4 info.gmtoff) (List.flatMap TypeInfo.print)
    (fun d infos => { d with localtimes := d.localtimes ++ infos.map TypeInfo.localtime }) := by
  intro s infos t
  rw [reads_readLocaltime.times n s infos t, foldl_localtimes]

/-- Reading the text of a zone file fills the tables that it stands for. -/
theorem ZoneFile.Readable.gives {z : ZoneFile} (h : z.Readable) (rest : List UInt8) :
    readZone.Gives ⟨z.render ++ rest, {}⟩ () ⟨rest, z.data⟩ := by
  have hlength : ∀ {β : Type} (f : Int × UInt8 → β),
      (z.times.map f).length = z.header.timecnt.toNat := fun f => List.length_map f
  have hzip : (z.times.map Prod.fst).zip (z.times.map Prod.snd) = z.times := by
    rw [List.zip_map']
    exact List.map_id _
  have hcount : ¬ z.header.timecnt < 0 := Int.not_lt.mpr (Int.natCast_nonneg _)
  have htrans : (z.times.map Prod.fst).length = z.header.timecnt.toNat ∧
      ∀ x ∈ z.times.map Prod.fst, FitsInt 4 x := by
    refine ⟨hlength _, ?_⟩
    intro x hx
    obtain ⟨p, hp, rfl⟩ := List.mem_map.mp hx
    exact (h.times p hp).1
  have hlocal : (z.times.map Prod.snd).length = z.header.timecnt.toNat ∧
      ∀ b ∈ z.times.map Prod.snd, True := ⟨hlength _, fun _ _ => trivial⟩
  have htypes : z.types.length = z.header.typecnt.toNat ∧ ∀ info ∈ z.types, FitsInt 4 info.gmtoff :=
    ⟨(Int.toNat_natCast _).symm, h.types⟩
  rw [render_append]
  refine Reader.gives_bind.mpr ⟨_, _, reads_readHeader.gives h.header, ?_⟩
  rw [if_neg hcount]
  refine Reader.gives_bind.mpr ⟨_, _, (reads_times reads_readInt32 _).gives htrans, ?_⟩
  refine Reader.gives_bind.mpr ⟨_, _, (reads_times reads_readUInt8 _).gives hlocal, ?_⟩
  refine Reader.gives_bind.mpr ⟨_, _, (reads_localtimes _).gives htypes, ?_⟩
  refine Reader.gives_bind.mpr ⟨(), _, gives_pushTransitions.mpr ⟨?_, rfl⟩, ?_⟩
  · intro p hp
    rw [hzip] at hp
    simpa using (h.times p hp).2
  · refine Reader.gives_bind.mpr ⟨z.chars, _, (reads_readBytes _).gives rfl, ?_⟩
    rw [Reader.gives_update, hzip]
    simp [data]

/-- If all is read and there is a type, the file begins with the text of a zone file. -/
theorem ZoneFile.exists_of_gives {bytes : List UInt8} {t : Source UInt8 ZoneData}
    (h : readZone.Gives ⟨bytes, {}⟩ () t) (hne : t.record.localtimes ≠ []) :
    ∃ z : ZoneFile, z.Readable ∧ bytes = z.render ++ t.rest ∧ t.record = z.data := by
  obtain ⟨head, s₀, h₀, h⟩ := Reader.gives_bind.mp h
  obtain ⟨hhead, hrest₀, hrecord₀⟩ := (reads_readHeader _ _ _).mp h₀
  by_cases hcount : head.timecnt < 0
  · rw [if_pos hcount] at h
    exact absurd h Reader.not_gives_throw
  · rw [if_neg hcount] at h
    obtain ⟨trans, s₁, h₁, h⟩ := Reader.gives_bind.mp h
    obtain ⟨indices, s₂, h₂, h⟩ := Reader.gives_bind.mp h
    obtain ⟨types, s₃, h₃, h⟩ := Reader.gives_bind.mp h
    obtain ⟨_, s₄, h₄, h⟩ := Reader.gives_bind.mp h
    obtain ⟨chars, s₅, h₅, h₆⟩ := Reader.gives_bind.mp h
    obtain ⟨⟨htrans, hfits⟩, hrest₁, hrecord₁⟩ := (reads_times reads_readInt32 _ _ _ _).mp h₁
    obtain ⟨⟨hindices, -⟩, hrest₂, hrecord₂⟩ := (reads_times reads_readUInt8 _ _ _ _).mp h₂
    obtain ⟨⟨htypes, hgmtoff⟩, hrest₃, hrecord₃⟩ := (reads_localtimes _ _ _ _).mp h₃
    obtain ⟨hidx, hs₄⟩ := gives_pushTransitions.mp h₄
    obtain ⟨hchars, hrest₅, hrecord₅⟩ := (reads_readBytes _ _ _ _).mp h₅
    obtain rfl := Reader.gives_update.mp h₆
    -- the tables, as they were filled
    have hrecord : s₃.record = { localtimes := types.map TypeInfo.localtime } := by
      rw [hrecord₃, hrecord₂, hrecord₁, hrecord₀]
      rfl
    rw [hs₄, hrecord] at hrecord₅
    rw [hrecord] at hidx
    rw [hrecord₅] at hne
    have hpos : types.length ≠ 0 := fun hzero => hne (by simp [List.eq_nil_of_length_eq_zero hzero])
    -- the counts are the sizes of the tables
    have hfst : (trans.zip indices).map Prod.fst = trans := List.map_fst_zip (by omega)
    have hsnd : (trans.zip indices).map Prod.snd = indices := List.map_snd_zip (by omega)
    have hlength : (trans.zip indices).length = head.timecnt.toNat := by
      rw [List.length_zip]
      omega
    let z : ZoneFile := { head with times := trans.zip indices, types, chars }
    have hheader : z.header = head := by
      have htimecnt : ((trans.zip indices).length : Int) = head.timecnt := by omega
      have htypecnt : (types.length : Int) = head.typecnt := by omega
      change ({ head with timecnt := _, typecnt := _, charcnt := _ } : ZoneHeader) = head
      rw [htimecnt, htypecnt, hchars]
    refine ⟨z, ⟨hheader ▸ hhead, ?_, hgmtoff⟩, ?_, ?_⟩
    · intro p hp
      refine ⟨hfits p.1 ?_, ?_⟩
      · rw [← hfst]
        exact List.mem_map_of_mem hp
      · simpa using hidx p hp
    · have hrest₄ : s₄.rest = s₃.rest := by rw [hs₄]
      have hbytes : bytes = head.print ++ s₀.rest := hrest₀
      rw [render_append, hheader, hfst, hsnd, hbytes, hrest₁, hrest₂, hrest₃, ← hrest₄, hrest₅]
      rfl
    · exact congrArg (fun d => { d with abbreviation := chars }) hrecord₅

/-! ## What is thrown -/

/-- Reading bytes changes no record. -/
theorem keeps_readBytes (n : Int) {P : ZoneData → Prop} : (readBytes n).Keeps P :=
  .bind .lift fun _ => .take

/-- Reading a number changes no record. -/
theorem keeps_readInt32 {P : ZoneData → Prop} : readInt32.Keeps P := .map .take

/-- Reading a byte changes no record. -/
theorem keeps_readUInt8 {P : ZoneData → Prop} : readUInt8.Keeps P := .map .take

/-- Reading the header changes no record. -/
theorem keeps_readHeader {P : ZoneData → Prop} : readHeader.Keeps P := by
  refine (keeps_readBytes 4).bind fun head => ?_
  split
  · exact .throw
  · refine (keeps_readBytes 1).bind fun _ => (keeps_readBytes 15).bind fun _ => ?_
    refine keeps_readInt32.bind fun _ => keeps_readInt32.bind fun _ => keeps_readInt32.bind fun _ => ?_
    exact keeps_readInt32.bind fun _ => keeps_readInt32.bind fun _ => keeps_readInt32.bind fun _ => .pure

/-- Reading a local time leaves the abbreviations empty. -/
theorem keeps_readLocaltime : readLocaltime.Keeps fun d => d.abbreviation = [] := by
  refine keeps_readInt32.bind fun _ => keeps_readUInt8.bind fun _ => keeps_readUInt8.bind fun _ => ?_
  exact .bind (.update fun d hd => hd) fun _ => .pure

/-- Pushing a transition leaves the abbreviations empty. -/
theorem keeps_pushTransition (p : Int × UInt8) :
    (pushTransition p).Keeps fun d => d.abbreviation = [] :=
  .bind .record fun _ => .bind .lift fun _ => .update fun _ hd => hd

/-- The characters are read last, so there are none if anything is thrown. -/
theorem readZone_keepsThrowing : readZone.KeepsThrowing fun d => d.abbreviation = [] := by
  refine keeps_readHeader.bind_keepsThrowing fun head => ?_
  split
  · exact Reader.Keeps.throw.keepsThrowing
  · refine (keeps_readInt32.times _).bind_keepsThrowing fun trans => ?_
    refine (keeps_readUInt8.times _).bind_keepsThrowing fun localtimes => ?_
    refine (keeps_readLocaltime.times _).bind_keepsThrowing fun _ => ?_
    refine (Reader.Keeps.forM keeps_pushTransition _).bind_keepsThrowing fun _ => ?_
    exact (keeps_readBytes _).bind_keepsThrowing fun _ => Reader.keepsThrowing_update

/-! ## Loading a file -/

/-- The zone that a file gives. -/
theorem TimeZone.ofFile_eq_ok {bytes : List UInt8} {tz : TimeZone} :
    TimeZone.ofFile (some bytes) = .ok tz ↔
      ∃ r s, readZone.outcome ⟨bytes, {}⟩ = .ok (r, s) ∧ tz = ⟨some s.record⟩ := by
  have hfile : TimeZone.ofFile (some bytes) =
      readZone.outcome ⟨bytes, {}⟩ >>= fun p => .ok ⟨some p.2.record⟩ := by
    rw [ofFile, readTimeZoneFile]
    cases readZone.outcome ⟨bytes, {}⟩ <;> rfl
  rw [hfile, Checked.bind_eq_ok]
  constructor
  · rintro ⟨⟨r, s⟩, houtcome, htz⟩
    exact ⟨r, s, houtcome, (Except.ok.inj htz).symm⟩
  · rintro ⟨r, s, houtcome, rfl⟩
    exact ⟨(r, s), houtcome, rfl⟩

/-- A well-formed file gives types that exist. -/
theorem ZoneFile.WF.inRange {z : ZoneFile} (h : z.WF) : z.data.InRange where
  localtimes := by
    intro hnil
    exact h.types_ne (List.map_eq_nil_iff.mp hnil)
  localtimeIdx := by
    intro t ht
    obtain ⟨p, hp, rfl⟩ := List.mem_map.mp ht
    rw [data, List.length_map]
    exact (h.times p hp).2
  arrbIdx := by
    intro loc hloc
    obtain ⟨info, hinfo, rfl⟩ := List.mem_map.mp hloc
    exact h.abbrind info hinfo

/-- Tables in range come from the text of a zone file. -/
theorem ZoneFile.exists_of_inRange {bytes : List UInt8} {r : Except String Unit}
    {s : Source UInt8 ZoneData} (hs : readZone.outcome ⟨bytes, {}⟩ = .ok (r, s))
    (hin : s.record.InRange) : ∃ (z : ZoneFile) (rest : List UInt8), z.WF ∧ bytes = z.render ++ rest := by
  cases r with
  | error e =>
      -- there is a type, but there are no characters for its abbreviation
      have hchars : s.record.abbreviation = [] := readZone_keepsThrowing _ e s hs rfl
      obtain ⟨loc, hloc⟩ := List.exists_mem_of_ne_nil _ hin.localtimes
      have hlt := hin.arrbIdx loc hloc
      rw [hchars] at hlt
      exact absurd hlt (Nat.not_lt_zero _)
  | ok _ =>
      obtain ⟨z, hz, hbytes, hdata⟩ := exists_of_gives hs hin.localtimes
      rw [hdata] at hin
      refine ⟨z, s.rest, { toReadable := hz, types_ne := ?_, abbrind := ?_ }, hbytes⟩
      · exact fun hnil => hin.localtimes (List.map_eq_nil_iff.mpr hnil)
      · exact fun info hinfo => hin.arrbIdx info.localtime (List.mem_map_of_mem hinfo)

/-- **Loading a zone file.** A file is read without a fault, into a time zone that is invalid or has tables
in range, so that no conversion has a fault, exactly if it begins with the text of a zone file that has a
type and whose indices are in range. -/
theorem zoneFile_loads_iff (file : Option (List UInt8)) :
    (∃ tz, TimeZone.ofFile file = .ok tz ∧ (tz.valid = false ∨ tz.InRange ∧ ∀ gmtime timegm,
      (∀ seconds, ∃ tm, tz.toLocalTime gmtime seconds = .ok tm) ∧
      ∀ tm, ∃ seconds, tz.fromLocalTime gmtime timegm tm = .ok seconds)) ↔
    ∃ (z : ZoneFile) (rest : List UInt8), z.WF ∧ file = some (z.render ++ rest) := by
  constructor
  · rintro ⟨tz, htz, hload⟩
    cases file with
    | none =>
        cases htz
        rcases hload with hvalid | ⟨⟨data, hdata, hin⟩, -⟩
        · cases hvalid
        · cases hdata
          exact absurd rfl hin.localtimes
    | some bytes =>
        obtain ⟨r, s, hs, rfl⟩ := TimeZone.ofFile_eq_ok.mp htz
        rcases hload with hvalid | ⟨⟨data, hdata, hin⟩, -⟩
        · cases hvalid
        · cases hdata
          obtain ⟨z, rest, hz, rfl⟩ := ZoneFile.exists_of_inRange hs hin
          exact ⟨z, rest, hz, rfl⟩
  · rintro ⟨z, rest, hz, rfl⟩
    have htz : TimeZone.ofFile (some (z.render ++ rest)) = .ok ⟨some z.data⟩ :=
      TimeZone.ofFile_eq_ok.mpr ⟨_, _, hz.toReadable.gives rest, rfl⟩
    have hin : (⟨some z.data⟩ : TimeZone).InRange := ⟨z.data, rfl, hz.inRange⟩
    refine ⟨_, htz, .inr ⟨hin, fun gmtime timegm => ⟨fun seconds => ?_, fun tm => ?_⟩⟩⟩
    · obtain ⟨tm, htm, -⟩ := hin.toLocalTime_sat gmtime seconds
      exact ⟨tm, htm⟩
    · obtain ⟨seconds, hseconds, -⟩ := hin.fromLocalTime_sat gmtime timegm tm
      exact ⟨seconds, hseconds⟩

/-- The part for 2024 of the zone file of New York: `EST` and `EDT`, the clocks go forward on 10 March and
back on 3 November. -/
def newYorkFile : ZoneFile :=
  { version := [50], unused := List.replicate 15 0, isgmtcnt := 2, isstdcnt := 2, leapcnt := 0
    times := [(1710054000, 1), (1730613600, 0)], types := [⟨-18000, 0, 0⟩, ⟨-14400, 1, 4⟩]
    chars := [69, 83, 84, 0, 69, 68, 84, 0] }

/-- `newYorkFile` is well formed. -/
theorem newYorkFile_wf : newYorkFile.WF where
  header :=
    { version := rfl
      unused := rfl
      isgmtcnt := by decide
      isstdcnt := by decide
      leapcnt := by decide
      timecnt := by decide
      typecnt := by decide
      charcnt := by decide }
  times := by decide
  types := by decide
  types_ne := List.cons_ne_nil _ _
  abbrind := by decide

/-- Two changes of the clocks, and behind the tables the flags of the types, which are not read. -/
theorem zoneFile_loads_newYork :
    TimeZone.ofFile (some (newYorkFile.render ++ [0, 0, 0, 0])) = .ok ⟨some
      ⟨[⟨1710054000, 1710039600, 1⟩, ⟨1730613600, 1730595600, 0⟩],
        [⟨-18000, false, 0⟩, ⟨-14400, true, 4⟩], [69, 83, 84, 0, 69, 68, 84, 0]⟩⟩ ∧
    ∃ tz, TimeZone.ofFile (some (newYorkFile.render ++ [0, 0, 0, 0])) = .ok tz ∧
      (tz.valid = false ∨ tz.InRange ∧ ∀ gmtime timegm,
        (∀ seconds, ∃ tm, tz.toLocalTime gmtime seconds = .ok tm) ∧
        ∀ tm, ∃ seconds, tz.fromLocalTime gmtime timegm tm = .ok seconds) :=
  ⟨TimeZone.ofFile_eq_ok.mpr ⟨_, _, newYorkFile_wf.toReadable.gives _, rfl⟩,
    (zoneFile_loads_iff _).mpr ⟨newYorkFile, _, newYorkFile_wf, rfl⟩⟩

/-- The zone file of UTC. -/
def utcFile : ZoneFile :=
  { version := [50], unused := List.replicate 15 0, isgmtcnt := 0, isstdcnt := 0, leapcnt := 0
    times := [], types := [⟨0, 0, 0⟩], chars := [85, 84, 67, 0] }

/-- A zone file with a transition to a type that it does not have. -/
def strayFile : ZoneFile := { utcFile with times := [(0, 1)] }

/-- Without a file the time zone is valid, but there is no type, and the conversion of a time has a fault.
An index of a transition may be out of range while the file is read, and the number of characters may be
negative. -/
theorem zoneFile_not_checked :
    (TimeZone.ofFile none = .ok ⟨some {}⟩ ∧ (⟨some {}⟩ : TimeZone).valid = true ∧
      ∀ gmtime seconds,
        (⟨some {}⟩ : TimeZone).toLocalTime gmtime seconds = .error "data.localtimes.front()") ∧
    TimeZone.ofFile (some strayFile.render) = .error "data->localtimes[localIdx]" ∧
    TimeZone.ofFile (some { utcFile.header with typecnt := 0, charcnt := -1 }.print) =
      .error "char buf[n]" := by
  refine ⟨⟨rfl, rfl, fun _ _ => rfl⟩, ?_, ?_⟩
  · rfl
  · rfl

end Muduo
