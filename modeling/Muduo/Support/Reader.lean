import Muduo.Support.Checked

/-! # Readers

A `Reader` takes elements from the front of a source and fills a record on the way. It ends with a value or
with a thrown text, and what it did to the source and the record stays in both cases; a fault stops it for
good. `Gives` says how a reader returns a value, with one rule for each way to put readers together.
`Reads` says this for a reader that is the inverse of a way to write its values, and `Reads.times` for a
loop of such a reader. `Keeps` is about both ways to end. -/

namespace Support

/-- What is left of the source, and the record. -/
structure Source (β δ : Type) where
  rest : List β
  record : δ

/-- A reader of values `α`. -/
abbrev Reader (β δ α : Type) : Type := ExceptT String (StateT (Source β δ) Checked) α

namespace Reader

variable {β δ α γ : Type}

/-- How a reader ends: with a value or a thrown text. -/
def outcome (r : Reader β δ α) (s : Source β δ) : Checked (Except String α × Source β δ) :=
  StateT.run (ExceptT.run r) s

/-- A step that neither reads nor throws; its fault stops the reader. -/
def lift (x : Checked α) : Reader β δ α := ExceptT.lift (StateT.lift x)

/-- The record. -/
def record : Reader β δ δ := do
  let s ← get
  return s.record

/-- Change the record. -/
def update (f : δ → δ) : Reader β δ Unit := modify fun s => { s with record := f s.record }

/-- Take `n` elements, or what is left of them and throw `text`. -/
def take (n : Nat) (text : String) : Reader β δ (List β) := do
  let s ← get
  set { s with rest := s.rest.drop n }
  if s.rest.length < n then throw text else return s.rest.take n

/-- Read `n` times. -/
def times (r : Reader β δ α) : Nat → Reader β δ (List α)
  | 0 => return []
  | n + 1 => do
      let a ← r
      let as ← times r n
      return a :: as

/-! ## Values -/

/-- From `s` the reader returns `a` and leaves `t`. -/
def Gives (r : Reader β δ α) (s : Source β δ) (a : α) (t : Source β δ) : Prop :=
  r.outcome s = .ok (.ok a, t)

variable {r : Reader β δ α} {f : α → Reader β δ γ} {s t u : Source β δ}

/-- Go on from the end of a reader; a thrown text is passed on. -/
def resume (f : α → Reader β δ γ) : Except String α × Source β δ →
    Checked (Except String γ × Source β δ)
  | (.ok a, t) => (f a).outcome t
  | (.error e, t) => .ok (.error e, t)

/-- One reader after the other. -/
theorem outcome_bind : (r >>= f).outcome s = r.outcome s >>= resume f := by
  change StateT.run (ExceptT.run (r >>= f)) s = _
  rw [ExceptT.run_bind, StateT.run_bind]
  refine congrArg _ (funext fun p => ?_)
  obtain ⟨e | a, t⟩ := p
  · rfl
  · rfl

@[simp] theorem gives_pure {a b : α} : (pure a : Reader β δ α).Gives s b t ↔ b = a ∧ t = s := by
  have hpure : (pure a : Reader β δ α).outcome s = .ok (.ok a, s) := rfl
  rw [Gives, hpure]
  simp [eq_comm]

@[simp] theorem not_gives_throw {a : α} {text : String} : ¬ (throw text : Reader β δ α).Gives s a t :=
  nofun

/-- What two readers give. -/
theorem gives_bind {c : γ} :
    (r >>= f).Gives s c u ↔ ∃ a t, r.Gives s a t ∧ (f a).Gives t c u := by
  rw [Gives, outcome_bind, Checked.bind_eq_ok]
  constructor
  · rintro ⟨⟨e | a, t⟩, hr, hf⟩
    · cases hf
    · exact ⟨a, t, hr, hf⟩
  · rintro ⟨a, t, hr, hf⟩
    exact ⟨(.ok a, t), hr, hf⟩

/-- What a mapped reader gives. -/
theorem gives_map {g : α → γ} {c : γ} :
    (g <$> r).Gives s c t ↔ ∃ a, r.Gives s a t ∧ c = g a := by
  rw [← bind_pure_comp, gives_bind]
  constructor
  · rintro ⟨a, u, hr, hpure⟩
    obtain ⟨rfl, rfl⟩ := gives_pure.mp hpure
    exact ⟨a, hr, rfl⟩
  · rintro ⟨a, hr, rfl⟩
    exact ⟨a, t, hr, gives_pure.mpr ⟨rfl, rfl⟩⟩

@[simp] theorem gives_lift {x : Checked α} {a : α} :
    (lift x : Reader β δ α).Gives s a t ↔ x = .ok a ∧ t = s := by
  cases x with
  | error e =>
      have hlift : (lift (.error e) : Reader β δ α).outcome s = .error e := rfl
      rw [Gives, hlift]
      simp
  | ok b =>
      have hlift : (lift (.ok b) : Reader β δ α).outcome s = .ok (.ok b, s) := rfl
      rw [Gives, hlift]
      simp [eq_comm]

@[simp] theorem gives_record {d : δ} :
    (record : Reader β δ δ).Gives s d t ↔ d = s.record ∧ t = s := by
  have hrecord : (record : Reader β δ δ).outcome s = .ok (.ok s.record, s) := rfl
  rw [Gives, hrecord]
  simp [eq_comm]

@[simp] theorem gives_update {g : δ → δ} {a : Unit} :
    (update g : Reader β δ Unit).Gives s a t ↔ t = { s with record := g s.record } := by
  have hupdate : (update g : Reader β δ Unit).outcome s = .ok (.ok (), ⟨s.rest, g s.record⟩) := rfl
  rw [Gives, hupdate]
  simp [eq_comm]

/-- How a reader of a block ends. -/
theorem outcome_take {n : Nat} {text : String} : (take n text : Reader β δ (List β)).outcome s =
    .ok (if s.rest.length < n then .error text else .ok (s.rest.take n), ⟨s.rest.drop n, s.record⟩) := by
  have hend : (take n text : Reader β δ (List β)).outcome s =
      outcome (if s.rest.length < n then throw text else return s.rest.take n)
        ⟨s.rest.drop n, s.record⟩ := rfl
  rw [hend]
  by_cases h : s.rest.length < n
  · rw [if_pos h, if_pos h]
    rfl
  · rw [if_neg h, if_neg h]
    rfl

/-- `r` reads what `print` writes of the values that satisfy `ok`, and fills the record by `fill`. -/
def Reads (r : Reader β δ α) (ok : α → Prop) (print : α → List β) (fill : δ → α → δ) : Prop :=
  ∀ s a t, r.Gives s a t ↔ ok a ∧ s.rest = print a ++ t.rest ∧ t.record = fill s.record a

/-- A reader is a printer's inverse, shown both ways. -/
theorem Reads.intro {ok : α → Prop} {print : α → List β} {fill : δ → α → δ}
    (hto : ∀ s a t, r.Gives s a t → ok a ∧ s.rest = print a ++ t.rest ∧ t.record = fill s.record a)
    (hof : ∀ a rest d, ok a → r.Gives ⟨print a ++ rest, d⟩ a ⟨rest, fill d a⟩) :
    r.Reads ok print fill := by
  rintro ⟨rest, d⟩ a ⟨rest', d'⟩
  refine ⟨hto _ _ _, ?_⟩
  rintro ⟨hok, hrest, hrecord⟩
  obtain rfl : rest = print a ++ rest' := hrest
  obtain rfl : d' = fill d a := hrecord
  exact hof a rest' d hok

/-- A printed value is read. -/
theorem Reads.gives {ok : α → Prop} {print : α → List β} {fill : δ → α → δ} (hr : r.Reads ok print fill)
    {a : α} (ha : ok a) {rest : List β} {d : δ} :
    r.Gives ⟨print a ++ rest, d⟩ a ⟨rest, fill d a⟩ :=
  (hr _ _ _).mpr ⟨ha, rfl, rfl⟩

/-- A block is read back. -/
theorem reads_take {n : Nat} {text : String} :
    (take n text : Reader β δ (List β)).Reads (fun a => a.length = n) id (fun d _ => d) := by
  rintro ⟨rest, d⟩ a ⟨rest', d'⟩
  rw [Gives, outcome_take]
  constructor
  · intro h
    by_cases hlt : rest.length < n
    · rw [if_pos hlt] at h
      simp at h
    · rw [if_neg hlt] at h
      simp only [Except.ok.injEq, Prod.mk.injEq, Source.mk.injEq] at h
      obtain ⟨rfl, rfl, rfl⟩ := h
      exact ⟨List.length_take_of_le (Nat.le_of_not_lt hlt), (List.take_append_drop n rest).symm, rfl⟩
  · rintro ⟨rfl, hrest, rfl⟩
    obtain rfl : rest = a ++ rest' := hrest
    rw [if_neg (by simp), List.take_left, List.drop_left]

/-- A reader of an isomorphic value. -/
theorem Reads.map {ok : α → Prop} {print : α → List β} {fill : δ → α → δ} (hr : r.Reads ok print fill)
    {g : α → γ} {g' : γ → α} {ok' : γ → Prop} (hto : ∀ a, ok a → ok' (g a) ∧ g' (g a) = a)
    (hof : ∀ c, ok' c → ok (g' c) ∧ g (g' c) = c) :
    (g <$> r).Reads ok' (print ∘ g') (fun d c => fill d (g' c)) := by
  intro s c t
  rw [gives_map]
  constructor
  · rintro ⟨a, ha, rfl⟩
    obtain ⟨hok, hrest, hrecord⟩ := (hr s a t).mp ha
    obtain ⟨hok', hinv⟩ := hto a hok
    refine ⟨hok', ?_, ?_⟩
    · rw [Function.comp_apply, hinv, hrest]
    · rw [hrecord]
      exact congrArg (fill s.record) hinv.symm
  · rintro ⟨hok', hrest, hrecord⟩
    obtain ⟨hok, hinv⟩ := hof c hok'
    exact ⟨g' c, (hr s (g' c) t).mpr ⟨hok, hrest, hrecord⟩, hinv.symm⟩

/-- The loop reads what is written of a list, one value after the other. -/
theorem Reads.times {ok : α → Prop} {print : α → List β} {fill : δ → α → δ} (hr : r.Reads ok print fill)
    (n : Nat) : (r.times n).Reads (fun as => as.length = n ∧ ∀ a ∈ as, ok a) (List.flatMap print)
      (List.foldl fill) := by
  induction n with
  | zero =>
      rintro ⟨rest, d⟩ as ⟨rest', d'⟩
      rw [Reader.times, gives_pure]
      constructor
      · rintro ⟨rfl, heq⟩
        cases heq
        exact ⟨⟨rfl, nofun⟩, rfl, rfl⟩
      · rintro ⟨⟨hlength, -⟩, hrest, hrecord⟩
        obtain rfl := List.eq_nil_of_length_eq_zero hlength
        cases hrest
        cases hrecord
        exact ⟨rfl, rfl⟩
  | succ n ih =>
      intro s as u
      rw [Reader.times, gives_bind]
      constructor
      · rintro ⟨a, t, ha, h⟩
        obtain ⟨as', t', has, hpure⟩ := gives_bind.mp h
        obtain ⟨rfl, rfl⟩ := gives_pure.mp hpure
        obtain ⟨hok, hrest, hrecord⟩ := (hr s a t).mp ha
        obtain ⟨⟨hlength, hall⟩, hrest', hrecord'⟩ := (ih t as' u).mp has
        refine ⟨⟨congrArg (· + 1) hlength, List.forall_mem_cons.mpr ⟨hok, hall⟩⟩, ?_, ?_⟩
        · rw [hrest, hrest', List.flatMap_cons, List.append_assoc]
        · rw [hrecord', hrecord, List.foldl_cons]
      · rintro ⟨⟨hlength, hall⟩, hrest, hrecord⟩
        obtain ⟨a, as, rfl⟩ := List.exists_cons_of_length_eq_add_one hlength
        obtain ⟨hok, hall⟩ := List.forall_mem_cons.mp hall
        rw [List.flatMap_cons, List.append_assoc] at hrest
        refine ⟨a, ⟨as.flatMap print ++ u.rest, fill s.record a⟩, (hr _ _ _).mpr ⟨hok, hrest, rfl⟩, ?_⟩
        refine gives_bind.mpr ⟨as, u, (ih _ _ _).mpr ⟨⟨Nat.succ.inj hlength, hall⟩, rfl, hrecord⟩, ?_⟩
        exact gives_pure.mpr ⟨rfl, rfl⟩

/-! ## Both ways to end -/

/-- The record keeps a property, whether the reader returns or throws. -/
def Keeps (r : Reader β δ α) (P : δ → Prop) : Prop :=
  ∀ s p, r.outcome s = .ok p → P s.record → P p.2.record

variable {P : δ → Prop}

/-- A value keeps the property. -/
theorem Keeps.pure {a : α} : (pure a : Reader β δ α).Keeps P := by
  intro s p hp hs
  cases hp
  exact hs

/-- A throw keeps the property. -/
theorem Keeps.throw {text : String} : (throw text : Reader β δ α).Keeps P := by
  intro s p hp hs
  cases hp
  exact hs

/-- One reader after the other keeps the property. -/
theorem Keeps.bind (hr : r.Keeps P) (hf : ∀ a, (f a).Keeps P) : (r >>= f).Keeps P := by
  intro s p hp hs
  rw [outcome_bind] at hp
  obtain ⟨⟨e | a, t⟩, ht, hresume⟩ := Checked.bind_eq_ok.mp hp
  · cases hresume
    exact hr s _ ht hs
  · exact hf a t p hresume (hr s _ ht hs)

/-- A mapped reader keeps the property. -/
theorem Keeps.map {g : α → γ} (hr : r.Keeps P) : (g <$> r).Keeps P := by
  rw [← bind_pure_comp]
  exact hr.bind fun _ => .pure

/-- A checked value keeps the property. -/
theorem Keeps.lift {x : Checked α} : (lift x : Reader β δ α).Keeps P := by
  intro s p hp hs
  cases x with
  | error e => cases hp
  | ok a =>
      cases hp
      exact hs

/-- Looking at the record keeps it. -/
theorem Keeps.record : (record : Reader β δ δ).Keeps P := by
  intro s p hp hs
  cases hp
  exact hs

/-- An update that keeps the property. -/
theorem Keeps.update {g : δ → δ} (hg : ∀ d, P d → P (g d)) : (update g : Reader β δ Unit).Keeps P := by
  intro s p hp hs
  cases hp
  exact hg _ hs

/-- Taking bytes keeps the property. -/
theorem Keeps.take {n : Nat} {text : String} : (take n text : Reader β δ (List β)).Keeps P := by
  intro s p hp hs
  rw [outcome_take] at hp
  cases hp
  exact hs

/-- Repeating keeps the property. -/
theorem Keeps.times (hr : r.Keeps P) (n : Nat) : (r.times n).Keeps P := by
  induction n with
  | zero => exact .pure
  | succ n ih => exact hr.bind fun _ => ih.bind fun _ => .pure

/-- A loop over a list. -/
theorem Keeps.forM {g : γ → Reader β δ Unit} (hg : ∀ c, (g c).Keeps P) (cs : List γ) :
    (cs.forM g).Keeps P := by
  induction cs with
  | nil => exact .pure
  | cons c cs ih => exact (hg c).bind fun _ => ih

/-- The record keeps a property when the reader throws. -/
def KeepsThrowing (r : Reader β δ α) (P : δ → Prop) : Prop :=
  ∀ s e t, r.outcome s = .ok (.error e, t) → P s.record → P t.record

/-- A reader that keeps the property keeps it when it throws. -/
theorem Keeps.keepsThrowing (hr : r.Keeps P) : r.KeepsThrowing P := fun s _ _ ht hs => hr s _ ht hs

/-- A reader that keeps the property, and one that keeps it when it throws. -/
theorem Keeps.bind_keepsThrowing (hr : r.Keeps P) (hf : ∀ a, (f a).KeepsThrowing P) :
    (r >>= f).KeepsThrowing P := by
  intro s e u hu hs
  rw [outcome_bind] at hu
  obtain ⟨⟨e | a, t⟩, ht, hresume⟩ := Checked.bind_eq_ok.mp hu
  · cases hresume
    exact hr s _ ht hs
  · exact hf a t e u hresume (hr s _ ht hs)

/-- An update does not throw. -/
theorem keepsThrowing_update {g : δ → δ} : (update g : Reader β δ Unit).KeepsThrowing P := by
  intro s e t ht
  cases ht

end Reader

end Support
