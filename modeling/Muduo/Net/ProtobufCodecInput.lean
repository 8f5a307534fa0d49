import Muduo.Net.ProtobufCodecFrames

/-! # `ProtobufCodecLite` on arbitrary input

The bytes that a receiver gets need not be what a sender has sent: any of them may be corrupted.
`codec_receives` says what `onMessage` then does, for every stream, every tag and every way to cut the
stream into segments. The accesses of `parse` and `validateChecksum` are checked by running the same code
on functions that refuse to read outside the frame (`onMessageWithin`). -/

namespace Muduo.Net

open Support

namespace ProtobufCodecLite

variable {Msg : Type} (codec : ProtobufCodecLite Msg)

/-! ## Accesses to a frame -/

/-- The bytes `[start, start + len)` of a frame, which must be bytes of the frame. -/
def readWithin (frame : List Byte) (start len : Int) : Checked (List Byte) := do
  assert (0 ≤ start ∧ 0 ≤ len ∧ start + len ≤ frame.length) "access outside the frame"
  return (frame.drop start.toNat).take len.toNat

/-- `validateChecksum(buf, len)`, where `[buf, buf + len)` is the frame behind its header. -/
def validateChecksumWithin (buf : List Byte) (len : Int) : Checked Bool := do
  let expectedCheckSum ← readWithin buf (len - kChecksumLen) 4
  let bytes ← readWithin buf 0 (len - kChecksumLen)
  return codec.checksum bytes = asInt32 expectedCheckSum

/-- `parse(buf, len, message)`, where `[buf, buf + len)` is the frame behind its header. -/
def parseWithin (buf : List Byte) (len : Int) : Checked (Except ErrorCode Msg) := do
  if ← codec.validateChecksumWithin buf len then
    let front ← readWithin buf 0 codec.tag.length -- `memcmp`
    if front = codec.tag then
      let dataLen : Int := len - kChecksumLen - codec.tag.length
      let data ← readWithin buf codec.tag.length dataLen
      match codec.library.parseFromArray data with
      | some message => return .ok message
      | none => return .error .kParseError
    else return .error .kUnknownMessageType
  else return .error .kCheckSumError

/-- A turn of the loop in `onMessage`, with checked accesses. -/
def onMessageTurnWithin : Receiver Msg → Checked (Receiver Msg ⊕ Receiver Msg × Option ErrorCode)
  | ⟨buf, events⟩ =>
      if codec.kMinMessageLen + kHeaderLen ≤ buf.readableBytes then do
        let len ← buf.peekInt32
        if len > kMaxMessageLen ∨ len < codec.kMinMessageLen then
          return .inr (⟨buf, events ++ [.errorCallback .kInvalidLength]⟩, some .kInvalidLength)
        else if kHeaderLen + len.toNat ≤ buf.readableBytes then
          let frame := buf.peekBytes (kHeaderLen + len.toNat)
          let (raw, goOn) := codec.callRaw frame
          if goOn then
            assert (codec.kMinMessageLen ≤ len ∧ len ≤ kMaxMessageLen) "a frame of another length"
            match ← codec.parseWithin (frame.drop kHeaderLen) len with
            | .ok message => do
                let buf ← buf.retrieve (kHeaderLen + len.toNat)
                return .inl ⟨buf, events ++ raw ++ [.messageCallback message]⟩
            | .error errorCode =>
                return .inr (⟨buf, events ++ raw ++ [.errorCallback errorCode]⟩, some errorCode)
          else do
            let buf ← buf.retrieve (kHeaderLen + len.toNat)
            return .inl ⟨buf, events ++ raw⟩
        else return .inr (⟨buf, events⟩, none)
      else return .inr (⟨buf, events⟩, none)

/-- `onMessage(conn, buf, receiveTime)`, with checked accesses. -/
def onMessageWithin (r : Receiver Msg) : Checked (Receiver Msg) := do
  let (r, _) ← loop codec.onMessageTurnWithin (r.inputBuffer.readableBytes + 1) r
  return r

/-- A read within the frame gives the bytes. -/
theorem readWithin_eq {frame : List Byte} {start len : Int} {i n : Nat} (hstart : start = i)
    (hlen : len = n) (h : i + n ≤ frame.length) :
    readWithin frame start len = .ok ((frame.drop i).take n) := by
  subst hstart hlen
  have hin : 0 ≤ (i : Int) ∧ 0 ≤ (n : Int) ∧ (i : Int) + n ≤ frame.length := by omega
  rw [readWithin, assert_pos hin]
  rfl

/-- A checksum within the frame is the checksum. -/
theorem validateChecksumWithin_eq {frame : List Byte} (h : kChecksumLen ≤ frame.length) :
    codec.validateChecksumWithin frame frame.length = .ok (codec.validateChecksum frame) := by
  have hfour : kChecksumLen = 4 := rfl
  have hlen : (frame.length : Int) - kChecksumLen = (frame.length - kChecksumLen : Nat) := by omega
  have hstored : readWithin frame (frame.length - kChecksumLen) 4
      = .ok ((frame.drop (frame.length - kChecksumLen)).take 4) :=
    readWithin_eq hlen rfl (by omega)
  have hbytes : readWithin frame 0 (frame.length - kChecksumLen)
      = .ok (frame.take (frame.length - kChecksumLen)) :=
    readWithin_eq (i := 0) rfl hlen (by omega)
  have htake : asInt32 ((frame.drop (frame.length - kChecksumLen)).take 4)
      = asInt32 (frame.drop (frame.length - kChecksumLen)) := by
    rw [asInt32, List.take_take, Nat.min_self, asInt32]
  rw [validateChecksumWithin, hstored, Checked.ok_bind, hbytes, Checked.ok_bind, htake]
  rfl

/-- A frame that is long enough is parsed without an access outside of it. -/
theorem parseWithin_eq {frame : List Byte} (h : codec.kMinMessageLen ≤ frame.length) :
    codec.parseWithin frame frame.length = .ok (codec.parse frame) := by
  have hmin : codec.tag.length + kChecksumLen ≤ frame.length := h
  -- the lengths that the source subtracts do not become negative
  have hlen : (frame.length : Int) - kChecksumLen - codec.tag.length
      = (frame.length - kChecksumLen - codec.tag.length : Nat) := by omega
  have hfront : readWithin frame 0 codec.tag.length = .ok (frame.take codec.tag.length) :=
    readWithin_eq (i := 0) rfl rfl (by omega)
  have hdata : readWithin frame codec.tag.length (frame.length - kChecksumLen - codec.tag.length)
      = .ok ((frame.drop codec.tag.length).take
          (frame.length - kChecksumLen - codec.tag.length)) :=
    readWithin_eq rfl hlen (by omega)
  rw [parseWithin, codec.validateChecksumWithin_eq (by omega), Checked.ok_bind, parse]
  simp only [hfront, hdata, Checked.ok_bind]
  split
  · split
    · cases codec.library.parseFromArray _ <;> rfl
    · rfl
  · rfl

/-- The frame behind its header is as long as the header says. -/
theorem parseWithin_peekBytes {buf : ByteQueue} {len : Int} (hmin : codec.kMinMessageLen ≤ len)
    (hwhole : kHeaderLen + len.toNat ≤ buf.readableBytes) :
    codec.parseWithin ((buf.peekBytes (kHeaderLen + len.toNat)).drop kHeaderLen) len
      = .ok (codec.parse ((buf.peekBytes (kHeaderLen + len.toNat)).drop kHeaderLen)) := by
  have hlen : ((buf.peekBytes (kHeaderLen + len.toNat)).drop kHeaderLen).length = len.toNat := by
    rw [ByteQueue.readableBytes_eq] at hwhole
    rw [ByteQueue.peekBytes, List.length_drop, List.length_take_of_le hwhole]
    omega
  rw [← codec.parseWithin_eq (by omega), hlen, Int.toNat_of_nonneg (by omega)]

/-- A turn never reads outside the frame. -/
theorem onMessageTurnWithin_eq (r : Receiver Msg) :
    codec.onMessageTurnWithin r = codec.onMessageTurn r := by
  obtain ⟨buf, events⟩ := r
  simp only [onMessageTurnWithin, onMessageTurn]
  by_cases hread : codec.kMinMessageLen + kHeaderLen ≤ buf.readableBytes
  · rw [if_pos hread, if_pos hread]
    cases buf.peekInt32 with
    | error e => rw [Checked.error_bind, Checked.error_bind]
    | ok len =>
        rw [Checked.ok_bind, Checked.ok_bind]
        by_cases hbad : len > kMaxMessageLen ∨ len < codec.kMinMessageLen
        · rw [if_pos hbad, if_pos hbad]
        · rw [if_neg hbad, if_neg hbad]
          by_cases hwhole : kHeaderLen + len.toNat ≤ buf.readableBytes
          · have hmin : (codec.kMinMessageLen : Int) ≤ len := not_lt.mp (not_or.mp hbad).2
            have hmax : len ≤ kMaxMessageLen := not_lt.mp (not_or.mp hbad).1
            have hparse := codec.parseWithin_peekBytes hmin hwhole
            rewrite [if_pos hwhole, if_pos hwhole, assert_pos ⟨hmin, hmax⟩, Checked.ok_bind, hparse,
              Checked.ok_bind]
            cases codec.parse ((buf.peekBytes (kHeaderLen + len.toNat)).drop kHeaderLen) <;> rfl
          · rw [if_neg hwhole, if_neg hwhole]
  · rw [if_neg hread, if_neg hread]

/-- No call of `onMessage` accesses anything outside a frame. -/
theorem onMessageWithin_eq (r : Receiver Msg) : codec.onMessageWithin r = codec.onMessage r := by
  have hturn : codec.onMessageTurnWithin = codec.onMessageTurn := funext codec.onMessageTurnWithin_eq
  rw [onMessageWithin, onMessage, hturn]

/-! ## Frames on the wire -/

/-- The error of the frame at the front, if the bytes are enough to tell. -/
def frameError (xs : List Byte) : Option ErrorCode :=
  if codec.kMinMessageLen + kHeaderLen ≤ xs.length then
    let len := intOfBytes (xs.take 4)
    if len > kMaxMessageLen ∨ len < codec.kMinMessageLen then some .kInvalidLength
    else if kHeaderLen + len.toNat ≤ xs.length then
      match codec.parse ((xs.take (kHeaderLen + len.toNat)).drop kHeaderLen) with
      | .ok _ => none
      | .error errorCode => some errorCode
    else none
  else none

/-- `stream` begins with the frames `fs`, behind which is `rest`; and with no more frames than these. -/
structure Longest (stream : List Byte) (fs : List (List Byte × Msg)) (rest : List Byte) : Prop where
  split : stream = (fs.map Prod.fst).flatten ++ rest
  frames : ∀ f ∈ fs, codec.IsFrame f.1 f.2
  longest : ∀ gs : List (List Byte × Msg), (∀ g ∈ gs, codec.IsFrame g.1 g.2) →
    (gs.map Prod.fst).flatten <+: stream → gs <+: fs

variable {codec}

/-- `parse` accepts what has the parts of a frame in its places. -/
theorem parse_eq_ok_iff {body : List Byte} (h : codec.kMinMessageLen ≤ body.length) {message : Msg} :
    codec.parse body = .ok message ↔ ∃ payload checkSum : List Byte,
      body = codec.tag ++ payload ++ checkSum ∧ checkSum.length = kChecksumLen ∧
        intOfBytes checkSum = codec.checksum (codec.tag ++ payload) ∧
        codec.library.parseFromArray payload = some message := by
  have hmin : codec.tag.length + kChecksumLen ≤ body.length := h
  constructor
  · intro hparse
    unfold parse at hparse
    split at hparse
    · next hvalid =>
        split at hparse
        · next htag =>
            dsimp only at hparse
            split at hparse
            · next hdata =>
                cases hparse
                have hlen' : codec.tag.length + (body.length - kChecksumLen - codec.tag.length)
                    = body.length - kChecksumLen := by omega
                have hfront : codec.tag ++ (body.drop codec.tag.length).take
                    (body.length - kChecksumLen - codec.tag.length)
                      = body.take (body.length - kChecksumLen) := by
                  rw [← hlen', List.take_add, htag, hlen']
                have hsum : codec.checksum (body.take (body.length - kChecksumLen))
                    = asInt32 (body.drop (body.length - kChecksumLen)) := by
                  simpa [validateChecksum] using hvalid
                have hlen : (body.drop (body.length - kChecksumLen)).length = kChecksumLen := by
                  rw [List.length_drop]
                  omega
                refine ⟨_, body.drop (body.length - kChecksumLen), ?_, hlen, ?_, hdata⟩
                · rw [hfront, List.take_append_drop]
                · rw [hfront, hsum, asInt32_of_length hlen]
            · cases hparse
        · cases hparse
    · cases hparse
  · rintro ⟨payload, checkSum, rfl, hlen, hchecksum, hpayload⟩
    exact codec.parse_append hlen hchecksum hpayload

/-- Bytes with a good size that are parsed are a frame. -/
theorem isFrame_of_parse {xs : List Byte} {n : Nat} {message : Msg}
    (hsize : intOfBytes (xs.take 4) = n) (hmin : codec.kMinMessageLen ≤ n) (hmax : n ≤ kMaxMessageLen)
    (hwhole : kHeaderLen + n ≤ xs.length)
    (hparse : codec.parse ((xs.take (kHeaderLen + n)).drop kHeaderLen) = .ok message) :
    codec.IsFrame (xs.take (kHeaderLen + n)) message := by
  have hlen : ((xs.take (kHeaderLen + n)).drop kHeaderLen).length = n := by
    rw [List.length_drop, List.length_take_of_le hwhole, Nat.add_sub_cancel_left]
  obtain ⟨payload, checkSum, hbody, hcheck, hsum, hpayload⟩ :=
    (parse_eq_ok_iff (hmin.trans_eq hlen.symm)).mp hparse
  have htotal : codec.tag.length + payload.length + kChecksumLen = n := by
    rw [← hlen, hbody, List.length_append, List.length_append, hcheck]
  refine ⟨xs.take kHeaderLen, payload, checkSum, ?_, ?_, hcheck, ?_, ?_, hsum, hpayload⟩
  · have hfront : (xs.take (kHeaderLen + n)).take kHeaderLen = xs.take kHeaderLen := by
      rw [List.take_take, Nat.min_eq_left (Nat.le_add_right _ _)]
    rw [← hbody, ← hfront, List.take_append_drop]
  · exact List.length_take_of_le ((Nat.le_add_right _ _).trans hwhole)
  · rw [htotal]
    exact hsize
  · rw [htotal]
    exact hmax

/-- The verdict on any bytes: a frame is taken, an error reported, or more bytes are waited for. -/
theorem verdict_spec (hraw : codec.rawCb = none) (events : List (CodecEvent Msg)) (xs : List Byte) :
    (∃ f message, codec.IsFrame f message ∧ f <+: xs ∧ codec.frameError xs = none ∧
      codec.verdict events xs = .take f.length (events ++ [.messageCallback message])) ∨
    (∃ e, codec.frameError xs = some e ∧
      codec.verdict events xs = .stop 0 (events ++ [.errorCallback e]) e) ∨
    codec.frameError xs = none ∧ codec.verdict events xs = .wait := by
  unfold verdict frameError
  dsimp only
  by_cases hread : codec.kMinMessageLen + kHeaderLen ≤ xs.length
  · rw [if_pos hread, if_pos hread]
    generalize hlen : intOfBytes (xs.take 4) = len
    by_cases hbad : len > kMaxMessageLen ∨ len < codec.kMinMessageLen
    · rw [if_pos hbad, if_pos hbad]
      exact .inr (.inl ⟨_, rfl, rfl⟩)
    · rw [if_neg hbad, if_neg hbad]
      by_cases hwhole : kHeaderLen + len.toNat ≤ xs.length
      · rw [if_pos hwhole, if_pos hwhole, frameVerdict, callRaw, hraw]
        dsimp only
        cases hparse : codec.parse ((xs.take (kHeaderLen + len.toNat)).drop kHeaderLen) with
        | error e => exact .inr (.inl ⟨e, rfl, by rw [if_pos rfl, List.append_nil]⟩)
        | ok message =>
            have hmin : (codec.kMinMessageLen : Int) ≤ len := not_lt.mp (not_or.mp hbad).2
            have hmax : len ≤ kMaxMessageLen := not_lt.mp (not_or.mp hbad).1
            have hnat : len = len.toNat := (Int.toNat_of_nonneg (by omega)).symm
            refine .inl ⟨xs.take (kHeaderLen + len.toNat), message, ?_, List.take_prefix _ _, rfl, ?_⟩
            · exact isFrame_of_parse (hlen.trans hnat) (by omega) (by omega) hwhole hparse
            · rw [if_pos rfl, List.append_nil, List.length_take_of_le hwhole]
      · rw [if_neg hwhole, if_neg hwhole]
        exact .inr (.inr ⟨rfl, rfl⟩)
  · rw [if_neg hread, if_neg hread]
    exact .inr (.inr ⟨rfl, rfl⟩)

/-- Where the receiver does not take a frame, there is none. -/
theorem no_frame_in_front (hraw : codec.rawCb = none) (before : List (CodecEvent Msg))
    {xs : List Byte} (h : ∀ n after, codec.verdict before xs ≠ .take n after) (f : List Byte) (m : Msg)
    (hf : codec.IsFrame f m) : ¬ f <+: xs := by
  rintro ⟨ys, rfl⟩
  exact h _ _ (codec.verdict_of_isFrame hraw hf before ys)

/-- At the front of a stream there is at most one frame. -/
theorem IsFrame.unique (hraw : codec.rawCb = none) {f g xs : List Byte} {m m' : Msg}
    (hf : codec.IsFrame f m) (hg : codec.IsFrame g m') (hfxs : f <+: xs) (hgxs : g <+: xs) :
    (f, m) = (g, m') := by
  obtain ⟨ys, rfl⟩ := hfxs
  obtain ⟨zs, hzs⟩ := hgxs
  -- the receiver makes one decision about these bytes
  have hverdict := codec.verdict_of_isFrame hraw hf [] ys
  rw [← hzs, codec.verdict_of_isFrame hraw hg] at hverdict
  injection hverdict with hlen hmessage
  obtain ⟨rfl, -⟩ := List.append_inj hzs hlen
  cases hmessage
  rfl

/-- Where no frame begins, there are no frames. -/
theorem Longest.nil {xs : List Byte} (h : ∀ f m, codec.IsFrame f m → ¬ f <+: xs) :
    codec.Longest xs [] xs := by
  refine ⟨rfl, nofun, fun gs hgs hpre => ?_⟩
  cases gs with
  | nil => exact List.prefix_rfl
  | cons g gs =>
      rw [List.map_cons, List.flatten_cons] at hpre
      exact absurd ((List.prefix_append _ _).trans hpre) (h g.1 g.2 (hgs g (.head _)))

/-- A frame in front of frames. -/
theorem Longest.cons (hraw : codec.rawCb = none) {f xs rest : List Byte} {m : Msg}
    {fs : List (List Byte × Msg)} (hf : codec.IsFrame f m) (h : codec.Longest xs fs rest) :
    codec.Longest (f ++ xs) ((f, m) :: fs) rest := by
  refine ⟨?_, ?_, fun gs hgs hpre => ?_⟩
  · rw [h.split, List.map_cons, List.flatten_cons, List.append_assoc]
  · rw [List.forall_mem_cons]
    exact ⟨hf, h.frames⟩
  · cases gs with
    | nil => exact List.nil_prefix
    | cons g gs =>
        rw [List.forall_mem_cons] at hgs
        rw [List.map_cons, List.flatten_cons] at hpre
        obtain rfl : (f, m) = g := hf.unique hraw hgs.1 (List.prefix_append _ _)
          ((List.prefix_append _ _).trans hpre)
        rw [List.prefix_append_right_inj] at hpre
        exact (List.prefix_cons_inj _).mpr (h.longest gs hgs.2 hpre)

/-- A stream begins with its frames in one way only. -/
theorem Longest.unique {stream rest rest' : List Byte} {fs gs : List (List Byte × Msg)}
    (h : codec.Longest stream fs rest) (h' : codec.Longest stream gs rest') : fs = gs ∧ rest = rest' := by
  have hfs : fs <+: gs := h'.longest fs h.frames ⟨rest, h.split.symm⟩
  have hgs : gs <+: fs := h.longest gs h'.frames ⟨rest', h'.split.symm⟩
  obtain rfl : fs = gs := hfs.eq_of_length (Nat.le_antisymm hfs.length_le hgs.length_le)
  exact ⟨rfl, List.append_cancel_left (h.split.symm.trans h'.split)⟩

/-- The callbacks for the frames `fs`, and for the error behind them. -/
def events (codec : ProtobufCodecLite Msg) (fs : List (List Byte × Msg)) (rest : List Byte) :
    List (CodecEvent Msg) :=
  fs.map (fun f => .messageCallback f.2) ++ (codec.frameError rest).toList.map .errorCallback

/-- The consumer takes all frames there are, and stops at the error behind them. -/
theorem run_spec (hraw : codec.rawCb = none) (before : List (CodecEvent Msg)) (xs : List Byte) :
    ∃ fs rest, codec.Longest xs fs rest ∧ codec.frameConsumer.run before xs
      = .ok ⟨before ++ codec.events fs rest, rest, codec.frameError rest⟩ := by
  induction hlen : xs.length using Nat.strong_induction_on generalizing before xs with
  | _ len ih =>
      subst hlen
      have hstep : codec.frameConsumer.step before xs = .ok (codec.verdict before xs) := rfl
      rw [Consumer.run_eq, hstep, Checked.ok_bind]
      rcases verdict_spec hraw before xs with
        ⟨f, m, hf, ⟨ys, rfl⟩, -, hverdict⟩ | ⟨e, he, hverdict⟩ | ⟨hnone, hverdict⟩
      · have hlt : ys.length < (f ++ ys).length := by
          obtain ⟨size, payload, checkSum, rfl, hsize, -⟩ := hf
          simp only [List.length_append, hsize, kHeaderLen]
          omega
        obtain ⟨fs, rest, hlongest, hrun⟩ :=
          ih _ hlt (before ++ [.messageCallback m]) ys rfl
        refine ⟨(f, m) :: fs, rest, hlongest.cons hraw hf, ?_⟩
        rw [hverdict]
        dsimp only
        rw [List.drop_left, hrun]
        simp [events]
      · refine ⟨[], xs, .nil (no_frame_in_front hraw before (by simp [hverdict])), ?_⟩
        rw [hverdict]
        simp [events, he]
      · refine ⟨[], xs, .nil (no_frame_in_front hraw before (by simp [hverdict])), ?_⟩
        rw [hverdict]
        simp [events, hnone]

/-- An error that can be told is reported, whatever else has arrived. -/
theorem verdict_of_frameError (hraw : codec.rawCb = none) {xs : List Byte} {e : ErrorCode}
    (h : codec.frameError xs = some e) (before : List (CodecEvent Msg)) :
    codec.verdict before xs = .stop 0 (before ++ [.errorCallback e]) e := by
  rcases verdict_spec hraw before xs with
    ⟨f, m, -, -, hnone, -⟩ | ⟨e', he', hverdict⟩ | ⟨hnone, -⟩
  · rw [h] at hnone
    cases hnone
  · rw [h] at he'
    cases he'
    exact hverdict
  · rw [h] at hnone
    cases hnone

/-- It stays the same when more bytes arrive. -/
theorem frameError_append (hraw : codec.rawCb = none) {xs : List Byte} {e : ErrorCode}
    (h : codec.frameError xs = some e) (ys : List Byte) : codec.frameError (xs ++ ys) = some e := by
  have hverdict := verdict_of_frameError hraw h []
  have hdecided : codec.verdict [] xs ≠ .wait := by simp [hverdict]
  have happend := codec.verdict_append hdecided ys
  rw [hverdict] at happend
  rcases verdict_spec hraw [] (xs ++ ys) with ⟨f, m, -, -, -, htake⟩ | ⟨e', he', hstop⟩ | ⟨-, hwait⟩
  · rw [happend] at htake
    cases htake
  · rw [happend] at hstop
    cases hstop
    exact he'
  · rw [happend] at hwait
    cases hwait

/-- Every call behind an error reports it once more. -/
theorem rerunAll_of_error (hraw : codec.rawCb = none) {xs : List Byte} {e : ErrorCode}
    (h : codec.frameError xs = some e) (before : List (CodecEvent Msg)) (pieces : List (List Byte)) :
    ∃ rest, codec.frameConsumer.rerunAll (before, xs) pieces
      = .ok (before ++ List.replicate pieces.length (.errorCallback e), rest) := by
  induction pieces generalizing before xs with
  | nil => exact ⟨xs, by simp [Consumer.rerunAll]⟩
  | cons ys pieces ih =>
      have hstep : codec.frameConsumer.step before (xs ++ ys)
          = .ok (.stop 0 (before ++ [.errorCallback e]) e) :=
        congrArg Except.ok (verdict_of_frameError hraw (frameError_append hraw h ys) before)
      have hrun : codec.frameConsumer.run before (xs ++ ys)
          = .ok ⟨before ++ [.errorCallback e], xs ++ ys, some e⟩ := by
        rw [Consumer.run_eq, hstep]
        rfl
      obtain ⟨rest, hrest⟩ := ih (frameError_append hraw h ys) (before ++ [.errorCallback e])
      refine ⟨rest, ?_⟩
      rw [Consumer.rerunAll, Consumer.rerun, hrun]
      simp only [Checked.ok_bind, Checked.pure_eq_ok, hrest, List.length_cons,
        List.replicate_succ, List.append_assoc, List.singleton_append]

/-- Looking again after an error only repeats it. -/
theorem rerunAll_spec (hraw : codec.rawCb = none) {before : List (CodecEvent Msg)} {xs : List Byte}
    {pieces : List (List Byte)} {p : Consumer.Progress (List (CodecEvent Msg)) Byte ErrorCode}
    (h : codec.frameConsumer.feedAll ⟨before, xs, none⟩ pieces = .ok p) :
    ∃ (again : List ErrorCode) (rest : List Byte), (∀ e ∈ again, p.result = some e) ∧
      codec.frameConsumer.rerunAll (before, xs) pieces
        = .ok (p.state ++ again.map .errorCallback, rest) := by
  induction pieces generalizing before xs with
  | nil =>
      cases h
      exact ⟨[], xs, nofun, by simp [Consumer.rerunAll]⟩
  | cons ys pieces ih =>
      obtain ⟨p₁, hrun, hfeed⟩ := Checked.bind_eq_ok.mp h
      have hrun' : codec.frameConsumer.run before (xs ++ ys) = .ok p₁ := hrun
      obtain ⟨fs, rest, -, hspec⟩ := run_spec hraw before (xs ++ ys)
      have hrerun : codec.frameConsumer.rerun (before, xs) ys = .ok (p₁.state, p₁.rest) := by
        rw [Consumer.rerun, hrun']
        rfl
      rw [Consumer.rerunAll, hrerun, Checked.ok_bind]
      rw [hrun'] at hspec
      cases hspec
      cases herror : codec.frameError rest with
      | none =>
          rw [herror] at hfeed
          exact ih hfeed
      | some e =>
          obtain ⟨rest', hrest'⟩ := rerunAll_of_error hraw herror
            (before ++ codec.events fs rest) pieces
          rw [Consumer.feedAll_of_stopped _ herror] at hfeed
          cases hfeed
          refine ⟨List.replicate pieces.length e, rest', fun e' he' => ?_, ?_⟩
          · rw [List.eq_of_mem_replicate he']
            exact herror
          · rw [hrest', List.map_replicate]

/-- `onMessage` returns, whatever is in the buffer. -/
theorem onMessage_returns (hraw : codec.rawCb = none) (r : Receiver Msg) :
    ∃ r', codec.onMessage r = .ok r' := by
  obtain ⟨fs, rest, -, hrun⟩ := run_spec hraw r.events r.inputBuffer.content
  rw [onMessage_loop] at hrun
  rw [onMessage]
  cases hloop : loop codec.onMessageTurn (r.inputBuffer.readableBytes + 1) r with
  | error e =>
      rw [hloop] at hrun
      cases hrun
  | ok result => exact ⟨_, rfl⟩

end ProtobufCodecLite

open ProtobufCodecLite in
/-- **The codec on arbitrary input.** Every call of `onMessage` returns and reads only within frames of
an acceptable length. Whatever bytes arrive, and however they are cut into segments, the messages
delivered are those of the frames with which the stream begins; behind them only the error of what
follows these frames is reported, at least once if there is one and always the same. -/
theorem codec_receives {Msg : Type} {codec : ProtobufCodecLite Msg} (hraw : codec.rawCb = none)
    (stream : List Byte) :
    (∀ r, ∃ r', codec.onMessage r = .ok r' ∧ codec.onMessageWithin r = .ok r') ∧
    ∃ fs rest, codec.Longest stream fs rest ∧
      ∀ pieces : List (List Byte), pieces.flatten = stream →
        ∃ r errors, codec.receiveAll ⟨ByteQueue.new, []⟩ pieces = .ok r ∧
          r.events = fs.map (fun f => .messageCallback f.2) ++ errors.map .errorCallback ∧
          (∀ e ∈ errors, codec.frameError rest = some e) ∧
          (errors = [] ↔ codec.frameError rest = none) := by
  refine ⟨fun r => ?_, ?_⟩
  · obtain ⟨r', hr'⟩ := onMessage_returns hraw r
    exact ⟨r', hr', (codec.onMessageWithin_eq r).trans hr'⟩
  obtain ⟨fs, rest, hlongest, hrun⟩ := run_spec hraw [] stream
  refine ⟨fs, rest, hlongest, fun pieces hpieces => ?_⟩
  have hstart : codec.frameConsumer.feed ⟨[], [], none⟩ [] = .ok ⟨[], [], none⟩ :=
    codec.run_frames hraw (List.forall_mem_nil _) []
  -- all segments at once, and then one after the other
  have hfeed : codec.frameConsumer.feedAll ⟨[], [], none⟩ pieces
      = .ok ⟨codec.events fs rest, rest, codec.frameError rest⟩ := by
    rw [Consumer.feedAll_of_settled _ hstart, hpieces]
    exact hrun
  obtain ⟨again, rest', hagain, hrerun⟩ := rerunAll_spec hraw hfeed
  rw [← ByteQueue.content_new] at hrerun
  obtain ⟨r, hr, hevents, -⟩ := codec.receiveAll_of_rerunAll (r := ⟨ByteQueue.new, []⟩) hrerun
  refine ⟨r, (codec.frameError rest).toList ++ again, hr, ?_, fun e he => ?_, ?_⟩
  · rw [hevents, events, List.map_append, List.append_assoc]
  · rcases List.mem_append.mp he with he | he
    · exact Option.mem_toList.mp he
    · exact hagain e he
  · rw [List.append_eq_nil_iff, Option.toList_eq_nil_iff]
    refine ⟨And.left, fun hnone => ⟨hnone, List.eq_nil_iff_forall_not_mem.mpr fun e he => ?_⟩⟩
    have hsome := hagain e he
    rw [hnone] at hsome
    cases hsome

open ProtobufCodecLite in
/-- Behind a request twelve zeros arrive, whose size is too small for a frame: the request is delivered, and
then nothing but the error is reported. -/
theorem codec_receives_request :
    (rpcCodec rpcLibrary).Longest ((rpcCodec rpcLibrary).frame testRequest ++ List.replicate 12 0)
        [((rpcCodec rpcLibrary).frame testRequest, testRequest)] (List.replicate 12 0) ∧
      ∀ pieces : List (List Byte),
        pieces.flatten = (rpcCodec rpcLibrary).frame testRequest ++ List.replicate 12 0 →
        ∃ r errors, (rpcCodec rpcLibrary).receiveAll ⟨ByteQueue.new, []⟩ pieces = .ok r ∧
          r.events = .messageCallback testRequest :: errors.map .errorCallback ∧
          (∀ e ∈ errors, e = .kInvalidLength) ∧ errors ≠ [] := by
  have hzeros : (rpcCodec rpcLibrary).frameError (List.replicate 12 0) = some .kInvalidLength := by decide
  have hlongest : (rpcCodec rpcLibrary).Longest ((rpcCodec rpcLibrary).frame testRequest ++ List.replicate 12 0)
      [((rpcCodec rpcLibrary).frame testRequest, testRequest)] (List.replicate 12 0) := by
    refine .cons rfl (isFrame_frame _ (by decide)) (.nil fun f m hf => ?_)
    refine no_frame_in_front rfl [] (fun n after htake => ?_) f m hf
    rw [verdict_of_frameError rfl hzeros] at htake
    cases htake
  refine ⟨hlongest, fun pieces hpieces => ?_⟩
  have hraw : (rpcCodec rpcLibrary).rawCb = none := rfl
  obtain ⟨-, fs, rest, hfs, hall⟩ := codec_receives hraw
    ((rpcCodec rpcLibrary).frame testRequest ++ List.replicate 12 0)
  obtain ⟨rfl, rfl⟩ := hfs.unique hlongest
  obtain ⟨r, errors, hr, hevents, herrors, hnone⟩ := hall pieces hpieces
  rw [hzeros] at herrors hnone
  exact ⟨r, errors, hr, hevents, fun e he => (Option.some.inj (herrors e he)).symm, fun h => nomatch hnone.mp h⟩

/-- How often the error is reported depends on the segments: twelve zeros and one more are one error
when they arrive together, and two when the last one arrives alone. -/
theorem codec_repeats_error :
    ∃ r r', (rpcCodec rpcLibrary).receiveAll ⟨ByteQueue.new, []⟩ [List.replicate 13 0] = .ok r ∧
      (rpcCodec rpcLibrary).receiveAll ⟨ByteQueue.new, []⟩ [List.replicate 12 0, [0]] = .ok r' ∧
      r.events = [.errorCallback .kInvalidLength] ∧
      r'.events = [.errorCallback .kInvalidLength, .errorCallback .kInvalidLength] := by
  have htogether : (rpcCodec rpcLibrary).frameConsumer.rerunAll ([], ByteQueue.new.content)
      [List.replicate 13 0] = .ok ([.errorCallback .kInvalidLength], List.replicate 13 0) := by
    rw [ByteQueue.content_new]
    rfl
  have hseparate : (rpcCodec rpcLibrary).frameConsumer.rerunAll ([], ByteQueue.new.content)
      [List.replicate 12 0, [0]]
        = .ok ([.errorCallback .kInvalidLength, .errorCallback .kInvalidLength],
            List.replicate 13 0) := by
    rw [ByteQueue.content_new]
    rfl
  obtain ⟨r, hr, hevents, -⟩ :=
    (rpcCodec rpcLibrary).receiveAll_of_rerunAll (r := ⟨ByteQueue.new, []⟩) htogether
  obtain ⟨r', hr', hevents', -⟩ :=
    (rpcCodec rpcLibrary).receiveAll_of_rerunAll (r := ⟨ByteQueue.new, []⟩) hseparate
  exact ⟨r, r', hr, hr', hevents, hevents'⟩

end Muduo.Net
