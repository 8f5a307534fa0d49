import Muduo.Net.RpcProto
import Muduo.Support.Incremental

/-! # Frames of `ProtobufCodecLite`

What `fillEmptyBuffer` writes is a `frame`, and `onMessage` is a consumer of frames (`frameConsumer`). So
a receiver gets back exactly the messages that were sent, however the stream is cut into segments:
`codec_roundtrip`. -/

namespace Muduo.Net

open Support

namespace ProtobufCodecLite

variable {Msg : Type} (codec : ProtobufCodecLite Msg)

/-! ## What is sent -/

/-- The tag and the payload. -/
def tagged (message : Msg) : List Byte := codec.tag ++ codec.library.serialize message

/-- A frame without its header. -/
def body (message : Msg) : List Byte :=
  codec.tagged message ++ intToBytes kChecksumLen (codec.checksum (codec.tagged message))

/-- A message as it stands on the wire: the length, then what it counts. -/
def frame (message : Msg) : List Byte :=
  intToBytes kHeaderLen (codec.body message).length ++ codec.body message

/-- The length that the header counts. -/
theorem length_body (message : Msg) :
    (codec.body message).length
      = codec.tag.length + codec.library.byteSize message + kChecksumLen := by
  rw [body, tagged, List.length_append, List.length_append, length_intToBytes,
    codec.library.length_serialize]

/-- `serializeToBuffer` appends the payload. -/
theorem serializeToBuffer_sat {b : Buffer} {c : List Byte} (h : b.Represents c) (message : Msg) :
    (codec.serializeToBuffer message b).Sat fun r =>
      r.1 = codec.library.byteSize message ∧
        b.Appended c (codec.library.serialize message) r.2 := by
  have hlength := codec.library.length_serialize message
  refine (Buffer.ensureWritableBytes_sat h _).bind fun b' hb' => ?_
  refine Checked.Sat.assert hlength ?_
  have hroom : (codec.library.serialize message).length ≤ b'.writableBytes := by
    have := hb'.room
    omega
  obtain ⟨b'', hb'', hrep⟩ := Buffer.store_hasWritten_sat hb'.represents hroom hlength.ge
  have hreader := Buffer.hasWritten_reader hb''
  rw [← hlength, List.take_length] at hrep
  rw [hb'']
  refine .ok ⟨rfl, hrep, ?_⟩
  rw [hreader]
  exact hb'.reader

/-- `fillEmptyBuffer` writes a frame into a buffer that has its reserved bytes in front. -/
theorem fillEmptyBuffer_sat {b : Buffer} (h : b.Represents [])
    (hreader : b.readerIndex = Buffer.kCheapPrepend) {message : Msg}
    (hlen : (codec.body message).length < 2 ^ 31) :
    (codec.fillEmptyBuffer b message).Sat fun b' => b'.Represents (codec.frame message) := by
  have hbody := codec.length_body message
  refine Checked.Sat.assert h.length_eq.symm ?_
  refine (Buffer.append_sat h codec.tag).bind fun b₁ h₁ => ?_
  refine (codec.serializeToBuffer_sat h₁.represents message).bind ?_
  rintro ⟨byteSize, b₂⟩ ⟨hsize, h₂⟩
  dsimp only at hsize h₂ ⊢
  have htagged : b₂.Represents (codec.tagged message) := h₂.represents
  have hbytes : b₂.readableBytes = (codec.tagged message).length := htagged.length_eq.symm
  have hsmall : (codec.tagged message).length ≤ (codec.body message).length := by
    rw [body, List.length_append]
    exact Nat.le_add_right _ _
  refine Checked.Sat.assert (by omega) ?_
  refine (Buffer.append_sat htagged _).bind fun b₃ h₃ => ?_
  have hframe : b₃.Represents (codec.body message) := by
    have h₃' := h₃.represents
    rwa [htagged.content_eq, sockets.store_hostToNetwork] at h₃'
  have hcount : b₃.readableBytes = (codec.body message).length := hframe.length_eq.symm
  refine Checked.Sat.assert (by rw [hcount, hbody, hsize]) ?_
  -- nothing has moved the content but to `kCheapPrepend`, so the header fits in front of it
  have hroom : (intToBytes 4 b₃.readableBytes).length ≤ b₃.prependableBytes := by
    rw [length_intToBytes, Buffer.prependableBytes]
    have hcheap : 4 ≤ Buffer.kCheapPrepend := by decide
    have h₁' := h₁.reader
    have h₂' := h₂.reader
    have h₃' := h₃.reader
    omega
  rw [sockets.hostToNetwork32, sockets.store_hostToNetwork]
  refine (Buffer.prepend_sat hframe hroom).mono fun b₄ h₄ => ?_
  rwa [hcount] at h₄

/-- The bytes sent are the frames, also of a message that is too long for the receiver. -/
theorem sendAll_frames {messages : List Msg}
    (hlen : ∀ message ∈ messages, (codec.body message).length < 2 ^ 31) :
    codec.sendAll messages = .ok (messages.flatMap codec.frame) := by
  induction messages with
  | nil => rfl
  | cons message messages ih =>
      obtain ⟨b, hb, hempty, hreader, -⟩ := Buffer.new_sat Buffer.kInitialSize
      obtain ⟨b', hb', hframe⟩ :=
        codec.fillEmptyBuffer_sat hempty hreader (hlen message (List.mem_cons_self ..))
      have htail := ih fun m hm => hlen m (List.mem_cons_of_mem _ hm)
      rw [sendAll, hb, Checked.ok_bind, hb', Checked.ok_bind, htail, Checked.ok_bind,
        hframe.content_eq, List.flatMap_cons]
      rfl

/-- The stream of messages that fit. -/
theorem sendAll_eq {messages : List Msg}
    (hlen : ∀ message ∈ messages, (codec.body message).length ≤ kMaxMessageLen) :
    codec.sendAll messages = .ok (messages.flatMap codec.frame) := by
  have hmax : kMaxMessageLen < 2 ^ 31 := by decide
  exact codec.sendAll_frames fun message hmem => (hlen message hmem).trans_lt hmax

/-! ## The consumer -/

/-- What the receiver decides about a complete frame. -/
def frameVerdict (events : List (CodecEvent Msg)) (frame : List Byte) :
    Verdict (List (CodecEvent Msg)) ErrorCode :=
  let (raw, goOn) := codec.callRaw frame
  if goOn then
    match codec.parse (frame.drop kHeaderLen) with
    | .ok message => .take frame.length (events ++ raw ++ [.messageCallback message])
    | .error errorCode => .stop 0 (events ++ raw ++ [.errorCallback errorCode]) errorCode
  else .take frame.length (events ++ raw)

/-- What the receiver decides about the bytes in the buffer. -/
def verdict (events : List (CodecEvent Msg)) (xs : List Byte) :
    Verdict (List (CodecEvent Msg)) ErrorCode :=
  if codec.kMinMessageLen + kHeaderLen ≤ xs.length then
    let len := intOfBytes (xs.take 4)
    if len > kMaxMessageLen ∨ len < codec.kMinMessageLen then
      .stop 0 (events ++ [.errorCallback .kInvalidLength]) .kInvalidLength
    else if kHeaderLen + len.toNat ≤ xs.length then
      codec.frameVerdict events (xs.take (kHeaderLen + len.toNat))
    else .wait
  else .wait

/-- A frame is taken as a whole, or not at all. -/
theorem frameVerdict_cases (events : List (CodecEvent Msg)) (frame : List Byte) :
    (∃ events', codec.frameVerdict events frame = .take frame.length events') ∨
      ∃ events' e, codec.frameVerdict events frame = .stop 0 events' e := by
  unfold frameVerdict
  dsimp only
  split
  · split
    · exact .inl ⟨_, rfl⟩
    · exact .inr ⟨_, _, rfl⟩
  · exact .inl ⟨_, rfl⟩

/-- A decision is about the frame at the front, or an error. -/
theorem verdict_cases {events : List (CodecEvent Msg)} {xs : List Byte}
    {v : Verdict (List (CodecEvent Msg)) ErrorCode} (h : codec.verdict events xs = v) :
    v = .wait ∨ (∃ n, kHeaderLen ≤ n ∧ n ≤ xs.length ∧ codec.frameVerdict events (xs.take n) = v) ∨
      ∃ events' e, v = .stop 0 events' e := by
  unfold verdict at h
  dsimp only at h
  split at h
  · split at h
    · exact .inr (.inr ⟨_, _, h.symm⟩)
    · split at h
      · next hlen => exact .inr (.inl ⟨_, Nat.le_add_right _ _, hlen, h⟩)
      · exact .inl h.symm
  · exact .inl h.symm

/-- More bytes do not change a decision. -/
theorem verdict_append {events : List (CodecEvent Msg)} {xs : List Byte}
    (h : codec.verdict events xs ≠ .wait) (ys : List Byte) :
    codec.verdict events (xs ++ ys) = codec.verdict events xs := by
  unfold verdict at h ⊢
  dsimp only at h ⊢
  have hlength : (xs ++ ys).length = xs.length + ys.length := List.length_append
  split at h
  · next hmin =>
      -- the header is complete, so its number does not change
      have hheader : 4 ≤ xs.length := (Nat.le_add_left kHeaderLen _).trans hmin
      rw [if_pos hmin, if_pos (by omega), List.take_append_of_le_length hheader]
      split at h
      · next hbad => rw [if_pos hbad, if_pos hbad]
      · next hgood =>
          rw [if_neg hgood, if_neg hgood]
          split at h
          · next hlen => rw [if_pos hlen, if_pos (by omega), List.take_append_of_le_length hlen]
          · exact absurd rfl h
  · exact absurd rfl h

/-- The receiver as a consumer. -/
def frameConsumer : Consumer (List (CodecEvent Msg)) Byte ErrorCode where
  step events xs := .ok (codec.verdict events xs)
  stable events xs ys h := by
    rw [codec.verdict_append fun hwait => h (by rw [hwait])]
  take_le events xs n events' h := by
    rcases codec.verdict_cases (Except.ok.inj h) with hv | ⟨m, hm, hle, hv⟩ | ⟨_, _, hv⟩
    · cases hv
    · rcases codec.frameVerdict_cases events (xs.take m) with ⟨_, hf⟩ | ⟨_, _, hf⟩
      · rw [hf] at hv
        cases hv
        rw [List.length_take_of_le hle]
        exact ⟨Nat.lt_of_lt_of_le (by decide) hm, hle⟩
      · rw [hf] at hv
        cases hv
    · cases hv
  stop_le events xs n events' e h := by
    rcases codec.verdict_cases (Except.ok.inj h) with hv | ⟨m, -, -, hv⟩ | ⟨_, _, hv⟩
    · cases hv
    · rcases codec.frameVerdict_cases events (xs.take m) with ⟨_, hf⟩ | ⟨_, _, hf⟩
      · rw [hf] at hv
        cases hv
      · rw [hf] at hv
        cases hv
        exact Nat.zero_le _
    · cases hv
      exact Nat.zero_le _

/-! ## The loop is the consumer -/

/-- Where the consumer is when the loop ends. -/
def progress : Receiver Msg × Option ErrorCode → Consumer.Progress (List (CodecEvent Msg)) Byte ErrorCode
  | (r, error) => ⟨r.events, r.inputBuffer.content, error⟩

/-- A turn of `onMessage` is a turn of the consumer. -/
theorem onMessageTurn_eq (r : Receiver Msg) :
    codec.frameConsumer.body (r.events, r.inputBuffer.content)
      = (codec.onMessageTurn r).map
          (Sum.map (fun r : Receiver Msg => (r.events, r.inputBuffer.content)) progress) := by
  obtain ⟨buf, events⟩ := r
  simp only [Consumer.body, frameConsumer, verdict, onMessageTurn, ByteQueue.readableBytes_eq]
  by_cases hmin : codec.kMinMessageLen + kHeaderLen ≤ buf.content.length
  · have hheader : 4 ≤ buf.content.length := (Nat.le_add_left kHeaderLen _).trans hmin
    rw [if_pos hmin, if_pos hmin, buf.peekInt32_eq hheader]
    simp only [Checked.ok_bind]
    generalize intOfBytes (buf.content.take 4) = len -- from here on both sides only compare it
    by_cases hbad : len > kMaxMessageLen ∨ len < codec.kMinMessageLen
    · rw [if_pos hbad, if_pos hbad]
      rfl
    · rw [if_neg hbad, if_neg hbad]
      by_cases hlen : kHeaderLen + len.toNat ≤ buf.content.length
      · rw [if_pos hlen, if_pos hlen]
        obtain ⟨buf', hbuf', hcontent⟩ := buf.retrieve_sat hlen
        unfold frameVerdict
        simp only [ByteQueue.peekBytes, hbuf', List.length_take_of_le hlen]
        cases (codec.callRaw (buf.content.take (kHeaderLen + len.toNat))).2 with
        | true =>
            simp only [if_true]
            cases codec.parse ((buf.content.take (kHeaderLen + len.toNat)).drop kHeaderLen) with
            | ok message => simp [Except.map, hcontent]
            | error e => simp [Except.map, progress]
        | false => simp [Except.map, hcontent]
      · rw [if_neg hlen, if_neg hlen]
        rfl
  · rw [if_neg hmin, if_neg hmin]
    rfl

/-- The loop of `onMessage` is a run of the consumer. -/
theorem onMessage_loop (r : Receiver Msg) :
    codec.frameConsumer.run r.events r.inputBuffer.content
      = (loop codec.onMessageTurn (r.inputBuffer.readableBytes + 1) r).map progress := by
  unfold Consumer.run
  rw [ByteQueue.readableBytes_eq]
  exact loop_map (f := fun r : Receiver Msg => (r.events, r.inputBuffer.content))
    (I := fun _ => True) (fun r _ => codec.onMessageTurn_eq r) (fun _ _ _ _ => trivial) _ trivial

/-- A segment is a piece for the consumer. The codec does not remember an error, so it looks again. -/
theorem receive_eq (r : Receiver Msg) (data : List Byte) :
    codec.frameConsumer.rerun (r.events, r.inputBuffer.content) data
      = (codec.receive r data).map fun r => (r.events, r.inputBuffer.content) := by
  have hloop := codec.onMessage_loop { r with inputBuffer := r.inputBuffer.readFd data }
  rw [ByteQueue.content_readFd] at hloop
  rw [Consumer.rerun, hloop, receive, onMessage]
  cases loop codec.onMessageTurn _ _ with
  | error e => rfl
  | ok result => rfl

/-- What arrives is what the consumer is fed. -/
theorem receiveAll_eq (r : Receiver Msg) (pieces : List (List Byte)) :
    codec.frameConsumer.rerunAll (r.events, r.inputBuffer.content) pieces
      = (codec.receiveAll r pieces).map fun r => (r.events, r.inputBuffer.content) := by
  induction pieces generalizing r with
  | nil => rfl
  | cons data rest ih =>
      rw [Consumer.rerunAll, receiveAll, receive_eq]
      cases codec.receive r data with
      | error e => rfl
      | ok r' => exact ih r'

/-- What the consumer makes of the segments is what the receiver makes of them. -/
theorem receiveAll_of_rerunAll {r : Receiver Msg} {pieces : List (List Byte)}
    {events : List (CodecEvent Msg)} {rest : List Byte}
    (h : codec.frameConsumer.rerunAll (r.events, r.inputBuffer.content) pieces = .ok (events, rest)) :
    ∃ r', codec.receiveAll r pieces = .ok r' ∧ r'.events = events ∧ r'.inputBuffer.content = rest := by
  rw [receiveAll_eq] at h
  cases hr : codec.receiveAll r pieces with
  | error e =>
      rw [hr] at h
      cases h
  | ok r' =>
      rw [hr] at h
      have hend := Except.ok.inj h
      exact ⟨r', rfl, congrArg Prod.fst hend, congrArg Prod.snd hend⟩

/-! ## What is received -/

/-- `asInt32` of four bytes. -/
theorem asInt32_of_length {bytes : List Byte} (h : bytes.length = kChecksumLen) :
    asInt32 bytes = intOfBytes bytes := by
  have hall : bytes.take 4 = bytes := List.take_of_length_le h.le
  rw [asInt32, hall]
  exact sockets.networkToHost_load h

/-- The parts of a frame are found in their places. -/
theorem parse_append {payload checkSum : List Byte} {message : Msg}
    (hlen : checkSum.length = kChecksumLen)
    (hchecksum : intOfBytes checkSum = codec.checksum (codec.tag ++ payload))
    (hpayload : codec.library.parseFromArray payload = some message) :
    codec.parse (codec.tag ++ payload ++ checkSum) = .ok message := by
  have hbytes : (codec.tag ++ payload ++ checkSum).length - kChecksumLen
      = (codec.tag ++ payload).length := by
    rw [List.length_append, hlen, Nat.add_sub_cancel]
  have hvalid : codec.validateChecksum (codec.tag ++ payload ++ checkSum) = true := by
    unfold validateChecksum
    dsimp only
    rw [hbytes, List.take_left, List.drop_left, asInt32_of_length hlen, hchecksum]
    exact decide_eq_true rfl
  have htag : (codec.tag ++ payload ++ checkSum).take codec.tag.length = codec.tag := by
    rw [List.append_assoc, List.take_left]
  have hdata : ((codec.tag ++ payload ++ checkSum).drop codec.tag.length).take
      ((codec.tag ++ payload ++ checkSum).length - kChecksumLen - codec.tag.length) = payload := by
    rw [hbytes, List.length_append, Nat.add_sub_cancel_left, List.append_assoc, List.drop_left,
      List.take_left]
  rw [parse, if_pos hvalid, if_pos htag]
  dsimp only
  rw [hdata, hpayload]

/-- `f` is a frame for the message: a size within the limits, the tag, a payload that is the message,
and the checksum of the two. -/
def IsFrame (f : List Byte) (message : Msg) : Prop :=
  ∃ size payload checkSum : List Byte,
    f = size ++ (codec.tag ++ payload ++ checkSum) ∧
      size.length = kHeaderLen ∧ checkSum.length = kChecksumLen ∧
      intOfBytes size = (codec.tag.length + payload.length + kChecksumLen : Nat) ∧
      codec.tag.length + payload.length + kChecksumLen ≤ kMaxMessageLen ∧
      intOfBytes checkSum = codec.checksum (codec.tag ++ payload) ∧
      codec.library.parseFromArray payload = some message

/-- A frame at the front is taken, and its message delivered. -/
theorem verdict_of_isFrame (hraw : codec.rawCb = none) {f : List Byte} {message : Msg}
    (h : codec.IsFrame f message) (events : List (CodecEvent Msg)) (rest : List Byte) :
    codec.verdict events (f ++ rest) = .take f.length (events ++ [.messageCallback message]) := by
  obtain ⟨size, payload, checkSum, rfl, hsize, hcheck, hlen, hmax, hsum, hpayload⟩ := h
  generalize hbody : codec.tag ++ payload ++ checkSum = body
  have hbodyLen : body.length = codec.tag.length + payload.length + kChecksumLen := by
    rw [← hbody, List.length_append, List.length_append, hcheck]
  have hmin : codec.kMinMessageLen ≤ body.length := by
    rw [hbodyLen, kMinMessageLen]
    omega
  have hheader : intOfBytes ((size ++ body ++ rest).take 4) = body.length := by
    have hfront : (size ++ (body ++ rest)).take 4 = size := List.take_left' hsize
    rw [List.append_assoc, hfront, hlen, hbodyLen]
  have hgood : ¬ ((body.length : Int) > kMaxMessageLen ∨
      (body.length : Int) < codec.kMinMessageLen) := by omega
  have hframe : (size ++ body).length = kHeaderLen + body.length := by
    rw [List.length_append, hsize]
  have htake : (size ++ body ++ rest).take (kHeaderLen + body.length) = size ++ body := by
    rw [← hframe, List.take_left]
  unfold verdict
  dsimp only
  rw [if_pos (by rw [List.length_append]; omega), hheader, if_neg hgood, Int.toNat_natCast,
    if_pos (by rw [List.length_append]; omega), htake, frameVerdict, callRaw, hraw]
  have hparse : codec.parse ((size ++ body).drop kHeaderLen) = .ok message := by
    rw [List.drop_left' hsize, ← hbody]
    exact codec.parse_append hcheck hsum hpayload
  simp only [if_true, hparse, List.append_nil]

/-- What is sent for a message is a frame for it. -/
theorem isFrame_frame {message : Msg} (hlen : (codec.body message).length ≤ kMaxMessageLen) :
    codec.IsFrame (codec.frame message) message := by
  rw [length_body, ← codec.library.length_serialize] at hlen
  refine ⟨_, codec.library.serialize message, _, rfl, length_intToBytes _ _, length_intToBytes _ _,
    ?_, hlen, ?_, codec.library.parse_serialize message⟩
  · -- `kMaxMessageLen` is far below what the header can hold
    have hmax : kMaxMessageLen < 256 ^ kHeaderLen / 2 := by decide
    rw [length_body, ← codec.library.length_serialize, intOfBytes_intToBytes]
    constructor <;> simp only [kHeaderLen] at hmax ⊢ <;> omega
  · rw [intOfBytes_intToBytes_wrap]
    exact wrapInt_wrapInt 4 _

/-- A stream of frames is taken as a whole, and its messages delivered in order. -/
theorem run_frames (hraw : codec.rawCb = none) {messages : List Msg}
    (hlen : ∀ message ∈ messages, (codec.body message).length ≤ kMaxMessageLen)
    (events : List (CodecEvent Msg)) :
    codec.frameConsumer.run events (messages.flatMap codec.frame)
      = .ok ⟨events ++ messages.map .messageCallback, [], none⟩ := by
  induction messages generalizing events with
  | nil =>
      have hwait : codec.frameConsumer.step events [] = .ok .wait :=
        congrArg Except.ok (if_neg (by simp [kHeaderLen]))
      rw [List.flatMap_nil, Consumer.run_eq, hwait, List.map_nil, List.append_nil]
      rfl
  | cons message messages ih =>
      have hstep : codec.frameConsumer.step events
          (codec.frame message ++ messages.flatMap codec.frame)
            = .ok (.take (codec.frame message).length (events ++ [.messageCallback message])) :=
        congrArg Except.ok (codec.verdict_of_isFrame hraw
          (codec.isFrame_frame (hlen message (List.mem_cons_self ..))) _ _)
      have htail := ih (fun m hm => hlen m (List.mem_cons_of_mem _ hm))
        (events ++ [.messageCallback message])
      rw [List.flatMap_cons, Consumer.run_eq, hstep]
      simp only [Checked.ok_bind, List.drop_left, htail, List.map_cons, List.append_assoc,
        List.singleton_append]

end ProtobufCodecLite

open ProtobufCodecLite in
/-- **Round trip of the codec.** The messages sent, none of them too long, are delivered each once and in
order by a receiver with the same tag, however the stream is cut into segments; no error is reported and
nothing is left in the buffer. -/
theorem codec_roundtrip {Msg : Type} {sender receiver : ProtobufCodecLite Msg}
    (hlibrary : sender.library = receiver.library) (htag : sender.tag = receiver.tag)
    (hraw : receiver.rawCb = none) {messages : List Msg}
    (hlen : ∀ message ∈ messages,
      sender.tag.length + sender.library.byteSize message + kChecksumLen ≤ kMaxMessageLen) :
    ∃ stream, sender.sendAll messages = .ok stream ∧
      ∀ pieces : List (List Byte), pieces.flatten = stream →
        ∃ r, receiver.receiveAll ⟨ByteQueue.new, []⟩ pieces = .ok r ∧
          r.events = messages.map .messageCallback ∧ r.inputBuffer.content = [] := by
  have hsend : ∀ message ∈ messages, (sender.body message).length ≤ kMaxMessageLen := by
    intro message hmem
    rw [length_body]
    exact hlen message hmem
  have hframe : sender.frame = receiver.frame := by
    obtain ⟨library, tag, rawCb⟩ := sender
    obtain ⟨library', tag', rawCb'⟩ := receiver
    cases hlibrary
    cases htag
    rfl
  have hreceive : ∀ message ∈ messages, (receiver.body message).length ≤ kMaxMessageLen := by
    intro message hmem
    rw [length_body, ← hlibrary, ← htag]
    exact hlen message hmem
  refine ⟨_, sender.sendAll_eq hsend, fun pieces hpieces => ?_⟩
  have hrun := receiver.run_frames hraw hreceive []
  have hstart : receiver.frameConsumer.feed ⟨[], [], none⟩ [] = .ok ⟨[], [], none⟩ :=
    receiver.run_frames hraw (List.forall_mem_nil _) []
  -- all segments at once, and then one after the other
  have hfeed : receiver.frameConsumer.feedAll ⟨[], [], none⟩ pieces
      = .ok ⟨messages.map .messageCallback, [], none⟩ := by
    rw [Consumer.feedAll_of_settled _ hstart, hpieces, hframe]
    exact hrun
  refine receiver.receiveAll_of_rerunAll ?_
  rw [ByteQueue.content_new]
  exact receiver.frameConsumer.rerunAll_eq hfeed rfl

/-- A response to `testRequest`, with a result of two bytes. -/
def testResponse : RpcObject := RpcMessage.object { type := .RESPONSE, id := 2, response := some [8, 1] }

/-- The request of `RpcCodec_test.cpp` and a response to it are delivered, however the stream is cut; the bytes
of the request are those that the test expects. -/
theorem codec_roundtrip_rpcMessage :
    ∃ stream, (rpcCodec rpcLibrary).sendAll [testRequest, testResponse] = .ok stream ∧
      (rpcCodec rpcLibrary).frame testRequest = [0, 0, 0, 0x13, 82, 80, 67, 48,
        0x08, 0x01, 0x11, 0x02, 0, 0, 0, 0, 0, 0, 0, 0x0f, 0xef, 0x01, 0x32] ∧
      ∀ pieces : List (List Byte), pieces.flatten = stream →
        ∃ r, (rpcCodec rpcLibrary).receiveAll ⟨ByteQueue.new, []⟩ pieces = .ok r ∧
          r.events = [.messageCallback testRequest, .messageCallback testResponse] ∧
          r.inputBuffer.content = [] := by
  obtain ⟨stream, hstream, hpieces⟩ := @codec_roundtrip _ (rpcCodec rpcLibrary) (rpcCodec rpcLibrary) rfl
    rfl rfl [testRequest, testResponse] (by decide)
  exact ⟨stream, hstream, by decide, hpieces⟩

end Muduo.Net
