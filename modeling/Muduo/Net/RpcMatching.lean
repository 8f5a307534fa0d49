import Muduo.Net.RpcChannel

/-! # Matching calls and responses

Calls and responses are matched by number only. `Ids` says that the numbers are distinct and that
`outstandings_` holds the calls that wait, `Wire` that the first response on its way to a call that waits
is the answer of the service to that call, and `Closures` that every closure was run for such an answer.
Together they give `rpc_calls_matched`. -/

namespace Muduo.Net

open Support

/-- A call that has issued a number has it. -/
theorem CallPc.id_of_issued {pc : CallPc} {i : Int} (h : pc.issued = some i) : pc.id = some i := by
  cases pc with
  | idle => cases h
  | numbered j => cases h
  | registered j => exact h
  | sent j => exact h

namespace RpcSystem

variable {C : Type} {call : C → RpcCall} {s t : RpcSystem C}

/-- What the response object of a call was parsed from is what a method has computed for the request of
exactly this call; or it was not parsed, and the server has answered with an error code. -/
def Answer (call : C → RpcCall) (s : RpcSystem C) (c : C) (i : Int) : Option (List Byte) → Prop
  | some result => ((call c).invocation i, result) ∈ s.results
  | none => ∃ error, (i, error) ∈ s.refused

/-- An answer stays one. -/
theorem Answer.mono {c : C} {i : Int} {response : Option (List Byte)}
    (h : Answer call s c i response) (hresults : s.results ⊆ t.results)
    (hrefused : s.refused ⊆ t.refused) : Answer call t c i response := by
  cases response with
  | some result => exact hresults h
  | none =>
      obtain ⟨error, herror⟩ := h
      exact ⟨error, hrefused herror⟩

/-- An answered number stays answered. -/
theorem Answered.mono {i : Int} (h : s.Answered i) (hresults : s.results ⊆ t.results)
    (hrefused : s.refused ⊆ t.refused) : t.Answered i := by
  rcases h with ⟨p, hp, hid⟩ | ⟨p, hp, hid⟩
  · exact .inl ⟨p, hresults hp, hid⟩
  · exact .inr ⟨p, hrefused hp, hid⟩

/-! ## Numbers -/

/-- The numbers of the calls and the map of outstanding calls. -/
structure Ids (call : C → RpcCall) (s : RpcSystem C) : Prop where
  fits : 0 ≤ s.client.id ∧ s.client.id < 2 ^ 63
  bound : ∀ c i, (s.calls c).id = some i → i ≤ s.client.id
  distinct : ∀ c c' i, (s.calls c).id = some i → (s.calls c').id = some i → c = c'
  waiting : ∀ i out, s.client.outstandings.lookup i = some out ↔
    ∃ c, (s.calls c).issued = some i ∧ s.processed c = false ∧ out = outstanding call c
  unissued : ∀ c, (s.calls c).issued = none → s.processed c = false

/-- The numbers are right at the start. -/
theorem Starts.ids (h : s.Starts) : Ids call s where
  fits := by rw [h.id]; decide
  bound c i hi := by rw [h.calls c] at hi; cases hi
  distinct c c' i hi := by rw [h.calls c] at hi; cases hi
  waiting i out := by
    rw [h.outstandings, Finmap.lookup_empty]
    refine iff_of_false nofun ?_
    rintro ⟨c, hissued, -⟩
    rw [h.calls c] at hissued
    cases hissued
  unissued c _ := h.processed c

namespace Ids

/-- A step that changes neither the client nor the numbers. -/
theorem of_eq (h : Ids call s) (hclient : t.client = s.client)
    (hid : ∀ c, (t.calls c).id = (s.calls c).id)
    (hissued : ∀ c, (t.calls c).issued = (s.calls c).issued) (hprocessed : t.processed = s.processed) :
    Ids call t where
  fits := hclient ▸ h.fits
  bound c i hi := by
    rw [hclient]
    exact h.bound c i (by rw [← hid, hi])
  distinct c c' i hi hi' := h.distinct c c' i (by rw [← hid, hi]) (by rw [← hid, hi'])
  waiting i out := by
    rw [hclient, hprocessed]
    simp only [hissued]
    exact h.waiting i out
  unissued c hc := by
    rw [hprocessed]
    exact h.unissued c (by rw [← hissued, hc])

/-- A call that has been issued is found under its number. -/
theorem lookup_issued (h : Ids call s) {c : C} {i : Int} (hc : (s.calls c).issued = some i)
    (hwait : s.processed c = false) : s.client.outstandings.lookup i = some (outstanding call c) :=
  (h.waiting i _).mpr ⟨c, hc, hwait, rfl⟩

/-- A number that is not outstanding belongs to no call that waits. -/
theorem processed_of_lookup (h : Ids call s) {c : C} {i : Int}
    (hlookup : s.client.outstandings.lookup i = none) (hc : (s.calls c).issued = some i) :
    s.processed c = true := by
  by_contra hwait
  rw [h.lookup_issued hc (by simpa using hwait)] at hlookup
  cases hlookup

/-- A response with a number that is not outstanding changes nothing. -/
theorem handle_ignored (h : Ids call s) {message : RpcMessage} (hm : message.IsResponse)
    (hlookup : s.client.outstandings.lookup message.id = none) : s.handle message = .ok s := by
  obtain ⟨htype, hpayload⟩ := hm
  have hmarked : (fun c => s.processed c ||
      (message.type = .RESPONSE ∧ (s.calls c).issued = some message.id : Bool)) = s.processed := by
    funext c
    by_cases hc : (s.calls c).issued = some message.id
    · rw [h.processed_of_lookup hlookup hc]
      rfl
    · simp [hc]
  have hmessage : s.client.onRpcMessage message = .ok (s.client, .none) := by
    simp only [RpcChannel.onRpcMessage, htype, assert_pos hpayload, hlookup]
    rfl
  rw [handle, hmessage]
  show Except.ok { s with processed := _ } = Except.ok s
  rw [hmarked]

end Ids

/-! ## The steps of the callers and of the client -/

section Steps

variable [DecidableEq C]

@[simp] theorem setCall_self (s : RpcSystem C) (c : C) (pc : CallPc) : (s.setCall c pc).calls c = pc :=
  Function.update_self ..

/-- The other calls stay where they are. -/
theorem setCall_of_ne (s : RpcSystem C) {c c' : C} (h : c' ≠ c) (pc : CallPc) :
    (s.setCall c pc).calls c' = s.calls c' := Function.update_of_ne h ..

/-- What does not change at the call that moves does not change at any. -/
theorem setCall_congr {α : Type} (f : CallPc → α) (s : RpcSystem C) {c : C} {pc : CallPc}
    (h : f pc = f (s.calls c)) (c' : C) : f ((s.setCall c pc).calls c') = f (s.calls c') := by
  by_cases hne : c' = c
  · rw [hne, setCall_self, h]
  · rw [setCall_of_ne _ hne]

/-- What `register` does at its place. -/
theorem register_eq {c : C} {i : Int} (hc : s.calls c = .numbered i) :
    s.register call c =
      { s with client := s.client.insertCall i (outstanding call c) }.setCall c (.registered i) := by
  rw [register, hc]

/-- What `send` does at its place. -/
theorem send_eq {c : C} {i : Int} (hc : s.calls c = .registered i) :
    s.send call c =
      { s with toServer := s.toServer ++ [(call c).message i] }.setCall c (.sent i) := by
  rw [send, hc]

/-- The client has taken the call `c` out for the response `message`. -/
def takeOut (call : C → RpcCall) (s : RpcSystem C) (c : C) (message : RpcMessage) : RpcSystem C :=
  { s with
    client := { s.client with outstandings := s.client.outstandings.erase message.id }
    processed := Function.update s.processed c true
    finishing := some (outstanding call c, message.response) }

@[simp] theorem takeOut_processed_self (s : RpcSystem C) (c : C) (message : RpcMessage) :
    (takeOut call s c message).processed c = true := Function.update_self ..

/-- The other calls are not processed by this. -/
theorem takeOut_processed_of_ne (s : RpcSystem C) {c c' : C} (h : c' ≠ c) (message : RpcMessage) :
    (takeOut call s c message).processed c' = s.processed c' := Function.update_of_ne h ..

/-- A response with the number of a call that waits takes this call out. -/
theorem Ids.handle_found (h : Ids call s) {message : RpcMessage} (hm : message.IsResponse) {c : C}
    (hc : (s.calls c).issued = some message.id) (hwait : s.processed c = false) :
    s.handle message = .ok (takeOut call s c message) := by
  obtain ⟨htype, hpayload⟩ := hm
  have hmarked : (fun c' => s.processed c' ||
      (message.type = .RESPONSE ∧ (s.calls c').issued = some message.id : Bool))
        = Function.update s.processed c true := by
    funext c'
    by_cases hne : c' = c
    · subst hne
      simp [htype, hc]
    · -- no other call has this number
      have hother : (s.calls c').issued ≠ some message.id := fun hc' =>
        hne (h.distinct c' c _ (CallPc.id_of_issued hc') (CallPc.id_of_issued hc))
      simp [hother, Function.update_of_ne hne]
  have hmessage : s.client.onRpcMessage message =
      .ok ({ s.client with outstandings := s.client.outstandings.erase message.id },
        .finish (outstanding call c) message.response) := by
    simp only [RpcChannel.onRpcMessage, htype, assert_pos hpayload, h.lookup_issued hc hwait]
    rfl
  rw [handle, hmessage]
  show Except.ok { s with client := _, processed := _, finishing := _ } = Except.ok _
  rw [hmarked]
  rfl

namespace Ids

/-- The next number is new. -/
theorem number (h : Ids call s) {c : C} (hc : s.calls c = .idle) (hlt : s.client.id + 1 < 2 ^ 63) :
    Ids call (s.number c) := by
  obtain ⟨hnonneg, -⟩ := h.fits
  -- the counter does not wrap
  have hnext : s.client.incrementAndGet.id = s.client.id + 1 := by
    have hpow : (256 : Int) ^ 8 / 2 = 2 ^ 63 := by decide
    exact wrapInt_of_fits ⟨by rw [hpow]; omega, by rw [hpow]; exact hlt⟩
  have hclient : (s.number c).client.id = s.client.id + 1 := hnext
  have hself : (s.number c).calls c = .numbered (s.client.id + 1) := by
    rw [RpcSystem.number, setCall_self, hnext]
  have hother : ∀ c', c' ≠ c → (s.number c).calls c' = s.calls c' :=
    fun c' hne => setCall_of_ne _ hne _
  have hissued : ∀ c', ((s.number c).calls c').issued = (s.calls c').issued :=
    setCall_congr CallPc.issued { s with client := s.client.incrementAndGet } (by rw [hc]; rfl)
  -- the new number is larger than all others
  have hfresh : ∀ c' i, c' ≠ c → ((s.number c).calls c').id = some i →
      ((s.number c).calls c).id = some i → False := by
    intro c' i hne hi hi'
    rw [hother c' hne] at hi
    rw [hself] at hi'
    cases hi'
    have := h.bound c' _ hi
    omega
  refine ⟨?_, fun c' i hi => ?_, fun c' c'' i hi hi' => ?_, fun i out => ?_, fun c' hc' => ?_⟩
  · rw [hclient]
    omega
  · rw [hclient]
    by_cases hne : c' = c
    · rw [hne, hself] at hi
      cases hi
      exact le_rfl
    · rw [hother c' hne] at hi
      have := h.bound c' i hi
      omega
  · by_cases hne : c' = c
    · by_cases hne' : c'' = c
      · rw [hne, hne']
      · exact (hfresh c'' i hne' hi' (hne ▸ hi)).elim
    · by_cases hne' : c'' = c
      · exact (hfresh c' i hne hi (hne' ▸ hi')).elim
      · rw [hother c' hne] at hi
        rw [hother c'' hne'] at hi'
        exact h.distinct c' c'' i hi hi'
  · simp only [hissued]
    exact h.waiting i out
  · exact h.unissued c' (by rw [← hissued, hc'])

/-- Registering keeps the numbers right. -/
theorem register (h : Ids call s) {c : C} {j : Int} (hc : s.calls c = .numbered j) :
    Ids call (s.register call c) := by
  have hwait : s.processed c = false := h.unissued c (by rw [hc]; rfl)
  rw [register_eq hc]
  set t := { s with client := s.client.insertCall j (outstanding call c) }.setCall c (.registered j)
  have hself : t.calls c = .registered j := setCall_self _ _ _
  have hother : ∀ c', c' ≠ c → t.calls c' = s.calls c' := fun c' hne => setCall_of_ne _ hne _
  have hid : ∀ c', (t.calls c').id = (s.calls c').id :=
    setCall_congr CallPc.id { s with client := s.client.insertCall j (outstanding call c) }
      (by rw [hc]; rfl)
  refine ⟨h.fits, fun c' i hi => ?_, fun c' c'' i hi hi' => ?_, fun i out => ?_, fun c' hc' => ?_⟩
  · exact h.bound c' i (by rw [← hid, hi])
  · exact h.distinct c' c'' i (by rw [← hid, hi]) (by rw [← hid, hi'])
  · show (s.client.outstandings.insert j (outstanding call c)).lookup i = some out ↔
      ∃ c', (t.calls c').issued = some i ∧ s.processed c' = false ∧ out = outstanding call c'
    by_cases hi : i = j
    · -- no other call has this number
      subst hi
      rw [Finmap.lookup_insert]
      constructor
      · rintro ⟨⟩
        exact ⟨c, by rw [hself]; rfl, hwait, rfl⟩
      · rintro ⟨c', hissued, -, rfl⟩
        have hsame : c' = c := by
          refine h.distinct c' c i ?_ (by rw [hc]; rfl)
          rw [← hid]
          exact CallPc.id_of_issued hissued
        rw [hsame]
    · rw [Finmap.lookup_insert_of_ne _ hi, h.waiting]
      refine exists_congr fun c' => ?_
      by_cases hne : c' = c
      · subst hne
        rw [hself, hc]
        refine iff_of_false ?_ ?_
        · rintro ⟨⟨⟩, -⟩
        · rintro ⟨hsome, -⟩
          exact hi (Option.some.inj hsome).symm
      · rw [hother c' hne]
  · by_cases hne : c' = c
    · rw [hne]
      exact hwait
    · exact h.unissued c' (by rw [← hother c' hne, hc'])

/-- Sending keeps the numbers right. -/
theorem send (h : Ids call s) {c : C} {i : Int} (hc : s.calls c = .registered i) :
    Ids call (s.send call c) := by
  rw [send_eq hc]
  exact h.of_eq rfl
    (setCall_congr CallPc.id { s with toServer := _ } (by rw [hc]; rfl))
    (setCall_congr CallPc.issued { s with toServer := _ } (by rw [hc]; rfl)) rfl

/-- Taking a call out keeps the numbers right. -/
theorem takeOut (h : Ids call s) {c : C} {message : RpcMessage}
    (hc : (s.calls c).issued = some message.id) : Ids call (takeOut call s c message) := by
  refine ⟨h.fits, h.bound, h.distinct, fun i out => ?_, fun c' hc' => ?_⟩
  · show (s.client.outstandings.erase message.id).lookup i = some out ↔
      ∃ c', (s.calls c').issued = some i ∧ _ ∧ out = outstanding call c'
    by_cases hi : i = message.id
    · -- the call with this number is marked as processed
      subst hi
      rw [Finmap.lookup_erase]
      refine iff_of_false nofun ?_
      rintro ⟨c', hc', hwait, -⟩
      have hsame : c' = c :=
        h.distinct c' c _ (CallPc.id_of_issued hc') (CallPc.id_of_issued hc)
      rw [hsame, takeOut_processed_self] at hwait
      cases hwait
    · rw [Finmap.lookup_erase_ne hi, h.waiting]
      refine exists_congr fun c' => and_congr_right fun hc' => ?_
      have hne : c' ≠ c := by
        rintro rfl
        exact hi (Option.some.inj (hc'.symm.trans hc))
      rw [takeOut_processed_of_ne _ hne]
  · have hne : c' ≠ c := by
      rintro rfl
      cases hc'.symm.trans hc
    rw [takeOut_processed_of_ne _ hne]
    exact h.unissued c' hc'

end Ids

end Steps

/-- A step of the other end: of the client only the messages to it change. -/
structure Remote (s t : RpcSystem C) : Prop where
  client : t.client = s.client
  calls : t.calls = s.calls
  processed : t.processed = s.processed
  finishing : t.finishing = s.finishing
  ran : t.ran = s.ran
  results : s.results ⊆ t.results
  refused : s.refused ⊆ t.refused

/-- A step of the other end keeps the numbers right. -/
theorem Ids.remote (h : Ids call s) (hst : Remote s t) : Ids call t :=
  h.of_eq hst.client (fun c => by rw [hst.calls]) (fun c => by rw [hst.calls]) hst.processed

/-! ## Messages -/

/-- The messages under way and the work of the services. -/
structure Wire (call : C → RpcCall) (s : RpcSystem C) : Prop where
  requests : ∀ m ∈ s.toServer, ∃ c i, s.calls c = .sent i ∧ m = (call c).message i
  invoked : ∀ inv ∈ s.invocations, ∃ c i, s.calls c = .sent i ∧ inv = (call c).invocation i
  results : ∀ p ∈ s.results, ∃ c i, s.calls c = .sent i ∧ p.1 = (call c).invocation i
  refused : ∀ p ∈ s.refused, ∃ c, s.calls c = .sent p.1
  responses : ∀ m ∈ s.toClient, m.IsResponse ∧ s.Answered m.id
  /-- A call that has been answered and waits will find a response. -/
  underway : ∀ c i, s.calls c = .sent i → s.Answered i → s.processed c = false →
    ∃ m ∈ s.toClient, m.id = i
  /-- The first response it will find is its answer. -/
  first : ∀ c i, s.calls c = .sent i → s.processed c = false →
    ∀ m, s.toClient.find? (·.id = i) = some m → Answer call s c i m.response

/-- Nothing is on the way at the start. -/
theorem Starts.wire (h : s.Starts) : Wire call s where
  requests m hm := by rw [h.toServer] at hm; cases hm
  invoked inv hinv := by rw [h.invocations] at hinv; cases hinv
  results p hp := by rw [h.results] at hp; cases hp
  refused p hp := by rw [h.refused] at hp; cases hp
  responses m hm := by rw [h.toClient] at hm; cases hm
  underway c i hc := by rw [h.calls c] at hc; cases hc
  first c i hc := by rw [h.calls c] at hc; cases hc

namespace Wire

/-- A number that has been answered belongs to a call that was sent. -/
theorem sent_of_answered (h : Wire call s) {i : Int} (hi : s.Answered i) :
    ∃ c, s.calls c = .sent i := by
  rcases hi with ⟨p, hp, rfl⟩ | ⟨p, hp, rfl⟩
  · obtain ⟨c, i, hc, heq⟩ := h.results p hp
    refine ⟨c, ?_⟩
    rw [hc, heq]
    rfl
  · exact h.refused p hp

/-- A step that changes neither the messages nor which calls were sent. -/
theorem of_sent (h : Wire call s) (hsent : ∀ c i, t.calls c = .sent i ↔ s.calls c = .sent i)
    (htoServer : t.toServer = s.toServer) (htoClient : t.toClient = s.toClient)
    (hinvocations : t.invocations = s.invocations) (hresults : t.results = s.results)
    (hrefused : t.refused = s.refused) (hprocessed : t.processed = s.processed) : Wire call t := by
  have hanswered : ∀ i, t.Answered i ↔ s.Answered i := by
    intro i
    rw [Answered, Answered, hresults, hrefused]
  refine ⟨fun m hm => ?_, fun inv hinv => ?_, fun p hp => ?_, fun p hp => ?_, fun m hm => ?_,
    fun c i hc ha hwait => ?_, fun c i hc hwait m hm => ?_⟩
  · rw [htoServer] at hm
    simp only [hsent]
    exact h.requests m hm
  · rw [hinvocations] at hinv
    simp only [hsent]
    exact h.invoked inv hinv
  · rw [hresults] at hp
    simp only [hsent]
    exact h.results p hp
  · rw [hrefused] at hp
    simp only [hsent]
    exact h.refused p hp
  · rw [htoClient] at hm
    rw [hanswered]
    exact h.responses m hm
  · rw [hprocessed] at hwait
    rw [htoClient]
    exact h.underway c i ((hsent c i).mp hc) ((hanswered i).mp ha) hwait
  · rw [hprocessed] at hwait
    rw [htoClient] at hm
    refine (h.first c i ((hsent c i).mp hc) hwait m hm).mono ?_ ?_
    · rw [hresults]
      exact List.Subset.refl _
    · rw [hrefused]
      exact List.Subset.refl _

/-- A response is sent to the call `c`: its answer, or one more for a number that has been answered. -/
theorem respond (h : Wire call s) (hids : Ids call s) {c : C} {m : RpcMessage}
    (hc : s.calls c = .sent m.id) (hm : m.IsResponse) (hcalls : t.calls = s.calls)
    (hprocessed : t.processed = s.processed) (htoClient : t.toClient = s.toClient ++ [m])
    (hresults : s.results ⊆ t.results) (hrefused : s.refused ⊆ t.refused)
    (hanswered : ∀ i, t.Answered i ↔ s.Answered i ∨ i = m.id)
    (hanswer : s.Answered m.id ∨ Answer call t c m.id m.response)
    (hrequests : ∀ m ∈ t.toServer, m ∈ s.toServer) (hinvoked : ∀ inv ∈ t.invocations, inv ∈ s.invocations)
    (hresult : ∀ p ∈ t.results, p ∈ s.results ∨ p.1 = (call c).invocation m.id)
    (hrefuse : ∀ p ∈ t.refused, p ∈ s.refused ∨ p.1 = m.id) : Wire call t := by
  refine ⟨fun m' hm' => ?_, fun inv hinv => ?_, fun p hp => ?_, fun p hp => ?_, fun m' hm' => ?_,
    fun c' i hc' ha hwait => ?_, fun c' i hc' hwait m' hm' => ?_⟩
  · rw [hcalls]
    exact h.requests m' (hrequests m' hm')
  · rw [hcalls]
    exact h.invoked inv (hinvoked inv hinv)
  · rw [hcalls]
    rcases hresult p hp with hp | hp
    · exact h.results p hp
    · exact ⟨c, m.id, hc, hp⟩
  · rw [hcalls]
    rcases hrefuse p hp with hp | hp
    · exact h.refused p hp
    · exact ⟨c, hp ▸ hc⟩
  · rw [htoClient] at hm'
    rcases List.mem_append.mp hm' with hm' | hm'
    · obtain ⟨hresponse, ha⟩ := h.responses m' hm'
      exact ⟨hresponse, (hanswered _).mpr (.inl ha)⟩
    · obtain rfl := List.mem_singleton.mp hm'
      exact ⟨hm, (hanswered _).mpr (.inr rfl)⟩
  · rw [hcalls] at hc'
    rw [hprocessed] at hwait
    rw [htoClient]
    rcases (hanswered i).mp ha with ha | rfl
    · obtain ⟨m', hm', hid⟩ := h.underway c' i hc' ha hwait
      exact ⟨m', List.mem_append_left _ hm', hid⟩
    · exact ⟨m, List.mem_append_right _ (List.mem_singleton_self m), rfl⟩
  · rw [hcalls] at hc'
    rw [hprocessed] at hwait
    rw [htoClient, List.find?_append] at hm'
    cases hold : s.toClient.find? (·.id = i) with
    | some m₀ =>
        -- the response found before is still the first
        rw [hold] at hm'
        cases hm'
        exact (h.first c' i hc' hwait _ hold).mono hresults hrefused
    | none =>
        rw [hold, Option.none_or] at hm'
        obtain rfl := List.mem_singleton.mp (List.mem_of_find?_eq_some hm')
        obtain rfl : m'.id = i := by simpa using List.find?_some hm'
        have hsame : c' = c := hids.distinct c' c m'.id (by rw [hc']; rfl) (by rw [hc]; rfl)
        subst hsame
        refine hanswer.resolve_left fun ha => ?_
        -- a call that has been answered and waits had a response before this one
        obtain ⟨m₁, hm₁, hid⟩ := h.underway c' m'.id hc' ha hwait
        have hnone := List.find?_eq_none.mp hold m₁ hm₁
        simp [hid] at hnone

/-- The client takes the next response, and no call that still waits has its number. -/
theorem pop (h : Wire call s) {m : RpcMessage} {rest : List RpcMessage}
    (hqueue : s.toClient = m :: rest) (hcalls : t.calls = s.calls) (htoClient : t.toClient = rest)
    (htoServer : t.toServer = s.toServer) (hinvocations : t.invocations = s.invocations)
    (hresults : t.results = s.results) (hrefused : t.refused = s.refused)
    (hwaits : ∀ c i, s.calls c = .sent i → t.processed c = false →
      s.processed c = false ∧ m.id ≠ i) : Wire call t := by
  have hanswered : ∀ i, t.Answered i ↔ s.Answered i := by
    intro i
    rw [Answered, Answered, hresults, hrefused]
  refine ⟨?_, ?_, ?_, ?_, fun m' hm' => ?_, fun c i hc ha hwait => ?_, fun c i hc hwait m' hm' => ?_⟩
  · rw [htoServer, hcalls]
    exact h.requests
  · rw [hinvocations, hcalls]
    exact h.invoked
  · rw [hresults, hcalls]
    exact h.results
  · rw [hrefused, hcalls]
    exact h.refused
  · rw [htoClient] at hm'
    rw [hanswered]
    exact h.responses m' (by rw [hqueue]; exact List.mem_cons_of_mem _ hm')
  · rw [hcalls] at hc
    obtain ⟨hwait, hne⟩ := hwaits c i hc hwait
    obtain ⟨m', hm', hid⟩ := h.underway c i hc ((hanswered i).mp ha) hwait
    rw [hqueue] at hm'
    rcases List.mem_cons.mp hm' with rfl | hm'
    · exact absurd hid hne
    · exact ⟨m', htoClient ▸ hm', hid⟩
  · rw [hcalls] at hc
    rw [htoClient] at hm'
    obtain ⟨hwait, hne⟩ := hwaits c i hc hwait
    have hfind : s.toClient.find? (·.id = i) = some m' := by
      rw [hqueue, List.find?_cons_of_neg (by simpa using hne), hm']
    refine (h.first c i hc hwait m' hfind).mono ?_ ?_
    · rw [hresults]
      exact List.Subset.refl _
    · rw [hrefused]
      exact List.Subset.refl _

/-- The server handles a request: a method goes to work, or the request is answered with an error. -/
theorem serve (h : Wire call s) (hids : Ids call s) :
    s.serve.Sat fun t => Wire call t ∧ Remote s t := by
  unfold RpcSystem.serve
  cases hqueue : s.toServer with
  | nil => exact .ok ⟨h, rfl, rfl, rfl, rfl, rfl, List.Subset.refl _, List.Subset.refl _⟩
  | cons message rest =>
      obtain ⟨c, i, hc, rfl⟩ := h.requests message (by rw [hqueue]; exact List.mem_cons_self ..)
      have hrest : ∀ m ∈ rest, m ∈ s.toServer := by
        intro m hm
        rw [hqueue]
        exact List.mem_cons_of_mem _ hm
      dsimp only
      have htype : ((call c).message i).type = .REQUEST := rfl
      unfold RpcChannel.onRpcMessage
      rw [htype]
      dsimp only
      by_cases hmethod : s.server.findMethod ((call c).message i) = .NO_ERROR
      · -- nothing is sent yet: the method may take its time
        rw [if_pos hmethod]
        refine .ok ⟨⟨fun m hm => h.requests m (hrest m hm), fun inv hinv => ?_, h.results, h.refused,
          h.responses, h.underway, h.first⟩, rfl, rfl, rfl, rfl, rfl, List.Subset.refl _,
          List.Subset.refl _⟩
        rcases List.mem_append.mp hinv with hinv | hinv
        · exact h.invoked inv hinv
        · exact ⟨c, i, hc, List.mem_singleton.mp hinv⟩
      · rw [if_neg hmethod]
        refine .ok ⟨?_, rfl, rfl, rfl, rfl, rfl, List.Subset.refl _, List.subset_append_left ..⟩
        refine h.respond hids (m := { type := .RESPONSE, id := i, error := some _ }) hc ⟨rfl, .inr rfl⟩
          rfl rfl rfl (List.Subset.refl _) (List.subset_append_left ..) (fun j => ?_) (.inr ?_) hrest
          (fun _ hinv => hinv) (fun _ hp => .inl hp) fun p hp => ?_
        · constructor
          · rintro (hp | ⟨p, hp, rfl⟩)
            · exact .inl (.inl hp)
            · rcases List.mem_append.mp hp with hp | hp
              · exact .inl (.inr ⟨p, hp, rfl⟩)
              · exact .inr (by rw [List.mem_singleton.mp hp]; rfl)
          · rintro (ha | rfl)
            · exact ha.mono (List.Subset.refl _) (List.subset_append_left ..)
            · exact .inr ⟨_, List.mem_append_right _ (List.mem_singleton_self _), rfl⟩
        · exact ⟨_, List.mem_append_right _ (List.mem_singleton_self _)⟩
        · rcases List.mem_append.mp hp with hp | hp
          · exact .inl hp
          · exact .inr (by rw [List.mem_singleton.mp hp]; rfl)

/-- A method is done, and its result is the answer. -/
theorem complete (h : Wire call s) (hids : Ids call s) {inv : RpcInvocation}
    (hinv : inv ∈ s.invocations) (result : List Byte) : Wire call (s.complete inv result) := by
  obtain ⟨c, i, hc, rfl⟩ := h.invoked inv hinv
  refine h.respond hids (m := doneCallback result i) hc ⟨rfl, .inl rfl⟩ rfl rfl rfl
    (List.subset_append_left ..) (List.Subset.refl _) (fun j => ?_) (.inr ?_) (fun _ hm => hm)
    (fun _ hm => List.mem_of_mem_erase hm) (fun p hp => ?_) (fun _ hp => .inl hp)
  · constructor
    · rintro (⟨p, hp, rfl⟩ | hp)
      · rcases List.mem_append.mp hp with hp | hp
        · exact .inl (.inl ⟨p, hp, rfl⟩)
        · exact .inr (by rw [List.mem_singleton.mp hp]; rfl)
      · exact .inl (.inr hp)
    · rintro (ha | rfl)
      · exact ha.mono (List.subset_append_left ..) (List.Subset.refl _)
      · exact .inl ⟨_, List.mem_append_right _ (List.mem_singleton_self _), rfl⟩
  · exact List.mem_append_right _ (List.mem_singleton_self _)
  · rcases List.mem_append.mp hp with hp | hp
    · exact .inl hp
    · exact .inr (by rw [List.mem_singleton.mp hp]; rfl)

/-- A repeated response keeps the messages right. -/
theorem duplicate (h : Wire call s) (hids : Ids call s) {m : RpcMessage} (hm : m.IsResponse)
    (ha : s.Answered m.id) : Wire call { s with toClient := s.toClient ++ [m] } := by
  obtain ⟨c, hc⟩ := h.sent_of_answered ha
  refine h.respond hids hc hm rfl rfl rfl (List.Subset.refl _) (List.Subset.refl _) (fun i => ?_)
    (.inl ha) (fun _ hm => hm) (fun _ hinv => hinv) (fun _ hp => .inl hp) (fun _ hp => .inl hp)
  refine ⟨fun hi => .inl hi, ?_⟩
  rintro (hi | rfl)
  · exact hi
  · exact ha

variable [DecidableEq C]

/-- A call that has not sent its request moves on without sending it. -/
theorem setCall (h : Wire call s) {c : C} (hc : ∀ i, s.calls c ≠ .sent i) (pc : CallPc)
    (hpc : ∀ i, pc ≠ .sent i) (client : RpcChannel C) :
    Wire call ({ s with client }.setCall c pc) := by
  refine h.of_sent (fun c' i => ?_) rfl rfl rfl rfl rfl rfl
  by_cases hne : c' = c
  · rw [hne, setCall_self]
    exact iff_of_false (hpc i) (hc i)
  · rw [setCall_of_ne _ hne]

/-- A request sent keeps the messages right. -/
theorem send (h : Wire call s) (hids : Ids call s) {c : C} {i : Int}
    (hc : s.calls c = .registered i) : Wire call (s.send call c) := by
  rw [send_eq hc]
  set t := { s with toServer := s.toServer ++ [(call c).message i] }.setCall c (.sent i)
  have hself : t.calls c = .sent i := setCall_self _ _ _
  have hother : ∀ c', c' ≠ c → t.calls c' = s.calls c' := fun c' hne => setCall_of_ne _ hne _
  have hsent : ∀ c' j, s.calls c' = .sent j → t.calls c' = .sent j := by
    intro c' j hc'
    have hne : c' ≠ c := by
      rintro rfl
      cases hc.symm.trans hc'
    rw [hother c' hne, hc']
  -- the call was not sent before, so nobody has answered it
  have hnew : ¬ s.Answered i := by
    intro ha
    obtain ⟨c', hc'⟩ := h.sent_of_answered ha
    have hsame : c' = c := hids.distinct c' c i (by rw [hc']; rfl) (by rw [hc]; rfl)
    rw [hsame, hc] at hc'
    cases hc'
  refine ⟨fun m hm => ?_, fun inv hinv => ?_, fun p hp => ?_, fun p hp => ?_, h.responses,
    fun c' j hc' ha hwait => ?_, fun c' j hc' hwait m hm => ?_⟩
  · rcases List.mem_append.mp hm with hm | hm
    · obtain ⟨c', j, hc', heq⟩ := h.requests m hm
      exact ⟨c', j, hsent c' j hc', heq⟩
    · exact ⟨c, i, hself, List.mem_singleton.mp hm⟩
  · obtain ⟨c', j, hc', heq⟩ := h.invoked inv hinv
    exact ⟨c', j, hsent c' j hc', heq⟩
  · obtain ⟨c', j, hc', heq⟩ := h.results p hp
    exact ⟨c', j, hsent c' j hc', heq⟩
  · obtain ⟨c', hc'⟩ := h.refused p hp
    exact ⟨c', hsent c' _ hc'⟩
  · by_cases hne : c' = c
    · rw [hne, hself] at hc'
      cases hc'
      exact absurd ha hnew
    · rw [hother c' hne] at hc'
      exact h.underway c' j hc' ha hwait
  · by_cases hne : c' = c
    · rw [hne, hself] at hc'
      cases hc'
      obtain ⟨-, ha⟩ := h.responses m (List.mem_of_find?_eq_some hm)
      obtain rfl : m.id = i := by simpa using List.find?_some hm
      exact absurd ha hnew
    · rw [hother c' hne] at hc'
      exact h.first c' j hc' hwait m hm

end Wire

/-! ## Closures -/

/-- A response to the call was processed, and it was its answer. -/
def Settled (call : C → RpcCall) (s : RpcSystem C) (c : C) (response : Option (List Byte)) : Prop :=
  ∃ i, s.calls c = .sent i ∧ s.processed c = true ∧ Answer call s c i response

/-- A settled call stays settled. -/
theorem Settled.mono {c : C} {response : Option (List Byte)} (h : Settled call s c response)
    (hsent : ∀ i, s.calls c = .sent i → t.calls c = .sent i)
    (hprocessed : s.processed c = true → t.processed c = true) (hresults : s.results ⊆ t.results)
    (hrefused : s.refused ⊆ t.refused) : Settled call t c response := by
  obtain ⟨i, hc, hp, ha⟩ := h
  exact ⟨i, hsent i hc, hprocessed hp, ha.mono hresults hrefused⟩

/-- The closures that were run, and the one that is going to be. -/
structure Closures (call : C → RpcCall) (s : RpcSystem C) : Prop where
  finishing : ∀ out response, s.finishing = some (out, response) →
    Settled call s out.call response ∧ out.call ∉ s.ran.map Prod.fst
  ran : ∀ p ∈ s.ran, Settled call s p.1 p.2
  once : (s.ran.map Prod.fst).Nodup

/-- No closure was run at the start. -/
theorem Starts.closures (h : s.Starts) : Closures call s where
  finishing out response hf := by rw [h.finishing] at hf; cases hf
  ran p hp := by rw [h.ran] at hp; cases hp
  once := by rw [h.ran]; exact List.nodup_nil

namespace Closures

/-- A step that runs no closure and forgets nothing. -/
theorem mono (h : Closures call s) (hsent : ∀ c i, s.calls c = .sent i → t.calls c = .sent i)
    (hprocessed : t.processed = s.processed) (hresults : s.results ⊆ t.results)
    (hrefused : s.refused ⊆ t.refused) (hfinishing : t.finishing = s.finishing)
    (hran : t.ran = s.ran) : Closures call t where
  finishing out response hf := by
    rw [hfinishing] at hf
    obtain ⟨hsettled, hnot⟩ := h.finishing out response hf
    rw [hran]
    exact ⟨hsettled.mono (hsent _) (by rw [hprocessed]; exact id) hresults hrefused, hnot⟩
  ran p hp := by
    rw [hran] at hp
    exact (h.ran p hp).mono (hsent _) (by rw [hprocessed]; exact id) hresults hrefused
  once := hran ▸ h.once

/-- A step of the other end runs no closure. -/
theorem remote (h : Closures call s) (hst : Remote s t) : Closures call t :=
  h.mono (fun c i hc => by rw [hst.calls, hc]) hst.processed hst.results hst.refused hst.finishing hst.ran

/-- The closure of the call that was taken out is run. -/
theorem runDone (h : Closures call s) : Closures call s.runDone := by
  unfold RpcSystem.runDone
  cases hf : s.finishing with
  | none => exact h
  | some p =>
      obtain ⟨out, response⟩ := p
      obtain ⟨hsettled, hnot⟩ := h.finishing out response hf
      dsimp only
      split
      · refine ⟨nofun, fun p hp => ?_, ?_⟩
        · rcases List.mem_append.mp hp with hp | hp
          · exact h.ran p hp
          · rw [List.mem_singleton.mp hp]
            exact hsettled
        · rw [List.map_append, List.nodup_append]
          refine ⟨h.once, List.nodup_singleton _, ?_⟩
          rintro c hc c' hc' rfl
          rw [List.mem_singleton.mp hc'] at hc
          exact hnot hc
      · exact ⟨nofun, h.ran, h.once⟩

variable [DecidableEq C]

/-- A call that has not sent its request moves on. -/
theorem setCall (h : Closures call s) {c : C} (hc : ∀ i, s.calls c ≠ .sent i) (pc : CallPc)
    (client : RpcChannel C) (toServer : List RpcMessage) :
    Closures call ({ s with client, toServer }.setCall c pc) := by
  refine h.mono (fun c' i hc' => ?_) rfl (List.Subset.refl _) (List.Subset.refl _) rfl rfl
  have hne : c' ≠ c := by
    rintro rfl
    exact hc i hc'
  rw [setCall_of_ne _ hne]
  exact hc'

/-- A call is taken out for its answer. -/
theorem takeOut (h : Closures call s) {c : C} {m : RpcMessage} (hc : s.calls c = .sent m.id)
    (hwait : s.processed c = false) (hanswer : Answer call s c m.id m.response) :
    Closures call (takeOut call s c m) := by
  have hmono : ∀ c', s.processed c' = true → (RpcSystem.takeOut call s c m).processed c' = true := by
    intro c' hp
    by_cases hne : c' = c
    · rw [hne, takeOut_processed_self]
    · rw [takeOut_processed_of_ne _ hne, hp]
  refine ⟨?_, fun p hp => ?_, h.once⟩
  · rintro out response ⟨⟩
    refine ⟨⟨m.id, hc, takeOut_processed_self .., hanswer⟩, fun hmem => ?_⟩
    -- a closure that was run has had its response processed
    obtain ⟨p, hp, hcall⟩ := List.mem_map.mp hmem
    obtain ⟨-, -, hprocessed, -⟩ := h.ran p hp
    have hcall' : p.1 = c := hcall
    rw [hcall', hwait] at hprocessed
    cases hprocessed
  · exact (h.ran p hp).mono (fun _ hc' => hc') (hmono _) (List.Subset.refl _) (List.Subset.refl _)

end Closures

/-! ## The system -/

/-- What holds between any two steps of the system. -/
structure RpcInv (call : C → RpcCall) (s : RpcSystem C) : Prop where
  ids : Ids call s
  wire : Wire call s
  closures : Closures call s

namespace RpcInv

variable [DecidableEq C]

/-- Receiving a message keeps the invariant. -/
theorem receive (h : RpcInv call s) {m : RpcMessage} {rest : List RpcMessage}
    (hqueue : s.toClient = m :: rest) :
    ({ s with toClient := rest }.handle m).Sat (RpcInv call) := by
  obtain ⟨hm, ha⟩ := h.wire.responses m (by rw [hqueue]; exact List.mem_cons_self ..)
  have hids : Ids call { s with toClient := rest } :=
    h.ids.of_eq rfl (fun _ => rfl) (fun _ => rfl) rfl
  have hclosures : Closures call { s with toClient := rest } :=
    h.closures.mono (fun _ _ hc => hc) rfl (List.Subset.refl _) (List.Subset.refl _) rfl rfl
  cases hlookup : s.client.outstandings.lookup m.id with
  | none =>
      -- a response too many: the calls that wait have other numbers
      rw [hids.handle_ignored hm hlookup]
      refine .ok ⟨hids, ?_, hclosures⟩
      refine h.wire.pop hqueue rfl rfl rfl rfl rfl rfl fun c i hc hwait => ⟨hwait, ?_⟩
      rintro rfl
      have hwait' : s.processed c = false := hwait
      rw [h.ids.processed_of_lookup hlookup (by rw [hc]; rfl)] at hwait'
      cases hwait'
  | some out =>
      obtain ⟨c, hissued, hwait, -⟩ := (h.ids.waiting m.id out).mp hlookup
      obtain ⟨c', hc'⟩ := h.wire.sent_of_answered ha
      obtain rfl : c' = c :=
        h.ids.distinct c' c m.id (by rw [hc']; rfl) (CallPc.id_of_issued hissued)
      -- it is the first response with this number, so it is the answer
      have hfind : s.toClient.find? (·.id = m.id) = some m := by
        rw [hqueue]
        exact List.find?_cons_of_pos (by simp)
      have hanswer := h.wire.first c' m.id hc' hwait m hfind
      rw [hids.handle_found hm hissued hwait]
      refine .ok ⟨hids.takeOut hissued, ?_, hclosures.takeOut hc' hwait hanswer⟩
      refine h.wire.pop hqueue rfl rfl rfl rfl rfl rfl fun c i hc hwait' => ?_
      have hne : c ≠ c' := by
        rintro rfl
        rw [takeOut_processed_self] at hwait'
        cases hwait'
      rw [takeOut_processed_of_ne _ hne] at hwait'
      refine ⟨hwait', ?_⟩
      rintro rfl
      exact hne (h.ids.distinct c c' m.id (by rw [hc]; rfl) (by rw [hc']; rfl))

/-- Every step passes the assertions and keeps the invariant. -/
theorem step (h : RpcInv call s) {a : RpcStep C} (ha : s.Enabled a) :
    (s.exec call a).Sat (RpcInv call) := by
  cases a with -- the callers, the other end, the client
  | number c =>
      obtain ⟨hc, hlt⟩ := ha
      have hunsent : ∀ i, s.calls c ≠ .sent i := by simp [hc]
      exact .ok ⟨h.ids.number hc hlt, h.wire.setCall hunsent (.numbered _) (by simp) _,
        h.closures.setCall hunsent ..⟩
  | register c =>
      obtain ⟨i, hc⟩ := ha
      have hunsent : ∀ i, s.calls c ≠ .sent i := by simp [hc]
      have hids := h.ids.register hc
      show Checked.Sat (.ok (s.register call c)) _
      rw [register_eq hc] at hids ⊢
      exact .ok ⟨hids, h.wire.setCall hunsent (.registered _) (by simp) _, h.closures.setCall hunsent ..⟩
  | send c =>
      obtain ⟨i, hc⟩ := ha
      have hunsent : ∀ i, s.calls c ≠ .sent i := by simp [hc]
      have hids := h.ids.send hc
      have hwire := h.wire.send h.ids hc
      show Checked.Sat (.ok (s.send call c)) _
      rw [send_eq hc] at hids hwire ⊢
      exact .ok ⟨hids, hwire, h.closures.setCall hunsent ..⟩
  | serve =>
      refine (h.wire.serve h.ids).mono ?_
      rintro t ⟨hwire, hremote⟩
      exact ⟨h.ids.remote hremote, hwire, h.closures.remote hremote⟩
  | complete inv result =>
      have hremote : Remote s (s.complete inv result) :=
        ⟨rfl, rfl, rfl, rfl, rfl, List.subset_append_left .., List.Subset.refl _⟩
      exact .ok ⟨h.ids.remote hremote, h.wire.complete h.ids ha result, h.closures.remote hremote⟩
  | duplicate m =>
      obtain ⟨hm, hanswered⟩ := ha
      have hremote : Remote s { s with toClient := s.toClient ++ [m] } :=
        ⟨rfl, rfl, rfl, rfl, rfl, List.Subset.refl _, List.Subset.refl _⟩
      exact .ok ⟨h.ids.remote hremote, h.wire.duplicate h.ids hm hanswered, h.closures.remote hremote⟩
  | receive =>
      simp only [RpcSystem.exec]
      split
      · next hqueue => exact h.receive hqueue
      · exact .ok h
  | receiveUnknown m =>
      obtain ⟨-, hm, hunknown⟩ := ha
      have hlookup : s.client.outstandings.lookup m.id = none := by
        by_contra hsome
        obtain ⟨out, hout⟩ := Option.ne_none_iff_exists'.mp hsome
        obtain ⟨c, hc, -⟩ := (h.ids.waiting m.id out).mp hout
        exact hunknown c (CallPc.id_of_issued hc)
      show (s.handle m).Sat _
      rw [h.ids.handle_ignored hm hlookup]
      exact .ok h
  | runDone =>
      have hwire : Wire call s.runDone ∧ Ids call s.runDone := by
        unfold RpcSystem.runDone
        split
        · exact ⟨h.wire.of_sent (fun _ _ => Iff.rfl) rfl rfl rfl rfl rfl rfl,
            h.ids.of_eq rfl (fun _ => rfl) (fun _ => rfl) rfl⟩
        · exact ⟨h.wire, h.ids⟩
      exact .ok ⟨hwire.2, hwire.1, h.closures.runDone⟩

/-- The invariant holds in every reachable state, and no step fails. -/
theorem of_reachable (hs : (rpcSystem call).Reachable s) :
    RpcInv call s ∧ (rpcSystem call).Safe s :=
  Machine.invariant (P := RpcInv call)
    (fun _ hinit => ⟨Starts.ids hinit, Starts.wire hinit, Starts.closures hinit⟩)
    (fun _ _ h ha => h.step ha) hs

end RpcInv

end RpcSystem

open RpcSystem in
/-- **Calls and responses are matched.** In every state the system can reach: the numbers of the calls are
distinct; no closure is run twice; the closure of a call is run with a response object parsed from what a
method has computed for the request of exactly this call, or not parsed because the server has answered
with an error code; a response with a number that is not outstanding changes nothing; `outstandings_`
holds the calls that were issued and have had no response processed; and no assertion fails. -/
theorem rpc_calls_matched {C : Type} [DecidableEq C] {call : C → RpcCall} {s : RpcSystem C}
    (hs : (rpcSystem call).Reachable s) :
    (∀ c c' i, (s.calls c).id = some i → (s.calls c').id = some i → c = c') ∧
    (s.ran.map Prod.fst).Nodup ∧
    (∀ c response, (c, response) ∈ s.ran → ∃ i, s.calls c = .sent i ∧ Answer call s c i response) ∧
    (∀ m : RpcMessage, m.IsResponse → s.client.outstandings.lookup m.id = none →
      s.handle m = .ok s) ∧
    (∀ i out, s.client.outstandings.lookup i = some out ↔
      ∃ c, (s.calls c).issued = some i ∧ s.processed c = false ∧ out = outstanding call c) ∧
    (rpcSystem call).Safe s := by
  obtain ⟨h, hsafe⟩ := RpcInv.of_reachable hs
  refine ⟨h.ids.distinct, h.closures.once, fun c response hran => ?_, fun m => h.ids.handle_ignored,
    h.ids.waiting, hsafe⟩
  obtain ⟨i, hc, -, hanswer⟩ := h.closures.ran (c, response) hran
  exact ⟨i, hc, hanswer⟩

/-- A call of a method that takes any request. -/
def RpcCall.echo : Unit → RpcCall := fun _ =>
  { service := "EchoService", method := "Echo", request := [10, 1, 120], response := true, done := true }

/-- A system before this call. -/
def RpcSystem.echoStart : RpcSystem Unit :=
  { client := ⟨0, ∅, none⟩
    server := ⟨0, ∅, some fun _ => some fun _ => some fun _ => true⟩
    calls := fun _ => .idle, toServer := [], toClient := [], finishing := none, invocations := []
    results := [], refused := [], processed := fun _ => false, ran := [] }

/-- The call from its start to its closure; one more response arrives in between. -/
def RpcSystem.echoRun : List (RpcStep Unit) :=
  [.number (), .register (), .send (), .serve, .complete (RpcCall.invocation (.echo ()) 1) [10, 1, 121],
    .duplicate (doneCallback [10, 1, 122] 1), .receive, .runDone, .receive]

/-- The response object of the call is parsed from its own result. -/
theorem rpc_calls_matched_echo :
    ∃ s, (rpcSystem RpcCall.echo).Run RpcSystem.echoStart RpcSystem.echoRun s ∧
      s.ran = [((), some [10, 1, 121])] ∧
      ∃ i, s.calls () = .sent i ∧ RpcSystem.Answer RpcCall.echo s () i (some [10, 1, 121]) := by
  have hstart : RpcSystem.echoStart.Starts :=
    ⟨rfl, rfl, fun _ => rfl, rfl, rfl, rfl, rfl, rfl, rfl, fun _ => rfl, rfl⟩
  have hrun : ∃ s, (rpcSystem RpcCall.echo).Run RpcSystem.echoStart RpcSystem.echoRun s ∧
      s.ran = [((), some [10, 1, 121])] := by
    have h₁ := Machine.Run.nil (M := rpcSystem RpcCall.echo) RpcSystem.echoStart
    have h₂ := Machine.Run.snoc (a := RpcStep.number ()) h₁ ⟨rfl, by decide⟩ rfl
    have h₃ := Machine.Run.snoc (a := RpcStep.register ()) h₂ ⟨_, rfl⟩ rfl
    have h₄ := Machine.Run.snoc (a := RpcStep.send ()) h₃ ⟨_, rfl⟩ rfl
    have h₅ := Machine.Run.snoc (a := (RpcStep.serve : RpcStep Unit)) h₄ nofun rfl
    have h₆ := Machine.Run.snoc (a := RpcStep.complete (RpcCall.invocation (.echo ()) 1) [10, 1, 121]) h₅
      (List.mem_singleton_self _) rfl
    have h₇ := Machine.Run.snoc (a := RpcStep.duplicate (doneCallback [10, 1, 122] 1)) h₆
      ⟨⟨rfl, .inl rfl⟩, .inl ⟨_, List.mem_singleton_self _, rfl⟩⟩ rfl
    have h₈ := Machine.Run.snoc (a := (RpcStep.receive : RpcStep Unit)) h₇ ⟨rfl, nofun⟩ rfl
    have h₉ := Machine.Run.snoc (a := (RpcStep.runDone : RpcStep Unit)) h₈ nofun rfl
    have h₁₀ := Machine.Run.snoc (a := (RpcStep.receive : RpcStep Unit)) h₉ ⟨rfl, nofun⟩ rfl
    exact ⟨_, h₁₀, rfl⟩
  obtain ⟨s, hrun, hran⟩ := hrun
  refine ⟨s, hrun, hran, (rpc_calls_matched ⟨_, _, hstart, hrun⟩).2.2.1 () (some [10, 1, 121]) ?_⟩
  rw [hran]
  exact List.mem_singleton_self _

end Muduo.Net
