import Muduo.Base.AsyncLogging

/-! # The buffers of `AsyncLogging` never run out

Four buffers go round between the threads that append and the back end. `BufferInv` says where they are:
the front end is without its spare buffer only while a full one waits in `buffers_`, and so the back end,
when it has given both of its own away, has collected at least two. -/

namespace Muduo

open Support

namespace AsyncLogging

/-- The back end is in a pass, and holds what it has collected. -/
def BackEndPc.isInPass : BackEndPc → Bool
  | .collected | .writing => true
  | _ => false

/-- The buffers of the front end. -/
structure FrontInv (s : AsyncLogging) : Prop where
  current : s.currentBuffer ≠ none
  buffers : none ∉ s.buffers
  /-- The spare buffer is missing only while a full one waits. -/
  missing : s.nextBuffer = none → s.buffers ≠ []
  spare : ∀ b, s.nextBuffer = some b → b = .new

/-- The back end has two empty buffers and nothing to write. -/
structure Rested (s : AsyncLogging) : Prop where
  newBuffer1 : s.newBuffer1 = some .new
  newBuffer2 : s.newBuffer2 = some .new
  buffersToWrite : s.buffersToWrite = []
  unwritten : s.unwritten = []

/-- The back end has given one of its buffers away, or both, and then it has collected two. -/
structure Holding (s : AsyncLogging) : Prop where
  newBuffer1 : s.newBuffer1 = none
  newBuffer2 : s.newBuffer2 = some .new ∨ (s.newBuffer2 = none ∧ 2 ≤ s.buffersToWrite.length)
  buffersToWrite : s.buffersToWrite ≠ []
  nonnull : none ∉ s.buffersToWrite
  unwritten : s.unwritten <:+ s.buffersToWrite
  whole : s.pc = .collected → s.unwritten = s.buffersToWrite

/-- Where the buffers are, between any two steps. -/
structure BufferInv (s : AsyncLogging) : Prop where
  front : s.FrontInv
  back : if s.pc.isInPass then s.Holding else s.Rested

variable {s : AsyncLogging}

/-- Between two passes the back end has both its spare buffers. -/
theorem BufferInv.rested (h : s.BufferInv) {pc : BackEndPc} (hpc : s.pc = pc)
    (hpass : pc.isInPass = false) : s.Rested := by
  have hback := h.back
  rw [hpc, hpass] at hback
  exact hback

/-- Inside a pass the back end holds what it has collected. -/
theorem BufferInv.holding (h : s.BufferInv) {pc : BackEndPc} (hpc : s.pc = pc)
    (hpass : pc.isInPass = true) : s.Holding := by
  have hback := h.back
  rw [hpc, hpass] at hback
  exact hback

/-- The invariant holds at the start. -/
theorem BufferInv.new : AsyncLogging.new.BufferInv where
  front := ⟨nofun, List.not_mem_nil, nofun, fun _ hb => (Option.some.inj hb).symm⟩
  back := ⟨rfl, rfl, rfl, rfl⟩

/-- What the other threads do does not reach the buffers of the back end. -/
theorem BufferInv.frontEnd (h : s.BufferInv) {running : Bool} {currentBuffer nextBuffer : BufferPtr}
    {buffers : List BufferPtr} {stopper : StopPc} {appended : List (List UInt8)}
    (hfront : FrontInv { s with running, currentBuffer, nextBuffer, buffers, stopper, appended }) :
    BufferInv { s with running, currentBuffer, nextBuffer, buffers, stopper, appended } := by
  refine ⟨hfront, ?_⟩
  have hback := h.back
  dsimp only
  split at hback
  · next hpass =>
      obtain ⟨h1, h2, hne, hnonnull, hsuffix, hwhole⟩ := hback
      rw [if_pos hpass]
      exact ⟨h1, h2, hne, hnonnull, hsuffix, hwhole⟩
  · next hpass =>
      obtain ⟨h1, h2, hnil, hdone⟩ := hback
      rw [if_neg hpass]
      exact ⟨h1, h2, hnil, hdone⟩

/-! ## The steps -/

/-- A line goes to the current buffer, or to the spare one. -/
theorem FrontInv.append (h : s.FrontInv) (logline : List UInt8) :
    (s.append logline).Sat fun t => t.FrontInv ∧ ∃ currentBuffer nextBuffer buffers,
      t = { s with currentBuffer, nextBuffer, buffers, appended := s.appended ++ [logline] } := by
  obtain ⟨current, hcurrent⟩ := Option.ne_none_iff_exists'.mp h.current
  unfold AsyncLogging.append
  rw [hcurrent]
  dsimp only [deref, Checked.ok_bind]
  split
  · exact .ok ⟨⟨nofun, h.buffers, h.missing, h.spare⟩, _, _, _, rfl⟩
  · refine .ok ⟨⟨nofun, ?_, fun _ => ?_, nofun⟩, _, _, _, rfl⟩
    · simpa using h.buffers
    · simp

/-- The back end collects the buffers, and gives one or two for them. -/
theorem BufferInv.collect (h : s.BufferInv) {pc : BackEndPc} (hpc : s.pc = pc)
    (hpass : pc.isInPass = false) : s.collect.BufferInv := by
  have hrest := h.rested hpc hpass
  have hall : none ∉ s.buffers ++ [s.currentBuffer] := by
    simpa using ⟨h.front.buffers, Ne.symm h.front.current⟩
  have hne : s.buffers ++ [s.currentBuffer] ≠ [] := by simp
  have hfront : s.newBuffer1 ≠ none := by
    rw [hrest.newBuffer1]
    exact nofun
  have hback : none ∉ s.buffersToWrite := by
    rw [hrest.buffersToWrite]
    exact List.not_mem_nil
  unfold AsyncLogging.collect
  dsimp only
  split
  · next spare hspare =>
      exact ⟨⟨hfront, hback, (nomatch ·.symm.trans hspare), h.front.spare⟩,
        ⟨rfl, .inl hrest.newBuffer2, hne, hall, List.suffix_refl _, fun _ => rfl⟩⟩
  · next hspare =>
      -- a full buffer waited, so with the current one there are two
      have hlen : 2 ≤ (s.buffers ++ [s.currentBuffer]).length := by
        have hpos := List.length_pos_iff.mpr (h.front.missing hspare)
        rw [List.length_append, List.length_singleton]
        omega
      refine ⟨⟨hfront, hback, fun hnone => ?_, fun b hb => ?_⟩,
        ⟨rfl, .inr ⟨rfl, hlen⟩, hne, hall, List.suffix_refl _, fun _ => rfl⟩⟩
      · cases hnone.symm.trans hrest.newBuffer2
      · exact Option.some.inj (hb.symm.trans hrest.newBuffer2)

/-- Taking the mutex keeps the invariant. -/
theorem BufferInv.lock (h : s.BufferInv) (hpc : s.pc = .lock) : s.lock.BufferInv := by
  unfold AsyncLogging.lock
  split
  · exact ⟨⟨h.front.current, h.front.buffers, h.front.missing, h.front.spare⟩, by
      obtain ⟨h1, h2, h3, h4⟩ := h.rested hpc rfl
      exact ⟨h1, h2, h3, h4⟩⟩
  · exact h.collect hpc rfl

/-- The asserts at the head of the loop hold. -/
theorem BufferInv.checkRunning (h : s.BufferInv) (hpc : s.pc = .top) :
    s.checkRunning.Sat BufferInv := by
  obtain ⟨h1, h2, h3, h4⟩ := h.rested hpc rfl
  obtain ⟨hcurrent, hbuffers, hmissing, hspare⟩ := h.front
  unfold AsyncLogging.checkRunning
  split
  · refine Checked.Sat.assert (by rw [h1]; rfl) ?_
    refine Checked.Sat.assert (by rw [h2]; rfl) ?_
    refine Checked.Sat.assert (by rw [h3]; rfl) ?_
    exact .ok ⟨⟨hcurrent, hbuffers, hmissing, hspare⟩, ⟨h1, h2, h3, h4⟩⟩
  · exact .ok ⟨⟨hcurrent, hbuffers, hmissing, hspare⟩, ⟨h1, h2, h3, h4⟩⟩

/-- Two buffers are kept when the others are dropped. -/
theorem BufferInv.dropMessages (h : s.BufferInv) (hpc : s.pc = .collected) (now : String) :
    (s.dropMessages now).Sat BufferInv := by
  obtain ⟨h1, h2, hne, hnonnull, hsuffix, -⟩ := h.holding hpc rfl
  obtain ⟨hcurrent, hbuffers, hmissing, hspare⟩ := h.front
  unfold AsyncLogging.dropMessages
  refine Checked.Sat.assert (by simpa using hne) ?_
  dsimp only
  split
  · next hlen =>
      have htwo : (s.buffersToWrite.take 2).length = 2 := List.length_take_of_le (by omega)
      refine .ok ⟨⟨hcurrent, hbuffers, hmissing, hspare⟩,
        ⟨h1, ?_, ?_, fun hmem => hnonnull (List.mem_of_mem_take hmem), List.suffix_refl _, nofun⟩⟩
      · exact h2.imp_right fun hnone => ⟨hnone.1, Nat.le_of_eq htwo.symm⟩
      · exact List.ne_nil_of_length_eq_add_one htwo
  · exact .ok ⟨⟨hcurrent, hbuffers, hmissing, hspare⟩, ⟨h1, h2, hne, hnonnull, hsuffix, nofun⟩⟩

/-- Writing a buffer out keeps the invariant. -/
theorem BufferInv.writeBuffer (h : s.BufferInv) (hpc : s.pc = .writing) :
    s.writeBuffer.Sat BufferInv := by
  obtain ⟨h1, h2, hne, hnonnull, hsuffix, -⟩ := h.holding hpc rfl
  obtain ⟨hcurrent, hbuffers, hmissing, hspare⟩ := h.front
  unfold AsyncLogging.writeBuffer
  split
  · exact .ok h
  · next p rest hunwritten =>
      rw [hunwritten] at hsuffix
      obtain ⟨b, rfl⟩ : ∃ b, p = some b := by
        refine Option.ne_none_iff_exists'.mp fun hnone => hnonnull ?_
        rw [← hnone]
        exact hsuffix.subset (List.mem_cons_self ..)
      refine .ok ⟨⟨hcurrent, hbuffers, hmissing, hspare⟩, ?_⟩
      dsimp only
      rw [hpc]
      exact ⟨h1, h2, hne, hnonnull, (List.suffix_cons _ _).trans hsuffix, nofun⟩

/-- A buffer is taken back from those that have been written. -/
theorem takeBack_none {buffers : List BufferPtr} (hne : buffers ≠ []) (hnonnull : none ∉ buffers) :
    takeBack none buffers = .ok (some .new, buffers.dropLast) := by
  have hback : buffers.getLast?.getD none = buffers.getLast hne := by
    rw [List.getLast?_eq_some_getLast hne]
    rfl
  obtain ⟨b, hb⟩ : ∃ b, buffers.getLast hne = some b := by
    refine Option.ne_none_iff_exists'.mp fun hnone => hnonnull ?_
    rw [← hnone]
    exact List.getLast_mem hne
  unfold takeBack
  rw [assert_pos (by simpa using hne), Checked.ok_bind, hback, hb]
  rfl

/-- What is left of the batch after it has been written is enough for the buffers that were given away. -/
theorem Holding.recycle (h : s.Holding) :
    s.recycle = .ok { s with
      pc := .top, newBuffer1 := some .new, newBuffer2 := some .new, buffersToWrite := [] } := by
  -- `resize(2)`
  have hkept : (if s.buffersToWrite.length > 2 then s.buffersToWrite.take 2 else s.buffersToWrite)
      = s.buffersToWrite.take 2 := by
    split
    · rfl
    · next hlen => exact (List.take_of_length_le (by omega)).symm
  have hne : s.buffersToWrite.take 2 ≠ [] := by simpa using h.buffersToWrite
  have hnonnull : none ∉ s.buffersToWrite.take 2 := fun hmem => h.nonnull (List.mem_of_mem_take hmem)
  unfold AsyncLogging.recycle
  rw [hkept, h.newBuffer1]
  dsimp only
  rw [takeBack_none hne hnonnull, Checked.ok_bind]
  rcases h.newBuffer2 with h2 | ⟨h2, hlen⟩
  · rw [h2]
    rfl
  · -- both were given away, and there are two to take back
    have hrest : (s.buffersToWrite.take 2).dropLast ≠ [] := by
      refine List.ne_nil_of_length_pos ?_
      rw [List.length_dropLast, List.length_take_of_le hlen]
      decide
    have hrest' : none ∉ (s.buffersToWrite.take 2).dropLast :=
      fun hmem => hnonnull (List.dropLast_subset _ hmem)
    rw [h2]
    dsimp only
    rw [takeBack_none hrest hrest']
    rfl

/-- Every step passes its assertions and keeps the buffers going round. -/
theorem BufferInv.step (h : s.BufferInv) {a : AsyncLogging.Step} (ha : s.Enabled a) :
    (s.exec a).Sat BufferInv := by
  obtain ⟨hcurrent, hbuffers, hmissing, hspare⟩ := h.front
  cases a with
  | append logline =>
      refine (h.front.append logline).mono ?_
      rintro t ⟨hfront, _, _, _, rfl⟩
      exact h.frontEnd hfront
  | start =>
      obtain ⟨h1, h2, h3, h4⟩ := h.rested ha rfl
      exact .ok ⟨⟨hcurrent, hbuffers, hmissing, hspare⟩, ⟨h1, h2, h3, h4⟩⟩
  | checkRunning => exact h.checkRunning ha
  | lock => exact .ok (h.lock ha)
  | wake => exact .ok (h.collect ha rfl)
  | dropMessages now => exact h.dropMessages ha now
  | writeBuffer => exact h.writeBuffer ha.1
  | recycle =>
      refine ⟨_, (h.holding ha.1 rfl).recycle, ?_⟩
      exact ⟨⟨hcurrent, hbuffers, hmissing, hspare⟩, ⟨rfl, rfl, rfl, ha.2⟩⟩
  | stop | notify | joined => exact .ok (h.frontEnd ⟨hcurrent, hbuffers, hmissing, hspare⟩)

end AsyncLogging

/-- Between any two steps the buffers are where `BufferInv` says, and no step fails. -/
theorem AsyncLogging.BufferInv.of_reachable {s : AsyncLogging} (hs : asyncLogging.Reachable s) :
    s.BufferInv ∧ asyncLogging.Safe s :=
  Machine.invariant (fun _ hinit => hinit ▸ BufferInv.new) (fun _ _ h ha => h.step ha) hs

/-- **Buffer recycling never runs dry.** At the head of the loop of the back end, which is where `top` goes
to `lock`, both its buffers are there and empty and it has nothing to write. The front end always has a
current buffer, and a spare one unless a full one waits. No assertion fails and no null pointer is
dereferenced in any step: not those at the head of the loop, and not those before a buffer is taken back,
whether or not the batch was cut to two buffers. -/
theorem buffers_never_run_dry {s : AsyncLogging} (hs : asyncLogging.Reachable s) :
    (s.pc = .top ∨ s.pc = .lock →
      s.newBuffer1 = some .new ∧ s.newBuffer2 = some .new ∧ s.buffersToWrite = []) ∧
    s.currentBuffer ≠ none ∧
    (s.nextBuffer = none → s.buffers ≠ []) ∧
    (s.pc = .writing ∧ s.unwritten = [] → ∃ t, s.recycle = .ok t ∧ t.pc = .top) ∧
    asyncLogging.Safe s := by
  obtain ⟨hinv, hsafe⟩ := AsyncLogging.BufferInv.of_reachable hs
  refine ⟨fun hpc => ?_, hinv.front.current, hinv.front.missing, fun hpc => ?_, hsafe⟩
  · have hrest : s.Rested := by
      rcases hpc with hpc | hpc
      · exact hinv.rested hpc rfl
      · exact hinv.rested hpc rfl
    exact ⟨hrest.newBuffer1, hrest.newBuffer2, hrest.buffersToWrite⟩
  · exact ⟨_, (hinv.holding hpc.1 rfl).recycle, rfl⟩

/-- The back end has started and the spare buffer is gone, for a line that fits nowhere. -/
def AsyncLogging.spareless (logline : List UInt8) : AsyncLogging :=
  { AsyncLogging.new with
    running := true
    pc := .top
    nextBuffer := none
    buffers := [some .new]
    appended := [logline] }

/-- A run of one long line leads there. -/
theorem AsyncLogging.spareless_reachable {logline : List UInt8} (hlong : kLargeBuffer ≤ logline.length) :
    asyncLogging.Reachable (AsyncLogging.spareless logline) := by
  have hnew : asyncLogging.Reachable AsyncLogging.new := .of_init rfl
  have hstart : asyncLogging.Reachable { AsyncLogging.new with running := true, pc := .top } :=
    hnew.step (a := .start) rfl rfl
  refine hstart.step (a := .append logline) trivial ?_
  have hfull : ¬ (FixedBuffer.new : Buffer).avail > logline.length := by
    rw [FixedBuffer.avail_new]
    exact Nat.not_lt.mpr hlong
  change AsyncLogging.append _ _ = _
  unfold AsyncLogging.append
  dsimp only [AsyncLogging.new, deref, Checked.ok_bind]
  rw [if_neg hfull]
  dsimp only [Option.getD]
  rw [FixedBuffer.append, dif_neg hfull]
  rfl

/-- The line that fits nowhere has used up the spare, and the back end has two. -/
theorem buffers_never_run_dry_spareless :
    ∃ s, asyncLogging.Reachable s ∧ s.nextBuffer = none ∧ s.buffers ≠ [] ∧
      s.newBuffer1 = some .new ∧ s.newBuffer2 = some .new := by
  have hlong : kLargeBuffer ≤ (List.replicate kLargeBuffer (0 : UInt8)).length :=
    Nat.le_of_eq (List.length_replicate ..).symm
  generalize List.replicate kLargeBuffer (0 : UInt8) = logline at hlong
  have hreach := AsyncLogging.spareless_reachable hlong
  obtain ⟨htop, -, hmissing, -, -⟩ := buffers_never_run_dry hreach
  obtain ⟨h1, h2, -⟩ := htop (.inl rfl)
  exact ⟨_, hreach, rfl, hmissing rfl, h1, h2⟩

end Muduo
