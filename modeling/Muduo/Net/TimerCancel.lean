import Muduo.Net.TimerOwnership

/-! # Cancelling a timer

When is `cancelInLoop` final? A pending timer is deleted at once. A timer that has already been run in
the current batch is noted in `cancelingTimers_` and deleted when the batch is reset. But a timer that
waits in the batch for its `run()` is run all the same: the loop of `handleRead` does not look at
`cancelingTimers_`. `cancelInLoop_final_iff` says that this is the only case. -/

namespace Muduo.Net

open Support

/-- How often the timer with number `n` has been started. -/
def TimerQueue.starts (q : TimerQueue) (n : Nat) : Nat := q.log.count (.started n)

namespace TimerState

variable {s s' : TimerState} {act : TimerStep} {own : Addr → Option Place}

/-- The timer `id` is in the part of the batch that has not been run. -/
def Awaits (s : TimerState) (id : TimerId) : Prop :=
  ∃ b t, s.batch = some b ∧ id.timer ∈ b.remaining.map Entry.timer ∧
    s.queue.heap id.timer = some t ∧ t.sequence = id.sequence

/-! ## What the steps note -/

/-- The notes and the lists that a step may change. -/
structure Noted (s : TimerState) (act : TimerStep) (s' : TimerState) : Prop where
  starts : act ≠ .run → ∀ n, s'.queue.starts n = s.queue.starts n
  added : ∀ id, .added id ∈ s'.queue.log → .added id ∈ s.queue.log ∨
    (∃ t, s.queue.heap id.timer = some t ∧ t.sequence = id.sequence) ∧ id.timer ∉ s'.created
  created : ∀ a ∈ s'.created, a ∈ s.created ∨ s.queue.heap a = none
  /-- While a batch is worked through, cancellations are kept and fewer timers remain. -/
  batch : ∀ b, s.batch = some b → act ≠ .reset →
    s.queue.cancelingTimers ⊆ s'.queue.cancelingTimers ∧
      ∃ b', s'.batch = some b' ∧ ∀ e ∈ b'.remaining, e ∈ b.remaining
  reset : act = .reset → s'.batch = none

/-- Other notes do not start a timer. -/
theorem starts_append {q q' : TimerQueue} {notes : List TimerEvent} (hlog : q'.log = q.log ++ notes)
    {n : Nat} (hn : .started n ∉ notes) : q'.starts n = q.starts n := by
  rw [TimerQueue.starts, hlog, List.count_append, List.count_eq_zero_of_not_mem hn,
    Nat.add_zero, TimerQueue.starts]

namespace Owned

/-- What adding a timer notes. -/
theorem noted_addTimerInLoop (h : s.Owned own) {a : Addr} (hact : s.Enabled (.addTimerInLoop a))
    (hexec : s.exec (.addTimerInLoop a) = .ok s') : s.Noted (.addTimerInLoop a) s' := by
  have hown : own a = some .waiting := (h.waiting a).mp hact
  obtain ⟨t, ht⟩ := h.indexed.exists_timer hown
  obtain ⟨q, hq, hret⟩ := Checked.bind_eq_ok.mp hexec
  cases hret
  obtain ⟨-, hheap, -, hcanceling, ws, hlog⟩ :=
    (h.indexed.addTimerInLoop_sat ht (by simp [hown])).of_eq_ok hq
  refine ⟨fun _ n => starts_append hlog (by simp), fun id hid => ?_,
    fun b hb => .inl (Finset.mem_of_mem_erase hb),
    fun b hb _ => ⟨hcanceling ▸ Finset.Subset.refl _, b, hb, fun _ => id⟩, nofun⟩
  dsimp only at hid
  rw [hlog, List.mem_append, List.mem_cons] at hid
  rcases hid with hid | hid | hid
  · exact .inl hid
  · cases hid
    exact .inr ⟨⟨t, ht, rfl⟩, Finset.notMem_erase _ _⟩
  · simp at hid

/-- What the end of a batch notes. -/
theorem noted_reset (h : s.Owned own) (hact : s.Enabled .reset) (hexec : s.exec .reset = .ok s') :
    s.Noted .reset s' := by
  obtain ⟨b, hb, -⟩ := hact
  simp only [exec, hb] at hexec
  obtain ⟨q, hq, hret⟩ := Checked.bind_eq_ok.mp hexec
  cases hret
  obtain ⟨own', q₁, -, hr, hend⟩ := ((h.held_reset hb).reset_sat b.now).of_eq_ok hq
  obtain ⟨ns, hns⟩ := hr.log
  obtain ⟨ws, hlog⟩ : ∃ ws : List Timestamp,
      q.log = s.queue.log ++ (ns.map .deleted ++ ws.map .resetTimerfd) := by
    rcases hend with rfl | ⟨w, rfl⟩
    · exact ⟨[], by simpa using hns⟩
    · exact ⟨[w], by simp [TimerQueue.note, hns]⟩
  refine ⟨fun _ n => starts_append hlog (by simp), fun id hid => .inl ?_, fun b => .inl,
    fun _ _ hne => absurd rfl hne, fun _ => rfl⟩
  dsimp only at hid
  rw [hlog] at hid
  simpa using hid

/-- What each step notes. -/
theorem noted (h : s.Owned own) (hact : s.Enabled act) (hexec : s.exec act = .ok s') :
    s.Noted act s' := by
  cases act with
  | create a w i r =>
      cases hexec
      refine ⟨fun _ _ => rfl, fun _ => .inl, fun b hb => ?_,
        fun b hb _ => ⟨Finset.Subset.refl _, b, hb, fun _ => id⟩, nofun⟩
      rcases Finset.mem_insert.mp hb with rfl | hb
      · exact .inr hact.1
      · exact .inl hb
  | addTimerInLoop a => exact h.noted_addTimerInLoop hact hexec
  | cancelInLoop id =>
      obtain ⟨q, hq, hret⟩ := Checked.bind_eq_ok.mp hexec
      cases hret
      rcases (h.indexed.cancelInLoop_sat id).of_eq_ok hq with
        ⟨t, -, -, -, -, -, -, hcanceling, hlog⟩ | ⟨-, rfl⟩
      · refine ⟨fun _ n => starts_append hlog (by simp), fun id' hid => .inl ?_, fun b => .inl,
          fun b hb _ => ⟨hcanceling ▸ Finset.Subset.refl _, b, hb, fun _ he => he⟩, nofun⟩
        dsimp only at hid
        rw [hlog] at hid
        simpa using hid
      · refine ⟨fun _ _ => rfl, fun _ => .inl, fun b => .inl,
          fun b hb _ => ⟨?_, b, hb, fun _ he => he⟩, nofun⟩
        dsimp only
        split
        · exact Finset.subset_insert _ _
        · exact Finset.Subset.refl _
  | expire now =>
      obtain ⟨⟨q, expired⟩, hq, hret⟩ := Checked.bind_eq_ok.mp hexec
      cases hret
      obtain ⟨-, -, -, -, hlog, -⟩ := (h.indexed.getExpired_sat h.bound now).of_eq_ok hq
      have hidle : s.batch = none := hact
      dsimp only at hlog
      refine ⟨fun _ n => ?_, fun id hid => .inl ?_, fun b => .inl, fun b hb => ?_, nofun⟩
      · simp only [TimerQueue.starts, hlog]
      · rwa [← hlog]
      · rw [hidle] at hb
        cases hb
  | run =>
      obtain ⟨b, hb, hrem⟩ := hact
      obtain ⟨e, remaining, hrem⟩ := List.exists_cons_of_ne_nil hrem
      obtain ⟨t, -, s₁, hs₁, rfl, -⟩ := h.run_stepped hb hrem
      rw [hs₁] at hexec
      cases hexec
      refine ⟨fun hne => absurd rfl hne, fun id hid => .inl ?_, fun b => .inl, fun b' hb' _ => ?_,
        nofun⟩
      · simpa [TimerQueue.note] using hid
      · rw [hb] at hb'
        cases hb'
        refine ⟨Finset.Subset.refl _, _, rfl, fun e' he' => ?_⟩
        rw [hrem]
        exact List.mem_cons_of_mem _ he'
  | reset => exact h.noted_reset hact hexec

/-- A timer on the heap keeps its address and its number in a step, or is deleted. -/
theorem stays_or_deleted (h : s.Owned own) (hact : s.Enabled act) (hexec : s.exec act = .ok s')
    {a : Addr} {t : Timer} (ht : s.queue.heap a = some t) :
    (∃ t', s'.queue.heap a = some t' ∧ t'.sequence = t.sequence) ∨
      t.sequence ∈ s'.queue.deleted := by
  obtain ⟨own', hstep⟩ := (h.step_stepped hact).of_eq_ok hexec
  obtain ⟨p, hp⟩ := h.indexed.exists_place ht
  rcases hstep.moves a t p ht hp with ⟨t', -, ht', hseq, -⟩ | ⟨hdel, -⟩
  · exact .inl ⟨t', ht', hseq⟩
  · exact .inr hdel

end Owned

/-- A timer that has been added is deleted, or at its address and on its way no more. -/
def AddedOk (s : TimerState) : Prop :=
  ∀ id, .added id ∈ s.queue.log → id.sequence ∈ s.queue.deleted ∨
    (∃ t, s.queue.heap id.timer = some t ∧ t.sequence = id.sequence) ∧ id.timer ∉ s.created

/-- Every step keeps track of what was added. -/
theorem AddedOk.step (hadded : s.AddedOk) (h : s.Owned own) (hact : s.Enabled act)
    (hexec : s.exec act = .ok s') : s'.AddedOk := by
  obtain ⟨own', hstep⟩ := (h.step_stepped hact).of_eq_ok hexec
  have hnoted := h.noted hact hexec
  intro id hid
  have hlive : (∃ t, s.queue.heap id.timer = some t ∧ t.sequence = id.sequence) →
      id.timer ∉ s'.created → id.sequence ∈ s'.queue.deleted ∨
        (∃ t, s'.queue.heap id.timer = some t ∧ t.sequence = id.sequence) ∧
          id.timer ∉ s'.created := by
    rintro ⟨t, ht, hseq⟩ hcreated
    rcases h.stays_or_deleted hact hexec ht with ⟨t', ht', hseq'⟩ | hdel
    · exact .inr ⟨⟨t', ht', hseq'.trans hseq⟩, hcreated⟩
    · exact .inl (hseq ▸ hdel)
  -- the note is an old one, or was made in this step
  rcases hnoted.added id hid with hold | ⟨hlive', hcreated⟩
  · rcases hadded id hold with hdel | ⟨⟨t, ht, hseq⟩, hcreated⟩
    · exact .inl (hstep.deleted _ hdel)
    · refine hlive ⟨t, ht, hseq⟩ fun hin => ?_
      rcases hnoted.created _ hin with hin | hnone
      · exact hcreated hin
      · rw [ht] at hnone
        cases hnone
  · exact hlive hlive' hcreated

/-- In every reachable state the timers have owners and the added ones are accounted for. -/
theorem owned_of_reachable (hs : timerQueue.Reachable s) : (∃ own, s.Owned own) ∧ s.AddedOk := by
  refine hs.induction (P := fun s => (∃ own, s.Owned own) ∧ s.AddedOk) ?_ ?_
  · rintro _ rfl
    exact ⟨⟨_, Owned.of_new⟩, nofun⟩
  · rintro s act s' ⟨⟨own, h⟩, hadded⟩ hact hexec
    obtain ⟨own', hstep⟩ := (h.step_stepped hact).of_eq_ok hexec
    exact ⟨⟨own', hstep.owned⟩, hadded.step h hact hexec⟩

/-! ## A cancelled timer that has been run -/

/-- The timer `id` is deleted, or has been run in the batch and will be deleted at its end. -/
def Finished (s : TimerState) (id : TimerId) : Prop :=
  id.sequence ∈ s.queue.deleted ∨
    (∃ t, s.queue.heap id.timer = some t ∧ t.sequence = id.sequence) ∧
      s.Holds id.timer id.sequence .expired ∧ ¬ s.Awaits id ∧
      (id.timer, id.sequence) ∈ s.queue.cancelingTimers

/-- Only timers that wait in the batch are started. -/
theorem Owned.starts_of_not_awaits (h : s.Owned own) (hact : s.Enabled act)
    (hexec : s.exec act = .ok s') {id : TimerId}
    (hid : id.sequence ∈ s.queue.deleted ∨
      (∃ t, s.queue.heap id.timer = some t ∧ t.sequence = id.sequence) ∧ ¬ s.Awaits id) :
    s'.queue.starts id.sequence = s.queue.starts id.sequence := by
  by_cases hrun : act = .run -- the only step that starts a timer
  · subst hrun
    obtain ⟨b, hb, hrem⟩ := hact
    obtain ⟨e, remaining, hrem⟩ := List.exists_cons_of_ne_nil hrem
    obtain ⟨t, ht, s₁, hs₁, rfl, -⟩ := h.run_stepped hb hrem
    rw [hs₁] at hexec
    cases hexec
    -- the timer that is started is alive and waits, so it is another one
    have hne : t.sequence ≠ id.sequence := by
      intro heq
      rcases hid with hdel | ⟨⟨u, hu, hseq⟩, hnot⟩
      · exact (h.census.gone _ hdel).2 _ t ht heq
      · have haddr := h.census.unique _ _ t u ht hu (heq.trans hseq.symm)
        refine hnot ⟨b, u, hb, ?_, hu, hseq⟩
        rw [hrem, ← haddr]
        exact List.mem_cons_self ..
    exact starts_append rfl (by simpa using hne.symm)
  · exact (h.noted hact hexec).starts hrun _

/-- A finished timer stays finished. -/
theorem Finished.step {id : TimerId} (hid : s.Finished id) (h : s.Owned own) (hact : s.Enabled act)
    (hexec : s.exec act = .ok s') : s'.Finished id := by
  obtain ⟨own', hstep⟩ := (h.step_stepped hact).of_eq_ok hexec
  have hnoted := h.noted hact hexec
  rcases hid with hdel | ⟨⟨t, ht, hseq⟩, hexpired, hnot, hcancel⟩
  · exact .inl (hstep.deleted _ hdel)
  rw [← hseq] at hexpired
  have hown : own id.timer = some .expired := (h.holds_iff ht _).mp hexpired
  rcases hstep.moves _ t _ ht hown with ⟨t', p', ht', hseq', hown', hmove⟩ | ⟨hdel, -⟩
  · refine .inr ⟨⟨t', ht', hseq'.trans hseq⟩, ?_⟩
    generalize hn : t.sequence = n at hmove
    cases hmove with
    | restart hu _ _ hnocancel =>
        -- a timer that restarts was not cancelled, so it is not this one
        have haddr := h.census.unique _ _ _ t hu ht hn.symm
        rw [haddr, ← hn, hseq] at hnocancel
        exact absurd hcancel hnocancel
    | stay =>
        have hholds := (hstep.owned.holds_iff ht' _).mpr hown'
        rw [hseq', hseq] at hholds
        by_cases hreset : act = .reset
        · have hidle := hnoted.reset hreset
          exact absurd hown' (hstep.owned.not_expired_of_idle hidle _)
        · cases hb : s.batch with
          | none => exact absurd hown (h.not_expired_of_idle hb _)
          | some b =>
              obtain ⟨hkeep, b', hb', hfewer⟩ := hnoted.batch b hb hreset
              -- the batch only gets shorter, and `cancelingTimers_` is not cleared before its end
              refine ⟨hholds, ?_, hkeep hcancel⟩
              rintro ⟨b'', u, hb'', hmem, -⟩
              rw [hb'] at hb''
              cases hb''
              obtain ⟨e, he, heq⟩ := List.mem_map.mp hmem
              exact hnot ⟨b, t, hb, List.mem_map.mpr ⟨e, hfewer e he, heq⟩, ht, hseq⟩
  · exact .inl (hseq ▸ hdel)

/-- Once finished, a timer is never started again. -/
theorem Finished.run {id : TimerId} {acts : List TimerStep} (hid : s.Finished id)
    (h : s.Owned own) (hrun : timerQueue.Run s acts s') :
    s'.queue.starts id.sequence = s.queue.starts id.sequence := by
  suffices hinv : (∃ own', s'.Owned own') ∧ s'.Finished id ∧
      s'.queue.starts id.sequence = s.queue.starts id.sequence from hinv.2.2
  -- the count stays along the run because the timer stays finished
  refine hrun.induction (P := fun u => (∃ own', u.Owned own') ∧ u.Finished id ∧
    u.queue.starts id.sequence = s.queue.starts id.sequence) ?_ ⟨⟨own, h⟩, hid, rfl⟩
  rintro u act u' ⟨⟨ownU, hu⟩, hfin, hstarts⟩ hact hexec
  obtain ⟨own', hstep⟩ := (hu.step_stepped hact).of_eq_ok hexec
  refine ⟨⟨own', hstep.owned⟩, hfin.step hu hact hexec, ?_⟩
  rw [hu.starts_of_not_awaits hact hexec, hstarts]
  exact hfin.imp_right fun hlive => ⟨hlive.1, hlive.2.2.1⟩

/-! ## What `cancelInLoop` does in each place -/

namespace Owned

variable {id : TimerId} {t : Timer}

/-- Cancelling a timer of the batch only notes it for `reset()`. -/
theorem cancelInLoop_expired (h : s.Owned own) (hown : own id.timer = some .expired)
    (hexec : s.exec (.cancelInLoop id) = .ok s') :
    s' = { s with queue := { s.queue with
      cancelingTimers := Insert.insert (id.timer, id.sequence) s.queue.cancelingTimers } } := by
  obtain ⟨q, hq, hret⟩ := Checked.bind_eq_ok.mp hexec
  cases hret
  have hcalling : s.queue.callingExpiredTimers = true := by
    rw [h.calling]
    cases hb : s.batch with
    | none => exact absurd hown (h.not_expired_of_idle hb _)
    | some b => rfl
  rcases (h.indexed.cancelInLoop_sat id).of_eq_ok hq with ⟨t, -, -, hpending, -⟩ | ⟨-, rfl⟩
  · rw [hown] at hpending
    cases hpending
  · rw [if_pos hcalling]

/-- Cancelling a pending timer deletes it. -/
theorem cancelInLoop_pending (h : s.Owned own) (hown : own id.timer = some .pending)
    (ht : s.queue.heap id.timer = some t) (hseq : t.sequence = id.sequence)
    (hexec : s.exec (.cancelInLoop id) = .ok s') : id.sequence ∈ s'.queue.deleted := by
  obtain ⟨q, hq, hret⟩ := Checked.bind_eq_ok.mp hexec
  cases hret
  rcases (h.indexed.cancelInLoop_sat id).of_eq_ok hq with
    ⟨_, -, -, -, -, -, -, -, hlog⟩ | ⟨hactive, -⟩
  · simp [TimerQueue.deleted, hlog]
  · exact absurd (((h.indexed id.timer).active _).mpr ⟨t, ht, hown, hseq⟩) hactive

/-- A cancelled timer that does not wait in the batch is finished. -/
theorem cancelInLoop_finished (h : s.Owned own)
    (hid : id.sequence ∈ s.queue.deleted ∨
      (∃ t, s.queue.heap id.timer = some t ∧ t.sequence = id.sequence) ∧ id.timer ∉ s.created)
    (hnot : ¬ s.Awaits id) (hexec : s.exec (.cancelInLoop id) = .ok s') : s'.Finished id := by
  have hact : s.Enabled (.cancelInLoop id) := trivial
  obtain ⟨own', hstep⟩ := (h.step_stepped hact).of_eq_ok hexec
  rcases hid with hdel | ⟨⟨t, ht, hseq⟩, hcreated⟩
  · exact .inl (hstep.deleted _ hdel)
  obtain ⟨p, hp⟩ := h.indexed.exists_place ht
  cases p with -- wherever the timer is, but for the part of the batch that waits
  | waiting => exact absurd ((h.waiting _).mpr hp) hcreated
  | pending => exact .inl (h.cancelInLoop_pending hp ht hseq hexec)
  | expired =>
      obtain rfl := h.cancelInLoop_expired hp hexec
      exact .inr ⟨⟨t, ht, hseq⟩, (h.expired _).mp hp, hnot, Finset.mem_insert_self _ _⟩

end Owned

/-! ## A cancelled timer that waits to be run -/

/-- A timer that waits in the batch can be run, after those before it. -/
theorem Owned.exists_start (h : s.Owned own) {b : Batch} (hb : s.batch = some b) {t : Timer}
    {before after : List Entry} {e : Entry} (hrem : b.remaining = before ++ e :: after)
    (ht : s.queue.heap e.timer = some t) :
    ∃ acts s', timerQueue.Run s acts s' ∧
      s.queue.starts t.sequence < s'.queue.starts t.sequence := by
  induction before generalizing s b with
  | nil =>
      obtain ⟨u, hu, s', hexec, rfl, -⟩ := h.run_stepped hb hrem
      rw [ht] at hu
      cases hu
      refine ⟨[.run], _, .single ⟨b, hb, by simp [hrem]⟩ hexec, ?_⟩
      simp [TimerQueue.starts, TimerQueue.note]
  | cons e₀ before ih =>
      -- run the first one, whose callback does nothing, and go on
      obtain ⟨u, hu, s₁, hexec, rfl, hstep⟩ := h.run_stepped hb hrem
      obtain ⟨acts, s', hrun, hlt⟩ := ih hstep.owned rfl rfl ht
      have hone : timerQueue.Run s [.run] _ := .single ⟨b, hb, by simp [hrem]⟩ hexec
      refine ⟨.run :: acts, s', hone.trans hrun, lt_of_le_of_lt ?_ hlt⟩
      simp [TimerQueue.starts, TimerQueue.note]

/-- A timer that waits in the batch when it is cancelled can still be started. -/
theorem Owned.exists_start_of_awaits (h : s.Owned own) {id : TimerId} (hid : s.Awaits id)
    (hexec : s.exec (.cancelInLoop id) = .ok s') :
    ∃ acts u, timerQueue.Run s' acts u ∧
      s'.queue.starts id.sequence < u.queue.starts id.sequence := by
  have hact : s.Enabled (.cancelInLoop id) := trivial
  obtain ⟨own', hstep⟩ := (h.step_stepped hact).of_eq_ok hexec
  obtain ⟨b, t, hb, hmem, ht, hseq⟩ := hid
  obtain ⟨e, he, htimer⟩ := List.mem_map.mp hmem
  obtain ⟨before, after, hrem⟩ := List.append_of_mem he
  have hown : own id.timer = some .expired := by
    obtain ⟨ran, hran, -⟩ := h.ran b hb
    rw [h.expired, batchEntries_eq hb, hran, List.map_append]
    exact List.mem_append_right _ hmem
  obtain rfl := h.cancelInLoop_expired hown hexec
  obtain ⟨acts, u, hrun, hlt⟩ := hstep.owned.exists_start hb hrem (htimer ▸ ht)
  rw [hseq] at hlt
  exact ⟨acts, u, hrun, hlt⟩

end TimerState

open TimerState in
/-- **When cancelling is final.** After `cancelInLoop` of a timer that has been added, the timer is
never started again, on any run, exactly when it did not wait for its `run()` in the current batch. -/
theorem cancelInLoop_final_iff {s s' : TimerState} {id : TimerId} (hs : timerQueue.Reachable s)
    (hadded : .added id ∈ s.queue.log) (hexec : s.exec (.cancelInLoop id) = .ok s') :
    (∀ acts u, timerQueue.Run s' acts u →
      u.queue.starts id.sequence = s'.queue.starts id.sequence) ↔ ¬ s.Awaits id := by
  obtain ⟨⟨own, h⟩, hok⟩ := owned_of_reachable hs
  have hact : s.Enabled (.cancelInLoop id) := trivial
  obtain ⟨own', hstep⟩ := (h.step_stepped hact).of_eq_ok hexec
  constructor
  · intro hfinal hawaits
    obtain ⟨acts, u, hrun, hlt⟩ := h.exists_start_of_awaits hawaits hexec
    exact absurd (hfinal acts u hrun) hlt.ne'
  · intro hnot acts u hrun
    exact (h.cancelInLoop_finished (hok id hadded) hnot hexec).run hstep.owned hrun

/-- A pending timer is cancelled for good. -/
theorem cancelInLoop_final_oneTimer :
    ∃ s', oneTimer.exec (.cancelInLoop ⟨16, 1⟩) = .ok s' ∧
      ∀ acts u, timerQueue.Run s' acts u → u.queue.starts 1 = s'.queue.starts 1 := by
  have hadded : .added ⟨16, 1⟩ ∈ oneTimer.queue.log := by decide
  have hs := (Machine.Reachable.of_init rfl).run oneTimer_run
  refine ⟨_, rfl, (cancelInLoop_final_iff hs hadded rfl).mpr ?_⟩
  rintro ⟨b, t, hb, -⟩
  cases hb

/-- The callback of the first of two expired timers cancels the second, and the second is run next. -/
theorem cancelInLoop_not_final :
    ∃ s' u, timerQueue.Reachable firstRun ∧ .added ⟨32, 2⟩ ∈ firstRun.queue.log ∧
      firstRun.exec (.cancelInLoop ⟨32, 2⟩) = .ok s' ∧ timerQueue.Run s' [.run] u ∧
      s'.queue.starts 2 = 0 ∧ u.queue.starts 2 = 1 := by
  have hone := (Machine.Reachable.of_init rfl).run oneTimer_run
  exact ⟨_, _, (hone.run twoTimers_run).run firstRun_run, by decide, rfl,
    .single ⟨_, rfl, nofun⟩ rfl, rfl, rfl⟩

end Muduo.Net
