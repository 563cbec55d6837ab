import Coroutine.Proof.EventWaiting
import Coroutine.Proof.TimerLife
import Coroutine.Spec.HookIo

/-!
# Steps of hooked I/O

What one step of `do_io` (`Moves`) and of a timer callback (`Fires`) can do.

* `Leaves`: a timer that is still in the set is as it was, whatever other code does with the
  timers, and whatever is extracted.
* `step_sound`: the callbacks that are extracted, and the timer of the round, are those of
  timers that the call has added.
-/

namespace Coroutine

open Lib

namespace TimerManager

variable {addr : ℕ ↪ ℕ} {m m' : TimerManager}

/-- **A timer that is in the set afterwards is as it was.** -/
def Leaves (m m' : TimerManager) (t : ℕ) : Prop :=
  t ∈ m'.m_timers → t ∈ m.m_timers ∧ m'.timer t = m.timer t

theorem cancel_leaves (hm : m.WF addr) {u : ℕ}
    (h : (TimerOp.cancel u).call addr m = .ok m') (t : ℕ) : m.Leaves m' t := by
  obtain ⟨⟨b, m₁⟩, hcancel, rfl⟩ := map_ok h
  intro ht
  rcases cancel_cases hm u with ⟨-, heq⟩ | ⟨-, heq⟩
  · rw [heq] at hcancel
    cases hcancel
    exact ⟨ht, rfl⟩
  · rw [heq] at hcancel
    cases hcancel
    obtain ⟨hne, hmem⟩ := (mem_cancelled hm.sorted u t).1 ht
    exact ⟨hmem, if_neg hne⟩

/-- **A call on another timer.** -/
theorem call_leaves (hm : m.WF addr) {op : TimerOp} (h : op.call addr m = .ok m') {t : ℕ}
    (ht : t < m.made) (hne : op.handle ≠ some t) : m.Leaves m' t := by
  intro hmem
  have hnew : t ≠ m.made := by omega
  cases op with
  | addTimer now ms cb recurring =>
    cases h
    rw [addTimer_timer, if_neg hnew]
    exact ⟨((mem_addTimer now ms _ recurring t).1 hmem).resolve_left hnew, rfl⟩
  | addConditionTimer now ms cb weak_cond recurring =>
    cases h
    unfold addConditionTimer at hmem ⊢
    rw [addTimer_timer, if_neg hnew]
    exact ⟨((mem_addTimer now ms _ recurring t).1 hmem).resolve_left hnew, rfl⟩
  | cancel u => exact cancel_leaves hm h t hmem
  | refresh now u =>
    cases h
    have htu : t ≠ u := fun heq => hne (congrArg some heq.symm)
    rcases refresh_cases hm now u with ⟨-, heq⟩ | ⟨hu, heq⟩
    · rw [heq] at hmem ⊢
      exact ⟨hmem, rfl⟩
    · rw [heq] at hmem ⊢
      exact ⟨(mem_reinsert hm.sorted hu _ t).1 hmem, if_neg htu⟩
  | reset now ms from_now u =>
    cases h
    have htu : t ≠ u := fun heq => hne (congrArg some heq.symm)
    rcases reset_cases hm now ms from_now u with ⟨-, heq⟩ | ⟨-, -, heq⟩ | ⟨-, hu, heq⟩
    · rw [heq] at hmem ⊢
      exact ⟨hmem, rfl⟩
    · rw [heq] at hmem ⊢
      exact ⟨hmem, rfl⟩
    · rw [heq] at hmem ⊢
      dsimp only at hmem ⊢
      rw [addTimerPtr_timers] at hmem
      rw [addTimerPtr_timer]
      exact ⟨(mem_reinsert hm.sorted hu _ t).1 hmem, if_neg htu⟩
  | getNextTimer now =>
    cases h
    rw [getNextTimer_eq] at hmem ⊢
    exact ⟨hmem, rfl⟩

/-- **A one-shot timer that is extracted is out of the set.** -/
theorem Scans.leaves {now_ms : UInt64} {probe : ℕ} {cbs : List (Option TimerCb)}
    (h : m.Scans addr now_ms probe cbs m') {t : ℕ}
    (hone : t ∈ m.m_timers → (m.timer t).m_recurring = false) : m.Leaves m' t := by
  intro ht
  obtain ⟨hmem, hrec⟩ := (h.mem t).1 ht
  refine ⟨hmem, ?_⟩
  rw [h.timer, if_neg]
  intro hexp
  rw [hrec hexp] at hone
  cases hone hmem

theorem call_made (hm : m.WF addr) {op : TimerOp} (h : op.call addr m = .ok m') :
    m'.WF addr ∧ m.made ≤ m'.made := by
  obtain ⟨m₁, h₁, hm₁⟩ := TimerOp.call_ok hm op
  rw [h₁] at h
  cases h
  exact ⟨hm₁, TimerCall.made_le hm (c := .op op) h₁⟩

end TimerManager

namespace HookIo

variable {κ : Type} {addr : ℕ ↪ ℕ} {ctl : EpollCtl κ} {call : IoCall} {s s' : HookIo κ}

/-! ## What a step can do -/

/-- The timers after `if(timer) timer->cancel()`. -/
def Cancels (addr : ℕ ↪ ℕ) (s : HookIo κ) (m : TimerManager) : Prop :=
  m = s.timers ∨ ∃ t, (TimerOp.cancel t).call addr s.timers = .ok m

theorem cancelTimer_ok (h : s.cancelTimer addr = .ok s') :
    ∃ m, s.Cancels addr m ∧ s' = { s with timers := m } := by
  unfold cancelTimer at h
  split at h
  · cases h
    exact ⟨_, Or.inl rfl, rfl⟩
  · rename_i t ht
    obtain ⟨⟨b, m⟩, hcancel, rfl⟩ := map_ok h
    exact ⟨m, Or.inr ⟨t, by simp [TimerOp.call, hcancel, Except.map]⟩, rfl⟩

/-- **What a step of `do_io` does.** -/
inductive Moves (addr : ℕ ↪ ℕ) (ctl : EpollCtl κ) (call : IoCall) (s : HookIo κ) (n : ℤ)
    (errno : CInt) : HookIo κ → Prop
  | stays : Moves addr ctl call s n errno s
  | enters (pc : IoPc) (hpc : s.pc = .enter)
      (hnext : pc = .plain ∨ pc = .call ∨ pc = .returned (-1) EBADF) :
      Moves addr ctl call s n errno { s with taken := call.wakes s.io, pc := pc }
  | returns (hpc : s.pc = .plain ∨ s.pc = .call) :
      Moves addr ctl call s n errno { s with pc := .returned n errno }
  | starts (pc : IoPc) (hpc : s.pc = .call) (hnext : pc = .arm ∨ pc = .add) :
      Moves addr ctl call s n errno { s with pc := pc }
  | arms (hpc : s.pc = .arm) :
      Moves addr ctl call s n errno { s with armed := some s.time, pc := .insert s.time }
  | inserts (now : UInt64) (hpc : s.pc = .insert now) :
      Moves addr ctl call s n errno
        { s with
          timers := (s.timers.addTimer addr now call.timeout
            (some (.onTimer call.tinfo (some call.cb))) false).2.1
          timer := some s.timers.made
          mine := s.timers.made :: s.mine
          pc := .add }
  | adds (io : IOManager κ) (pc : IoPc) (hpc : s.pc = .add)
      (hio : (EventOp.addEvent call.caller call.fd call.event none).call ctl s.io = .ok io)
      (hnext : pc = .failed ∨ pc = .yielding) :
      Moves addr ctl call s n errno { s with io := io, pc := pc }
  | fails (m : TimerManager) (hpc : s.pc = .failed) (hm : s.Cancels addr m) :
      Moves addr ctl call s n errno { s with timers := m, pc := .returned (-1) errno }
  | yields (hpc : s.pc = .yielding) : Moves addr ctl call s n errno { s with pc := .suspended }
  | wakes (hpc : s.pc = .suspended) :
      Moves addr ctl call s n errno { s with taken := s.taken + 1, pc := .resumed }
  | cancels (m : TimerManager) (hpc : s.pc = .resumed) (hm : s.Cancels addr m) :
      Moves addr ctl call s n errno { s with timers := m, pc := .check }
  | timesOut (hpc : s.pc = .check) (hset : s.cancelled ≠ 0) :
      Moves addr ctl call s n errno { s with pc := .returned (-1) s.cancelled }
  | retries (hpc : s.pc = .check) (hset : s.cancelled = 0) :
      Moves addr ctl call s n errno { s with timer := none, armed := none, pc := .call }

theorem doIo_moves {n : ℤ} {errno : CInt} (h : s.doIo addr ctl call n errno = .ok s') :
    Moves addr ctl call s n errno s' := by
  unfold doIo at h
  split at h <;> rename_i hpc
  · dsimp only at h
    split at h
    · cases h
      exact .enters _ hpc (Or.inl rfl)
    · split at h
      · cases h
        exact .enters _ hpc (Or.inl rfl)
      · split at h
        · cases h
          exact .enters _ hpc (Or.inr (Or.inr rfl))
        · split at h
          · cases h
            exact .enters _ hpc (Or.inl rfl)
          · cases h
            exact .enters _ hpc (Or.inr (Or.inl rfl))
  · cases h
    exact .returns (Or.inl hpc)
  · split at h
    · cases h
      exact .stays
    · split at h
      · cases h
        refine .starts _ hpc ?_
        split
        · exact Or.inl rfl
        · exact Or.inr rfl
      · cases h
        exact .returns (Or.inr hpc)
  · cases h
    exact .arms hpc
  · cases h
    exact .inserts _ hpc
  · obtain ⟨⟨rt, io⟩, hadd, rfl⟩ := map_ok h
    refine .adds io _ hpc (by simp [EventOp.call, hadd, Except.map]) ?_
    split
    · exact Or.inl rfl
    · exact Or.inr rfl
  · obtain ⟨s₁, hcancel, rfl⟩ := map_ok h
    obtain ⟨m, hm, rfl⟩ := cancelTimer_ok hcancel
    exact .fails m hpc hm
  · cases h
    exact .yields hpc
  · split at h
    · cases h
      exact .wakes hpc
    · cases h
      exact .stays
  · obtain ⟨s₁, hcancel, rfl⟩ := map_ok h
    obtain ⟨m, hm, rfl⟩ := cancelTimer_ok hcancel
    exact .cancels m hpc hm
  · split at h
    · rename_i hset
      cases h
      exact .timesOut hpc hset
    · rename_i hset
      cases h
      exact .retries hpc (not_not.1 hset)
  · cases h
    exact .stays

/-- **What a step of the callback of timer `t` does.** -/
inductive Fires (ctl : EpollCtl κ) (call : IoCall) (s : HookIo κ) (t : ℕ) : HookIo κ → Prop
  | stays : Fires ctl call s t s
  | locks (pc : CbPc) (hpc : s.callbacks t = some .start)
      (hnext : pc = .locked ∨ pc = .finished ∧ s.alive = false) :
      Fires ctl call s t (s.setCallback t pc)
  | skips (hpc : s.callbacks t = some .locked) (hset : s.cancelled ≠ 0) :
      Fires ctl call s t (s.setCallback t .finished)
  | tests (hpc : s.callbacks t = some .locked) (hset : s.cancelled = 0) :
      Fires ctl call s t (s.setCallback t .tested)
  | flags (hpc : s.callbacks t = some .tested) :
      Fires ctl call s t { s.setCallback t .flagged with
        cancelled := ETIMEDOUT, crossed := s.crossed || s.foreign t }
  | cancels (b : Bool) (io : IOManager κ) (hpc : s.callbacks t = some .flagged)
      (hio : s.io.cancelEvent ctl call.fd call.event = .ok (b, io)) :
      Fires ctl call s t { s.setCallback t .finished with
        io := io, crossed := s.crossed || (b && s.foreign t) }

theorem onTimer_fires {t : ℕ} (h : s.onTimer ctl call t = .ok s') : Fires ctl call s t s' := by
  unfold onTimer at h
  split at h
  · cases h
    exact .stays
  · cases h
    exact .stays
  · rename_i hpc
    cases h
    refine .locks _ hpc ?_
    cases halive : s.alive with
    | true => exact Or.inl rfl
    | false => exact Or.inr ⟨rfl, rfl⟩
  · rename_i hpc
    cases h
    by_cases hset : s.cancelled ≠ 0
    · rw [if_pos hset]
      exact .skips hpc hset
    · rw [if_neg hset]
      exact .tests hpc (not_not.1 hset)
  · rename_i hpc
    cases h
    exact .flags hpc
  · rename_i hpc
    obtain ⟨⟨b, io⟩, hcancel, rfl⟩ := map_ok h
    exact .cancels b io hpc hcancel

@[simp] theorem setCallback_self (t : ℕ) (pc : CbPc) : (s.setCallback t pc).callbacks t = some pc :=
  if_pos rfl

theorem setCallback_of_ne {t i : ℕ} (pc : CbPc) (h : i ≠ t) :
    (s.setCallback t pc).callbacks i = s.callbacks i := if_neg h

/-! ## The timers of the call -/

/-- **The callbacks and the timer of the round belong to the call.** -/
structure Sound (addr : ℕ ↪ ℕ) (s : HookIo κ) : Prop where
  wf : s.timers.WF addr
  made : ∀ t ∈ s.mine, t < s.timers.made
  extracted : ∀ t, s.callbacks t ≠ none → t ∈ s.mine
  timer : ∀ t, s.timer = some t → t ∈ s.mine
  unarmed : s.pc.unarmed = true → s.timer = none

theorem init_sound (now_ms : UInt64) (k : κ) : (init now_ms k).Sound addr := by
  refine ⟨TimerManager.init_wf now_ms, ?_, ?_, ?_, fun _ => rfl⟩
  · intro t ht; cases ht
  · intro t ht; exact absurd rfl ht
  · intro t ht; cases ht

/-- The timer that is added next has no callback yet. -/
theorem Sound.fresh (hs : s.Sound addr) : s.callbacks s.timers.made = none := by
  by_contra hsome
  exact absurd (hs.made _ (hs.extracted _ hsome)) (Nat.lt_irrefl _)

theorem Sound.ne_timer (hs : s.Sound addr) (hpc : s.pc.unarmed = true) (t : ℕ) :
    s.timer ≠ some t := by
  rw [hs.unarmed hpc]
  exact (Option.some_ne_none t).symm

theorem Cancels.made {m : TimerManager} (hs : s.Sound addr) (hm : s.Cancels addr m) :
    m.WF addr ∧ s.timers.made ≤ m.made := by
  rcases hm with rfl | ⟨t, ht⟩
  · exact ⟨hs.wf, le_rfl⟩
  · exact TimerManager.call_made hs.wf ht

/-- A step that leaves the callbacks and the timer of the round. -/
theorem Sound.frame (hs : s.Sound addr) (hm : s'.timers.WF addr) (hmade : s.timers.made ≤ s'.timers.made)
    (hmine : s'.mine = s.mine) (hcbs : s'.callbacks = s.callbacks) (htimer : s'.timer = s.timer)
    (hpc : s'.pc.unarmed = true → s.pc.unarmed = true) : s'.Sound addr := by
  refine ⟨hm, ?_, ?_, ?_, ?_⟩
  · intro t ht
    rw [hmine] at ht
    exact Nat.lt_of_lt_of_le (hs.made t ht) hmade
  · rw [hmine, hcbs]
    exact hs.extracted
  · rw [hmine, htimer]
    exact hs.timer
  · intro h
    rw [htimer]
    exact hs.unarmed (hpc h)

theorem moves_sound (hs : s.Sound addr) {n : ℤ} {errno : CInt}
    (h : Moves addr ctl call s n errno s') : s'.Sound addr := by
  cases h with
  | stays => exact hs
  | enters pc hpc hnext =>
    exact hs.frame hs.wf le_rfl rfl rfl rfl fun _ => by rw [hpc]; rfl
  | returns hpc => exact hs.frame hs.wf le_rfl rfl rfl rfl fun h => by cases h
  | starts pc hpc hnext =>
    exact hs.frame hs.wf le_rfl rfl rfl rfl fun _ => by rw [hpc]; rfl
  | arms hpc => exact hs.frame hs.wf le_rfl rfl rfl rfl fun _ => by rw [hpc]; rfl
  | inserts now hpc =>
    refine ⟨TimerManager.addTimer_wf hs.wf now call.timeout _ false, ?_, ?_, ?_, fun h => by cases h⟩
    · intro t ht
      rw [TimerManager.addTimer_made]
      rcases List.mem_cons.1 ht with rfl | ht
      · exact Nat.lt_succ_self _
      · exact Nat.lt_succ_of_lt (hs.made t ht)
    · intro t ht
      exact List.mem_cons_of_mem _ (hs.extracted t ht)
    · intro t ht
      cases ht
      exact List.mem_cons_self
  | adds io pc hpc hio hnext =>
    refine hs.frame hs.wf le_rfl rfl rfl rfl fun h => ?_
    rcases hnext with rfl | rfl <;> cases h
  | fails m hpc hm =>
    obtain ⟨hwf, hle⟩ := hm.made hs
    exact hs.frame hwf hle rfl rfl rfl fun h => by cases h
  | yields hpc => exact hs.frame hs.wf le_rfl rfl rfl rfl fun h => by cases h
  | wakes hpc => exact hs.frame hs.wf le_rfl rfl rfl rfl fun h => by cases h
  | cancels m hpc hm =>
    obtain ⟨hwf, hle⟩ := hm.made hs
    exact hs.frame hwf hle rfl rfl rfl fun h => by cases h
  | timesOut hpc hset => exact hs.frame hs.wf le_rfl rfl rfl rfl fun h => by cases h
  | retries hpc hset =>
    exact ⟨hs.wf, hs.made, hs.extracted, (by intro t ht; cases ht), fun _ => rfl⟩

/-- A step of a callback that has been extracted. -/
theorem Sound.setCallback (hs : s.Sound addr) {t : ℕ} {pc : CbPc} (hsome : s.callbacks t ≠ none) :
    (s.setCallback t pc).Sound addr := by
  refine ⟨hs.wf, hs.made, ?_, hs.timer, hs.unarmed⟩
  intro i hi
  by_cases hit : i = t
  · rw [hit]
    exact hs.extracted t hsome
  · rw [setCallback_of_ne pc hit] at hi
    exact hs.extracted i hi

theorem fires_sound (hs : s.Sound addr) {t : ℕ} (h : Fires ctl call s t s') : s'.Sound addr := by
  cases h with
  | stays => exact hs
  | locks pc hpc hnext => exact hs.setCallback (by rw [hpc]; simp)
  | skips hpc hset => exact hs.setCallback (by rw [hpc]; simp)
  | tests hpc hset => exact hs.setCallback (by rw [hpc]; simp)
  | flags hpc =>
    have hset : (s.setCallback t .flagged).Sound addr := hs.setCallback (by rw [hpc]; simp)
    exact ⟨hset.wf, hset.made, hset.extracted, hset.timer, hset.unarmed⟩
  | cancels b io hpc hio =>
    have hset : (s.setCallback t .finished).Sound addr := hs.setCallback (by rw [hpc]; simp)
    exact ⟨hset.wf, hset.made, hset.extracted, hset.timer, hset.unarmed⟩

/-- **An extraction** moves the callback of an extracted timer to its start, and no other. -/
structure Hands (addr : ℕ ↪ ℕ) (s : HookIo κ) (now : UInt64) (probe : ℕ) (s' : HookIo κ) : Prop where
  scans : ∃ cbs, s.timers.Scans addr now probe cbs s'.timers
  wf : s'.timers.WF addr
  callbacks : ∀ t, s'.callbacks t = s.callbacks t ∨
    s'.callbacks t = some .start ∧ t ∈ s.mine ∧ t ∈ s.timers.expired addr now probe
  rest : s' = { s with timers := s'.timers, callbacks := s'.callbacks }

theorem listExpired_hands (hs : s.Sound addr) {now : UInt64} {probe : ℕ}
    (h : s.listExpired addr call now probe = .ok s') : s.Hands addr now probe s' := by
  obtain ⟨⟨cbs, m⟩, hlist, rfl⟩ := map_ok h
  refine ⟨⟨cbs, (TimerManager.listExpired_scans hs.wf.sorted hlist).1⟩,
    TimerManager.listExpired_wf hs.wf hlist, ?_, rfl⟩
  intro t
  dsimp only
  split
  · rename_i hhanded
    exact Or.inr ⟨rfl, hhanded.1, (List.of_mem_zip hhanded.2).1⟩
  · exact Or.inl rfl

theorem hands_sound (hs : s.Sound addr) {now : UInt64} {probe : ℕ} (h : s.Hands addr now probe s') :
    s'.Sound addr := by
  obtain ⟨cbs, hscan⟩ := h.scans
  have hrest := h.rest
  have hmine : s'.mine = s.mine := by rw [hrest]
  have htimer : s'.timer = s.timer := by rw [hrest]
  have hpc : s'.pc = s.pc := by rw [hrest]
  refine ⟨h.wf, ?_, ?_, ?_, ?_⟩
  · rw [hmine, hscan.made]
    exact hs.made
  · intro t ht
    rw [hmine]
    rcases h.callbacks t with heq | ⟨-, hmem, -⟩
    · rw [heq] at ht
      exact hs.extracted t ht
    · exact hmem
  · rw [hmine, htimer]
    exact hs.timer
  · rw [hpc, htimer]
    exact hs.unarmed

/-- **Every step.** -/
theorem step_sound (hs : s.Sound addr) {a : HookAct} (h : s.stepOk addr ctl call a = .ok s') :
    s'.Sound addr := by
  cases a with
  | io n errno => exact moves_sound hs (doIo_moves h)
  | callback t => exact fires_sound hs (onTimer_fires h)
  | listExpired now probe =>
    simp only [stepOk] at h
    split at h
    · exact hands_sound hs (listExpired_hands hs h)
    · cases h
      exact hs
  | timerOp op =>
    simp only [stepOk] at h
    split at h
    · cases h
      exact hs
    · obtain ⟨m, hcall, rfl⟩ := map_ok h
      obtain ⟨hwf, hle⟩ := TimerManager.call_made hs.wf hcall
      exact hs.frame hwf hle rfl rfl rfl id
  | eventOp op =>
    simp only [stepOk] at h
    split at h
    · cases h
      exact hs
    · obtain ⟨io, -, rfl⟩ := map_ok h
      exact ⟨hs.wf, hs.made, hs.extracted, hs.timer, hs.unarmed⟩
  | ready b =>
    cases h
    exact ⟨hs.wf, hs.made, hs.extracted, hs.timer, hs.unarmed⟩
  | tick now =>
    simp only [stepOk] at h
    split at h
    · cases h
      exact ⟨hs.wf, hs.made, hs.extracted, hs.timer, hs.unarmed⟩
    · cases h
      exact hs

end HookIo

end Coroutine
