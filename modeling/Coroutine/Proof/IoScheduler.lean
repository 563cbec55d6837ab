import Coroutine.Proof.IoArmed

/-!
# An `IOManager` is a scheduler

`IOManager` overrides `tickle()`, `stopping()` and `idle()` of `Scheduler`. The model of `Scheduler`
knows of `tickle()` nothing and of `idle()` one step only; the timers and the events come to it as
calls of `scheduler()` by others.

* `idleStep_sched`: the steps of a worker in `idle()` are calls of `scheduler()`, the one step that
  `Scheduler` knows of, or nothing to it.
* `seen`: the step of `Scheduler` that a step is, which does nothing where `Scheduler` sees nothing.
* `step_sched`: each step is the one that is seen, or there is a fault in the timers, where
  `listExpired` takes `begin()` of a set that has become empty.
* `io_is_scheduler`: so what holds in all runs of `Scheduler` in which nobody calls `stop()` holds
  of the scheduler in an `IOManager`.
-/

namespace Coroutine

open Lib

namespace IoThreads

variable {W T : Type} {s : IoThreads W T} {a : IoAct W T} {env : IoEnv W} {w : W}

/-- The step of `Scheduler` that the next step of worker `w` in `idle()` is. One that it does not
see is the end of a task that there is not. -/
def idleSeen (env : IoEnv W) (s : IoThreads W T) (w : W) : SchedAct W :=
  match s.idle w with
  | .expired cbs _ => .call (.batch (cbs.map (·.map fun cb => .cb (env.function cb))))
  | .events false => .run w
  | _ => .user w .finish

/-- The step of `Scheduler` that an action is. One that it does not see pushes nothing. -/
def actSeen (env : IoEnv W) (s : IoThreads W T) : IoAct W T → SchedAct W
  | .run w _ =>
    match (s.sched.worker w).pc with
    | .idle => s.idleSeen env w
    | _ => .run w
  | .user w u => .user w u
  | .call _ c => .call c
  | .trigger w fc =>
    match (s.sched.worker w).pc, s.idle w with
    | .idle, .events _ => .call (.scheduler fc (-1))
    | _, _ => .call (.batch [])
  | _ => .call (.batch [])

/-- The same, when a call of `tickle()` may hold it up. -/
def seen (env : IoEnv W) (s : IoThreads W T) (a : IoAct W T) : SchedAct W :=
  if ∃ p ∈ a.caller, (s.tickling p).isSome then .call (.batch []) else s.actSeen env a

variable [DecidableEq W] [DecidableEq T] [Fintype W]

/-- The scheduler makes the step, or the timers have failed. -/
def Follows (env : IoEnv W) (s s' : IoThreads W T) (b : SchedAct W) : Prop :=
  s'.sched = s.sched.step env.pool b ∨ ∃ e, s'.sched = s.sched.abort e

/-- A push of nothing does nothing. -/
theorem step_nothing (pool : Pool W) (σ : Scheduler W) : σ.step pool (.call (.batch [])) = σ := by
  by_cases hfault : σ.fault = none
  · rw [Scheduler.step_call hfault]
    rfl
  · exact Scheduler.step_of_fault hfault _

/-- **The steps in `idle()`**: what is due is scheduled, and the fiber is swapped out. -/
theorem idleStep_sched (hs : s.Steady env) (hfault : s.sched.fault = none)
    (hpc : (s.sched.worker w).pc = .idle) (r : Reads) :
    Follows env s (s.idleStep env w r) (s.idleSeen env w) := by
  have hnot : ¬ s.sched.stopping := by
    intro hstop
    have hauto := hstop.1
    rw [hs.auto] at hauto
    cases hauto
  -- no task is on the worker, so none ends
  have hfinish : s.sched.step env.pool (.user w .finish) = s.sched := by
    rw [Scheduler.step_user hfault]
    unfold Scheduler.userStep
    rw [hpc]
  unfold Follows idleStep idleSeen
  cases hidle : s.idle w with
  | top => exact Or.inl hfinish.symm
  | asked next_timeout =>
    dsimp only
    rw [if_neg fun hall => hnot hall.2.2]
    exact Or.inl hfinish.symm
  | blocked timeout wakeup => exact Or.inl hfinish.symm
  | woken tickled =>
    dsimp only
    split <;> exact Or.inl hfinish.symm
  | checked now_ms tickled =>
    dsimp only
    split
    · rename_i e _
      exact Or.inr ⟨e, rfl⟩
    · exact Or.inl hfinish.symm
  | expired cbs tickled =>
    dsimp only
    left
    by_cases hcbs : cbs = []
    · subst hcbs
      exact (step_nothing env.pool s.sched).symm
    · rw [if_neg hcbs, Scheduler.step_call hfault]
      unfold scheduler
      rw [push_sched]
      rfl
  | events tickled =>
    cases tickled with
    | true =>
      dsimp only
      split <;> exact Or.inl hfinish.symm
    | false =>
      dsimp only
      left
      rw [Scheduler.step_run hfault]
      unfold Scheduler.runStep
      rw [hpc]
      dsimp only
      rw [if_neg hnot]

omit [Fintype W] in
theorem runStep_sched (hpc : (s.sched.worker w).pc ≠ .idle) (r : Reads) :
    (s.runStep env w r).sched = s.sched.runStep env.pool w := by
  unfold runStep
  dsimp only
  split
  · rename_i hidle
    exact absurd hidle hpc
  · rfl
  · split <;> rfl
  · split <;> rfl
  · rw [push_sched]
  · rfl

omit [Fintype W] in
theorem userStep_sched (s : IoThreads W T) (w : W) (u : UserAct) :
    (s.userStep w u).sched = s.sched.userStep w u := by
  unfold userStep
  split
  · rename_i hpc
    unfold scheduler Scheduler.userStep
    rw [push_sched, hpc]
  · rfl

theorem act_sched (hs : s.Steady env) (hfault : s.sched.fault = none) (a : IoAct W T) :
    Follows env s (s.act env a) (s.actSeen env a) := by
  have hsame : ∀ {s' : IoThreads W T}, s'.sched = s.sched → Follows env s s' (.call (.batch [])) :=
    fun h => Or.inl (h.trans (step_nothing env.pool s.sched).symm)
  cases a with
  | run v r =>
    by_cases hpc : (s.sched.worker v).pc = .idle
    · have hstep := idleStep_sched hs hfault hpc r
      simp only [act, runStep, actSeen, hpc]
      exact hstep
    · have hseen : s.actSeen env (.run v r) = .run v := by
        unfold actSeen
        dsimp only
        split
        · rename_i hidle
          exact absurd hidle hpc
        · rfl
      left
      rw [hseen, Scheduler.step_run hfault]
      exact runStep_sched hpc r
  | user v u =>
    left
    simp only [act, actSeen]
    rw [Scheduler.step_user hfault, userStep_sched]
  | call th c =>
    left
    simp only [act, scheduler, actSeen]
    rw [push_sched, Scheduler.step_call hfault]
  | timer p o =>
    simp only [act]
    split
    · obtain ⟨timers, hcall, -⟩ := TimerOp.call_ok hs.wf o
      exact hsame (timer_frame env s p hcall).1.sched
    · exact hsame rfl
  | wake v tickled =>
    simp only [act, wake]
    split
    · split <;> exact hsame rfl
    · exact hsame rfl
  | interrupt v now_ms =>
    simp only [act, interrupt]
    split <;> exact hsame rfl
  | trigger v fc =>
    by_cases hevents : (s.sched.worker v).pc = .idle ∧ ∃ tickled, s.idle v = .events tickled
    · obtain ⟨hpc, tickled, hidle⟩ := hevents
      left
      simp only [act, trigger, actSeen, hpc, hidle, scheduler]
      rw [push_sched, Scheduler.step_call hfault]
    · have hact : s.act env (.trigger v fc) = s := by
        simp only [act, trigger]
        split
        · rename_i tickled hpc hidle
          exact absurd ⟨hpc, tickled, hidle⟩ hevents
        · rfl
      have hseen : s.actSeen env (.trigger v fc) = .call (.batch []) := by
        unfold actSeen
        dsimp only
        split
        · rename_i tickled hpc hidle
          exact absurd ⟨hpc, tickled, hidle⟩ hevents
        · rfl
      rw [hact, hseen]
      exact hsame rfl
  | tickle p =>
    simp only [act, tickle]
    split
    · exact hsame rfl
    · split <;> exact hsame rfl
    · exact hsame rfl

/-- **Each step is a step of `Scheduler`**, or there is a fault in the timers. -/
theorem step_sched (hs : s.Steady env) (a : IoAct W T) :
    Follows env s (step env s a) (s.seen env a) := by
  by_cases hfault : s.sched.fault = none
  swap
  · left
    rw [step_of_fault env hfault, Scheduler.step_of_fault hfault]
  unfold seen
  by_cases hheld : ∃ p ∈ a.caller, (s.tickling p).isSome
  · left
    rw [if_pos hheld, step_nothing]
    unfold step
    rw [hfault, if_pos hheld]
    rfl
  · have hfree : ∀ p ∈ a.caller, s.tickling p = none := by
      intro p hp
      by_contra hsome
      exact hheld ⟨p, hp, Option.isSome_iff_ne_none.2 hsome⟩
    rw [if_neg hheld, step_of_free env hfault hfree]
    exact act_sched hs hfault a

omit [DecidableEq W] [DecidableEq T] [Fintype W] in
theorem seen_ne_stop (env : IoEnv W) (s : IoThreads W T) (a : IoAct W T) :
    s.seen env a ≠ .stop := by
  unfold seen
  split
  · simp
  · unfold actSeen
    split
    · split
      · unfold idleSeen
        split <;> simp
      · simp
    · simp
    · simp
    · split <;> simp
    · simp

/-- **The run of `Scheduler` that a run is**, step by step: what expires and what an event triggers are
calls of `scheduler()`, and of a round of `idle()` its last step is one. -/
def seenAlong (env : IoEnv W) : IoThreads W T → List (IoAct W T) → List (SchedAct W)
  | _, [] => []
  | s, a :: acts => s.seen env a :: seenAlong env (step env s a) acts

omit [Fintype W] in
theorem stop_not_seen (env : IoEnv W) (acts : List (IoAct W T)) (s : IoThreads W T) :
    .stop ∉ seenAlong env s acts := by
  induction acts generalizing s with
  | nil => exact List.not_mem_nil
  | cons a acts ih =>
    rw [seenAlong, List.mem_cons]
    rintro (hstop | hstop)
    · exact seen_ne_stop env s a hstop.symm
    · exact ih _ hstop

omit [Fintype W] in
theorem run_of_fault (env : IoEnv W) (acts : List (IoAct W T)) (hfault : s.sched.fault ≠ none) :
    run (step env) s acts = s :=
  run_inv (I := fun s' => s' = s) (fun _ a h => by rw [h, step_of_fault env hfault]) acts s rfl

/-- **Each run is the one that is seen**, up to a fault in the timers. -/
theorem run_sched (hs : s.Steady env) (acts : List (IoAct W T)) :
    (run (step env) s acts).sched =
        run (Scheduler.step env.pool) s.sched (seenAlong env s acts) ∨
      ∃ seen, seen <+: seenAlong env s acts ∧ ∃ e,
        (run (step env) s acts).sched = (run (Scheduler.step env.pool) s.sched seen).abort e := by
  induction acts generalizing s with
  | nil => exact Or.inl rfl
  | cons a acts ih =>
    rw [seenAlong]
    rcases step_sched hs a with hnext | ⟨e, hnext⟩
    · rcases ih (step_steady hs a) with hrun | ⟨seen, hseen, e, hrun⟩
      · left
        rw [run_cons, hrun, hnext, run_cons]
      · refine Or.inr ⟨s.seen env a :: seen, List.cons_prefix_cons.2 ⟨rfl, hseen⟩, e, ?_⟩
        rw [run_cons, hrun, hnext, run_cons]
    · -- nothing happens any more
      have hfault : (step env s a).sched.fault ≠ none := by
        rw [hnext]
        exact Option.some_ne_none e
      refine Or.inr ⟨[], List.nil_prefix, e, ?_⟩
      rw [run_cons, run_of_fault env acts hfault, hnext, run_nil]

/-- **An `IOManager` refines `Scheduler`.** Whatever the workers do in `run()` and `idle()`,
whatever calls the tasks and other threads make, and whatever timers and events come, the scheduler
is in the state of the run of `Scheduler` that is seen, in which nobody calls `stop()`; or it was so up
to a fault in the timers, at which it ended. -/
theorem io_is_scheduler {W T : Type} [Fintype W] [DecidableEq W] [DecidableEq T] (env : IoEnv W)
    (now_ms : UInt64) (acts : List (IoAct W T)) :
    let sched := (run (step env) (init env now_ms) acts).sched
    let sched' := run (Scheduler.step env.pool) (Scheduler.init env.pool)
    let seen := seenAlong env (init env now_ms) acts
    .stop ∉ seen ∧ (sched = sched' seen ∨ ∃ seen', seen' <+: seen ∧ ∃ e, sched = (sched' seen').abort e) :=
  ⟨stop_not_seen env acts _, run_sched (init_steady env now_ms) acts⟩

end IoThreads

end Coroutine
