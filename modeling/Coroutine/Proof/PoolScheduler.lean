import Coroutine.Proof.ThreadPool

/-!
# A scheduler with its threads is the scheduler without

The model of `Scheduler` begins after `start()`, with all workers in `run()`, and its `stop()` waits
for them in one step. Here `start()` takes one thread after the other into `run()`, while tasks may
be pushed, and `stop()` joins one after the other. As everywhere in these files the owner calls
`start()` and then `stop()`.

* `step_scheduler`: each step is a step of `Scheduler`, or one that it does not see.
* `runs_scheduler`: so a run from the constructor on is a run of `Scheduler`, by the same steps in
  the same order, and what holds in all of its runs holds here.
-/

namespace Coroutine

open Lib

namespace ThreadPool

variable {W : Type}

/-- The scheduler, as if it had been started at once. -/
def scheduler (s : ThreadPool W) : Scheduler W :=
  { s.sched with m_stopping := s.sched.m_stopping && decide (s.sched.stopPc ≠ .out) }

/-- The step of `Scheduler` that a step may be. -/
def PoolAct.scheduler : PoolAct W → Option (SchedAct W)
  | .sched a => some a
  | .stop => some .stop
  | .start _ | .born _ => none

variable {crew : Crew W} {s s' : ThreadPool W}

theorem scheduler_eq (h : s.sched.stopPc = .out → s.sched.m_stopping = false) :
    s.scheduler = s.sched := by
  have hsame : (s.sched.m_stopping && decide (s.sched.stopPc ≠ .out)) = s.sched.m_stopping := by
    by_cases hstop : s.sched.stopPc = .out
    · rw [h hstop]
      rfl
    · simp [hstop]
  unfold scheduler
  rw [hsame]

theorem scheduler_congr (h : s'.sched = s.sched) : s'.scheduler = s.scheduler := by
  unfold scheduler
  rw [h]

variable [DecidableEq W]

/-- `start()` changes `m_stopping` only. -/
theorem startStep_sched (h : s.Inv crew) (created : Bool) :
    (s.startStep crew created).scheduler = s.scheduler := by
  have hkeep : (s.startStep crew created).sched = s.sched →
      (s.startStep crew created).scheduler = s.scheduler := scheduler_congr
  obtain ⟨j, k, waiting, hstand, -, -⟩ := h.counts
  cases howner : s.owner with
  | out =>
    refine hkeep ?_
    unfold startStep
    rw [howner]
  | test =>
    have hstop : s.sched.stopPc = .out := (hstand.of_test howner).1
    unfold startStep
    rw [howner]
    dsimp only
    split
    · rfl
    · split
      · simp [scheduler, hstop]
      · simp [scheduler, hstop]
  | create i =>
    refine hkeep ?_
    unfold startStep
    rw [howner]
    dsimp only
    cases crew.order[i]? with
    | none => rfl
    | some w =>
      dsimp only
      split <;> rfl
  | wait i =>
    refine hkeep ?_
    unfold startStep
    rw [howner]
    dsimp only
    cases crew.order[i]? with
    | none => rfl
    | some w =>
      dsimp only
      split <;> rfl
  | join thrs rest =>
    refine hkeep ?_
    unfold startStep
    rw [howner]

omit [DecidableEq W] in
/-- A call of the scheduler does not read `m_stopping`. -/
theorem call_stopping (sched : Scheduler W) (b : Bool) (pusher : Option W) (c : SchedCall) :
    ({ sched with m_stopping := b } : Scheduler W).call pusher c =
      { sched.call pusher c with m_stopping := b } := by
  have hone : ∀ (sched : Scheduler W) (fc : Option FiberOrcb) (thread : ℤ),
      ({ sched with m_stopping := b } : Scheduler W).scheduleNoLock fc thread pusher =
        { sched.scheduleNoLock fc thread pusher with m_stopping := b } := by
    intro sched fc thread
    unfold Scheduler.scheduleNoLock
    cases fc with
    | none => rfl
    | some task =>
      have hexist : ({ sched with m_stopping := b } : Scheduler W).exist task ↔ sched.exist task := by
        cases task <;> exact Iff.rfl
      dsimp only
      by_cases hex : sched.exist task
      · rw [if_pos hex, if_pos (hexist.2 hex)]
        rfl
      · rw [if_neg hex, if_neg fun h => hex (hexist.1 h)]
  cases c with
  | scheduler fc thread => exact hone sched fc thread
  | newFiber cb => rfl
  | batch fcs =>
    simp only [Scheduler.call]
    induction fcs generalizing sched with
    | nil => rfl
    | cons fc fcs ih =>
      rw [List.foldl_cons, List.foldl_cons, hone]
      exact ih _

variable [Fintype W]

/-- A step of the scheduler is one of `Scheduler`. -/
theorem sched_scheduler (h : s.Inv crew) (hrun : s.sched.fault = none) {a : SchedAct W} (ha : s.enabled crew a) :
    ({ s with sched := s.sched.step crew.toPool a } : ThreadPool W).scheduler = s.scheduler ∨
      ({ s with sched := s.sched.step crew.toPool a } : ThreadPool W).scheduler =
        s.scheduler.step crew.toPool a := by
  have hmove := Scheduler.step_move crew.toPool s.sched a
  have hflags : (s.sched.step crew.toPool a).stopPc = s.sched.stopPc ∧
      (s.sched.step crew.toPool a).m_stopping = s.sched.m_stopping := by
    rcases Scheduler.move_flags hmove with ⟨rfl, -⟩ | ⟨hstop, -, hstopping⟩
    · exact ha.1.elim
    · exact ⟨hstop, hstopping⟩
  by_cases hstarted : s.sched.stopPc = .out → s.sched.m_stopping = false
  · right
    rw [scheduler_eq hstarted]
    refine scheduler_eq fun hstop => ?_
    exact hflags.2.trans (hstarted (hflags.1.symm.trans hstop))
  · -- `m_stopping` is still what the constructor has made it
    push Not at hstarted
    have hcalled : s.called = false := by
      obtain ⟨j, k, waiting, hstand, -, -⟩ := h.counts
      exact hstand.unmarked hstarted.1 hstarted.2
    rcases step_quiet h hcalled ha with hstep | ⟨c, rfl⟩
    · exact Or.inl (scheduler_congr hstep)
    · right
      have hview : s.scheduler = { s.sched with m_stopping := false } := by
        simp [scheduler, hstarted.1]
      have hstep : s.sched.step crew.toPool (.call c) = s.sched.call none c := by
        unfold Scheduler.step
        rw [hrun]
        rfl
      have hstep' : ({ s.sched with m_stopping := false } : Scheduler W).step crew.toPool (.call c) =
          ({ s.sched with m_stopping := false } : Scheduler W).call none c := by
        unfold Scheduler.step
        dsimp only
        rw [hrun]
        rfl
      have hframe := Scheduler.call_frame s.sched none c
      rw [hview, hstep', call_stopping]
      unfold scheduler
      dsimp only
      rw [hstep, hframe.stopPc, hstarted.1]
      simp

omit [Fintype W] in
/-- When all threads in `thrs` are joined, all workers but the root fiber's have left `run()`. -/
theorem joined_exited (h : s.Inv crew) {thrs : List (Option W)} (howner : s.owner = .join thrs [])
    (w : W) : crew.root = some w ∨ (s.sched.worker w).pc = .exited := by
  obtain ⟨j, k, waiting, hstand, -, hat⟩ := h.counts
  obtain ⟨rfl, -, rfl, hrest, hbuilt, -⟩ := hstand.of_join howner
  by_cases hroot : crew.root = some w
  · exact Or.inl hroot
  · obtain ⟨i, hi⟩ := List.mem_iff_getElem?.1 ((crew.mem_order w).2 hroot)
    have hend : (slots crew k).length ≤ j := List.drop_eq_nil_iff.1 hrest.symm
    rw [slots_length crew hbuilt.le] at hend
    have hlt : i < crew.m_threadCount := (List.getElem?_eq_some_iff.1 hi).1
    have hij : i < j := by omega
    have hgone := hat i w hi
    rw [show made j k false i = .gone by simp [made, hij]] at hgone
    exact Or.inr hgone.2.2.2

/-- A step of `stop()` is one of `Scheduler`, or one that it makes together with the others. -/
theorem stopStep_scheduler (h : s.Inv crew) (hrun : s.sched.fault = none) (ho : s.InOrder .stop) :
    (s.stopStep crew).scheduler = s.scheduler ∨
      (s.stopStep crew).scheduler = s.scheduler.step crew.toPool .stop := by
  obtain ⟨hstart, hcalled, hdone⟩ := ho
  obtain ⟨j, k, waiting, hstand, -, -⟩ := h.counts
  have hkeep : (s.stopStep crew).sched = s.sched → (s.stopStep crew).scheduler = s.scheduler ∨
      (s.stopStep crew).scheduler = s.scheduler.step crew.toPool .stop :=
    fun hsame => Or.inl (scheduler_congr hsame)
  cases howner : s.owner with
  | test | create i | wait i => simp [starting, howner] at hstart
  | out =>
    obtain ⟨-, -, hserving⟩ := hstand.of_out howner hcalled hdone
    by_cases hjoin : s.sched.stopPc = .join
    · refine hkeep ?_
      unfold stopStep
      rw [howner]
      dsimp only
      rw [if_pos hjoin]
    · right
      have hstep : s.stopStep crew = { s with sched := s.sched.step crew.toPool .stop } := by
        unfold stopStep
        rw [howner]
        dsimp only
        rw [if_neg hjoin]
      have hcall : s.sched.step crew.toPool .stop = s.sched.stopStep crew.toPool := by
        unfold Scheduler.step
        rw [hrun]
        rfl
      rw [hstep, scheduler_eq hserving.unmarked]
      refine scheduler_eq fun hstop => ?_
      rw [hcall] at hstop
      exact absurd hstop (Scheduler.stopStep_called crew.toPool s.sched)
  | join thrs rest =>
    have hstop := (hstand.of_join howner).2.2.2.2.2.2.1
    cases rest with
    | nil =>
      -- the one step of `Scheduler` in which all threads are joined
      right
      have hstep : (s.stopStep crew).sched = { s.sched with stopPc := .done } := by
        unfold stopStep
        rw [howner]
        rfl
      have hjoined : s.sched.step crew.toPool .stop = { s.sched with stopPc := .done } := by
        unfold Scheduler.step Scheduler.stopStep
        rw [if_neg (by rw [hrun]; simp), hstop]
        exact if_pos (joined_exited h howner)
      have hview : s.scheduler = s.sched := by
        refine scheduler_eq fun hout => ?_
        rw [hstop] at hout
        cases hout
      rw [hview, hjoined, ← hstep]
      refine scheduler_eq fun hout => ?_
      rw [hstep] at hout
      cases hout
    | cons x rest =>
      refine hkeep ?_
      unfold stopStep
      rw [howner]
      cases x with
      | none => rfl
      | some w =>
        dsimp only
        split
        · rfl
        · split <;> rfl

/-- **Each step is a step of `Scheduler`, or one that it does not see.** -/
theorem step_scheduler (h : s.Inv crew) {a : PoolAct W} (ho : s.InOrder a) :
    (s.step crew a).scheduler = s.scheduler ∨ ∃ b, PoolAct.scheduler a = some b ∧
      (s.step crew a).scheduler = s.scheduler.step crew.toPool b := by
  unfold step
  split
  · exact Or.inl rfl
  · rename_i hrunning
    have hrun : s.sched.fault = none := by
      cases hf : s.sched.fault with
      | none => rfl
      | some e => exact absurd (by rw [hf]; simp) hrunning
    cases a with
    | start created => exact Or.inl (startStep_sched h created)
    | born w => exact Or.inl (scheduler_congr (bornStep_frame crew s w).sched)
    | stop =>
      rcases stopStep_scheduler h hrun ho with hstay | hstep
      · exact Or.inl hstay
      · exact Or.inr ⟨.stop, rfl, hstep⟩
    | sched a =>
      dsimp only
      split
      · rename_i ha
        rcases sched_scheduler h hrun ha with hstay | hstep
        · exact Or.inl hstay
        · exact Or.inr ⟨a, rfl, hstep⟩
      · exact Or.inl rfl

/-- **A scheduler with its threads refines the scheduler without.** The owner calls `start()`, once or
more, and then `stop()`. Whatever the new threads, the workers, the tasks and other threads do from the
constructor on, in any order with the owner's steps, and whether or not threads can be created, the
scheduler is in a state of a run of `Scheduler`, by steps that were made here, in the order in which
they were. -/
theorem runs_scheduler (crew : Crew W) (as : List (PoolAct W))
    (horder : Along (step crew) InOrder (init crew) as) :
    ∃ acts, acts.Sublist (as.filterMap PoolAct.scheduler) ∧
      (run (step crew) (init crew) as).scheduler =
        run (Scheduler.step crew.toPool) (Scheduler.init crew.toPool) acts := by
  have hinit : (init crew).scheduler = Scheduler.init crew.toPool := by
    rw [init_eq]
    rfl
  have hruns := run_project (I := Inv crew) (fun _ _ h ho => step_inv h ho) scheduler
    PoolAct.scheduler (fun _ _ h ho => step_scheduler h ho) as (init_inv crew) horder
  rwa [hinit] at hruns

theorem runs_scheduler_one_task :
    Along (step callerAndOne) InOrder (init callerAndOne) oneTask ∧
      ∃ acts, acts.Sublist (oneTask.filterMap PoolAct.scheduler) ∧
        (run (step callerAndOne) (init callerAndOne) oneTask).scheduler =
          run (Scheduler.step callerAndOne.toPool) (Scheduler.init callerAndOne.toPool) acts :=
  ⟨by decide +kernel, runs_scheduler callerAndOne oneTask (by decide +kernel)⟩

end ThreadPool

end Coroutine
