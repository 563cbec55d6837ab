import Coroutine.Lib.Parties
import Coroutine.Lib.Run
import Coroutine.Proof.SchedulerMoves

/-!
# Which worker has which fiber in hand

A worker has a fiber in hand from the pop of its entry, or from the reset of its own
callback fiber, up to the end of the fix-up. The scan leaves only fibers in state `EXEC` in
the queue, and the state of a fiber in hand is not `EXEC` all the time.

* `exist_inv`: hands, queue and callback slots name fibers that exist.
* `hands_exclusive`: while no worker takes a fiber that another has in hand, no two workers
  have the same fiber in hand.
* `one_at_a_time`: so in such runs a fiber is never run by two workers, never resumed before
  its context is saved, and its state never overwritten by a fix-up while it runs.
-/

namespace Coroutine

open Lib

/-- The fiber of a queue entry. -/
def FiberOrcb.fiber? : FiberOrcb → Option FiberPtr
  | .fiber f => some f
  | .cb _ => none

/-- The fiber a worker has in hand. -/
def Pc.hand {W : Type} : Pc W → Option FiberPtr
  | .picked (some ft) => ft.task.fiber?
  | .task _ f _ => some f
  | _ => none

/-- The fiber whose context the worker is on. -/
def Pc.on {W : Type} : Pc W → Option FiberPtr
  | .task .running f _ | .task (.leaving _) f _ => some f
  | _ => none

/-- The fiber the worker is executing: `swapIn` has set its state and `swapOut` has not
saved its context. -/
def Pc.executing {W : Type} : Pc W → Option FiberPtr
  | .task .switch f _ | .task .running f _ | .task (.leaving _) f _ => some f
  | _ => none

theorem Pc.hand_of_executing {W : Type} {pc : Pc W} {f : FiberPtr} (h : pc.executing = some f) :
    pc.hand = some f := by
  cases pc with
  | task stage g b => cases stage <;> first | exact h | cases h
  | _ => cases h

theorem Pc.executing_of_on {W : Type} {pc : Pc W} {f : FiberPtr} (h : pc.on = some f) :
    pc.executing = some f := by
  cases pc with
  | task stage g b => cases stage <;> first | exact h | cases h
  | _ => cases h

namespace Scheduler

variable {W : Type} {pool : Pool W} {s s' : Scheduler W} {a : SchedAct W}

/-- The fiber worker `w` has in hand. -/
def hand (s : Scheduler W) (w : W) : Option FiberPtr := (s.worker w).pc.hand

/-- **Everything named exists.** -/
structure Exist (s : Scheduler W) : Prop where
  hand : ∀ w f, s.hand w = some f → f < s.nfiber
  slot : ∀ w f, (s.worker w).cb_fiber = some f → f < s.nfiber
  queue : ∀ ft ∈ s.m_fibers, ∀ f, ft.task = .fiber f → f < s.nfiber

theorem exist_fiber {f : FiberPtr} {task : FiberOrcb} (h : s.exist task) (ht : task = .fiber f) :
    f < s.nfiber := by
  subst ht
  exact h

theorem push_exist (hs : s.Exist) {task : FiberOrcb} (thread : ℤ) (pusher : Option W)
    (h : s.exist task) : (s.push task thread pusher).Exist := by
  refine ⟨hs.hand, hs.slot, ?_⟩
  intro ft hft f ht
  rcases List.mem_append.1 hft with hft | hft
  · exact hs.queue ft hft f ht
  · rw [List.mem_singleton] at hft
    subst hft
    exact exist_fiber h ht

theorem newFiber_exist (hs : s.Exist) (cb : Option Job) : (s.newFiber cb).Exist := by
  refine ⟨fun w f h => ?_, fun w f h => ?_, fun ft hft f h => ?_⟩
  · exact Nat.lt_succ_of_lt (hs.hand w f h)
  · exact Nat.lt_succ_of_lt (hs.slot w f h)
  · exact Nat.lt_succ_of_lt (hs.queue ft hft f h)

theorem call_exist (hs : s.Exist) (pusher : Option W) (c : SchedCall) :
    (s.call pusher c).Exist :=
  call_inv (fun _ _ thread ht h => push_exist ht thread pusher h) (fun _ _ ht => newFiber_exist ht _)
    hs c

theorem hand_congr (h : s'.worker = s.worker) : s'.hand = s.hand := by
  unfold hand
  rw [h]

/-- **A fiber is executed by one worker at a time.** -/
structure OneAtATime (s : Scheduler W) : Prop where
  /-- no fiber is run by two workers -/
  run : ∀ w w' f, (s.worker w).pc.on = some f → (s.worker w').pc.on = some f → w = w'
  /-- nobody switches to a fiber whose context another worker has still to save -/
  resume : ∀ w w' f b, (s.worker w).pc = .task .switch f b → w' ≠ w →
    (s.worker w').pc.on ≠ some f
  /-- no fix-up writes the state of a fiber that another worker is executing -/
  fixup : ∀ w w' f b, (s.worker w).pc = .task .fixup f b → w' ≠ w →
    (s.worker w').pc.executing ≠ some f

theorem oneAtATime_of_exclusive (hs : Exclusive s.hand) : s.OneAtATime := by
  have hof : ∀ {w w' : W} {f : FiberPtr}, s.hand w = some f → w' ≠ w →
      (s.worker w').pc.executing ≠ some f := by
    intro w w' f hw hne hw'
    exact hne (hs w' w f (Pc.hand_of_executing hw') hw)
  refine ⟨?_, ?_, ?_⟩
  · intro w w' f hw hw'
    exact hs w w' f (Pc.hand_of_executing (Pc.executing_of_on hw))
      (Pc.hand_of_executing (Pc.executing_of_on hw'))
  · intro w w' f b hpc hne hon
    exact hof (by rw [hand, hpc]; rfl) hne (Pc.executing_of_on hon)
  · intro w w' f b hpc hne
    exact hof (by rw [hand, hpc]; rfl) hne

variable [DecidableEq W]

theorem init_exist (pool : Pool W) : (init pool).Exist := by
  refine ⟨?_, ?_, ?_⟩
  · intro w f hf
    have hpc : (init pool).hand w = none := by
      show Pc.hand (if _ then _ else _) = none
      split <;> rfl
    rw [hpc] at hf
    cases hf
  · intro w f hf; cases hf
  · intro ft hft; cases hft

/-- One worker moves. -/
theorem hand_update {w : W} {wk : Worker W} (h : s'.worker = Function.update s.worker w wk) :
    s'.hand = Function.update s.hand w wk.pc.hand := by
  funext v
  unfold hand
  rw [h]
  by_cases hv : v = w
  · subst hv; rw [Function.update_self, Function.update_self]
  · rw [Function.update_of_ne hv, Function.update_of_ne hv]

/-- One worker moves, and what it has now exists. -/
theorem exist_of_update (hs : s.Exist) {w : W} {wk : Worker W}
    (h : s'.worker = Function.update s.worker w wk) (hn : s.nfiber ≤ s'.nfiber)
    (hhand : ∀ f, wk.pc.hand = some f → f < s'.nfiber)
    (hslot : ∀ f, wk.cb_fiber = some f → f < s'.nfiber)
    (hqueue : ∀ ft ∈ s'.m_fibers, ∀ f, ft.task = .fiber f → f < s'.nfiber) : s'.Exist := by
  refine ⟨?_, ?_, hqueue⟩
  · intro v f hv
    rw [hand_update h] at hv
    by_cases hvw : v = w
    · subst hvw; rw [Function.update_self] at hv; exact hhand f hv
    · rw [Function.update_of_ne hvw] at hv
      exact Nat.lt_of_lt_of_le (hs.hand v f hv) hn
  · intro v f hv
    rw [h] at hv
    by_cases hvw : v = w
    · subst hvw; rw [Function.update_self] at hv; exact hslot f hv
    · rw [Function.update_of_ne hvw] at hv
      exact Nat.lt_of_lt_of_le (hs.slot v f hv) hn

/-- A worker that keeps its fiber, or lets it go, and keeps its slot or empties it. -/
theorem exist_of_keep (hs : s.Exist) {w : W} {wk : Worker W}
    (h : s'.worker = Function.update s.worker w wk) (hn : s'.nfiber = s.nfiber)
    (hq : s'.m_fibers = s.m_fibers) (hhand : wk.pc.hand = none ∨ wk.pc.hand = s.hand w)
    (hslot : wk.cb_fiber = none ∨ wk.cb_fiber = (s.worker w).cb_fiber) : s'.Exist := by
  refine exist_of_update hs h (by omega) ?_ ?_ ?_
  · intro f hf
    rw [hn]
    rcases hhand with hh | hh
    · rw [hh] at hf; cases hf
    · exact hs.hand w f (hh ▸ hf)
  · intro f hf
    rw [hn]
    rcases hslot with hh | hh
    · rw [hh] at hf; cases hf
    · exact hs.slot w f (hh ▸ hf)
  · rw [hn, hq]; exact hs.queue

/-- A worker keeps its fiber, lets it go, or takes one that no other has. -/
theorem exclusive_of_update (hs : Exclusive s.hand) {w : W} {wk : Worker W}
    (h : s'.worker = Function.update s.worker w wk)
    (hhand : wk.pc.hand = none ∨ wk.pc.hand = s.hand w ∨
      ∃ f, wk.pc.hand = some f ∧ ∀ w', w' ≠ w → s.hand w' ≠ some f) : Exclusive s'.hand := by
  rw [hand_update h]
  exact hs.update hhand

variable [Fintype W]

/-- Every move keeps `Exist`. -/
theorem move_exist (hs : s.Exist) (h : Move pool s a s') : s'.Exist := by
  cases h with
  | stay => exact hs
  | abort => exact ⟨hs.hand, hs.slot, hs.queue⟩
  | callOut c => exact call_exist hs none c
  | callIn w f b c hpc => exact call_exist hs (some w) c
  | stop =>
    have hf := stopStep_frame pool s
    refine ⟨?_, ?_, ?_⟩
    · unfold Scheduler.hand; rw [hf.worker, hf.nfiber]; exact hs.hand
    · rw [hf.worker, hf.nfiber]; exact hs.slot
    · rw [hf.fibers, hf.nfiber]; exact hs.queue
  | pop w ft hpc hfind =>
    have hmem := List.mem_of_find?_eq_some hfind
    refine exist_of_update hs rfl le_rfl ?_ (hs.slot w) ?_
    · intro f hf
      cases ht : ft.task with
      | fiber g =>
        simp only [Pc.hand, ht, FiberOrcb.fiber?, Option.some.injEq] at hf
        subst hf
        exact hs.queue ft hmem g ht
      | cb cb => simp [Pc.hand, ht, FiberOrcb.fiber?] at hf
    · intro ft' hft'
      exact hs.queue ft' (List.mem_of_mem_eraseP hft')
  | recycle w ft cb f hpc htask hslot hreset =>
    refine exist_of_update hs rfl le_rfl ?_ (hs.slot w) hs.queue
    intro g hg
    cases hg
    exact hs.slot w f hslot
  | create w ft cb hpc htask hslot =>
    refine exist_of_update hs rfl (Nat.le_succ _) ?_ ?_ ?_
    · intro g hg; cases hg; exact Nat.lt_succ_self _
    · intro g hg; cases hg; exact Nat.lt_succ_self _
    · intro ft' hft' g hg; exact Nat.lt_succ_of_lt (hs.queue ft' hft' g hg)
  | requeue w f hpc =>
    have hf : s.exist (.fiber f) := hs.hand w f (by rw [hand, hpc]; rfl)
    have hp := push_exist hs (-1) none hf
    exact exist_of_keep hp rfl rfl rfl (Or.inl rfl) (Or.inr rfl)
  | requeueCb w f hpc =>
    have hf : s.exist (.fiber f) := hs.hand w f (by rw [hand, hpc]; rfl)
    have hp := push_exist hs (-1) none hf
    exact exist_of_keep hp rfl rfl rfl (Or.inl rfl) (Or.inl rfl)
  | fiber w ft f hpc htask =>
    refine exist_of_keep hs rfl rfl rfl (Or.inr ?_) (Or.inr rfl)
    simp [hand, hpc, Pc.hand, htask, FiberOrcb.fiber?]
  | holdCb w f hpc hterm hexcept => exact exist_of_keep hs rfl rfl rfl (Or.inl rfl) (Or.inl rfl)
  | begin w hpc hroot hcall => exact exist_of_keep hs rfl rfl rfl (Or.inl rfl) (Or.inr rfl)
  | _ =>
    refine exist_of_keep hs rfl rfl rfl ?_ (Or.inr rfl)
    first
      | exact Or.inl rfl
      | exact Or.inr (by simp [hand, *, Pc.hand])

/-- **Everything named exists in every state of every run.** -/
theorem exist_inv (pool : Pool W) (acts : List (SchedAct W)) :
    (run (step pool) (init pool) acts).Exist :=
  run_inv (fun s a hs => move_exist hs (step_move pool s a)) acts _ (init_exist pool)

/-! ## Taking a fiber in hand -/

/-- The fiber the next step of worker `w` takes in hand: that of the entry its scan takes,
or its callback fiber. -/
def nextTake (pool : Pool W) (s : Scheduler W) (w : W) : Option FiberPtr :=
  match (s.worker w).pc with
  | .scan => (s.m_fibers.find? (s.takes (pool.tid w))).bind (·.task.fiber?)
  | .picked (some ft) =>
    match ft.task with
    | .fiber _ => none
    | .cb _ => (s.worker w).cb_fiber
  | _ => none

/-- **The step takes no fiber that another worker has in hand.** -/
def TakesFree (pool : Pool W) (s : Scheduler W) : SchedAct W → Prop
  | .run w => s.fault = none → ∀ f ∈ s.nextTake pool w, ∀ w', w' ≠ w → s.hand w' ≠ some f
  | _ => True

instance (pool : Pool W) (s : Scheduler W) : DecidablePred (s.TakesFree pool)
  | .run _ => inferInstanceAs (Decidable (_ → ∀ _ ∈ _, _))
  | .user _ _ => isTrue trivial
  | .call _ => isTrue trivial
  | .stop => isTrue trivial

/-- **A move that takes no fiber of another worker keeps hands exclusive.** -/
theorem move_exclusive (hex : s.Exist) (hs : Exclusive s.hand) (h : Move pool s a s')
    (hfault : s.fault = none) (hfree : s.TakesFree pool a) : Exclusive s'.hand := by
  cases h with
  | stay => exact hs
  | abort => exact hs
  | callOut c => rw [hand_congr (call_frame s none c).worker]; exact hs
  | callIn w f b c hpc => rw [hand_congr (call_frame s (some w) c).worker]; exact hs
  | stop => rw [hand_congr (stopStep_frame pool s).worker]; exact hs
  | pop w ft hpc hfind =>
    refine exclusive_of_update hs rfl ?_
    cases ht : ft.task with
    | cb cb => left; simp [Pc.hand, ht, FiberOrcb.fiber?]
    | fiber f =>
      right; right
      refine ⟨f, by simp [Pc.hand, ht, FiberOrcb.fiber?], ?_⟩
      have hnext : f ∈ s.nextTake pool w := by
        simp [nextTake, hpc, hfind, ht, FiberOrcb.fiber?]
      exact hfree hfault f hnext
  | recycle w ft cb f hpc htask hslot hreset =>
    refine exclusive_of_update hs rfl (Or.inr (Or.inr ⟨f, rfl, ?_⟩))
    have hnext : f ∈ s.nextTake pool w := by simp [nextTake, hpc, htask, hslot]
    exact hfree hfault f hnext
  | create w ft cb hpc htask hslot =>
    refine exclusive_of_update hs rfl (Or.inr (Or.inr ⟨s.nfiber, rfl, ?_⟩))
    -- a new fiber is in nobody's hand
    intro w' _ hw'
    exact Nat.lt_irrefl _ (hex.hand w' _ hw')
  | fiber w ft f hpc htask =>
    refine exclusive_of_update hs rfl (Or.inr (Or.inl ?_))
    simp [hand, hpc, Pc.hand, htask, FiberOrcb.fiber?]
  | _ =>
    refine exclusive_of_update hs rfl ?_
    first
      | exact Or.inl rfl
      | exact Or.inr (Or.inl (by simp [hand, *, Pc.hand]))

/-- **Hands stay exclusive** in a run whose steps take no fiber of another worker. -/
theorem hands_exclusive (pool : Pool W) (acts : List (SchedAct W))
    (h : Along (step pool) (TakesFree pool) (init pool) acts) :
    ∀ s ∈ trace (step pool) (init pool) acts, Exclusive s.hand := by
  have hinit : Exclusive (init pool).hand := by
    intro w w' f hw
    have hpc : (init pool).hand w = none := by
      show Pc.hand (if _ then _ else _) = none
      split <;> rfl
    rw [hpc] at hw
    cases hw
  intro s hs
  refine (trace_inv_of (I := fun s : Scheduler W => s.Exist ∧ Exclusive s.hand) ?_ acts
    ⟨init_exist pool, hinit⟩ h s hs).2
  rintro s a ⟨hex, hs⟩ hfree
  by_cases hfault : s.fault = none
  · exact ⟨move_exist hex (step_move pool s a),
      move_exclusive hex hs (step_move pool s a) hfault hfree⟩
  · rw [step_of_fault hfault]; exact ⟨hex, hs⟩

/-- **In a run whose steps take no fiber that another worker has in hand, every fiber is
executed by one worker at a time.** -/
theorem one_at_a_time {W : Type} [Fintype W] [DecidableEq W] (pool : Pool W)
    (acts : List (SchedAct W)) (h : Along (step pool) (TakesFree pool) (init pool) acts) :
    ∀ s ∈ trace (step pool) (init pool) acts, s.OneAtATime :=
  fun s hs => oneAtATime_of_exclusive (hands_exclusive pool acts h s hs)

/-- Two threads, neither the caller's. -/
def twoThreads : Pool Bool := { tid := fun w => if w then 101 else 100, root := none }

/-- A fiber yields on one thread and is finished by the other. -/
def handOver : List (SchedAct Bool) :=
  [.call (.newFiber (some 7)), .call (.scheduler (some (.fiber 0)) (-1)), .run true, .run true,
    .run true, .run true, .user true .yieldToReady, .run true, .run true, .run true, .run true,
    .run false, .run false, .run false, .run false, .user false .finish]

theorem one_at_a_time_hand_over :
    Along (step twoThreads) (TakesFree twoThreads) (init twoThreads) handOver ∧
      ∀ s ∈ trace (step twoThreads) (init twoThreads) handOver, s.OneAtATime :=
  ⟨by decide, one_at_a_time twoThreads handOver (by decide)⟩

/-- A fiber schedules itself and yields; the other thread pops it before its context is
saved. -/
def earlyWake : List (SchedAct Bool) :=
  [.call (.newFiber (some 7)), .call (.scheduler (some (.fiber 0)) (-1)), .run true, .run true,
    .run true, .run true, .user true (.call (.scheduler (some (.fiber 0)) (-1))),
    .user true .yieldToHold, .run false, .run false, .run false]

/-- The other thread is about to switch to a context that is not saved, and then both
threads are on the fiber. -/
theorem early_wake_runs_twice :
    let s := run (step twoThreads) (init twoThreads) earlyWake
    let s' := step twoThreads s (.run false)
    (s.worker true).pc.on = some 0 ∧ (s.worker false).pc = .task .switch 0 .fiber ∧
      (s'.worker true).pc.on = some 0 ∧ (s'.worker false).pc.on = some 0 ∧
      ¬ ∀ s ∈ trace (step twoThreads) (init twoThreads) earlyWake, s.OneAtATime := by
  intro s s'
  have hon : (s.worker true).pc.on = some 0 := by decide
  have hswitch : (s.worker false).pc = .task .switch 0 .fiber := by decide
  refine ⟨hon, hswitch, by decide, by decide, ?_⟩
  intro h
  have hone : s.OneAtATime := h s (mem_trace.2 ⟨earlyWake, List.prefix_rfl, rfl⟩)
  exact hone.resume false true 0 .fiber hswitch (by decide) hon

end Scheduler

end Coroutine
