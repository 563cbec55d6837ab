import Coroutine.Proof.SchedulerCount
import Coroutine.Proof.SchedulerStop

/-!
# Runs of callbacks

Tasks that are callbacks and run to their end, without a yield, on any worker or on one of the
scheduler's threads. After `stop()` was called only tasks schedule more.

* `OnlyCallbacks`: the queue and the workers have callbacks only, and each worker its own fiber, in
  the state in which the next step needs it.
* `step_fault`: so nothing goes wrong in such a run.
* `step_onlyCallbacks`: and it stays so.
-/

namespace Coroutine

open Lib

/-- The call schedules callbacks, for any worker or for one that there is. -/
def SchedCall.Callbacks {W : Type} (pool : Pool W) : SchedCall → Prop
  | .scheduler fc thread =>
    (∀ task ∈ fc, task.fiber? = none) ∧ (thread = -1 ∨ ∃ w, pool.tid w = thread)
  | .batch fcs => ∀ fc ∈ fcs, ∀ task ∈ fc, task.fiber? = none
  | .newFiber _ => True

/-- **What is done in a run of callbacks.** -/
def Scheduler.CallbackStep {W : Type} (pool : Pool W) (s : Scheduler W) : SchedAct W → Prop
  | .run _ | .stop | .user _ .finish | .user _ .throw => True
  | .user _ .yieldToHold | .user _ .yieldToReady => False
  | .user _ (.call c) => c.Callbacks pool
  | .call c => s.stopPc = .out ∧ c.Callbacks pool

/-- A worker's callback fiber, by where the worker is. -/
def Pc.serves {W : Type} (fb : Fiber) : Pc W → Prop
  | .task .enter _ _ => fb.m_state = .INIT ∧ fb.m_ctx = .entry ∧ fb.m_cb.isSome
  | .task .switch _ _ => fb.m_ctx = .entry ∧ fb.m_cb.isSome
  | .task .running _ _ => True
  | .task (.leaving ctx) _ _ => ctx = .ended ∧ fb.Finished
  | .task .back _ _ | .task .fixup _ _ => fb.Finished
  | .task .requeue _ _ => False
  | _ => fb.m_state = .INIT

namespace Scheduler

variable {W : Type} {pool : Pool W} {s s' : Scheduler W} {a : SchedAct W}

/-- An entry that some worker takes, and executes in its callback fiber. -/
def Workable (pool : Pool W) (ft : FiberAndThread W) : Prop :=
  ft.task.fiber? = none ∧ (ft.thread = -1 ∨ ∃ w, pool.tid w = ft.thread)

/-- **The invariant.** -/
structure OnlyCallbacks (pool : Pool W) (s : Scheduler W) : Prop where
  fault : s.fault = none
  queue : ∀ ft ∈ s.m_fibers, Workable pool ft
  picked : ∀ w ft, (s.worker w).pc = .picked (some ft) → ft.task.fiber? = none
  task : ∀ w stage f b, (s.worker w).pc = .task stage f b → b = .cb ∧ (s.worker w).cb_fiber = some f
  exist : ∀ w f, (s.worker w).cb_fiber = some f → f < s.nfiber
  own : Exclusive fun w => (s.worker w).cb_fiber
  serves : ∀ w f, (s.worker w).cb_fiber = some f → (s.worker w).pc.serves (s.fiber f)

theorem call_fault (s : Scheduler W) (pusher : Option W) (c : SchedCall) :
    (s.call pusher c).fault = s.fault :=
  call_inv (I := fun t : Scheduler W => t.fault = s.fault) (fun _ _ _ ht _ => ht) (fun _ _ ht => ht)
    rfl c

variable [DecidableEq W]

/-! ## Nothing goes wrong -/

theorem take_fault (hs : s.OnlyCallbacks pool) {w : W} {ft : FiberAndThread W}
    (hpc : (s.worker w).pc = .picked (some ft)) : (s.take w ft).fault = none := by
  have hcb := hs.picked w ft hpc
  unfold take
  cases htask : ft.task with
  | fiber f =>
    rw [htask] at hcb
    cases hcb
  | cb cb =>
    dsimp only
    cases hslot : (s.worker w).cb_fiber with
    | none => exact hs.fault
    | some c =>
      -- the fiber of the last callback was reset
      have hserves := hs.serves w c hslot
      rw [hpc] at hserves
      have hreset : (s.fiber c).resettable := Or.inr (Or.inl hserves)
      dsimp only
      rw [if_pos hreset]
      exact hs.fault

theorem execute_fault (hs : s.OnlyCallbacks pool) {w : W} {stage : Stage} {f : FiberPtr} {b : Branch}
    (hpc : (s.worker w).pc = .task stage f b) : (s.execute w f b stage).fault = none := by
  obtain ⟨rfl, hslot⟩ := hs.task w stage f b hpc
  have hserves := hs.serves w f hslot
  rw [hpc] at hserves
  cases stage with
  | enter =>
    have hstate : (s.fiber f).m_state ≠ .EXEC := by
      rw [hserves.1]
      simp
    unfold execute
    dsimp only
    rw [if_neg hstate]
    exact hs.fault
  | switch =>
    obtain ⟨hctx, hcb⟩ := hserves
    obtain ⟨job, hjob⟩ := Option.isSome_iff_exists.1 hcb
    unfold execute switch
    dsimp only
    rw [hctx, hjob]
    exact hs.fault
  | running => exact hs.fault
  | leaving ctx => exact hs.fault
  | back => exact hs.fault
  | fixup =>
    unfold execute fixup
    dsimp only
    rcases hserves with hst | hst <;> rw [hst] <;> exact hs.fault
  | requeue => exact hserves.elim

variable [Fintype W]

/-- **No step faults.** -/
theorem step_fault (hs : s.OnlyCallbacks pool) (a : SchedAct W) : (s.step pool a).fault = none := by
  unfold step
  rw [hs.fault]
  cases a with
  | run w =>
    show (s.runStep pool w).fault = none
    unfold runStep
    cases hpc : (s.worker w).pc with
    | out =>
      dsimp only
      split <;> exact hs.fault
    | scan =>
      dsimp only
      unfold scan
      split <;> exact hs.fault
    | picked ft =>
      cases ft with
      | none =>
        dsimp only
        split <;> exact hs.fault
      | some ft => exact take_fault hs hpc
    | task stage f b => exact execute_fault hs hpc
    | idleIn => exact hs.fault
    | idle => exact hs.fault
    | idleOut => exact hs.fault
    | exited => exact hs.fault
  | user w u =>
    show (s.userStep w u).fault = none
    unfold userStep
    cases hpc : (s.worker w).pc with
    | task stage f b =>
      cases stage with
      | running =>
        cases u with
        | call c => exact (call_fault s (some w) c).trans hs.fault
        | _ => exact hs.fault
      | _ => exact hs.fault
    | _ => exact hs.fault
  | call c => exact (call_fault s none c).trans hs.fault
  | stop =>
    show (s.stopStep pool).fault = none
    unfold stopStep
    split <;> first
      | exact hs.fault
      | (split <;> exact hs.fault)

/-! ## It stays so -/

omit [Fintype W] in
/-- **A worker moves**, and writes to its own fiber only. -/
theorem only_of_update (hs : s.OnlyCallbacks pool) {w : W} (wk : Worker W)
    (hworker : s'.worker = Function.update s.worker w wk) (hfault : s'.fault = none)
    (hqueue : ∀ ft ∈ s'.m_fibers, Workable pool ft) (hn : s.nfiber ≤ s'.nfiber)
    (hslot : wk.cb_fiber = (s.worker w).cb_fiber ∨
      wk.cb_fiber = some s.nfiber ∧ s.nfiber < s'.nfiber)
    (hother : ∀ g, wk.cb_fiber ≠ some g → s'.fiber g = s.fiber g)
    (hpicked : ∀ ft, wk.pc = .picked (some ft) → ft.task.fiber? = none)
    (htask : ∀ stage f b, wk.pc = .task stage f b → b = .cb ∧ wk.cb_fiber = some f)
    (hserves : ∀ f, wk.cb_fiber = some f → wk.pc.serves (s'.fiber f)) : s'.OnlyCallbacks pool := by
  have hfree : ∀ v, v ≠ w → ∀ g, (s.worker v).cb_fiber = some g → wk.cb_fiber ≠ some g := by
    intro v hv g hg hwk
    rcases hslot with hsame | ⟨hnew, -⟩
    · rw [hsame] at hwk
      exact hv (hs.own v w g hg hwk)
    · have hlt := hs.exist v g hg
      have heq : g = s.nfiber := Option.some.inj (hwk.symm.trans hnew)
      rw [heq] at hlt
      exact Nat.lt_irrefl _ hlt
  refine ⟨hfault, hqueue, ?_, ?_, ?_, ?_, ?_⟩
  · intro v
    rw [hworker]
    exact update_intro (P := fun k : Worker W => ∀ ft, k.pc = .picked (some ft) → ft.task.fiber? = none)
      (hs.picked v) fun _ => hpicked
  · intro v
    rw [hworker]
    exact update_intro (P := fun k : Worker W => ∀ stage f b, k.pc = .task stage f b →
      b = .cb ∧ k.cb_fiber = some f) (hs.task v) fun _ => htask
  · intro v
    rw [hworker]
    refine update_intro (P := fun k : Worker W => ∀ f, k.cb_fiber = some f → f < s'.nfiber)
      (fun f hf => Nat.lt_of_lt_of_le (hs.exist v f hf) hn) ?_
    intro hv f hf
    rcases hslot with hsame | ⟨hnew, hlt⟩
    · rw [hsame] at hf
      exact Nat.lt_of_lt_of_le (hs.exist w f hf) hn
    · have heq : f = s.nfiber := Option.some.inj (hf.symm.trans hnew)
      rw [heq]
      exact hlt
  · have hslots : (fun v => (s'.worker v).cb_fiber) =
        Function.update (fun v => (s.worker v).cb_fiber) w wk.cb_fiber := by
      funext v
      rw [hworker]
      by_cases hv : v = w
      · rw [hv, Function.update_self, Function.update_self]
      · rw [Function.update_of_ne hv, Function.update_of_ne hv]
    rw [hslots]
    refine hs.own.update ?_
    rcases hslot with hsame | ⟨hnew, -⟩
    · exact Or.inr (Or.inl hsame)
    · refine Or.inr (Or.inr ⟨s.nfiber, hnew, fun v _ hv => ?_⟩)
      exact Nat.lt_irrefl _ (hs.exist v _ hv)
  · intro v f hf
    by_cases hv : v = w
    · subst hv
      rw [hworker, Function.update_self] at hf ⊢
      exact hserves f hf
    · rw [hworker, Function.update_of_ne hv] at hf ⊢
      rw [hother f (hfree v hv f hf)]
      exact hs.serves v f hf

omit [Fintype W] [DecidableEq W] in
/-- No worker moves, and fibers are only made. -/
theorem only_of_frame (hs : s.OnlyCallbacks pool) (hworker : s'.worker = s.worker)
    (hfault : s'.fault = s.fault) (hqueue : ∀ ft ∈ s'.m_fibers, Workable pool ft)
    (hn : s.nfiber ≤ s'.nfiber) (hfiber : ∀ f, f < s.nfiber → s'.fiber f = s.fiber f) :
    s'.OnlyCallbacks pool := by
  refine ⟨hfault.trans hs.fault, hqueue, ?_, ?_, ?_, ?_, ?_⟩
  · rw [hworker]
    exact hs.picked
  · rw [hworker]
    exact hs.task
  · rw [hworker]
    exact fun w f hf => Nat.lt_of_lt_of_le (hs.exist w f hf) hn
  · rw [hworker]
    exact hs.own
  · rw [hworker]
    intro w f hf
    rw [hfiber f (hs.exist w f hf)]
    exact hs.serves w f hf

omit [Fintype W] [DecidableEq W] in
theorem schedule_only (hs : s.OnlyCallbacks pool) (pusher : Option W) {fc : Option FiberOrcb}
    {thread : ℤ} (hfc : ∀ task ∈ fc, task.fiber? = none)
    (hthread : thread = -1 ∨ ∃ w, pool.tid w = thread) :
    (s.scheduleNoLock fc thread pusher).OnlyCallbacks pool := by
  cases fc with
  | none => exact hs
  | some task =>
    unfold scheduleNoLock
    dsimp only
    split
    · refine only_of_frame hs rfl rfl ?_ (Nat.le_refl _) fun _ _ => rfl
      intro ft hft
      rcases List.mem_append.1 hft with hold | hnew
      · exact hs.queue ft hold
      · rw [List.mem_singleton] at hnew
        subst hnew
        exact ⟨hfc task rfl, hthread.imp id fun ⟨w, hw⟩ => ⟨w, hw⟩⟩
    · exact hs

omit [Fintype W] [DecidableEq W] in
theorem call_only (hs : s.OnlyCallbacks pool) (pusher : Option W) {c : SchedCall}
    (hc : c.Callbacks pool) : (s.call pusher c).OnlyCallbacks pool := by
  cases c with
  | scheduler fc thread => exact schedule_only hs pusher hc.1 hc.2
  | newFiber cb =>
    refine only_of_frame hs rfl rfl hs.queue (Nat.le_succ _) ?_
    intro f hf
    exact Function.update_of_ne (Nat.ne_of_lt hf) _ _
  | batch fcs =>
    unfold call
    dsimp only
    have hall : ∀ fc ∈ fcs, ∀ task ∈ fc, task.fiber? = none := hc
    clear hc
    induction fcs generalizing s with
    | nil => exact hs
    | cons fc fcs ih =>
      rw [List.foldl_cons]
      refine ih (schedule_only hs pusher (hall fc (List.mem_cons_self ..)) (Or.inl rfl)) ?_
      exact fun fc' hfc' => hall fc' (List.mem_cons_of_mem _ hfc')

omit [Fintype W] in
/-- **A worker moves with the fibers as they are.** -/
theorem only_of_go (hs : s.OnlyCallbacks pool) {w : W} (wk : Worker W)
    (hworker : s'.worker = Function.update s.worker w wk) (hfault : s'.fault = s.fault)
    (hqueue : ∀ ft ∈ s'.m_fibers, ft ∈ s.m_fibers) (hn : s'.nfiber = s.nfiber)
    (hfiber : s'.fiber = s.fiber) (hslot : wk.cb_fiber = (s.worker w).cb_fiber)
    (hpicked : ∀ ft, wk.pc = .picked (some ft) → ft.task.fiber? = none)
    (htask : ∀ stage f b, wk.pc = .task stage f b → b = .cb ∧ wk.cb_fiber = some f)
    (hserves : ∀ f, (s.worker w).cb_fiber = some f → wk.pc.serves (s.fiber f)) :
    s'.OnlyCallbacks pool := by
  refine only_of_update hs _ hworker (hfault.trans hs.fault) (fun ft hft => hs.queue ft (hqueue ft hft))
    (Nat.le_of_eq hn.symm) (Or.inl hslot) (fun g _ => by rw [hfiber]) hpicked htask ?_
  intro f hf
  rw [hfiber]
  exact hserves f (hslot ▸ hf)

omit [Fintype W] in
/-- **A worker moves with the fiber it executes.** -/
theorem only_of_task (hs : s.OnlyCallbacks pool) {w : W} {stage : Stage} {f : FiberPtr} {b : Branch}
    (hpc : (s.worker w).pc = .task stage f b) {pc : Pc W} {fb : Fiber}
    (hworker : s'.worker = Function.update s.worker w { s.worker w with pc := pc })
    (hfault : s'.fault = s.fault) (hqueue : s'.m_fibers = s.m_fibers) (hn : s'.nfiber = s.nfiber)
    (hfiber : s'.fiber = Function.update s.fiber f fb) (hpicked : ∀ ft, pc ≠ .picked ft)
    (htask : ∀ stage' f' b', pc = .task stage' f' b' → b' = b ∧ f' = f) (hserves : pc.serves fb) :
    s'.OnlyCallbacks pool := by
  obtain ⟨hb, hslot⟩ := hs.task w stage f b hpc
  refine only_of_update hs _ hworker (hfault.trans hs.fault) ?_ (Nat.le_of_eq hn.symm) (Or.inl rfl) ?_ ?_
    ?_ ?_
  · rw [hqueue]
    exact hs.queue
  · intro g hg
    have hne : g ≠ f := by
      rintro rfl
      exact hg hslot
    rw [hfiber, Function.update_of_ne hne]
  · exact fun ft hft => absurd hft (hpicked (some ft))
  · intro stage' f' b' htask'
    obtain ⟨rfl, rfl⟩ := htask stage' f' b' htask'
    exact ⟨hb, hslot⟩
  · intro g hg
    have heq : g = f := Option.some.inj (hg.symm.trans hslot)
    rw [heq, hfiber, Function.update_self]
    exact hserves

/-- A step of a worker in `run()`. -/
theorem run_only (hs : s.OnlyCallbacks pool) {w : W} (h : Move pool s (.run w) s')
    (hfault : s'.fault = none) : s'.OnlyCallbacks pool := by
  -- outside a task the worker's fiber waits for its next callback
  have hwait : ∀ {w : W} {pc pc' : Pc W}, (s.worker w).pc = pc → (∀ fb, pc.serves fb → pc'.serves fb) →
      ∀ f, (s.worker w).cb_fiber = some f → pc'.serves (s.fiber f) := by
    intro w pc pc' hpc himp f hf
    exact himp _ (hpc ▸ hs.serves w f hf)
  have hserves : ∀ {w : W} {stage : Stage} {f : FiberPtr} {b : Branch},
      (s.worker w).pc = .task stage f b → (Pc.task (W := W) stage f b).serves (s.fiber f) := by
    intro w stage f b hpc
    exact hpc ▸ hs.serves w f (hs.task w stage f b hpc).2
  cases h with
  | stay => exact hs
  | abort a e => cases hfault
  | begin w hpc hroot hcall =>
    exact only_of_go hs { s.worker w with pc := .scan } rfl rfl (fun _ h => h) rfl rfl rfl
      (fun _ h => by cases h) (fun _ _ _ h => by cases h) (hwait hpc fun _ h => h)
  | miss w hpc hfind =>
    exact only_of_go hs { s.worker w with pc := .picked none } rfl rfl (fun _ h => h) rfl rfl
      rfl (fun _ h => by cases h) (fun _ _ _ h => by cases h) (hwait hpc fun _ h => h)
  | pop w ft hpc hfind =>
    have hmem := List.mem_of_find?_eq_some hfind
    refine only_of_go hs { s.worker w with pc := .picked (some ft) } rfl rfl
      (fun _ h => List.mem_of_mem_eraseP h) rfl rfl rfl ?_ (fun _ _ _ h => by cases h)
      (hwait hpc fun _ h => h)
    intro ft' hft'
    cases hft'
    exact (hs.queue ft hmem).1
  | fiber w ft f hpc htask =>
    have hcb := hs.picked w ft hpc
    rw [htask] at hcb
    cases hcb
  | recycle w ft cb f hpc htask hslot hreset =>
    refine only_of_update hs { s.worker w with pc := .task .enter f .cb } rfl hfault hs.queue
      (Nat.le_refl _) (Or.inl rfl) ?_ (fun _ h => by cases h) ?_ ?_
    · intro g hg
      have hne : g ≠ f := by
        rintro rfl
        exact hg hslot
      exact Function.update_of_ne hne _ _
    · rintro _ _ _ ⟨⟩
      exact ⟨rfl, hslot⟩
    · intro g hg
      have heq : g = f := Option.some.inj (hg.symm.trans hslot)
      subst heq
      show Pc.serves (Function.update s.fiber g _ g) _
      rw [Function.update_self]
      exact ⟨rfl, rfl, rfl⟩
  | create w ft cb hpc htask hslot =>
    refine only_of_update hs
      { s.worker w with pc := .task .enter s.nfiber .cb, cb_fiber := some s.nfiber } rfl hfault
      hs.queue (Nat.le_succ _) (Or.inr ⟨rfl, Nat.lt_succ_self _⟩) ?_ (fun _ h => by cases h) ?_ ?_
    · intro g hg
      have hne : g ≠ s.nfiber := by
        rintro rfl
        exact hg rfl
      exact Function.update_of_ne hne _ _
    · rintro _ _ _ ⟨⟩
      exact ⟨rfl, rfl⟩
    · intro g hg
      cases hg
      show Pc.serves (Function.update s.fiber s.nfiber _ s.nfiber) _
      rw [Function.update_self]
      exact ⟨rfl, rfl, rfl⟩
  | enter w f b hpc hstate =>
    obtain ⟨-, hctx, hcb⟩ := hserves hpc
    refine only_of_task hs hpc rfl rfl rfl rfl rfl (fun _ h => by cases h) ?_ ⟨hctx, hcb⟩
    rintro _ _ _ ⟨⟩
    exact ⟨rfl, rfl⟩
  | start w f b job hpc hctx hjob =>
    refine only_of_go hs { s.worker w with pc := .task .running f b } rfl rfl (fun _ h => h) rfl
      rfl rfl (fun _ h => by cases h) ?_ (fun _ _ => True.intro)
    rintro _ _ _ ⟨⟩
    exact hs.task w .switch f b hpc
  | startEmpty w f b hpc hctx hjob =>
    obtain ⟨-, hcb⟩ := hserves hpc
    rw [hjob] at hcb
    cases hcb
  | resume w f b hpc hctx =>
    obtain ⟨hentry, -⟩ := hserves hpc
    rw [hctx] at hentry
    cases hentry
  | save w f b ctx hpc =>
    obtain ⟨-, hfin⟩ := hserves hpc
    refine only_of_task hs hpc rfl rfl rfl rfl rfl (fun _ h => by cases h) ?_ hfin
    rintro _ _ _ ⟨⟩
    exact ⟨rfl, rfl⟩
  | back w f b hpc =>
    refine only_of_go hs { s.worker w with pc := .task .fixup f b } rfl rfl (fun _ h => h) rfl
      rfl rfl (fun _ h => by cases h) ?_ (hwait hpc fun _ h => h)
    rintro _ _ _ ⟨⟩
    exact hs.task w .back f b hpc
  | ready w f b hpc hstate =>
    have hfin : (s.fiber f).Finished := hserves hpc
    rcases hfin with hst | hst <;> rw [hstate] at hst <;> cases hst
  | drop w f hpc hstate => cases (hs.task w .fixup f .fiber hpc).1
  | clear w f hpc hstate =>
    exact only_of_task hs hpc rfl rfl rfl rfl rfl (fun _ h => by cases h) (fun _ _ _ h => by cases h) rfl
  | hold w f hpc hterm hexcept => cases (hs.task w .fixup f .fiber hpc).1
  | holdCb w f hpc hterm hexcept =>
    rcases hserves hpc with hst | hst
    · exact absurd hst hterm
    · exact absurd hst hexcept
  | requeue w f hpc => cases (hs.task w .requeue f .fiber hpc).1
  | requeueCb w f hpc => exact (hserves hpc).elim
  | exit w hpc hidle =>
    exact only_of_go hs { s.worker w with pc := .exited } rfl rfl (fun _ h => h) rfl rfl rfl
      (fun _ h => by cases h) (fun _ _ _ h => by cases h) (hwait hpc fun _ h => h)
  | idleIn w hpc hidle =>
    exact only_of_go hs { s.worker w with pc := .idleIn } rfl rfl (fun _ h => h) rfl rfl rfl
      (fun _ h => by cases h) (fun _ _ _ h => by cases h) (hwait hpc fun _ h => h)
  | idle w hpc =>
    exact only_of_go hs { s.worker w with pc := .idle, idle := .EXEC } rfl rfl (fun _ h => h) rfl
      rfl rfl (fun _ h => by cases h) (fun _ _ _ h => by cases h) (hwait hpc fun _ h => h)
  | idleStop w hpc hstop =>
    exact only_of_go hs { s.worker w with pc := .idleOut, idle := .TERM } rfl rfl (fun _ h => h)
      rfl rfl rfl (fun _ h => by cases h) (fun _ _ _ h => by cases h) (hwait hpc fun _ h => h)
  | idleYield w hpc =>
    exact only_of_go hs { s.worker w with pc := .idleOut, idle := .HOLD } rfl rfl (fun _ h => h)
      rfl rfl rfl (fun _ h => by cases h) (fun _ _ _ h => by cases h) (hwait hpc fun _ h => h)
  | idleOut w hpc =>
    exact only_of_go hs { s.worker w with pc := .scan } rfl rfl (fun _ h => h) rfl rfl rfl
      (fun _ h => by cases h) (fun _ _ _ h => by cases h) (hwait hpc fun _ h => h)

omit [Fintype W] in
/-- A step of a task. -/
theorem user_only (hs : s.OnlyCallbacks pool) {w : W} {u : UserAct}
    (ha : s.CallbackStep pool (.user w u)) : (s.userStep w u).OnlyCallbacks pool := by
  unfold userStep
  split
  · rename_i f b hpc
    have hsame : ∀ stage' f' b', Pc.task (W := W) (.leaving .ended) f b = .task stage' f' b' →
        b' = b ∧ f' = f := by
      rintro _ _ _ ⟨⟩
      exact ⟨rfl, rfl⟩
    cases u with
    | yieldToHold => exact ha.elim
    | yieldToReady => exact ha.elim
    | finish =>
      exact only_of_task hs hpc rfl rfl rfl rfl rfl (fun _ h => by cases h) hsame ⟨rfl, Or.inl rfl⟩
    | throw =>
      exact only_of_task hs hpc rfl rfl rfl rfl rfl (fun _ h => by cases h) hsame ⟨rfl, Or.inr rfl⟩
    | call c => exact call_only hs (some w) ha
  · exact hs

/-- **Every step of such a run keeps it.** -/
theorem step_onlyCallbacks (hs : s.OnlyCallbacks pool) (ha : s.CallbackStep pool a) :
    (s.step pool a).OnlyCallbacks pool := by
  have hfault := step_fault hs a
  cases a with
  | run w => exact run_only hs (step_move pool s (.run w)) hfault
  | user w u =>
    rw [step_user hs.fault]
    exact user_only hs ha
  | call c =>
    rw [step_call hs.fault]
    exact call_only hs none ha.2
  | stop =>
    have hstep : s.step pool .stop = s.stopStep pool := step_stop hs.fault
    have hframe := stopStep_frame pool s
    rw [hstep] at hfault ⊢
    refine only_of_frame hs hframe.worker (hfault.trans hs.fault.symm) ?_
      (Nat.le_of_eq hframe.nfiber.symm) fun f _ => by rw [hframe.fiber]
    rw [hframe.fibers]
    exact hs.queue

omit [Fintype W] in
theorem init_onlyCallbacks (pool : Pool W) : (init pool).OnlyCallbacks pool := by
  refine ⟨rfl, ?_, ?_, ?_, ?_, ?_, ?_⟩
  · intro ft hft
    cases hft
  · intro w ft hpc
    rcases init_pc pool w with h | h <;> rw [h] at hpc <;> cases hpc
  · intro w stage f b hpc
    rcases init_pc pool w with h | h <;> rw [h] at hpc <;> cases hpc
  · intro w f hf
    cases hf
  · intro w v f hw
    cases hw
  · intro w f hf
    cases hf

end Scheduler

end Coroutine
