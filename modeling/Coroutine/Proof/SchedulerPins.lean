import Coroutine.Proof.SchedulerHands
import Coroutine.Spec.SchedulerPins

/-!
# Thread affinity

* `Only`: an entry for a thread can be taken by no worker but the one a task is pinned to.
* `Affine`: a worker has only tasks in hand that were scheduled for its thread, or for any.
* `step_keeps`: a step keeps that, and that the queue's entries are `Only`, when the entries it
  pushes are.
* `affine`: so it holds in every run in which no pinned fiber is pushed for other workers too.
* `put_back_elsewhere`: `run()` puts a yielded task back for any thread.
-/

namespace Coroutine

open Lib

/-- An entry for `thread` is taken by no worker but those of thread `pin`. -/
def Pool.Only {W : Type} (pool : Pool W) (thread pin : ℤ) : Prop :=
  pin = -1 ∨ ∀ w, thread = -1 ∨ thread = pool.tid w → pool.tid w = pin

namespace Pinned

variable {W : Type} {pool : Pool W} {p : Pinned W}

/-- **Thread affinity**: what a worker has in hand was scheduled for its thread, or for any. -/
structure Affine (pool : Pool W) (p : Pinned W) : Prop where
  entry : ∀ w ft, (p.s.worker w).pc = .picked (some ft) → ft.thread = -1 ∨ ft.thread = pool.tid w
  fiber : ∀ w f, p.s.hand w = some f → p.pin f = -1 ∨ pool.tid w = p.pin f

/-- Every entry and every worker of fiber `f` would be right if its task were scheduled for
`thread`. -/
structure Agrees (pool : Pool W) (p : Pinned W) (f : FiberPtr) (thread : ℤ) : Prop where
  queue : ∀ ft ∈ p.s.m_fibers, ft.task = .fiber f → pool.Only ft.thread thread
  hand : ∀ w, p.s.hand w = some f → thread = -1 ∨ pool.tid w = thread

/-- The calls of user code that keep the pins: an entry for any thread is pushed only for a
fiber that any worker may take, and a thread is given only to a fiber that is nowhere else. -/
def CallKeeps (pool : Pool W) (p : Pinned W) : SchedCall → Prop
  | .scheduler (some (.fiber f)) thread =>
    if thread = -1 then pool.Only (-1) (p.pin f) else p.Agrees pool f thread
  | .batch fcs => ∀ fc ∈ fcs, ∀ f ∈ fc.bind FiberOrcb.fiber?, pool.Only (-1) (p.pin f)
  | _ => True

/-- The step of a worker with `cb_fiber = slot` that keeps the pins: it puts back a fiber that
any worker may take; it recycles a fiber that no other worker may take. -/
def RunKeeps (pool : Pool W) (p : Pinned W) (slot : Option FiberPtr) : Pc W → Prop
  | .task .requeue f _ => pool.Only (-1) (p.pin f)
  | .picked (some ft) => ft.task.fiber? = none → ∀ f ∈ slot, p.Agrees pool f ft.thread
  | _ => True

/-- The step of user code that keeps the pins. -/
def UserKeeps (pool : Pool W) (p : Pinned W) (u : UserAct) : Pc W → Prop
  | .task .running _ _ =>
    match u with
    | .call c => p.CallKeeps pool c
    | _ => True
  | _ => True

/-- **The step pushes no pinned fiber for other workers**: not `run()` when it puts a fiber
back, not a call; and `run()` recycles no fiber that others may still take. -/
def Keeps (pool : Pool W) (p : Pinned W) : SchedAct W → Prop
  | .run w => p.RunKeeps pool (p.s.worker w).cb_fiber (p.s.worker w).pc
  | .user w u => p.UserKeeps pool u (p.s.worker w).pc
  | .call c => p.CallKeeps pool c
  | .stop => True

/-- **The invariant.** -/
structure Held (pool : Pool W) (p : Pinned W) : Prop where
  exist : p.s.Exist
  affine : p.Affine pool
  queue : ∀ ft ∈ p.s.m_fibers, ∀ f, ft.task = .fiber f → pool.Only ft.thread (p.pin f)
  fresh : ∀ f, p.s.nfiber ≤ f → p.pin f = -1

/-- A fiber's task is scheduled for `thread`, and everything agrees. -/
theorem held_pin (h : p.Held pool) {f : FiberPtr} {thread : ℤ} (hf : f < p.s.nfiber)
    (hagrees : p.Agrees pool f thread) :
    ({ p with pin := Function.update p.pin f thread } : Pinned W).Held pool := by
  refine ⟨h.exist, ⟨h.affine.entry, ?_⟩, ?_, ?_⟩
  · intro w g hg
    by_cases hgf : g = f
    · subst hgf
      simp only [Function.update_self]
      exact hagrees.hand w hg
    · simp only [Function.update_of_ne hgf]
      exact h.affine.fiber w g hg
  · intro ft hft g hg
    by_cases hgf : g = f
    · subst hgf
      simp only [Function.update_self]
      exact hagrees.queue ft hft hg
    · simp only [Function.update_of_ne hgf]
      exact h.queue ft hft g hg
  · intro g hg
    have hgf : g ≠ f := fun heq => absurd hf (Nat.not_lt.2 (heq ▸ hg))
    simp only [Function.update_of_ne hgf]
    exact h.fresh g hg

/-- The task of a fiber ends. -/
theorem held_unpin (h : p.Held pool) {f : FiberPtr} (hf : f < p.s.nfiber) :
    ({ p with pin := Function.update p.pin f (-1) } : Pinned W).Held pool :=
  held_pin h hf ⟨fun _ _ _ => Or.inl rfl, fun _ _ => Or.inl rfl⟩

/-- An entry is pushed that only the right workers may take. -/
theorem held_push (h : p.Held pool) {task : FiberOrcb} {thread : ℤ} (pusher : Option W)
    (hexist : p.s.exist task) (honly : ∀ f, task = .fiber f → pool.Only thread (p.pin f)) :
    ({ p with s := p.s.push task thread pusher } : Pinned W).Held pool := by
  refine ⟨Scheduler.push_exist h.exist thread pusher hexist, ⟨h.affine.entry, h.affine.fiber⟩, ?_,
    h.fresh⟩
  intro ft hft f hf
  rcases List.mem_append.1 hft with hft | hft
  · exact h.queue ft hft f hf
  · rw [List.mem_singleton] at hft
    subst hft
    exact honly f hf

theorem held_scheduleNoLock (h : p.Held pool) {fc : Option FiberOrcb} {thread : ℤ}
    (pusher : Option W) (honly : ∀ f, fc = some (.fiber f) → pool.Only thread (p.pin f)) :
    ({ p with s := p.s.scheduleNoLock fc thread pusher } : Pinned W).Held pool := by
  unfold Scheduler.scheduleNoLock
  cases fc with
  | none => exact h
  | some task =>
    by_cases hexist : p.s.exist task
    · simp only [if_pos hexist]
      exact held_push h pusher hexist fun f hf => honly f (by rw [hf])
    · simp only [if_neg hexist]
      exact h

/-- **A call that keeps the pins.** -/
theorem held_call (h : p.Held pool) (pusher : Option W) {c : SchedCall}
    (hkeeps : p.CallKeeps pool c) :
    ({ s := p.s.call pusher c, pin := c.pin p.s.nfiber p.pin } : Pinned W).Held pool := by
  cases c with
  | newFiber cb =>
    refine ⟨Scheduler.newFiber_exist h.exist _, ⟨h.affine.entry, h.affine.fiber⟩, h.queue, ?_⟩
    intro f hf
    exact h.fresh f (Nat.le_of_succ_le hf)
  | batch fcs =>
    simp only [CallKeeps] at hkeeps
    simp only [Scheduler.call, SchedCall.pin]
    obtain ⟨s, pin⟩ := p
    induction fcs generalizing s with
    | nil => exact h
    | cons fc fcs ih =>
      have hfirst : ({ s := s.scheduleNoLock fc (-1) pusher, pin := pin } : Pinned W).Held pool :=
        held_scheduleNoLock h pusher fun f hf => hkeeps fc List.mem_cons_self f (by rw [hf]; rfl)
      exact ih _ hfirst fun fc' hfc => hkeeps fc' (List.mem_cons_of_mem fc hfc)
  | scheduler fc thread =>
    have hplain : (∀ f, fc = some (.fiber f) → pool.Only thread (p.pin f)) →
        ({ p with s := p.s.call pusher (.scheduler fc thread) } : Pinned W).Held pool :=
      held_scheduleNoLock h pusher
    cases fc with
    | none => exact hplain fun f hf => by cases hf
    | some task =>
      cases task with
      | cb cb => exact hplain fun f hf => by cases hf
      | fiber f =>
        simp only [CallKeeps] at hkeeps
        simp only [SchedCall.pin]
        by_cases hthread : thread = -1
        · rw [if_pos hthread] at hkeeps
          rw [if_neg (fun hand => hand.1 hthread)]
          subst hthread
          exact hplain fun g hg => by cases hg; exact hkeeps
        · rw [if_neg hthread] at hkeeps
          by_cases hf : f < p.s.nfiber
          · -- the pin first, then the entry, which is for its thread
            rw [if_pos ⟨hthread, hf⟩]
            have honly : ∀ g, some (FiberOrcb.fiber f) = some (.fiber g) →
                pool.Only thread (Function.update p.pin f thread g) := by
              intro g hg
              cases hg
              rw [Function.update_self]
              exact Or.inr fun w hw => (hw.resolve_left hthread).symm
            exact held_scheduleNoLock (held_pin h hf hkeeps) pusher honly
          · rw [if_neg (fun hand => hf hand.2)]
            have hno : p.s.call pusher (.scheduler (some (.fiber f)) thread) = p.s := by
              simp [Scheduler.call, Scheduler.scheduleNoLock, Scheduler.exist, hf]
            rw [hno]
            exact h

variable [DecidableEq W]

/-- **One worker moves**: what it has in hand is right, and so are the entries. -/
theorem held_of_update (h : p.Held pool) {s' : Scheduler W} (hexist : s'.Exist) {w : W}
    {wk : Worker W} (hw : s'.worker = Function.update p.s.worker w wk)
    (hn : p.s.nfiber ≤ s'.nfiber)
    (hentry : ∀ ft, wk.pc = .picked (some ft) → ft.thread = -1 ∨ ft.thread = pool.tid w)
    (hhand : ∀ f, wk.pc.hand = some f → p.pin f = -1 ∨ pool.tid w = p.pin f)
    (hqueue : ∀ ft ∈ s'.m_fibers, ∀ f, ft.task = .fiber f → pool.Only ft.thread (p.pin f)) :
    ({ p with s := s' } : Pinned W).Held pool := by
  refine ⟨hexist, ⟨?_, ?_⟩, hqueue, fun f hf => h.fresh f (Nat.le_trans hn hf)⟩
  · intro v ft hv
    simp only [hw] at hv
    by_cases hvw : v = w
    · subst hvw
      rw [Function.update_self] at hv
      exact hentry ft hv
    · rw [Function.update_of_ne hvw] at hv
      exact h.affine.entry v ft hv
  · intro v f hv
    simp only [Scheduler.hand, hw] at hv
    by_cases hvw : v = w
    · subst hvw
      rw [Function.update_self] at hv
      exact hhand f hv
    · rw [Function.update_of_ne hvw] at hv
      exact h.affine.fiber v f hv

/-- The worker keeps what it has in hand, or lets it go. -/
theorem held_of_keep (h : p.Held pool) {s' : Scheduler W} (hexist : s'.Exist) {w : W}
    {wk : Worker W} (hw : s'.worker = Function.update p.s.worker w wk) (hn : s'.nfiber = p.s.nfiber)
    (hpc : ∀ ft, wk.pc ≠ .picked (some ft)) (hhand : wk.pc.hand = none ∨ wk.pc.hand = p.s.hand w)
    (hq : s'.m_fibers = p.s.m_fibers) : ({ p with s := s' } : Pinned W).Held pool := by
  refine held_of_update h hexist hw (by omega) (fun ft hft => absurd hft (hpc ft)) ?_
    (by rw [hq]; exact h.queue)
  intro f hf
  rcases hhand with hnone | hsame
  · rw [hnone] at hf; cases hf
  · exact h.affine.fiber w f (hsame ▸ hf)

variable [Fintype W]

omit [DecidableEq W] [Fintype W] in
/-- `run()` puts back a fiber that any worker may take. -/
theorem held_putBack (h : p.Held pool) {w : W} {f : FiberPtr} {b : Branch}
    (hpc : (p.s.worker w).pc = .task .requeue f b) (hkeeps : p.Keeps pool (.run w)) :
    ({ p with s := p.s.push (.fiber f) (-1) none } : Pinned W).Held pool := by
  simp only [Keeps, RunKeeps, hpc] at hkeeps
  refine held_push h none (h.exist.hand w f (by rw [Scheduler.hand, hpc]; rfl)) ?_
  intro g hg
  cases hg
  exact hkeeps

omit [DecidableEq W] [Fintype W] in
/-- A worker that stays where it is leaves the pins alone. -/
theorem pinAfter_same {s s' : Scheduler W} {w : W} (hpc : (s'.worker w).pc = (s.worker w).pc)
    (pin : FiberPtr → ℤ) : s.pinAfter s' pin (.run w) = pin := by
  unfold Scheduler.pinAfter
  dsimp only
  split
  · rename_i ft f hft hf
    rw [hpc, hft] at hf
    cases hf
  · rfl

omit [Fintype W] in
/-- An entry that a worker may take is popped. -/
theorem held_pop (h : p.Held pool) {s' : Scheduler W} (hexist : s'.Exist) {w : W} {wk : Worker W}
    {ft : FiberAndThread W} (hw : s'.worker = Function.update p.s.worker w wk)
    (hpc : wk.pc = .picked (some ft)) (hn : s'.nfiber = p.s.nfiber)
    (hq : s'.m_fibers = p.s.m_fibers.eraseP (p.s.takes (pool.tid w)))
    (hfind : p.s.m_fibers.find? (p.s.takes (pool.tid w)) = some ft) :
    ({ p with s := s' } : Pinned W).Held pool := by
  have htakes := List.find?_some hfind
  have hmem := List.mem_of_find?_eq_some hfind
  have hthread : ft.thread = -1 ∨ ft.thread = pool.tid w := by
    simp only [Scheduler.takes, Bool.and_eq_true, decide_eq_true_eq] at htakes
    exact htakes.1
  refine held_of_update h hexist hw (Nat.le_of_eq hn.symm) ?_ ?_ ?_
  · intro ft' hft'
    rw [hpc] at hft'
    cases hft'
    exact hthread
  · intro f hf
    rw [hpc] at hf
    cases htask : ft.task with
    | cb cb => simp [Pc.hand, htask, FiberOrcb.fiber?] at hf
    | fiber g =>
      simp only [Pc.hand, htask, FiberOrcb.fiber?, Option.some.injEq] at hf
      subst hf
      exact (h.queue ft hmem g htask).imp_right fun honly => honly w hthread
  · intro ft' hft' f hf
    rw [hq] at hft'
    exact h.queue ft' (List.mem_of_mem_eraseP hft') f hf

omit [Fintype W] in
/-- A fiber is made for an entry, and pinned to its thread. -/
theorem held_create (h : p.Held pool) {w : W} {ft : FiberAndThread W} {cb : Option Job}
    (hpc : (p.s.worker w).pc = .picked (some ft))
    (hexist : ((p.s.newFiber cb).setWorker w { p.s.worker w with
      pc := .task .enter p.s.nfiber .cb, cb_fiber := some p.s.nfiber }).Exist) :
    (Pinned.mk ((p.s.newFiber cb).setWorker w { p.s.worker w with
        pc := .task .enter p.s.nfiber .cb, cb_fiber := some p.s.nfiber })
      (Function.update p.pin p.s.nfiber ft.thread)).Held pool := by
  have hthread := h.affine.entry w ft hpc
  -- nobody else has the new fiber, nor is it queued
  have hmade : (Pinned.mk ((p.s.newFiber cb).setWorker w { p.s.worker w with
      pc := .task .enter p.s.nfiber .cb, cb_fiber := some p.s.nfiber }) p.pin).Held pool := by
    refine held_of_update h hexist rfl (Nat.le_succ _) (fun _ hft => by cases hft) ?_ h.queue
    intro g hg
    cases hg
    exact Or.inl (h.fresh _ le_rfl)
  refine held_pin hmade (Nat.lt_succ_self _) ⟨?_, ?_⟩
  · intro ft' hft' hf
    exact absurd (h.exist.queue ft' hft' _ hf) (Nat.lt_irrefl _)
  · intro v hv
    by_cases hvw : v = w
    · subst hvw
      exact hthread.imp_right Eq.symm
    · have hold : p.s.hand v = some p.s.nfiber := by
        simpa [Scheduler.hand, Scheduler.setWorker, Scheduler.newFiber, Scheduler.setFiber, hvw] using hv
      exact absurd (h.exist.hand v _ hold) (Nat.lt_irrefl _)

/-- **A step of a worker in `run()`.** -/
theorem held_run (h : p.Held pool) {w : W} (hkeeps : p.Keeps pool (.run w)) {s' : Scheduler W}
    (hmove : Scheduler.Move pool p.s (.run w) s') :
    ({ s := s', pin := p.s.pinAfter s' p.pin (.run w) } : Pinned W).Held pool := by
  have hexist := Scheduler.move_exist h.exist hmove
  have hpin : (∀ ft, (p.s.worker w).pc ≠ .picked (some ft)) →
      p.s.pinAfter s' p.pin (.run w) = p.pin := by
    intro hpc
    unfold Scheduler.pinAfter
    dsimp only
    split
    · rename_i ft f hft _; exact absurd hft (hpc ft)
    · rfl
  cases hmove with
  | stay =>
    rw [pinAfter_same rfl]
    exact h
  | abort _ e =>
    have habort : ((p.s.abort e).worker w).pc = (p.s.worker w).pc := rfl
    rw [pinAfter_same habort]
    exact ⟨hexist, ⟨h.affine.entry, h.affine.fiber⟩, h.queue, h.fresh⟩
  | pop w ft hpc hfind =>
    rw [hpin (by rw [hpc]; simp)]
    exact held_pop h hexist rfl rfl rfl rfl hfind
  | fiber w ft f hpc htask =>
    have hpin' : p.s.pinAfter { p.s.setPc w (.task .enter f .fiber) with
        m_activeThreadCount := p.s.m_activeThreadCount + 1 } p.pin (.run w) = p.pin := by
      simp [Scheduler.pinAfter, hpc, Scheduler.setPc, Scheduler.setWorker]
    rw [hpin']
    refine held_of_keep h hexist rfl rfl (by simp) (Or.inr ?_) rfl
    simp [Scheduler.hand, hpc, Pc.hand, htask, FiberOrcb.fiber?]
  | recycle w ft cb f hpc htask hslot hreset =>
    -- the fiber's task is the callback now, and the entry was for this thread
    have hagrees : p.Agrees pool f ft.thread := by
      simp only [Keeps, RunKeeps, hpc] at hkeeps
      exact hkeeps (by rw [htask]; rfl) f hslot
    have hpinned := held_pin h (h.exist.slot w f hslot) hagrees
    have hpin' : p.s.pinAfter ((p.s.setFiber f (Fiber.reset (some { cb := cb, serial := some ft.serial }
        ))).setPc w (.task .enter f .cb)) p.pin (.run w) = Function.update p.pin f ft.thread := by
      simp [Scheduler.pinAfter, hpc, Scheduler.setPc, Scheduler.setWorker]
    rw [hpin']
    refine held_of_update hpinned hexist rfl le_rfl (fun _ hft => by cases hft) ?_ hpinned.queue
    intro g hg
    cases hg
    simp only [Function.update_self]
    exact (h.affine.entry w ft hpc).imp_right Eq.symm
  | create w ft cb hpc htask hslot =>
    have hpin' : p.s.pinAfter ((p.s.newFiber (some { cb := cb, serial := some ft.serial })).setWorker w
        { p.s.worker w with pc := .task .enter p.s.nfiber .cb, cb_fiber := some p.s.nfiber }) p.pin
        (.run w) = Function.update p.pin p.s.nfiber ft.thread := by
      simp [Scheduler.pinAfter, hpc, Scheduler.setWorker]
    rw [hpin']
    exact held_create h hpc hexist
  | requeue w f hpc =>
    rw [hpin (by rw [hpc]; simp)]
    exact held_of_keep (held_putBack h hpc hkeeps) hexist rfl rfl (by simp) (Or.inl rfl) rfl
  | requeueCb w f hpc =>
    rw [hpin (by rw [hpc]; simp)]
    exact held_of_keep (held_putBack h hpc hkeeps) hexist rfl rfl (by simp) (Or.inl rfl) rfl
  | _ =>
    rw [hpin (by simp [*])]
    refine held_of_keep h hexist rfl rfl (by simp) ?_ rfl
    first
      | exact Or.inl rfl
      | exact Or.inr (by simp [Scheduler.hand, *, Pc.hand])

/-- **A step of the user code that a worker executes.** -/
theorem held_user (h : p.Held pool) {w : W} {u : UserAct} (hkeeps : p.Keeps pool (.user w u)) :
    ({ s := p.s.userStep w u, pin := p.s.pinAfter (p.s.userStep w u) p.pin (.user w u) } :
      Pinned W).Held pool := by
  have hmove : Scheduler.Move pool p.s (.user w u) (p.s.userStep w u) := Scheduler.userStep_move w u
  have hexist := Scheduler.move_exist h.exist hmove
  by_cases hon : ∃ f b, (p.s.worker w).pc = .task .running f b
  · obtain ⟨f, b, hpc⟩ := hon
    have hf : f < p.s.nfiber := h.exist.hand w f (by rw [Scheduler.hand, hpc]; rfl)
    have hhand : p.s.hand w = some f := by rw [Scheduler.hand, hpc]; rfl
    simp only [Scheduler.userStep, hpc] at hexist ⊢
    cases u with
    | call c =>
      simp only [Scheduler.pinAfter, hpc]
      simp only [Keeps, UserKeeps, hpc] at hkeeps
      exact held_call h (some w) hkeeps
    | yieldToHold =>
      simp only [Scheduler.pinAfter, hpc]
      exact held_of_keep h hexist rfl rfl (by simp) (Or.inr hhand.symm) rfl
    | yieldToReady =>
      simp only [Scheduler.pinAfter, hpc]
      exact held_of_keep h hexist rfl rfl (by simp) (Or.inr hhand.symm) rfl
    | finish =>
      simp only [Scheduler.pinAfter, hpc]
      exact held_of_keep (held_unpin h hf) hexist rfl rfl (by simp) (Or.inr hhand.symm) rfl
    | throw =>
      simp only [Scheduler.pinAfter, hpc]
      exact held_of_keep (held_unpin h hf) hexist rfl rfl (by simp) (Or.inr hhand.symm) rfl
  · have hstay : p.s.userStep w u = p.s := by
      unfold Scheduler.userStep
      split
      · rename_i f b hpc; exact absurd ⟨f, b, hpc⟩ hon
      · rfl
    have hpin : p.s.pinAfter p.s p.pin (.user w u) = p.pin := by
      unfold Scheduler.pinAfter
      dsimp only
      split
      · rename_i f b c hpc; exact absurd ⟨f, b, hpc⟩ hon
      · rename_i f b hpc; exact absurd ⟨f, b, hpc⟩ hon
      · rename_i f b hpc; exact absurd ⟨f, b, hpc⟩ hon
      · rfl
    rw [hstay, hpin]
    exact h

/-- **Every step that keeps the pins.** -/
theorem step_held (h : p.Held pool) (a : SchedAct W) (hkeeps : p.s.fault = none → p.Keeps pool a) :
    (step pool p a).Held pool := by
  unfold step
  by_cases hf : p.s.fault = none
  · have hk := hkeeps hf
    have hgo : ¬ p.s.fault.isSome = true := by simp [hf]
    rw [if_neg hgo]
    cases a with
    | run w =>
      have hstep : p.s.step pool (.run w) = p.s.runStep pool w := if_neg hgo
      rw [hstep]
      exact held_run h hk (Scheduler.runStep_move w)
    | user w u =>
      have hstep : p.s.step pool (.user w u) = p.s.userStep w u := if_neg hgo
      rw [hstep]
      exact held_user h hk
    | call c =>
      have hstep : p.s.step pool (.call c) = p.s.call none c := if_neg hgo
      rw [hstep]
      exact held_call h none hk
    | stop =>
      have hstep : p.s.step pool .stop = p.s.stopStep pool := if_neg hgo
      have hframe := Scheduler.stopStep_frame pool p.s
      rw [hstep]
      refine ⟨Scheduler.move_exist h.exist (.stop), ⟨?_, ?_⟩, ?_, ?_⟩
      · simp only [hframe.worker]; exact h.affine.entry
      · simp only [Scheduler.hand, hframe.worker]; exact h.affine.fiber
      · simp only [hframe.fibers]; exact h.queue
      · simp only [hframe.nfiber]; exact h.fresh
  · rw [if_pos (Option.isSome_iff_ne_none.2 hf)]
    exact h

omit [Fintype W] in
theorem init_held (pool : Pool W) : (init pool).Held pool := by
  refine ⟨Scheduler.init_exist pool, ⟨?_, fun _ _ _ => Or.inl rfl⟩, ?_, fun _ _ => rfl⟩
  · intro w ft hft
    rcases Scheduler.init_pc pool w with h | h
    · cases h.symm.trans hft
    · cases h.symm.trans hft
  · intro ft hft
    cases hft

/-- **In every run that pushes no pinned fiber for other workers, tasks stay on the thread they
were scheduled for.** -/
theorem affine {W : Type} [DecidableEq W] [Fintype W] (pool : Pool W) (acts : List (SchedAct W))
    (hkeeps : Along (step pool) (fun p a => p.s.fault = none → p.Keeps pool a) (init pool) acts) :
    ∀ p ∈ trace (step pool) (init pool) acts, p.Affine pool := by
  intro p hp
  exact (trace_inv_of (I := fun p : Pinned W => p.Held pool) (fun _ a h hk => step_held h a hk) acts
    (init_held pool) hkeeps p hp).affine

/-! ## What `run()` puts back -/

instance (pool : Pool W) (thread pin : ℤ) : Decidable (pool.Only thread pin) :=
  inferInstanceAs (Decidable (_ ∨ ∀ _, _))

instance (pool : Pool W) (p : Pinned W) (f : FiberPtr) (thread : ℤ) :
    Decidable (p.Agrees pool f thread) :=
  decidable_of_iff ((∀ ft ∈ p.s.m_fibers, ft.task = .fiber f → pool.Only ft.thread thread) ∧
      ∀ w, p.s.hand w = some f → thread = -1 ∨ pool.tid w = thread)
    ⟨fun h => ⟨h.1, h.2⟩, fun h => ⟨h.queue, h.hand⟩⟩

instance (pool : Pool W) (p : Pinned W) : DecidablePred (p.CallKeeps pool)
  | .scheduler none _ => isTrue trivial
  | .scheduler (some (.cb _)) _ => isTrue trivial
  | .scheduler (some (.fiber f)) thread => inferInstanceAs
      (Decidable (if thread = -1 then pool.Only (-1) (p.pin f) else p.Agrees pool f thread))
  | .batch _ => inferInstanceAs (Decidable (∀ _ ∈ _, ∀ _ ∈ _, _))
  | .newFiber _ => isTrue trivial

instance (pool : Pool W) (p : Pinned W) (slot : Option FiberPtr) : DecidablePred (p.RunKeeps pool slot)
  | .task .requeue _ _ => inferInstanceAs (Decidable (pool.Only _ _))
  | .picked (some _) => inferInstanceAs (Decidable (_ → ∀ _ ∈ _, _))
  | .task .enter _ _ | .task .switch _ _ | .task .running _ _ | .task (.leaving _) _ _
  | .task .back _ _ | .task .fixup _ _ => isTrue trivial
  | .out | .scan | .picked none | .idleIn | .idle | .idleOut | .exited => isTrue trivial

instance (pool : Pool W) (p : Pinned W) (u : UserAct) : DecidablePred (p.UserKeeps pool u)
  | .task .running _ _ =>
    match u with
    | .call c => inferInstanceAs (Decidable (p.CallKeeps pool c))
    | .yieldToHold | .yieldToReady | .finish | .throw => isTrue trivial
  | .task .requeue _ _ | .task .enter _ _ | .task .switch _ _ | .task (.leaving _) _ _
  | .task .back _ _ | .task .fixup _ _ => isTrue trivial
  | .out | .scan | .picked _ | .idleIn | .idle | .idleOut | .exited => isTrue trivial

instance (pool : Pool W) (p : Pinned W) : DecidablePred (p.Keeps pool)
  | .run w => inferInstanceAs (Decidable (p.RunKeeps pool (p.s.worker w).cb_fiber _))
  | .user _ u => inferInstanceAs (Decidable (p.UserKeeps pool u _))
  | .call c => inferInstanceAs (Decidable (p.CallKeeps pool c))
  | .stop => isTrue trivial

/-- A callback is scheduled for thread 101 and one for any thread, which yields; thread 100
runs the second, and thread 101 the first and then the rest of the second. -/
def pinnedAndFree : List (SchedAct Bool) :=
  [.call (.scheduler (some (.cb 7)) 101), .call (.scheduler (some (.cb 8)) (-1)), .run false,
    .run false, .run false, .run false, .user false .yieldToReady, .run false, .run false, .run false,
    .run false, .run true, .run true, .run true, .run true, .user true .finish, .run true, .run true,
    .run true, .run true, .run true, .run true, .run true, .user true .finish]

theorem affine_pinned_and_free :
    (run (step Scheduler.twoThreads) (init Scheduler.twoThreads) pinnedAndFree).Affine
      Scheduler.twoThreads :=
  affine Scheduler.twoThreads pinnedAndFree (by decide) _
    (mem_trace.2 ⟨pinnedAndFree, List.prefix_rfl, rfl⟩)

/-- A callback scheduled for thread 101 runs there and yields, and thread 100 scans. -/
def pinnedYields : List (SchedAct Bool) :=
  [.call (.scheduler (some (.cb 7)) 101), .run true, .run true, .run true, .run true,
    .user true .yieldToReady, .run true, .run true, .run true, .run true, .run false, .run false,
    .run false, .run false]

/-- **The rest of the callback runs on thread 100.** -/
theorem put_back_elsewhere :
    let p := run (step Scheduler.twoThreads) (init Scheduler.twoThreads) pinnedYields
    (p.s.worker false).pc = .task .running 0 .fiber ∧ p.pin 0 = 101 ∧
      Scheduler.twoThreads.tid false = 100 ∧
      ¬ ∀ p ∈ trace (step Scheduler.twoThreads) (init Scheduler.twoThreads) pinnedYields,
        p.Affine Scheduler.twoThreads := by
  intro p
  have hpc : (p.s.worker false).pc = .task .running 0 .fiber := by decide
  have hpin : p.pin 0 = 101 := by decide
  refine ⟨hpc, hpin, by decide, ?_⟩
  intro h
  have haffine : p.Affine Scheduler.twoThreads := h p (mem_trace.2 ⟨pinnedYields, List.prefix_rfl, rfl⟩)
  have hfiber := haffine.fiber false 0 (by rw [Scheduler.hand, hpc]; rfl)
  rw [hpin] at hfiber
  revert hfiber
  decide

end Pinned

end Coroutine
