import Coroutine.Spec.Scheduler
import Mathlib.Data.List.Basic

/-!
# What a step of a scheduler can do

`Move pool s a s'`: one constructor for each thing a step can do, with the guard it was
done under and the state it leaves. `step_move` says that there is nothing else, so that an
invariant is proved by cases on the moves. `StopMove` and `stopStep_move` are the same for the
thread in `stop()`.
-/

namespace Coroutine

namespace Scheduler

variable {W : Type}

/-- **The rule for calls**: what pushing an entry and making a fiber keep, every call keeps. -/
theorem call_inv {I : Scheduler W → Prop} {pusher : Option W}
    (hpush : ∀ s task thread, I s → s.exist task → I (s.push task thread pusher))
    (hnew : ∀ (s : Scheduler W) (cb : Option Callback), I s →
      I (s.newFiber (cb.map fun f => { cb := f, serial := none }))) {s : Scheduler W} (hs : I s)
    (c : SchedCall) : I (s.call pusher c) := by
  have hsched : ∀ s fc thread, I s → I (s.scheduleNoLock fc thread pusher) := by
    intro s fc thread hs
    unfold scheduleNoLock
    split
    · exact hs
    · split
      · rename_i task hex; exact hpush s task thread hs hex
      · exact hs
  cases c with
  | scheduler fc thread => exact hsched s fc thread hs
  | newFiber cb => exact hnew s _ hs
  | batch fcs =>
    simp only [call]
    induction fcs generalizing s with
    | nil => exact hs
    | cons fc fcs ih => exact ih (hsched s fc (-1) hs)

/-- What calls of user code leave alone. -/
structure CallFrame (s s' : Scheduler W) : Prop where
  worker : s'.worker = s.worker
  active : s'.m_activeThreadCount = s.m_activeThreadCount
  stopPc : s'.stopPc = s.stopPc
  autoStop : s'.m_autoStop = s.m_autoStop
  stopping : s'.m_stopping = s.m_stopping
  popped : s'.popped = s.popped
  started : s'.started = s.started

/-- A call changes no fiber, but may make one. -/
theorem call_fiber (s : Scheduler W) (pusher : Option W) (c : SchedCall) (g : FiberPtr) :
    (s.call pusher c).fiber g = s.fiber g ∨ s.nfiber ≤ g ∧ ∃ cb : Option Callback,
      (s.call pusher c).fiber g = Fiber.reset (cb.map fun f => { cb := f, serial := none }) := by
  refine (call_inv (I := fun t => s.nfiber ≤ t.nfiber ∧ (t.fiber g = s.fiber g ∨ s.nfiber ≤ g ∧
    ∃ cb : Option Callback, t.fiber g = Fiber.reset (cb.map fun f => { cb := f, serial := none })))
    (fun _ _ _ h _ => h) ?_ ⟨le_rfl, Or.inl rfl⟩ c).2
  rintro t cb ⟨hle, h⟩
  refine ⟨Nat.le_succ_of_le hle, ?_⟩
  by_cases hg : g = t.nfiber
  · subst hg
    exact Or.inr ⟨hle, cb, Function.update_self ..⟩
  · simp only [newFiber, setFiber, Function.update_of_ne hg]
    exact h

theorem call_frame (s : Scheduler W) (pusher : Option W) (c : SchedCall) :
    CallFrame s (s.call pusher c) := by
  refine call_inv (I := CallFrame s) ?_ ?_ ⟨rfl, rfl, rfl, rfl, rfl, rfl, rfl⟩ c
  · intro t task thread h _
    exact ⟨h.worker, h.active, h.stopPc, h.autoStop, h.stopping, h.popped, h.started⟩
  · intro t cb h
    exact ⟨h.worker, h.active, h.stopPc, h.autoStop, h.stopping, h.popped, h.started⟩

variable [DecidableEq W]

theorem init_pc (pool : Pool W) (w : W) :
    ((init pool).worker w).pc = .out ∨ ((init pool).worker w).pc = .scan := by
  show (if _ then _ else _) = Pc.out ∨ (if _ then _ else _) = Pc.scan
  split
  · exact Or.inl rfl
  · exact Or.inr rfl

/-- **The moves.** -/
inductive Move [Fintype W] (pool : Pool W) (s : Scheduler W) : SchedAct W → Scheduler W → Prop
  | stay (a : SchedAct W) : Move pool s a s
  | abort (a : SchedAct W) (e : Fault) : Move pool s a (s.abort e)
  | callOut (c : SchedCall) : Move pool s (.call c) (s.call none c)
  | stop : Move pool s .stop (s.stopStep pool)
  | begin (w : W) (hpc : (s.worker w).pc = .out) (hroot : pool.root = some w)
      (hcall : s.stopPc = .call) : Move pool s (.run w) (s.setPc w .scan)
  -- the section under the mutex
  | miss (w : W) (hpc : (s.worker w).pc = .scan)
      (hfind : s.m_fibers.find? (s.takes (pool.tid w)) = none) :
      Move pool s (.run w) (s.setPc w (.picked none))
  | pop (w : W) (ft : FiberAndThread W) (hpc : (s.worker w).pc = .scan)
      (hfind : s.m_fibers.find? (s.takes (pool.tid w)) = some ft) :
      Move pool s (.run w) { s.setPc w (.picked (some ft)) with
        m_fibers := s.m_fibers.eraseP (s.takes (pool.tid w))
        m_activeThreadCount := s.m_activeThreadCount + 1
        popped := s.popped ++ [ft] }
  -- the branches
  | fiber (w : W) (ft : FiberAndThread W) (f : FiberPtr) (hpc : (s.worker w).pc = .picked (some ft))
      (htask : ft.task = .fiber f) :
      Move pool s (.run w) { s.setPc w (.task .enter f .fiber) with
        m_activeThreadCount := s.m_activeThreadCount + 1 }
  | recycle (w : W) (ft : FiberAndThread W) (cb : Callback) (f : FiberPtr)
      (hpc : (s.worker w).pc = .picked (some ft)) (htask : ft.task = .cb cb)
      (hslot : (s.worker w).cb_fiber = some f) (hreset : (s.fiber f).resettable) :
      Move pool s (.run w) ((s.setFiber f
        (Fiber.reset (some { cb := cb, serial := some ft.serial }))).setPc w (.task .enter f .cb))
  | create (w : W) (ft : FiberAndThread W) (cb : Callback) (hpc : (s.worker w).pc = .picked (some ft))
      (htask : ft.task = .cb cb) (hslot : (s.worker w).cb_fiber = none) :
      Move pool s (.run w) ((s.newFiber (some { cb := cb, serial := some ft.serial })).setWorker w
        { s.worker w with pc := .task .enter s.nfiber .cb, cb_fiber := some s.nfiber })
  -- executing a fiber
  | enter (w : W) (f : FiberPtr) (b : Branch) (hpc : (s.worker w).pc = .task .enter f b)
      (hstate : (s.fiber f).m_state ≠ .EXEC) :
      Move pool s (.run w) ((s.setState f .EXEC).setPc w (.task .switch f b))
  | start (w : W) (f : FiberPtr) (b : Branch) (job : Job)
      (hpc : (s.worker w).pc = .task .switch f b) (hctx : (s.fiber f).m_ctx = .entry)
      (hjob : (s.fiber f).m_cb = some job) :
      Move pool s (.run w)
        { s.setPc w (.task .running f b) with started := s.started ++ job.serial.toList }
  | startEmpty (w : W) (f : FiberPtr) (b : Branch) (hpc : (s.worker w).pc = .task .switch f b)
      (hctx : (s.fiber f).m_ctx = .entry) (hjob : (s.fiber f).m_cb = none) :
      Move pool s (.run w) ((s.setState f .EXCEPT).setPc w (.task (.leaving .ended) f b))
  | resume (w : W) (f : FiberPtr) (b : Branch) (hpc : (s.worker w).pc = .task .switch f b)
      (hctx : (s.fiber f).m_ctx = .saved) : Move pool s (.run w) (s.setPc w (.task .running f b))
  | callIn (w : W) (f : FiberPtr) (b : Branch) (c : SchedCall)
      (hpc : (s.worker w).pc = .task .running f b) :
      Move pool s (.user w (.call c)) (s.call (some w) c)
  | yield (w : W) (u : UserAct) (f : FiberPtr) (b : Branch) (st : FiberState)
      (hpc : (s.worker w).pc = .task .running f b) (hst : st = .HOLD ∨ st = .READY) :
      Move pool s (.user w u) ((s.setState f st).setPc w (.task (.leaving .saved) f b))
  | finish (w : W) (f : FiberPtr) (b : Branch) (hpc : (s.worker w).pc = .task .running f b) :
      Move pool s (.user w .finish) ((s.setFiber f
        { s.fiber f with m_state := .TERM, m_cb := none }).setPc w (.task (.leaving .ended) f b))
  | throw (w : W) (f : FiberPtr) (b : Branch) (hpc : (s.worker w).pc = .task .running f b) :
      Move pool s (.user w .throw) ((s.setState f .EXCEPT).setPc w (.task (.leaving .ended) f b))
  | save (w : W) (f : FiberPtr) (b : Branch) (ctx : Ctx)
      (hpc : (s.worker w).pc = .task (.leaving ctx) f b) :
      Move pool s (.run w)
        ((s.setFiber f { s.fiber f with m_ctx := ctx }).setPc w (.task .back f b))
  | back (w : W) (f : FiberPtr) (b : Branch) (hpc : (s.worker w).pc = .task .back f b) :
      Move pool s (.run w) { s.setPc w (.task .fixup f b) with
        m_activeThreadCount := s.m_activeThreadCount - 1 }
  -- the fix-up after `swapIn`
  | ready (w : W) (f : FiberPtr) (b : Branch) (hpc : (s.worker w).pc = .task .fixup f b)
      (hstate : (s.fiber f).m_state = .READY) :
      Move pool s (.run w) (s.setPc w (.task .requeue f b))
  | drop (w : W) (f : FiberPtr) (hpc : (s.worker w).pc = .task .fixup f .fiber)
      (hstate : (s.fiber f).m_state = .TERM ∨ (s.fiber f).m_state = .EXCEPT) :
      Move pool s (.run w) (s.setPc w .scan)
  | clear (w : W) (f : FiberPtr) (hpc : (s.worker w).pc = .task .fixup f .cb)
      (hstate : (s.fiber f).m_state = .TERM ∨ (s.fiber f).m_state = .EXCEPT) :
      Move pool s (.run w) ((s.setFiber f (Fiber.reset none)).setPc w .scan)
  | hold (w : W) (f : FiberPtr) (hpc : (s.worker w).pc = .task .fixup f .fiber)
      (hterm : (s.fiber f).m_state ≠ .TERM) (hexcept : (s.fiber f).m_state ≠ .EXCEPT) :
      Move pool s (.run w) ((s.setState f .HOLD).setPc w .scan)
  | holdCb (w : W) (f : FiberPtr) (hpc : (s.worker w).pc = .task .fixup f .cb)
      (hterm : (s.fiber f).m_state ≠ .TERM) (hexcept : (s.fiber f).m_state ≠ .EXCEPT) :
      Move pool s (.run w)
        ((s.setState f .HOLD).setWorker w { s.worker w with pc := .scan, cb_fiber := none })
  | requeue (w : W) (f : FiberPtr) (hpc : (s.worker w).pc = .task .requeue f .fiber) :
      Move pool s (.run w) ((s.push (.fiber f) (-1) none).setPc w .scan)
  | requeueCb (w : W) (f : FiberPtr) (hpc : (s.worker w).pc = .task .requeue f .cb) :
      Move pool s (.run w) ((s.push (.fiber f) (-1) none).setWorker w
        { s.worker w with pc := .scan, cb_fiber := none })
  -- nothing to do
  | exit (w : W) (hpc : (s.worker w).pc = .picked none) (hidle : (s.worker w).idle = .TERM) :
      Move pool s (.run w) (s.setPc w .exited)
  | idleIn (w : W) (hpc : (s.worker w).pc = .picked none) (hidle : (s.worker w).idle ≠ .TERM) :
      Move pool s (.run w)
        { s.setPc w .idleIn with m_idleThreadCount := s.m_idleThreadCount + 1 }
  | idle (w : W) (hpc : (s.worker w).pc = .idleIn) :
      Move pool s (.run w) (s.setWorker w { s.worker w with pc := .idle, idle := .EXEC })
  | idleStop (w : W) (hpc : (s.worker w).pc = .idle) (hstop : s.stopping) :
      Move pool s (.run w) (s.setWorker w { s.worker w with pc := .idleOut, idle := .TERM })
  | idleYield (w : W) (hpc : (s.worker w).pc = .idle) :
      Move pool s (.run w) (s.setWorker w { s.worker w with pc := .idleOut, idle := .HOLD })
  | idleOut (w : W) (hpc : (s.worker w).pc = .idleOut) :
      Move pool s (.run w)
        { s.setPc w .scan with m_idleThreadCount := s.m_idleThreadCount - 1 }

variable [Fintype W] {pool : Pool W} {s s' : Scheduler W} {a : SchedAct W}

/-- What a step of the thread in `stop()` leaves alone. -/
structure StopFrame (s s' : Scheduler W) : Prop where
  worker : s'.worker = s.worker
  active : s'.m_activeThreadCount = s.m_activeThreadCount
  fibers : s'.m_fibers = s.m_fibers
  fiber : s'.fiber = s.fiber
  nfiber : s'.nfiber = s.nfiber
  pushed : s'.pushed = s.pushed
  popped : s'.popped = s.popped
  started : s'.started = s.started

theorem stopStep_frame (pool : Pool W) (s : Scheduler W) : StopFrame s (s.stopStep pool) := by
  unfold stopStep
  split <;> first
    | exact ⟨rfl, rfl, rfl, rfl, rfl, rfl, rfl, rfl⟩
    | (split <;> exact ⟨rfl, rfl, rfl, rfl, rfl, rfl, rfl, rfl⟩)

/-- After a step of `stop()` it has been called. -/
theorem stopStep_called (pool : Pool W) (s : Scheduler W) : (s.stopStep pool).stopPc ≠ .out := by
  unfold stopStep
  cases hpc : s.stopPc <;> dsimp only <;> first
    | (split <;> simp [hpc])
    | simp [hpc]

/-- It sets `m_autoStop` first. -/
theorem stopStep_autoStop (h : s.stopPc ≠ .out → s.m_autoStop = true) :
    (s.stopStep pool).m_autoStop = true := by
  unfold stopStep
  cases hpc : s.stopPc <;> dsimp only <;> first
    | exact h (by rw [hpc]; decide)
    | (split <;> exact h (by rw [hpc]; decide))

/-- **The steps of `stop()`**: from where to where, and when. -/
inductive StopMove (pool : Pool W) (s : Scheduler W) : Scheduler W → Prop
  | begin (hpc : s.stopPc = .out) (hcaller : ¬ (pool.root.isSome ∧ ∀ w, pool.root = some w)) :
      StopMove pool s { s with m_autoStop := true, stopPc := .mark }
  | beginEarly (hpc : s.stopPc = .out) (hcaller : pool.root.isSome ∧ ∀ w, pool.root = some w) :
      StopMove pool s { s with m_autoStop := true, stopPc := .early }
  | markEarly (hpc : s.stopPc = .early) :
      StopMove pool s { s with m_stopping := true, stopPc := .earlyTest }
  | testEarly (hpc : s.stopPc = .earlyTest) (hstop : s.stopping) :
      StopMove pool s { s with stopPc := .done }
  | missEarly (hpc : s.stopPc = .earlyTest) (hstop : ¬ s.stopping) :
      StopMove pool s { s with stopPc := .mark }
  | mark (hpc : s.stopPc = .mark) (hcaller : pool.root.isSome) :
      StopMove pool s { s with m_stopping := true, stopPc := .test }
  | markThreads (hpc : s.stopPc = .mark) (hcaller : ¬ pool.root.isSome) :
      StopMove pool s { s with m_stopping := true, stopPc := .join }
  | test (hpc : s.stopPc = .test) (hstop : s.stopping) : StopMove pool s { s with stopPc := .join }
  | miss (hpc : s.stopPc = .test) (hstop : ¬ s.stopping) : StopMove pool s { s with stopPc := .call }
  | call (hpc : s.stopPc = .call) (hexit : ∀ w, pool.root = some w → (s.worker w).pc = .exited) :
      StopMove pool s { s with stopPc := .join }
  | join (hpc : s.stopPc = .join) (hexit : ∀ w, pool.root = some w ∨ (s.worker w).pc = .exited) :
      StopMove pool s { s with stopPc := .done }
  | wait (hpc : s.stopPc = .call ∨ s.stopPc = .join ∨ s.stopPc = .done) : StopMove pool s s

theorem stopStep_move (pool : Pool W) (s : Scheduler W) : StopMove pool s (s.stopStep pool) := by
  unfold stopStep
  cases hpc : s.stopPc with
  | out =>
    dsimp only
    split
    · rename_i hcaller
      exact .beginEarly hpc hcaller
    · rename_i hcaller
      exact .begin hpc hcaller
  | early => exact .markEarly hpc
  | earlyTest =>
    dsimp only
    split
    · rename_i hstop
      exact .testEarly hpc hstop
    · rename_i hstop
      exact .missEarly hpc hstop
  | mark =>
    dsimp only
    split
    · rename_i hcaller
      exact .mark hpc hcaller
    · rename_i hcaller
      exact .markThreads hpc hcaller
  | test =>
    dsimp only
    split
    · rename_i hstop
      exact .test hpc hstop
    · rename_i hstop
      exact .miss hpc hstop
  | call =>
    dsimp only
    split
    · rename_i hexit
      exact .call hpc hexit
    · exact .wait (.inl hpc)
  | join =>
    dsimp only
    split
    · rename_i hexit
      exact .join hpc hexit
    · exact .wait (.inr (.inl hpc))
  | done => exact .wait (.inr (.inr hpc))

theorem fixup_move (w : W) (f : FiberPtr) (b : Branch)
    (hpc : (s.worker w).pc = .task .fixup f b) : Move pool s (.run w) (s.fixup w f b) := by
  unfold fixup
  split
  · rename_i h; exact .ready w f _ hpc h
  · rename_i h; exact .drop w f hpc (Or.inl h)
  · rename_i h; exact .drop w f hpc (Or.inr h)
  · rename_i h; exact .clear w f hpc (Or.inl h)
  · rename_i h; exact .clear w f hpc (Or.inr h)
  · rename_i hr ht he; exact .hold w f hpc ht he
  · rename_i hr ht he; exact .holdCb w f hpc ht he

theorem take_move (w : W) (ft : FiberAndThread W) (hpc : (s.worker w).pc = .picked (some ft)) :
    Move pool s (.run w) (s.take w ft) := by
  unfold take
  split
  · rename_i f htask
    -- a state is never both `TERM` and `EXCEPT`: the guard lets every fiber through
    have hguard : (s.fiber f).m_state ≠ .TERM ∨ (s.fiber f).m_state ≠ .EXCEPT := by
      cases (s.fiber f).m_state <;> simp
    rw [if_pos hguard]
    exact .fiber w ft f hpc htask
  · rename_i cb htask
    dsimp only
    split
    · rename_i f hslot
      split
      · rename_i hreset; exact .recycle w ft cb f hpc htask hslot hreset
      · exact .abort _ _
    · rename_i hslot; exact .create w ft cb hpc htask hslot

theorem execute_move (w : W) (f : FiberPtr) (b : Branch) (stage : Stage)
    (hpc : (s.worker w).pc = .task stage f b) : Move pool s (.run w) (s.execute w f b stage) := by
  cases stage with
  | enter =>
    simp only [execute]
    split
    · exact .abort _ _
    · rename_i hstate; exact .enter w f b hpc hstate
  | switch =>
    simp only [execute, switch]
    split
    · rename_i hctx
      split
      · rename_i job hjob; exact .start w f b job hpc hctx hjob
      · rename_i hjob; exact .startEmpty w f b hpc hctx hjob
    · rename_i hctx; exact .resume w f b hpc hctx
    · exact .abort _ _
  | running => exact .stay _
  | leaving ctx => exact .save w f b ctx hpc
  | back => exact .back w f b hpc
  | fixup => exact fixup_move w f b hpc
  | requeue =>
    cases b with
    | fiber => exact .requeue w f hpc
    | cb => exact .requeueCb w f hpc

theorem runStep_move (w : W) : Move pool s (.run w) (s.runStep pool w) := by
  unfold runStep
  split
  · rename_i hpc
    split
    · rename_i h; exact .begin w hpc h.2 h.1
    · exact .stay _
  · exact .stay _
  · rename_i hpc
    unfold scan
    split
    · rename_i hfind; exact .miss w hpc hfind
    · rename_i ft hfind; exact .pop w ft hpc hfind
  · rename_i ft hpc; exact take_move w ft hpc
  · rename_i hpc
    split
    · rename_i hidle; exact .exit w hpc hidle
    · rename_i hidle; exact .idleIn w hpc hidle
  · rename_i stage f b hpc; exact execute_move w f b stage hpc
  · rename_i hpc; exact .idle w hpc
  · rename_i hpc
    by_cases hstop : s.stopping
    · rw [if_pos hstop]; exact .idleStop w hpc hstop
    · rw [if_neg hstop]; exact .idleYield w hpc
  · rename_i hpc; exact .idleOut w hpc

theorem userStep_move (w : W) (u : UserAct) : Move pool s (.user w u) (s.userStep w u) := by
  unfold userStep
  split
  · rename_i f b hpc
    cases u with
    | yieldToHold => exact .yield w _ f b .HOLD hpc (Or.inl rfl)
    | yieldToReady => exact .yield w _ f b .READY hpc (Or.inr rfl)
    | finish => exact .finish w f b hpc
    | throw => exact .throw w f b hpc
    | call c => exact .callIn w f b c hpc
  · exact .stay _

theorem step_of_fault (h : s.fault ≠ none) (a : SchedAct W) : step pool s a = s :=
  if_pos (Option.isSome_iff_ne_none.2 h)

theorem step_run (h : s.fault = none) (w : W) : s.step pool (.run w) = s.runStep pool w := by
  unfold step
  rw [h]
  rfl

theorem step_user (h : s.fault = none) (w : W) (u : UserAct) :
    s.step pool (.user w u) = s.userStep w u := by
  unfold step
  rw [h]
  rfl

theorem step_call (h : s.fault = none) (c : SchedCall) : s.step pool (.call c) = s.call none c := by
  unfold step
  rw [h]
  rfl

theorem step_stop (h : s.fault = none) : s.step pool .stop = s.stopStep pool := by
  unfold step
  rw [h]
  rfl

/-- A step of one worker in `run()` moves no other. -/
theorem move_other {w v : W} (h : Move pool s (.run w) s') (hv : v ≠ w) :
    s'.worker v = s.worker v := by
  cases h with
  | stay => rfl
  | abort => rfl
  | _ => exact Function.update_of_ne hv _ _

/-- Only the thread in `stop()` sets the flags, and it alone moves in `stop()`. -/
theorem move_flags (h : Move pool s a s') : (a = .stop ∧ s' = s.stopStep pool) ∨
    (s'.stopPc = s.stopPc ∧ s'.m_autoStop = s.m_autoStop ∧ s'.m_stopping = s.m_stopping) := by
  cases h with
  | stop => exact Or.inl ⟨rfl, rfl⟩
  | callOut c =>
    have hf := call_frame s none c
    exact Or.inr ⟨hf.stopPc, hf.autoStop, hf.stopping⟩
  | callIn w f b c hpc =>
    have hf := call_frame s (some w) c
    exact Or.inr ⟨hf.stopPc, hf.autoStop, hf.stopping⟩
  | _ => exact Or.inr ⟨rfl, rfl, rfl⟩

/-- **Every step is one of the moves.** -/
theorem step_move (pool : Pool W) (s : Scheduler W) (a : SchedAct W) :
    Move pool s a (step pool s a) := by
  unfold step
  split
  · exact .stay a
  · cases a with
    | run w => exact runStep_move w
    | user w u => exact userStep_move w u
    | call c => exact .callOut c
    | stop => exact .stop

end Scheduler

end Coroutine
