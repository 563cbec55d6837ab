import Coroutine.Lib.Run
import Coroutine.Proof.SchedulerCount
import Coroutine.Proof.SchedulerStates
import Coroutine.Spec.SchedulerRecycle

/-!
# Recycling the callback fiber

The worker that recycles its callback fiber and the one that makes a new fiber for each callback
take the same input, in lockstep.

* `step_s`: each of them is the scheduler of the model, with the handles for the names.
* `InStep`: they agree on everything but the fibers, and each fiber of the first looks like
  the one its body has in the second. About the bodies that had the fiber earlier it says nothing.
* `step_inStep`: so they stay in step while no entry is taken whose fiber is for another body by
  now, and `unobservable` reads it off.
-/

namespace Coroutine

open Lib Scheduler

namespace Bodies

variable {pool : Pool Unit} {x y : Bodies} {recycle : Bool}

/-- **The entry that the step takes**, if any, has the handle of the body that its fiber is for. -/
def NotStale (pool : Pool Unit) (x : Bodies) : SchedAct Unit → Prop
  | .run _ => x.pc = .scan → ∀ ft ∈ x.s.m_fibers.find? (x.s.takes (pool.tid ())),
      ∀ f ∈ ft.task.fiber?, x.body f = x.entry ft.serial
  | _ => True

instance (pool : Pool Unit) (x : Bodies) : DecidablePred (NotStale pool x)
  | .run _ => inferInstanceAs (Decidable (x.pc = .scan → ∀ ft ∈ x.s.m_fibers.find? _,
      ∀ f ∈ ft.task.fiber?, x.body f = x.entry ft.serial))
  | .user .. => inferInstanceAs (Decidable True)
  | .call _ => inferInstanceAs (Decidable True)
  | .stop => inferInstanceAs (Decidable True)

/-- The user code that executes is that of the body whose handle was taken. -/
def OwnBody (x : Bodies) : Prop := ∀ f b, x.pc = .task .running f b → x.body f = x.hand

/-- The next step resets a fiber that may not be reset. -/
def ResetFails (x : Bodies) : Prop :=
  ∃ ft f c, x.pc = .picked (some ft) ∧ ft.task = .cb f ∧ (x.s.worker ()).cb_fiber = some c ∧
    ¬ (x.s.fiber c).resettable

/-- **Recycling is unobservable**: the same steps of user code, the same callbacks started, the
same end of the process, each step of user code one of the body whose handle was taken, and no
failed `reset`. -/
structure Unobservable (pool : Pool Unit) (acts : List (SchedAct Unit)) : Prop where
  log : (run (step true pool) (init pool) acts).log = (run (step false pool) (init pool) acts).log
  started : (run (step true pool) (init pool) acts).s.started =
    (run (step false pool) (init pool) acts).s.started
  fault : (run (step true pool) (init pool) acts).s.fault =
    (run (step false pool) (init pool) acts).s.fault
  own : ∀ x ∈ trace (step true pool) (init pool) acts, x.OwnBody
  reset : ∀ x ∈ trace (step true pool) (init pool) acts, ¬ x.ResetFails

/-! ## The scheduler -/

/-- The scheduler before the step: without the callback fiber, where it is not recycled. -/
def before (recycle : Bool) (x : Bodies) : SchedAct Unit → Scheduler Unit
  | .run _ =>
    match x.pc with
    | .picked (some { task := .cb _, .. }) =>
      x.s.setWorker () { x.s.worker () with
        cb_fiber := if recycle then (x.s.worker ()).cb_fiber else none }
    | _ => x.s
  | _ => x.s

theorem scheduleNoLock_s (x : Bodies) (pusher : Option Unit) (fc : Option FiberOrcb) (thread : ℤ) :
    (x.scheduleNoLock pusher fc thread).s = x.s.scheduleNoLock (x.actual fc) thread pusher := by
  unfold scheduleNoLock actual
  cases fc with
  | none => rfl
  | some task => by_cases hknown : x.known task <;> simp [hknown, Scheduler.scheduleNoLock]

/-- What is named is the same after a push. -/
theorem scheduleNoLock_actual (x : Bodies) (pusher : Option Unit) (fc : Option FiberOrcb)
    (thread : ℤ) : (x.scheduleNoLock pusher fc thread).actual = x.actual := by
  unfold scheduleNoLock
  split
  · rfl
  · split <;> rfl

theorem call_s (x : Bodies) (pusher : Option Unit) (c : SchedCall) :
    (x.call pusher c).s = x.s.call pusher (x.actualCall c) := by
  cases c with
  | scheduler fc thread => exact scheduleNoLock_s x pusher fc thread
  | newFiber cb => rfl
  | batch fcs =>
    show (fcs.foldl _ x).s = (fcs.map x.actual).foldl _ x.s
    induction fcs generalizing x with
    | nil => rfl
    | cons fc fcs ih =>
      rw [List.foldl_cons, ih, List.map_cons, List.foldl_cons, scheduleNoLock_s,
        scheduleNoLock_actual]

theorem before_fault (x : Bodies) (a : SchedAct Unit) : (x.before recycle a).fault = x.s.fault := by
  unfold before
  split
  · split <;> rfl
  · rfl

theorem take_s (pool : Pool Unit) (x : Bodies) (ft : FiberAndThread Unit) (hpc : x.pc = .picked (some ft)) :
    (x.take recycle ft).s = (x.before recycle (.run ())).runStep pool () := by
  obtain ⟨task, thread, serial, early, pusher⟩ := ft
  cases task with
  | fiber f =>
    have hbefore : x.before recycle (.run ()) = x.s := by simp [before, hpc]
    have hpc' : (x.s.worker ()).pc = _ := hpc
    rw [hbefore, Scheduler.runStep, hpc']
    rfl
  | cb f =>
    have hpc' : (x.s.worker ()).pc = _ := hpc
    have hbefore : x.before recycle (.run ()) = x.s.setWorker () { x.s.worker () with
        cb_fiber := if recycle then (x.s.worker ()).cb_fiber else none } := by simp [before, hpc]
    have hpc'' : ((x.before recycle (.run ())).worker ()).pc =
        .picked (some ⟨.cb f, thread, serial, early, pusher⟩) := by
      rw [hbefore]
      simpa [setWorker] using hpc'
    rw [Scheduler.runStep, hpc'']
    dsimp only
    rw [hbefore]
    rfl

/-- **The step is the scheduler's**, on what the names stand for. -/
theorem step_s (x : Bodies) (a : SchedAct Unit) (hfault : x.s.fault = none) :
    (x.step recycle pool a).s = (x.before recycle a).step pool (x.actualAct a) := by
  have hbefore : (x.before recycle a).fault.isSome = false := by rw [before_fault, hfault]; rfl
  have hsome : x.s.fault.isSome = false := by rw [hfault]; rfl
  unfold step Scheduler.step
  rw [hbefore, hsome, if_neg Bool.false_ne_true, if_neg Bool.false_ne_true]
  cases a with
  | call c => exact call_s x none c
  | stop => rfl
  | user w u =>
    show (x.userStep u).s = _
    unfold userStep
    split
    · rename_i f b hpc
      have hpc' : (x.s.worker ()).pc = .task .running f b := hpc
      cases u with
      | call c =>
        refine (call_s _ _ c).trans ?_
        show _ = x.s.userStep () (.call (x.actualCall c))
        rw [Scheduler.userStep, hpc']
        rfl
      | _ => rfl
    · rename_i hno
      have hstay : ∀ u, x.s = x.s.userStep () u := by
        intro u
        unfold Scheduler.userStep
        split
        · rename_i f b hpc; exact absurd hpc (hno f b)
        · rfl
      cases u <;> exact hstay _
  | run w =>
    show (x.runStep recycle pool).s = (x.before recycle (.run ())).runStep pool ()
    unfold runStep
    split
    · rename_i hpc
      rw [before, hpc]
    · rename_i ft hpc
      exact take_s pool x ft hpc
    · rename_i hpc
      rw [before, hpc]
    · rename_i hno hpick hno'
      have hbefore : x.before recycle (.run ()) = x.s := by
        unfold before
        dsimp only
        split
        · rename_i hpc; exact absurd hpc (hpick _)
        · rfl
      rw [hbefore]

/-- What the scheduler keeps, with one worker. -/
structure Fit (s : Scheduler Unit) : Prop where
  exist : s.Exist
  sound : s.Sound
  states : s.States

/-- The worker may forget its callback fiber while it has an entry in hand. -/
theorem fit_forget {s : Scheduler Unit} (h : Fit s) {ft : Option (FiberAndThread Unit)}
    (hpc : s.here = .picked ft) {o : Option FiberPtr}
    (ho : ∀ c, o = some c → (s.worker ()).cb_fiber = some c) :
    Fit (s.setWorker () { s.worker () with cb_fiber := o }) := by
  have hworker : ∀ w, (s.setWorker () { s.worker () with cb_fiber := o }).worker w =
      { s.worker w with cb_fiber := o } := fun _ => rfl
  have hpc' : ∀ w, (s.worker w).pc = .picked ft := fun _ => hpc
  refine ⟨⟨h.exist.hand, fun w c hc => h.exist.slot w c (ho c hc), h.exist.queue⟩,
    ⟨h.sound.on, h.sound.midway, h.sound.ended, ?_, fun w w' _ _ _ => Subsingleton.elim w w', ?_⟩,
    h.states.waiting, h.states.entered, h.states.exec, h.states.ready, h.states.ending⟩
  · intro w f hown
    rw [hworker] at hown
    rw [hpc' w] at hown
    cases hown
  · intro w f hslot _
    have hown : (s.worker w).pc.own ≠ some f := by rw [hpc' w]; nofun
    obtain ⟨hcb, hquiet⟩ := h.sound.spare w f (ho f hslot) hown
    exact ⟨hcb, hquiet.ctx, hquiet.midway⟩

theorem before_fit (h : Fit x.s) (a : SchedAct Unit) : Fit (x.before recycle a) := by
  unfold before
  split
  · split
    · rename_i hpc
      refine fit_forget h hpc fun c hc => ?_
      cases recycle with
      | true => exact hc
      | false => cases hc
    · exact h
  · exact h

/-- Every step keeps it, recycling or not. -/
theorem step_fit (h : Fit x.s) (a : SchedAct Unit) : Fit (x.step recycle pool a).s := by
  by_cases hfault : x.s.fault = none
  · rw [step_s x a hfault]
    have hb := @before_fit x recycle h a
    have hmove := step_move pool (x.before recycle a) (x.actualAct a)
    exact ⟨move_exist hb.exist hmove, move_sound hb.exist hb.sound hmove (switchesAlone_unit _ _),
      move_states hb.states hb.exist hmove⟩
  · have hstay : x.step recycle pool a = x := if_pos (Option.isSome_iff_ne_none.2 hfault)
    rw [hstay]
    exact h

theorem init_fit (pool : Pool Unit) : Fit (init pool).s :=
  ⟨init_exist pool, init_sound pool, init_states pool⟩

/-- **No `reset` fails.** -/
theorem not_resetFails (h : Fit x.s) : ¬ x.ResetFails := by
  rintro ⟨ft, f, c, hpc, -, hslot, hnot⟩
  exact hnot (resettable_of_picked h.sound h.states hpc hslot)

/-! ## In step -/

/-- An entry, with the body for the fiber. -/
def nameOf (x : Bodies) (ft : FiberAndThread Unit) : FiberAndThread Unit :=
  { ft with
    task := match ft.task with
      | .fiber _ => .fiber (x.entry ft.serial)
      | .cb f => .cb f }

/-- Where the worker stands, with bodies for fibers. -/
def namePc (x : Bodies) : Pc Unit → Pc Unit
  | .picked (some ft) => .picked (some (x.nameOf ft))
  | .task stage f b => .task stage (x.body f) b
  | pc => pc

/-- What the fibers do not show in. -/
def shared (s : Scheduler Unit) :
    (ℕ × ℕ × Bool × Bool) × StopPc × Option Fault × ℕ × List ℕ × FiberState :=
  ((s.m_activeThreadCount, s.m_idleThreadCount, s.m_stopping, s.m_autoStop), s.stopPc, s.fault,
    s.pushed.length, s.started, (s.worker ()).idle)

theorem shared_iff {s t : Scheduler Unit} : shared t = shared s ↔
    (t.m_activeThreadCount = s.m_activeThreadCount ∧ t.m_idleThreadCount = s.m_idleThreadCount ∧
      t.m_stopping = s.m_stopping ∧ t.m_autoStop = s.m_autoStop) ∧ t.stopPc = s.stopPc ∧
    t.fault = s.fault ∧ t.pushed.length = s.pushed.length ∧ t.started = s.started ∧
    (t.worker ()).idle = (s.worker ()).idle := by
  simp only [shared, Prod.mk.injEq]

theorem shared_setWorker (s : Scheduler Unit) {w : Worker Unit}
    (hidle : w.idle = (s.worker ()).idle) : shared (s.setWorker () w) = shared s := by
  rw [shared_iff]
  exact ⟨⟨rfl, rfl, rfl, rfl⟩, rfl, rfl, rfl, rfl, hidle⟩

theorem shared_newFiber (s : Scheduler Unit) (job : Option Job) :
    shared (s.newFiber job) = shared s := rfl

theorem shared_setFiber (s : Scheduler Unit) (f : FiberPtr) (fiber : Fiber) :
    shared (s.setFiber f fiber) = shared s := rfl

/-- Whose handle the worker has. -/
def HandOk (x : Bodies) : Pc Unit → Prop
  | .picked (some ft) => ft.serial < x.s.pushed.length ∧
      ∀ f, ft.task = .fiber f → x.body f = x.entry ft.serial ∧ x.hand = x.entry ft.serial
  | .task _ f _ => x.body f = x.hand
  | _ => True

/-- **What the worker has in hand stays its own** where the entries made so far keep their names, and
the fibers in hand their bodies. -/
theorem HandOk.congr {x x' : Bodies} {pc : Pc Unit} (h : x.HandOk pc)
    (hpushed : x.s.pushed.length ≤ x'.s.pushed.length) (hhand : x'.hand = x.hand)
    (hentry : ∀ i < x.s.pushed.length, x'.entry i = x.entry i)
    (hpicked : ∀ ft f, pc = .picked (some ft) → ft.task = .fiber f → x'.body f = x.body f)
    (htask : ∀ stage f b, pc = .task stage f b → x'.body f = x.body f) : x'.HandOk pc := by
  cases pc with
  | picked ft =>
    cases ft with
    | none => trivial
    | some ft =>
      obtain ⟨hlt, hft⟩ := h
      refine ⟨Nat.lt_of_lt_of_le hlt hpushed, fun f hff => ?_⟩
      rw [hentry _ hlt, hpicked ft f rfl hff, hhand]
      exact hft f hff
  | task stage f b =>
    show x'.body f = x'.hand
    rw [htask stage f b rfl, hhand]
    exact h
  | _ => trivial

/-- **In step**: `y` is `x` with a fiber for each body. -/
structure InStep (x y : Bodies) : Prop where
  ghost : (y.nbody, y.entry, y.hand, y.log) = (x.nbody, x.entry, x.hand, x.log)
  shared : shared y.s = shared x.s
  queue : y.s.m_fibers = x.s.m_fibers.map x.nameOf
  pc : y.pc = x.namePc x.pc
  /-- each fiber of `x` is for a body, and each body was put in one -/
  handle : ∀ n < x.nbody, x.handle n < x.s.nfiber
  body : ∀ f < x.s.nfiber, x.body f < x.nbody ∧ x.handle (x.body f) = f
  fresh : y.s.nfiber = x.nbody ∧ ∀ n < x.nbody, y.handle n = n ∧ y.body n = n
  /-- the body that a fiber is for is as far in `y` -/
  fiber : ∀ f < x.s.nfiber, y.s.fiber (x.body f) = x.s.fiber f
  queued : ∀ ft ∈ x.s.m_fibers, ft.serial < x.s.pushed.length ∧
    ∀ f, ft.task = .fiber f → f = x.handle (x.entry ft.serial) ∧ x.entry ft.serial < x.nbody
  hand : x.HandOk x.pc

/-- The entry for what `task` names is queued. -/
def enqueue (x : Bodies) (pusher : Option Unit) (task : FiberOrcb) (thread : ℤ) : Bodies :=
  { x with
    s := x.s.push (x.deref task) thread pusher
    entry := Function.update x.entry x.s.pushed.length (named task) }

namespace InStep

/-- A step that writes to no fiber and leaves the queue alone. -/
theorem move (h : InStep x y) {s t : Scheduler Unit} (hs : s.m_fibers = x.s.m_fibers)
    (hsf : s.fiber = x.s.fiber) (hsn : s.nfiber = x.s.nfiber) (hsp : s.pushed = x.s.pushed)
    (ht : t.m_fibers = y.s.m_fibers) (htf : t.fiber = y.s.fiber) (htn : t.nfiber = y.s.nfiber)
    (hshared : Bodies.shared t = Bodies.shared s) (hpc : t.here = x.namePc s.here)
    (hhand : x.HandOk s.here) : InStep { x with s := s } { y with s := t } := by
  refine ⟨h.ghost, hshared, ?_, hpc, ?_, ?_, ?_, ?_, ?_, ?_⟩
  · rw [ht, hs]; exact h.queue
  · rw [hsn]; exact h.handle
  · rw [hsn]; exact h.body
  · rw [htn]; exact h.fresh
  · rw [hsn, htf, hsf]; exact h.fiber
  · rw [hs, hsp]; exact h.queued
  · exact hhand.congr (by rw [hsp]) rfl (fun _ _ => rfl) (fun _ _ _ _ => rfl) fun _ _ _ _ => rfl

/-- Both write the same to the fiber of one body. -/
theorem write (h : InStep x y) {f : FiberPtr} (hf : f < x.s.nfiber) (fb : Fiber) :
    InStep { x with s := x.s.setFiber f fb } { y with s := y.s.setFiber (x.body f) fb } := by
  refine ⟨h.ghost, h.shared, h.queue, h.pc, h.handle, h.body, h.fresh, ?_, h.queued, h.hand⟩
  intro g hg
  by_cases hgf : g = f
  · subst hgf
    simp only [setFiber, Function.update_self]
  · -- no two fibers are for one body
    have hbody : x.body g ≠ x.body f := by
      intro heq
      rw [← (h.body g hg).2, heq, (h.body f hf).2] at hgf
      exact hgf rfl
    simp only [setFiber, Function.update_of_ne hgf, Function.update_of_ne hbody]
    exact h.fiber g hg

/-- What an entry is named does not change. -/
theorem nameOf_congr {x' : Bodies} {ft : FiberAndThread Unit}
    (h : x'.entry ft.serial = x.entry ft.serial) : x'.nameOf ft = x.nameOf ft := by
  unfold nameOf
  rw [h]

/-- Nor where the worker stands. -/
theorem namePc_congr {x' : Bodies} {pc : Pc Unit}
    (hentry : ∀ ft, pc = .picked (some ft) → x'.entry ft.serial = x.entry ft.serial)
    (hbody : ∀ stage f b, pc = .task stage f b → x'.body f = x.body f) :
    x'.namePc pc = x.namePc pc := by
  cases pc with
  | picked ft =>
    cases ft with
    | none => rfl
    | some ft => exact congrArg (fun ft => Pc.picked (some ft)) (nameOf_congr (hentry ft rfl))
  | task stage f b => exact congrArg (fun n => Pc.task stage n b) (hbody stage f b rfl)
  | _ => rfl

/-- **Both queue an entry** for the same name. -/
theorem push (h : InStep x y) {task : FiberOrcb} (hknown : x.known task) (thread : ℤ)
    (pusher : Option Unit) :
    InStep (x.enqueue pusher task thread) (y.enqueue pusher task thread) := by
  have hghost := h.ghost
  have hshared := shared_iff.1 h.shared
  simp only [Prod.mk.injEq] at hghost
  obtain ⟨hnbody, hentry, hhand, hlog⟩ := hghost
  obtain ⟨hflags, hstopPc, hfault, hlength, hstarted, hidle⟩ := hshared
  have hold : ∀ i < x.s.pushed.length, (x.enqueue pusher task thread).entry i = x.entry i :=
    fun i hi => Function.update_of_ne (Nat.ne_of_lt hi) ..
  have hnew : (x.enqueue pusher task thread).entry x.s.pushed.length = named task :=
    Function.update_self ..
  have hpushed : (x.enqueue pusher task thread).s.pushed.length = x.s.pushed.length + 1 := by
    simp [enqueue, Scheduler.push]
  -- so the number of the new entry is not that of the one in hand
  have hpicked : ∀ ft, x.pc = .picked (some ft) → ft.serial < x.s.pushed.length := by
    intro ft hft
    have hh := h.hand
    rw [hft] at hh
    exact hh.1
  refine ⟨?_, ?_, ?_, ?_, h.handle, h.body, h.fresh, h.fiber, ?_, ?_⟩
  · simp only [enqueue, hnbody, hentry, hhand, hlog, hlength]
  · simp only [Bodies.shared, enqueue, Scheduler.push, List.length_append, List.length_singleton, hlength,
      hstopPc, hfault, hstarted, Prod.mk.injEq]
    exact ⟨hflags, trivial, trivial, trivial, trivial, hidle⟩
  · show y.s.m_fibers ++ [_] = (x.s.m_fibers ++ [_]).map _
    rw [List.map_append, List.map_cons, List.map_nil]
    congr 1
    · rw [h.queue]
      exact List.map_congr_left fun ft hft => (nameOf_congr (hold _ (h.queued ft hft).1)).symm
    · -- the new entry is named as the pusher named it
      cases task with
      | cb f => simp [nameOf, deref, hlength, hstopPc]
      | fiber b =>
        have hb : y.handle b = b := (h.fresh.2 b hknown).1
        simp [nameOf, enqueue, deref, hlength, hstopPc, hb, named]
  · have hpc : (x.enqueue pusher task thread).namePc x.pc = x.namePc x.pc :=
      namePc_congr (fun ft hft => hold _ (hpicked ft hft)) fun _ _ _ _ => rfl
    exact h.pc.trans hpc.symm
  · intro ft hft
    rw [hpushed]
    rcases List.mem_append.1 hft with hft | hft
    · obtain ⟨hlt, hf⟩ := h.queued ft hft
      refine ⟨Nat.lt_succ_of_lt hlt, fun f hff => ?_⟩
      rw [hold _ hlt]
      exact hf f hff
    · obtain rfl := List.mem_singleton.1 hft
      refine ⟨Nat.lt_succ_self _, fun f hff => ?_⟩
      rw [hnew]
      cases task with
      | cb f => cases hff
      | fiber b => cases hff; exact ⟨rfl, hknown⟩
  · have hle : x.s.pushed.length ≤ (x.enqueue pusher task thread).s.pushed.length := by
      rw [hpushed]
      exact Nat.le_succ _
    exact h.hand.congr hle rfl hold (fun _ _ _ _ => rfl) fun _ _ _ _ => rfl

/-- **A new body**: in `x` it is put in fiber `c`, a new one or one that the worker has not in
hand, and in `y` in a new one. -/
theorem place (h : InStep x y) {c : FiberPtr} {job : Option Job} {s t : Scheduler Unit}
    (hc : c < s.nfiber) (hn : x.s.nfiber ≤ s.nfiber) (hn' : ∀ f < s.nfiber, f = c ∨ f < x.s.nfiber)
    (hsf : s.fiber = Function.update x.s.fiber c (Fiber.reset job))
    (htf : t.fiber = Function.update y.s.fiber y.s.nfiber (Fiber.reset job))
    (htn : t.nfiber = y.s.nfiber + 1)
    (hsq : s.m_fibers = x.s.m_fibers) (htq : t.m_fibers = y.s.m_fibers) (hsp : s.pushed = x.s.pushed)
    (hshared : Bodies.shared t = Bodies.shared s) (hs : s.here = x.pc) (ht : t.here = y.pc)
    (hfree : ∀ stage f b, x.pc = .task stage f b → f ≠ c)
    (hfree' : ∀ ft f, x.pc = .picked (some ft) → ft.task = .fiber f → f ≠ c) :
    InStep ({ x with s := s }.place c) ({ y with s := t }.place y.s.nfiber) := by
  have hghost := h.ghost
  simp only [Prod.mk.injEq] at hghost
  obtain ⟨hnbody, hentry, hhand, hlog⟩ := hghost
  have hynbody : y.s.nfiber = x.nbody := h.fresh.1
  have hbodyc : ({ x with s := s }.place c).body c = x.nbody := Function.update_self ..
  have hbody : ∀ f, f ≠ c → ({ x with s := s }.place c).body f = x.body f :=
    fun f hf => Function.update_of_ne hf ..
  have hhandlec : ({ x with s := s }.place c).handle x.nbody = c := Function.update_self ..
  have hhandle : ∀ n < x.nbody, ({ x with s := s }.place c).handle n = x.handle n :=
    fun n hn => Function.update_of_ne (Nat.ne_of_lt hn) ..
  refine ⟨?_, hshared, ?_, ?_, ?_, ?_, ⟨?_, ?_⟩, ?_, ?_, ?_⟩
  · simp only [Bodies.place, hnbody, hentry, hhand, hlog]
  · show t.m_fibers = s.m_fibers.map x.nameOf
    rw [htq, hsq]
    exact h.queue
  · show t.here = namePc _ s.here
    have hpc : ({ x with s := s }.place c).namePc x.pc = x.namePc x.pc :=
      namePc_congr (fun _ _ => rfl) fun stage f b hf => hbody f (hfree stage f b hf)
    rw [ht, hs, hpc]
    exact h.pc
  · intro n hlt
    rcases Nat.lt_succ_iff_lt_or_eq.1 hlt with hlt | rfl
    · rw [hhandle n hlt]
      exact Nat.lt_of_lt_of_le (h.handle n hlt) hn
    · rw [hhandlec]
      exact hc
  · intro f hf
    by_cases hfc : f = c
    · -- the body that had `c` before has no fiber any more
      subst hfc
      rw [hbodyc]
      exact ⟨Nat.lt_succ_self _, hhandlec⟩
    · obtain ⟨hlt, hback⟩ := h.body f ((hn' f hf).resolve_left hfc)
      rw [hbody f hfc]
      exact ⟨Nat.lt_succ_of_lt hlt, (hhandle _ hlt).trans hback⟩
  · show t.nfiber = x.nbody + 1
    rw [htn, hynbody]
  · intro n hlt
    show Function.update y.handle y.nbody y.s.nfiber n = n ∧
      Function.update y.body y.s.nfiber y.nbody n = n
    rw [hnbody, hynbody]
    rcases Nat.lt_succ_iff_lt_or_eq.1 hlt with hlt | rfl
    · rw [Function.update_of_ne (Nat.ne_of_lt hlt), Function.update_of_ne (Nat.ne_of_lt hlt)]
      exact h.fresh.2 n hlt
    · exact ⟨Function.update_self .., Function.update_self ..⟩
  · intro f hf
    show t.fiber _ = s.fiber f
    by_cases hfc : f = c
    · subst hfc
      rw [hbodyc, htf, hsf, hynbody, Function.update_self, Function.update_self]
    · -- the other fibers are as they were, and for the same bodies
      have hlt := (hn' f hf).resolve_left hfc
      have hne : x.body f ≠ y.s.nfiber := by
        rw [hynbody]
        exact Nat.ne_of_lt (h.body f hlt).1
      rw [hbody f hfc, htf, hsf, Function.update_of_ne hfc, Function.update_of_ne hne]
      exact h.fiber f hlt
  · show ∀ ft ∈ s.m_fibers, ft.serial < s.pushed.length ∧ _
    rw [hsq, hsp]
    intro ft hft
    obtain ⟨hlt, hf⟩ := h.queued ft hft
    refine ⟨hlt, fun f hff => ?_⟩
    obtain ⟨hback, hb⟩ := hf f hff
    exact ⟨hback.trans (hhandle _ hb).symm, Nat.lt_succ_of_lt hb⟩
  · show HandOk _ s.here
    rw [hs]
    have hle : x.s.pushed.length ≤ s.pushed.length := by rw [hsp]
    exact h.hand.congr hle rfl (fun _ _ => rfl) (fun ft f hpc hff => hbody f (hfree' ft f hpc hff))
      fun stage f b hpc => hbody f (hfree stage f b hpc)

/-- What the worker has in hand, when that is a callback. -/
theorem withHand (h : InStep x y) {ft : FiberAndThread Unit} {f : Callback}
    (hpc : x.pc = .picked (some ft)) (htask : ft.task = .cb f) {m n : ℕ} (hmn : m = n) :
    InStep { x with hand := n } { y with hand := m } := by
  have hghost := h.ghost
  simp only [Prod.mk.injEq] at hghost
  obtain ⟨hnbody, hentry, -, hlog⟩ := hghost
  refine ⟨by simp only [hnbody, hentry, hlog, hmn], h.shared, h.queue, h.pc, h.handle, h.body,
    h.fresh, h.fiber, h.queued, ?_⟩
  have hh := h.hand
  show HandOk _ x.pc
  rw [hpc] at hh ⊢
  refine ⟨hh.1, fun g hg => ?_⟩
  rw [htask] at hg
  cases hg

/-- The same step of user code. -/
theorem withLog (h : InStep x y) (e : ℕ × UserAct) :
    InStep { x with log := x.log ++ [e] } { y with log := y.log ++ [e] } := by
  have hghost := h.ghost
  simp only [Prod.mk.injEq] at hghost
  obtain ⟨hnbody, hentry, hhand, hlog⟩ := hghost
  exact ⟨by simp only [hnbody, hentry, hhand, hlog], h.shared, h.queue, h.pc, h.handle, h.body, h.fresh,
    h.fiber, h.queued, h.hand⟩

theorem nbody_eq (h : InStep x y) : y.nbody = x.nbody := congrArg Prod.fst h.ghost

theorem shared_fault (h : InStep x y) : y.s.fault = x.s.fault :=
  congrArg (fun v => v.2.2.1) h.shared

theorem setPc_shared {s t : Scheduler Unit} (h : Bodies.shared t = Bodies.shared s) (p q : Pc Unit) :
    Bodies.shared (t.setPc () q) = Bodies.shared (s.setPc () p) := h

/-- Both go on. -/
theorem go (h : InStep x y) {p : Pc Unit} (hp : x.HandOk p) :
    InStep { x with s := x.s.setPc () p } { y with s := y.s.setPc () (x.namePc p) } :=
  h.move rfl rfl rfl rfl rfl rfl rfl (setPc_shared h.shared ..) rfl hp

/-- Both write to a fiber, and go on. -/
theorem writeGo (h : InStep x y) {f : FiberPtr} (hf : f < x.s.nfiber) (fb : Fiber) {p : Pc Unit}
    (hp : x.HandOk p) :
    InStep { x with s := (x.s.setFiber f fb).setPc () p }
      { y with s := (y.s.setFiber (x.body f) fb).setPc () (x.namePc p) } :=
  (h.write hf fb).go (p := p) (by
    cases p with
    | picked ft => exact hp
    | _ => exact hp)

/-! ## Steps of user code -/

theorem known_iff (h : InStep x y) (task : FiberOrcb) : y.known task ↔ x.known task := by
  cases task with
  | cb f => exact Iff.rfl
  | fiber b =>
    show b < y.nbody ↔ b < x.nbody
    rw [h.nbody_eq]

theorem scheduleNoLock (h : InStep x y) (pusher : Option Unit) (fc : Option FiberOrcb) (thread : ℤ) :
    InStep (x.scheduleNoLock pusher fc thread) (y.scheduleNoLock pusher fc thread) := by
  cases fc with
  | none => exact h
  | some task =>
    by_cases hknown : x.known task
    · have hknown' : y.known task := (h.known_iff task).2 hknown
      have hexist : x.s.exist (x.deref task) ∧ y.s.exist (y.deref task) := by
        cases task with
        | cb f => exact ⟨trivial, trivial⟩
        | fiber b =>
          refine ⟨h.handle b hknown, ?_⟩
          show y.handle b < y.s.nfiber
          rw [(h.fresh.2 b hknown).1, h.fresh.1]
          exact hknown
      have hx : x.scheduleNoLock pusher (some task) thread = x.enqueue pusher task thread := by
        simp [Bodies.scheduleNoLock, enqueue, hknown, Scheduler.scheduleNoLock, hexist.1]
      have hy : y.scheduleNoLock pusher (some task) thread = y.enqueue pusher task thread := by
        simp [Bodies.scheduleNoLock, enqueue, hknown', Scheduler.scheduleNoLock, hexist.2]
      rw [hx, hy]
      exact h.push hknown thread pusher
    · have hknown' : ¬ y.known task := fun hy => hknown ((h.known_iff task).1 hy)
      simpa only [Bodies.scheduleNoLock, if_neg hknown, if_neg hknown'] using h

/-- **A call by user code.** -/
theorem call (h : InStep x y) (hx : Fit x.s) (pusher : Option Unit) (c : SchedCall) :
    InStep (x.call pusher c) (y.call pusher c) := by
  cases c with
  | scheduler fc thread => exact h.scheduleNoLock pusher fc thread
  | batch fcs =>
    show InStep (fcs.foldl _ x) (fcs.foldl _ y)
    clear hx
    induction fcs generalizing x y with
    | nil => exact h
    | cons fc fcs ih => exact ih (h.scheduleNoLock pusher fc (-1))
  | newFiber cb =>
    refine h.place (Nat.lt_succ_self _) (Nat.le_succ _) (fun f hf => ?_) rfl rfl rfl rfl rfl rfl h.shared
      rfl rfl (fun stage f b hf => ?_) fun ft f hf hft => ?_
    · exact (Nat.lt_succ_iff_lt_or_eq.1 hf).symm
    · have hhand : x.s.hand () = some f := congrArg Pc.hand hf
      exact Nat.ne_of_lt (hx.exist.hand () f hhand)
    · have hhand : x.s.hand () = some f := by
        have hh : x.s.hand () = ft.task.fiber? := congrArg Pc.hand hf
        rw [hh, hft]
        rfl
      exact Nat.ne_of_lt (hx.exist.hand () f hhand)

/-- The fiber that the worker has entered, in both. -/
theorem task (h : InStep x y) (hx : Fit x.s) {stage : Stage} {f : FiberPtr} {b : Branch}
    (hpc : x.pc = .task stage f b) : f < x.s.nfiber ∧ x.body f = x.hand ∧
      (y.s.worker ()).pc = .task stage (x.body f) b ∧ y.s.fiber (x.body f) = x.s.fiber f := by
  have hhand : x.s.hand () = some f := congrArg Pc.hand hpc
  have hf := hx.exist.hand () f hhand
  have hown := h.hand
  have hpcy := h.pc
  rw [hpc] at hown hpcy
  exact ⟨hf, hown, hpcy, h.fiber f hf⟩

/-- **A step of user code** is one of the same body. -/
theorem userStep (h : InStep x y) (hx : Fit x.s) (u : UserAct) : InStep (x.userStep u) (y.userStep u) := by
  by_cases hrunning : ∃ f b, x.pc = .task .running f b
  · obtain ⟨f, b, hpc⟩ := hrunning
    obtain ⟨hf, hown, hpcy, hfiber⟩ := h.task hx hpc
    have hpcx : (x.s.worker ()).pc = .task .running f b := hpc
    have hbody : y.body (x.body f) = x.body f := (h.fresh.2 _ (h.body f hf).1).2
    have hlog : InStep { x with log := x.log ++ [(x.body f, u)] }
        { y with log := y.log ++ [(y.body (x.body f), u)] } := by
      rw [hbody]
      exact h.withLog _
    have hleave : ∀ fb ctx, InStep
        { x with
          log := x.log ++ [(x.body f, u)]
          s := (x.s.setFiber f fb).setPc () (.task (.leaving ctx) f b) }
        { y with
          log := y.log ++ [(y.body (x.body f), u)]
          s := (y.s.setFiber (x.body f) fb).setPc () (.task (.leaving ctx) (x.body f) b) } :=
      fun fb ctx => hlog.writeGo (p := .task (.leaving ctx) f b) hf fb hown
    unfold Bodies.userStep
    rw [show y.pc = _ from hpcy, hpc]
    dsimp only
    cases u with
    | call c => exact hlog.call hx (some ()) c
    | _ =>
      simp only [Scheduler.userStep, hpcx, hpcy, setState, hfiber]
      exact hleave _ _
  · have hstay : x.userStep u = x := by
      unfold Bodies.userStep
      split
      · rename_i f b hpc; exact absurd ⟨f, b, hpc⟩ hrunning
      · rfl
    -- then no body executes in `y` either
    have hstay' : y.userStep u = y := by
      unfold Bodies.userStep
      split
      · rename_i f b hpc
        have hp := h.pc
        rw [hpc] at hp
        cases hpcx : x.pc with
        | task stage g b' =>
          rw [hpcx] at hp
          obtain ⟨rfl, -, rfl⟩ := Pc.task.inj hp
          exact absurd ⟨g, _, hpcx⟩ hrunning
        | picked ft => rw [hpcx] at hp; cases ft <;> cases hp
        | _ => rw [hpcx] at hp; cases hp
      · rfl
    rw [hstay, hstay']
    exact h

/-! ## Steps of `run()` -/

/-- A worker with nothing entered takes an entry by its thread alone. -/
theorem takes_eq {s : Scheduler Unit} (hs : s.States) (hhere : s.here.entered = none) (tid : ℤ) :
    s.takes tid = fun ft => decide (ft.thread = -1 ∨ ft.thread = tid) := by
  funext ft
  unfold takes
  split
  · rename_i f htask
    have hstate : (s.fiber f).m_state ≠ .EXEC := by
      intro hexec
      have hentered := hs.exec f hexec
      rw [hhere] at hentered
      cases hentered
    simp [hstate]
  · simp

/-- Both take the same entry. -/
theorem pop (h : InStep x y) {p : FiberAndThread Unit → Bool} (hp : p ∘ x.nameOf = p)
    {ft : FiberAndThread Unit} (hft : ft ∈ x.s.m_fibers)
    (hfresh : ∀ f, ft.task = .fiber f → x.body f = x.entry ft.serial) :
    InStep
      { x with
        s := { x.s.setPc () (.picked (some ft)) with
          m_fibers := x.s.m_fibers.eraseP p
          m_activeThreadCount := x.s.m_activeThreadCount + 1
          popped := x.s.popped ++ [ft] }
        hand := x.entry ft.serial }
      { y with
        s := { y.s.setPc () (.picked (some (x.nameOf ft))) with
          m_fibers := y.s.m_fibers.eraseP p
          m_activeThreadCount := y.s.m_activeThreadCount + 1
          popped := y.s.popped ++ [x.nameOf ft] }
        hand := y.entry ft.serial } := by
  have hghost := h.ghost
  have hshared := shared_iff.1 h.shared
  simp only [Prod.mk.injEq] at hghost
  obtain ⟨hnbody, hentry, -, hlog⟩ := hghost
  obtain ⟨⟨hactive, hflags⟩, hrest⟩ := hshared
  refine ⟨?_, ?_, ?_, rfl, h.handle, h.body, h.fresh, h.fiber, ?_, ?_⟩
  · simp only [hnbody, hentry, hlog]
  · rw [shared_iff]
    exact ⟨⟨congrArg (· + 1) hactive, hflags⟩, hrest⟩
  · show y.s.m_fibers.eraseP p = (x.s.m_fibers.eraseP p).map x.nameOf
    rw [h.queue, List.eraseP_map, hp]
  · exact fun e he => h.queued e (List.mem_of_mem_eraseP he)
  · exact ⟨(h.queued ft hft).1, fun f hf => ⟨hfresh f hf, rfl⟩⟩

/-- **The section under the mutex.** -/
theorem scan (h : InStep x y) (hx : Fit x.s) (hy : Fit y.s) (hpc : x.pc = .scan)
    (hstale : x.NotStale pool (.run ())) : InStep (x.runStep true pool) (y.runStep false pool) := by
  have hpcy : y.pc = .scan := by rw [h.pc, hpc]; rfl
  have hpcx' : (x.s.worker ()).pc = .scan := hpc
  have hpcy' : (y.s.worker ()).pc = .scan := hpcy
  have htx := takes_eq hx.states (by rw [show x.s.here = _ from hpc]; rfl) (pool.tid ())
  have hty := takes_eq hy.states (by rw [show y.s.here = _ from hpcy]; rfl) (pool.tid ())
  have hfind := hstale hpc
  unfold Bodies.runStep
  rw [hpc, hpcy]
  dsimp only
  rw [Scheduler.runStep, Scheduler.runStep, hpcx', hpcy']
  dsimp only
  rw [Scheduler.scan, Scheduler.scan, htx, hty]
  rw [htx] at hfind
  -- both look at the entry's thread alone, and names change nothing there
  have hcomp : (fun ft : FiberAndThread Unit => decide (ft.thread = -1 ∨ ft.thread = pool.tid ())) ∘
      x.nameOf = fun ft => decide (ft.thread = -1 ∨ ft.thread = pool.tid ()) := rfl
  generalize (fun ft : FiberAndThread Unit => decide (ft.thread = -1 ∨ ft.thread = pool.tid ())) = p
    at hfind hcomp ⊢
  have hfindy : y.s.m_fibers.find? p = (x.s.m_fibers.find? p).map x.nameOf := by
    rw [h.queue, List.find?_map, hcomp]
  rw [hfindy]
  cases hft : x.s.m_fibers.find? p with
  | none => exact h.go (p := .picked none) trivial
  | some ft =>
    refine h.pop hcomp (List.mem_of_find?_eq_some hft) fun f hf => ?_
    exact hfind ft hft f (by rw [hf]; rfl)

/-- The guard of the first branch lets every fiber through. -/
theorem take_fiber {s : Scheduler Unit} {ft : FiberAndThread Unit} {f : FiberPtr}
    (htask : ft.task = .fiber f) : s.take () ft =
      { s.setPc () (.task .enter f .fiber) with m_activeThreadCount := s.m_activeThreadCount + 1 } := by
  have hguard : (s.fiber f).m_state ≠ .TERM ∨ (s.fiber f).m_state ≠ .EXCEPT := by
    cases (s.fiber f).m_state <;> simp
  unfold Scheduler.take
  rw [htask]
  exact if_pos hguard

theorem take_recycle {s : Scheduler Unit} {ft : FiberAndThread Unit} {f : Callback} {c : FiberPtr}
    (htask : ft.task = .cb f) (hslot : (s.worker ()).cb_fiber = some c)
    (hreset : (s.fiber c).resettable) : s.take () ft =
      (s.setFiber c (Fiber.reset (some { cb := f, serial := some ft.serial }))).setPc ()
        (.task .enter c .cb) := by
  unfold Scheduler.take
  rw [htask]
  dsimp only
  rw [hslot]
  exact if_pos hreset

theorem take_create {s : Scheduler Unit} {ft : FiberAndThread Unit} {f : Callback}
    (htask : ft.task = .cb f) (hslot : (s.worker ()).cb_fiber = none) : s.take () ft =
      (s.newFiber (some { cb := f, serial := some ft.serial })).setWorker ()
        { s.worker () with pc := .task .enter s.nfiber .cb, cb_fiber := some s.nfiber } := by
  unfold Scheduler.take
  rw [htask]
  dsimp only
  rw [hslot]

/-- A callback is put in fiber `c`, and the worker is to enter it. -/
theorem enterNew (h : InStep x y) {ft : FiberAndThread Unit} {f : Callback}
    (hpc : x.pc = .picked (some ft)) (htask : ft.task = .cb f) {c : FiberPtr} {job : Option Job}
    {s t : Scheduler Unit} (hc : c < s.nfiber) (hn : x.s.nfiber ≤ s.nfiber)
    (hn' : ∀ f < s.nfiber, f = c ∨ f < x.s.nfiber)
    (hsf : s.fiber = Function.update x.s.fiber c (Fiber.reset job))
    (htf : t.fiber = Function.update y.s.fiber y.s.nfiber (Fiber.reset job))
    (htn : t.nfiber = y.s.nfiber + 1) (hsq : s.m_fibers = x.s.m_fibers)
    (htq : t.m_fibers = y.s.m_fibers) (hsp : s.pushed = x.s.pushed)
    (hshared : Bodies.shared t = Bodies.shared s) (hs : s.here = .task .enter c .cb)
    (ht : t.here = .task .enter y.s.nfiber .cb) :
    InStep ({ x with s := s, hand := x.nbody }.place c)
      ({ y with s := t, hand := y.nbody }.place y.s.nfiber) := by
  have hplaced := (h.withHand hpc htask h.nbody_eq).place (s := s.setPc () x.pc) (t := t.setPc () y.pc)
    hc hn hn' hsf htf htn hsq htq hsp hshared rfl rfl
    (fun stage g b hg => by rw [show x.pc = _ from hg] at hpc; cases hpc)
    (fun ft' g hg hft' => by
      have heq := (show x.pc = _ from hg).symm.trans hpc
      obtain rfl := Option.some.inj (Pc.picked.inj heq)
      rw [htask] at hft'
      cases hft')
  have hbody : Function.update x.body c x.nbody c = x.nbody := Function.update_self ..
  refine hplaced.move (s := s) (t := t) rfl rfl rfl rfl rfl rfl rfl hshared ?_ ?_
  · rw [hs, ht, h.fresh.1]
    show _ = Pc.task .enter (Function.update x.body c x.nbody c) .cb
    rw [hbody]
  · rw [hs]
    exact hbody

/-- **An entry in hand.** -/
theorem take (h : InStep x y) (hx : Fit x.s) {ft : FiberAndThread Unit}
    (hpc : x.pc = .picked (some ft)) : InStep (x.take true ft) (y.take false (x.nameOf ft)) := by
  have hhand := h.hand
  rw [hpc] at hhand
  obtain ⟨-, hown⟩ := hhand
  unfold Bodies.take
  cases htask : ft.task with
  | fiber f =>
    obtain ⟨hbody, hentry⟩ := hown f htask
    have hname : (x.nameOf ft).task = .fiber (x.body f) := by
      rw [hbody]
      simp [nameOf, htask]
    rw [hname]
    dsimp only
    rw [take_fiber htask, take_fiber hname]
    have hshared := shared_iff.1 h.shared
    refine h.move rfl rfl rfl rfl rfl rfl rfl ?_ rfl (hbody.trans hentry.symm)
    rw [shared_iff]
    exact ⟨⟨congrArg (· + 1) hshared.1.1, hshared.1.2⟩, hshared.2⟩
  | cb f =>
    have hname : (x.nameOf ft).task = .cb f := by simp [nameOf, htask]
    have hserial : (x.nameOf ft).serial = ft.serial := rfl
    rw [hname]
    dsimp only
    rw [if_pos rfl, if_neg Bool.false_ne_true,
      -- `y` makes a fiber for every callback
      take_create (s := y.s.setWorker () { y.s.worker () with cb_fiber := none }) hname rfl, hserial]
    cases hslot : (x.s.worker ()).cb_fiber with
    | none =>
      rw [take_create (s := x.s.setWorker () { x.s.worker () with cb_fiber := none }) htask rfl]
      refine h.enterNew hpc htask (Nat.lt_succ_self _) (Nat.le_succ _)
        (fun f hf => (Nat.lt_succ_iff_lt_or_eq.1 hf).symm) rfl rfl rfl rfl rfl rfl ?_ rfl rfl
      rw [shared_setWorker, shared_newFiber, shared_setWorker, shared_setWorker,
        shared_newFiber, shared_setWorker]
      · exact h.shared
      all_goals rfl
    | some c =>
      -- the callback that had the fiber has ended
      have hreset := resettable_of_picked hx.sound hx.states hpc hslot
      have hc : c < x.s.nfiber := hx.exist.slot () c hslot
      rw [take_recycle (s := x.s.setWorker () { x.s.worker () with cb_fiber := some c }) htask rfl hreset]
      refine h.enterNew hpc htask hc (Nat.le_refl _) (fun f hf => .inr hf) rfl rfl rfl rfl rfl rfl ?_
        rfl rfl
      unfold Scheduler.setPc
      rw [shared_setWorker, shared_newFiber, shared_setWorker, shared_setWorker,
        shared_setFiber, shared_setWorker]
      · exact h.shared
      all_goals rfl

/-- The process ends in both. -/
theorem abort (h : InStep x y) (e : Fault) :
    InStep { x with s := x.s.abort e } { y with s := y.s.abort e } := by
  have hshared := shared_iff.1 h.shared
  refine h.move rfl rfl rfl rfl rfl rfl rfl ?_ h.pc h.hand
  simp only [Bodies.shared, Scheduler.abort, Prod.mk.injEq]
  exact ⟨hshared.1, hshared.2.1, trivial, hshared.2.2.2⟩

/-- The fiber in hand is queued again, for the body that it is for. -/
theorem requeue (h : InStep x y) {f : FiberPtr} (hf : f < x.s.nfiber) (hown : x.body f = x.hand)
    {s t : Scheduler Unit} (hs : ∃ wk, s = (x.s.push (.fiber f) (-1) none).setWorker () wk ∧
      wk.pc = .scan ∧ wk.idle = (x.s.worker ()).idle)
    (ht : ∃ wk, t = (y.s.push (.fiber (x.body f)) (-1) none).setWorker () wk ∧
      wk.pc = .scan ∧ wk.idle = (y.s.worker ()).idle) :
    InStep { x with s := s, entry := Function.update x.entry x.s.pushed.length x.hand }
      { y with s := t, entry := Function.update y.entry y.s.pushed.length y.hand } := by
  obtain ⟨wk, rfl, hpc, hidle⟩ := hs
  obtain ⟨wk', rfl, hpc', hidle'⟩ := ht
  have hghost := h.ghost
  simp only [Prod.mk.injEq] at hghost
  have hhand : y.hand = x.hand := hghost.2.2.1
  obtain ⟨hlt, hback⟩ := h.body f hf
  rw [hown] at hlt hback
  have hknown : x.known (.fiber x.hand) := hlt
  have hpushed : InStep (x.enqueue none (.fiber x.hand) (-1)) (y.enqueue none (.fiber y.hand) (-1)) := by
    rw [hhand]
    exact h.push hknown (-1) none
  have hx : x.deref (.fiber x.hand) = .fiber f := congrArg FiberOrcb.fiber hback
  have hy : y.deref (.fiber y.hand) = .fiber (x.body f) := by
    rw [hhand, hown]
    exact congrArg FiberOrcb.fiber (h.fresh.2 _ hlt).1
  unfold enqueue at hpushed
  rw [hx, hy] at hpushed
  have hshared := shared_iff.1 hpushed.shared
  refine hpushed.move (s := (x.s.push (.fiber f) (-1) none).setWorker () wk)
    (t := (y.s.push (.fiber (x.body f)) (-1) none).setWorker () wk') rfl rfl rfl rfl rfl rfl rfl ?_ ?_ ?_
  · rw [shared_iff]
    refine ⟨hshared.1, hshared.2.1, hshared.2.2.1, hshared.2.2.2.1, hshared.2.2.2.2.1, ?_⟩
    exact hidle'.trans (hshared.2.2.2.2.2.trans hidle.symm)
  · show wk'.pc = namePc _ wk.pc
    rw [hpc, hpc']
    rfl
  · show HandOk _ wk.pc
    rw [hpc]
    trivial

/-- **Executing a fiber.** -/
theorem execute (h : InStep x y) (hx : Fit x.s) {stage : Stage} {f : FiberPtr} {b : Branch}
    (hpc : x.pc = .task stage f b) : InStep (x.runStep true pool) (y.runStep false pool) := by
  obtain ⟨hf, hown, hpcy, hfiber⟩ := h.task hx hpc
  have hpcx : (x.s.worker ()).pc = .task stage f b := hpc
  have hrunx : x.s.runStep pool () = x.s.execute () f b stage := by rw [Scheduler.runStep, hpcx]
  have hruny : y.s.runStep pool () = y.s.execute () (x.body f) b stage := by
    rw [Scheduler.runStep, hpcy]
  have hshared := shared_iff.1 h.shared
  unfold Bodies.runStep
  rw [hpc, show y.pc = _ from hpcy, hrunx, hruny]
  -- both read the same of the fiber, so they take the same branch
  cases stage with
  | enter =>
    dsimp only
    unfold Scheduler.execute setState
    rw [hfiber]
    dsimp only
    split
    · exact h.abort _
    · exact h.writeGo (p := .task .switch f b) hf _ hown
  | switch =>
    dsimp only
    unfold Scheduler.execute
    dsimp only
    unfold Scheduler.switch setState
    rw [hfiber]
    split
    · split
      · rename_i job hjob
        refine h.move rfl rfl rfl rfl rfl rfl rfl ?_ rfl hown
        rw [shared_iff]
        exact ⟨hshared.1, hshared.2.1, hshared.2.2.1, hshared.2.2.2.1,
          congrArg (· ++ _) hshared.2.2.2.2.1, hshared.2.2.2.2.2⟩
      · exact h.writeGo (p := .task (.leaving .ended) f b) hf _ hown
    · exact h.go (p := .task .running f b) hown
    · exact h.abort _
  | running => exact h
  | leaving ctx =>
    dsimp only
    unfold Scheduler.execute
    rw [hfiber]
    exact h.writeGo (p := .task .back f b) hf _ hown
  | back =>
    dsimp only
    unfold Scheduler.execute
    refine h.move rfl rfl rfl rfl rfl rfl rfl ?_ rfl hown
    rw [shared_iff]
    exact ⟨⟨congrArg (· - 1) hshared.1.1, hshared.1.2⟩, hshared.2⟩
  | fixup =>
    dsimp only
    unfold Scheduler.execute
    dsimp only
    unfold Scheduler.fixup setState
    rw [hfiber]
    split
    · exact h.go (p := .task .requeue f _) hown
    · exact h.go (p := .scan) trivial
    · exact h.go (p := .scan) trivial
    · exact h.writeGo (p := .scan) hf _ trivial
    · exact h.writeGo (p := .scan) hf _ trivial
    · exact h.writeGo (p := .scan) hf _ trivial
    · exact (h.write hf _).move rfl rfl rfl rfl rfl rfl rfl h.shared rfl trivial
  | requeue =>
    dsimp only
    unfold Scheduler.execute
    dsimp only
    unfold Scheduler.requeue
    cases b with
    | fiber => exact h.requeue hf hown ⟨_, rfl, rfl, rfl⟩ ⟨_, rfl, rfl, rfl⟩
    | cb => exact h.requeue hf hown ⟨_, rfl, rfl, rfl⟩ ⟨_, rfl, rfl, rfl⟩

/-- Both are stopping, or none is. -/
theorem stopping_iff (h : InStep x y) : y.s.stopping ↔ x.s.stopping := by
  have hshared := shared_iff.1 h.shared
  obtain ⟨⟨hactive, -, hstopping, hauto⟩, -⟩ := hshared
  have hempty : y.s.m_fibers = [] ↔ x.s.m_fibers = [] := by rw [h.queue, List.map_eq_nil_iff]
  unfold Scheduler.stopping
  rw [hactive, hstopping, hauto, hempty]

/-- The idle branch, and the rest of `run()`. -/
theorem idle (h : InStep x y) (hno : ∀ stage f b, x.pc ≠ .task stage f b)
    (hno' : ∀ ft, x.pc ≠ .picked (some ft)) (hscan : x.pc ≠ .scan) :
    InStep (x.runStep true pool) (y.runStep false pool) := by
  obtain ⟨⟨hactive, hidles, hflags⟩, hstopPc, hfault, hlength, hstarted, hidle⟩ :=
    shared_iff.1 h.shared
  -- with no entry and no fiber in hand, both stand at the same place
  have hsame : ∀ {pc : Pc Unit}, x.pc = pc → x.namePc pc = pc →
      (x.s.worker ()).pc = pc ∧ (y.s.worker ()).pc = pc :=
    fun hpc hname => ⟨hpc, h.pc.trans (by rw [hpc]; exact hname)⟩
  unfold Bodies.runStep
  rw [h.pc]
  cases hpc : x.pc with
  | task stage f b => exact absurd hpc (hno stage f b)
  | scan => exact absurd hpc hscan
  | picked ft =>
    cases ft with
    | some ft => exact absurd hpc (hno' ft)
    | none =>
      obtain ⟨hpcx, hpcy⟩ := hsame hpc rfl
      dsimp only [namePc]
      rw [Scheduler.runStep, Scheduler.runStep, hpcx, hpcy]
      dsimp only
      rw [hidle]
      split
      · exact h.go (p := .exited) trivial
      · refine h.move rfl rfl rfl rfl rfl rfl rfl ?_ rfl trivial
        rw [shared_iff]
        exact ⟨⟨hactive, congrArg (· + 1) hidles, hflags⟩, hstopPc, hfault, hlength, hstarted, hidle⟩
  | out =>
    obtain ⟨hpcx, hpcy⟩ := hsame hpc rfl
    dsimp only [namePc]
    rw [Scheduler.runStep, Scheduler.runStep, hpcx, hpcy]
    dsimp only
    rw [hstopPc]
    split
    · exact h.go (p := .scan) trivial
    · exact h
  | exited =>
    obtain ⟨hpcx, hpcy⟩ := hsame hpc rfl
    dsimp only [namePc]
    rw [Scheduler.runStep, Scheduler.runStep, hpcx, hpcy]
    exact h
  | idleIn =>
    obtain ⟨hpcx, hpcy⟩ := hsame hpc rfl
    dsimp only [namePc]
    rw [Scheduler.runStep, Scheduler.runStep, hpcx, hpcy]
    refine h.move rfl rfl rfl rfl rfl rfl rfl ?_ rfl trivial
    rw [shared_iff]
    exact ⟨⟨hactive, hidles, hflags⟩, hstopPc, hfault, hlength, hstarted, rfl⟩
  | idle =>
    obtain ⟨hpcx, hpcy⟩ := hsame hpc rfl
    dsimp only [namePc]
    rw [Scheduler.runStep, Scheduler.runStep, hpcx, hpcy]
    refine h.move rfl rfl rfl rfl rfl rfl rfl ?_ rfl trivial
    rw [shared_iff]
    refine ⟨⟨hactive, hidles, hflags⟩, hstopPc, hfault, hlength, hstarted, ?_⟩
    show (if y.s.stopping then FiberState.TERM else .HOLD) = if x.s.stopping then .TERM else .HOLD
    simp only [h.stopping_iff]
  | idleOut =>
    obtain ⟨hpcx, hpcy⟩ := hsame hpc rfl
    dsimp only [namePc]
    rw [Scheduler.runStep, Scheduler.runStep, hpcx, hpcy]
    refine h.move rfl rfl rfl rfl rfl rfl rfl ?_ rfl trivial
    rw [shared_iff]
    exact ⟨⟨hactive, congrArg (· - 1) hidles, hflags⟩, hstopPc, hfault, hlength, hstarted, hidle⟩

/-- **The thread in `stop()`.** -/
theorem stop (h : InStep x y) :
    InStep { x with s := x.s.stopStep pool } { y with s := y.s.stopStep pool } := by
  have hfx := stopStep_frame pool x.s
  have hfy := stopStep_frame pool y.s
  -- names do not hide that a worker has left
  have hexit : ∀ w, (y.s.worker w).pc = .exited ↔ (x.s.worker w).pc = .exited := by
    intro w
    have hp : (y.s.worker w).pc = x.namePc (x.s.worker w).pc := h.pc
    rw [hp]
    cases (x.s.worker w).pc with
    | picked ft => cases ft <;> simp [namePc]
    | _ => simp [namePc]
  have hshared := shared_iff.1 h.shared
  obtain ⟨⟨hactive, hidles, hstopping, hauto⟩, hstopPc, hfault, hlength, hstarted, hidle⟩ := hshared
  refine h.move hfx.fibers hfx.fiber hfx.nfiber hfx.pushed hfy.fibers hfy.fiber hfy.nfiber ?_ ?_ ?_
  · rw [shared_iff]
    unfold stopStep
    rw [hstopPc]
    simp only [hexit, h.stopping_iff]
    cases x.s.stopPc with
    | out => exact ⟨⟨hactive, hidles, hstopping, rfl⟩, rfl, hfault, hlength, hstarted, hidle⟩
    | early => exact ⟨⟨hactive, hidles, rfl, hauto⟩, rfl, hfault, hlength, hstarted, hidle⟩
    | mark => exact ⟨⟨hactive, hidles, rfl, hauto⟩, rfl, hfault, hlength, hstarted, hidle⟩
    | earlyTest => exact ⟨⟨hactive, hidles, hstopping, hauto⟩, rfl, hfault, hlength, hstarted, hidle⟩
    | test => exact ⟨⟨hactive, hidles, hstopping, hauto⟩, rfl, hfault, hlength, hstarted, hidle⟩
    | done => exact ⟨⟨hactive, hidles, hstopping, hauto⟩, hstopPc, hfault, hlength, hstarted, hidle⟩
    | call =>
      dsimp only
      split
      · exact ⟨⟨hactive, hidles, hstopping, hauto⟩, rfl, hfault, hlength, hstarted, hidle⟩
      · exact ⟨⟨hactive, hidles, hstopping, hauto⟩, hstopPc, hfault, hlength, hstarted, hidle⟩
    | join =>
      dsimp only
      split
      · exact ⟨⟨hactive, hidles, hstopping, hauto⟩, rfl, hfault, hlength, hstarted, hidle⟩
      · exact ⟨⟨hactive, hidles, hstopping, hauto⟩, hstopPc, hfault, hlength, hstarted, hidle⟩
  · show (((y.s.stopStep pool).worker ()).pc) = x.namePc ((x.s.stopStep pool).worker ()).pc
    rw [hfx.worker, hfy.worker]
    exact h.pc
  · show x.HandOk ((x.s.stopStep pool).worker ()).pc
    rw [hfx.worker]
    exact h.hand

end InStep

/-- **One step of both**, on an entry that is not stale. -/
theorem step_inStep (h : InStep x y) (hx : Fit x.s) (hy : Fit y.s) (a : SchedAct Unit)
    (hstale : x.NotStale pool a) : InStep (x.step true pool a) (y.step false pool a) := by
  unfold step
  rw [h.shared_fault]
  split
  · exact h
  · cases a with
    | call c => exact h.call hx none c
    | stop => exact h.stop
    | user w u => exact h.userStep hx u
    | run w =>
      show InStep (x.runStep true pool) (y.runStep false pool)
      by_cases hscan : x.pc = .scan
      · exact h.scan hx hy hscan hstale
      by_cases htask : ∃ stage f b, x.pc = .task stage f b
      · obtain ⟨stage, f, b, hpc⟩ := htask
        exact h.execute hx hpc
      by_cases hpicked : ∃ ft, x.pc = .picked (some ft)
      · obtain ⟨ft, hpc⟩ := hpicked
        have hpcy : y.pc = .picked (some (x.nameOf ft)) := by rw [h.pc, hpc]; rfl
        have hx' : x.runStep true pool = x.take true ft := by unfold runStep; rw [hpc]
        have hy' : y.runStep false pool = y.take false (x.nameOf ft) := by unfold runStep; rw [hpcy]
        rw [hx', hy']
        exact h.take hx hpc
      · exact h.idle (fun stage f b hpc => htask ⟨stage, f, b, hpc⟩) (fun ft hpc => hpicked ⟨ft, hpc⟩)
          hscan

/-- They begin in step. -/
theorem init_inStep (pool : Pool Unit) : InStep (init pool) (init pool) where
  ghost := rfl
  shared := rfl
  queue := rfl
  pc := by
    show (init pool).pc = namePc _ (init pool).pc
    rcases init_pc pool () with hpc | hpc <;> · rw [show (init pool).pc = _ from hpc]; rfl
  handle n hn := absurd hn (Nat.not_lt_zero n)
  body f hf := absurd hf (Nat.not_lt_zero f)
  fresh := ⟨rfl, fun n hn => absurd hn (Nat.not_lt_zero n)⟩
  fiber f hf := absurd hf (Nat.not_lt_zero f)
  queued ft hft := absurd hft List.not_mem_nil
  hand := by
    show HandOk _ (init pool).pc
    rcases init_pc pool () with hpc | hpc <;> · rw [show (init pool).pc = _ from hpc]; trivial

/-- **Both runs stay in step** while no entry that is taken is stale. -/
theorem run_inStep (acts : List (SchedAct Unit))
    (h : Along (step true pool) (NotStale pool) (init pool) acts) :
    InStep (run (step true pool) (init pool) acts) (run (step false pool) (init pool) acts) := by
  have hgo : ∀ (acts : List (SchedAct Unit)) (x y : Bodies), InStep x y → Fit x.s → Fit y.s →
      Along (step true pool) (NotStale pool) x acts →
      InStep (run (step true pool) x acts) (run (step false pool) y acts) := by
    intro acts
    -- on the actions, with any two states that are in step
    induction acts with
    | nil => exact fun x y hxy _ _ _ => hxy
    | cons a acts ih =>
      intro x y hxy hx hy hal
      exact ih _ _ (step_inStep hxy hx hy a hal.1) (step_fit hx a) (step_fit hy a) hal.2
  exact hgo acts _ _ (init_inStep pool) (init_fit pool) (init_fit pool) h

/-- **Recycling the callback fiber is unobservable** in every run of one worker in which no entry
is taken whose fiber has been given to another body since its handle was obtained. -/
theorem unobservable (pool : Pool Unit) (acts : List (SchedAct Unit))
    (h : Along (step true pool) (NotStale pool) (init pool) acts) : Unobservable pool acts := by
  have hend := run_inStep acts h
  have hghost := hend.ghost
  have hshared := shared_iff.1 hend.shared
  simp only [Prod.mk.injEq] at hghost
  refine ⟨hghost.2.2.2.symm, hshared.2.2.2.2.1.symm, hshared.2.2.1.symm, ?_, ?_⟩
  · intro x hx f b hpc
    obtain ⟨bs, hbs, rfl⟩ := mem_trace.1 hx
    have hhand := (run_inStep bs (h.initial hbs)).hand
    rw [hpc] at hhand
    exact hhand
  · intro x hx
    have hfit : Fit x.s := by
      obtain ⟨bs, -, rfl⟩ := mem_trace.1 hx
      exact run_inv (I := fun x : Bodies => Fit x.s) (fun x a h => step_fit h a) bs _ (init_fit pool)
    exact not_resetFails hfit

/-- A callback is queued and started. -/
def start (cb : Callback) : List (SchedAct Unit) :=
  [.call (.scheduler (some (.cb cb)) (-1)), .run (), .run (), .run (), .run ()]

/-- What is swapped out goes back to `run()`. -/
def goBack : List (SchedAct Unit) := [.run (), .run (), .run ()]

/-- A callback ends; in its fiber a second one schedules itself, yields, and ends too. -/
def scheduledItself : List (SchedAct Unit) :=
  start 7 ++ .user () .finish :: goBack ++ start 8 ++
    .user () (.call (.scheduler (some (.fiber 1)) (-1))) :: .user () .yieldToHold :: goBack ++
    [.run (), .run (), .run (), .run (), .user () .finish] ++ goBack

theorem unobservable_scheduled_itself :
    Along (step true oneThread) (NotStale oneThread) (init oneThread) scheduledItself ∧
      Unobservable oneThread scheduledItself :=
  ⟨by decide, unobservable oneThread scheduledItself (by decide)⟩

/-- A callback ends; in its fiber a second one yields, and the handle that the first one has kept
is scheduled. -/
def keptHandle : List (SchedAct Unit) :=
  start 7 ++ .user () .finish :: goBack ++ start 8 ++ .user () .yieldToHold :: goBack ++
    [.call (.scheduler (some (.fiber 0)) (-1)), .run (), .run (), .run (), .run (),
      .user () .finish]

/-- **The first callback's handle resumes the second one**, where with a new fiber for each there
would be no callback left in it. -/
theorem kept_handle_resumes :
    (run (step true oneThread) (init oneThread) keptHandle).body 0 = 1 ∧
      (run (step true oneThread) (init oneThread) keptHandle).hand = 0 ∧
      (run (step true oneThread) (init oneThread) keptHandle).log.length = 3 ∧
      (run (step false oneThread) (init oneThread) keptHandle).log.length = 2 ∧
      ¬ Unobservable oneThread keptHandle := by
  have hlog : (run (step true oneThread) (init oneThread) keptHandle).log.length = 3 := by decide
  have hlog' : (run (step false oneThread) (init oneThread) keptHandle).log.length = 2 := by decide
  refine ⟨by decide, by decide, hlog, hlog', ?_⟩
  intro h
  rw [h.log, hlog'] at hlog
  cases hlog

end Bodies

end Coroutine
