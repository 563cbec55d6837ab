import Coroutine.Proof.SchedulerOnce

/-!
# What is left when `stop()` returns

A worker leaves the loop after its idle fiber has seen an empty queue, and a worker whose
task pushed a callback takes one itself before it may leave.

* `move_turning`: a worker passes the scan without an entry only when no unpinned callback
  is queued.
* `move_stops`: so when `stop()` has returned, nothing is queued that was pushed before it
  was called, or by a task of a worker.
* `once_and_in_order`: while no worker switches to a fiber another is on, unpinned callbacks
  are popped in the order of the pushes and started once at most, and once exactly when
  `stop()` has returned.
-/

namespace Coroutine

open Lib

/-- The worker is at the scan, or will be before it can leave. -/
def Pc.turning {W : Type} : Pc W → Bool
  | .scan | .picked (some _) | .task _ _ _ => true
  | _ => false

/-- The worker is not in `run()`. -/
def Pc.rest {W : Type} : Pc W → Bool
  | .out | .exited => true
  | _ => false

theorem Pc.rest_iff {W : Type} {pc : Pc W} : pc.rest = true ↔ pc = .out ∨ pc = .exited := by
  cases pc <;> simp [Pc.rest]

/-- Pushed before `stop()` was called, or by a task of a worker. -/
def FiberAndThread.owed {W : Type} (ft : FiberAndThread W) : Prop :=
  ft.early = true ∨ ft.pusher.isSome

namespace Scheduler

variable {W : Type} {pool : Pool W} {s s' : Scheduler W} {a : SchedAct W}

/-- Nothing is queued that was pushed before `stop()` was called. -/
structure Drained (s : Scheduler W) : Prop where
  called : s.stopPc ≠ .out
  queue : ∀ ft ∈ s.m_fibers, ft.free = true → ft.early = false

/-- **The invariant of the shutdown.** -/
structure Stops (pool : Pool W) (s : Scheduler W) : Prop where
  /-- a worker whose task pushed a queued callback has not passed the scan -/
  pusher : ∀ ft ∈ s.m_fibers, ft.free = true → ∀ w ∈ ft.pusher, (s.worker w).pc.turning = true
  auto : s.m_autoStop = true → s.stopPc ≠ .out
  idle : ∀ w, (s.worker w).idle = .TERM → s.Drained
  exited : ∀ w, (s.worker w).pc = .exited → (s.worker w).idle = .TERM
  /-- the root fiber runs only inside its `call()` -/
  root : s.stopPc ≠ .call → ∀ w, pool.root = some w → (s.worker w).pc.rest = true
  early : s.stopPc = .early ∨ s.stopPc = .earlyTest → ∀ w, pool.root = some w
  join : s.stopPc = .join → pool.root.isSome → s.Drained
  done : s.stopPc = .done → s.Drained ∧ ∀ w, (s.worker w).pc.rest = true

theorem drained_of_stopping (hauto : s.m_autoStop = true → s.stopPc ≠ .out) (h : s.stopping) :
    s.Drained := by
  obtain ⟨ha, -, hempty, -⟩ := h
  refine ⟨hauto ha, ?_⟩
  rw [hempty]
  intro ft hft
  cases hft

/-- What a call by user code queues. -/
theorem call_queued (s : Scheduler W) (pusher : Option W) (c : SchedCall) :
    ∀ ft ∈ (s.call pusher c).m_fibers, ft ∈ s.m_fibers ∨
      ft.early = decide (s.stopPc = .out) ∧ ft.pusher = pusher := by
  refine (call_inv (I := fun t : Scheduler W => t.stopPc = s.stopPc ∧ ∀ ft ∈ t.m_fibers,
    ft ∈ s.m_fibers ∨ ft.early = decide (s.stopPc = .out) ∧ ft.pusher = pusher) ?_
    (fun _ _ h => h) ⟨rfl, fun ft hft => Or.inl hft⟩ c).2
  rintro t task thread ⟨hpc, hall⟩ _
  refine ⟨hpc, ?_⟩
  intro ft hft
  rcases List.mem_append.1 hft with hft | hft
  · exact hall ft hft
  · rw [List.mem_singleton] at hft
    subst hft
    exact Or.inr ⟨by rw [← hpc], rfl⟩

variable [DecidableEq W]

theorem init_stops (pool : Pool W) : (init pool).Stops pool := by
  refine ⟨?_, ?_, ?_, ?_, ?_, ?_, ?_, ?_⟩
  · intro ft hft; cases hft
  · intro h; cases h
  · intro w hw; cases hw
  · intro w hw
    rcases init_pc pool w with h | h <;> rw [h] at hw <;> cases hw
  · intro _ w hw
    have hpc : ((init pool).worker w).pc = .out := if_pos hw
    rw [hpc]
    rfl
  · intro h; rcases h with h | h <;> cases h
  · intro h; cases h
  · intro h; cases h

variable [Fintype W]

/-! ## How the queue and the workers got where they are -/

/-- An unpinned callback queued after a move was queued before, or has just been pushed,
outside or by a worker's task. -/
theorem move_queued (h : Move pool s a s') {ft : FiberAndThread W} (hft : ft ∈ s'.m_fibers)
    (hfree : ft.free = true) : ft ∈ s.m_fibers ∨ ft.early = decide (s.stopPc = .out) ∧
      ∀ w ∈ ft.pusher, s'.worker = s.worker ∧ (s.worker w).pc.turning = true := by
  have hfiber : ∀ {l : List (FiberAndThread W)} {f : FiberPtr} {i : ℕ} {e : Bool},
      ft ∈ l ++ [{ task := .fiber f, thread := -1, serial := i, early := e, pusher := none }] →
      ft ∈ l := by
    intro l f i e hmem
    rcases List.mem_append.1 hmem with hmem | hmem
    · exact hmem
    · rw [List.mem_singleton] at hmem
      subst hmem
      simp [FiberAndThread.free] at hfree
  cases h with
  | callOut c =>
    rcases call_queued s none c ft hft with hold | ⟨hearly, hpusher⟩
    · exact Or.inl hold
    · exact Or.inr ⟨hearly, fun w hw => by rw [hpusher] at hw; cases hw⟩
  | callIn w f b c hpc =>
    rcases call_queued s (some w) c ft hft with hold | ⟨hearly, hpusher⟩
    · exact Or.inl hold
    · refine Or.inr ⟨hearly, fun v hv => ⟨(call_frame s (some w) c).worker, ?_⟩⟩
      rw [hpusher] at hv
      cases hv
      rw [hpc]
      rfl
  | stop => rw [(stopStep_frame pool s).fibers] at hft; exact Or.inl hft
  | pop w ft' hpc hfind => exact Or.inl (List.mem_of_mem_eraseP hft)
  | requeue w f hpc => exact Or.inl (hfiber hft)
  | requeueCb w f hpc => exact Or.inl (hfiber hft)
  | _ => exact Or.inl hft

/-- **A worker turns around** until its scan takes nothing, which leaves no unpinned callback
in the queue. -/
theorem move_turning (h : Move pool s a s') {v : W} (hv : (s.worker v).pc.turning = true) :
    (s'.worker v).pc.turning = true ∨
      s'.m_fibers = s.m_fibers ∧ ∀ ft ∈ s.m_fibers, ft.free = false := by
  cases h with
  | stay => exact Or.inl hv
  | abort => exact Or.inl hv
  | callOut c => rw [(call_frame s none c).worker]; exact Or.inl hv
  | callIn w f b c hpc => rw [(call_frame s (some w) c).worker]; exact Or.inl hv
  | stop => rw [(stopStep_frame pool s).worker]; exact Or.inl hv
  | miss w hpc hfind => exact Or.inr ⟨rfl, fun ft hft => not_free_of_find_none hfind hft⟩
  | _ =>
    left
    refine update_intro (P := fun k : Worker W => k.pc.turning = true) hv ?_
    intro hw
    first
      | rfl
      | simp [*, Pc.turning] at hw

/-- An idle fiber ends in a state in which the scheduler is stopping. -/
theorem move_idle (h : Move pool s a s') {v : W} (hv : (s'.worker v).idle = .TERM) :
    (s.worker v).idle = .TERM ∨ s.stopping := by
  cases h with
  | stay => exact Or.inl hv
  | abort => exact Or.inl hv
  | callOut c => rw [(call_frame s none c).worker] at hv; exact Or.inl hv
  | callIn w f b c hpc => rw [(call_frame s (some w) c).worker] at hv; exact Or.inl hv
  | stop => rw [(stopStep_frame pool s).worker] at hv; exact Or.inl hv
  | idleStop w hpc hstop => exact Or.inr hstop
  | _ =>
    left
    rcases update_elim (P := fun k : Worker W => k.idle = .TERM) hv with ⟨rfl, hv⟩ | ⟨-, hv⟩
    · first
        | exact hv
        | cases hv
    · exact hv

/-- A worker that has left did so because its idle fiber had ended. -/
theorem move_exited (hexit : ∀ w, (s.worker w).pc = .exited → (s.worker w).idle = .TERM)
    (h : Move pool s a s') (v : W) : (s'.worker v).pc = .exited → (s'.worker v).idle = .TERM := by
  cases h with
  | stay => exact hexit v
  | abort => exact hexit v
  | callOut c => rw [(call_frame s none c).worker]; exact hexit v
  | callIn w f b c hpc => rw [(call_frame s (some w) c).worker]; exact hexit v
  | stop => rw [(stopStep_frame pool s).worker]; exact hexit v
  | exit w hpc hidle =>
    exact update_intro (P := fun k : Worker W => k.pc = .exited → k.idle = .TERM) (hexit v)
      (fun _ _ => hidle)
  | _ =>
    refine update_intro (P := fun k : Worker W => k.pc = .exited → k.idle = .TERM) (hexit v) ?_
    intro _ hpc
    cases hpc

/-- Only `stop()` brings a worker into `run()`, and only the one that is the root fiber. -/
theorem move_rest (h : Move pool s a s') {v : W} (hv : (s.worker v).pc.rest = true) :
    (s'.worker v).pc.rest = true ∨ s.stopPc = .call := by
  cases h with
  | stay => exact Or.inl hv
  | abort => exact Or.inl hv
  | callOut c => rw [(call_frame s none c).worker]; exact Or.inl hv
  | callIn w f b c hpc => rw [(call_frame s (some w) c).worker]; exact Or.inl hv
  | stop => rw [(stopStep_frame pool s).worker]; exact Or.inl hv
  | begin w hpc hroot hcall => exact Or.inr hcall
  | _ =>
    left
    refine update_intro (P := fun k : Worker W => k.pc.rest = true) hv ?_
    intro hw
    first
      | rfl
      | simp [*, Pc.rest, setFiber, setState, newFiber, push] at hw

/-! ## The steps of `stop()` -/

theorem move_drained (hs : s.Drained) (h : Move pool s a s') : s'.Drained := by
  refine ⟨?_, ?_⟩
  · rcases move_flags h with ⟨-, rfl⟩ | ⟨heq, -, -⟩
    · exact stopStep_called pool s
    · rw [heq]; exact hs.called
  · intro ft hft hfree
    rcases move_queued h hft hfree with hold | ⟨hearly, -⟩
    · exact hs.queue ft hold hfree
    · rw [hearly]
      exact decide_eq_false hs.called

omit [DecidableEq W] [Fintype W] in
/-- What a step of `stop()` has to establish. -/
theorem stops_of_frame (hs : s.Stops pool) (hf : StopFrame s s')
    (hdrained : s.Drained → s'.Drained) (hauto : s'.stopPc ≠ .out)
    (hroot : s'.stopPc ≠ .call → ∀ w, pool.root = some w → (s.worker w).pc.rest = true)
    (hearly : s'.stopPc = .early ∨ s'.stopPc = .earlyTest → ∀ w, pool.root = some w)
    (hjoin : s'.stopPc = .join → pool.root.isSome → s'.Drained)
    (hdone : s'.stopPc = .done → s'.Drained ∧ ∀ w, (s.worker w).pc.rest = true) :
    s'.Stops pool := by
  refine ⟨?_, fun _ => hauto, ?_, ?_, ?_, hearly, hjoin, ?_⟩
  · rw [hf.fibers, hf.worker]; exact hs.pusher
  · rw [hf.worker]; exact fun w hw => hdrained (hs.idle w hw)
  · rw [hf.worker]; exact hs.exited
  · rw [hf.worker]; exact hroot
  · rw [hf.worker]; exact hdone

theorem stopStep_stops [Nonempty W] (hs : s.Stops pool) : (s.stopStep pool).Stops pool := by
  have hf := stopStep_frame pool s
  have hdrained : s.Drained → (s.stopStep pool).Drained := fun h => move_drained h (.stop)
  have hmove := stopStep_move pool s
  generalize s.stopStep pool = s' at hf hdrained hmove ⊢
  cases hmove with
  | begin hpc hcaller =>
    exact stops_of_frame hs hf hdrained nofun (fun _ => hs.root (by rw [hpc]; nofun)) nofun nofun nofun
  | beginEarly hpc hcaller =>
    exact stops_of_frame hs hf hdrained nofun (fun _ => hs.root (by rw [hpc]; nofun))
      (fun _ => hcaller.2) nofun nofun
  | markEarly hpc =>
    exact stops_of_frame hs hf hdrained nofun (fun _ => hs.root (by rw [hpc]; nofun))
      (fun _ => hs.early (Or.inl hpc)) nofun nofun
  | testEarly hpc hstop =>
    have hroot := hs.root (by rw [hpc]; nofun)
    -- the only worker is the root fiber, and it was never called
    exact stops_of_frame hs hf hdrained nofun (fun _ => hroot) nofun nofun fun _ =>
      ⟨hdrained (drained_of_stopping hs.auto hstop), fun w => hroot w (hs.early (Or.inr hpc) w)⟩
  | missEarly hpc =>
    exact stops_of_frame hs hf hdrained nofun (fun _ => hs.root (by rw [hpc]; nofun)) nofun nofun nofun
  | mark hpc hcaller =>
    exact stops_of_frame hs hf hdrained nofun (fun _ => hs.root (by rw [hpc]; nofun)) nofun nofun nofun
  | markThreads hpc hcaller =>
    exact stops_of_frame hs hf hdrained nofun (fun _ => hs.root (by rw [hpc]; nofun)) nofun
      (fun _ h => absurd h hcaller) nofun
  | test hpc hstop =>
    exact stops_of_frame hs hf hdrained nofun (fun _ => hs.root (by rw [hpc]; nofun)) nofun
      (fun _ _ => hdrained (drained_of_stopping hs.auto hstop)) nofun
  | miss hpc => exact stops_of_frame hs hf hdrained nofun (fun h => absurd rfl h) nofun nofun nofun
  | call hpc hexit =>
    refine stops_of_frame hs hf hdrained nofun ?_ nofun ?_ nofun
    · intro _ w hw
      rw [hexit w hw]
      rfl
    · intro _ hcaller
      obtain ⟨w, hw⟩ := Option.isSome_iff_exists.1 hcaller
      exact hdrained (hs.idle w (hs.exited w (hexit w hw)))
  | join hpc hexit =>
    have hroot := hs.root (by rw [hpc]; nofun)
    refine stops_of_frame hs hf hdrained nofun (fun _ => hroot) nofun nofun fun _ => ⟨?_, ?_⟩
    · by_cases hcaller : pool.root.isSome
      · exact hdrained (hs.join hpc hcaller)
      · -- every worker is a thread, and all have left
        obtain ⟨w⟩ := ‹Nonempty W›
        rcases hexit w with hw | hw
        · rw [hw] at hcaller; simp at hcaller
        · exact hdrained (hs.idle w (hs.exited w hw))
    · intro w
      rcases hexit w with hw | hw
      · exact hroot w hw
      · rw [hw]; rfl
  | wait => exact hs

/-- **Every move keeps the invariant of the shutdown.** -/
theorem move_stops [Nonempty W] (hs : s.Stops pool) (h : Move pool s a s') : s'.Stops pool := by
  rcases move_flags h with ⟨-, rfl⟩ | ⟨hpc, hauto, -⟩
  · exact stopStep_stops hs
  refine ⟨?_, ?_, ?_, ?_, ?_, ?_, ?_, ?_⟩
  · intro ft hft hfree w hw
    rcases move_queued h hft hfree with hold | ⟨-, hnew⟩
    · rcases move_turning h (hs.pusher ft hold hfree w hw) with hturn | ⟨-, hnone⟩
      · exact hturn
      · rw [hnone ft hold] at hfree; cases hfree
    · obtain ⟨hworker, hturn⟩ := hnew w hw
      rw [hworker]; exact hturn
  · rw [hpc, hauto]; exact hs.auto
  · intro w hw
    rcases move_idle h hw with hold | hstop
    · exact move_drained (hs.idle w hold) h
    · exact move_drained (drained_of_stopping hs.auto hstop) h
  · exact move_exited hs.exited h
  · rw [hpc]
    intro hcall w hw
    exact (move_rest h (hs.root hcall w hw)).resolve_right hcall
  · rw [hpc]; exact hs.early
  · rw [hpc]
    exact fun hjoin hcaller => move_drained (hs.join hjoin hcaller) h
  · rw [hpc]
    intro hdone
    obtain ⟨hdrained, hrest⟩ := hs.done hdone
    refine ⟨move_drained hdrained h, ?_⟩
    intro w
    exact (move_rest h (hrest w)).resolve_right (by rw [hdone]; simp)

/-! ## Whole runs -/

/-- **No task is lost or run twice.** -/
structure OnceInOrder (s : Scheduler W) : Prop where
  /-- unpinned callbacks are popped in the order of the pushes -/
  order : s.popped.filter (·.free) <+: s.pushed.filter (·.free)
  /-- no entry is popped twice -/
  popped : (s.popped.map (·.serial)).Nodup
  /-- no callback is started twice -/
  started : s.started.Nodup
  /-- when `stop()` has returned, what it owes was started once -/
  stopped : s.stopPc = .done → ∀ ft ∈ s.pushed, ft.free = true → ft.owed →
    s.started.count ft.serial = 1

/-- Everything the invariants say of a state. -/
structure Ordered (pool : Pool W) (s : Scheduler W) : Prop where
  exist : s.Exist
  queue : s.Queue
  sound : s.Sound
  carry : s.Carry
  once : s.Once
  pending : s.Pending
  stops : s.Stops pool

omit [DecidableEq W] [Fintype W] in
theorem onceInOrder_of_ordered (hs : s.Ordered pool) : s.OnceInOrder := by
  refine ⟨?_, ?_, hs.once.nodup, ?_⟩
  · refine ⟨s.m_fibers.filter (·.free), ?_⟩
    rw [← List.filter_append]
    exact hs.queue.order
  · have hnodup := hs.queue.nodup
    rw [List.map_append] at hnodup
    exact hnodup.of_append_left
  · intro hdone ft hft hfree howed
    obtain ⟨hdrained, hrest⟩ := hs.stops.done hdone
    obtain ⟨-, cb, htask⟩ := ft.free_iff.1 hfree
    have hidle : ∀ w, (s.worker w).pc.picks = none ∧ (s.worker w).pc.about = none ∧
        (s.worker w).pc.turning = false := by
      intro w
      rcases Pc.rest_iff.1 (hrest w) with h | h <;> rw [h] <;> exact ⟨rfl, rfl, rfl⟩
    have hpop : ft ∈ s.popped := by
      rcases List.mem_append.1 (hs.queue.all.mem_iff.2 hft) with hpop | hqueued
      · exact hpop
      · -- what is still queued is not owed
        rcases howed with hearly | hpusher
        · rw [hdrained.queue ft hqueued hfree] at hearly; cases hearly
        · obtain ⟨w, hw⟩ := Option.isSome_iff_exists.1 hpusher
          have hturn := hs.stops.pusher ft hqueued hfree w hw
          rw [(hidle w).2.2] at hturn
          cases hturn
    have hstarted : ft.serial ∈ s.started := by
      rcases hs.pending.all ft hpop cb htask with hst | ⟨w, hw⟩ | ⟨w, f, hw, -⟩
      · exact hst
      · rw [(hidle w).1] at hw; cases hw
      · rw [(hidle w).2.1] at hw; cases hw
    exact List.count_eq_one_of_mem hs.once.nodup hstarted

/-- **In a run in which no worker switches to a fiber that another worker is still on, no
task is lost or run twice.** -/
theorem once_and_in_order {W : Type} [Fintype W] [DecidableEq W] [Nonempty W] (pool : Pool W)
    (acts : List (SchedAct W))
    (h : Along (step pool) (fun s a => s.fault = none → s.SwitchesAlone a) (init pool) acts) :
    ∀ s ∈ trace (step pool) (init pool) acts, s.OnceInOrder := by
  have hinit : (init pool).Ordered pool :=
    ⟨init_exist pool, init_queue pool, init_sound pool, init_carry pool, init_once pool,
      init_pending pool, init_stops pool⟩
  intro s hs
  refine onceInOrder_of_ordered (trace_inv_of (I := Ordered pool) ?_ acts hinit h s hs)
  intro s a hs halone
  by_cases hfault : s.fault = none
  · have hmove := step_move pool s a
    have ha := halone hfault
    have hcarry := move_carry hs.queue hs.carry hmove
    exact ⟨move_exist hs.exist hmove, move_queue hs.queue hmove, move_sound hs.exist hs.sound hmove ha,
      hcarry, move_once hs.carry hs.once hmove hcarry ha,
      move_pending hs.exist hs.sound hs.pending hmove, move_stops hs.stops hmove⟩
  · rw [step_of_fault hfault]; exact hs

/-- A callback schedules another, which the second thread executes; then `stop()` returns. -/
def shutDown : List (SchedAct Bool) :=
  [.call (.scheduler (some (.cb 7)) (-1)), .run true, .run true, .run true, .run true,
    .user true (.call (.scheduler (some (.cb 8)) (-1))), .stop, .stop, .user true .finish, .run true,
    .run true, .run true, .run false, .run false, .run false, .run false, .user false .finish,
    .run false, .run false, .run false, .run true, .run true, .run true, .run true, .run true,
    .run true, .run true, .run false, .run false, .run false, .run false, .run false, .run false,
    .run false, .stop]

theorem once_and_in_order_shut_down :
    (run (step twoThreads) (init twoThreads) shutDown).stopPc = .done ∧
      (run (step twoThreads) (init twoThreads) shutDown).started = [0, 1] ∧
      ∀ s ∈ trace (step twoThreads) (init twoThreads) shutDown, s.OnceInOrder :=
  ⟨by decide, by decide, once_and_in_order twoThreads shutDown (by decide)⟩

/-- A callback schedules its own fiber and yields; the other thread pops the fiber before its
context is saved. -/
def startedTwice : List (SchedAct Bool) :=
  [.call (.scheduler (some (.cb 7)) (-1)), .run true, .run true, .run true, .run true,
    .user true (.call (.scheduler (some (.fiber 0)) (-1))), .user true .yieldToHold, .run false,
    .run false, .run false, .run false]

/-- The one callback that was pushed is started twice. -/
theorem started_twice_not_once :
    let s := run (step twoThreads) (init twoThreads) startedTwice
    s.started = [0, 0] ∧ s.pushed.countP (·.free) = 1 ∧
      ¬ ∀ s ∈ trace (step twoThreads) (init twoThreads) startedTwice, s.OnceInOrder := by
  intro s
  have hstarted : s.started = [0, 0] := by decide
  refine ⟨hstarted, by decide, ?_⟩
  intro h
  have honce : s.OnceInOrder := h s (mem_trace.2 ⟨startedTwice, List.prefix_rfl, rfl⟩)
  have hnodup := honce.started
  rw [hstarted] at hnodup
  exact absurd hnodup (by decide)

end Scheduler

end Coroutine
