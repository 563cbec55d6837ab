import Coroutine.Lib.Fair
import Coroutine.Proof.SchedulerCallbacks
import Coroutine.Proof.SchedulerClosing
import Mathlib.Order.Filter.Finite

/-!
# `stop()` returns

An infinite run of callbacks, in which every worker, every task and the thread in `stop()` go on
again and again, and at last nothing more is scheduled.

* `step_good`: what holds in every state. When the idle fiber of a worker has ended, or `stop()` is
  past the root fiber, nothing is left to do.
* `settles`: the work gets less. A worker with a task goes on with it, and while something is queued
  one that may take it comes back to the scan.
* `leaves`: then every worker sees that the scheduler is stopping, and leaves.
* `stop_returns`: `stop()` returns, and every callback was executed once.
-/

namespace Coroutine

open Lib Filter

/-- The thread in `stop()` has set `m_stopping`. -/
def StopPc.marked : StopPc → Bool
  | .out | .early | .mark => false
  | _ => true

/-- It waits for the root fiber or for the threads, or has returned. -/
def StopPc.late : StopPc → Bool
  | .call | .join | .done => true
  | _ => false

/-- Its steps until then. -/
def StopPc.before : StopPc → ℕ
  | .out => 5
  | .early => 4
  | .earlyTest => 3
  | .mark => 2
  | .test => 1
  | _ => 0

/-- The steps that are left of a task. -/
def Pc.left {W : Type} : Pc W → ℕ
  | .picked (some _) => 8
  | .task .enter _ _ => 7
  | .task .switch _ _ => 6
  | .task .running _ _ => 5
  | .task (.leaving _) _ _ => 4
  | .task .back _ _ => 3
  | .task .fixup _ _ => 2
  | .task .requeue _ _ => 1
  | _ => 0

/-- The steps to the next scan of a worker without a task. -/
def Pc.away {W : Type} : Pc W → ℕ
  | .picked none => 4
  | .idleIn => 3
  | .idle => 2
  | .idleOut | .out => 1
  | _ => 0

/-- The steps to the end of `run()` of a worker that has nothing to do, once the scheduler is
stopping. -/
def Worker.toExit {W : Type} (wk : Worker W) : ℕ :=
  match wk.pc with
  | .exited => 0
  | .picked _ => if wk.idle = .TERM then 1 else 6
  | .scan => if wk.idle = .TERM then 2 else 7
  | .idleOut => if wk.idle = .TERM then 3 else 8
  | .idle => 4
  | .idleIn => 5
  | .task _ _ _ | .out => 8

/-- The step schedules something. -/
def SchedAct.calls {W : Type} : SchedAct W → Bool
  | .user _ (.call _) | .call _ => true
  | _ => false

/-- The worker, or its task, goes on. -/
def SchedAct.moves {W : Type} [DecidableEq W] (w : W) : SchedAct W → Bool
  | .run v | .user v _ => v = w
  | _ => false

namespace Scheduler

variable {W : Type} {pool : Pool W} {s s' : Scheduler W} {a : SchedAct W}

/-- A worker knows that the scheduler is stopping, or the thread in `stop()` does. -/
def Over (pool : Pool W) (s : Scheduler W) : Prop :=
  (∃ w, (s.worker w).idle = .TERM) ∨ (s.stopPc = .join ∧ pool.root.isSome) ∨ s.stopPc = .done

variable [Fintype W] [DecidableEq W]

/-! ## What holds in every state -/

/-- **The invariant.** -/
structure Good (pool : Pool W) (s : Scheduler W) : Prop where
  only : s.OnlyCallbacks pool
  ordered : s.Ordered pool
  count : s.CountExact
  counted : s.Counted
  marked : s.stopPc.marked = true → s.m_stopping = true
  out : ∀ w, (s.worker w).pc = .out → pool.root = some w
  taken : ∀ ft ∈ s.popped, ft.task.fiber? = none
  settled : s.Over pool → s.Stopped

omit [DecidableEq W] in
/-- No callback is put back. -/
theorem Good.no_putsBack (hs : s.Good pool) (w : W) : ¬ s.PutsBack w := by
  intro hput
  unfold PutsBack at hput
  cases hpc : (s.worker w).pc with
  | task stage f b =>
    have hserves := hs.only.serves w f (hs.only.task w stage f b hpc).2
    rw [hpc] at hput hserves
    cases stage with
    | fixup =>
      have hready : (s.fiber f).m_state = .READY := hput
      rcases hserves with hst | hst <;> rw [hready] at hst <;> cases hst
    | requeue => exact hserves
    | _ => exact hput
  | _ => rw [hpc] at hput; exact hput

omit [DecidableEq W] in
theorem Good.stopped_of_stopping (hs : s.Good pool) (h : s.stopping) : s.Stopped :=
  Scheduler.stopped_of_stopping hs.counted h hs.no_putsBack

omit [DecidableEq W] in
/-- Before `stop()` is called nobody knows. -/
theorem Good.called (hs : s.Good pool) (h : s.Over pool) : s.stopPc ≠ .out := by
  rcases h with ⟨w, hterm⟩ | ⟨hjoin, -⟩ | hdone
  · exact (hs.ordered.stops.idle w hterm).called
  · rw [hjoin]
    simp
  · rw [hdone]
    simp

/-- A step of `stop()` that goes past the root fiber does so with nothing left to do. -/
theorem Good.stop_over [Nonempty W] (hs : s.Good pool) (h : (s.stopStep pool).Over pool) :
    s.Over pool ∨ s.stopping := by
  have hframe := stopStep_frame pool s
  have hmove := stopStep_move pool s
  rcases h with ⟨w, hterm⟩ | ⟨hjoin, hroot⟩ | hdone
  · rw [hframe.worker] at hterm
    exact Or.inl (Or.inl ⟨w, hterm⟩)
  · generalize s.stopStep pool = s' at hjoin hmove
    cases hmove with
    | test hpc hstop => exact Or.inr hstop
    | markThreads hpc hcaller => exact absurd hroot hcaller
    | call hpc hexit =>
      obtain ⟨w, hw⟩ := Option.isSome_iff_exists.1 hroot
      exact Or.inl (Or.inl ⟨w, hs.ordered.stops.exited w (hexit w hw)⟩)
    | wait => exact Or.inl (Or.inr (Or.inl ⟨hjoin, hroot⟩))
    | _ => cases hjoin
  · generalize s.stopStep pool = s' at hdone hmove
    cases hmove with
    | testEarly hpc hstop => exact Or.inr hstop
    | join hpc hexit =>
      by_cases hroot : pool.root.isSome
      · exact Or.inl (Or.inr (Or.inl ⟨hpc, hroot⟩))
      · -- every worker is a thread
        obtain ⟨w⟩ := ‹Nonempty W›
        rcases hexit w with hw | hw
        · rw [hw] at hroot
          exact absurd rfl hroot
        · exact Or.inl (Or.inl ⟨w, hs.ordered.stops.exited w hw⟩)
    | wait => exact Or.inl (Or.inr (Or.inr hdone))
    | _ => cases hdone

/-- Who knows after a step: nothing was left to do before it. -/
theorem Good.over_after [Nonempty W] (hs : s.Good pool) (h : (s.step pool a).Over pool) :
    s.Over pool ∨ s.stopping := by
  have hmove := step_move pool s a
  rcases move_flags hmove with ⟨-, heq⟩ | ⟨hpc, -, -⟩
  · rw [heq] at h
    exact hs.stop_over h
  · rcases h with ⟨w, hterm⟩ | hlate
    · rcases move_idle hmove hterm with hold | hstop
      · exact Or.inl (Or.inl ⟨w, hold⟩)
      · exact Or.inr hstop
    · rw [hpc] at hlate
      exact Or.inl (Or.inr hlate)

omit [DecidableEq W] in
/-- A callback's fiber is switched to by its own worker. -/
theorem Good.switchesAlone (hs : s.Good pool) (a : SchedAct W) : s.SwitchesAlone a := by
  cases a with
  | run w =>
    intro f hf v hv hon
    have hw : (s.worker w).cb_fiber = some f := by
      cases hpc : (s.worker w).pc with
      | task stage g b =>
        cases stage with
        | switch =>
          rw [hpc] at hf
          have hg : g = f := Option.some.inj hf
          subst hg
          exact (hs.only.task w .switch g b hpc).2
        | _ => rw [hpc] at hf; cases hf
      | _ => rw [hpc] at hf; cases hf
    have hw' : (s.worker v).cb_fiber = some f := by
      cases hpc : (s.worker v).pc with
      | task stage g b =>
        rw [hpc] at hon
        have hg : g = f := by
          cases stage <;> first | exact Option.some.inj hon | cases hon
        subst hg
        exact (hs.only.task v stage g b hpc).2
      | _ => rw [hpc] at hon; cases hon
    exact hv (hs.only.own v w f hw' hw)
  | user w u => exact True.intro
  | call c => exact True.intro
  | stop => exact True.intro

/-- **Every step keeps the invariant.** -/
theorem step_good [Nonempty W] (hs : s.Good pool) (ha : s.CallbackStep pool a) :
    (s.step pool a).Good pool := by
  have hmove := step_move pool s a
  have halone := hs.switchesAlone a
  have ho := hs.ordered
  have hcarry := move_carry ho.queue ho.carry hmove
  refine ⟨step_onlyCallbacks hs.only ha, ?_, ?_, move_counted hs.counted hmove, ?_, ?_, ?_, ?_⟩
  · exact ⟨move_exist ho.exist hmove, move_queue ho.queue hmove,
      move_sound ho.exist ho.sound hmove halone, hcarry,
      move_once ho.carry ho.once hmove hcarry halone,
      move_pending ho.exist ho.sound ho.pending hmove, move_stops ho.stops hmove⟩
  · refine (step_exact_iff hs.count a).2 ?_
    rintro ⟨-, w, ft, f, -, hpc, htask⟩
    have hcb := hs.only.picked w ft hpc
    rw [htask] at hcb
    cases hcb
  · intro hmarked
    rcases move_flags hmove with ⟨-, heq⟩ | ⟨hpc, -, hset⟩
    · rw [heq] at hmarked ⊢
      have hstop := stopStep_move pool s
      generalize s.stopStep pool = s' at hmarked hstop
      cases hstop with
      | begin => cases hmarked
      | beginEarly => cases hmarked
      | missEarly => cases hmarked
      | markEarly => rfl
      | mark => rfl
      | markThreads => rfl
      | testEarly hpc => exact hs.marked (by rw [hpc]; rfl)
      | test hpc => exact hs.marked (by rw [hpc]; rfl)
      | miss hpc => exact hs.marked (by rw [hpc]; rfl)
      | call hpc => exact hs.marked (by rw [hpc]; rfl)
      | join hpc => exact hs.marked (by rw [hpc]; rfl)
      | wait => exact hs.marked hmarked
    · rw [hset]
      rw [hpc] at hmarked
      exact hs.marked hmarked
  · exact fun w hw => hs.out w (move_to_out hmove hw)
  · intro ft hft
    rcases move_popped hmove with heq | ⟨w, ft', hft', -, heq⟩
    · rw [heq] at hft
      exact hs.taken ft hft
    · rw [heq] at hft
      rcases List.mem_append.1 hft with hold | hnew
      · exact hs.taken ft hold
      · rw [List.mem_singleton] at hnew
        rw [hnew]
        exact (hs.only.queue ft' hft').1
  · intro hover
    have hbefore := hs.over_after hover
    have hstopped : s.Stopped := hbefore.elim hs.settled hs.stopped_of_stopping
    refine move_stopped hstopped hmove ?_
    -- nothing is pushed from outside any more
    rintro c rfl
    have hout : s.stopPc = .out := ha.1
    rcases hbefore with hold | hstop
    · exact hs.called hold hout
    · exact hs.ordered.stops.auto hstop.1 hout

theorem init_good (pool : Pool W) : (init pool).Good pool := by
  refine ⟨init_onlyCallbacks pool, ?_, init_exact pool, init_counted pool, ?_, ?_, ?_, ?_⟩
  · exact ⟨init_exist pool, init_queue pool, init_sound pool, init_carry pool, init_once pool,
      init_pending pool, init_stops pool⟩
  · intro hmarked
    cases hmarked
  · intro w hw
    by_contra hroot
    have hpc : ((init pool).worker w).pc = .scan := if_neg hroot
    rw [hpc] at hw
    cases hw
  · intro ft hft
    cases hft
  · rintro (⟨w, hterm⟩ | ⟨hjoin, -⟩ | hdone)
    · cases hterm
    · cases hjoin
    · cases hdone

/-! ## The work gets less -/

omit [DecidableEq W] in
/-- The work to do: the tasks of the workers, and what is queued. -/
def load (s : Scheduler W) : ℕ := 9 * s.m_fibers.length + ∑ w, (s.worker w).pc.left

omit [DecidableEq W] in
theorem load_congr (hworker : s'.worker = s.worker) (hqueue : s'.m_fibers = s.m_fibers) :
    s'.load = s.load := by
  unfold load
  rw [hworker, hqueue]

theorem load_of_update {w : W} {wk : Worker W} (h : s'.worker = Function.update s.worker w wk) :
    s'.load + (9 * s.m_fibers.length + (s.worker w).pc.left) =
      s.load + (9 * s'.m_fibers.length + wk.pc.left) := by
  have hsum := sum_change (f := fun v => (s.worker v).pc.left) (g := fun v => (s'.worker v).pc.left)
    (Finset.mem_univ w) (fun v _ hv => by rw [h, Function.update_of_ne hv])
  have hw : (s'.worker w).pc.left = wk.pc.left := by rw [h, Function.update_self]
  rw [hw] at hsum
  unfold load
  omega

/-- A worker gets on with its task, with the queue as it is. -/
theorem load_lt_of_update {w : W} {wk : Worker W} (h : s'.worker = Function.update s.worker w wk)
    (hqueue : s'.m_fibers = s.m_fibers) (hleft : wk.pc.left < (s.worker w).pc.left) :
    s'.load < s.load := by
  have hload := load_of_update h
  rw [hqueue] at hload
  omega

/-- A worker without a task moves, with the queue as it is. -/
theorem load_eq_of_update {w : W} {wk : Worker W} (h : s'.worker = Function.update s.worker w wk)
    (hqueue : s'.m_fibers = s.m_fibers) (hleft : wk.pc.left = (s.worker w).pc.left) :
    s'.load = s.load := by
  have hload := load_of_update h
  rw [hqueue] at hload
  omega

/-- An entry is taken. -/
theorem load_lt_of_pop {w : W} {ft : FiberAndThread W} {p : FiberAndThread W → Bool}
    (hpc : (s.worker w).pc = .scan) (hfind : s.m_fibers.find? p = some ft)
    (h : s'.worker = Function.update s.worker w { s.worker w with pc := .picked (some ft) })
    (hqueue : s'.m_fibers = s.m_fibers.eraseP p) : s'.load < s.load := by
  have hload := load_of_update h
  have hlength := List.length_eraseP_of_mem (List.mem_of_find?_eq_some hfind) (List.find?_some hfind)
  have hpos : 0 < s.m_fibers.length := List.length_pos_of_mem (List.mem_of_find?_eq_some hfind)
  have hnone : (s.worker w).pc.left = 0 := by rw [hpc]; rfl
  have height : ({ s.worker w with pc := .picked (some ft) } : Worker W).pc.left = 8 := rfl
  rw [hqueue, hlength] at hload
  omega

/-- **No step makes work**, when nothing is scheduled. -/
theorem step_load (hs : s.OnlyCallbacks pool) (hquiet : a.calls = false) :
    (s.step pool a).load < s.load ∨
      (s.step pool a).load = s.load ∧ (s.step pool a).m_fibers = s.m_fibers := by
  have hmove := step_move pool s a
  have hfault := step_fault hs a
  generalize s.step pool a = s' at hmove hfault
  have hless : ∀ {w : W} {wk : Worker W}, s'.worker = Function.update s.worker w wk →
      s'.m_fibers = s.m_fibers → wk.pc.left < (s.worker w).pc.left →
      s'.load < s.load ∨ s'.load = s.load ∧ s'.m_fibers = s.m_fibers :=
    fun hworker hqueue hleft => Or.inl (load_lt_of_update hworker hqueue hleft)
  have hidle : ∀ {w : W} {wk : Worker W}, (s.worker w).pc.left = 0 →
      s'.worker = Function.update s.worker w wk → s'.m_fibers = s.m_fibers → wk.pc.left = 0 →
      s'.load < s.load ∨ s'.load = s.load ∧ s'.m_fibers = s.m_fibers := by
    intro w wk hold hworker hqueue hnew
    exact Or.inr ⟨load_eq_of_update hworker hqueue (hnew.trans hold.symm), hqueue⟩
  cases hmove with
  | stay => exact Or.inr ⟨rfl, rfl⟩
  | abort a e => cases hfault
  | callOut c => cases hquiet
  | callIn w f b c hpc => cases hquiet
  | stop =>
    have hframe := stopStep_frame pool s
    exact Or.inr ⟨load_congr hframe.worker hframe.fibers, hframe.fibers⟩
  | pop w ft hpc hfind => exact Or.inl (load_lt_of_pop hpc hfind rfl rfl)
  | fiber w ft f hpc htask =>
    have hcb := hs.picked w ft hpc
    rw [htask] at hcb
    cases hcb
  | recycle w ft cb f hpc => exact hless rfl rfl (by simp [hpc, Pc.left])
  | create w ft cb hpc => exact hless rfl rfl (by simp [hpc, Pc.left])
  | enter w f b hpc => exact hless rfl rfl (by simp [hpc, Pc.left])
  | start w f b job hpc => exact hless rfl rfl (by simp [hpc, Pc.left])
  | startEmpty w f b hpc => exact hless rfl rfl (by simp [hpc, Pc.left])
  | resume w f b hpc => exact hless rfl rfl (by simp [hpc, Pc.left])
  | yield w u f b st hpc => exact hless rfl rfl (by simp [hpc, Pc.left])
  | finish w f b hpc => exact hless rfl rfl (by simp [hpc, Pc.left])
  | throw w f b hpc => exact hless rfl rfl (by simp [hpc, Pc.left])
  | save w f b ctx hpc => exact hless rfl rfl (by simp [hpc, Pc.left])
  | back w f b hpc => exact hless rfl rfl (by simp [hpc, Pc.left])
  | ready w f b hpc => exact hless rfl rfl (by simp [hpc, Pc.left])
  | drop w f hpc => exact hless rfl rfl (by simp [hpc, Pc.left])
  | clear w f hpc => exact hless rfl rfl (by simp [hpc, Pc.left])
  | hold w f hpc => exact hless rfl rfl (by simp [hpc, Pc.left])
  | holdCb w f hpc => exact hless rfl rfl (by simp [hpc, Pc.left])
  | requeue w f hpc => cases (hs.task w .requeue f .fiber hpc).1
  | requeueCb w f hpc =>
    have hserves := hs.serves w f (hs.task w .requeue f .cb hpc).2
    rw [hpc] at hserves
    exact hserves.elim
  | begin w hpc => exact hidle (by rw [hpc]; rfl) rfl rfl rfl
  | miss w hpc => exact hidle (by rw [hpc]; rfl) rfl rfl rfl
  | exit w hpc => exact hidle (by rw [hpc]; rfl) rfl rfl rfl
  | idleIn w hpc => exact hidle (by rw [hpc]; rfl) rfl rfl rfl
  | idle w hpc => exact hidle (by rw [hpc]; rfl) rfl rfl rfl
  | idleStop w hpc => exact hidle (by rw [hpc]; rfl) rfl rfl rfl
  | idleYield w hpc => exact hidle (by rw [hpc]; rfl) rfl rfl rfl
  | idleOut w hpc => exact hidle (by rw [hpc]; rfl) rfl rfl rfl

/-- A worker goes on with its task. -/
theorem task_step (hs : s.OnlyCallbacks pool) {v : W} (hleft : (s.worker v).pc.left ≠ 0)
    (hrun : ∀ f b, (s.worker v).pc ≠ .task .running f b) : (s.step pool (.run v)).load < s.load := by
  have hless : ∀ {t : Scheduler W} {wk : Worker W}, s.runStep pool v = t →
      t.worker = Function.update s.worker v wk → t.m_fibers = s.m_fibers →
      wk.pc.left < (s.worker v).pc.left → (s.step pool (.run v)).load < s.load := by
    intro t wk hstep hworker hqueue hwk
    rw [step_run hs.fault, hstep]
    exact load_lt_of_update hworker hqueue hwk
  unfold runStep at hless
  cases hpc : (s.worker v).pc with
  | picked ft =>
    cases ft with
    | none =>
      rw [hpc] at hleft
      exact absurd rfl hleft
    | some ft =>
      rw [hpc] at hless
      have hcb := hs.picked v ft hpc
      unfold take at hless
      dsimp only at hless
      cases htask : ft.task with
      | fiber f =>
        rw [htask] at hcb
        cases hcb
      | cb cb =>
        rw [htask] at hless
        dsimp only at hless
        cases hslot : (s.worker v).cb_fiber with
        | none =>
          rw [hslot] at hless
          exact hless rfl rfl rfl (by simp [Pc.left])
        | some c =>
          have hserves := hs.serves v c hslot
          rw [hpc] at hserves
          rw [hslot] at hless
          exact hless (if_pos (Or.inr (Or.inl hserves))) rfl rfl (by simp [Pc.left])
  | task stage f b =>
    obtain ⟨rfl, hslot⟩ := hs.task v stage f b hpc
    have hserves := hs.serves v f hslot
    rw [hpc] at hserves hless
    cases stage with
    | enter =>
      refine hless (if_neg ?_) rfl rfl (by simp [Pc.left])
      rw [hserves.1]
      simp
    | switch =>
      obtain ⟨hctx, hcb⟩ := hserves
      obtain ⟨job, hjob⟩ := Option.isSome_iff_exists.1 hcb
      have hstep : s.execute v f .cb .switch = { s.setPc v (.task .running f .cb) with
          started := s.started ++ job.serial.toList } := by
        unfold execute switch
        dsimp only
        rw [hctx, hjob]
      exact hless hstep rfl rfl (by simp [Pc.left])
    | running => exact absurd hpc (hrun f .cb)
    | leaving ctx => exact hless rfl rfl rfl (by simp [Pc.left])
    | back => exact hless rfl rfl rfl (by simp [Pc.left])
    | fixup =>
      have hstep : s.execute v f .cb .fixup = (s.setFiber f (Fiber.reset none)).setPc v .scan := by
        unfold execute fixup
        dsimp only
        rcases hserves with hst | hst <;> rw [hst]
      exact hless hstep rfl rfl (by simp [Pc.left])
    | requeue => exact hserves.elim
  | _ =>
    rw [hpc] at hleft
    exact absurd rfl hleft

/-- A callback ends. -/
theorem end_step (hs : s.OnlyCallbacks pool) {v : W} {f : FiberPtr} {b : Branch}
    (hpc : (s.worker v).pc = .task .running f b) (ha : a = .user v .finish ∨ a = .user v .throw) :
    (s.step pool a).load < s.load := by
  have hleft : (Pc.task (W := W) (.leaving .ended) f b).left < (s.worker v).pc.left := by
    simp [hpc, Pc.left]
  rcases ha with rfl | rfl
  · have hstep : s.step pool (.user v .finish) = (s.setFiber f
        { s.fiber f with m_state := .TERM, m_cb := none }).setPc v (.task (.leaving .ended) f b) := by
      rw [step_user hs.fault]
      unfold userStep
      rw [hpc]
    rw [hstep]
    exact load_lt_of_update rfl rfl hleft
  · have hstep : s.step pool (.user v .throw) =
        (s.setState f .EXCEPT).setPc v (.task (.leaving .ended) f b) := by
      rw [step_user hs.fault]
      unfold userStep
      rw [hpc]
    rw [hstep]
    exact load_lt_of_update rfl rfl hleft

omit [DecidableEq W] [Fintype W] in
/-- An entry that worker `v` may take. -/
theorem takes_of_workable {ft : FiberAndThread W} {tid : ℤ} (hcb : ft.task.fiber? = none)
    (hthread : ft.thread = -1 ∨ ft.thread = tid) : s.takes tid ft = true := by
  unfold takes
  cases htask : ft.task with
  | fiber f =>
    rw [htask] at hcb
    cases hcb
  | cb cb => simp [hthread]

/-- A worker at the scan takes something, if there is something for it. -/
theorem scan_step (hs : s.OnlyCallbacks pool) {v : W} (hpc : (s.worker v).pc = .scan)
    (hqueue : ∃ ft ∈ s.m_fibers, ft.thread = -1 ∨ ft.thread = pool.tid v) :
    (s.step pool (.run v)).load < s.load := by
  obtain ⟨ft, hft, hthread⟩ := hqueue
  have htakes : s.takes (pool.tid v) ft = true := takes_of_workable (hs.queue ft hft).1 hthread
  cases hfind : s.m_fibers.find? (s.takes (pool.tid v)) with
  | none => exact absurd htakes (List.find?_eq_none.1 hfind ft hft)
  | some ft' =>
    rw [step_run hs.fault]
    unfold runStep
    rw [hpc]
    dsimp only
    unfold scan
    rw [hfind]
    exact load_lt_of_pop hpc hfind rfl rfl

/-- A worker without a task comes nearer to the scan. -/
theorem idle_step (hs : s.OnlyCallbacks pool) {v : W} (hleft : (s.worker v).pc.left = 0)
    (hterm : (s.worker v).idle ≠ .TERM) (hscan : (s.worker v).pc ≠ .scan)
    (hexit : (s.worker v).pc ≠ .exited)
    (hout : (s.worker v).pc = .out → s.stopPc = .call ∧ pool.root = some v) :
    (s.step pool (.run v)).load = s.load ∧ (s.step pool (.run v)).m_fibers = s.m_fibers ∧
      ((s.step pool (.run v)).worker v).pc.away < (s.worker v).pc.away := by
  have hmove : ∀ {t : Scheduler W} {wk : Worker W}, s.runStep pool v = t →
      t.worker = Function.update s.worker v wk → t.m_fibers = s.m_fibers → wk.pc.left = 0 →
      wk.pc.away < (s.worker v).pc.away → (s.step pool (.run v)).load = s.load ∧
        (s.step pool (.run v)).m_fibers = s.m_fibers ∧
        ((s.step pool (.run v)).worker v).pc.away < (s.worker v).pc.away := by
    intro t wk hstep hworker hqueue hwk haway
    rw [step_run hs.fault, hstep]
    refine ⟨load_eq_of_update hworker hqueue (hwk.trans hleft.symm), hqueue, ?_⟩
    rw [hworker, Function.update_self]
    exact haway
  unfold runStep at hmove
  cases hpc : (s.worker v).pc with
  | out =>
    rw [hpc] at hmove
    exact hmove (if_pos (hout hpc)) rfl rfl rfl (by simp [Pc.away])
  | scan => exact absurd hpc hscan
  | picked ft =>
    cases ft with
    | none =>
      rw [hpc] at hmove
      exact hmove (if_neg hterm) rfl rfl rfl (by simp [Pc.away])
    | some ft =>
      rw [hpc] at hleft
      cases hleft
  | task stage f b =>
    rw [hpc] at hleft
    cases stage <;> cases hleft
  | idleIn =>
    rw [hpc] at hmove
    exact hmove rfl rfl rfl rfl (by simp [Pc.away])
  | idle =>
    rw [hpc] at hmove
    exact hmove rfl rfl rfl rfl (by simp [Pc.away])
  | idleOut =>
    rw [hpc] at hmove
    exact hmove rfl rfl rfl rfl (by simp [Pc.away])
  | exited => exact absurd hpc hexit

/-! ## A worker that can do something -/

omit [DecidableEq W] [Fintype W] in
/-- Worker `v` has a task, or there is one for it. -/
def Works (pool : Pool W) (s : Scheduler W) (v : W) : Prop :=
  (s.worker v).pc.left ≠ 0 ∨ ∃ ft ∈ s.m_fibers, ft.thread = -1 ∨ ft.thread = pool.tid v

omit [DecidableEq W] [Fintype W] in
/-- The step that worker `v` waits for: its own, or the end of its callback. -/
def Goes (s : Scheduler W) (v : W) (a : SchedAct W) : Prop :=
  (∃ f b, (s.worker v).pc = .task .running f b ∧ (a = .user v .finish ∨ a = .user v .throw)) ∨
    (∀ f b, (s.worker v).pc ≠ .task .running f b) ∧ a = .run v

omit [DecidableEq W] in
/-- **As long as it is not stopped** some worker can do something. -/
theorem Good.works [Nonempty W] (hs : s.Good pool) (hstopped : ¬ s.Stopped) :
    ∃ v, s.Works pool v := by
  by_cases hqueue : s.m_fibers = []
  · by_contra hno
    refine hstopped ⟨hqueue, fun w hexec => hno ⟨w, Or.inl ?_⟩, hs.no_putsBack⟩
    cases hpc : (s.worker w).pc with
    | picked ft =>
      rw [hpc] at hexec
      cases ft with
      | none => cases hexec
      | some ft => simp [Pc.left]
    | task stage f b => cases stage <;> simp [Pc.left]
    | _ => rw [hpc] at hexec; exact hexec.elim
  · obtain ⟨ft, hft⟩ := List.exists_mem_of_ne_nil _ hqueue
    rcases (hs.only.queue ft hft).2 with hany | ⟨w, hw⟩
    · obtain ⟨v⟩ := ‹Nonempty W›
      exact ⟨v, Or.inr ⟨ft, hft, Or.inl hany⟩⟩
    · exact ⟨w, Or.inr ⟨ft, hft, Or.inr hw.symm⟩⟩

/-- **And does it, in a step that it waits for.** -/
theorem Good.goes (hs : s.Good pool) (hlate : s.stopPc.late = true) (hstopped : ¬ s.Stopped) {v : W}
    (hwork : s.Works pool v) (hgo : s.Goes v a) : (s.step pool a).load < s.load ∨
      (s.step pool a).load = s.load ∧ (s.step pool a).Works pool v ∧
        ((s.step pool a).worker v).pc.away < (s.worker v).pc.away := by
  have hover : ¬ s.Over pool := fun h => hstopped (hs.settled h)
  rcases hgo with ⟨f, b, hpc, ha⟩ | ⟨hrun, rfl⟩
  · exact Or.inl (end_step hs.only hpc ha)
  by_cases hleft : (s.worker v).pc.left = 0
  · have hqueue := hwork.resolve_left fun hne => hne hleft
    by_cases hscan : (s.worker v).pc = .scan
    · exact Or.inl (scan_step hs.only hscan hqueue)
    · have hterm : (s.worker v).idle ≠ .TERM := fun h => hover (Or.inl ⟨v, h⟩)
      have hexit : (s.worker v).pc ≠ .exited := fun h => hterm (hs.ordered.stops.exited v h)
      have hout : (s.worker v).pc = .out → s.stopPc = .call ∧ pool.root = some v := by
        intro hpc
        have hroot := hs.out v hpc
        refine ⟨?_, hroot⟩
        cases hstop : s.stopPc with
        | call => rfl
        | join => exact absurd (Or.inr (Or.inl ⟨hstop, by rw [hroot]; rfl⟩)) hover
        | done => exact absurd (Or.inr (Or.inr hstop)) hover
        | _ => rw [hstop] at hlate; cases hlate
      obtain ⟨hload, hfibers, haway⟩ := idle_step hs.only hleft hterm hscan hexit hout
      exact Or.inr ⟨hload, Or.inr (by rw [hfibers]; exact hqueue), haway⟩
  · exact Or.inl (task_step hs.only hleft hrun)

/-- A step that is not the worker's own leaves it alone. -/
theorem move_keeps (h : Move pool s a s') {v : W} (ha : a.moves v = false) :
    s'.worker v = s.worker v := by
  cases h with
  | stay => rfl
  | abort => rfl
  | callOut c => exact congrFun (call_frame s none c).worker v
  | callIn w f b c hpc => exact congrFun (call_frame s (some w) c).worker v
  | stop => exact congrFun (stopStep_frame pool s).worker v
  | _ =>
    refine Function.update_of_ne ?_ _ _
    rintro rfl
    simp [SchedAct.moves] at ha

/-- A worker is left alone by all but the step that it waits for. -/
theorem Good.waits (hs : s.Good pool) (ha : s.CallbackStep pool a) (hquiet : a.calls = false) {v : W}
    (hgo : ¬ s.Goes v a) : (s.step pool a).worker v = s.worker v := by
  cases hmoves : a.moves v with
  | false => exact move_keeps (step_move pool s a) hmoves
  | true =>
    cases a with
    | run w =>
      have hw : w = v := of_decide_eq_true hmoves
      subst hw
      have hrun : ∃ f b, (s.worker w).pc = .task .running f b := by
        by_contra hno
        exact hgo (Or.inr ⟨fun f b hpc => hno ⟨f, b, hpc⟩, rfl⟩)
      obtain ⟨f, b, hpc⟩ := hrun
      rw [step_run hs.only.fault]
      unfold runStep
      rw [hpc]
      rfl
    | user w u =>
      have hw : w = v := of_decide_eq_true hmoves
      subst hw
      unfold step
      rw [hs.only.fault]
      show (s.userStep w u).worker w = s.worker w
      unfold userStep
      split
      · rename_i f b hpc
        cases u with
        | yieldToHold => exact ha.elim
        | yieldToReady => exact ha.elim
        | finish => exact absurd (Or.inl ⟨f, b, hpc, Or.inl rfl⟩) hgo
        | throw => exact absurd (Or.inl ⟨f, b, hpc, Or.inr rfl⟩) hgo
        | call c => cases hquiet
      · rfl
    | call c => cases hmoves
    | stop => cases hmoves

/-! ## `stop()` on its way -/

/-- A step of `stop()` on its way to waiting. -/
theorem stopStep_before (h : s.stopPc.late = false) :
    (s.stopStep pool).stopPc.before < s.stopPc.before := by
  have hmove := stopStep_move pool s
  generalize s.stopStep pool = s' at hmove
  cases hmove with
  | wait hpc => rcases hpc with hpc | hpc | hpc <;> rw [hpc] at h <;> cases h
  | call hpc | join hpc => rw [hpc] at h; cases h
  | begin hpc | beginEarly hpc | markEarly hpc | testEarly hpc | missEarly hpc | mark hpc
  | markThreads hpc | test hpc | miss hpc => simp [hpc, StopPc.before]

/-- Once it waits it waits, or has returned. -/
theorem stopStep_late (h : s.stopPc.late = true) : (s.stopStep pool).stopPc.late = true := by
  have hmove := stopStep_move pool s
  generalize s.stopStep pool = s' at hmove
  cases hmove with
  | wait => exact h
  | call | join => rfl
  | begin hpc | beginEarly hpc | markEarly hpc | testEarly hpc | missEarly hpc | mark hpc
  | markThreads hpc | test hpc | miss hpc => rw [hpc] at h; cases h

/-! ## Whole runs -/

/-- The state after `n` steps from the start. -/
def after (pool : Pool W) (acts : ℕ → SchedAct W) (n : ℕ) : Scheduler W :=
  stateAt (step pool) (init pool) acts n

/-- **A fair run of callbacks**: at last nothing more is scheduled, and every worker, every callback
and the thread in `stop()` go on again and again. -/
structure FairRun (pool : Pool W) (acts : ℕ → SchedAct W) : Prop where
  callbacks : ∀ n, (after pool acts n).CallbackStep pool (acts n)
  quiet : ∀ᶠ n in atTop, (acts n).calls = false
  workers : ∀ w, ∃ᶠ n in atTop, acts n = .run w
  tasks : ∀ w, ∃ᶠ n in atTop, acts n = .user w .finish ∨ acts n = .user w .throw
  stop : ∃ᶠ n in atTop, acts n = .stop

variable {acts : ℕ → SchedAct W}

theorem FairRun.good [Nonempty W] (h : FairRun pool acts) (n : ℕ) : (after pool acts n).Good pool :=
  stateAt_inv (I := Good pool) (init_good pool) (fun n hs => step_good hs (h.callbacks n)) n

/-- **`stop()` comes to wait**, and stays there. -/
theorem FairRun.late [Nonempty W] (h : FairRun pool acts) :
    ∀ᶠ n in atTop, (after pool acts n).stopPc.late = true := by
  have hstep : ∀ n, acts n = .stop → after pool acts (n + 1) = (after pool acts n).stopStep pool := by
    intro n hact
    show (after pool acts n).step pool (acts n) = _
    rw [hact]
    exact step_stop (h.good n).only.fault
  have hflags : ∀ n, acts n = .stop ∨ (after pool acts (n + 1)).stopPc = (after pool acts n).stopPc := by
    intro n
    rcases move_flags (step_move pool (after pool acts n) (acts n)) with ⟨hact, -⟩ | ⟨hpc, -, -⟩
    · exact Or.inl hact
    · exact Or.inr hpc
  have hleads : LeadsTo (fun _ => True) fun n => (after pool acts n).stopPc.late = true := by
    refine LeadsTo.induct (fun n => (after pool acts n).stopPc.before) fun k => ?_
    rintro n ⟨-, hk⟩
    by_cases hlate : (after pool acts n).stopPc.late = true
    · exact ⟨n, Nat.le_refl n, Or.inl hlate⟩
    have hless : ∀ m, (after pool acts m).stopPc = (after pool acts n).stopPc → acts m = .stop →
        (after pool acts (m + 1)).stopPc.before < k := by
      intro m hm hact
      have hbefore : ((after pool acts m).stopStep pool).stopPc.before < _ := stopStep_before (by
        rw [hm]
        exact Bool.eq_false_of_not_eq_true hlate)
      rw [hm, hk] at hbefore
      rw [hstep m hact]
      exact hbefore
    refine leadsTo_of_fair (p := fun m => (after pool acts m).stopPc = (after pool acts n).stopPc)
      h.stop (fun m hm => ?_) (fun m hm hact => Or.inr ⟨True.intro, hless m hm hact⟩) n rfl
    rcases hflags m with hact | hpc
    · exact Or.inr (Or.inr ⟨True.intro, hless m hm hact⟩)
    · exact Or.inl (hpc.trans hm)
  obtain ⟨n, -, hn⟩ := hleads 0 True.intro
  refine eventually_of_stable ⟨n, hn⟩ fun m hm => ?_
  rcases hflags m with hact | hpc
  · rw [hstep m hact]
    exact stopStep_late hm
  · rw [hpc]
    exact hm

/-- **The work is done**, some time after `N`. -/
theorem FairRun.settles [Nonempty W] (h : FairRun pool acts) {N : ℕ}
    (hN : ∀ n, N ≤ n → (after pool acts n).stopPc.late = true ∧ (acts n).calls = false) :
    LeadsTo (fun n => N ≤ n) fun n => N ≤ n ∧ (after pool acts n).Stopped := by
  refine LeadsTo.induct (fun n => (after pool acts n).load) fun k => ?_
  rintro n ⟨hn, hk⟩
  by_cases hstopped : (after pool acts n).Stopped
  · exact ⟨n, Nat.le_refl n, Or.inl ⟨hn, hstopped⟩⟩
  obtain ⟨v, hv⟩ := (h.good n).works hstopped
  -- worker `v` comes to the scan, or the work gets less before
  refine LeadsTo.induct (fun m => ((after pool acts m).worker v).pc.away) (fun d => ?_)
    (p := fun m => N ≤ m ∧ (after pool acts m).load = k ∧ (after pool acts m).Works pool v) n ⟨hn, hk, hv⟩
  rintro m ⟨⟨hm, hload, hwork⟩, haway⟩
  by_cases hstopped' : (after pool acts m).Stopped
  · exact ⟨m, Nat.le_refl m, Or.inl (Or.inl ⟨hm, hstopped'⟩)⟩
  let p : ℕ → Prop := fun j => N ≤ j ∧ (after pool acts j).load = k ∧ (after pool acts j).Works pool v ∧
    (after pool acts j).worker v = (after pool acts m).worker v ∧ ¬ (after pool acts j).Stopped
  let q : ℕ → Prop := fun j => ((N ≤ j ∧ (after pool acts j).Stopped) ∨
    N ≤ j ∧ (after pool acts j).load < k) ∨
      (N ≤ j ∧ (after pool acts j).load = k ∧ (after pool acts j).Works pool v) ∧
        ((after pool acts j).worker v).pc.away < d
  have hgo : ∀ j, p j → (after pool acts j).Goes v (acts j) → q (j + 1) := by
    rintro j ⟨hj, hload', hwork', hsame, hno⟩ hgoes
    have hj' : N ≤ j + 1 := Nat.le_succ_of_le hj
    rcases (h.good j).goes (hN j hj).1 hno hwork' hgoes with hless | ⟨heq, hwork'', hless⟩
    · exact Or.inl (Or.inr ⟨hj', hload' ▸ hless⟩)
    · refine Or.inr ⟨⟨hj', heq.trans hload', hwork''⟩, ?_⟩
      rw [hsame, haway] at hless
      exact hless
  have hkeep : ∀ j, p j → p (j + 1) ∨ q (j + 1) := by
    rintro j ⟨hj, hload', hwork', hsame, hno⟩
    have hj' : N ≤ j + 1 := Nat.le_succ_of_le hj
    by_cases hgoes : (after pool acts j).Goes v (acts j)
    · exact Or.inr (hgo j ⟨hj, hload', hwork', hsame, hno⟩ hgoes)
    by_cases hdone : (after pool acts (j + 1)).Stopped
    · exact Or.inr (Or.inl (Or.inl ⟨hj', hdone⟩))
    have hworker : (after pool acts (j + 1)).worker v = (after pool acts j).worker v :=
      (h.good j).waits (h.callbacks j) (hN j hj).2 hgoes
    rcases step_load (h.good j).only (hN j hj).2 with hless | ⟨heq, hfibers⟩
    · exact Or.inr (Or.inl (Or.inr ⟨hj', hload' ▸ hless⟩))
    · refine Or.inl ⟨hj', heq.trans hload', ?_, hworker.trans hsame, hdone⟩
      rcases hwork' with hleft | hqueue
      · exact Or.inl (by rw [hworker]; exact hleft)
      · refine Or.inr ?_
        have hqueue' : (after pool acts (j + 1)).m_fibers = (after pool acts j).m_fibers := hfibers
        rw [hqueue']
        exact hqueue
  have hp : p m := ⟨hm, hload, hwork, rfl, hstopped'⟩
  by_cases hrun : ∃ f b, ((after pool acts m).worker v).pc = .task .running f b
  · obtain ⟨f, b, hpc⟩ := hrun
    refine leadsTo_of_fair (h.tasks v) hkeep (fun j hpj hact => hgo j hpj (Or.inl ⟨f, b, ?_, hact⟩)) m hp
    rw [hpj.2.2.2.1]
    exact hpc
  · refine leadsTo_of_fair (h.workers v) hkeep (fun j hpj hact => hgo j hpj (Or.inr ⟨?_, hact⟩)) m hp
    intro f b hpc
    rw [hpj.2.2.2.1] at hpc
    exact hrun ⟨f, b, hpc⟩

/-! ## The workers leave -/

omit [DecidableEq W] in
/-- A stopped scheduler is stopping, once `stop()` waits. -/
theorem Good.stopping (hs : s.Good pool) (hlate : s.stopPc.late = true) (hstopped : s.Stopped) :
    s.stopping := by
  have hcalled : s.stopPc ≠ .out := by
    intro hout
    rw [hout] at hlate
    cases hlate
  have hmarked : s.stopPc.marked = true := by
    cases hpc : s.stopPc <;> rw [hpc] at hlate <;> first | rfl | cases hlate
  have hbusy : s.busy = 0 := by
    refine Finset.sum_eq_zero fun w _ => ?_
    have hidle := hstopped.idle w
    cases hpc : (s.worker w).pc with
    | picked ft =>
      rw [hpc] at hidle
      cases ft with
      | none => rfl
      | some ft => exact absurd rfl hidle
    | task stage f b =>
      rw [hpc] at hidle
      cases stage <;> first | rfl | exact absurd True.intro hidle
    | _ => rfl
  exact ⟨hs.counted.autoStop hcalled, hs.marked hmarked, hstopped.queue, hs.count.count.trans hbusy⟩

/-- **A worker with nothing to do comes nearer to the end of `run()`.** -/
theorem exit_step (hs : s.Good pool) (hlate : s.stopPc.late = true) (hstopped : s.Stopped) {w : W}
    (hexit : (s.worker w).pc ≠ .exited) (hroot : pool.root = some w → s.stopPc = .call) :
    ((s.step pool (.run w)).worker w).toExit < (s.worker w).toExit := by
  have hmove : ∀ {t : Scheduler W} {wk : Worker W}, s.runStep pool w = t →
      t.worker = Function.update s.worker w wk → wk.toExit < (s.worker w).toExit →
      ((s.step pool (.run w)).worker w).toExit < (s.worker w).toExit := by
    intro t wk hstep hworker hless
    rw [step_run hs.only.fault, hstep, hworker, Function.update_self]
    exact hless
  have hidle := hstopped.idle w
  unfold runStep at hmove
  cases hpc : (s.worker w).pc with
  | exited => exact absurd hpc hexit
  | out =>
    have hself := hs.out w hpc
    rw [hpc] at hmove
    refine hmove (if_pos ⟨hroot hself, hself⟩) rfl ?_
    simp only [Worker.toExit, hpc]
    split <;> simp
  | scan =>
    rw [hpc] at hmove
    have hscan : s.scan (pool.tid w) w = s.setPc w (.picked none) := by
      unfold scan
      rw [hstopped.queue]
      rfl
    refine hmove hscan rfl ?_
    simp only [Worker.toExit, hpc]
    split <;> simp
  | picked ft =>
    cases ft with
    | some ft =>
      rw [hpc] at hidle
      exact absurd rfl hidle
    | none =>
      rw [hpc] at hmove
      by_cases hterm : (s.worker w).idle = .TERM
      · refine hmove (if_pos hterm) rfl ?_
        simp [Worker.toExit, hpc, hterm]
      · refine hmove (if_neg hterm) rfl ?_
        simp [Worker.toExit, hpc, hterm]
  | task stage f b =>
    cases stage with
    | fixup =>
      obtain ⟨rfl, hslot⟩ := hs.only.task w .fixup f b hpc
      have hserves := hs.only.serves w f hslot
      rw [hpc] at hserves hmove
      have hfixup : s.execute w f .cb .fixup = (s.setFiber f (Fiber.reset none)).setPc w .scan := by
        unfold execute fixup
        dsimp only
        rcases hserves with hst | hst <;> rw [hst]
      refine hmove hfixup rfl ?_
      simp only [Worker.toExit, hpc]
      split <;> simp
    | requeue =>
      obtain ⟨rfl, hslot⟩ := hs.only.task w .requeue f b hpc
      have hserves := hs.only.serves w f hslot
      rw [hpc] at hserves
      exact hserves.elim
    | _ =>
      rw [hpc] at hidle
      exact absurd True.intro hidle
  | idleIn =>
    rw [hpc] at hmove
    refine hmove rfl rfl ?_
    simp [Worker.toExit, hpc]
  | idle =>
    rw [hpc] at hmove
    refine hmove rfl rfl ?_
    simp [Worker.toExit, hpc, hs.stopping hlate hstopped]
  | idleOut =>
    rw [hpc] at hmove
    refine hmove rfl rfl ?_
    simp only [Worker.toExit, hpc]
    split <;> simp

/-- A worker that has left stays so. -/
theorem move_exited_stays (h : Move pool s a s') {v : W} (hv : (s.worker v).pc = .exited) :
    (s'.worker v).pc = .exited := by
  cases h with
  | stay => exact hv
  | abort => exact hv
  | callOut c => rw [(call_frame s none c).worker]; exact hv
  | callIn w f b c hpc => rw [(call_frame s (some w) c).worker]; exact hv
  | stop => rw [(stopStep_frame pool s).worker]; exact hv
  | _ =>
    refine update_intro (P := fun k : Worker W => k.pc = .exited) hv ?_
    intro hw
    first
      | rfl
      | simp [*, setFiber, setState, newFiber, push] at hw

/-- Nothing is left to do, nothing more is scheduled, and `stop()` waits. -/
structure Winding (pool : Pool W) (acts : ℕ → SchedAct W) (N : ℕ) : Prop where
  late : ∀ n, N ≤ n → (after pool acts n).stopPc.late = true
  quiet : ∀ n, N ≤ n → (acts n).calls = false
  stopped : ∀ n, N ≤ n → (after pool acts n).Stopped

/-- **It comes to that.** -/
theorem FairRun.winding [Nonempty W] (h : FairRun pool acts) : ∃ N, Winding pool acts N := by
  obtain ⟨N, hN⟩ := eventually_atTop.1 (h.late.and h.quiet)
  obtain ⟨M, -, hM, hstopped⟩ := h.settles hN N (Nat.le_refl N)
  refine ⟨M, fun n hn => (hN n (hM.trans hn)).1, fun n hn => (hN n (hM.trans hn)).2, fun n hn => ?_⟩
  induction n, hn using Nat.le_induction with
  | base => exact hstopped
  | succ n hn ih =>
    have hquiet := (hN n (hM.trans hn)).2
    refine move_stopped ih (step_move pool (after pool acts n) (acts n)) ?_
    intro c hact
    rw [hact] at hquiet
    cases hquiet

/-- **A worker leaves**, unless it is the root fiber and `stop()` does not wait for it. -/
theorem FairRun.leaves [Nonempty W] (h : FairRun pool acts) {N : ℕ} (hN : Winding pool acts N) (w : W) :
    LeadsTo (fun n => N ≤ n) fun n => N ≤ n ∧
      (((after pool acts n).worker w).pc = .exited ∨
        pool.root = some w ∧ (after pool acts n).stopPc ≠ .call) := by
  refine LeadsTo.induct (fun n => ((after pool acts n).worker w).toExit) fun k => ?_
  rintro n ⟨hn, hk⟩
  let q : ℕ → Prop := fun j => (N ≤ j ∧ (((after pool acts j).worker w).pc = .exited ∨
    pool.root = some w ∧ (after pool acts j).stopPc ≠ .call)) ∨
      N ≤ j ∧ ((after pool acts j).worker w).toExit < k
  by_cases hq : q n
  · exact ⟨n, Nat.le_refl n, hq⟩
  let p : ℕ → Prop := fun j => N ≤ j ∧ ((after pool acts j).worker w).toExit = k ∧ ¬ q j
  have hact : ∀ j, p j → acts j = .run w → q (j + 1) := by
    rintro j ⟨hj, hk', hno⟩ hrun
    have hexit : ((after pool acts j).worker w).pc ≠ .exited := fun hpc =>
      hno (Or.inl ⟨hj, Or.inl hpc⟩)
    have hroot : pool.root = some w → (after pool acts j).stopPc = .call := by
      intro hroot
      by_contra hcall
      exact hno (Or.inl ⟨hj, Or.inr ⟨hroot, hcall⟩⟩)
    have hless := exit_step (h.good j) (hN.late j hj) (hN.stopped j hj) hexit hroot
    have hstep : after pool acts (j + 1) = (after pool acts j).step pool (.run w) := by
      rw [← hrun]
      rfl
    refine Or.inr ⟨Nat.le_succ_of_le hj, ?_⟩
    rw [hstep, ← hk']
    exact hless
  refine leadsTo_of_fair (p := p) (h.workers w) (fun j hj => ?_) hact n ⟨hn, hk, hq⟩
  by_cases hq' : q (j + 1)
  · exact Or.inr hq'
  by_cases hrun : acts j = .run w
  · exact Or.inr (hact j hj hrun)
  · -- the worker has no callback that could end
    have hgoes : ¬ (after pool acts j).Goes w (acts j) := by
      rintro (⟨f, b, hpc, -⟩ | ⟨-, hact'⟩)
      · have hidle := (hN.stopped j hj.1).idle w
        rw [hpc] at hidle
        exact hidle True.intro
      · exact hrun hact'
    have hworker : (after pool acts (j + 1)).worker w = (after pool acts j).worker w :=
      (h.good j).waits (h.callbacks j) (hN.quiet j hj.1) hgoes
    refine Or.inl ⟨Nat.le_succ_of_le hj.1, ?_, hq'⟩
    rw [hworker]
    exact hj.2.1

/-- **All threads leave.** -/
theorem FairRun.threads_leave [Nonempty W] (h : FairRun pool acts) {N : ℕ} (hN : Winding pool acts N) :
    ∀ᶠ n in atTop, ∀ w, pool.root ≠ some w → ((after pool acts n).worker w).pc = .exited := by
  refine eventually_all.2 fun w => ?_
  by_cases hroot : pool.root = some w
  · exact Eventually.of_forall fun n hne => absurd hroot hne
  obtain ⟨n, -, -, hexit | ⟨hw, -⟩⟩ := h.leaves hN w N (Nat.le_refl N)
  · have hstays := eventually_of_stable (p := fun n => ((after pool acts n).worker w).pc = .exited)
      ⟨n, hexit⟩ fun m hm => move_exited_stays (step_move pool (after pool acts m) (acts m)) hm
    exact hstays.mono fun m hm _ => hm
  · exact absurd hw hroot

/-- **`stop()` returns.** -/
theorem FairRun.returns [Nonempty W] (h : FairRun pool acts) :
    ∃ n, (after pool acts n).Stopped ∧ (after pool acts n).stopPc = .done := by
  obtain ⟨N, hN⟩ := h.winding
  obtain ⟨M, hM⟩ := eventually_atTop.1 (h.threads_leave hN)
  -- from time `K` on only the thread in `stop()` has something to do, and perhaps the root fiber
  obtain ⟨K, hNK, hMK⟩ : ∃ K, N ≤ K ∧ M ≤ K := ⟨N + M, Nat.le_add_right N M, Nat.le_add_left M N⟩
  have hstop : ∀ n, acts n = .stop → after pool acts (n + 1) = (after pool acts n).stopStep pool := by
    intro n hact
    show (after pool acts n).step pool (acts n) = _
    rw [hact]
    exact step_stop (h.good n).only.fault
  have hflags : ∀ n, acts n = .stop ∨ (after pool acts (n + 1)).stopPc = (after pool acts n).stopPc := by
    intro n
    rcases move_flags (step_move pool (after pool acts n) (acts n)) with ⟨hact, -⟩ | ⟨hpc, -, -⟩
    · exact Or.inl hact
    · exact Or.inr hpc
  have hlate : ∀ n, K ≤ n → (after pool acts n).stopPc = .call ∨ (after pool acts n).stopPc = .join ∨
      (after pool acts n).stopPc = .done := by
    intro n hn
    have hl := hN.late n (hNK.trans hn)
    cases hpc : (after pool acts n).stopPc with
    | call => exact Or.inl rfl
    | join => exact Or.inr (Or.inl rfl)
    | done => exact Or.inr (Or.inr rfl)
    | _ => rw [hpc] at hl; cases hl
  have hjoin : LeadsTo (fun n => K ≤ n ∧ (after pool acts n).stopPc = .join)
      fun n => K ≤ n ∧ (after pool acts n).stopPc = .done := by
    have hact : ∀ n, (K ≤ n ∧ (after pool acts n).stopPc = .join) → acts n = .stop →
        K ≤ n + 1 ∧ (after pool acts (n + 1)).stopPc = .done := by
      rintro n ⟨hn, hpc⟩ hact
      have hexit : ∀ w, pool.root = some w ∨ ((after pool acts n).worker w).pc = .exited := by
        intro w
        by_cases hroot : pool.root = some w
        · exact Or.inl hroot
        · exact Or.inr (hM n (hMK.trans hn) w hroot)
      refine ⟨Nat.le_succ_of_le hn, ?_⟩
      rw [hstop n hact]
      unfold stopStep
      rw [hpc]
      dsimp only
      rw [if_pos hexit]
    refine leadsTo_of_fair h.stop (fun n hn => ?_) hact
    rcases hflags n with hstep | hpc
    · exact Or.inr (hact n hn hstep)
    · exact Or.inl ⟨Nat.le_succ_of_le hn.1, hpc.trans hn.2⟩
  have hready : LeadsTo (fun n => K ≤ n ∧ (after pool acts n).stopPc = .call ∧
      ∀ w, pool.root = some w → ((after pool acts n).worker w).pc = .exited)
      fun n => K ≤ n ∧ (after pool acts n).stopPc = .join := by
    have hact : ∀ n, (K ≤ n ∧ (after pool acts n).stopPc = .call ∧
        ∀ w, pool.root = some w → ((after pool acts n).worker w).pc = .exited) → acts n = .stop →
        K ≤ n + 1 ∧ (after pool acts (n + 1)).stopPc = .join := by
      rintro n ⟨hn, hpc, hexit⟩ hact
      refine ⟨Nat.le_succ_of_le hn, ?_⟩
      rw [hstop n hact]
      unfold stopStep
      rw [hpc]
      dsimp only
      rw [if_pos hexit]
    refine leadsTo_of_fair h.stop (fun n hn => ?_) hact
    rcases hflags n with hstep | hpc
    · exact Or.inr (hact n hn hstep)
    · refine Or.inl ⟨Nat.le_succ_of_le hn.1, hpc.trans hn.2.1, fun w hroot => ?_⟩
      exact move_exited_stays (step_move pool (after pool acts n) (acts n)) (hn.2.2 w hroot)
  have hcall : LeadsTo (fun n => K ≤ n) fun n => K ≤ n ∧ (after pool acts n).stopPc = .done := by
    intro n hn
    obtain ⟨m, hm, hout⟩ : ∃ m, n ≤ m ∧ ((after pool acts m).stopPc ≠ .call ∨
        ∀ w, pool.root = some w → ((after pool acts m).worker w).pc = .exited) := by
      cases hroot : pool.root with
      | none => exact ⟨n, Nat.le_refl n, Or.inr fun w hw => by cases hw⟩
      | some r =>
        obtain ⟨m, hm, -, hexit | ⟨-, hcall⟩⟩ := h.leaves hN r n (hNK.trans hn)
        · refine ⟨m, hm, Or.inr fun w hw => ?_⟩
          cases hw
          exact hexit
        · exact ⟨m, hm, Or.inl hcall⟩
    have hKm : K ≤ m := hn.trans hm
    rcases hlate m hKm with hpc | hpc | hpc
    · have hexit := hout.resolve_left fun hne => hne hpc
      obtain ⟨j, hj, hdone⟩ := hready.trans hjoin m ⟨hKm, hpc, hexit⟩
      exact ⟨j, hm.trans hj, hdone⟩
    · obtain ⟨j, hj, hdone⟩ := hjoin m ⟨hKm, hpc⟩
      exact ⟨j, hm.trans hj, hdone⟩
    · exact ⟨m, hm, hKm, hpc⟩
  obtain ⟨n, hKn, -, hdone⟩ := hcall K (Nat.le_refl K)
  exact ⟨n, hN.stopped n (hNK.trans hKn), hdone⟩

/-- **Everything is done**: `stop()` has returned, nothing went wrong, no worker is in `run()`, and
each entry that was pushed has had its callback called once. -/
structure AllDone (s : Scheduler W) : Prop where
  stop : s.stopPc = .done
  fault : s.fault = none
  rest : ∀ w, (s.worker w).pc.rest = true
  once : ∀ ft ∈ s.pushed, s.started.count ft.serial = 1

omit [DecidableEq W] in
theorem Good.allDone (hs : s.Good pool) (hstopped : s.Stopped) (hdone : s.stopPc = .done) :
    s.AllDone := by
  have hrest := (hs.ordered.stops.done hdone).2
  refine ⟨hdone, hs.only.fault, hrest, fun ft hft => ?_⟩
  have hpopped : ft ∈ s.popped := by
    have hmem := hs.ordered.queue.all.mem_iff.2 hft
    rw [hstopped.queue, List.append_nil] at hmem
    exact hmem
  obtain ⟨cb, htask⟩ : ∃ cb, ft.task = .cb cb := by
    have hcb := hs.taken ft hpopped
    cases htask : ft.task with
    | cb cb => exact ⟨cb, rfl⟩
    | fiber f =>
      rw [htask] at hcb
      cases hcb
  have hstarted : ft.serial ∈ s.started := by
    rcases hs.ordered.pending.all ft hpopped cb htask with hst | ⟨w, hw⟩ | ⟨w, f, hw, -⟩
    · exact hst
    · rcases Pc.rest_iff.1 (hrest w) with hpc | hpc <;> rw [hpc] at hw <;> cases hw
    · rcases Pc.rest_iff.1 (hrest w) with hpc | hpc <;> rw [hpc] at hw <;> cases hw
  exact List.count_eq_one_of_mem hs.ordered.once.nodup hstarted

/-- **In every fair run of callbacks** `stop()` returns, and everything is done then. -/
theorem stop_returns {W : Type} [Fintype W] [DecidableEq W] [Nonempty W] (pool : Pool W)
    (acts : ℕ → SchedAct W) (h : FairRun pool acts) : ∃ n, (after pool acts n).AllDone := by
  obtain ⟨n, hstopped, hdone⟩ := h.returns
  exact ⟨n, (h.good n).allDone hstopped hdone⟩

/-- Two callbacks are scheduled, one of them for the thread; then the thread, its task and `stop()`
take turns. -/
def turns : ℕ → SchedAct Unit
  | 0 => .call (.scheduler (some (.cb 7)) (-1))
  | 1 => .call (.scheduler (some (.cb 8)) 100)
  | n + 2 => if n % 3 = 0 then .run () else if n % 3 = 1 then .user () .finish else .stop

theorem stop_returns_turns : ∃ n, (after oneThread turns n).AllDone := by
  have hturn : ∀ (P : SchedAct Unit → Prop) (i : ℕ), i < 3 → (∀ n, n % 3 = i → P (turns (n + 2))) →
      ∃ᶠ n in atTop, P (turns n) := by
    intro P i hi h
    refine frequently_atTop.2 fun n => ⟨3 * n + i + 2, by omega, h (3 * n + i) (by omega)⟩
  have hlater : ∀ n, turns (n + 2) = .run () ∨ turns (n + 2) = .user () .finish ∨
      turns (n + 2) = .stop := by
    intro n
    by_cases hzero : n % 3 = 0
    · exact Or.inl (if_pos hzero)
    · right
      by_cases hone : n % 3 = 1
      · exact Or.inl ((if_neg hzero).trans (if_pos hone))
      · exact Or.inr ((if_neg hzero).trans (if_neg hone))
  refine stop_returns oneThread turns ⟨?_, ?_, ?_, ?_, ?_⟩
  · intro n
    rcases n with _ | _ | n
    · exact ⟨rfl, by simp [FiberOrcb.fiber?], Or.inl rfl⟩
    · exact ⟨by decide, by simp [FiberOrcb.fiber?], Or.inr ⟨(), rfl⟩⟩
    · rcases hlater n with hact | hact | hact <;> rw [hact] <;> exact True.intro
  · refine eventually_atTop.2 ⟨2, fun n hn => ?_⟩
    obtain ⟨m, rfl⟩ := Nat.exists_eq_add_of_le' hn
    rcases hlater m with hact | hact | hact <;> rw [hact] <;> rfl
  · exact fun _ => hturn (· = .run ()) 0 (by omega) fun n hn => if_pos hn
  · refine fun _ => hturn (fun a => a = .user () .finish ∨ a = .user () .throw) 1 (by omega) fun n hn => ?_
    left
    have hne : n % 3 ≠ 0 := by omega
    exact (if_neg hne).trans (if_pos hn)
  · refine hturn (· = .stop) 2 (by omega) fun n hn => ?_
    have hne : n % 3 ≠ 0 := by omega
    have hne' : n % 3 ≠ 1 := by omega
    exact (if_neg hne).trans (if_neg hne')

end Scheduler

end Coroutine
