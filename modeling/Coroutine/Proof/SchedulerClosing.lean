import Coroutine.Proof.SchedulerStop
import Coroutine.Proof.SchedulerStopping

/-!
# The end of the workers

A worker leaves after its idle fiber has ended, and the root fiber may never be called at all.
Here the test that ends an idle fiber, or that `stop()` makes before it calls the root fiber, is
any test that implies `Scheduler::stopping()`, since `IOManager` has its own.

* `Shift`: a step of the scheduler, with such a test for `stopping()`.
* `shift_closing`: when `stop()` has returned, every worker is spent: its idle fiber has ended, or
  it is the root fiber, and was not called.
* `move_stopped`: nothing but a push from outside gets a stopped scheduler going again.
-/

namespace Coroutine

open Lib

namespace Scheduler

variable {W : Type} {pool : Pool W} {s s' : Scheduler W} {a : SchedAct W}

/-- **The worker is spent**: its idle fiber has ended, or it is the root fiber, which `stop()`
will not call any more. -/
def Spent (pool : Pool W) (s : Scheduler W) (w : W) : Prop :=
  (s.worker w).idle = .TERM ∨
    pool.root = some w ∧ (s.worker w).pc = .out ∧ (s.stopPc = .join ∨ s.stopPc = .done)

/-- **The invariant of the end.** -/
structure Closing (pool : Pool W) (s : Scheduler W) : Prop where
  exited : ∀ w, (s.worker w).pc = .exited → (s.worker w).idle = .TERM
  within : ∀ w, (s.worker w).pc = .idleIn ∨ (s.worker w).pc = .idle → (s.worker w).idle ≠ .TERM
  /-- the root fiber runs only inside its `call()` -/
  root : ∀ w, pool.root = some w → s.stopPc = .call ∨ (s.worker w).pc = .out ∨
    (s.worker w).pc = .exited ∧ (s.stopPc = .join ∨ s.stopPc = .done)
  early : s.stopPc = .early ∨ s.stopPc = .earlyTest → ∀ w, pool.root = some w
  done : s.stopPc = .done → ∀ w, pool.root = some w ∨ (s.worker w).pc = .exited

/-- When `stop()` has returned every worker is spent, and not in `run()`. -/
theorem spent_of_done (hs : s.Closing pool) (hdone : s.stopPc = .done) (w : W) :
    s.Spent pool w ∧ (s.worker w).pc.rest = true := by
  rcases hs.done hdone w with hroot | hexit
  · rcases hs.root w hroot with hcall | hout | ⟨hexit, -⟩
    · rw [hdone] at hcall; cases hcall
    · exact ⟨.inr ⟨hroot, hout, .inr hdone⟩, by rw [hout]; rfl⟩
    · exact ⟨.inl (hs.exited w hexit), by rw [hexit]; rfl⟩
  · exact ⟨.inl (hs.exited w hexit), by rw [hexit]; rfl⟩

/-- A spent worker is not in `idle()`, nor about to be. -/
theorem not_idle_of_spent (hs : s.Closing pool) {w : W} (hw : s.Spent pool w) :
    (s.worker w).pc ≠ .idleIn ∧ (s.worker w).pc ≠ .idle := by
  rcases hw with hterm | ⟨-, hout, -⟩
  · exact ⟨fun h => hs.within w (.inl h) hterm, fun h => hs.within w (.inr h) hterm⟩
  · rw [hout]
    exact ⟨nofun, nofun⟩

variable [DecidableEq W] [Fintype W]

/-! ## How a worker comes to its end -/

/-- A worker that is not in `run()` stays as it is, but for the root fiber in its `call()`. -/
theorem move_at_rest (h : Move pool s a s') {v : W} (hv : (s.worker v).pc.rest = true) :
    s'.worker v = s.worker v ∨ s.stopPc = .call := by
  cases h with
  | stay => exact .inl rfl
  | abort => exact .inl rfl
  | callOut c => exact .inl (congrFun (call_frame s none c).worker v)
  | callIn w f b c hpc => exact .inl (congrFun (call_frame s (some w) c).worker v)
  | stop => exact .inl (congrFun (stopStep_frame pool s).worker v)
  | begin w hpc hroot hcall => exact .inr hcall
  | _ =>
    left
    refine update_intro (P := fun k : Worker W => k = s.worker v) rfl ?_
    rintro heq
    rw [← heq] at hv
    clear heq
    simp [*, Pc.rest, setFiber, setState, newFiber, push] at hv

/-- Nobody goes back to before `run()`. -/
theorem move_to_out (h : Move pool s a s') {v : W} (hv : (s'.worker v).pc = .out) :
    (s.worker v).pc = .out := by
  cases h with
  | stay => exact hv
  | abort => exact hv
  | callOut c => rwa [(call_frame s none c).worker] at hv
  | callIn w f b c hpc => rwa [(call_frame s (some w) c).worker] at hv
  | stop => rwa [(stopStep_frame pool s).worker] at hv
  | _ =>
    rcases update_elim (P := fun k : Worker W => k.pc = .out) hv with ⟨-, hpc⟩ | ⟨-, hpc⟩
    · cases hpc
    · exact hpc

/-- An idle fiber that has ended is not entered again. -/
theorem move_within (hwithin : ∀ w, (s.worker w).pc = .idleIn ∨ (s.worker w).pc = .idle →
    (s.worker w).idle ≠ .TERM) (h : Move pool s a s') (v : W) :
    (s'.worker v).pc = .idleIn ∨ (s'.worker v).pc = .idle → (s'.worker v).idle ≠ .TERM := by
  cases h with
  | stay => exact hwithin v
  | abort => exact hwithin v
  | callOut c => rw [(call_frame s none c).worker]; exact hwithin v
  | callIn w f b c hpc => rw [(call_frame s (some w) c).worker]; exact hwithin v
  | stop => rw [(stopStep_frame pool s).worker]; exact hwithin v
  | idleIn w hpc hidle =>
    exact update_intro (P := fun k : Worker W => k.pc = .idleIn ∨ k.pc = .idle → k.idle ≠ .TERM)
      (hwithin v) fun _ _ => hidle
  | idle w hpc =>
    exact update_intro (P := fun k : Worker W => k.pc = .idleIn ∨ k.pc = .idle → k.idle ≠ .TERM)
      (hwithin v) fun _ _ => nofun
  | _ =>
    refine update_intro (P := fun k : Worker W => k.pc = .idleIn ∨ k.pc = .idle → k.idle ≠ .TERM)
      (hwithin v) fun _ hpc => ?_
    rcases hpc with hpc | hpc <;> cases hpc

/-- An idle fiber ends only at the end of `idle()`. -/
theorem move_new_term (h : Move pool s a s') {v : W} (hv : (s'.worker v).idle = .TERM) :
    (s.worker v).idle = .TERM ∨ a = .run v ∧ (s.worker v).pc = .idle := by
  cases h with
  | stay => exact .inl hv
  | abort => exact .inl hv
  | callOut c => rw [(call_frame s none c).worker] at hv; exact .inl hv
  | callIn w f b c hpc => rw [(call_frame s (some w) c).worker] at hv; exact .inl hv
  | stop => rw [(stopStep_frame pool s).worker] at hv; exact .inl hv
  | idleStop w hpc hstop =>
    rcases update_elim (P := fun k : Worker W => k.idle = .TERM) hv with ⟨rfl, -⟩ | ⟨-, hv⟩
    · exact .inr ⟨rfl, hpc⟩
    · exact .inl hv
  | _ =>
    left
    rcases update_elim (P := fun k : Worker W => k.idle = .TERM) hv with ⟨rfl, hv⟩ | ⟨-, hv⟩
    · first
        | exact hv
        | cases hv
    · exact hv

/-! ## Stopped for good -/

/-- **Only a push from outside gets a stopped scheduler going again.** -/
theorem move_stopped (hs : s.Stopped) (h : Move pool s a s') (ha : ∀ c, a ≠ .call c) : s'.Stopped := by
  -- a worker moves, and neither executes anything nor is about to put a fiber back
  have hgo : ∀ {t : Scheduler W} {w : W} {wk : Worker W}, t.m_fibers = s.m_fibers →
      t.worker = Function.update s.worker w wk → ¬ wk.pc.Executes → ¬ wk.pc.PutsBack t.fiber →
      (∀ f, (t.fiber f).m_state = .READY → (s.fiber f).m_state = .READY) → t.Stopped := by
    intro t w wk hqueue hworker hexec hput hready
    refine ⟨hqueue.trans hs.queue, fun v hv => ?_, fun v hv => ?_⟩
    · rw [hworker] at hv
      rcases update_elim (P := fun k : Worker W => k.pc.Executes) hv with ⟨-, hv⟩ | ⟨-, hv⟩
      · exact hexec hv
      · exact hs.idle v hv
    · exact hs.hand v (putsBack_of_update hworker hput hready hv).2
  have hno : ∀ {w : W} {pc : Pc W}, (s.worker w).pc = pc → pc.Executes → s'.Stopped :=
    fun hpc hex => absurd (by rw [hpc]; exact hex) (hs.idle _)
  have hback : ∀ {w : W} {pc : Pc W}, (s.worker w).pc = pc → pc.PutsBack s.fiber → s'.Stopped := by
    intro w pc hpc hput
    refine absurd ?_ (hs.hand w)
    show (s.worker w).pc.PutsBack s.fiber
    rw [hpc]
    exact hput
  cases h with
  | stay => exact hs
  | abort => exact ⟨hs.queue, hs.idle, hs.hand⟩
  | callOut c => exact absurd rfl (ha c)
  | stop =>
    have hf := stopStep_frame pool s
    refine ⟨hf.fibers.trans hs.queue, fun w => ?_, fun w => ?_⟩
    · rw [hf.worker]; exact hs.idle w
    · show ¬ ((s.stopStep pool).worker w).pc.PutsBack _
      rw [hf.worker, hf.fiber]
      exact hs.hand w
  | pop w ft hpc hfind => rw [hs.queue] at hfind; cases hfind
  | callIn w f b c hpc => exact hno hpc trivial
  | fiber w ft f hpc htask => exact hno hpc rfl
  | recycle w ft cb f hpc htask hslot hreset => exact hno hpc rfl
  | create w ft cb hpc htask hslot => exact hno hpc rfl
  | enter w f b hpc hstate => exact hno hpc trivial
  | start w f b job hpc hctx hjob => exact hno hpc trivial
  | startEmpty w f b hpc hctx hjob => exact hno hpc trivial
  | resume w f b hpc hctx => exact hno hpc trivial
  | yield w u f b st hpc hst => exact hno hpc trivial
  | finish w f b hpc => exact hno hpc trivial
  | throw w f b hpc => exact hno hpc trivial
  | save w f b ctx hpc => exact hno hpc trivial
  | back w f b hpc => exact hno hpc trivial
  | ready w f b hpc hstate => exact hback hpc hstate
  | requeue w f hpc => exact hback hpc trivial
  | requeueCb w f hpc => exact hback hpc trivial
  | clear w f hpc hstate =>
    exact hgo rfl rfl id id fun g => ready_of_setFiber (by simp [Fiber.reset])
  | hold w f hpc hterm hexcept => exact hgo rfl rfl id id fun g => ready_of_setFiber (by simp)
  | holdCb w f hpc hterm hexcept => exact hgo rfl rfl id id fun g => ready_of_setFiber (by simp)
  | miss w hpc hfind => exact hgo rfl rfl (fun h => by cases h) id fun _ h => h
  | _ => exact hgo rfl rfl id id fun _ h => h

/-! ## Steps with another test -/

/-- **A step of the scheduler with another test for `stopping()`**, which switches to no fiber that
another worker is on. -/
inductive Shift (pool : Pool W) (s : Scheduler W) : Scheduler W → Prop
  | move (b : SchedAct W) (s' : Scheduler W) (h : Move pool s b s') (hstop : b ≠ .stop)
      (halone : s.SwitchesAlone b) : Shift pool s s'
  | stop (hearly : s.stopPc ≠ .earlyTest) (htest : s.stopPc ≠ .test) : Shift pool s (s.stopStep pool)
  | tested (pc : StopPc) (h : s.stopPc = .earlyTest ∧ (pc = .done ∨ pc = .mark) ∨
      s.stopPc = .test ∧ (pc = .join ∨ pc = .call)) : Shift pool s { s with stopPc := pc }

omit [DecidableEq W] [Fintype W] in
/-- What a step of `stop()` has to establish. -/
theorem closing_of_frame (hs : s.Closing pool) (hf : StopFrame s s')
    (hroot : ∀ w, pool.root = some w → s'.stopPc = .call ∨ (s.worker w).pc = .out ∨
      (s.worker w).pc = .exited ∧ (s'.stopPc = .join ∨ s'.stopPc = .done))
    (hearly : s'.stopPc = .early ∨ s'.stopPc = .earlyTest → ∀ w, pool.root = some w)
    (hdone : s'.stopPc = .done → ∀ w, pool.root = some w ∨ (s.worker w).pc = .exited) :
    s'.Closing pool := by
  refine ⟨?_, ?_, ?_, hearly, ?_⟩
  · rw [hf.worker]; exact hs.exited
  · rw [hf.worker]; exact hs.within
  · rw [hf.worker]; exact hroot
  · rw [hf.worker]; exact hdone

theorem stopStep_closing (hs : s.Closing pool) (hearly : s.stopPc ≠ .earlyTest)
    (htest : s.stopPc ≠ .test) : (s.stopStep pool).Closing pool := by
  have hf := stopStep_frame pool s
  -- before `call()` the root fiber has not run
  have hout : s.stopPc ≠ .call → s.stopPc ≠ .join → s.stopPc ≠ .done →
      ∀ w, pool.root = some w → (s.worker w).pc = .out := by
    intro hcall hjoin hdone w hw
    rcases hs.root w hw with h | h | ⟨-, h | h⟩
    · exact absurd h hcall
    · exact h
    · exact absurd h hjoin
    · exact absurd h hdone
  have hmove := stopStep_move pool s
  generalize s.stopStep pool = s' at hf hmove ⊢
  cases hmove with
  | begin hpc hcaller =>
    have hroot := hout (by rw [hpc]; nofun) (by rw [hpc]; nofun) (by rw [hpc]; nofun)
    exact closing_of_frame hs hf (fun w hw => .inr (.inl (hroot w hw))) nofun nofun
  | beginEarly hpc hcaller =>
    have hroot := hout (by rw [hpc]; nofun) (by rw [hpc]; nofun) (by rw [hpc]; nofun)
    exact closing_of_frame hs hf (fun w hw => .inr (.inl (hroot w hw))) (fun _ => hcaller.2) nofun
  | markEarly hpc =>
    have hroot := hout (by rw [hpc]; nofun) (by rw [hpc]; nofun) (by rw [hpc]; nofun)
    exact closing_of_frame hs hf (fun w hw => .inr (.inl (hroot w hw)))
      (fun _ => hs.early (.inl hpc)) nofun
  | mark hpc hcaller =>
    have hroot := hout (by rw [hpc]; nofun) (by rw [hpc]; nofun) (by rw [hpc]; nofun)
    exact closing_of_frame hs hf (fun w hw => .inr (.inl (hroot w hw))) nofun nofun
  | markThreads hpc hcaller =>
    have hroot := hout (by rw [hpc]; nofun) (by rw [hpc]; nofun) (by rw [hpc]; nofun)
    exact closing_of_frame hs hf (fun w hw => .inr (.inl (hroot w hw))) nofun nofun
  | testEarly hpc | missEarly hpc => exact absurd hpc hearly
  | test hpc | miss hpc => exact absurd hpc htest
  | call hpc hexit =>
    exact closing_of_frame hs hf (fun w hw => .inr (.inr ⟨hexit w hw, .inl rfl⟩)) nofun nofun
  | join hpc hexit =>
    refine closing_of_frame hs hf (fun w hw => ?_) nofun fun _ => hexit
    rcases hs.root w hw with h | h | ⟨h, -⟩
    · rw [hpc] at h; cases h
    · exact .inr (.inl h)
    · exact .inr (.inr ⟨h, .inr rfl⟩)
  | wait => exact hs

/-- Every step keeps the invariant of the end. -/
theorem shift_closing (hs : s.Closing pool) (h : Shift pool s s') : s'.Closing pool := by
  cases h with
  | move b _ hmove hb _ =>
    have hpc : s'.stopPc = s.stopPc := by
      rcases move_flags hmove with ⟨hstop, -⟩ | ⟨hpc, -⟩
      · exact absurd hstop hb
      · exact hpc
    refine ⟨move_exited hs.exited hmove, move_within hs.within hmove, ?_, ?_, ?_⟩
    · intro w hw
      rw [hpc]
      rcases hs.root w hw with hcall | hout | ⟨hexit, hjoin⟩
      · exact .inl hcall
      · rcases move_at_rest hmove (v := w) (by rw [hout]; rfl) with heq | hcall
        · exact .inr (.inl (by rw [heq]; exact hout))
        · exact .inl hcall
      · rcases move_at_rest hmove (v := w) (by rw [hexit]; rfl) with heq | hcall
        · exact .inr (.inr ⟨by rw [heq]; exact hexit, hjoin⟩)
        · exact .inl hcall
    · rw [hpc]; exact hs.early
    · rw [hpc]
      intro hdone w
      refine (hs.done hdone w).imp_right fun hexit => ?_
      rcases move_at_rest hmove (v := w) (by rw [hexit]; rfl) with heq | hcall
      · rw [heq]; exact hexit
      · rw [hdone] at hcall; cases hcall
  | tested pc hpc =>
    have hcall : s.stopPc ≠ .call := by rcases hpc with ⟨h, -⟩ | ⟨h, -⟩ <;> rw [h] <;> nofun
    have hjoin : ¬ (s.stopPc = .join ∨ s.stopPc = .done) := by
      rcases hpc with ⟨h, -⟩ | ⟨h, -⟩ <;> rw [h] <;> nofun
    refine ⟨hs.exited, hs.within, ?_, ?_, ?_⟩
    · intro w hw
      rcases hs.root w hw with hc | hout | ⟨-, hj⟩
      · exact absurd hc hcall
      · exact .inr (.inl hout)
      · exact absurd hj hjoin
    · rintro (h | h) <;> rcases hpc with ⟨-, rfl | rfl⟩ | ⟨-, rfl | rfl⟩ <;> cases h
    · intro hdone w
      have hdone' : pc = .done := hdone
      rcases hpc with ⟨hearly, -⟩ | ⟨-, h⟩
      · exact .inl (hs.early (.inr hearly) w)
      · rcases h with h | h <;> rw [h] at hdone' <;> cases hdone'
  | stop hearly htest => exact stopStep_closing hs hearly htest

omit [Fintype W] in
theorem init_closing (pool : Pool W) : (init pool).Closing pool := by
  refine ⟨?_, fun w _ => nofun, ?_, nofun, nofun⟩
  · intro w hw
    rcases init_pc pool w with h | h <;> rw [h] at hw <;> cases hw
  · intro w hw
    exact .inr (.inl (if_pos hw))

/-- Only the end of its idle fiber makes a worker spent, apart from `stop()`. -/
theorem move_new_spent (h : Move pool s a s') (ha : a ≠ .stop) {v : W} (hv : s'.Spent pool v) :
    s.Spent pool v ∨ a = .run v ∧ (s.worker v).pc = .idle := by
  rcases hv with hterm | ⟨hroot, hout, hjoin⟩
  · exact (move_new_term h hterm).imp_left .inl
  · rcases move_flags h with ⟨hstop, -⟩ | ⟨hpc, -⟩
    · exact absurd hstop ha
    · rw [hpc] at hjoin
      exact .inl (.inr ⟨hroot, move_to_out h hout, hjoin⟩)

/-- In `stop()` nothing but its test does. -/
theorem stopStep_new_spent {v : W} (hv : (s.stopStep pool).Spent pool v)
    (hearly : s.stopPc ≠ .earlyTest) (htest : s.stopPc ≠ .test) : s.Spent pool v := by
  have hf := stopStep_frame pool s
  rcases hv with hterm | ⟨hroot, hout, hjoin⟩
  · rw [hf.worker] at hterm
    exact .inl hterm
  · rw [hf.worker] at hout
    have hmove := stopStep_move pool s
    generalize s.stopStep pool = s' at hmove hjoin
    cases hmove with
    | testEarly hpc | missEarly hpc => exact absurd hpc hearly
    | test hpc | miss hpc => exact absurd hpc htest
    | markThreads hpc hcaller =>
      rw [hroot] at hcaller
      exact absurd rfl hcaller
    | call hpc hexit =>
      rw [hexit v hroot] at hout
      cases hout
    | join hpc hexit => exact .inr ⟨hroot, hout, .inl hpc⟩
    | wait => exact .inr ⟨hroot, hout, hjoin⟩
    | _ => rcases hjoin with h | h <;> cases h

/-- A worker in `idle()` moves by its own steps only. -/
theorem move_idle_keep (h : Move pool s a s') {v : W} (hv : (s.worker v).pc = .idle) :
    s'.worker v = s.worker v ∨ a = .run v := by
  by_contra hno
  obtain ⟨hmoved, hrun⟩ := not_or.1 hno
  cases h with
  | stay => exact hmoved rfl
  | abort => exact hmoved rfl
  | callOut c => exact hmoved (congrFun (call_frame s none c).worker v)
  | callIn w f b c hpc => exact hmoved (congrFun (call_frame s (some w) c).worker v)
  | stop => exact hmoved (congrFun (stopStep_frame pool s).worker v)
  | _ =>
    rcases update_elim (P := fun k : Worker W => k ≠ s.worker v) hmoved with ⟨rfl, -⟩ | ⟨-, hmoved⟩
    · first
        | exact hrun rfl
        | simp [*] at hv
    · exact hmoved rfl

/-- Nothing is taken out of the list of pushes. -/
theorem move_pushed (h : Move pool s a s') : s.pushed <+: s'.pushed := by
  have hcall : ∀ pusher c, s.pushed <+: (s.call pusher c).pushed := fun pusher c =>
    call_inv (I := fun t : Scheduler W => s.pushed <+: t.pushed)
      (fun t _ _ ht _ => ht.trans (List.prefix_append _ _)) (fun _ _ ht => ht) (List.prefix_refl _) c
  cases h with
  | callOut c => exact hcall none c
  | callIn w f b c hpc => exact hcall (some w) c
  | stop => rw [(stopStep_frame pool s).pushed]
  | requeue w f hpc => exact List.prefix_append _ _
  | requeueCb w f hpc => exact List.prefix_append _ _
  | _ => exact List.prefix_refl _

/-- What every step keeps. -/
structure Kept (pool : Pool W) (s : Scheduler W) : Prop where
  exist : s.Exist
  queue : s.Queue
  sound : s.Sound
  pending : s.Pending
  counted : s.Counted
  closing : s.Closing pool
  called : ∀ w, (s.worker w).idle = .TERM → s.stopPc ≠ .out

theorem init_kept (pool : Pool W) : (init pool).Kept pool :=
  ⟨init_exist pool, init_queue pool, init_sound pool, init_pending pool, init_counted pool,
    init_closing pool, fun _ => nofun⟩

theorem shift_kept (hs : s.Kept pool) (h : Shift pool s s') : s'.Kept pool := by
  have hclosing := shift_closing hs.closing h
  have hgo : ∀ {b}, Move pool s b s' → s.SwitchesAlone b → s'.Kept pool := by
    intro b hmove halone
    refine ⟨move_exist hs.exist hmove, move_queue hs.queue hmove,
      move_sound hs.exist hs.sound hmove halone, move_pending hs.exist hs.sound hs.pending hmove,
      move_counted hs.counted hmove, hclosing, fun w hw => ?_⟩
    have hout : s.stopPc ≠ .out := by
      rcases move_idle hmove hw with hold | hstop
      · exact hs.called w hold
      · -- `m_stopping` is set by `stop()`
        intro hout
        have hset := hs.counted.out hout
        rw [hstop.2.1] at hset
        cases hset
    rcases move_flags hmove with ⟨-, rfl⟩ | ⟨hpc, -⟩
    · exact stopStep_called pool s
    · rw [hpc]; exact hout
  cases h with
  | move b _ hmove hb halone => exact hgo hmove halone
  | stop hearly htest => exact hgo .stop trivial
  | tested pc hpc =>
    have hout : s.stopPc ≠ .out := by rcases hpc with ⟨h, -⟩ | ⟨h, -⟩ <;> rw [h] <;> nofun
    have hout' : pc ≠ .out := by
      rcases hpc with ⟨-, h | h⟩ | ⟨-, h | h⟩ <;> rw [h] <;> nofun
    have hsound := hs.sound
    exact ⟨⟨hs.exist.hand, hs.exist.slot, hs.exist.queue⟩,
      queue_congr hs.queue rfl rfl rfl,
      ⟨hsound.on, hsound.midway, hsound.ended, hsound.own, hsound.slot,
        fun w f hf hown => ⟨(hsound.spare w f hf hown).1, ⟨(hsound.spare w f hf hown).2.ctx,
          (hsound.spare w f hf hown).2.midway⟩⟩⟩,
      ⟨hs.pending.all, fun f i hf hi => ⟨(hs.pending.quiet f i hf hi).ctx,
        (hs.pending.quiet f i hf hi).midway⟩⟩,
      ⟨hs.counted.shares, fun _ => hs.counted.autoStop hout, fun h => absurd h hout'⟩, hclosing, fun _ _ => hout'⟩

end Scheduler

end Coroutine
