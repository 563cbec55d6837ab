import Coroutine.Proof.SchedulerSound
import Mathlib.Data.Fintype.Basic

/-!
# A single worker's fibers

With one worker, a fiber whose state says that it waits or executes is suspended at a yield or
is the one the worker has entered (`States`). So when the worker is about to reset its callback
fiber, that fiber may be reset (`resettable_of_picked`).
-/

namespace Coroutine

open Lib

/-- The fiber whose body the worker is about to switch to, or is in the middle of. -/
def Pc.underway {W : Type} : Pc W → Option FiberPtr
  | .task .switch f _ => some f
  | .task .running f _ => some f
  | .task (.leaving .saved) f _ => some f
  | _ => none

/-- The fiber that the worker has set to `EXEC`. -/
def Pc.entered {W : Type} : Pc W → Option FiberPtr
  | .task .enter _ _ => none
  | .task _ f _ => some f
  | _ => none

namespace Scheduler

variable {pool : Pool Unit} {s s' : Scheduler Unit} {a : SchedAct Unit}

/-- Where the one worker stands. -/
def here (s : Scheduler Unit) : Pc Unit := (s.worker ()).pc

/-- **The states of fibers.** -/
structure States (s : Scheduler Unit) : Prop where
  waiting : ∀ f, (s.fiber f).m_state = .HOLD ∨ (s.fiber f).m_state = .READY ∨
    (s.fiber f).m_state = .EXEC → (s.fiber f).m_ctx = .saved ∨ s.here.underway = some f
  entered : ∀ f, s.here.entered = some f → (s.fiber f).m_state ≠ .INIT
  exec : ∀ f, (s.fiber f).m_state = .EXEC → s.here.entered = some f
  ready : ∀ f b, s.here = .task .requeue f b → (s.fiber f).m_state = .READY
  ending : ∀ f ctx b, s.here = .task (.leaving ctx) f b → ctx ≠ .saved →
    (s.fiber f).m_state = .TERM ∨ (s.fiber f).m_state = .EXCEPT

theorem entered_of_underway {W : Type} {pc : Pc W} {f : FiberPtr} (h : pc.underway = some f) :
    pc.entered = some f := by
  cases pc with
  | task stage g b =>
    cases stage with
    | leaving ctx => cases ctx <;> first | exact h | cases h
    | _ => first | exact h | cases h
  | _ => cases h

/-- What `States` says of one fiber. -/
def StateOf (s : Scheduler Unit) (f : FiberPtr) : Prop :=
  ((s.fiber f).m_state = .HOLD ∨ (s.fiber f).m_state = .READY ∨ (s.fiber f).m_state = .EXEC →
    (s.fiber f).m_ctx = .saved ∨ s.here.underway = some f) ∧
  (s.here.entered = some f → (s.fiber f).m_state ≠ .INIT) ∧
  ((s.fiber f).m_state = .EXEC → s.here.entered = some f) ∧
  (∀ b, s.here = .task .requeue f b → (s.fiber f).m_state = .READY) ∧
  ∀ ctx b, s.here = .task (.leaving ctx) f b → ctx ≠ .saved →
    (s.fiber f).m_state = .TERM ∨ (s.fiber f).m_state = .EXCEPT

theorem States.stateOf (hs : s.States) (f : FiberPtr) : s.StateOf f :=
  ⟨hs.waiting f, hs.entered f, hs.exec f, hs.ready f, hs.ending f⟩

theorem states_of_each (h : ∀ f, s.StateOf f) : s.States :=
  ⟨fun f => (h f).1, fun f => (h f).2.1, fun f => (h f).2.2.1, fun f => (h f).2.2.2.1,
    fun f => (h f).2.2.2.2⟩

/-- Where the worker has entered another fiber, or none. -/
theorem here_ne_task {f : FiberPtr} {stage : Stage} {b : Branch} (hne : s.here.entered ≠ some f)
    (hstage : stage ≠ .enter) : s.here ≠ .task stage f b := by
  intro h
  rw [h] at hne
  cases stage <;> first | exact hstage rfl | exact hne rfl

/-- **The worker moves with fiber `f`**: the others stay at rest. It has entered `f`, or no fiber,
before the move and after it. -/
theorem states_of_hand (hs : s.States) {f : FiberPtr} {pc pc' : Pc Unit} (hpc : s.here = pc)
    (hpc' : s'.here = pc') (hbefore : pc.entered.getD f = f) (hafter : pc'.entered.getD f = f)
    (hfiber : ∀ g, g ≠ f → s'.fiber g = s.fiber g) (hself : s'.StateOf f) : s'.States := by
  refine states_of_each fun g => ?_
  by_cases hg : g = f
  · rw [hg]
    exact hself
  have hnotEntered : s.here.entered ≠ some g := by
    rw [hpc]
    intro h
    rw [h] at hbefore
    exact hg hbefore
  have hnotEntered' : s'.here.entered ≠ some g := by
    rw [hpc']
    intro h
    rw [h] at hafter
    exact hg hafter
  refine ⟨fun hwait => ?_, fun h => absurd h hnotEntered', fun hexec => ?_,
    fun b hb => absurd hb (here_ne_task hnotEntered' (by decide)),
    fun ctx b hb => absurd hb (here_ne_task hnotEntered' nofun)⟩
  · rw [hfiber g hg] at hwait ⊢
    rcases hs.waiting g hwait with hctx | hunder
    · exact Or.inl hctx
    · exact absurd (entered_of_underway hunder) hnotEntered
  · rw [hfiber g hg] at hexec
    exact absurd (hs.exec g hexec) hnotEntered

/-- **The worker goes on with fiber `f`**, and writes to no fiber. -/
theorem states_of_goto (hs : s.States) {f : FiberPtr} {pc pc' : Pc Unit} (hpc : s.here = pc)
    (hpc' : s'.here = pc') (hbefore : pc.entered = some f) (hafter : pc'.entered = some f)
    (hunder : pc.underway = some f → pc'.underway = some f)
    (hready : ∀ b, pc' = .task .requeue f b → (s.fiber f).m_state = .READY)
    (hleaving : ∀ ctx b, pc' = .task (.leaving ctx) f b → ctx = .saved)
    (hfiber : s'.fiber = s.fiber) : s'.States := by
  refine states_of_hand hs hpc hpc' (by rw [hbefore]; rfl) (by rw [hafter]; rfl)
    (fun g _ => by rw [hfiber]) ?_
  subst hpc hpc'
  rw [StateOf, hfiber]
  refine ⟨fun hwait => ?_, fun _ => hs.entered f hbefore, fun _ => hafter, hready, ?_⟩
  · rcases hs.waiting f hwait with hctx | hold
    · exact Or.inl hctx
    · exact Or.inr (hunder hold)
  · intro ctx b hb hne
    exact absurd (hleaving ctx b hb) hne

/-- The worker moves with no fiber entered; some may be new. -/
theorem states_of_empty (hs : s.States)
    (hfiber : ∀ g, s'.fiber g = s.fiber g ∨ ∃ job, s'.fiber g = Fiber.reset job)
    (hbefore : s.here.entered = none) (hafter : s'.here.entered = none) : s'.States := by
  refine states_of_each fun g => ?_
  have hnone : ∀ {o : Option FiberPtr}, o = none → o ≠ some g := by
    rintro o rfl h
    cases h
  have hnoStage : ∀ {stage b}, stage ≠ .enter → s'.here ≠ .task stage g b :=
    fun hstage => here_ne_task (hnone hafter) hstage
  rcases hfiber g with hsame | ⟨job, hnew⟩
  · refine ⟨fun hwait => ?_, fun h => absurd h (hnone hafter), fun hexec => ?_,
      fun b hb => absurd hb (hnoStage (by decide)), fun ctx b hb => absurd hb (hnoStage nofun)⟩
    · rw [hsame] at hwait ⊢
      rcases hs.waiting g hwait with hctx | hunder
      · exact Or.inl hctx
      · exact absurd (entered_of_underway hunder) (hnone hbefore)
    · rw [hsame] at hexec
      exact absurd (hs.exec g hexec) (hnone hbefore)
  · rw [StateOf, hnew]
    refine ⟨fun hwait => ?_, fun h => absurd h (hnone hafter), fun hexec => ?_,
      fun b hb => absurd hb (hnoStage (by decide)), fun ctx b hb => absurd hb (hnoStage nofun)⟩
    · rcases hwait with h | h | h <;> cases h
    · cases hexec

/-- A call makes fibers at most. -/
theorem call_states (hs : s.States) (hex : s.Exist) (pusher : Option Unit) (c : SchedCall) :
    (s.call pusher c).States := by
  have hat : (s.call pusher c).here = s.here := by unfold here; rw [(call_frame s pusher c).worker]
  refine states_of_each fun g => ?_
  -- a fiber it makes is not waiting and not in hand
  rcases call_fiber s pusher c g with hsame | ⟨hle, cb, hnew⟩
  · rw [StateOf, hsame, hat]
    exact hs.stateOf g
  · -- the worker has no fiber in hand that was not there
    have hnotEntered : s.here.entered ≠ some g := by
      intro h
      have hhand : s.hand () = some g := by
        unfold hand
        change (s.worker ()).pc.entered = some g at h
        cases hpc : (s.worker ()).pc with
        | task stage f b => rw [hpc] at h; cases stage <;> first | exact h | cases h
        | _ => rw [hpc] at h; cases h
      exact Nat.lt_irrefl g (Nat.lt_of_lt_of_le (hex.hand () g hhand) hle)
    rw [StateOf, hnew, hat]
    refine ⟨fun hwait => ?_, fun h => absurd h hnotEntered, fun hexec => ?_,
      fun b hb => absurd hb (here_ne_task hnotEntered (by decide)),
      fun ctx b hb => absurd hb (here_ne_task hnotEntered nofun)⟩
    · rcases hwait with h | h | h <;> cases h
    · cases hexec

theorem init_states (pool : Pool Unit) : (init pool).States := by
  have hentered : (init pool).here.entered = none := by
    rcases init_pc pool () with h | h <;> rw [here, h] <;> rfl
  refine ⟨fun f h => ?_, fun f h => ?_, fun f h => ?_, fun f b h => ?_, fun f ctx b h => ?_⟩
  · rcases h with h | h | h <;> cases h
  · rw [hentered] at h; cases h
  · cases h
  · rw [h] at hentered; cases hentered
  · rw [h] at hentered; cases hentered

/-- A fiber that has not ended after `swapIn` is suspended. -/
theorem States.saved_of_fixup (hs : s.States) {w : Unit} {f : FiberPtr} {b : Branch}
    (hpc : (s.worker w).pc = .task .fixup f b) (hterm : (s.fiber f).m_state ≠ .TERM)
    (hexcept : (s.fiber f).m_state ≠ .EXCEPT) : (s.fiber f).m_ctx = .saved := by
  have hhere : s.here = .task .fixup f b := hpc
  have hinit := hs.entered f (by rw [hhere]; rfl)
  have hwait : (s.fiber f).m_state = .HOLD ∨ (s.fiber f).m_state = .READY ∨
      (s.fiber f).m_state = .EXEC := by
    cases hstate : (s.fiber f).m_state <;> simp_all
  rcases hs.waiting f hwait with hctx | hunder
  · exact hctx
  · rw [hhere] at hunder
    cases hunder

/-- **Every move keeps it.** -/
theorem move_states (hs : s.States) (hex : s.Exist) (h : Move pool s a s') : s'.States := by
  cases h with
  | stay => exact hs
  | abort => exact states_of_each hs.stateOf
  | callOut c => exact call_states hs hex none c
  | callIn w f b c hpc => exact call_states hs hex (some w) c
  | stop =>
    have hf := stopStep_frame pool s
    refine states_of_each fun g => ?_
    rw [StateOf, here, hf.fiber, hf.worker]
    exact hs.stateOf g
  | recycle w ft cb f hpc htask hslot hres =>
    refine states_of_empty hs (fun g => ?_) (by simp [here, hpc, Pc.entered])
      (by simp [here, setPc, setWorker, Pc.entered])
    by_cases hg : g = f
    · subst hg
      exact Or.inr ⟨_, Function.update_self ..⟩
    · exact Or.inl (Function.update_of_ne hg ..)
  | create w ft cb hpc htask hslot =>
    refine states_of_empty hs (fun g => ?_) (by simp [here, hpc, Pc.entered])
      (by simp [here, setWorker, Pc.entered])
    by_cases hg : g = s.nfiber
    · subst hg
      exact Or.inr ⟨_, Function.update_self ..⟩
    · exact Or.inl (Function.update_of_ne hg ..)
  | enter w f b hpc hstate =>
    refine states_of_hand hs hpc rfl rfl rfl (fun g hg => Function.update_of_ne hg ..) ?_
    simp [StateOf, here, setPc, setWorker, setState, setFiber, Pc.entered, Pc.underway]
  | start w f b job hpc hctx hjob =>
    exact states_of_goto hs hpc rfl rfl rfl (fun _ => rfl) (fun _ h => by cases h)
      (fun _ _ h => by cases h) rfl
  -- without a callback the body ends at once, and its state is written before its end is saved
  | startEmpty w f b hpc hctx hjob =>
    refine states_of_hand hs hpc rfl rfl rfl (fun g hg => Function.update_of_ne hg ..) ?_
    simp [StateOf, here, setPc, setWorker, setState, setFiber, Pc.entered]
  | resume w f b hpc hctx =>
    exact states_of_goto hs hpc rfl rfl rfl (fun _ => rfl) (fun _ h => by cases h)
      (fun _ _ h => by cases h) rfl
  | yield w u f b st hpc hst =>
    refine states_of_hand hs hpc rfl rfl rfl (fun g hg => Function.update_of_ne hg ..) ?_
    rcases hst with rfl | rfl <;>
      simp [StateOf, here, setPc, setWorker, setState, setFiber, Pc.entered, Pc.underway]
  | finish w f b hpc =>
    refine states_of_hand hs hpc rfl rfl rfl (fun g hg => Function.update_of_ne hg ..) ?_
    simp [StateOf, here, setPc, setWorker, setFiber, Pc.entered]
  | throw w f b hpc =>
    refine states_of_hand hs hpc rfl rfl rfl (fun g hg => Function.update_of_ne hg ..) ?_
    simp [StateOf, here, setPc, setWorker, setState, setFiber, Pc.entered]
  | save w f b ctx hpc =>
    refine states_of_hand hs hpc rfl rfl rfl (fun g hg => Function.update_of_ne hg ..) ?_
    cases ctx with
    | saved =>
      have hentered := hs.entered f (by simp [here, hpc, Pc.entered])
      simpa [StateOf, here, setPc, setWorker, setFiber, Pc.entered] using hentered
    | _ =>
      -- the state was written before: nobody waits there
      have hended := hs.ending f _ b hpc (by decide)
      rcases hended with hended | hended <;>
        simp [StateOf, here, setPc, setWorker, setFiber, hended]
  | back w f b hpc =>
    exact states_of_goto hs hpc rfl rfl rfl (fun h => by cases h) (fun _ h => by cases h)
      (fun _ _ h => by cases h) rfl
  | ready w f b hpc hstate =>
    exact states_of_goto hs hpc rfl rfl rfl (fun h => by cases h) (fun _ _ => hstate)
      (fun _ _ h => by cases h) rfl
  | drop w f hpc hstate =>
    refine states_of_hand hs hpc rfl rfl rfl (fun g hg => rfl) ?_
    rcases hstate with hstate | hstate <;>
      simp [StateOf, here, setPc, setWorker, Pc.entered, hstate]
  | clear w f hpc hstate =>
    refine states_of_hand hs hpc rfl rfl rfl (fun g hg => Function.update_of_ne hg ..) ?_
    simp [StateOf, here, setPc, setWorker, setFiber, Fiber.reset, Pc.entered]
  -- what `run()` finds here has swapped itself out
  | hold w f hpc hterm hexcept =>
    have hsaved := hs.saved_of_fixup hpc hterm hexcept
    refine states_of_hand hs hpc rfl rfl rfl (fun g hg => Function.update_of_ne hg ..) ?_
    simp [StateOf, here, setPc, setWorker, setState, setFiber, Pc.entered, hsaved]
  | holdCb w f hpc hterm hexcept =>
    have hsaved := hs.saved_of_fixup hpc hterm hexcept
    refine states_of_hand hs hpc rfl rfl rfl (fun g hg => Function.update_of_ne hg ..) ?_
    simp [StateOf, here, setWorker, setState, setFiber, Pc.entered, hsaved]
  | requeue w f hpc =>
    have hready := hs.ready f _ hpc
    have hf := hs.stateOf f
    simp only [StateOf, here, hpc, Pc.entered, Pc.underway, hready] at hf
    refine states_of_hand hs hpc rfl rfl rfl (fun g hg => rfl) ?_
    simpa [StateOf, here, setPc, setWorker, push, Pc.entered, Pc.underway, hready] using hf
  | requeueCb w f hpc =>
    have hready := hs.ready f _ hpc
    have hf := hs.stateOf f
    simp only [StateOf, here, hpc, Pc.entered, Pc.underway, hready] at hf
    refine states_of_hand hs hpc rfl rfl rfl (fun g hg => rfl) ?_
    simpa [StateOf, here, setWorker, push, Pc.entered, Pc.underway, hready] using hf
  | _ =>
    refine states_of_empty hs (fun g => Or.inl rfl) (by simp [here, *, Pc.entered])
      (by simp [here, setPc, setWorker, Pc.entered])

/-- **A worker's callback fiber may be reset** when the worker has a callback in hand. -/
theorem resettable_of_picked (hsound : s.Sound) (hs : s.States) {ft : Option (FiberAndThread Unit)}
    {c : FiberPtr} (hpc : s.here = .picked ft) (hslot : (s.worker ()).cb_fiber = some c) :
    (s.fiber c).resettable := by
  have hpc' : (s.worker ()).pc = .picked ft := hpc
  have hown : (s.worker ()).pc.own ≠ some c := by rw [hpc']; nofun
  obtain ⟨-, hquiet⟩ := hsound.spare () c hslot hown
  -- a fiber that waits is suspended or in hand, and this one is neither
  have hnot : ¬ ((s.fiber c).m_state = .HOLD ∨ (s.fiber c).m_state = .READY ∨
      (s.fiber c).m_state = .EXEC) := by
    intro hwait
    rcases hs.waiting c hwait with hctx | hunder
    · exact hquiet.ctx hctx
    · rw [hpc] at hunder
      cases hunder
  unfold Fiber.resettable
  cases hstate : (s.fiber c).m_state <;> simp_all

/-- One worker switches to nobody else's fiber. -/
theorem switchesAlone_unit (s : Scheduler Unit) (a : SchedAct Unit) : s.SwitchesAlone a := by
  cases a with
  | run w => exact fun f _ w' hne => absurd (Subsingleton.elim w' w) hne
  | _ => trivial

end Scheduler

end Coroutine
