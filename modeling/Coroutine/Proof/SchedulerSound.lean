import Coroutine.Proof.SchedulerFinished

/-!
# Fibers while no worker switches to one that another is on

`SwitchesAlone` says that the worker's next switch, if it makes one, is to a fiber no other
worker is on. Along such steps a fiber has one worker on it at most, a fiber somebody is in
the middle of has not finished, and a callback fiber waiting to be reused has nothing left
to run (`Sound`, `move_sound`).
-/

namespace Coroutine

open Lib

/-- The fiber in the middle of whose body the worker is. -/
def Pc.midway {W : Type} : Pc W → Option FiberPtr
  | .task .running f _ => some f
  | .task (.leaving ctx) f _ => if ctx = .ended then none else some f
  | _ => none

/-- The fiber the worker is switching to. -/
def Pc.switching {W : Type} : Pc W → Option FiberPtr
  | .task .switch f _ => some f
  | _ => none

/-- The worker's own callback fiber, while it executes it. -/
def Pc.own {W : Type} : Pc W → Option FiberPtr
  | .task _ f b => if b = .cb then some f else none
  | _ => none

section Pc

variable {W : Type} {pc : Pc W} {f : FiberPtr}

theorem Pc.on_of_midway (h : pc.midway = some f) : pc.on = some f := by
  cases pc with
  | task stage g b =>
    cases stage with
    | running => exact h
    | leaving ctx => cases ctx <;> first | exact h | cases h
    | _ => cases h
  | _ => cases h

theorem Pc.ending_of_midway (h : pc.midway = some f) : pc.ending = none := by
  cases pc with
  | task stage g b =>
    cases stage with
    | leaving ctx => cases ctx <;> first | rfl | cases h
    | _ => rfl
  | _ => rfl

end Pc

namespace Scheduler

variable {W : Type} {pool : Pool W} {s s' : Scheduler W} {a : SchedAct W}

/-- **A switch made by the step is to a fiber no other worker is on.** -/
def SwitchesAlone (s : Scheduler W) : SchedAct W → Prop
  | .run w => ∀ f ∈ (s.worker w).pc.switching, ∀ w', w' ≠ w → (s.worker w').pc.on ≠ some f
  | _ => True

instance [DecidableEq W] [Fintype W] (s : Scheduler W) : DecidablePred s.SwitchesAlone
  | .run _ => inferInstanceAs (Decidable (∀ _ ∈ _, _))
  | .user _ _ => isTrue trivial
  | .call _ => isTrue trivial
  | .stop => isTrue trivial

/-- **Nobody is in the middle of the fiber's body**, nor is it suspended there. -/
structure Quiet (s : Scheduler W) (f : FiberPtr) : Prop where
  ctx : (s.fiber f).m_ctx ≠ .saved
  midway : ∀ w, (s.worker w).pc.midway ≠ some f

/-- **The invariant.** -/
structure Sound (s : Scheduler W) : Prop where
  /-- one worker at most is on a fiber -/
  on : Exclusive fun w => (s.worker w).pc.on
  /-- a fiber somebody is in the middle of has not finished -/
  midway : ∀ w f, (s.worker w).pc.midway = some f → ¬ (s.fiber f).Finished
  /-- the end of a finished fiber is saved or being saved -/
  ended : ∀ f, (s.fiber f).Finished →
    (s.fiber f).m_ctx = .ended ∨ ∃ w, (s.worker w).pc.ending = some f
  /-- a worker executes callbacks in its own fiber -/
  own : ∀ w f, (s.worker w).pc.own = some f → (s.worker w).cb_fiber = some f
  /-- no two workers have the same callback fiber -/
  slot : Exclusive fun w => (s.worker w).cb_fiber
  /-- a callback fiber waiting to be reused has nothing to run -/
  spare : ∀ w f, (s.worker w).cb_fiber = some f → (s.worker w).pc.own ≠ some f →
    (s.fiber f).m_cb = none ∧ s.Quiet f

variable [DecidableEq W]

variable [Fintype W]

/-! ## How a worker and a fiber got where they are -/

/-- Whoever is on a fiber after a move was on it, or has just switched to it. -/
theorem move_on (h : Move pool s a s') {v : W} {g : FiberPtr}
    (hv : (s'.worker v).pc.on = some g) :
    (s.worker v).pc.on = some g ∨ a = .run v ∧ ∃ b, (s.worker v).pc = .task .switch g b := by
  cases h with
  | stay => exact Or.inl hv
  | abort => exact Or.inl hv
  | callOut c => rw [(call_frame s none c).worker] at hv; exact Or.inl hv
  | callIn w f b c hpc => rw [(call_frame s (some w) c).worker] at hv; exact Or.inl hv
  | stop => rw [(stopStep_frame pool s).worker] at hv; exact Or.inl hv
  | start w f b job hpc hctx hjob =>
    rcases update_elim (P := fun k : Worker W => k.pc.on = some g) hv with ⟨rfl, hv⟩ | ⟨-, hv⟩
    · cases hv; exact Or.inr ⟨rfl, b, hpc⟩
    · exact Or.inl hv
  | startEmpty w f b hpc hctx hjob =>
    rcases update_elim (P := fun k : Worker W => k.pc.on = some g) hv with ⟨rfl, hv⟩ | ⟨-, hv⟩
    · cases hv; exact Or.inr ⟨rfl, b, hpc⟩
    · exact Or.inl hv
  | resume w f b hpc hctx =>
    rcases update_elim (P := fun k : Worker W => k.pc.on = some g) hv with ⟨rfl, hv⟩ | ⟨-, hv⟩
    · cases hv; exact Or.inr ⟨rfl, b, hpc⟩
    · exact Or.inl hv
  | _ =>
    rcases update_elim (P := fun k : Worker W => k.pc.on = some g) hv with ⟨rfl, hv⟩ | ⟨-, hv⟩
    · first
        | (cases hv; done)
        | (cases hv; left; simp [*, Pc.on])
    · exact Or.inl hv

/-- Whoever is in the middle of a fiber after a move was so before, or has just switched to
it. -/
theorem move_midway (h : Move pool s a s') {v : W} {g : FiberPtr}
    (hv : (s'.worker v).pc.midway = some g) :
    (s.worker v).pc.midway = some g ∨ a = .run v ∧ (s.worker v).pc.switching = some g ∧
      s'.fiber = s.fiber ∧ (s.fiber g).m_ctx ≠ .ended ∧ ((s.fiber g).m_ctx = .saved ∨
        ∃ job, (s.fiber g).m_cb = some job ∧ s'.started = s.started ++ job.serial.toList) := by
  cases h with
  | stay => exact Or.inl hv
  | abort => exact Or.inl hv
  | callOut c => rw [(call_frame s none c).worker] at hv; exact Or.inl hv
  | callIn w f b c hpc => rw [(call_frame s (some w) c).worker] at hv; exact Or.inl hv
  | stop => rw [(stopStep_frame pool s).worker] at hv; exact Or.inl hv
  | start w f b job hpc hctx hjob =>
    rcases update_elim (P := fun k : Worker W => k.pc.midway = some g) hv with ⟨rfl, hv⟩ | ⟨-, hv⟩
    · cases hv
      exact Or.inr ⟨rfl, by rw [hpc]; rfl, rfl, by rw [hctx]; simp, Or.inr ⟨job, hjob, rfl⟩⟩
    · exact Or.inl hv
  | resume w f b hpc hctx =>
    rcases update_elim (P := fun k : Worker W => k.pc.midway = some g) hv with ⟨rfl, hv⟩ | ⟨-, hv⟩
    · cases hv
      exact Or.inr ⟨rfl, by rw [hpc]; rfl, rfl, by rw [hctx]; simp, Or.inl hctx⟩
    · exact Or.inl hv
  | _ =>
    rcases update_elim (P := fun k : Worker W => k.pc.midway = some g) hv with ⟨rfl, hv⟩ | ⟨-, hv⟩
    · first
        | (cases hv; done)
        | (cases hv; left; simp [*, Pc.midway])
    · exact Or.inl hv

/-- Whoever is about to save an end saves it. -/
theorem move_ending (h : Move pool s a s') {v : W} {g : FiberPtr}
    (hv : (s.worker v).pc.ending = some g) :
    (s'.worker v).pc.ending = some g ∨ (s'.fiber g).m_ctx = .ended := by
  cases h with
  | stay => exact Or.inl hv
  | abort => exact Or.inl hv
  | callOut c => rw [(call_frame s none c).worker]; exact Or.inl hv
  | callIn w f b c hpc => rw [(call_frame s (some w) c).worker]; exact Or.inl hv
  | stop => rw [(stopStep_frame pool s).worker]; exact Or.inl hv
  | save w f b ctx hpc =>
    by_cases hvw : v = w
    · subst hvw
      rw [hpc] at hv
      cases ctx <;> cases hv
      right
      simp [setPc, setWorker, setFiber]
    · left
      simpa [setPc, setWorker, setFiber, hvw] using hv
  | _ =>
    left
    refine update_intro (P := fun k : Worker W => k.pc.ending = some g) hv ?_
    intro hw
    simp [*, Pc.ending, setFiber, setState, newFiber, push] at hw

omit [DecidableEq W] [Fintype W] in
/-- What is finished after a write to one fiber was so before, or is the fiber written to. -/
theorem finished_of_update {f g : FiberPtr} {fb : Fiber}
    (hf : s'.fiber = Function.update s.fiber f fb) (hg : (s'.fiber g).Finished) :
    (g = f ∧ fb.Finished) ∨
      (s.fiber g).Finished ∧ (s'.fiber g).m_ctx = (s.fiber g).m_ctx := by
  by_cases hgf : g = f
  · rw [hgf, hf, Function.update_self] at hg
    exact .inl ⟨hgf, hg⟩
  · have hsame : s'.fiber g = s.fiber g := by rw [hf, Function.update_of_ne hgf]
    rw [hsame] at hg ⊢
    exact .inr ⟨hg, rfl⟩

/-- A fiber that is finished after a move was so before, or somebody is to save its end. -/
theorem move_finished (h : Move pool s a s') {g : FiberPtr} (hg : (s'.fiber g).Finished) :
    (s.fiber g).Finished ∧ ((s'.fiber g).m_ctx = (s.fiber g).m_ctx ∨
        ∃ w ctx b, (s.worker w).pc = .task (.leaving ctx) g b ∧ (s'.fiber g).m_ctx = ctx) ∨
      ∃ w, (s'.worker w).pc.ending = some g := by
  have hcall : ∀ pusher c, ((s.call pusher c).fiber g).Finished →
      (s.fiber g).Finished ∧ ((s.call pusher c).fiber g).m_ctx = (s.fiber g).m_ctx := by
    intro pusher c hfin
    rcases call_fiber s pusher c g with heq | ⟨-, cb, heq⟩
    · rw [heq] at hfin ⊢; exact ⟨hfin, rfl⟩
    · rw [heq] at hfin; exact absurd hfin (Fiber.not_finished_reset _)
  -- a write that leaves its fiber unfinished
  have hwrite : ∀ {f fb}, s'.fiber = Function.update s.fiber f fb → ¬ fb.Finished →
      (s.fiber g).Finished ∧ (s'.fiber g).m_ctx = (s.fiber g).m_ctx := by
    intro f fb hf hunf
    rcases finished_of_update hf hg with ⟨-, hfin⟩ | hsame
    · exact absurd hfin hunf
    · exact hsame
  cases h with
  | callOut c => exact Or.inl ⟨(hcall none c hg).1, Or.inl (hcall none c hg).2⟩
  | callIn w f b c hpc => exact Or.inl ⟨(hcall (some w) c hg).1, Or.inl (hcall (some w) c hg).2⟩
  | stop =>
    have hf := stopStep_frame pool s
    rw [hf.fiber] at hg ⊢
    exact Or.inl ⟨hg, Or.inl rfl⟩
  | recycle w ft cb f hpc htask hslot hres =>
    obtain ⟨hfin, hctx⟩ := hwrite (f := f) rfl (Fiber.not_finished_reset _)
    exact Or.inl ⟨hfin, Or.inl hctx⟩
  | create w ft cb hpc htask hslot =>
    obtain ⟨hfin, hctx⟩ := hwrite (f := s.nfiber) rfl (Fiber.not_finished_reset _)
    exact Or.inl ⟨hfin, Or.inl hctx⟩
  | enter w f b hpc hstate =>
    obtain ⟨hfin, hctx⟩ := hwrite (f := f) rfl (by simp [Fiber.Finished])
    exact Or.inl ⟨hfin, Or.inl hctx⟩
  | startEmpty w f b hpc hctx hjob =>
    rcases finished_of_update (f := f) rfl hg with ⟨rfl, -⟩ | ⟨hfin, hctx⟩
    · exact Or.inr ⟨w, by simp [setPc, setWorker, Pc.ending]⟩
    · exact Or.inl ⟨hfin, Or.inl hctx⟩
  | yield w u f b st hpc hst =>
    have hunf : ¬ ({ s.fiber f with m_state := st } : Fiber).Finished := by
      rcases hst with rfl | rfl <;> simp [Fiber.Finished]
    obtain ⟨hfin, hctx⟩ := hwrite (f := f) rfl hunf
    exact Or.inl ⟨hfin, Or.inl hctx⟩
  | finish w f b hpc =>
    rcases finished_of_update (f := f) rfl hg with ⟨rfl, -⟩ | ⟨hfin, hctx⟩
    · exact Or.inr ⟨w, by simp [setPc, setWorker, Pc.ending]⟩
    · exact Or.inl ⟨hfin, Or.inl hctx⟩
  | throw w f b hpc =>
    rcases finished_of_update (f := f) rfl hg with ⟨rfl, -⟩ | ⟨hfin, hctx⟩
    · exact Or.inr ⟨w, by simp [setPc, setWorker, Pc.ending]⟩
    · exact Or.inl ⟨hfin, Or.inl hctx⟩
  | save w f b ctx hpc =>
    rcases finished_of_update (f := f) rfl hg with ⟨rfl, hfin⟩ | ⟨hfin, hctx⟩
    · exact Or.inl ⟨hfin, Or.inr ⟨w, ctx, b, hpc, by simp [setPc, setWorker, setFiber]⟩⟩
    · exact Or.inl ⟨hfin, Or.inl hctx⟩
  | clear w f hpc hstate =>
    obtain ⟨hfin, hctx⟩ := hwrite (f := f) rfl (Fiber.not_finished_reset _)
    exact Or.inl ⟨hfin, Or.inl hctx⟩
  | hold w f hpc hterm hexcept =>
    obtain ⟨hfin, hctx⟩ := hwrite (f := f) rfl (by simp [Fiber.Finished])
    exact Or.inl ⟨hfin, Or.inl hctx⟩
  | holdCb w f hpc hterm hexcept =>
    obtain ⟨hfin, hctx⟩ := hwrite (f := f) rfl (by simp [Fiber.Finished])
    exact Or.inl ⟨hfin, Or.inl hctx⟩
  | _ => exact Or.inl ⟨hg, Or.inl rfl⟩

/-- Whoever executes a callback after a move does so in its own fiber. -/
theorem move_own (hown : ∀ w f, (s.worker w).pc.own = some f → (s.worker w).cb_fiber = some f)
    (h : Move pool s a s') {v : W} {g : FiberPtr} (hv : (s'.worker v).pc.own = some g) :
    (s'.worker v).cb_fiber = some g := by
  revert hv
  cases h with
  | stay => exact hown v g
  | abort => exact hown v g
  | callOut c => rw [(call_frame s none c).worker]; exact hown v g
  | callIn w f b c hpc => rw [(call_frame s (some w) c).worker]; exact hown v g
  | stop => rw [(stopStep_frame pool s).worker]; exact hown v g
  | recycle w ft cb f hpc htask hslot hres =>
    refine update_intro (P := fun k : Worker W => k.pc.own = some g → k.cb_fiber = some g)
      (hown v g) ?_
    intro _ hg
    cases hg
    exact hslot
  | create w ft cb hpc htask hslot =>
    refine update_intro (P := fun k : Worker W => k.pc.own = some g → k.cb_fiber = some g)
      (hown v g) ?_
    intro _ hg
    cases hg
    rfl
  | _ =>
    refine update_intro (P := fun k : Worker W => k.pc.own = some g → k.cb_fiber = some g)
      (hown v g) ?_
    intro hw hg
    first
      | cases hg
      | exact hw (by simpa [*, Pc.own, setState, setFiber] using hg)

/-- A callback fiber a worker has after a move it had before, or has just made. -/
theorem move_slot (h : Move pool s a s') {v : W} {g : FiberPtr}
    (hv : (s'.worker v).cb_fiber = some g) :
    (s.worker v).cb_fiber = some g ∨
      a = .run v ∧ g = s.nfiber ∧ (s'.worker v).pc.own = some g := by
  cases h with
  | stay => exact Or.inl hv
  | abort => exact Or.inl hv
  | callOut c => rw [(call_frame s none c).worker] at hv; exact Or.inl hv
  | callIn w f b c hpc => rw [(call_frame s (some w) c).worker] at hv; exact Or.inl hv
  | stop => rw [(stopStep_frame pool s).worker] at hv; exact Or.inl hv
  | create w ft cb hpc htask hslot =>
    rcases update_elim (P := fun k : Worker W => k.cb_fiber = some g) hv with ⟨rfl, hv⟩ | ⟨-, hv⟩
    · cases hv
      exact Or.inr ⟨rfl, rfl, by simp [setWorker, Pc.own]⟩
    · exact Or.inl hv
  | _ =>
    left
    rcases update_elim (P := fun k : Worker W => k.cb_fiber = some g) hv with ⟨rfl, hv⟩ | ⟨-, hv⟩
    · first
        | exact hv
        | cases hv
    · exact hv

/-- A callback fiber waiting to be reused after a move was waiting before, or its callback
has just ended. -/
theorem move_spare (h : Move pool s a s') {v : W} {g : FiberPtr}
    (hslot : (s'.worker v).cb_fiber = some g) (hown : (s'.worker v).pc.own ≠ some g) :
    (s.worker v).pc.own ≠ some g ∨ (s.fiber g).Finished ∧ s'.fiber g = Fiber.reset none := by
  have hkeep : ∀ w (wk : Worker W), s'.worker = Function.update s.worker w wk →
      ((s.worker w).pc.own = some g → wk.cb_fiber = some g → wk.pc.own = some g) →
      (s.worker v).pc.own ≠ some g := by
    intro w wk hw hwk hold
    rw [hw] at hslot hown
    by_cases hvw : v = w
    · subst hvw
      rw [Function.update_self] at hslot hown
      exact hown (hwk hold hslot)
    · rw [Function.update_of_ne hvw] at hown
      exact hown hold
  cases h with
  | stay => exact Or.inl hown
  | abort => exact Or.inl hown
  | callOut c => rw [(call_frame s none c).worker] at hown; exact Or.inl hown
  | callIn w f b c hpc => rw [(call_frame s (some w) c).worker] at hown; exact Or.inl hown
  | stop => rw [(stopStep_frame pool s).worker] at hown; exact Or.inl hown
  | clear w f hpc hstate =>
    by_cases hold : (s.worker v).pc.own = some g
    · by_cases hvw : v = w
      · subst hvw
        rw [hpc] at hold
        cases hold
        exact Or.inr ⟨hstate, by simp [setPc, setWorker, setFiber]⟩
      · simp only [setPc, setWorker, Function.update_of_ne hvw] at hown
        exact Or.inl hown
    · exact Or.inl hold
  | _ =>
    left
    refine hkeep _ _ rfl ?_
    intro hold hnew
    first
      | (simp [*, Pc.own] at hold; done)
      | cases hnew
      | simpa [*, Pc.own] using hold

/-- A callback in a fiber after a move was there before, or came with a new fiber, or a
worker has put it there from the queue. -/
theorem move_cb (h : Move pool s a s') {g : FiberPtr} {job : Job}
    (hg : (s'.fiber g).m_cb = some job) :
    (s.fiber g).m_cb = some job ∨ s.nfiber ≤ g ∧ job.serial = none ∨
      ∃ w ft cb, a = .run w ∧ (s.worker w).pc = .picked (some ft) ∧ ft.task = .cb cb ∧
        (s'.worker w).pc = .task .enter g .cb ∧ job = { cb := cb, serial := some ft.serial } ∧
        ((s.worker w).cb_fiber = some g ∨ g = s.nfiber) ∧ (s'.fiber g).m_ctx = .entry := by
  have hcall : ∀ pusher c, ((s.call pusher c).fiber g).m_cb = some job →
      (s.fiber g).m_cb = some job ∨ s.nfiber ≤ g ∧ job.serial = none := by
    intro pusher c hjob
    rcases call_fiber s pusher c g with heq | ⟨hle, cb, heq⟩
    · rw [heq] at hjob; exact Or.inl hjob
    · rw [heq] at hjob
      cases cb with
      | none => cases hjob
      | some cb => cases hjob; exact Or.inr ⟨hle, rfl⟩
  cases h with
  | callOut c => exact (hcall none c hg).imp_right Or.inl
  | callIn w f b c hpc => exact (hcall (some w) c hg).imp_right Or.inl
  | stop => rw [(stopStep_frame pool s).fiber] at hg; exact Or.inl hg
  | recycle w ft cb f hpc htask hslot hres =>
    rcases update_elim (P := fun fb : Fiber => fb.m_cb = some job) hg with ⟨rfl, hjob⟩ | ⟨-, hjob⟩
    · cases hjob
      refine Or.inr (Or.inr ⟨w, ft, cb, rfl, hpc, htask, ?_, rfl, Or.inl hslot, ?_⟩)
      · simp [setPc, setWorker]
      · simp [setPc, setWorker, setFiber, Fiber.reset]
    · exact Or.inl hjob
  | create w ft cb hpc htask hslot =>
    rcases update_elim (P := fun fb : Fiber => fb.m_cb = some job) hg with ⟨rfl, hjob⟩ | ⟨-, hjob⟩
    · cases hjob
      refine Or.inr (Or.inr ⟨w, ft, cb, rfl, hpc, htask, ?_, rfl, Or.inr rfl, ?_⟩)
      · simp [setWorker]
      · simp [setWorker, newFiber, setFiber, Fiber.reset]
    · exact Or.inl hjob
  | finish w f b hpc =>
    rcases update_elim (P := fun fb : Fiber => fb.m_cb = some job) hg with ⟨-, hjob⟩ | ⟨-, hjob⟩
    · cases hjob
    · exact Or.inl hjob
  | clear w f hpc hstate =>
    rcases update_elim (P := fun fb : Fiber => fb.m_cb = some job) hg with ⟨-, hjob⟩ | ⟨-, hjob⟩
    · cases hjob
    · exact Or.inl hjob
  | _ =>
    left
    first
      | exact hg
      | rcases update_elim (P := fun fb : Fiber => fb.m_cb = some job) hg with ⟨rfl, hjob⟩ | ⟨-, hjob⟩
        · exact hjob
        · exact hjob

/-- A fiber suspended after a move was so before, or a worker was in the middle of it. -/
theorem move_saved (h : Move pool s a s') {g : FiberPtr} (hg : (s'.fiber g).m_ctx = .saved) :
    (s.fiber g).m_ctx = .saved ∨ ∃ w, (s.worker w).pc.midway = some g := by
  have hcall : ∀ pusher c, ((s.call pusher c).fiber g).m_ctx = .saved →
      (s.fiber g).m_ctx = .saved := by
    intro pusher c hctx
    rcases call_fiber s pusher c g with heq | ⟨-, cb, heq⟩
    · rwa [heq] at hctx
    · rw [heq] at hctx; cases hctx
  cases h with
  | callOut c => exact Or.inl (hcall none c hg)
  | callIn w f b c hpc => exact Or.inl (hcall (some w) c hg)
  | stop => rw [(stopStep_frame pool s).fiber] at hg; exact Or.inl hg
  | save w f b ctx hpc =>
    rcases update_elim (P := fun fb : Fiber => fb.m_ctx = .saved) hg with ⟨rfl, hctx⟩ | ⟨-, hctx⟩
    · -- whoever saves the middle of a fiber was in it
      have hctx' : ctx = .saved := hctx
      exact Or.inr ⟨w, by rw [hpc, hctx']; rfl⟩
    · exact Or.inl hctx
  | _ =>
    left
    first
      | exact hg
      | rcases update_elim (P := fun fb : Fiber => fb.m_ctx = .saved) hg with ⟨rfl, hctx⟩ | ⟨-, hctx⟩
        · first
            | exact hctx
            | cases hctx
        · exact hctx

/-! ## The invariant -/

/-- **A quiet fiber stays quiet** until its callback is started. -/
theorem move_quiet (h : Move pool s a s') {g : FiberPtr} (hg : s.Quiet g) :
    s'.Quiet g ∨ ∃ job, (s.fiber g).m_cb = some job ∧ s'.fiber = s.fiber ∧
      s'.started = s.started ++ job.serial.toList := by
  by_cases hmid : ∃ v, (s'.worker v).pc.midway = some g
  · right
    obtain ⟨v, hv⟩ := hmid
    rcases move_midway h hv with hold | ⟨-, -, hfiber, -, hsaved | ⟨job, hjob, hstarted⟩⟩
    · exact absurd hold (hg.midway v)
    · exact absurd hsaved hg.ctx
    · exact ⟨job, hjob, hfiber, hstarted⟩
  · left
    refine ⟨?_, fun v hv => hmid ⟨v, hv⟩⟩
    intro hsaved
    rcases move_saved h hsaved with hold | ⟨w, hw⟩
    · exact hg.ctx hold
    · exact hg.midway w hw

omit [Fintype W] in
theorem init_sound (pool : Pool W) : (init pool).Sound := by
  have hon : ∀ w, ((init pool).worker w).pc.on = none := by
    intro w
    show Pc.on (if _ then _ else _) = none
    split <;> rfl
  have hown : ∀ w, ((init pool).worker w).pc.own = none := by
    intro w
    show Pc.own (if _ then _ else _) = none
    split <;> rfl
  refine ⟨?_, ?_, ?_, ?_, ?_, ?_⟩
  · intro w w' f hw
    have hnone := hon w
    rw [show ((init pool).worker w).pc.on = some f from hw] at hnone
    cases hnone
  · intro w f hw
    have hnone := hon w
    rw [Pc.on_of_midway hw] at hnone
    cases hnone
  · intro f hf; rcases hf with hf | hf <;> cases hf
  · intro w f hw; rw [hown w] at hw; cases hw
  · intro w w' f hw; cases hw
  · intro w f hw; cases hw

/-- **Two workers on one fiber**: at most one has just switched to it, and it was alone. -/
theorem move_on_exclusive (hs : s.Sound) (h : Move pool s a s')
    (halone : ∀ {v f}, a = .run v → (s.worker v).pc.switching = some f →
      ∀ w, (s.worker w).pc.on ≠ some f) : Exclusive fun w => (s'.worker w).pc.on := by
  intro v v' g hv hv'
  rcases move_on h hv with hv | ⟨rfl, b, hpc⟩
  · rcases move_on h hv' with hv' | ⟨rfl, b', hpc'⟩
    · exact hs.on v v' g hv hv'
    · exact absurd hv (halone rfl (by rw [hpc']; rfl) v)
  · rcases move_on h hv' with hv' | ⟨heq, -⟩
    · exact absurd hv' (halone rfl (by rw [hpc]; rfl) v')
    · cases heq; rfl

/-- **The end of a finished fiber** stays saved or being saved. -/
theorem move_ended (hs : s.Sound) (h : Move pool s a s') {g : FiberPtr} (hfin : (s'.fiber g).Finished) :
    (s'.fiber g).m_ctx = .ended ∨ ∃ w, (s'.worker w).pc.ending = some g := by
  rcases move_finished h hfin with ⟨hfin, hctx⟩ | hend
  · rcases hs.ended g hfin with hold | ⟨w, hw⟩
    · left
      rcases hctx with heq | ⟨w, ctx, b, hpc, heq⟩
      · rw [heq, hold]
      · -- whoever saves the context of a finished fiber saves an end
        by_contra hne
        rw [heq] at hne
        exact hs.midway w g (by simp [hpc, Pc.midway, hne]) hfin
    · rcases move_ending h hw with hw' | hctx'
      · exact Or.inr ⟨w, hw'⟩
      · exact Or.inl hctx'
  · exact Or.inr hend

/-- **Two workers with one callback fiber**: a fiber just made is in no other worker's slot. -/
theorem move_slot_exclusive (hex : s.Exist) (hs : s.Sound) (h : Move pool s a s') :
    Exclusive fun w => (s'.worker w).cb_fiber := by
  intro v v' g hv hv'
  have hfresh : ∀ w, (s.worker w).cb_fiber ≠ some s.nfiber :=
    fun w hw => Nat.lt_irrefl _ (hex.slot w _ hw)
  rcases move_slot h hv with hv | ⟨rfl, rfl, -⟩
  · rcases move_slot h hv' with hv' | ⟨-, rfl, -⟩
    · exact hs.slot v v' g hv hv'
    · exact absurd hv (hfresh v)
  · rcases move_slot h hv' with hv' | ⟨heq, -⟩
    · exact absurd hv' (hfresh v')
    · cases heq; rfl

/-- **A callback fiber that waits to be reused** has nothing to run. -/
theorem move_spare_quiet (hex : s.Exist) (hs : s.Sound) (h : Move pool s a s') {v : W} {g : FiberPtr}
    (hslot : (s'.worker v).cb_fiber = some g) (hown : (s'.worker v).pc.own ≠ some g) :
    (s'.fiber g).m_cb = none ∧ s'.Quiet g := by
  rcases move_spare h hslot hown with hold | ⟨hfin, hreset⟩
  · rcases move_slot h hslot with hslot | ⟨-, -, hnew⟩
    · obtain ⟨hcb, hquiet⟩ := hs.spare v g hslot hold
      refine ⟨?_, ?_⟩
      · rw [Option.eq_none_iff_forall_ne_some]
        intro job hjob
        rcases move_cb h hjob with hjob | ⟨hle, -⟩ |
          ⟨w, ft, cb, rfl, hpc, htask, hpc', -, hslot' | hnew, -⟩
        · rw [hcb] at hjob; cases hjob
        · exact Nat.lt_irrefl _ (Nat.lt_of_lt_of_le (hex.slot v g hslot) hle)
        · have heq := hs.slot v w g hslot hslot'
          subst heq
          exact hown (by rw [hpc']; rfl)
        · exact Nat.lt_irrefl _ (hnew ▸ hex.slot v g hslot)
      · rcases move_quiet h hquiet with hq | ⟨job, hjob, -⟩
        · exact hq
        · rw [hcb] at hjob; cases hjob
    · exact absurd hnew hown
  · -- a callback's fiber is reset where it is known to have ended
    refine ⟨by rw [hreset]; rfl, by rw [hreset]; simp [Fiber.reset], ?_⟩
    intro w hw
    rcases move_midway h hw with hold | ⟨-, -, hfiber, -⟩
    · exact hs.midway w g hold hfin
    · rw [← hfiber, hreset] at hfin
      exact absurd hfin (Fiber.not_finished_reset _)

/-- **Every move that switches to nobody else's fiber keeps the invariant.** -/
theorem move_sound (hex : s.Exist) (hs : s.Sound) (h : Move pool s a s') (ha : s.SwitchesAlone a) :
    s'.Sound := by
  have halone : ∀ {v f}, a = .run v → (s.worker v).pc.switching = some f →
      ∀ w, (s.worker w).pc.on ≠ some f := by
    rintro v f rfl hv w hw
    by_cases hwv : w = v
    · subst hwv
      cases hpc : (s.worker w).pc with
      | task stage g b => cases stage <;> simp [hpc, Pc.on, Pc.switching] at hv hw
      | _ => simp [hpc, Pc.switching] at hv
    · exact ha f hv w hwv hw
  have hon := move_on_exclusive hs h halone
  refine ⟨hon, ?_, fun g => move_ended hs h, fun v g => move_own hs.own h,
    move_slot_exclusive hex hs h, fun v g => move_spare_quiet hex hs h⟩
  intro v g hv hfin
  rcases move_finished h hfin with ⟨hfin, -⟩ | ⟨w, hw⟩
  · -- a finished fiber is not switched into: its end is saved, or somebody is on it
    rcases move_midway h hv with hold | ⟨rfl, hswitch, -, hctx, -⟩
    · exact hs.midway v g hold hfin
    · rcases hs.ended g hfin with hend | ⟨w, hw⟩
      · exact hctx hend
      · exact halone rfl hswitch w (Pc.on_of_ending hw)
  · have heq := hon w v g (Pc.on_of_ending hw) (Pc.on_of_midway hv)
    subst heq
    rw [Pc.ending_of_midway hv] at hw
    cases hw

end Scheduler

end Coroutine
