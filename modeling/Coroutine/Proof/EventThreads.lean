import Coroutine.Lib.Run
import Coroutine.Proof.EventDispatch
import Coroutine.Spec.EventThreads

/-!
# The table of contexts under concurrent `addEvent`

A thread that found the table too small resizes it to one and a half times its own
descriptor, whatever the size is by then, so a call with a smaller descriptor may shrink
the table again.

* `step_alone`: a thread that is not interrupted does what `addEvent` does.
* `step_keeps_iff`: a step keeps the table and its contexts exactly when it does not
  shrink it.
* `table_keeps_iff`: so the table of a run keeps all it had exactly when no step shrinks it.
-/

namespace Coroutine

open Lib

namespace IOManager

variable {κ : Type} {ctl : EpollCtl κ} {s s' s'' : IOManager κ}

/-- **The table keeps what it has**: it does not shrink, every context stays in its place,
and a registered event stays registered as it was. -/
structure Keeps (s s' : IOManager κ) : Prop where
  size : s.size ≤ s'.size
  slot : ∀ (i p : ℕ), s.m_fdContexts[i]? = some p → s'.m_fdContexts[i]? = some p
  events : ∀ (i p : ℕ) e, s.m_fdContexts[i]? = some p → (s.fdctx p).Has e →
    (s'.fdctx p).Has e ∧ (s'.fdctx p).getContext e = (s.fdctx p).getContext e

theorem keeps_refl (s : IOManager κ) : s.Keeps s :=
  ⟨Nat.le_refl _, fun _ _ h => h, fun _ _ _ _ h => ⟨h, rfl⟩⟩

theorem Keeps.trans (h : s.Keeps s') (h' : s'.Keeps s'') : s.Keeps s'' := by
  refine ⟨Nat.le_trans h.size h'.size, fun i p hp => h'.slot i p (h.slot i p hp), ?_⟩
  intro i p e hp hh
  obtain ⟨hh', hc⟩ := h.events i p e hp hh
  obtain ⟨hh'', hc'⟩ := h'.events i p e (h.slot i p hp) hh'
  exact ⟨hh'', hc'.trans hc⟩

theorem keeps_answer (k : κ) : s.Keeps (s.answer k) :=
  ⟨Nat.le_refl _, fun _ _ h => h, fun _ _ _ _ h => ⟨h, rfl⟩⟩

/-- Registering another event keeps the table. -/
theorem keeps_addAt (hs : s.OK) {p : ℕ} {e : Event} (he : e ≠ .NONE) (hno : ¬ (s.fdctx p).Has e)
    (ctx : EventContext) : s.Keeps (s.addAt p e ctx) := by
  refine ⟨Nat.le_refl _, fun _ _ h => h, ?_⟩
  intro i q e' _ hh
  by_cases hq : q = p
  · subst hq
    have hne : e' ≠ e := by rintro rfl; exact hno hh
    rw [addAt_fdctx_self, FdContext.has_add (hs.ctx q).mask he, FdContext.getContext_add_of_ne hne]
    exact ⟨Or.inr hh, rfl⟩
  · rw [addAt_fdctx_of_ne e ctx hq]
    exact ⟨hh, rfl⟩

theorem addEventAt_keeps (hs : s.OK) {caller : Caller} {p : ℕ} {fd : Int32} {e : Event}
    {cb : Option Callback} {rt : ℤ} (h : s.addEventAt ctl caller p fd e cb = .ok (rt, s')) :
    s.Keeps s' := by
  rcases addEventAt_cases hs h with ⟨-, -, rfl⟩ | ⟨-, -, he, hno, rfl⟩
  · exact keeps_answer _
  · have hs₁ := answer_ok hs (addAnswer ctl s p fd e).2
    exact (keeps_answer _).trans (keeps_addAt hs₁ he hno _)

theorem size_contextResize (size : ℕ) : (s.contextResize size).size = size := by
  simp only [contextResize, IOManager.size, List.length_append, List.length_take, List.length_map,
    List.length_range]
  omega

/-- **Resizing keeps the table exactly when it does not shrink it.** -/
theorem keeps_contextResize_iff (hs : s.OK) (size : ℕ) :
    s.Keeps (s.contextResize size) ↔ s.size ≤ size := by
  constructor
  · intro h
    have hle := h.size
    rwa [size_contextResize] at hle
  · intro hle
    have hsame := contextResize_same hs size
    refine ⟨by rw [size_contextResize]; exact hle, ?_, ?_⟩
    · intro i p hp
      have hi : i < s.m_fdContexts.length := (List.getElem?_eq_some_iff.1 hp).1
      have htake : s.m_fdContexts.take size = s.m_fdContexts := List.take_of_length_le hle
      show (s.m_fdContexts.take size ++ _)[i]? = some p
      rw [htake, List.getElem?_append_left hi]
      exact hp
    · intro i p e _ hh
      obtain ⟨hm, hc⟩ := hsame p
      refine ⟨?_, hc e⟩
      unfold FdContext.Has at hh ⊢
      rwa [hm]

end IOManager

namespace AddThreads

open IOManager

variable {κ T : Type} {ctl : EpollCtl κ} {s : AddThreads κ T}

/-- **The invariant of the threads**: a thread's context exists. -/
structure OK (s : AddThreads κ T) : Prop where
  io : s.io.OK
  found : ∀ th call p, s.pc th = .found call p → p < s.io.nctx

theorem init_ok (k : κ) : (init k : AddThreads κ T).OK :=
  ⟨IOManager.init_ok k, fun _ _ _ h => by cases h⟩

variable [DecidableEq T]

@[simp] theorem enter_io (th : T) (call : AddCall) : (s.enter th call).io = s.io := by
  unfold enter
  split <;> rfl

theorem enter_found {th th' : T} {call call' : AddCall} {p : ℕ}
    (h : (s.enter th call).pc th' = .found call' p) :
    s.pc th' = .found call' p ∨ p ∈ s.io.m_fdContexts := by
  unfold enter at h
  split at h
  · exact Or.inl h
  · rename_i q hq
    dsimp only at h
    by_cases hth : th' = th
    · subst hth
      rw [Function.update_self] at h
      cases h
      exact Or.inr (slot_mem hq)
    · rw [Function.update_of_ne hth] at h; exact Or.inl h

theorem enter_ok {th : T} {call : AddCall} {p : ℕ} (h : s.io.slot call.fd = .ok p) :
    s.enter th call = { s with pc := Function.update s.pc th (.found call p) } := by
  simp only [enter, h]

/-- **A thread that is not interrupted does what `addEvent` does.** -/
theorem step_alone (th : T) (call : AddCall) (hf : s.fault = none) (hpc : s.pc th = .out) {rt : ℤ}
    {io : IOManager κ}
    (h : s.io.addEvent ctl call.caller call.fd call.event call.cb = .ok (rt, io)) :
    (run (step ctl) s [.check th call, .grow th, .register th]).io = io := by
  obtain ⟨p, s₁, hl, ha⟩ := addEvent_ok h
  unfold lookup at hl
  split at hl
  · -- the table is large enough: the second section is not taken
    rename_i hin
    obtain ⟨q, hq, heq⟩ := map_ok hl
    cases heq
    have hcheck : step ctl s (.check th call) =
        { s with pc := Function.update s.pc th (.found call p) } := by
      rw [← enter_ok hq]
      simp [step, hf, hpc, hin]
    rw [run_cons, hcheck]
    simp [step, hf, ha]
  · rename_i hin
    unfold grow at hl
    rw [if_neg (by simpa [Int32.not_lt] using call.nonneg)] at hl
    obtain ⟨q, hq, heq⟩ := map_ok hl
    cases heq
    have hcheck : step ctl s (.check th call) =
        { s with pc := Function.update s.pc th (.small call) } := by
      simp [step, hf, hpc, hin]
    have hgrow : step ctl { s with pc := Function.update s.pc th (.small call) } (.grow th) =
        { s with io := s.io.contextResize (growSize call.fd)
                 pc := Function.update s.pc th (.found call p) } := by
      simp only [step, hf, Option.isSome_none, Bool.false_eq_true, if_false, Function.update_self]
      rw [enter_ok hq]
      simp
    rw [run_cons, hcheck, run_cons, hgrow]
    simp [step, hf, ha]

/-- **The table grows**: a thread in its write-locked section finds a table that is no
larger than one and a half times its descriptor. -/
def Grows (s : AddThreads κ T) : AddAct T → Prop
  | .grow th => s.fault = none → ∀ call, s.pc th = .small call →
      s.io.size ≤ growSize call.fd
  | _ => True

/-- **What a step can do.** -/
theorem step_cases (s : AddThreads κ T) (a : AddAct T) :
    -- looking the context up at most
    ((step ctl s a).io = s.io ∧ ∀ th call p, (step ctl s a).pc th = .found call p →
      s.pc th = .found call p ∨ p ∈ s.io.m_fdContexts) ∨
    (∃ th call, a = .grow th ∧ s.fault = none ∧ s.pc th = .small call ∧
      step ctl s a = { s with io := s.io.contextResize (growSize call.fd) }.enter th call) ∨
    ∃ th call p rt, s.pc th = .found call p ∧
      s.io.addEventAt ctl call.caller p call.fd call.event call.cb = .ok (rt, (step ctl s a).io) ∧
      (step ctl s a).pc = Function.update s.pc th .out := by
  have hstay : ∀ th call p, s.pc th = .found call p →
      s.pc th = .found call p ∨ p ∈ s.io.m_fdContexts := fun _ _ _ h => Or.inl h
  by_cases hf : s.fault.isSome
  · left; simp only [step, if_pos hf]; exact ⟨trivial, hstay⟩
  have hnone : s.fault = none := by simpa using hf
  cases a with
  | check th call =>
    left
    simp only [step, if_neg hf]
    split
    · split
      · refine ⟨enter_io th call, ?_⟩
        intro th' call' p h
        exact enter_found h
      · refine ⟨rfl, ?_⟩
        intro th' call' p h
        dsimp only at h
        by_cases hth : th' = th
        · subst hth; simp at h
        · rw [Function.update_of_ne hth] at h; exact Or.inl h
    · exact ⟨rfl, hstay⟩
  | grow th =>
    cases hpc : s.pc th with
    | small call =>
      right; left
      refine ⟨th, call, rfl, hnone, hpc, ?_⟩
      simp only [step, if_neg hf, hpc]
    | out => left; simp only [step, if_neg hf, hpc]; exact ⟨trivial, hstay⟩
    | found call p => left; simp only [step, if_neg hf, hpc]; exact ⟨trivial, hstay⟩
  | register th =>
    cases hpc : s.pc th with
    | found call p =>
      simp only [step, if_neg hf, hpc]
      cases ha : s.io.addEventAt ctl call.caller p call.fd call.event call.cb with
      | error e => left; exact ⟨rfl, hstay⟩
      | ok r =>
        obtain ⟨rt, io⟩ := r
        right; right
        exact ⟨th, call, p, rt, hpc, ha, rfl⟩
    | out => left; simp only [step, if_neg hf, hpc]; exact ⟨trivial, hstay⟩
    | small call => left; simp only [step, if_neg hf, hpc]; exact ⟨trivial, hstay⟩

/-- Every step keeps the invariant. -/
theorem step_ok (hs : s.OK) (a : AddAct T) : (step ctl s a).OK := by
  rcases step_cases s a with ⟨hio, hpc⟩ | ⟨th, call, -, -, -, h⟩ | ⟨th, call, p, rt, hp, ha, hpc⟩
  · refine ⟨by rw [hio]; exact hs.io, ?_⟩
    intro th call p hfound
    rw [hio]
    rcases hpc th call p hfound with h | h
    · exact hs.found th call p h
    · exact hs.io.table p h
  · have hok := contextResize_ok hs.io (growSize call.fd)
    have hle : s.io.nctx ≤ (s.io.contextResize (growSize call.fd)).nctx := Nat.le_add_right _ _
    rw [h]
    refine ⟨by rw [enter_io]; exact hok, ?_⟩
    intro th' call' p hfound
    rw [enter_io]
    rcases enter_found hfound with hold | hmem
    · have hlt := hs.found th' call' p hold
      show p < (s.io.contextResize (growSize call.fd)).nctx
      omega
    · exact hok.table p hmem
  · have hlt := hs.found th call p hp
    have hfound : ∀ th' call' p', (step ctl s a).pc th' = .found call' p' → p' < s.io.nctx := by
      intro th' call' p' h
      rw [hpc] at h
      by_cases hth : th' = th
      · subst hth; simp at h
      · rw [Function.update_of_ne hth] at h; exact hs.found th' call' p' h
    rcases addEventAt_cases hs.io ha with ⟨-, -, heq⟩ | ⟨-, -, he, hno, heq⟩
    · refine ⟨by rw [heq]; exact answer_ok hs.io _, ?_⟩
      rw [heq]; exact hfound
    · have hctx : (call.caller.context call.cb).fiber.isSome =
          !(call.caller.context call.cb).cb.isSome := by
        cases call.cb <;> rfl
      refine ⟨?_, ?_⟩
      · rw [heq]
        exact addAt_ok (answer_ok hs.io (addAnswer ctl s.io p call.fd call.event).2) hlt he hno hctx
      · rw [heq]; exact hfound

/-- **A step keeps the table exactly when it does not shrink it.** -/
theorem step_keeps_iff (hs : s.OK) (a : AddAct T) :
    s.io.Keeps (step ctl s a).io ↔ Grows s a := by
  constructor
  · intro h
    cases a with
    | check th call => trivial
    | register th => trivial
    | grow th =>
      intro hf call hpc
      rw [← keeps_contextResize_iff hs.io]
      simpa [step, hf, hpc] using h
  · intro hg
    rcases step_cases s a with ⟨hio, -⟩ | ⟨th, call, rfl, hf, hpc, h⟩ | ⟨th, call, p, rt, -, ha, -⟩
    · rw [hio]; exact keeps_refl _
    · rw [h, enter_io, keeps_contextResize_iff hs.io]
      exact hg hf call hpc
    · exact addEventAt_keeps hs.io ha

/-- **In every run the table keeps all it has, from each state to every later one, if
and only if no step shrinks it.** -/
theorem table_keeps_iff {κ T : Type} [DecidableEq T] (ctl : EpollCtl κ) (k : κ)
    (acts : List (AddAct T)) :
    (trace (step ctl) (init k) acts).Pairwise (fun s s' => s.io.Keeps s'.io) ↔
      Along (step ctl) Grows (init k) acts := by
  rw [pairwise_trace (R := fun s s' : AddThreads κ T => s.io.Keeps s'.io)
    fun _ _ _ h h' => Keeps.trans h h']
  exact along_congr (fun _ a hs => step_ok hs a) (fun _ a hs => step_keeps_iff hs a) acts (init_ok k)

/-! ## Two growing calls -/

/-- A worker's read event on descriptor `fd`. -/
def readCall (fd : Int32) (h : 0 ≤ fd) : AddCall :=
  { caller := ⟨some 0, 1, true⟩, fd := fd, event := .READ, cb := some 7, nonneg := h }

/-- Two threads find a table of 32 too small, for the descriptors 48 and 32; the first
resizes it to 72 and registers its event. -/
def twoGrowing : List (AddAct Bool) :=
  [.check true (readCall 48 (by decide)), .check false (readCall 32 (by decide)), .grow true,
    .register true]

/-- The second then resizes it to 48, and the context of descriptor 48 is lost. -/
theorem shrink_after_grow :
    let s : AddThreads Unit Bool := run (step acceptAll) (init ()) twoGrowing
    let s' := step acceptAll s (.grow false)
    s.io.size = 72 ∧ s.io.m_fdContexts[48]? = some 48 ∧ (s.io.fdctx 48).Has .READ ∧
      s'.io.size = 48 ∧ s'.io.m_fdContexts[48]? = none ∧
      ¬ (trace (step acceptAll) (init ()) (twoGrowing ++ [.grow false])).Pairwise
        fun s s' : AddThreads Unit Bool => s.io.Keeps s'.io := by
  intro s s'
  have hsize : s.io.size = 72 := by decide
  have hsize' : s'.io.size = 48 := by decide
  refine ⟨hsize, by decide, by decide, hsize', by decide, ?_⟩
  intro h
  rw [pairwise_trace (R := fun s s' : AddThreads Unit Bool => s.io.Keeps s'.io)
    fun _ _ _ h h' => Keeps.trans h h'] at h
  have hlast : s.io.Keeps s'.io := h.2.2.2.2.1
  have hle := hlast.size
  omega

end AddThreads

end Coroutine
