import Mathlib.Data.List.Basic

/-!
# Runs of a step function

A system is a total step function `step : σ → α → σ`; an action that is not
enabled leaves the state as it is. A run is a list of actions, `run step s as`
the state it ends in, `trace step s as` the states it goes through.

* `run_inv`: what every step keeps, every run keeps.
* `run_inv_of`: the same when only the steps that meet a condition keep it, for
  runs all of whose steps meet the condition (`Along`).
* `trace_inv_of`: so it holds in all states of such a run.
* `forall_trace_iff_along`: a property that exactly the steps meeting a condition keep holds
  in all states of a run exactly when all its steps meet the condition.
* `run_iff_along`: of a property no step restores, when it holds at the end of a run.
* `run_ok_inv`, `trace_ok_inv`: the invariant rule for fallible steps, about what does not fail.
* `sequence_inv`: the invariant rule for a sequence of related states, one index at a time.
* `run_parts`: a run seen as a run of smaller steps, if each step can be taken apart.
* `run_matched`, `run_project`: a run that another system can follow, or of which it sees some steps.
* `pairwise_trace`: a preorder holds between each state of a run and every later
  one exactly when it holds across each step.
-/

namespace Coroutine.Lib

variable {σ α : Type*} {step : σ → α → σ}

/-- The state after the actions `as`. -/
def run (step : σ → α → σ) (s : σ) (as : List α) : σ := as.foldl step s

/-- The states a run goes through, the first one included. -/
def trace (step : σ → α → σ) : σ → List α → List σ
  | s, [] => [s]
  | s, a :: as => s :: trace step (step s a) as

/-- **Every step of the run meets `ok`**, a condition on the state before the step
and its action. -/
def Along (step : σ → α → σ) (ok : σ → α → Prop) : σ → List α → Prop
  | _, [] => True
  | s, a :: as => ok s a ∧ Along step ok (step s a) as

@[simp] theorem run_nil (s : σ) : run step s [] = s := rfl

@[simp] theorem run_cons (s : σ) (a : α) (as : List α) :
    run step s (a :: as) = run step (step s a) as := rfl

@[simp] theorem along_nil (ok : σ → α → Prop) (s : σ) : Along step ok s [] := trivial

theorem along_cons (ok : σ → α → Prop) (s : σ) (a : α) (as : List α) :
    Along step ok s (a :: as) ↔ ok s a ∧ Along step ok (step s a) as := Iff.rfl

theorem Along.mono {ok ok' : σ → α → Prop} (h : ∀ s a, ok s a → ok' s a) :
    ∀ {as : List α} {s : σ}, Along step ok s as → Along step ok' s as := by
  intro as
  induction as with
  | nil => intro s _; trivial
  | cons a as ih => intro s hs; exact ⟨h _ _ hs.1, ih hs.2⟩

/-- What holds along a run holds along the first part of it. -/
theorem Along.initial {ok : σ → α → Prop} : ∀ {as bs : List α} {s : σ}, Along step ok s as →
    bs <+: as → Along step ok s bs := by
  intro as bs
  induction bs generalizing as with
  | nil => intro s _ _; trivial
  | cons b bs ih =>
    intro s h hbs
    cases as with
    | nil => exact absurd (List.prefix_nil.1 hbs) (List.cons_ne_nil b bs)
    | cons a as =>
      obtain ⟨rfl, hpre⟩ := List.cons_prefix_cons.1 hbs
      exact ⟨h.1, ih h.2 hpre⟩

/-- Two conditions hold along a run together. -/
theorem Along.and {ok ok' : σ → α → Prop} : ∀ {as : List α} {s : σ}, Along step ok s as →
    Along step ok' s as → Along step (fun s a => ok s a ∧ ok' s a) s as := by
  intro as
  induction as with
  | nil => intro s _ _; trivial
  | cons a as ih => intro s h h'; exact ⟨⟨h.1, h'.1⟩, ih h.2 h'.2⟩

instance (ok : σ → α → Prop) [∀ s a, Decidable (ok s a)] :
    ∀ (s : σ) (as : List α), Decidable (Along step ok s as)
  | _, [] => isTrue trivial
  | s, a :: as =>
    have := instDecidableAlong ok (step s a) as
    inferInstanceAs (Decidable (ok s a ∧ Along step ok (step s a) as))

/-- **The invariant rule**, for runs whose steps meet a condition. -/
theorem run_inv_of {I : σ → Prop} {ok : σ → α → Prop} (hI : ∀ s a, I s → ok s a → I (step s a)) :
    ∀ (as : List α) (s : σ), I s → Along step ok s as → I (run step s as) := by
  intro as
  induction as with
  | nil => intro s hs _; exact hs
  | cons a as ih => intro s hs hok; exact ih _ (hI s a hs hok.1) hok.2

/-- The invariant rule, for all states of a run. -/
theorem trace_inv_of {I : σ → Prop} {ok : σ → α → Prop} (hI : ∀ s a, I s → ok s a → I (step s a))
    (as : List α) {s : σ} (hs : I s) (hok : Along step ok s as) : ∀ t ∈ trace step s as, I t := by
  induction as generalizing s with
  | nil => simpa [trace] using hs
  | cons a as ih =>
    simp only [trace, List.mem_cons, forall_eq_or_imp]
    exact ⟨hs, ih (hI s a hs hok.1) hok.2⟩

/-- **The invariant rule.** -/
theorem run_inv {I : σ → Prop} (hI : ∀ s a, I s → I (step s a)) (as : List α) (s : σ) (hs : I s) :
    I (run step s as) := by
  induction as generalizing s with
  | nil => exact hs
  | cons a as ih => exact ih _ (hI s a hs)

/-- Two conditions that agree wherever an invariant holds hold along the same runs. -/
theorem along_congr {I : σ → Prop} {ok ok' : σ → α → Prop} (hI : ∀ s a, I s → I (step s a))
    (h : ∀ s a, I s → (ok s a ↔ ok' s a)) (as : List α) {s : σ} (hs : I s) :
    Along step ok s as ↔ Along step ok' s as := by
  induction as generalizing s with
  | nil => exact Iff.rfl
  | cons a as ih => rw [along_cons, along_cons, h s a hs, ih (hI s a hs)]

/-- **When a property holds throughout a run** whose steps are all of a kind, with an invariant of
the runs in which it does. -/
theorem forall_trace_iff_along {I P : σ → Prop} {kind ok : σ → α → Prop}
    (hI : ∀ s a, I s → P s → kind s a → ok s a → I (step s a))
    (h : ∀ s a, I s → P s → kind s a → (P (step s a) ↔ ok s a)) (as : List α) {s : σ} (hs : I s)
    (hP : P s) (hkind : Along step kind s as) :
    (∀ t ∈ trace step s as, P t) ↔ Along step ok s as := by
  induction as generalizing s with
  | nil => simpa [trace] using hP
  | cons a as ih =>
    obtain ⟨hone, hrest⟩ := hkind
    rw [along_cons]
    simp only [trace, List.mem_cons, forall_eq_or_imp]
    constructor
    · rintro ⟨-, hall⟩
      have hnext : P (step s a) := hall _ (by cases as <;> simp [trace])
      have hok := (h s a hs hP hone).1 hnext
      exact ⟨hok, (ih (hI s a hs hP hone hok) hnext hrest).1 hall⟩
    · rintro ⟨hok, hal⟩
      have hnext := (h s a hs hP hone).2 hok
      exact ⟨hP, (ih (hI s a hs hP hone hok) hnext hrest).2 hal⟩

theorem along_true (as : List α) (s : σ) : Along step (fun _ _ => True) s as := by
  induction as generalizing s with
  | nil => trivial
  | cons a as ih => exact ⟨trivial, ih _⟩

/-- The same of any run. -/
theorem forall_trace_iff_of {I P : σ → Prop} {ok : σ → α → Prop}
    (hI : ∀ s a, I s → P s → ok s a → I (step s a))
    (h : ∀ s a, I s → P s → (P (step s a) ↔ ok s a)) (as : List α) {s : σ} (hs : I s) (hP : P s) :
    (∀ t ∈ trace step s as, P t) ↔ Along step ok s as :=
  forall_trace_iff_along (fun s a hs hP _ => hI s a hs hP) (fun s a hs hP _ => h s a hs hP) as hs hP
    (along_true as s)

/-- **When a property holds throughout a run.** -/
theorem forall_trace_iff {P : σ → Prop} {ok : σ → α → Prop}
    (h : ∀ s a, P s → (P (step s a) ↔ ok s a)) (as : List α) {s : σ} (hs : P s) :
    (∀ t ∈ trace step s as, P t) ↔ Along step ok s as :=
  forall_trace_iff_of (I := fun _ => True) (fun _ _ _ _ _ => trivial) (fun s a _ hP => h s a hP) as
    trivial hs

/-- **What is lost stays lost**: a property that a step loses exactly where it does not meet a condition,
and that no step restores, is there at the end of a run exactly when all its steps met the condition. -/
theorem run_iff_along {I P : σ → Prop} {ok : σ → α → Prop} (hI : ∀ s a, I s → I (step s a))
    (h : ∀ s a, I s → P s → (P (step s a) ↔ ok s a))
    (hlost : ∀ s a, I s → ¬ P s → ¬ P (step s a)) (as : List α) {s : σ} (hs : I s) (hP : P s) :
    P (run step s as) ↔ Along step ok s as := by
  induction as generalizing s with
  | nil => exact ⟨fun _ => trivial, fun _ => hP⟩
  | cons a as ih =>
    rw [run_cons, along_cons, ← h s a hs hP]
    by_cases hnext : P (step s a)
    · rw [ih (hI s a hs) hnext]
      exact (and_iff_right hnext).symm
    · have hend : I (run step (step s a) as) ∧ ¬ P (run step (step s a) as) :=
        run_inv (I := fun s => I s ∧ ¬ P s) (fun s a hs => ⟨hI s a hs.1, hlost s a hs.1 hs.2⟩) as _
          ⟨hI s a hs, hnext⟩
      exact ⟨fun hP => absurd hP hend.2, fun hP => absurd hP.1 hnext⟩

/-- A condition on the actions alone. -/
theorem along_iff_forall {ok : α → Prop} (as : List α) (s : σ) :
    Along step (fun _ a => ok a) s as ↔ ∀ a ∈ as, ok a := by
  induction as generalizing s with
  | nil => simp
  | cons a as ih => rw [along_cons, ih, List.forall_mem_cons]

/-! ## Fallible steps -/

theorem map_ok {ε β γ : Type*} {f : β → γ} {x : Except ε β} {c : γ} (h : x.map f = .ok c) :
    ∃ b, x = .ok b ∧ f b = c := by
  cases x with
  | error e => cases h
  | ok b => cases h; exact ⟨b, rfl, rfl⟩

/-- **The invariant rule for a step that may fail**: after a failure the run stays failed. -/
theorem run_ok_inv {ε : Type*} {step : Except ε σ → α → Except ε σ} {f : σ → α → Except ε σ}
    (hstep : ∀ r a, step r a = r.bind fun s => f s a) {I : σ → Prop} {as : List α}
    (hI : ∀ a ∈ as, ∀ s s', I s → f s a = .ok s' → I s') {s s' : σ} (hs : I s)
    (h : run step (.ok s) as = .ok s') : I s' := by
  induction as generalizing s with
  | nil => cases h; exact hs
  | cons a as ih =>
    rw [run_cons, hstep] at h
    cases hf : f s a with
    | error e =>
      have hfail : ∀ bs : List α, run step (.error e) bs = .error e := by
        intro bs
        induction bs with
        | nil => rfl
        | cons b bs ihb => rw [run_cons, hstep]; exact ihb
      simp only [Except.bind, hf] at h
      rw [hfail] at h
      cases h
    | ok t =>
      simp only [Except.bind, hf] at h
      exact ih (fun b hb => hI b (List.mem_cons_of_mem a hb)) (hI a List.mem_cons_self s t hs hf) h

/-- The condition holds, unless the run has failed. -/
def IfOk {ε : Type*} (P : σ → Prop) : Except ε σ → Prop
  | .ok s => P s
  | .error _ => True

instance {ε : Type*} (P : σ → Prop) [DecidablePred P] : DecidablePred (@IfOk σ ε P)
  | .ok s => inferInstanceAs (Decidable (P s))
  | .error _ => isTrue trivial

/-- **The invariant rule for a step that may fail**, for runs whose steps meet a condition. -/
theorem trace_ok_inv {ε : Type*} {step : Except ε σ → α → Except ε σ} {f : σ → α → Except ε σ}
    (hstep : ∀ r a, step r a = r.bind fun s => f s a) {I : σ → Prop} {ok : σ → α → Prop}
    (hI : ∀ s s' a, I s → ok s a → f s a = .ok s' → I s') (as : List α) {s : σ} (hs : I s)
    (hok : Along step (fun r a => IfOk (fun s => ok s a) r) (.ok s) as) :
    ∀ r ∈ trace step (.ok s) as, IfOk I r := by
  refine trace_inv_of (I := IfOk I) ?_ as hs hok
  intro r a hr ha
  rw [hstep]
  cases r with
  | error e => exact trivial
  | ok s =>
    cases hf : f s a with
    | error e => simp only [Except.bind, hf]; exact trivial
    | ok s' => simp only [Except.bind, hf]; exact hI s s' a hr ha hf

/-- **The invariant rule for a sequence of states**: what holds at index `i` gives a related state
of which it holds at index `i + 1`. -/
theorem sequence_inv {I : ℕ → σ → Prop} {R : ℕ → σ → σ → Prop} {s : σ} (hs : I 0 s) (n : ℕ)
    (hI : ∀ i < n, ∀ s, I i s → ∃ s', R i s s' ∧ I (i + 1) s') :
    ∃ t : ℕ → σ, t 0 = s ∧ (∀ i < n, R i (t i) (t (i + 1))) ∧ I n (t n) := by
  induction n with
  | zero => exact ⟨fun _ => s, rfl, fun i hi => absurd hi (Nat.not_lt_zero i), hs⟩
  | succ n ih =>
    obtain ⟨t, h0, hR, hlast⟩ := ih fun i hi => hI i (Nat.lt_succ_of_lt hi)
    obtain ⟨s', hs', hnext⟩ := hI n (Nat.lt_succ_self n) _ hlast
    have hold : ∀ i ≤ n, Function.update t (n + 1) s' i = t i :=
      fun i hi => Function.update_of_ne (Nat.ne_of_lt (Nat.lt_succ_of_le hi)) ..
    have hnew : Function.update t (n + 1) s' (n + 1) = s' := Function.update_self ..
    refine ⟨Function.update t (n + 1) s', (hold 0 (Nat.zero_le n)).trans h0, ?_, ?_⟩
    · intro i hi
      rcases Nat.lt_succ_iff_lt_or_eq.1 hi with hlt | rfl
      · rw [hold i (Nat.le_of_lt hlt), hold (i + 1) hlt]
        exact hR i hlt
      · rw [hold i (Nat.le_refl i), hnew]
        exact hs'
    · rw [hnew]
      exact hnext

/-- The states of a run are the ends of its prefixes. -/
theorem mem_trace {s t : σ} {as : List α} :
    t ∈ trace step s as ↔ ∃ bs, bs <+: as ∧ t = run step s bs := by
  induction as generalizing s with
  | nil => simp [trace]
  | cons a as ih =>
    simp only [trace, List.mem_cons, ih]
    constructor
    · rintro (rfl | ⟨bs, hbs, rfl⟩)
      · exact ⟨[], List.nil_prefix, rfl⟩
      · exact ⟨a :: bs, List.cons_prefix_cons.2 ⟨rfl, hbs⟩, rfl⟩
    · rintro ⟨bs, hbs, rfl⟩
      cases bs with
      | nil => exact Or.inl rfl
      | cons b bs =>
        obtain ⟨hba, hpre⟩ := List.cons_prefix_cons.1 hbs
        subst hba
        exact Or.inr ⟨bs, hpre, rfl⟩

theorem run_mem_trace (s : σ) (as : List α) : run step s as ∈ trace step s as :=
  mem_trace.2 ⟨as, List.prefix_rfl, rfl⟩

/-- **A preorder holds between each state of a run and every later one exactly when
it holds across each step.** -/
theorem pairwise_trace {R : σ → σ → Prop} (ht : ∀ a b c, R a b → R b c → R a c)
    (s : σ) (as : List α) :
    (trace step s as).Pairwise R ↔ Along step (fun s a => R s (step s a)) s as := by
  induction as generalizing s with
  | nil => simp [trace]
  | cons a as ih =>
    rw [trace, List.pairwise_cons, ih, along_cons]
    constructor
    · rintro ⟨h1, h2⟩
      exact ⟨h1 _ (by cases as <;> simp [trace]), h2⟩
    · rintro ⟨h1, h2⟩
      refine ⟨?_, h2⟩
      intro t ht'
      have hp := (ih _).2 h2
      cases as with
      | nil => simp only [trace, List.mem_singleton] at ht'; rwa [ht']
      | cons b bs =>
        rw [trace, List.mem_cons] at ht'
        rcases ht' with rfl | ht'
        · exact h1
        · exact ht _ _ _ h1 ((List.pairwise_cons.1 hp).1 t ht')

/-- One state leads to another. -/
def Reaches (step : σ → α → σ) (s t : σ) : Prop := ∃ as, run step s as = t

theorem Reaches.refl (s : σ) : Reaches step s s := ⟨[], rfl⟩

theorem Reaches.trans {s t u : σ} (h : Reaches step s t) (h' : Reaches step t u) :
    Reaches step s u := by
  obtain ⟨as, rfl⟩ := h
  obtain ⟨bs, rfl⟩ := h'
  exact ⟨as ++ bs, List.foldl_append⟩

/-- A step and what follows it. -/
theorem Reaches.head {s t u : σ} {a : α} (h : step s a = t) (h' : Reaches step t u) :
    Reaches step s u := by
  obtain ⟨as, hrun⟩ := h'
  exact ⟨a :: as, by rw [run_cons, h, hrun]⟩

theorem Reaches.one {s t : σ} (a : α) (h : step s a = t) : Reaches step s t := .head h (.refl t)

/-- **A run seen as a run of smaller steps**, if each of its steps can be made by them. -/
theorem run_parts {τ β : Type*} {step' : τ → β → τ} {whole : σ → τ}
    (h : ∀ s a, Reaches step' (whole s) (whole (step s a))) (as : List α) (s : σ) :
    Reaches step' (whole s) (whole (run step s as)) := by
  induction as generalizing s with
  | nil => exact .refl _
  | cons a as ih => exact (h s a).trans (ih (step s a))

/-- **A run matched by a run of another system**, step by step: each step whose action meets a condition
is matched by some steps, or none. -/
theorem run_matched {τ β : Type*} {step' : τ → β → τ} {R : σ → τ → Prop} {ok : α → Prop}
    (h : ∀ s t a, R s t → ok a → ∃ t', Reaches step' t t' ∧ R (step s a) t') (as : List α)
    (hok : ∀ a ∈ as, ok a) {s : σ} {t : τ} (hR : R s t) :
    ∃ t', Reaches step' t t' ∧ R (run step s as) t' := by
  induction as generalizing s t with
  | nil => exact ⟨t, .refl t, hR⟩
  | cons a as ih =>
    obtain ⟨hone, hrest⟩ := List.forall_mem_cons.1 hok
    obtain ⟨t₁, hfirst, hR₁⟩ := h s t a hR hone
    obtain ⟨t₂, hthen, hR₂⟩ := ih hrest hR₁
    exact ⟨t₂, hfirst.trans hthen, hR₂⟩

/-- **A run seen as a run of another system**, by the actions of it that are seen, in their order;
for runs whose steps meet a condition. -/
theorem run_project {τ β : Type*} {step' : τ → β → τ} {I : σ → Prop} {ok : σ → α → Prop}
    (hI : ∀ s a, I s → ok s a → I (step s a)) (view : σ → τ) (seen : α → Option β)
    (hstep : ∀ s a, I s → ok s a → view (step s a) = view s ∨
      ∃ b, seen a = some b ∧ view (step s a) = step' (view s) b) (as : List α) {s : σ} (hs : I s)
    (hok : Along step ok s as) :
    ∃ bs, bs.Sublist (as.filterMap seen) ∧ view (run step s as) = run step' (view s) bs := by
  induction as generalizing s with
  | nil => exact ⟨[], List.nil_sublist _, rfl⟩
  | cons a as ih =>
    obtain ⟨hone, hrest⟩ := hok
    obtain ⟨bs, hsub, hrun⟩ := ih (hI s a hs hone) hrest
    rcases hstep s a hs hone with hstay | ⟨b, hb, hmove⟩
    · refine ⟨bs, ?_, ?_⟩
      · rw [List.filterMap_cons]
        split
        · exact hsub
        · exact hsub.cons _
      · rw [run_cons, hrun, hstay]
    · refine ⟨b :: bs, ?_, ?_⟩
      · rw [List.filterMap_cons, hb]
        exact hsub.cons_cons _
      · rw [run_cons, run_cons, hrun, hmove]

end Coroutine.Lib
