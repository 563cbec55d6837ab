import Mathlib.Data.List.Basic

/-!
# Refinement with answers

A program answers calls one after another (`answers`); a specification says, as a relation,
what may be answered in a state and what state may follow (`Serves` for a sequence). The
program may fail; a program that refines a specification does not.

* `Refines`: related states, a call: the program answers, as the specification allows, and
  the states are related again.
* `Refines.serves`: so it does over every sequence of calls.
* `Agrees.answers`: a program that agrees with a deterministic specification call by call, in its
  failures too, agrees with it over every sequence of calls.
-/

namespace Coroutine.Lib

variable {σ τ α β ε : Type*}

/-- The answers of a program to a sequence of calls, and the state it ends in. -/
def answers (step : σ → α → Except ε (β × σ)) : σ → List α → Except ε (List β × σ)
  | s, [] => .ok ([], s)
  | s, a :: as =>
    match step s a with
    | .error e => .error e
    | .ok (b, s') => (answers step s' as).map fun (bs, s'') => (b :: bs, s'')

/-- The calls may be answered so by the specification, from one state to another. -/
inductive Serves (spec : τ → α → β → τ → Prop) : τ → List (α × β) → τ → Prop
  | nil (t : τ) : Serves spec t [] t
  | cons {t t' t'' : τ} {a : α} {b : β} {cs : List (α × β)} (hstep : spec t a b t')
      (hrest : Serves spec t' cs t'') : Serves spec t ((a, b) :: cs) t''

/-- **The program refines the specification** under `R`. -/
def Refines (step : σ → α → Except ε (β × σ)) (spec : τ → α → β → τ → Prop) (R : σ → τ → Prop) :
    Prop :=
  ∀ s t, R s t → ∀ a, ∃ b s' t', step s a = .ok (b, s') ∧ spec t a b t' ∧ R s' t'

variable {step : σ → α → Except ε (β × σ)} {spec : τ → α → β → τ → Prop} {R : σ → τ → Prop}

/-- **Over every sequence of calls** a refinement gives answers that the specification allows. -/
theorem Refines.serves (h : Refines step spec R) (as : List α) : ∀ {s : σ} {t : τ}, R s t →
    ∃ bs s' t', answers step s as = .ok (bs, s') ∧ bs.length = as.length ∧
      Serves spec t (as.zip bs) t' ∧ R s' t' := by
  induction as with
  | nil => intro s t hR; exact ⟨[], s, t, rfl, rfl, .nil t, hR⟩
  | cons a as ih =>
    intro s t hR
    obtain ⟨b, s', t', hstep, hspec, hR'⟩ := h s t hR a
    obtain ⟨bs, s'', t'', hrun, hlen, hserves, hR''⟩ := ih hR'
    refine ⟨b :: bs, s'', t'', ?_, by simp [hlen], .cons hspec hserves, hR''⟩
    unfold answers
    rw [hstep]
    dsimp only
    rw [hrun]
    rfl

/-- **The program and a deterministic specification agree** under `R`: on a call from related states
they fail alike, or give the same answer and are related again. -/
def Agrees (step : σ → α → Except ε (β × σ)) (spec : τ → α → Except ε (β × τ)) (R : σ → τ → Prop) :
    Prop :=
  ∀ s t, R s t → ∀ a, (∃ e, step s a = .error e ∧ spec t a = .error e) ∨
    ∃ b s' t', step s a = .ok (b, s') ∧ spec t a = .ok (b, t') ∧ R s' t'

/-- **Over every sequence of calls** they give the same answers, or fail alike. -/
theorem Agrees.answers {spec : τ → α → Except ε (β × τ)} (h : Agrees step spec R) (as : List α) :
    ∀ {s : σ} {t : τ}, R s t →
      (answers step s as).map Prod.fst = (answers spec t as).map Prod.fst := by
  induction as with
  | nil => intro s t _; rfl
  | cons a as ih =>
    intro s t hR
    unfold Lib.answers
    rcases h s t hR a with ⟨e, hstep, hspec⟩ | ⟨b, s', t', hstep, hspec, hR'⟩
    · rw [hstep, hspec]
      rfl
    · have hrest := ih hR'
      rw [hstep, hspec]
      dsimp only
      -- the answers to the rest of the calls, with this one before them
      cases hs : Lib.answers step s' as with
      | error e =>
        cases ht : Lib.answers spec t' as with
        | error e' => rw [hs, ht] at hrest; cases hrest; rfl
        | ok r => rw [hs, ht] at hrest; cases hrest
      | ok r =>
        cases ht : Lib.answers spec t' as with
        | error e' => rw [hs, ht] at hrest; cases hrest
        | ok r' =>
          rw [hs, ht] at hrest
          have hbs : r.1 = r'.1 := Except.ok.inj hrest
          simp only [Except.map]
          rw [hbs]

end Coroutine.Lib
