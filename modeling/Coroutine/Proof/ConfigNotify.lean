import Coroutine.Lib.Run
import Coroutine.Spec.Config

/-!
# What the listeners of a `ConfigVar` end up with

Notification and assignment are two sections, so that two calls may notify in one order and
assign in the other. `Current`: as long as no call notifies between the two sections of
another, a listener has heard of the value in the variable, or of the one that is about to be
assigned.

* `step_follows_iff`: in such a state a section leaves the listeners right exactly when it
  does not notify between the two sections of another call.
* `listeners_follow_iff`: and so does a run.
-/

namespace Coroutine

open Lib

variable {T α : Type} [DecidableEq T] [DecidableEq α]

/-! ## Notifications in order -/

/-- **Each notification's old value is the new value of the one before**, for the first one
`default_value`. -/
def Chained (default_value : α) : List (α × α) → Prop
  | [] => True
  | (old_value, new_value) :: ds => old_value = default_value ∧ Chained new_value ds

/-- The last new value, or `default_value` where nothing was notified. -/
def lastNew (default_value : α) : List (α × α) → α
  | [] => default_value
  | (_, new_value) :: ds => lastNew new_value ds

instance : ∀ (default_value : α) (ds : List (α × α)), Decidable (Chained default_value ds)
  | _, [] => isTrue trivial
  | _, (_, new_value) :: ds =>
    have := instDecidableChained new_value ds
    inferInstanceAs (Decidable (_ ∧ _))

omit [DecidableEq α] in
theorem lastNew_append (default_value : α) (ds : List (α × α)) (d : α × α) :
    lastNew default_value (ds ++ [d]) = d.2 := by
  induction ds generalizing default_value with
  | nil => rfl
  | cons e ds ih => exact ih e.2

omit [DecidableEq α] in
theorem chained_append (default_value : α) (ds : List (α × α)) (d : α × α) :
    Chained default_value (ds ++ [d]) ↔
      Chained default_value ds ∧ d.1 = lastNew default_value ds := by
  induction ds generalizing default_value with
  | nil => simp [Chained, lastNew]
  | cons e ds ih =>
    have hrest := ih e.2
    simp only [List.cons_append, Chained, lastNew, hrest, and_assoc]

namespace ConfigThreads

variable {s : ConfigThreads T α} {default_value : α}

/-- **The listeners follow the variable**: each has its notifications in order, and when no call
is in progress the last one has the value of the variable. -/
def Follows (default_value : α) (s : ConfigThreads T α) : Prop :=
  ∀ i ∈ s.var.m_cbs, Chained default_value (s.heard i) ∧
    ((∀ th, s.notified th = none) → lastNew default_value (s.heard i) = s.var.getValue)

/-- **No call notifies between the two sections of another**: a section that finds another value,
and has a listener to notify, finds no call that has notified and not yet assigned. -/
def Alone (s : ConfigThreads T α) : SetSection T α → Prop
  | .notify th v => s.notified th = none → v ≠ s.var.m_val → s.var.m_cbs.Nonempty →
    ∀ u, s.notified u = none
  | .assign _ => True

/-- **What the listeners have heard of**: the value in the variable, or the one about to be
assigned, which is another one. -/
inductive Current (default_value : α) (s : ConfigThreads T α) : Prop where
  | settled (hnone : ∀ th, s.notified th = none)
      (hlast : ∀ i ∈ s.var.m_cbs, lastNew default_value (s.heard i) = s.var.m_val)
  | underway (th : T) (v : α) (hth : s.notified th = some v) (hne : v ≠ s.var.m_val)
      (halone : ∀ u, u ≠ th → s.notified u = none)
      (hlast : ∀ i ∈ s.var.m_cbs, lastNew default_value (s.heard i) = v)
  | unheard (hcbs : s.var.m_cbs = ∅)

/-! ## One section -/

/-- The state after a section that notifies. -/
theorem notify_eq {th : T} {v : α} (hidle : s.notified th = none) (hne : v ≠ s.var.m_val) :
    step s (.notify th v) =
      { s with
        notified := fun u => if u = th then some v else s.notified u
        heard := fun i => if i ∈ s.var.m_cbs then s.heard i ++ [(s.var.m_val, v)] else s.heard i } := by
  rw [step, if_pos hidle, notify, if_neg hne]

/-- A section that does not notify changes nothing. -/
theorem notify_same {th : T} {v : α} (h : ¬ (s.notified th = none ∧ v ≠ s.var.m_val)) :
    step s (.notify th v) = s := by
  unfold step notify
  dsimp only
  by_cases hidle : s.notified th = none
  · have heq : v = s.var.m_val := by
      by_contra hne
      exact h ⟨hidle, hne⟩
    rw [if_pos hidle, if_pos heq]
  · rw [if_neg hidle]

theorem step_cbs (s : ConfigThreads T α) (a : SetSection T α) : (step s a).var.m_cbs = s.var.m_cbs := by
  cases a with
  | notify th v =>
    unfold step notify
    dsimp only
    split
    · split <;> rfl
    · rfl
  | assign th =>
    unfold step
    dsimp only
    split <;> rfl

/-- A section that finds no other call in progress, or nobody to notify, leaves the listeners
current. -/
theorem step_current (hs : s.Current default_value) (a : SetSection T α) (hok : s.Alone a) :
    (step s a).Current default_value := by
  by_cases hcbs : s.var.m_cbs = ∅
  · exact .unheard (by rw [step_cbs, hcbs])
  have hsome : s.var.m_cbs.Nonempty := Finset.nonempty_iff_ne_empty.2 hcbs
  cases a with
  | notify th v =>
    by_cases hnotify : s.notified th = none ∧ v ≠ s.var.m_val
    · obtain ⟨hidle, hne⟩ := hnotify
      have hnone := hok hidle hne hsome
      rw [notify_eq hidle hne]
      refine .underway th v (by simp) hne ?_ ?_
      · intro u hu
        simp only [if_neg hu]
        exact hnone u
      · intro i hi
        have hi' : i ∈ s.var.m_cbs := hi
        simp only [if_pos hi']
        exact lastNew_append default_value _ _
    · rw [notify_same hnotify]
      exact hs
  | assign th =>
    cases hth : s.notified th with
    | none =>
      have hsame : step s (.assign th) = s := by simp only [step, hth]
      rw [hsame]
      exact hs
    | some v =>
      have hstep : step s (.assign th) = s.assign th v := by simp only [step, hth]
      rw [hstep]
      cases hs with
      | settled hnone hlast => rw [hnone th] at hth; cases hth
      | unheard hempty => exact absurd hempty hcbs
      | underway th' v' hth' hne halone hlast =>
        -- the call in progress is this one, and its value is assigned
        have heq : th = th' := by
          by_contra hdiff
          rw [halone th hdiff] at hth
          cases hth
        subst heq
        have hv : v' = v := Option.some.inj (hth'.symm.trans hth)
        subst hv
        refine .settled ?_ hlast
        intro u
        simp only [assign]
        by_cases hu : u = th
        · rw [if_pos hu]
        · rw [if_neg hu]
          exact halone u hu

/-- **When a section leaves the listeners right.** -/
theorem step_follows_iff (hs : s.Current default_value) (hf : s.Follows default_value)
    (a : SetSection T α) : (step s a).Follows default_value ↔ s.Alone a := by
  constructor
  · intro hnext
    cases a with
    | assign th => exact trivial
    | notify th v =>
      intro hidle hne hsome
      obtain ⟨i, hi⟩ := hsome
      have hchain := (hnext i (by rw [step_cbs]; exact hi)).1
      rw [notify_eq hidle hne] at hchain
      simp only [if_pos hi] at hchain
      have hold := ((chained_append default_value (s.heard i) (s.var.m_val, v)).1 hchain).2
      cases hs with
      | settled hnone hlast => exact hnone
      | unheard hempty => rw [hempty] at hi; cases hi
      | underway th' v' hth' hne' halone hlast =>
        -- the listener has heard of a value that is not in the variable yet
        rw [hlast i hi] at hold
        exact absurd hold.symm hne'
  · intro hok i hi
    have hi' : i ∈ s.var.m_cbs := by rw [step_cbs] at hi; exact hi
    have hcurrent := step_current hs a hok
    refine ⟨?_, ?_⟩
    · cases a with
      | assign th =>
        have hheard : (step s (.assign th)).heard = s.heard := by
          unfold step
          dsimp only
          split <;> rfl
        rw [hheard]
        exact (hf i hi').1
      | notify th v =>
        by_cases hnotify : s.notified th = none ∧ v ≠ s.var.m_val
        · obtain ⟨hidle, hne⟩ := hnotify
          have hnone := hok hidle hne ⟨i, hi'⟩
          have hlast : lastNew default_value (s.heard i) = s.var.m_val := (hf i hi').2 hnone
          rw [notify_eq hidle hne]
          simp only [if_pos hi']
          rw [chained_append]
          exact ⟨(hf i hi').1, hlast.symm⟩
        · rw [notify_same hnotify]
          exact (hf i hi').1
    · intro hdone
      cases hcurrent with
      | settled _ hlast => exact hlast i hi
      | unheard hempty => rw [hempty] at hi; cases hi
      | underway th' v' hth' _ _ _ => rw [hdone th'] at hth'; cases hth'

/-! ## Runs -/

/-- **When the listeners follow the variable** in all states of a run. -/
theorem listeners_follow_iff (default_value : α) (m_cbs : Finset UInt64)
    (as : List (SetSection T α)) :
    (∀ s ∈ trace step (init default_value m_cbs) as, s.Follows default_value) ↔
      Along step Alone (init default_value m_cbs) as := by
  refine forall_trace_iff_of (I := fun s : ConfigThreads T α => s.Current default_value)
    (fun s a hs _ hok => step_current hs a hok) (fun s a hs hf => step_follows_iff hs hf a) as ?_ ?_
  · exact .settled (fun _ => rfl) (fun _ _ => rfl)
  · intro i _
    exact ⟨trivial, fun _ => rfl⟩

/-- Two calls notify in one order and assign in the other: the listener has heard of 2 last, and
the variable is 1. -/
theorem assigned_in_other_order : ¬ ∀ s ∈ trace step (init (0 : ℕ) {1})
    [.notify true 1, .notify false 2, .assign false, .assign true], s.Follows 0 := by
  intro h
  have hlast := (h _ (List.mem_of_getLast? (by rfl)) 1 (by decide)).2 (by decide)
  exact absurd hlast (by decide)

end ConfigThreads

end Coroutine
