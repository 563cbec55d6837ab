import Mathlib.Order.Defs.Unbundled
import Mathlib.Data.List.Pairwise

/-!
# Ordered sets as sorted lists

A set ordered by a strict comparison `r` is the list of its elements, each
`r`-below the next (`Sorted`). As in a search tree, an element equivalent to one
already there (neither is below the other) is not inserted, and `find` looks at
the first element that is not below its key.

* `insert_sorted`, `mem_insert`: insertion keeps the order and adds the element;
  `insert_last`: at the end, if all others are below it.
* `find_eq_some`: on a sorted list a search succeeds exactly for the members.
* `sorted_congr`: the order may be given by another comparison that agrees on the
  elements. The comparison of a caller may read mutable keys, so that changing the
  key of an element that is not in the list keeps the list sorted.
-/

namespace Coroutine.Lib.OrdSet

variable {α : Type*} (r : α → α → Prop)

/-- Each element is below all later ones. -/
abbrev Sorted (l : List α) : Prop := l.Pairwise r

section

variable [DecidableRel r]

/-- Insert `x` before the first element it is below, unless an equivalent element
is met first. -/
def insert (x : α) : List α → List α
  | [] => [x]
  | y :: ys => if r x y then x :: y :: ys else if r y x then y :: insert x ys else y :: ys

/-- The first element not below `x`, when `x` is not below it either. -/
def find (x : α) : List α → Option α
  | [] => none
  | y :: ys => if r y x then find x ys else if r x y then none else some y

end

variable {r}

theorem sorted_congr {r' : α → α → Prop} {l : List α} (h : ∀ a ∈ l, ∀ b ∈ l, r a b → r' a b)
    (hs : Sorted r l) : Sorted r' l := hs.imp_of_mem fun ha hb hab => h _ ha _ hb hab

theorem Sorted.nodup [IsStrictTotalOrder α r] {l : List α} (hs : Sorted r l) : l.Nodup :=
  hs.imp fun hab heq => by subst heq; exact irrefl _ hab

/-- Neither below the other means equal. -/
theorem eq_of_not_lt [IsStrictTotalOrder α r] {a b : α} (h1 : ¬ r a b) (h2 : ¬ r b a) : a = b :=
  Std.Trichotomous.trichotomous (r := r) a b h1 h2

variable [DecidableRel r]

/-- Inserting adds nothing but `x`. -/
theorem mem_of_mem_insert {x z : α} {l : List α} (h : z ∈ insert r x l) : z = x ∨ z ∈ l := by
  induction l with
  | nil => simpa [insert] using h
  | cons y ys ih =>
    unfold insert at h
    split at h
    · simpa using h
    · split at h
      · rcases List.mem_cons.1 h with rfl | h
        · simp
        · rcases ih h with rfl | h <;> simp_all
      · exact Or.inr h

/-- Inserting loses nothing. -/
theorem mem_insert_of_mem {x z : α} {l : List α} (h : z ∈ l) : z ∈ insert r x l := by
  induction l with
  | nil => simp at h
  | cons y ys ih =>
    unfold insert
    split
    · exact List.mem_cons_of_mem _ h
    · split
      · rcases List.mem_cons.1 h with rfl | h
        · exact List.mem_cons_self
        · exact List.mem_cons_of_mem _ (ih h)
      · exact h

theorem insert_ne_nil (x : α) (l : List α) : insert r x l ≠ [] := by
  cases l with
  | nil => simp [insert]
  | cons y ys =>
    unfold insert
    split
    · simp
    · split <;> simp

/-- **Insertion keeps the order.** -/
theorem insert_sorted [IsTrans α r] {x : α} {l : List α} (hs : Sorted r l) :
    Sorted r (insert r x l) := by
  induction l with
  | nil => simp [insert]
  | cons y ys ih =>
    obtain ⟨hy, hys⟩ := List.pairwise_cons.1 hs
    unfold insert
    split
    · rename_i hxy
      refine List.pairwise_cons.2 ⟨?_, hs⟩
      intro z hz
      rcases List.mem_cons.1 hz with rfl | hz
      · exact hxy
      · exact IsTrans.trans x y z hxy (hy z hz)
    · split
      · rename_i hyx
        refine List.pairwise_cons.2 ⟨?_, ih hys⟩
        intro z hz
        rcases mem_of_mem_insert hz with rfl | hz
        · exact hyx
        · exact hy z hz
      · exact hs

/-- What everything in the list is below, and is below nothing, is inserted at the end. -/
theorem insert_last {x : α} {l : List α} (h : ∀ y ∈ l, r y x ∧ ¬ r x y) : insert r x l = l ++ [x] := by
  induction l with
  | nil => rfl
  | cons y ys ih =>
    obtain ⟨⟨hyx, hxy⟩, hrest⟩ := List.forall_mem_cons.1 h
    unfold insert
    rw [if_neg hxy, if_pos hyx, ih hrest]
    rfl

variable [IsStrictTotalOrder α r]

theorem mem_insert_self (x : α) (l : List α) : x ∈ insert r x l := by
  induction l with
  | nil => simp [insert]
  | cons y ys ih =>
    unfold insert
    split
    · exact List.mem_cons_self
    · rename_i h1
      split
      · exact List.mem_cons_of_mem _ ih
      · rename_i h2
        rw [eq_of_not_lt h1 h2]; exact List.mem_cons_self

/-- **Insertion adds the element and nothing else.** -/
theorem mem_insert {x z : α} {l : List α} : z ∈ insert r x l ↔ z = x ∨ z ∈ l := by
  constructor
  · exact mem_of_mem_insert
  · rintro (rfl | h)
    · exact mem_insert_self _ _
    · exact mem_insert_of_mem h

/-- A found element is the key itself, and a member. -/
theorem find_some {x z : α} {l : List α} (h : find r x l = some z) : z = x ∧ x ∈ l := by
  induction l with
  | nil => simp [find] at h
  | cons y ys ih =>
    unfold find at h
    split at h
    · exact ⟨(ih h).1, List.mem_cons_of_mem _ (ih h).2⟩
    · rename_i hyx
      split at h
      · simp at h
      · rename_i hxy
        have hxy' : x = y := eq_of_not_lt hxy hyx
        simp only [Option.some.injEq] at h
        subst hxy' h
        exact ⟨rfl, List.mem_cons_self⟩

/-- **A search on a sorted list succeeds exactly for the members.** -/
theorem find_eq_some {x : α} {l : List α} (hs : Sorted r l) : find r x l = some x ↔ x ∈ l := by
  constructor
  · exact fun h => (find_some h).2
  · intro hx
    induction l with
    | nil => simp at hx
    | cons y ys ih =>
      obtain ⟨hy, hys⟩ := List.pairwise_cons.1 hs
      unfold find
      rcases List.mem_cons.1 hx with rfl | hx
      · rw [if_neg (irrefl x), if_neg (irrefl x)]
      · rw [if_pos (hy x hx)]; exact ih hys hx

end Coroutine.Lib.OrdSet
