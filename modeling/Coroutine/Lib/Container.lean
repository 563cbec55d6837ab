import Coroutine.Lib.OrdSet
import Mathlib.Data.List.Forall2
import Mathlib.Data.List.Perm.Basic

/-!
# Containers

A container type is its values, the order in which one is gone through, and how an element is
inserted. Elements come with an equality `e`, which need not be that of their representation.

* `Container.list`, `Container.sorted`, `Container.hashed`: a sequence; a set or a map in the order of
  its elements; one whose elements lie in any order, which an insertion may change.
* `Container.Lawful`: the equality of the values is an equivalence, and **a value is rebuilt by inserting,
  one by one, elements equal to those that going through it gives**.
* `list_lawful`, `sorted_lawful`, `hashed_lawful`.
-/

namespace Coroutine.Lib

universe u

/-- A container type. -/
structure Container (α : Type u) where
  Val : Type u
  eq : Val → Val → Prop
  decEq : DecidableRel eq
  toList : Val → List α
  empty : Val
  insert : Val → α → Val

variable {α : Type u}

/-- **Rebuilding a value from equal elements gives an equal value.** -/
structure Container.Lawful (e : α → α → Prop) (C : Container α) : Prop where
  equiv : Equivalence C.eq
  rebuild : ∀ v xs, List.Forall₂ e xs (C.toList v) → C.eq (xs.foldl C.insert C.empty) v

/-! ## Elements one by one -/

section

variable {e : α → α → Prop}

theorem forall₂_equiv (he : Equivalence e) : Equivalence (List.Forall₂ e) where
  refl := by
    intro xs
    exact List.forall₂_same.2 fun x _ => he.refl x
  symm := by
    intro xs ys h
    exact (h.imp fun _ _ hxy => he.symm hxy).flip
  trans := by
    intro xs ys zs hxy
    induction hxy generalizing zs with
    | nil => exact id
    | cons h _ ih =>
      rintro (_ | ⟨h', hrest⟩)
      exact .cons (he.trans h h') (ih hrest)

theorem forall₂_mem {xs ys : List α} (h : List.Forall₂ e xs ys) {x : α} (hx : x ∈ xs) :
    ∃ y ∈ ys, e x y := by
  induction h with
  | nil => cases hx
  | cons hxy _ ih =>
    rcases List.mem_cons.1 hx with rfl | hx
    · exact ⟨_, List.mem_cons_self, hxy⟩
    · obtain ⟨y, hy, he⟩ := ih hx
      exact ⟨y, List.mem_cons_of_mem _ hy, he⟩

/-- What holds between any two elements of a list, and is kept by `e`, holds between those of an equal
list. -/
theorem forall₂_pairwise {R : α → α → Prop}
    (hR : ∀ a a' b b', e a a' → e b b' → R a' b' → R a b) {xs ys : List α} (h : List.Forall₂ e xs ys)
    (hys : ys.Pairwise R) : xs.Pairwise R := by
  induction h with
  | nil => exact .nil
  | cons hxy hrest ih =>
    obtain ⟨hone, hall⟩ := List.pairwise_cons.1 hys
    refine List.pairwise_cons.2 ⟨fun x' hx' => ?_, ih hall⟩
    obtain ⟨y', hy', he'⟩ := forall₂_mem hrest hx'
    exact hR _ _ _ _ hxy he' (hone y' hy')

end

/-! ## Sequences -/

namespace Container

variable (e : α → α → Prop) [DecidableRel e]

/-- **A sequence**, which inserts at the end. -/
def list : Container α where
  Val := List α
  eq := List.Forall₂ e
  decEq := inferInstance
  toList := id
  empty := []
  insert l x := l ++ [x]

variable {e}

theorem foldl_push (xs : List α) : ∀ l : List α, xs.foldl (fun l x => l ++ [x]) l = l ++ xs := by
  induction xs with
  | nil =>
    intro l
    exact (List.append_nil l).symm
  | cons x xs ih =>
    intro l
    rw [List.foldl_cons, ih]
    exact List.append_assoc l [x] xs

theorem list_lawful (he : Equivalence e) : (list e).Lawful e where
  equiv := forall₂_equiv he
  rebuild := by
    intro v xs h
    have hfold : List.Forall₂ e (xs.foldl (fun l x => l ++ [x]) []) v := by
      rw [foldl_push]
      exact h
    exact hfold

end Container

/-! ## Containers in the order of their elements -/

/-- **A strict order of the elements** that does not tell equal ones apart. -/
structure Less (e : α → α → Prop) where
  lt : α → α → Prop
  dec : DecidableRel lt
  trans : ∀ a b c, lt a b → lt b c → lt a c
  irrefl : ∀ a, ¬ lt a a
  congr : ∀ a a' b b', e a a' → e b b' → lt a' b' → lt a b

/-- A list of increasing elements. -/
structure SortedList (lt : α → α → Prop) where
  toList : List α
  sorted : OrdSet.Sorted lt toList

namespace SortedList

variable {e : α → α → Prop} {less : Less e}

/-- One that is there already, or another at the same place of the order, is not inserted. -/
def insert (v : SortedList less.lt) (x : α) : SortedList less.lt :=
  { toList := @OrdSet.insert α less.lt less.dec x v.toList
    sorted := @OrdSet.insert_sorted α less.lt less.dec ⟨less.trans⟩ x v.toList v.sorted }

/-- Inserting what is above all elements. -/
theorem insert_last {v : SortedList less.lt} {x : α} (h : ∀ y ∈ v.toList, less.lt y x) :
    (v.insert x).toList = v.toList ++ [x] := by
  refine @OrdSet.insert_last α less.lt less.dec x v.toList fun y hy => ⟨h y hy, fun hxy => ?_⟩
  exact less.irrefl y (less.trans y x y (h y hy) hxy)

/-- Inserting in increasing order. -/
theorem foldl_insert (xs : List α) (hxs : xs.Pairwise less.lt) :
    ∀ v : SortedList less.lt, (∀ y ∈ v.toList, ∀ x ∈ xs, less.lt y x) →
      (xs.foldl insert v).toList = v.toList ++ xs := by
  induction xs with
  | nil =>
    intro v _
    exact (List.append_nil v.toList).symm
  | cons x xs ih =>
    intro v hv
    obtain ⟨hx, hrest⟩ := List.pairwise_cons.1 hxs
    have hlast := insert_last fun y hy => hv y hy x List.mem_cons_self
    have habove : ∀ y ∈ (v.insert x).toList, ∀ z ∈ xs, less.lt y z := by
      intro y hy z hz
      rw [hlast] at hy
      rcases List.mem_append.1 hy with hy | hy
      · exact hv y hy z (List.mem_cons_of_mem _ hz)
      · rw [List.mem_singleton.1 hy]
        exact hx z hz
    -- each element goes to the end, as those to come are above all that were inserted
    rw [List.foldl_cons, ih hrest _ habove, hlast, List.append_assoc]
    rfl

end SortedList

namespace Container

variable (e : α → α → Prop) [DecidableRel e] (less : Less e)

/-- **A container in the order of its elements.** -/
def sorted : Container α where
  Val := SortedList less.lt
  eq a b := List.Forall₂ e a.toList b.toList
  decEq a b := inferInstanceAs (Decidable (List.Forall₂ e a.toList b.toList))
  toList := SortedList.toList
  empty := ⟨[], .nil⟩
  insert := SortedList.insert

variable {e less}

theorem sorted_lawful (he : Equivalence e) : (sorted e less).Lawful e where
  equiv :=
    { refl := fun v => (forall₂_equiv he).refl v.toList
      symm := fun h => (forall₂_equiv he).symm h
      trans := fun h h' => (forall₂_equiv he).trans h h' }
  rebuild := by
    intro v xs h
    have hxs : xs.Pairwise less.lt := forall₂_pairwise less.congr h v.sorted
    have hfold : List.Forall₂ e (xs.foldl SortedList.insert (⟨[], .nil⟩ : SortedList less.lt)).toList
        v.toList := by
      rw [SortedList.foldl_insert xs hxs _ fun _ hy => absurd hy List.not_mem_nil]
      exact h
    exact hfold

end Container

/-! ## Containers in any order -/

/-- **Which elements a container takes for one**, of equal ones always. -/
structure Key (e : α → α → Prop) where
  same : α → α → Prop
  dec : DecidableRel same
  equiv : Equivalence same
  of_eq : ∀ a b, e a b → same a b

/-- Equal elements only. -/
def Key.self {e : α → α → Prop} [DecidableRel e] (he : Equivalence e) : Key e where
  same := e
  dec := inferInstance
  equiv := he
  of_eq _ _ := id

/-- **Where an element that is inserted lies**, and those that were there before. -/
structure Placement (α : Type u) where
  place : List α → α → List α
  perm : ∀ l x, (place l x).Perm (x :: l)

/-- A list of elements no two of which are the same. -/
structure DistinctList (same : α → α → Prop) where
  toList : List α
  distinct : toList.Pairwise fun x y => ¬ same x y

/-- **No two of the first take the same of the second**, so if they are as many, all of these are
taken. -/
theorem exists_of_length_eq {e : α → α → Prop} {key : Key e} {xs ys : List α}
    (hlen : xs.length = ys.length) (h : ∀ x ∈ xs, ∃ y ∈ ys, e x y)
    (hxs : xs.Pairwise fun x y => ¬ key.same x y) : ∀ y ∈ ys, ∃ x ∈ xs, e x y := by
  induction xs generalizing ys with
  | nil =>
    rw [List.eq_nil_of_length_eq_zero hlen.symm]
    exact fun y hy => absurd hy List.not_mem_nil
  | cons x xs ih =>
    obtain ⟨⟨y, hy, hxy⟩, hrest⟩ := List.forall_mem_cons.1 h
    obtain ⟨hx, hdistinct⟩ := List.pairwise_cons.1 hxs
    obtain ⟨before, after, rfl⟩ := List.append_of_mem hy
    -- `y` is taken by `x`, and no other takes it, or it would be the same as `x`
    have hothers : ∀ x' ∈ xs, ∃ y' ∈ before ++ after, e x' y' := by
      intro x' hx'
      obtain ⟨y', hy', hxy'⟩ := hrest x' hx'
      rcases List.mem_append.1 hy' with hy' | hy'
      · exact ⟨y', List.mem_append_left _ hy', hxy'⟩
      rcases List.mem_cons.1 hy' with rfl | hy'
      · have hsame := key.equiv.trans (key.of_eq _ _ hxy) (key.equiv.symm (key.of_eq _ _ hxy'))
        exact absurd hsame (hx x' hx')
      · exact ⟨y', List.mem_append_right _ hy', hxy'⟩
    have hlength : xs.length = (before ++ after).length := by
      simp only [List.length_append, List.length_cons] at hlen ⊢
      omega
    intro z hz
    by_cases hzy : z = y
    · exact ⟨x, List.mem_cons_self, hzy ▸ hxy⟩
    · have hmem : z ∈ before ++ after := by
        simp only [List.mem_append, List.mem_cons] at hz ⊢
        tauto
      obtain ⟨x', hx', he⟩ := ih hlength hothers hdistinct z hmem
      exact ⟨x', List.mem_cons_of_mem _ hx', he⟩

namespace DistinctList

variable {e : α → α → Prop} {key : Key e} (p : Placement α)

/-- One the same as an element that is there already is not inserted. -/
def insert (v : DistinctList key.same) (x : α) : DistinctList key.same :=
  have := key.dec
  if h : ∃ y ∈ v.toList, key.same x y then v
  else
    { toList := p.place v.toList x
      distinct := by
        have hsymm : ∀ {a b : α}, ¬ key.same a b → ¬ key.same b a :=
          fun hab hba => hab (key.equiv.symm hba)
        rw [(p.perm v.toList x).pairwise_iff hsymm, List.pairwise_cons]
        exact ⟨fun y hy hxy => h ⟨y, hy, hxy⟩, v.distinct⟩ }

theorem insert_perm {v : DistinctList key.same} {x : α} (h : ∀ y ∈ v.toList, ¬ key.same x y) :
    (v.insert p x).toList.Perm (x :: v.toList) := by
  have hnew : ¬ ∃ y ∈ v.toList, key.same x y := fun ⟨y, hy, hxy⟩ => h y hy hxy
  unfold insert
  rw [dif_neg hnew]
  exact p.perm v.toList x

/-- Inserting elements that differ. -/
theorem foldl_insert_perm (xs : List α) (hxs : xs.Pairwise fun x y => ¬ key.same x y) :
    ∀ v : DistinctList key.same, (∀ x ∈ xs, ∀ y ∈ v.toList, ¬ key.same x y) →
      (xs.foldl (insert p) v).toList.Perm (xs ++ v.toList) := by
  induction xs with
  | nil => exact fun v _ => .refl _
  | cons x xs ih =>
    intro v hv
    obtain ⟨hx, hrest⟩ := List.pairwise_cons.1 hxs
    have hone := insert_perm p (hv x List.mem_cons_self)
    have hnew : ∀ z ∈ xs, ∀ y ∈ (v.insert p x).toList, ¬ key.same z y := by
      intro z hz y hy
      rcases List.mem_cons.1 (hone.subset hy) with rfl | hy
      · exact fun hsame => hx z hz (key.equiv.symm hsame)
      · exact hv z (List.mem_cons_of_mem _ hz) y hy
    rw [List.foldl_cons]
    have hmiddle : (xs ++ x :: v.toList).Perm (x :: xs ++ v.toList) := List.perm_middle
    exact (ih hrest _ hnew).trans ((hone.append_left xs).trans hmiddle)

/-- As many elements, and each of them equal to one of the other. -/
def Eq (e : α → α → Prop) {same : α → α → Prop} (a b : DistinctList same) : Prop :=
  a.toList.length = b.toList.length ∧ ∀ x ∈ a.toList, ∃ y ∈ b.toList, e x y

theorem eq_equiv (he : Equivalence e) : Equivalence (@Eq α e key.same) where
  refl v := ⟨rfl, fun x hx => ⟨x, hx, he.refl x⟩⟩
  symm := by
    rintro a b ⟨hlen, hall⟩
    refine ⟨hlen.symm, fun y hy => ?_⟩
    obtain ⟨x, hx, hxy⟩ := exists_of_length_eq hlen hall a.distinct y hy
    exact ⟨x, hx, he.symm hxy⟩
  trans := by
    rintro a b c ⟨hab, hall⟩ ⟨hbc, hall'⟩
    refine ⟨hab.trans hbc, fun x hx => ?_⟩
    obtain ⟨y, hy, hxy⟩ := hall x hx
    obtain ⟨z, hz, hyz⟩ := hall' y hy
    exact ⟨z, hz, he.trans hxy hyz⟩

end DistinctList

namespace Container

variable (e : α → α → Prop) [DecidableRel e] (key : Key e) (p : Placement α)

/-- **A container whose elements lie anywhere.** -/
def hashed : Container α where
  Val := DistinctList key.same
  eq := DistinctList.Eq e
  decEq a b := inferInstanceAs (Decidable (a.toList.length = b.toList.length ∧
    ∀ x ∈ a.toList, ∃ y ∈ b.toList, e x y))
  toList := DistinctList.toList
  empty := ⟨[], .nil⟩
  insert := DistinctList.insert p

variable {e key p}

theorem hashed_lawful (he : Equivalence e) : (hashed e key p).Lawful e where
  equiv := DistinctList.eq_equiv he
  rebuild := by
    intro v xs h
    have hkeep : ∀ a a' b b', e a a' → e b b' → ¬ key.same a' b' → ¬ key.same a b := by
      intro a a' b b' ha hb hnot hab
      have hleft := key.equiv.symm (key.of_eq a a' ha)
      exact hnot (key.equiv.trans (key.equiv.trans hleft hab) (key.of_eq b b' hb))
    have hxs := forall₂_pairwise hkeep h v.distinct
    have hperm := DistinctList.foldl_insert_perm p xs hxs (⟨[], .nil⟩ : DistinctList key.same)
      fun _ _ _ hy => absurd hy List.not_mem_nil
    rw [List.append_nil] at hperm
    have hfold : DistinctList.Eq e
        (xs.foldl (DistinctList.insert p) (⟨[], .nil⟩ : DistinctList key.same)) v :=
      ⟨hperm.length_eq.trans h.length_eq, fun x hx => forall₂_mem h (hperm.subset hx)⟩
    exact hfold

end Container

/-! ## Pairs of a key and a value -/

section

variable {κ : Type u} (e : α → α → Prop)

/-- Equal keys and equal values. -/
def PairEq (a b : κ × α) : Prop := a.1 = b.1 ∧ e a.2 b.2

instance [DecidableEq κ] [DecidableRel e] : DecidableRel (@PairEq α κ e) :=
  fun _ _ => inferInstanceAs (Decidable (_ ∧ _))

variable {e}

theorem pairEq_equiv (he : Equivalence e) : Equivalence (@PairEq α κ e) where
  refl a := ⟨rfl, he.refl a.2⟩
  symm h := ⟨h.1.symm, he.symm h.2⟩
  trans h h' := ⟨h.1.trans h'.1, he.trans h.2 h'.2⟩

variable (e)

/-- The order of the keys. -/
def Less.byKey (lt : κ → κ → Prop) [DecidableRel lt] [IsStrictOrder κ lt] : Less (@PairEq α κ e) where
  lt a b := lt a.1 b.1
  dec a b := inferInstanceAs (Decidable (lt a.1 b.1))
  trans _ _ _ := IsTrans.trans _ _ _
  irrefl a := irrefl_of lt a.1
  congr := by
    rintro a a' b b' ⟨ha, -⟩ ⟨hb, -⟩ hlt
    rwa [ha, hb]

/-- Pairs with one key are the same. -/
def Key.byKey [DecidableEq κ] : Key (@PairEq α κ e) where
  same a b := a.1 = b.1
  dec a b := inferInstanceAs (Decidable (a.1 = b.1))
  equiv := ⟨fun _ => rfl, Eq.symm, Eq.trans⟩
  of_eq _ _ h := h.1

variable {e}

theorem sorted_keys_nodup {lt : κ → κ → Prop} [DecidableRel lt] [IsStrictOrder κ lt]
    (v : SortedList (Less.byKey e lt).lt) : (v.toList.map Prod.fst).Nodup := by
  refine List.pairwise_map.2 (v.sorted.imp fun {a b} hab heq => ?_)
  have hlt : lt a.1 b.1 := hab
  rw [heq] at hlt
  exact irrefl_of lt b.1 hlt

theorem distinct_keys_nodup [DecidableEq κ] (v : DistinctList (@Key.byKey α κ e _).same) :
    (v.toList.map Prod.fst).Nodup :=
  List.pairwise_map.2 v.distinct

end

end Coroutine.Lib
