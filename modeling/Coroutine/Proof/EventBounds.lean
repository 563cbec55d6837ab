import Coroutine.Proof.EventThreads

/-!
# Indices into `m_fdContexts`

The four operations test a signed `fd` against the signed size before they use it as an index,
and `addEvent` uses it after it has grown the table as well.

* `EventOp.accesses`: the index expressions a call evaluates, each with the size of the table it
  meets. `inBounds_iff_finds` ties them to the lookups of the model.
* `inBounds_iff`: they stay inside the table exactly for the descriptors of `Indexable`; nothing
  tests `fd` for a negative value.
* `index_in_bounds_iff`: the same of the calls of any run, from a table of any size.
-/

namespace Coroutine

open Lib

variable {κ : Type}

namespace IOManager

/-- The index of an access is inside the table it meets. -/
def Inside (access : Int32 × ℕ) : Prop := 0 ≤ access.1 ∧ access.1.toInt < access.2

/-- What passes the test of the size and is not negative is an index. -/
theorem inTable_inside {s : IOManager κ} {fd : Int32} (hfd : 0 ≤ fd) (h : s.inTable fd) :
    Inside (fd, s.size) := by
  have hpos : 0 ≤ fd.toInt := Int32.le_iff_toInt_le.1 hfd
  have hlt : fd.toInt < (Int32.ofNat s.size).toInt := Int32.lt_iff_toInt_lt.1 h
  -- as an `int` the size may be less, but not more
  have hsize : (Int32.ofNat s.size).toInt ≤ s.size := by
    rw [Int32.toInt_ofNat', Int.bmod, Int32.size]
    split <;> omega
  exact ⟨hfd, by show fd.toInt < _; omega⟩

theorem slot_isOk_iff (s : IOManager κ) (fd : Int32) :
    (∃ p, s.slot fd = .ok p) ↔ Inside (fd, s.size) := by
  unfold slot Inside size
  by_cases hneg : fd < 0
  · have hnot : ¬ (0 : Int32) ≤ fd := Int32.not_le.2 hneg
    simp [hneg, hnot]
  · have hfd : (0 : Int32) ≤ fd := Int32.not_lt.1 hneg
    have hpos : 0 ≤ fd.toInt := Int32.le_iff_toInt_le.1 hfd
    rw [if_neg hneg]
    cases hget : s.m_fdContexts[fd.toInt.toNat]? with
    | none =>
      have hlen := List.getElem?_eq_none_iff.1 hget
      simp only [reduceCtorEq, exists_false, hfd, true_and, false_iff]
      omega
    | some p =>
      obtain ⟨hlen, -⟩ := List.getElem?_eq_some_iff.1 hget
      simp only [Except.ok.injEq, exists_eq', hfd, true_and, true_iff]
      omega

end IOManager

namespace EventOp

open IOManager

variable {s : IOManager κ}

/-- **The accesses `m_fdContexts[fd]`** of a call, with the size of the table at each. -/
def accesses (s : IOManager κ) : EventOp → List (Int32 × ℕ)
  | .addEvent _ fd _ _ => if s.inTable fd then [(fd, s.size)] else [(fd, growSize fd)]
  | .delEvent fd _ | .cancelEvent fd _ | .cancelAll fd => if s.inTable fd then [(fd, s.size)] else []
  | .dispatch _ _ => []

/-- All accesses are inside the table. -/
def InBounds (s : IOManager κ) (op : EventOp) : Prop := ∀ access ∈ op.accesses s, Inside access

/-- The lookup of the operation finds what it looks for, or gives up. -/
def Finds (s : IOManager κ) : EventOp → Prop
  | .addEvent _ fd _ _ => ∃ found, s.lookup fd = .ok found
  | .delEvent fd _ | .cancelEvent fd _ | .cancelAll fd => s.inTable fd → ∃ p, s.slot fd = .ok p
  | .dispatch _ _ => True

/-- The descriptor is not negative, and if `addEvent` grows the table the new one is long enough;
the others give up on what is not in the table. -/
def Indexable (s : IOManager κ) : EventOp → Prop
  | .addEvent _ fd _ _ => 0 ≤ fd ∧ (s.inTable fd ∨ 2 ≤ fd)
  | .delEvent fd _ | .cancelEvent fd _ | .cancelAll fd => 0 ≤ fd ∨ ¬ s.inTable fd
  | .dispatch _ _ => True

theorem lookup_isOk_iff (s : IOManager κ) (fd : Int32) :
    (∃ found, s.lookup fd = .ok found) ↔
      if s.inTable fd then Inside (fd, s.size) else Inside (fd, growSize fd) := by
  have hmap : ∀ (s' : IOManager κ), (∃ found, (s'.slot fd).map (·, s') = .ok found) ↔
      Inside (fd, s'.size) := by
    intro s'
    rw [← slot_isOk_iff]
    cases s'.slot fd <;> simp [Except.map]
  unfold lookup
  split
  · exact hmap s
  · unfold grow
    by_cases hneg : fd < 0
    · have hnot : ¬ (0 : Int32) ≤ fd := Int32.not_le.2 hneg
      simp [hneg, Inside, hnot]
    · rw [if_neg hneg, hmap, size_contextResize]

/-- The accesses are inside the table exactly when the lookup is defined. -/
theorem inBounds_iff_finds (op : EventOp) : op.InBounds s ↔ op.Finds s := by
  have htable : ∀ fd : Int32,
      (∀ access ∈ (if s.inTable fd then [(fd, s.size)] else []), Inside access) ↔
        (s.inTable fd → ∃ p, s.slot fd = .ok p) := by
    intro fd
    rw [slot_isOk_iff]
    split <;> simp [*]
  unfold InBounds
  cases op with
  | addEvent caller fd e cb =>
    rw [Finds, lookup_isOk_iff, accesses]
    split <;> simp
  | delEvent fd e => exact htable fd
  | cancelEvent fd e => exact htable fd
  | cancelAll fd => exact htable fd
  | dispatch p events => simp [accesses, Finds]

/-- `growSize fd` has room for `fd` from 2 on. -/
theorem inside_growSize {fd : Int32} : Inside (fd, growSize fd) ↔ 2 ≤ fd := by
  have htwo : (2 : Int32) ≤ fd ↔ 2 ≤ fd.toInt := Int32.le_iff_toInt_le
  have hzero : (0 : Int32) ≤ fd ↔ 0 ≤ fd.toInt := Int32.le_iff_toInt_le
  unfold Inside growSize
  dsimp only
  rw [htwo, hzero]
  omega

/-- **One call.** -/
theorem inBounds_iff (op : EventOp) : op.InBounds s ↔ op.Indexable s := by
  have htable : ∀ fd : Int32,
      (∀ access ∈ (if s.inTable fd then [(fd, s.size)] else []), Inside access) ↔
        0 ≤ fd ∨ ¬ s.inTable fd := by
    intro fd
    split
    · rename_i hin
      simp only [List.mem_singleton, forall_eq, hin, not_true_eq_false, or_false]
      exact ⟨fun h => h.1, fun h => inTable_inside h hin⟩
    · rename_i hout
      simp [hout]
  unfold InBounds
  cases op with
  | addEvent caller fd e cb =>
    show (∀ access ∈ (if s.inTable fd then [(fd, s.size)] else [(fd, growSize fd)]), Inside access) ↔
      0 ≤ fd ∧ (s.inTable fd ∨ 2 ≤ fd)
    split
    · rename_i hin
      simp only [List.mem_singleton, forall_eq, hin, true_or, and_true]
      exact ⟨fun h => h.1, fun h => inTable_inside h hin⟩
    · rename_i hout
      simp only [List.mem_singleton, forall_eq, hout, false_or]
      rw [inside_growSize]
      exact ⟨fun h => ⟨Int32.le_trans (by decide) h, h⟩, fun h => h.2⟩
  | delEvent fd e => exact htable fd
  | cancelEvent fd e => exact htable fd
  | cancelAll fd => exact htable fd
  | dispatch p events => simp [accesses, Indexable]

end EventOp

/-- **Every index of a run is inside the table, if and only if every call is on a descriptor that
can be an index.** -/
theorem index_in_bounds_iff {κ : Type} (ctl : EpollCtl κ) (s : IOManager κ) (ops : List EventOp) :
    Along (EventOp.step ctl) (fun r op => IfOk (fun s => op.InBounds s) r) (.ok s) ops ↔
      Along (EventOp.step ctl) (fun r op => IfOk (fun s => op.Indexable s) r) (.ok s) ops := by
  refine along_congr (I := fun _ => True) (fun _ _ _ => trivial) ?_ ops trivial
  intro r op _
  cases r with
  | error e => exact Iff.rfl
  | ok s => exact EventOp.inBounds_iff op

/-- Descriptor -1, such as a failed `socket()` returns, passes the test of a new table. -/
theorem negative_index :
    ¬ ∀ ops : List EventOp, Along (EventOp.step IOManager.acceptAll)
      (fun r op => IfOk (fun s => op.InBounds s) r) (.ok (IOManager.init ())) ops := by
  intro h
  have hbounds : (EventOp.delEvent (-1) .READ).InBounds (IOManager.init ()) :=
    (h [.delEvent (-1) .READ]).1
  have hpos := (hbounds (-1, 32) (by decide)).1
  revert hpos
  decide

end Coroutine
