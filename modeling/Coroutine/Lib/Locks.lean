import Mathlib.Data.Set.Insert
import Mathlib.Order.BooleanAlgebra.Set
import Mathlib.Logic.Function.Basic

/-!
# Threads and locks

Threads work through lists of commands: they take and release locks, exclusively or shared with
other readers, and run instructions. An instruction changes the data all threads share and puts
commands in its place, as a call does with the body of the function. A lock is not recursive.

Locks have ranks. `Ordered` says of a list of commands, from the locks held before it, that each
lock it takes ranks above those held then, that only what is held is released, and that nothing
is held in the end; `pre` and `after` say what an instruction may hold before it and holds after.

* `fits_locked`: how commands under a lock fit into what is done around them.
* `Inv`: the commands of each thread are ordered from what it holds; `step_inv`: a step of any
  thread keeps this.
* `Inv.can_move`: then some thread can move, unless all are done: no deadlock.
* `Inv.mine`: a thread that releases a lock has it; `Inv.not_mine`: one that takes a lock has it
  not yet.
-/

namespace Coroutine.Lib

/-- A command. -/
inductive Cmd (L ι : Type*) where
  | lock (l : L)
  | rdlock (l : L)
  | unlock (l : L)
  | run (i : ι)

/-- The shared data, who has each lock, and what each thread still has to do. -/
structure Threads (L ι δ τ : Type*) where
  data : δ
  owner : L → Option τ
  readers : L → List τ
  code : τ → List (Cmd L ι)

namespace Threads

variable {L ι δ τ : Type*}

/-- Nobody has a lock yet. -/
def start (d : δ) (code : τ → List (Cmd L ι)) : Threads L ι δ τ :=
  { data := d, owner := fun _ => none, readers := fun _ => [], code := code }

/-- The thread has the lock, alone or with others. -/
def Has (s : Threads L ι δ τ) (t : τ) (l : L) : Prop := s.owner l = some t ∨ t ∈ s.readers l

/-- The thread waits for a lock. -/
def Waits (s : Threads L ι δ τ) (t : τ) : Prop :=
  match s.code t with
  | .lock l :: _ => s.owner l ≠ none ∨ s.readers l ≠ []
  | .rdlock l :: _ => s.owner l ≠ none
  | _ => False

variable [DecidableEq L] [DecidableEq τ] (exec : ι → δ → δ × List (Cmd L ι))

/-- One step of thread `t`; one that waits or is done stays where it is. -/
def step (s : Threads L ι δ τ) (t : τ) : Threads L ι δ τ :=
  match s.code t with
  | [] => s
  | .lock l :: cs =>
    if (s.owner l).isNone ∧ (s.readers l).isEmpty then
      { s with owner := Function.update s.owner l (some t), code := Function.update s.code t cs }
    else s
  | .rdlock l :: cs =>
    if (s.owner l).isNone then
      { s with
        readers := Function.update s.readers l (t :: s.readers l)
        code := Function.update s.code t cs }
    else s
  | .unlock l :: cs =>
    let s' := { s with code := Function.update s.code t cs }
    if s.owner l = some t then { s' with owner := Function.update s.owner l none }
    else { s' with readers := Function.update s.readers l ((s.readers l).erase t) }
  | .run i :: cs =>
    let (d, body) := exec i s.data
    { s with data := d, code := Function.update s.code t (body ++ cs) }

end Threads

/-! ## Ranks -/

/-- **The discipline**: ranks of locks, and what an instruction may find held and leaves held. -/
structure Discipline (L ι : Type*) where
  rank : L → ℕ
  top : ℕ
  rank_le : ∀ l, rank l ≤ top
  pre : ι → Set L → Prop
  after : ι → Set L → Set L

namespace Discipline

variable {L ι δ τ : Type*} (D : Discipline L ι)

/-- The lock ranks above everything held. -/
def Above (l : L) (H : Set L) : Prop := ∀ h ∈ H, D.rank h < D.rank l

/-- **The commands are ordered** for a thread that holds `H`. -/
def Ordered : Set L → List (Cmd L ι) → Prop
  | H, [] => H = ∅
  | H, .lock l :: cs => D.Above l H ∧ Ordered (insert l H) cs
  | H, .rdlock l :: cs => D.Above l H ∧ Ordered (insert l H) cs
  | H, .unlock l :: cs => l ∈ H ∧ Ordered (H \ {l}) cs
  | H, .run i :: cs => D.pre i H ∧ Ordered (D.after i H) cs

/-- **The commands fit** into what a thread does that holds `H`: they take only locks that they
release. -/
def Fits (H : Set L) (body : List (Cmd L ι)) : Prop :=
  ∀ cs, D.Ordered H cs → D.Ordered H (body ++ cs)

/-- **The instructions keep the discipline**, and a property of the data. -/
def Sound (exec : ι → δ → δ × List (Cmd L ι)) (I : δ → Prop) : Prop :=
  ∀ i d, I d → I (exec i d).1 ∧
    ∀ H cs, D.pre i H → D.Ordered (D.after i H) cs → D.Ordered H ((exec i d).2 ++ cs)

/-- **The invariant of the threads.** -/
structure Inv (I : δ → Prop) (s : Threads L ι δ τ) : Prop where
  data : I s.data
  ordered : ∀ t, D.Ordered {l | s.Has t l} (s.code t)
  alone : ∀ l t, s.owner l = some t → s.readers l = []
  once : ∀ l, (s.readers l).Nodup

variable {D}

theorem fits_nil (H : Set L) : D.Fits H ([] : List (Cmd L ι)) := fun _ h => h

theorem Fits.append {H : Set L} {body body' : List (Cmd L ι)} (h : D.Fits H body)
    (h' : D.Fits H body') : D.Fits H (body ++ body') := by
  intro cs hcs
  rw [List.append_assoc]
  exact h _ (h' cs hcs)

theorem fits_flatMap {α : Type*} {H : Set L} {f : α → List (Cmd L ι)} {as : List α}
    (h : ∀ a ∈ as, D.Fits H (f a)) : D.Fits H (as.flatMap f) := by
  induction as with
  | nil => exact fits_nil H
  | cons a as ih =>
    rw [List.flatMap_cons]
    exact (h a List.mem_cons_self).append (ih fun b hb => h b (List.mem_cons_of_mem a hb))

theorem fits_run {H : Set L} {i : ι} (hpre : D.pre i H) (hafter : D.after i H = H) :
    D.Fits H [.run i] := by
  intro cs hcs
  refine ⟨hpre, ?_⟩
  rw [hafter]
  exact hcs

/-- **A section under a lock fits**, where the lock ranks above what is held. -/
theorem fits_locked {H : Set L} {l : L} {body : List (Cmd L ι)} (habove : D.Above l H)
    (hbody : D.Fits (insert l H) body) : D.Fits H (.lock l :: body ++ [.unlock l]) := by
  intro cs hcs
  have hnot : l ∉ H := fun hl => Nat.lt_irrefl _ (habove l hl)
  have hback : insert l H \ {l} = H := Set.insert_sdiff_self_of_notMem hnot
  have hrest : D.Ordered (insert l H) (.unlock l :: cs) := by
    refine ⟨Set.mem_insert l H, ?_⟩
    rw [hback]
    exact hcs
  rw [List.append_assoc]
  exact ⟨habove, hbody _ hrest⟩

theorem Fits.ordered {code : List (Cmd L ι)} (h : D.Fits ∅ code) : D.Ordered ∅ code := by
  have hcode := h [] rfl
  rwa [List.append_nil] at hcode

variable {I : δ → Prop} {exec : ι → δ → δ × List (Cmd L ι)} {s : Threads L ι δ τ}

theorem start_inv {d : δ} (hd : I d) {code : τ → List (Cmd L ι)} (hcode : ∀ t, D.Ordered ∅ (code t)) :
    D.Inv I (Threads.start d code) := by
  refine ⟨hd, ?_, fun l t h => (Option.some_ne_none t h.symm).elim, fun l => List.nodup_nil⟩
  intro t
  have hnone : {l | (Threads.start (ι := ι) d code).Has t l} = ∅ := by
    rw [Set.eq_empty_iff_forall_notMem]
    rintro l (h | h)
    · exact Option.some_ne_none t h.symm
    · exact List.not_mem_nil h
  rw [hnone]
  exact hcode t

/-- A thread that releases a lock has it. -/
theorem Inv.mine (hs : D.Inv I s) {t : τ} {l : L} {cs : List (Cmd L ι)}
    (h : s.code t = .unlock l :: cs) : s.Has t l := by
  have hord := hs.ordered t
  rw [h] at hord
  exact hord.1

/-- A thread that takes a lock has only locks of lower rank. -/
theorem Inv.above (hs : D.Inv I s) {t : τ} {l : L} {cs : List (Cmd L ι)}
    (h : s.code t = .lock l :: cs ∨ s.code t = .rdlock l :: cs) :
    D.Above l {l | s.Has t l} := by
  have hord := hs.ordered t
  rcases h with h | h
  · rw [h] at hord; exact hord.1
  · rw [h] at hord; exact hord.1

/-- **A thread that takes a lock has it not yet.** -/
theorem Inv.not_mine (hs : D.Inv I s) {t : τ} {l : L} {cs : List (Cmd L ι)}
    (h : s.code t = .lock l :: cs ∨ s.code t = .rdlock l :: cs) : ¬ s.Has t l :=
  fun hmine => Nat.lt_irrefl _ (hs.above h l hmine)

/-! ## No deadlock -/

/-- A thread that waits for `l` finds another one with it, which has something to do. -/
theorem Inv.waits (hs : D.Inv I s) {t : τ} (h : s.Waits t) :
    ∃ l t', s.Has t' l ∧ D.Above l {l | s.Has t l} ∧ s.code t' ≠ [] := by
  have hbusy : ∀ l t', s.Has t' l → s.code t' ≠ [] := by
    intro l t' hhas hnil
    have hord := hs.ordered t'
    rw [hnil] at hord
    have hmem : l ∈ {l | s.Has t' l} := hhas
    rw [show {l | s.Has t' l} = ∅ from hord] at hmem
    exact hmem
  have hfound : ∀ l, s.owner l ≠ none ∨ s.readers l ≠ [] → ∃ t', s.Has t' l := by
    rintro l (howner | hreaders)
    · obtain ⟨t', ht'⟩ := Option.ne_none_iff_exists'.1 howner
      exact ⟨t', Or.inl ht'⟩
    · obtain ⟨t', ht'⟩ := List.exists_mem_of_ne_nil _ hreaders
      exact ⟨t', Or.inr ht'⟩
  unfold Threads.Waits at h
  split at h
  · rename_i l cs hcode
    obtain ⟨t', ht'⟩ := hfound l h
    exact ⟨l, t', ht', hs.above (Or.inl hcode), hbusy l t' ht'⟩
  · rename_i l cs hcode
    obtain ⟨t', ht'⟩ := hfound l (Or.inl h)
    exact ⟨l, t', ht', hs.above (Or.inr hcode), hbusy l t' ht'⟩
  · exact h.elim

/-- From a thread with a lock of rank `r` on, some thread that is not done does not wait. -/
theorem Inv.moves_from (hs : D.Inv I s) : ∀ (n : ℕ) (t : τ) (l : L), s.Has t l → s.code t ≠ [] →
    D.top - D.rank l ≤ n → ∃ t', s.code t' ≠ [] ∧ ¬ s.Waits t' := by
  intro n
  -- a thread that waits for a lock waits for one of higher rank than it has
  induction n with
  | zero =>
    intro t l hhas hbusy hn
    refine ⟨t, hbusy, fun hwaits => ?_⟩
    obtain ⟨l', t', -, habove, -⟩ := hs.waits hwaits
    have hlt := habove l hhas
    have hle := D.rank_le l'
    omega
  | succ n ih =>
    intro t l hhas hbusy hn
    by_cases hwaits : s.Waits t
    · obtain ⟨l', t', hhas', habove, hbusy'⟩ := hs.waits hwaits
      have hlt := habove l hhas
      have hle := D.rank_le l'
      exact ih t' l' hhas' hbusy' (by omega)
    · exact ⟨t, hbusy, hwaits⟩

/-- **No deadlock**: while some thread is not done, some thread can move. -/
theorem Inv.can_move (hs : D.Inv I s) (h : ∃ t, s.code t ≠ []) :
    ∃ t, s.code t ≠ [] ∧ ¬ s.Waits t := by
  obtain ⟨t, hbusy⟩ := h
  by_cases hwaits : s.Waits t
  · obtain ⟨l, t', hhas, -, hbusy'⟩ := hs.waits hwaits
    exact hs.moves_from _ t' l hhas hbusy' (Nat.le_refl _)
  · exact ⟨t, hbusy, hwaits⟩

/-! ## Steps -/

/-- A change of what thread `t` has and does, and of nothing that others have or do. -/
theorem Inv.change (hs : D.Inv I s) {s' : Threads L ι δ τ} {t : τ} (hdata : I s'.data)
    (hcode : ∀ t', t' ≠ t → s'.code t' = s.code t')
    (hothers : ∀ t', t' ≠ t → ∀ l, s'.Has t' l ↔ s.Has t' l)
    (hmine : D.Ordered {l | s'.Has t l} (s'.code t))
    (halone : ∀ l t, s'.owner l = some t → s'.readers l = []) (honce : ∀ l, (s'.readers l).Nodup) :
    D.Inv I s' := by
  refine ⟨hdata, ?_, halone, honce⟩
  intro t'
  by_cases ht : t' = t
  · subst ht; exact hmine
  · have hsame : {l | s'.Has t' l} = {l | s.Has t' l} := Set.ext fun l => hothers t' ht l
    rw [hsame, hcode t' ht]
    exact hs.ordered t'

variable [DecidableEq L] [DecidableEq τ]

theorem Inv.lock (hs : D.Inv I s) {t : τ} {l : L} {cs : List (Cmd L ι)} (h : s.code t = .lock l :: cs)
    (howner : s.owner l = none) (hreaders : s.readers l = []) :
    D.Inv I { s with owner := Function.update s.owner l (some t), code := Function.update s.code t cs } := by
  refine hs.change (t := t) hs.data (fun t' ht => Function.update_of_ne ht _ _) ?_ ?_ ?_ hs.once
  · intro t' ht l'
    unfold Threads.Has
    by_cases hl : l' = l
    · subst hl
      simp [howner, Ne.symm ht]
    · simp [hl]
  · have hheld : {l' | (Threads.mk s.data (Function.update s.owner l (some t)) s.readers
        (Function.update s.code t cs)).Has t l'} = insert l {l' | s.Has t l'} := by
      ext l'
      unfold Threads.Has
      by_cases hl : l' = l
      · subst hl; simp
      · simp [hl]
    have hord := hs.ordered t
    rw [h] at hord
    rw [hheld]
    dsimp only
    rw [Function.update_self]
    exact hord.2
  · intro l' t' howner'
    by_cases hl : l' = l
    · subst hl; exact hreaders
    · exact hs.alone l' t' (by simpa [hl] using howner')

theorem Inv.rdlock (hs : D.Inv I s) {t : τ} {l : L} {cs : List (Cmd L ι)}
    (h : s.code t = .rdlock l :: cs) (howner : s.owner l = none) :
    D.Inv I
      { s with
        readers := Function.update s.readers l (t :: s.readers l)
        code := Function.update s.code t cs } := by
  have hnot := hs.not_mine (Or.inr h)
  refine hs.change (t := t) hs.data (fun t' ht => Function.update_of_ne ht _ _) ?_ ?_ ?_ ?_
  · intro t' ht l'
    unfold Threads.Has
    by_cases hl : l' = l
    · subst hl; simp [ht]
    · simp [hl]
  · have hheld : {l' | (Threads.mk s.data s.owner (Function.update s.readers l (t :: s.readers l))
        (Function.update s.code t cs)).Has t l'} = insert l {l' | s.Has t l'} := by
      ext l'
      unfold Threads.Has
      by_cases hl : l' = l
      · subst hl; simp
      · simp [hl]
    have hord := hs.ordered t
    rw [h] at hord
    rw [hheld]
    dsimp only
    rw [Function.update_self]
    exact hord.2
  · intro l' t' howner'
    by_cases hl : l' = l
    · subst hl; exact absurd (howner.symm.trans howner') (by simp)
    · have hread := hs.alone l' t' howner'
      simpa [hl] using hread
  · intro l'
    dsimp only
    by_cases hl : l' = l
    · subst hl
      rw [Function.update_self]
      exact List.nodup_cons.2 ⟨fun hmem => hnot (Or.inr hmem), hs.once l'⟩
    · rw [Function.update_of_ne hl]
      exact hs.once l'

theorem Inv.unlock (hs : D.Inv I s) {t : τ} {l : L} {cs : List (Cmd L ι)}
    (h : s.code t = .unlock l :: cs) : D.Inv I (s.step exec t) := by
  have hord := hs.ordered t
  rw [h] at hord
  obtain ⟨hmine, hord⟩ := hord
  unfold Threads.step
  rw [h]
  dsimp only
  by_cases howner : s.owner l = some t
  · -- held alone
    have hreaders := hs.alone l t howner
    rw [if_pos howner]
    refine hs.change (t := t) hs.data (fun t' ht => Function.update_of_ne ht _ _) ?_ ?_ ?_ hs.once
    · intro t' ht l'
      unfold Threads.Has
      by_cases hl : l' = l
      · subst hl; simp [howner, Ne.symm ht]
      · simp [hl]
    · have hheld : {l' | (Threads.mk s.data (Function.update s.owner l none) s.readers
          (Function.update s.code t cs)).Has t l'} = {l' | s.Has t l'} \ {l} := by
        ext l'
        unfold Threads.Has
        by_cases hl : l' = l
        · subst hl; simp [hreaders]
        · simp [hl]
      rw [hheld]
      dsimp only
      rw [Function.update_self]
      exact hord
    · intro l' t' howner'
      by_cases hl : l' = l
      · subst hl; exact hreaders
      · exact hs.alone l' t' (by simpa [hl] using howner')
  · -- held with others
    have hnone : s.owner l = none := by
      cases ho : s.owner l with
      | none => rfl
      | some t' =>
        have hreaders := hs.alone l t' ho
        rcases hmine with hmine | hmine
        · exact absurd hmine howner
        · rw [hreaders] at hmine; exact absurd hmine List.not_mem_nil
    rw [if_neg howner]
    refine hs.change (t := t) hs.data (fun t' ht => Function.update_of_ne ht _ _) ?_ ?_ ?_ ?_
    · intro t' ht l'
      unfold Threads.Has
      by_cases hl : l' = l
      · subst hl; simp [List.mem_erase_of_ne ht]
      · simp [hl]
    · have hheld : {l' | (Threads.mk s.data s.owner
          (Function.update s.readers l ((s.readers l).erase t)) (Function.update s.code t cs)).Has t l'} =
          {l' | s.Has t l'} \ {l} := by
        ext l'
        unfold Threads.Has
        by_cases hl : l' = l
        · subst hl; simp [hnone, (hs.once l').mem_erase_iff]
        · simp [hl]
      rw [hheld]
      dsimp only
      rw [Function.update_self]
      exact hord
    · intro l' t' howner'
      by_cases hl : l' = l
      · subst hl; exact absurd (hnone.symm.trans howner') (by simp)
      · have hread := hs.alone l' t' howner'
        simpa [hl] using hread
    · intro l'
      dsimp only
      by_cases hl : l' = l
      · subst hl
        rw [Function.update_self]
        exact (hs.once l').erase t
      · rw [Function.update_of_ne hl]
        exact hs.once l'

/-- **A step of any thread keeps the invariant.** -/
theorem step_inv (hexec : D.Sound exec I) (hs : D.Inv I s) (t : τ) : D.Inv I (s.step exec t) := by
  cases h : s.code t with
  | nil =>
    unfold Threads.step
    rw [h]
    exact hs
  | cons c cs =>
    cases c with
    | unlock l => exact hs.unlock h
    | lock l =>
      unfold Threads.step
      rw [h]
      dsimp only
      split
      · rename_i hfree
        exact hs.lock h (Option.isNone_iff_eq_none.1 hfree.1) (List.isEmpty_iff.1 hfree.2)
      · exact hs
    | rdlock l =>
      unfold Threads.step
      rw [h]
      dsimp only
      split
      · rename_i hfree
        exact hs.rdlock h (Option.isNone_iff_eq_none.1 hfree)
      · exact hs
    | run i =>
      unfold Threads.step
      rw [h]
      dsimp only
      have hord := hs.ordered t
      rw [h] at hord
      obtain ⟨hdata, hbody⟩ := hexec i s.data hs.data
      refine hs.change (t := t) hdata (fun t' ht => Function.update_of_ne ht _ _) (fun _ _ _ => Iff.rfl)
        ?_ hs.alone hs.once
      dsimp only
      rw [Function.update_self]
      exact hbody _ cs hord.1 hord.2

end Discipline

end Coroutine.Lib
