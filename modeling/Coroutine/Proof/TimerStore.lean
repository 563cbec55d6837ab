import Coroutine.Lib.Run
import Coroutine.Spec.Timer
import Mathlib.Tactic.Tauto

/-!
# The timer store keeps its representation

`WF`: `m_timers` is strictly sorted by the comparator on the timers' current
deadlines, and holds a timer exactly when its callback is not null. Every
operation takes a timer out of the set before it changes the key
(`set_of_not_mem`), so the order survives; `cancel` relies on the link between
callback and membership without checking it (`cancel_ok`).

* `rearm_wf`: the loop of `listExpiredCb`, whose invariant `Rearming` says which
  timers are still out of the set.
* `store_wf`: every run of the operations keeps `WF` and never faults.
-/

namespace Coroutine

open Lib

namespace TimerManager

variable {addr : ℕ ↪ ℕ} {m : TimerManager}

theorem before_iff {a b : ℕ} : m.before addr a b ↔
    (m.timer a).m_next < (m.timer b).m_next ∨
      (m.timer a).m_next = (m.timer b).m_next ∧ addr a < addr b := by
  unfold before key Timer.Comparator
  simp only [UInt64.lt_iff_toNat_lt, ← UInt64.toNat_inj]
  by_cases h1 : (m.timer a).m_next.toNat < (m.timer b).m_next.toNat
  · simp [h1]
  · by_cases h2 : (m.timer b).m_next.toNat < (m.timer a).m_next.toNat
    · simp [h1, h2]; omega
    · have heq : (m.timer a).m_next.toNat = (m.timer b).m_next.toNat := by omega
      simp [heq]

/-- The comparator is a strict total order on the timers. -/
instance : IsStrictTotalOrder ℕ (m.before addr) where
  irrefl a h := by
    rw [before_iff] at h
    simp at h
  trans a b c hab hbc := by
    rw [before_iff, UInt64.lt_iff_toNat_lt, ← UInt64.toNat_inj] at *
    omega
  trichotomous a b h1 h2 := by
    rw [before_iff, UInt64.lt_iff_toNat_lt, ← UInt64.toNat_inj] at h1 h2
    have haddr : addr a = addr b := by omega
    exact addr.injective haddr

/-- **The representation invariant of the timer store.** -/
structure WF (addr : ℕ ↪ ℕ) (m : TimerManager) : Prop where
  sorted : OrdSet.Sorted (m.before addr) m.m_timers
  armed : ∀ t, t ∈ m.m_timers ↔ (m.timer t).m_cb.isSome
  fresh : ∀ t, m.made ≤ t → (m.timer t).m_cb = none

theorem init_wf (now_ms : UInt64) : (init now_ms).WF addr :=
  ⟨by simp [init], by simp [init], by simp [init]⟩

@[simp] theorem set_timer_self (t : ℕ) (x : Timer) : (m.set t x).timer t = x := by simp [set]

theorem set_timer_of_ne {t i : ℕ} (x : Timer) (h : i ≠ t) : (m.set t x).timer i = m.timer i := by
  simp [set, h]

/-- **Writing to a timer that is out of the set keeps the set sorted.** -/
theorem sorted_set {t : ℕ} {x : Timer} (hs : OrdSet.Sorted (m.before addr) m.m_timers)
    (ht : t ∉ m.m_timers) : OrdSet.Sorted ((m.set t x).before addr) (m.set t x).m_timers := by
  refine OrdSet.sorted_congr ?_ hs
  intro a ha b hb hab
  have hat : a ≠ t := fun h => ht (h ▸ ha)
  have hbt : b ≠ t := fun h => ht (h ▸ hb)
  rw [before_iff] at hab ⊢
  rwa [set_timer_of_ne x hat, set_timer_of_ne x hbt]

/-- The order of the set does not depend on callbacks. -/
theorem before_set_cb {t : ℕ} (cb : Option TimerCb) :
    (m.set t { m.timer t with m_cb := cb }).before addr = m.before addr := by
  have hnext : ∀ i, ((m.set t { m.timer t with m_cb := cb }).timer i).m_next =
      (m.timer i).m_next := by
    intro i; by_cases hi : i = t
    · subst hi; simp
    · rw [set_timer_of_ne _ hi]
  unfold before key
  funext a b
  rw [hnext, hnext]

/-! ## The operations on one timer -/

theorem find_of_mem (hs : OrdSet.Sorted (m.before addr) m.m_timers) {t : ℕ} (ht : t ∈ m.m_timers) :
    m.find addr t = some t := (OrdSet.find_eq_some hs).2 ht

theorem mem_erase (hs : OrdSet.Sorted (m.before addr) m.m_timers) {t i : ℕ} :
    i ∈ (m.erase t).m_timers ↔ i ≠ t ∧ i ∈ m.m_timers := hs.nodup.mem_erase_iff

theorem sorted_erase (hs : OrdSet.Sorted (m.before addr) m.m_timers) (t : ℕ) :
    OrdSet.Sorted ((m.erase t).before addr) (m.erase t).m_timers :=
  hs.sublist List.erase_sublist

/-- Taking an armed timer out, rewriting it with its callback kept and inserting it
again keeps the store well formed. -/
theorem reinsert_wf (hm : m.WF addr) {t : ℕ} (ht : t ∈ m.m_timers) {x : Timer}
    (hx : x.m_cb = (m.timer t).m_cb) : (((m.erase t).set t x).insert addr t).WF addr := by
  have hs := sorted_erase hm.sorted t
  have hnot : t ∉ (m.erase t).m_timers := fun h => ((mem_erase hm.sorted).1 h).1 rfl
  have hmem : ∀ i, i ∈ ((m.erase t).set t x).m_timers ↔ i ≠ t ∧ i ∈ m.m_timers :=
    fun i => mem_erase hm.sorted
  have hcb : ∀ i, ((((m.erase t).set t x).timer i).m_cb) = (m.timer i).m_cb := by
    intro i; by_cases hi : i = t
    · subst hi; rw [set_timer_self, hx]
    · rw [set_timer_of_ne x hi]; rfl
  refine ⟨OrdSet.insert_sorted (sorted_set hs hnot), ?_, ?_⟩
  · intro i
    show i ∈ OrdSet.insert _ t _ ↔ ((((m.erase t).set t x).timer i).m_cb).isSome
    rw [OrdSet.mem_insert, hmem, hcb, ← hm.armed]
    constructor
    · rintro (rfl | ⟨-, h⟩)
      · exact ht
      · exact h
    · intro h
      by_cases hi : i = t
      · exact Or.inl hi
      · exact Or.inr ⟨hi, h⟩
  · intro i hi
    show (((m.erase t).set t x).timer i).m_cb = none
    rw [hcb]; exact hm.fresh i hi

/-- `m_tickled` is no part of the representation. -/
theorem WF.tickled (hm : m.WF addr) (b : Bool) : ({ m with m_tickled := b } : TimerManager).WF addr :=
  ⟨hm.sorted, hm.armed, hm.fresh⟩

theorem WF.previousTime (hm : m.WF addr) (t : UInt64) :
    ({ m with m_previousTime := t } : TimerManager).WF addr := ⟨hm.sorted, hm.armed, hm.fresh⟩

theorem addTimerPtr_wf {t : ℕ} (hm : (m.insert addr t).WF addr) : (m.addTimerPtr addr t).1.WF addr := by
  unfold addTimerPtr
  dsimp only
  split
  · exact hm.tickled true
  · exact hm

/-- **`addTimer` keeps the store well formed.** The new timer is in no set yet. -/
theorem addTimer_wf (hm : m.WF addr) (now ms : UInt64) (cb : TimerCb) (recurring : Bool) :
    (m.addTimer addr now ms (some cb) recurring).2.1.WF addr := by
  have hnot : m.made ∉ m.m_timers := by rw [hm.armed, hm.fresh _ (Nat.le_refl _)]; simp
  unfold addTimer
  apply addTimerPtr_wf
  refine ⟨OrdSet.insert_sorted (sorted_set hm.sorted hnot), ?_, ?_⟩
  · intro i
    show i ∈ OrdSet.insert _ m.made _ ↔ ((m.set m.made _).timer i).m_cb.isSome
    rw [OrdSet.mem_insert]
    by_cases hi : i = m.made
    · subst hi; simp
    · rw [set_timer_of_ne _ hi, ← hm.armed]
      simp only [hi, false_or]; rfl
  · intro i hi
    show ((m.set m.made _).timer i).m_cb = none
    have hlt : m.made + 1 ≤ i := hi
    rw [set_timer_of_ne _ (by omega)]
    exact hm.fresh i (by omega)

/-- **`cancel` never erases `end()`**, and keeps the store well formed. -/
theorem cancel_ok (hm : m.WF addr) (t : ℕ) :
    ∃ b m', m.cancel addr t = .ok (b, m') ∧ m'.WF addr := by
  unfold cancel
  by_cases hcb : (m.timer t).m_cb.isSome
  · have ht : t ∈ m.m_timers := (hm.armed t).2 hcb
    -- the callback is cleared before the search, which does not look at it
    have hs : OrdSet.Sorted ((m.set t { m.timer t with m_cb := none }).before addr)
        (m.set t { m.timer t with m_cb := none }).m_timers := by
      rw [before_set_cb]; exact hm.sorted
    have hfind : (m.set t { m.timer t with m_cb := none }).find addr t = some t := find_of_mem hs ht
    rw [if_pos hcb]
    simp only [hfind]
    refine ⟨_, _, rfl, sorted_erase hs t, ?_, ?_⟩
    · intro i
      rw [mem_erase hs]
      show i ≠ t ∧ i ∈ m.m_timers ↔ ((m.set t _).timer i).m_cb.isSome
      by_cases hi : i = t
      · subst hi; simp
      · rw [set_timer_of_ne _ hi, ← hm.armed]; simp [hi]
    · intro i hi
      show ((m.set t _).timer i).m_cb = none
      by_cases hit : i = t
      · subst hit; simp
      · rw [set_timer_of_ne _ hit]; exact hm.fresh i hi
  · rw [if_neg hcb]; exact ⟨_, _, rfl, hm⟩

theorem refresh_wf (hm : m.WF addr) (now : UInt64) (t : ℕ) : (m.refresh addr now t).2.WF addr := by
  unfold refresh
  split
  · exact hm
  · rename_i hcb
    have ht : t ∈ m.m_timers := (hm.armed t).2 (by simpa [Option.isSome_iff_ne_none] using hcb)
    rw [find_of_mem hm.sorted ht]
    exact reinsert_wf hm ht rfl

theorem reset_wf (hm : m.WF addr) (now ms : UInt64) (from_now : Bool) (t : ℕ) :
    (m.reset addr now ms from_now t).2.1.WF addr := by
  unfold reset
  split
  · exact hm
  · split
    · exact hm
    · rename_i hcb
      have ht : t ∈ m.m_timers := (hm.armed t).2 (by simpa [Option.isSome_iff_ne_none] using hcb)
      rw [find_of_mem hm.sorted ht]
      exact addTimerPtr_wf (reinsert_wf hm ht rfl)

/-! ## Expiry -/

/-- **The invariant of the loop of `listExpiredCb`**: the timers still to come
(`rem`) are armed but out of the set. -/
structure Rearming (addr : ℕ ↪ ℕ) (rem : List ℕ) (m : TimerManager) : Prop where
  sorted : OrdSet.Sorted (m.before addr) m.m_timers
  armed : ∀ t, t ∈ m.m_timers ↔ (m.timer t).m_cb.isSome ∧ t ∉ rem
  out : ∀ t ∈ rem, (m.timer t).m_cb.isSome
  nodup : rem.Nodup
  fresh : ∀ t, m.made ≤ t → (m.timer t).m_cb = none

theorem Rearming.wf (hm : m.Rearming addr []) : m.WF addr :=
  ⟨hm.sorted, by simpa using hm.armed, hm.fresh⟩

/-- One turn of the loop: a recurring timer goes back, a one-shot one loses its
callback. -/
theorem rearm_step {t : ℕ} {rem : List ℕ} (hm : m.Rearming addr (t :: rem)) (now_ms : UInt64)
    (cbs : List (Option TimerCb)) : (expireOne addr now_ms (cbs, m) t).2.Rearming addr rem := by
  have hnot : t ∉ m.m_timers := fun h => ((hm.armed t).1 h).2 List.mem_cons_self
  obtain ⟨htr, hnd⟩ := List.nodup_cons.1 hm.nodup
  have hlt : t < m.made := by
    by_contra hge
    have := hm.out t List.mem_cons_self
    rw [hm.fresh t (by omega)] at this; simp at this
  have hne : ∀ i ∈ rem, i ≠ t := fun i hi h => htr (h ▸ hi)
  unfold expireOne
  dsimp only
  split
  · refine ⟨OrdSet.insert_sorted (sorted_set hm.sorted hnot), ?_, ?_, hnd, ?_⟩
    · intro i
      show i ∈ OrdSet.insert _ t _ ↔ ((m.set t _).timer i).m_cb.isSome ∧ i ∉ rem
      rw [OrdSet.mem_insert]
      by_cases hi : i = t
      · subst hi; simpa [htr] using hm.out _ List.mem_cons_self
      · rw [set_timer_of_ne _ hi]
        show i = t ∨ i ∈ m.m_timers ↔ _
        simp [hm.armed, hi]
    · intro i hi
      show ((m.set t _).timer i).m_cb.isSome
      rw [set_timer_of_ne _ (hne i hi)]
      exact hm.out i (List.mem_cons_of_mem _ hi)
    · intro i hi
      show ((m.set t _).timer i).m_cb = none
      have : m.made ≤ i := hi
      rw [set_timer_of_ne _ (by omega)]; exact hm.fresh i hi
  · refine ⟨sorted_set hm.sorted hnot, ?_, ?_, hnd, ?_⟩
    · intro i
      show i ∈ m.m_timers ↔ _
      by_cases hi : i = t
      · subst hi; simp [hnot]
      · rw [set_timer_of_ne _ hi]; simp [hm.armed, hi]
    · intro i hi
      rw [set_timer_of_ne _ (hne i hi)]
      exact hm.out i (List.mem_cons_of_mem _ hi)
    · intro i hi
      have : m.made ≤ i := hi
      rw [set_timer_of_ne _ (by omega)]; exact hm.fresh i hi

/-- **The loop of `listExpiredCb` puts the store back in order.** -/
theorem rearm_wf (now_ms : UInt64) : ∀ (rem : List ℕ) (cbs : List (Option TimerCb))
    (m : TimerManager), m.Rearming addr rem →
    (rem.foldl (expireOne addr now_ms) (cbs, m)).2.WF addr := by
  intro rem
  induction rem with
  | nil => intro cbs m hm; exact hm.wf
  | cons t rem ih => intro cbs m hm; exact ih _ _ (rearm_step hm now_ms cbs)

/-- The cut only splits the list. -/
theorem cut_append (rollover : Bool) (now_ms : UInt64) (probe : ℕ) :
    (m.cut addr rollover now_ms probe).1 ++ (m.cut addr rollover now_ms probe).2 = m.m_timers := by
  unfold cut
  split
  · simp
  · simp [List.takeWhile_append_dropWhile]

/-- What the cut leaves out of the set is armed and not in it. -/
theorem cut_rearming (hm : m.WF addr) (rollover : Bool) (now_ms : UInt64) (probe : ℕ) :
    ({ m with m_timers := (m.cut addr rollover now_ms probe).2 } : TimerManager).Rearming addr
      (m.cut addr rollover now_ms probe).1 := by
  have hcut : (m.cut addr rollover now_ms probe).1 ++ (m.cut addr rollover now_ms probe).2 =
    m.m_timers := cut_append rollover now_ms probe
  set A := (m.cut addr rollover now_ms probe).1
  set B := (m.cut addr rollover now_ms probe).2
  have hs := hm.sorted
  have hnd := hs.nodup
  rw [← hcut] at hs hnd
  have hsB : OrdSet.Sorted (m.before addr) B := (List.pairwise_append.1 hs).2.1
  have hdis := (List.nodup_append.1 hnd).2.2
  have harm : ∀ t, (m.timer t).m_cb.isSome ↔ t ∈ A ∨ t ∈ B := by
    intro t; rw [← hm.armed, ← List.mem_append, hcut]
  refine ⟨hsB, ?_, fun t ht => (harm t).2 (Or.inl ht), (List.nodup_append.1 hnd).1, hm.fresh⟩
  intro t
  show t ∈ B ↔ (m.timer t).m_cb.isSome ∧ t ∉ A
  rw [harm]
  constructor
  · intro h; exact ⟨Or.inr h, fun hA => hdis t hA t h rfl⟩
  · rintro ⟨h | h, hA⟩
    · exact absurd h hA
    · exact h

theorem expire_wf (hm : m.WF addr) (rollover : Bool) (now_ms : UInt64) (probe : ℕ) :
    (m.expire addr rollover now_ms probe).2.WF addr :=
  rearm_wf now_ms _ _ _ (cut_rearming hm rollover now_ms probe)

/-- The three exits of the write-locked section. -/
theorem listExpired_eq (now_ms : UInt64) (probe : ℕ) : m.listExpired addr now_ms probe =
    let m' : TimerManager := { m with m_previousTime := now_ms }
    if m.clockRollover now_ms then .ok (m'.expire addr true now_ms probe)
    else
      match m.m_timers with
      | [] => .error .undefined
      | front :: _ =>
        if now_ms < (m.timer front).m_next then .ok ([], m')
        else .ok (m'.expire addr false now_ms probe) := by
  unfold listExpired detectClockRollover
  cases h : m.clockRollover now_ms <;> rfl

/-- **The extraction keeps the store well formed** wherever it is defined. -/
theorem listExpired_wf (hm : m.WF addr) {now_ms : UInt64} {probe : ℕ} {cbs : List (Option TimerCb)}
    {m' : TimerManager} (h : m.listExpired addr now_ms probe = .ok (cbs, m')) : m'.WF addr := by
  have hm' := hm.previousTime now_ms
  rw [listExpired_eq] at h
  dsimp only at h
  split at h
  · have := expire_wf hm' true now_ms probe
    rw [Except.ok.inj h] at this; exact this
  · split at h
    · cases h
    · split at h
      · rw [(Prod.mk.inj (Except.ok.inj h)).2] at hm'; exact hm'
      · have := expire_wf hm' false now_ms probe
        rw [Except.ok.inj h] at this; exact this

/-- Extraction from a non-empty set is defined. -/
theorem listExpired_ok {now_ms : UInt64} {probe : ℕ} (hne : m.m_timers ≠ []) :
    ∃ r, m.listExpired addr now_ms probe = .ok r := by
  obtain ⟨front, rest, hfront⟩ := List.exists_cons_of_ne_nil hne
  rw [listExpired_eq, hfront]
  dsimp only
  split
  · exact ⟨_, rfl⟩
  · split <;> exact ⟨_, rfl⟩

theorem listExpiredCb_ok (hm : m.WF addr) (now_ms : UInt64) (probe : ℕ) :
    ∃ cbs m', m.listExpiredCb addr now_ms probe = .ok (cbs, m') ∧ m'.WF addr := by
  unfold listExpiredCb
  split
  · exact ⟨_, _, rfl, hm⟩
  · rename_i hne
    obtain ⟨⟨cbs, m'⟩, h⟩ : ∃ r, m.listExpired addr now_ms probe = .ok r := listExpired_ok hne
    exact ⟨cbs, m', h, listExpired_wf hm h⟩

theorem getNextTimer_wf (hm : m.WF addr) (now_ms : UInt64) : (m.getNextTimer now_ms).2.WF addr := by
  unfold getNextTimer
  dsimp only
  split
  · exact hm.tickled false
  · split <;> exact hm.tickled false

end TimerManager

/-! ## Runs -/

/-- **Every operation on a handle is defined on a well-formed store and leaves it well
formed.** -/
theorem TimerOp.call_ok {addr : ℕ ↪ ℕ} {m : TimerManager} (hm : m.WF addr) (op : TimerOp) :
    ∃ m', op.call addr m = .ok m' ∧ m'.WF addr := by
  cases op with
  | addTimer now ms cb recurring => exact ⟨_, rfl, TimerManager.addTimer_wf hm _ _ _ _⟩
  | addConditionTimer now ms cb weak_cond recurring =>
    exact ⟨_, rfl, TimerManager.addTimer_wf hm _ _ _ _⟩
  | cancel t =>
    obtain ⟨b, m', h, hm'⟩ := TimerManager.cancel_ok hm t
    exact ⟨m', by simp [call, h, Except.map], hm'⟩
  | refresh now t => exact ⟨_, rfl, TimerManager.refresh_wf hm _ _⟩
  | reset now ms from_now t => exact ⟨_, rfl, TimerManager.reset_wf hm _ _ _ _⟩
  | getNextTimer now => exact ⟨_, rfl, TimerManager.getNextTimer_wf hm _⟩

theorem TimerCall.step_ok {addr : ℕ ↪ ℕ} {m : TimerManager} (hm : m.WF addr) (c : TimerCall) :
    ∃ m', c.step addr (.ok m) = .ok m' ∧ m'.WF addr := by
  cases c with
  | op o => exact TimerOp.call_ok hm o
  | listExpiredCb now probe =>
    obtain ⟨cbs, m', h, hm'⟩ := TimerManager.listExpiredCb_ok hm now probe
    exact ⟨m', by simp [step, Except.bind, h, Except.map], hm'⟩

/-- Runs of whole calls stay well formed and never fault. -/
theorem calls_wf (addr : ℕ ↪ ℕ) (start : UInt64) (cs : List TimerCall) :
    ∃ m, run (fun s c => TimerCall.step addr s c) (.ok (TimerManager.init start)) cs = .ok m ∧
      m.WF addr := by
  refine run_inv (I := fun s : Except Fault TimerManager => ∃ m, s = .ok m ∧ m.WF addr) ?_ cs _
    ⟨_, rfl, TimerManager.init_wf start⟩
  rintro s c ⟨m, rfl, hm⟩
  exact TimerCall.step_ok hm c

/-- **The store is well formed in every state of every run**, no call faults, and in
each such state a search finds exactly the timers with a callback and `cancel` erases
an element of the set. -/
theorem store_wf (addr : ℕ ↪ ℕ) (start : UInt64) (cs : List TimerCall) :
    ∃ m, run (fun s c => TimerCall.step addr s c) (.ok (TimerManager.init start)) cs = .ok m ∧
      OrdSet.Sorted (m.before addr) m.m_timers ∧ m.m_timers.Nodup ∧
      (∀ t, t ∈ m.m_timers ↔ (m.timer t).m_cb.isSome) ∧
      (∀ t, (m.timer t).m_cb.isSome → m.find addr t = some t) ∧
      ∀ t, ∃ r, m.cancel addr t = .ok r := by
  obtain ⟨m, h, hm⟩ := calls_wf addr start cs
  refine ⟨m, h, hm.sorted, hm.sorted.nodup, hm.armed, ?_, ?_⟩
  · intro t ht
    exact TimerManager.find_of_mem hm.sorted ((hm.armed t).2 ht)
  · intro t
    obtain ⟨b, m', hc, -⟩ := TimerManager.cancel_ok hm t
    exact ⟨_, hc⟩

end Coroutine
