import Coroutine.Proof.TimerEffect
import Coroutine.Spec.TimerLog
import Mathlib.Data.List.TakeWhile

/-!
# What `listExpiredCb` extracts

* `mem_expired`: without a clock rollover exactly the timers due, with one all timers.
* `listExpired_spec`: the callbacks handed out are theirs, in this order; a recurring one is
  armed again, a one-shot one loses its callback, no other changes.
-/

namespace Coroutine

open Lib

/-- A timer after its callback was handed out at `now_ms`. -/
def Timer.rearmed (now_ms : UInt64) (x : Timer) : Timer :=
  if x.m_recurring then { x with m_next := now_ms + x.m_ms } else { x with m_cb := none }

namespace TimerManager

variable {addr : ℕ ↪ ℕ} {m : TimerManager}

/-! ## Where the set is cut -/

/-- What stands before the cut is due. -/
theorem cut_due {now_ms : UInt64} {probe t : ℕ} (ht : t ∈ (m.cut addr false now_ms probe).1) :
    (m.timer t).m_next ≤ now_ms := by
  simp only [cut, Bool.false_eq_true, if_false, List.mem_append] at ht
  rw [UInt64.le_iff_toNat_le]
  rcases ht with hmem | hmem
  · have hbelow := List.mem_takeWhile_imp hmem
    unfold key Timer.Comparator at hbelow
    simp only [UInt64.lt_iff_toNat_lt] at hbelow
    split at hbelow
    · omega
    · split at hbelow
      · cases hbelow
      · omega
  · have hdue := List.mem_takeWhile_imp hmem
    simp only [beq_iff_eq] at hdue
    rw [hdue]

/-- What stands behind the cut is not due. -/
theorem not_due_of_cut (hs : OrdSet.Sorted (m.before addr) m.m_timers) {now_ms : UInt64} {probe t : ℕ}
    (ht : t ∈ (m.cut addr false now_ms probe).2) : now_ms < (m.timer t).m_next := by
  simp only [cut, Bool.false_eq_true, if_false] at ht
  set below : ℕ → Bool := fun t => Timer.Comparator (m.key addr t) (some (now_ms, probe)) with hbelow
  set due : ℕ → Bool := fun t => (m.timer t).m_next == now_ms with hdue
  set rest := m.m_timers.dropWhile below with hrest
  have hsorted : OrdSet.Sorted (m.before addr) (rest.dropWhile due) :=
    (hs.sublist (List.dropWhile_sublist _)).sublist (List.dropWhile_sublist _)
  have hrestSorted : OrdSet.Sorted (m.before addr) rest :=
    hs.sublist (List.dropWhile_sublist _)
  -- the first timer behind the probe is not below it, so its deadline is `now_ms` or later
  have hge : ∀ u ∈ rest, now_ms ≤ (m.timer u).m_next := by
    intro u hu
    cases hcons : rest with
    | nil => rw [hcons] at hu; cases hu
    | cons front tail =>
      have hfront : below front = false := by
        have hnot := List.head?_dropWhile_not below m.m_timers
        rw [← hrest, hcons] at hnot
        exact hnot
      have hnext : now_ms ≤ (m.timer front).m_next := by
        rw [UInt64.le_iff_toNat_le]
        simp only [hbelow, key, Timer.Comparator, UInt64.lt_iff_toNat_lt] at hfront
        by_contra hlt
        rw [if_pos (by omega)] at hfront
        cases hfront
      rw [hcons] at hu hrestSorted
      rcases List.mem_cons.1 hu with rfl | hu
      · exact hnext
      · have hlt := (List.pairwise_cons.1 hrestSorted).1 u hu
        rw [before_iff, UInt64.lt_iff_toNat_lt, ← UInt64.toNat_inj] at hlt
        rw [UInt64.le_iff_toNat_le] at hnext ⊢
        omega
  -- and the first one behind those due has another deadline
  cases hcons : rest.dropWhile due with
  | nil => rw [hcons] at ht; cases ht
  | cons front tail =>
    have hmem : front ∈ rest := by
      have hin : front ∈ rest.dropWhile due := by rw [hcons]; exact List.mem_cons_self
      exact List.dropWhile_subset due hin
    have hfront : now_ms < (m.timer front).m_next := by
      have hnot := List.head?_dropWhile_not due rest
      rw [hcons] at hnot
      simp only [List.head?_cons, hdue, beq_eq_false_iff_ne, ne_eq, ← UInt64.toNat_inj] at hnot
      have hle := hge front hmem
      rw [UInt64.le_iff_toNat_le] at hle
      rw [UInt64.lt_iff_toNat_lt]
      omega
    rw [hcons] at ht hsorted
    rcases List.mem_cons.1 ht with rfl | ht
    · exact hfront
    · have hlt := (List.pairwise_cons.1 hsorted).1 t ht
      rw [before_iff] at hlt
      rw [UInt64.lt_iff_toNat_lt] at hfront hlt ⊢
      rw [← UInt64.toNat_inj] at hlt
      omega

/-- The first timer of the set comes due first. -/
theorem front_le (hs : OrdSet.Sorted (m.before addr) m.m_timers) {front t : ℕ}
    (hfront : m.m_timers.head? = some front) (ht : t ∈ m.m_timers) :
    (m.timer front).m_next ≤ (m.timer t).m_next := by
  cases hcons : m.m_timers with
  | nil => rw [hcons] at ht; cases ht
  | cons u rest =>
    rw [hcons] at hfront ht hs
    cases hfront
    rw [UInt64.le_iff_toNat_le]
    rcases List.mem_cons.1 ht with rfl | ht
    · exact le_rfl
    · have hlt := (List.pairwise_cons.1 hs).1 t ht
      rw [before_iff, UInt64.lt_iff_toNat_lt, ← UInt64.toNat_inj] at hlt
      omega

/-- **What is extracted**: the timers due, or after a clock rollover all timers. -/
theorem mem_expired (hs : OrdSet.Sorted (m.before addr) m.m_timers) {now_ms : UInt64}
    {probe t : ℕ} : t ∈ m.expired addr now_ms probe ↔
      t ∈ m.m_timers ∧ (m.clockRollover now_ms = true ∨ (m.timer t).m_next ≤ now_ms) := by
  unfold expired
  by_cases hroll : m.clockRollover now_ms = true
  · rw [if_pos hroll]
    simp [cut, hroll]
  rw [if_neg hroll]
  have hcut : (m.cut addr false now_ms probe).1 ++ (m.cut addr false now_ms probe).2 =
    m.m_timers := cut_append false now_ms probe
  have hsplit : t ∈ (m.cut addr false now_ms probe).1 ↔
      t ∈ m.m_timers ∧ (m.clockRollover now_ms = true ∨ (m.timer t).m_next ≤ now_ms) := by
    rw [← hcut, List.mem_append]
    constructor
    · exact fun h => ⟨Or.inl h, Or.inr (cut_due h)⟩
    · rintro ⟨h | h, hdue⟩
      · exact h
      · have hlt := not_due_of_cut hs h
        have hle := hdue.resolve_left hroll
        rw [UInt64.lt_iff_toNat_lt] at hlt
        rw [UInt64.le_iff_toNat_le] at hle
        omega
  cases hcons : m.m_timers with
  | nil =>
    rw [hcons] at hsplit
    dsimp only
    constructor
    · intro h; cases h
    · rintro ⟨h, -⟩; cases h
  | cons front rest =>
    dsimp only
    rw [← hcons]
    split
    · rename_i hearly
      constructor
      · intro h; cases h
      · rintro ⟨ht, hdue⟩
        have hle := front_le hs (by rw [hcons]; rfl) ht
        have hdue' := hdue.resolve_left hroll
        rw [UInt64.lt_iff_toNat_lt] at hearly
        rw [UInt64.le_iff_toNat_le] at hle hdue'
        omega
    · exact hsplit

theorem expired_nodup (hs : OrdSet.Sorted (m.before addr) m.m_timers) (now_ms : UInt64)
    (probe : ℕ) : (m.expired addr now_ms probe).Nodup := by
  have hcut : ∀ b, (m.cut addr b now_ms probe).1.Nodup := by
    intro b
    have happ : (m.cut addr b now_ms probe).1 ++ (m.cut addr b now_ms probe).2 = m.m_timers :=
      cut_append b now_ms probe
    have hnd := hs.nodup
    rw [← happ] at hnd
    exact (List.nodup_append.1 hnd).1
  unfold expired
  split
  · exact hcut true
  · split
    · exact List.nodup_nil
    · split
      · exact List.nodup_nil
      · exact hcut false

/-! ## The loop -/

/-- **What the loop of `listExpiredCb` does** to the timers still to come. -/
theorem rearm_spec (now_ms : UInt64) : ∀ (rem : List ℕ) (cbs : List (Option TimerCb))
    (m : TimerManager), rem.Nodup →
    (rem.foldl (expireOne addr now_ms) (cbs, m)).1 = cbs ++ rem.map (fun t => (m.timer t).m_cb) ∧
    (∀ t, (rem.foldl (expireOne addr now_ms) (cbs, m)).2.timer t =
      if t ∈ rem then (m.timer t).rearmed now_ms else m.timer t) ∧
    (rem.foldl (expireOne addr now_ms) (cbs, m)).2.made = m.made ∧
    (rem.foldl (expireOne addr now_ms) (cbs, m)).2.m_previousTime = m.m_previousTime := by
  intro rem
  induction rem with
  | nil => intro cbs m _; simp
  | cons t rem ih =>
    intro cbs m hnd
    obtain ⟨htr, hnd'⟩ := List.nodup_cons.1 hnd
    -- one turn writes `t` back and touches no other timer
    have hone : expireOne addr now_ms (cbs, m) t =
        (cbs ++ [(m.timer t).m_cb], (expireOne addr now_ms (cbs, m) t).2) := rfl
    have htimer : ∀ i, (expireOne addr now_ms (cbs, m) t).2.timer i =
        if i = t then (m.timer t).rearmed now_ms else m.timer i := by
      intro i
      unfold expireOne Timer.rearmed
      dsimp only
      split <;> rfl
    have hmade : (expireOne addr now_ms (cbs, m) t).2.made = m.made := by
      unfold expireOne
      dsimp only
      split <;> rfl
    have hprev : (expireOne addr now_ms (cbs, m) t).2.m_previousTime = m.m_previousTime := by
      unfold expireOne
      dsimp only
      split <;> rfl
    obtain ⟨hcbs, hrest, hmade', hprev'⟩ :=
      ih (cbs ++ [(m.timer t).m_cb]) (expireOne addr now_ms (cbs, m) t).2 hnd'
    rw [List.foldl_cons, hone]
    refine ⟨?_, ?_, hmade'.trans hmade, hprev'.trans hprev⟩
    · rw [hcbs, List.map_cons, List.append_assoc, List.singleton_append]
      congr 2
      apply List.map_congr_left
      intro i hi
      have hit : i ≠ t := fun h => htr (h ▸ hi)
      rw [htimer, if_neg hit]
    · intro i
      rw [hrest, htimer]
      by_cases hit : i = t
      · subst hit
        simp [htr]
      · simp [hit]

/-- The loop puts the recurring ones back. -/
theorem mem_rearm (now_ms : UInt64) (t : ℕ) : ∀ (rem : List ℕ) (cbs : List (Option TimerCb))
    (m : TimerManager), rem.Nodup →
    (t ∈ (rem.foldl (expireOne addr now_ms) (cbs, m)).2.m_timers ↔
      t ∈ m.m_timers ∨ t ∈ rem ∧ (m.timer t).m_recurring = true) := by
  intro rem
  induction rem with
  | nil => intro cbs m _; simp
  | cons u rem ih =>
    intro cbs m hnd
    obtain ⟨hur, hnd'⟩ := List.nodup_cons.1 hnd
    have hone : expireOne addr now_ms (cbs, m) u =
        (cbs ++ [(m.timer u).m_cb], (expireOne addr now_ms (cbs, m) u).2) := rfl
    have hmem : t ∈ (expireOne addr now_ms (cbs, m) u).2.m_timers ↔
        t ∈ m.m_timers ∨ t = u ∧ (m.timer u).m_recurring = true := by
      unfold expireOne
      dsimp only
      by_cases hrec : (m.timer u).m_recurring = true
      · rw [if_pos hrec]
        have hins : t ∈ ((m.set u { m.timer u with m_next := now_ms + (m.timer u).m_ms }).insert
            addr u).m_timers ↔ t = u ∨ t ∈ m.m_timers := OrdSet.mem_insert
        rw [hins]
        grind
      · rw [if_neg hrec]
        have hset : t ∈ (m.set u { m.timer u with m_cb := none }).m_timers ↔ t ∈ m.m_timers := Iff.rfl
        rw [hset]
        grind
    have htimer : t ∈ rem → (expireOne addr now_ms (cbs, m) u).2.timer t = m.timer t := by
      intro ht
      have hne : t ≠ u := fun h => hur (h ▸ ht)
      unfold expireOne
      dsimp only
      split
      · exact set_timer_of_ne _ hne
      · exact set_timer_of_ne _ hne
    rw [List.foldl_cons, hone, ih _ _ hnd', hmem, List.mem_cons]
    by_cases htu : t = u
    · subst htu
      grind
    · by_cases htr : t ∈ rem
      · rw [htimer htr]
        grind
      · grind

/-- The loop keeps the order, as long as the timers still to come are out of the set. -/
theorem rearm_sorted (now_ms : UInt64) : ∀ (rem : List ℕ) (cbs : List (Option TimerCb))
    (m : TimerManager), rem.Nodup → (∀ t ∈ rem, t ∉ m.m_timers) →
    OrdSet.Sorted (m.before addr) m.m_timers →
    OrdSet.Sorted ((rem.foldl (expireOne addr now_ms) (cbs, m)).2.before addr)
      (rem.foldl (expireOne addr now_ms) (cbs, m)).2.m_timers := by
  intro rem
  induction rem with
  | nil => intro cbs m _ _ hs; exact hs
  | cons u rem ih =>
    intro cbs m hnd hout hs
    obtain ⟨hur, hnd'⟩ := List.nodup_cons.1 hnd
    have hu := hout u List.mem_cons_self
    have hone : expireOne addr now_ms (cbs, m) u =
        (cbs ++ [(m.timer u).m_cb], (expireOne addr now_ms (cbs, m) u).2) := rfl
    rw [List.foldl_cons, hone]
    refine ih _ _ hnd' ?_ ?_
    · intro t ht hmem
      have hnot := hout t (List.mem_cons_of_mem u ht)
      have hone' := (mem_rearm now_ms t [u] cbs m (List.pairwise_singleton _ u)).1 hmem
      rcases hone' with hold | ⟨hnew, -⟩
      · exact hnot hold
      · rw [List.mem_singleton] at hnew
        exact hur (hnew ▸ ht)
    · unfold expireOne
      dsimp only
      split
      · exact OrdSet.insert_sorted (sorted_set hs hu)
      · exact sorted_set hs hu

/-- **The scan**: what is handed out, and what it leaves of the store. -/
structure Scans (addr : ℕ ↪ ℕ) (m : TimerManager) (now_ms : UInt64) (probe : ℕ)
    (cbs : List (Option TimerCb)) (m' : TimerManager) : Prop where
  cbs : cbs = (m.expired addr now_ms probe).map fun t => (m.timer t).m_cb
  timer : ∀ t, m'.timer t =
    if t ∈ m.expired addr now_ms probe then (m.timer t).rearmed now_ms else m.timer t
  made : m'.made = m.made
  mem : ∀ t, t ∈ m'.m_timers ↔ t ∈ m.m_timers ∧
    (t ∈ m.expired addr now_ms probe → (m.timer t).m_recurring = true)
  sorted : OrdSet.Sorted (m'.before addr) m'.m_timers

/-- A scan that extracts nothing. -/
theorem Scans.of_nil {now_ms : UInt64} {probe : ℕ} {m' : TimerManager}
    (hs : OrdSet.Sorted (m.before addr) m.m_timers) (hnone : m.expired addr now_ms probe = [])
    (htimer : m'.timer = m.timer) (hmade : m'.made = m.made) (htimers : m'.m_timers = m.m_timers) :
    m.Scans addr now_ms probe [] m' := by
  refine ⟨?_, ?_, hmade, ?_, ?_⟩
  · rw [hnone]; rfl
  · intro t; rw [hnone, htimer]; rfl
  · intro t; rw [hnone, htimers]; simp
  · have hbefore : m'.before addr = m.before addr := by unfold before key; rw [htimer]
    rw [htimers, hbefore]
    exact hs

theorem listExpired_scans (hs : OrdSet.Sorted (m.before addr) m.m_timers) {now_ms : UInt64}
    {probe : ℕ} {cbs : List (Option TimerCb)} {m' : TimerManager}
    (h : m.listExpired addr now_ms probe = .ok (cbs, m')) :
    m.Scans addr now_ms probe cbs m' ∧ m'.m_previousTime = now_ms := by
  have hloop : ∀ b, m.expired addr now_ms probe = (m.cut addr b now_ms probe).1 →
      .ok ((({ m with m_previousTime := now_ms } : TimerManager).expire addr b now_ms probe)) =
        (.ok (cbs, m') : Except Fault _) →
      m.Scans addr now_ms probe cbs m' ∧ m'.m_previousTime = now_ms := by
    intro b hb hok
    have hcut : (m.cut addr b now_ms probe).1 ++ (m.cut addr b now_ms probe).2 = m.m_timers :=
      cut_append b now_ms probe
    have hsplit := hs
    rw [← hcut] at hsplit
    have hdis := (List.nodup_append.1 hsplit.nodup).2.2
    have hnd := expired_nodup hs now_ms probe
    rw [hb] at hnd
    obtain ⟨hcbs, htimer, hmade, hprev⟩ := @rearm_spec addr now_ms
      (m.cut addr b now_ms probe).1 []
      { m with m_previousTime := now_ms, m_timers := (m.cut addr b now_ms probe).2 } hnd
    have hmem := fun t => @mem_rearm addr now_ms t (m.cut addr b now_ms probe).1 []
      { m with m_previousTime := now_ms, m_timers := (m.cut addr b now_ms probe).2 } hnd
    have hsorted := @rearm_sorted addr now_ms (m.cut addr b now_ms probe).1 []
      { m with m_previousTime := now_ms, m_timers := (m.cut addr b now_ms probe).2 } hnd
      (fun t ht h => hdis t ht t h rfl) (List.pairwise_append.1 hsplit).2.1
    have heq : (m.cut addr b now_ms probe).1.foldl (expireOne addr now_ms)
        ([], { m with m_previousTime := now_ms, m_timers := (m.cut addr b now_ms probe).2 }) =
        (cbs, m') := Except.ok.inj hok
    rw [heq] at hcbs htimer hmade hprev hmem hsorted
    refine ⟨⟨?_, ?_, hmade, ?_, hsorted⟩, hprev⟩
    · rw [hb]; exact hcbs
    · rw [hb]; exact htimer
    · intro t
      -- what was cut off comes back only if it recurs, what stands behind the cut was not cut off
      rw [hmem, hb, ← hcut, List.mem_append]
      have hexcl : t ∈ (m.cut addr b now_ms probe).1 → t ∉ (m.cut addr b now_ms probe).2 :=
        fun ht h => hdis t ht t h rfl
      grind
  rw [listExpired_eq] at h
  dsimp only at h
  split at h
  · rename_i hroll
    exact hloop true (by unfold expired; rw [if_pos hroll]) h
  · rename_i hroll
    split at h
    · cases h
    · rename_i front rest hcons
      split at h
      · rename_i hearly
        cases h
        have hnone : m.expired addr now_ms probe = [] := by
          unfold expired
          rw [if_neg hroll, hcons]
          exact if_pos hearly
        exact ⟨Scans.of_nil hs hnone rfl rfl rfl, rfl⟩
      · rename_i hlate
        refine hloop false ?_ h
        unfold expired
        rw [if_neg hroll, hcons]
        exact if_neg hlate

theorem listExpiredCb_scans (hs : OrdSet.Sorted (m.before addr) m.m_timers) {now_ms : UInt64}
    {probe : ℕ} {cbs : List (Option TimerCb)} {m' : TimerManager}
    (h : m.listExpiredCb addr now_ms probe = .ok (cbs, m')) :
    m.Scans addr now_ms probe cbs m' := by
  unfold listExpiredCb at h
  split at h
  · rename_i hnil
    cases h
    have hnone : m.expired addr now_ms probe = [] := by
      rw [List.eq_nil_iff_forall_not_mem]
      intro t ht
      have hmem := ((mem_expired hs).1 ht).1
      rw [hnil] at hmem
      cases hmem
    exact Scans.of_nil hs hnone rfl rfl rfl
  · exact (listExpired_scans hs h).1

/-! ## On a well-formed store -/

/-- **The extraction.** -/
structure Extracts (addr : ℕ ↪ ℕ) (m : TimerManager) (now_ms : UInt64) (probe : ℕ)
    (cbs : List (Option TimerCb)) (m' : TimerManager) : Prop where
  cbs : cbs = (m.expired addr now_ms probe).map fun t => (m.timer t).m_cb
  timer : ∀ t, m'.timer t =
    if t ∈ m.expired addr now_ms probe then (m.timer t).rearmed now_ms else m.timer t
  made : m'.made = m.made
  wf : m'.WF addr

theorem listExpired_spec (hm : m.WF addr) {now_ms : UInt64} {probe : ℕ}
    {cbs : List (Option TimerCb)} {m' : TimerManager}
    (h : m.listExpired addr now_ms probe = .ok (cbs, m')) :
    m.Extracts addr now_ms probe cbs m' ∧ m'.m_previousTime = now_ms := by
  obtain ⟨hscan, hprev⟩ := listExpired_scans hm.sorted h
  exact ⟨⟨hscan.cbs, hscan.timer, hscan.made, listExpired_wf hm h⟩, hprev⟩

theorem listExpiredCb_spec (hm : m.WF addr) {now_ms : UInt64} {probe : ℕ}
    {cbs : List (Option TimerCb)} {m' : TimerManager}
    (h : m.listExpiredCb addr now_ms probe = .ok (cbs, m')) :
    m.Extracts addr now_ms probe cbs m' := by
  have hscan := listExpiredCb_scans hm.sorted h
  obtain ⟨cbs', m'', h', hwf⟩ := listExpiredCb_ok hm now_ms probe
  rw [h] at h'
  cases h'
  exact ⟨hscan.cbs, hscan.timer, hscan.made, hwf⟩

/-- After the extraction the set holds the timers it held, less the one-shot ones extracted. -/
theorem Extracts.mem_iff {now_ms : UInt64} {probe : ℕ} {cbs : List (Option TimerCb)}
    {m' : TimerManager} (hm : m.WF addr) (h : m.Extracts addr now_ms probe cbs m') (t : ℕ) :
    t ∈ m'.m_timers ↔ t ∈ m.m_timers ∧
      (t ∈ m.expired addr now_ms probe → (m.timer t).m_recurring = true) := by
  rw [h.wf.armed, h.timer]
  by_cases ht : t ∈ m.expired addr now_ms probe
  · have hmem := ((mem_expired hm.sorted).1 ht).1
    have hsome := (hm.armed t).1 hmem
    rw [if_pos ht]
    unfold Timer.rearmed
    by_cases hrec : (m.timer t).m_recurring = true
    · simp [hrec, hmem, hsome]
    · simp [hrec, ht]
  · rw [if_neg ht, ← hm.armed]
    simp [ht]

end TimerManager

end Coroutine
