import Coroutine.Proof.TimerExpiry

/-!
# The scan for expired timers

`listExpiredCb` cuts `m_timers` at a place found with a probe, and puts the recurring
timers back into the set it just cut.

* `scan_exact`: it hands out the due timers, once each and in the order of their deadlines,
  re-arms the recurring ones and leaves all others alone.
* `wait_exact`: after a wait of what `getNextTimer` answered it hands out something, and not
  before.
-/

namespace Coroutine

open Lib

namespace TimerManager

variable {addr : ℕ ↪ ℕ} {m : TimerManager}

/-! ## What the scan extracts -/

/-- The set is in the order of the deadlines. -/
theorem sorted_next (hs : OrdSet.Sorted (m.before addr) m.m_timers) :
    m.m_timers.Pairwise fun t t' => (m.timer t).m_next ≤ (m.timer t').m_next := by
  refine hs.imp ?_
  intro t t' hlt
  rw [before_iff, UInt64.lt_iff_toNat_lt, ← UInt64.toNat_inj] at hlt
  rw [UInt64.le_iff_toNat_le]
  omega

/-- What is extracted is a first part of the set. -/
theorem expired_prefix (m : TimerManager) (now_ms : UInt64) (probe : ℕ) :
    m.expired addr now_ms probe <+: m.m_timers := by
  have hcut : ∀ b, (m.cut addr b now_ms probe).1 <+: m.m_timers := by
    intro b
    have happ : (m.cut addr b now_ms probe).1 ++ (m.cut addr b now_ms probe).2 = m.m_timers :=
      cut_append b now_ms probe
    exact ⟨_, happ⟩
  unfold expired
  split
  · exact hcut true
  · split
    · exact List.nil_prefix
    · split
      · exact List.nil_prefix
      · exact hcut false

/-- The scan is defined, on an empty set too. -/
theorem listExpiredCb_defined (addr : ℕ ↪ ℕ) (m : TimerManager) (now_ms : UInt64) (probe : ℕ) :
    ∃ cbs m', m.listExpiredCb addr now_ms probe = .ok (cbs, m') := by
  unfold listExpiredCb
  by_cases hnil : m.m_timers = []
  · rw [if_pos hnil]
    exact ⟨_, _, rfl⟩
  · rw [if_neg hnil]
    obtain ⟨⟨cbs, m'⟩, h⟩ : ∃ r, m.listExpired addr now_ms probe = .ok r := listExpired_ok hnil
    exact ⟨cbs, m', h⟩

/-- **The scan extracts exactly the due timers**, or all timers after a clock rollover: each once
and in the order of their deadlines. The one-shot ones are then out of the set and without a
callback, the recurring ones in it and armed again, the others as they were. -/
theorem scan_exact (hs : OrdSet.Sorted (m.before addr) m.m_timers) (now_ms : UInt64) (probe : ℕ) :
    ∃ (ts : List ℕ) (m' : TimerManager),
      m.listExpiredCb addr now_ms probe = .ok (ts.map fun t => (m.timer t).m_cb, m') ∧
      ts.Nodup ∧ ts.Pairwise (fun t t' => (m.timer t).m_next ≤ (m.timer t').m_next) ∧
      (∀ t, t ∈ ts ↔
        t ∈ m.m_timers ∧ (m.clockRollover now_ms = true ∨ (m.timer t).m_next ≤ now_ms)) ∧
      (∀ t ∈ ts, (m.timer t).m_recurring = false →
        t ∉ m'.m_timers ∧ m'.timer t = { m.timer t with m_cb := none }) ∧
      (∀ t ∈ ts, (m.timer t).m_recurring = true →
        t ∈ m'.m_timers ∧ m'.timer t = { m.timer t with m_next := now_ms + (m.timer t).m_ms }) ∧
      (∀ t, t ∉ ts → m'.timer t = m.timer t ∧ (t ∈ m'.m_timers ↔ t ∈ m.m_timers)) ∧
      OrdSet.Sorted (m'.before addr) m'.m_timers := by
  obtain ⟨cbs, m', h⟩ := listExpiredCb_defined addr m now_ms probe
  have hscan := listExpiredCb_scans hs h
  have hsub : m.expired addr now_ms probe <+: m.m_timers := expired_prefix m now_ms probe
  refine ⟨m.expired addr now_ms probe, m', ?_, expired_nodup hs now_ms probe,
    (sorted_next hs).sublist hsub.sublist, fun t => mem_expired hs, ?_, ?_, ?_, hscan.sorted⟩
  · rw [h, hscan.cbs]
  · intro t ht hone
    refine ⟨?_, ?_⟩
    · rw [hscan.mem]
      rintro ⟨-, hrec⟩
      rw [hrec ht] at hone
      cases hone
    · have hnot : ¬ (m.timer t).m_recurring = true := by rw [hone]; decide
      rw [hscan.timer, if_pos ht, Timer.rearmed, if_neg hnot]
  · intro t ht hrec
    refine ⟨(hscan.mem t).2 ⟨hsub.subset ht, fun _ => hrec⟩, ?_⟩
    rw [hscan.timer, if_pos ht, Timer.rearmed, if_pos hrec]
  · intro t ht
    refine ⟨by rw [hscan.timer, if_neg ht], ?_⟩
    rw [hscan.mem]
    exact ⟨fun h => h.1, fun h => ⟨h, fun hexp => absurd hexp ht⟩⟩

/-- Two timers due at 5 ms, one of them recurring without a period, and one due later. -/
def threeTimers : TimerManager where
  timer := fun t => if t = 0 then ⟨true, 0, 5, some (.fn 10)⟩ else
    if t = 1 then ⟨false, 2, 5, some (.fn 11)⟩ else if t = 2 then ⟨false, 9, 9, some (.fn 12)⟩ else {}
  made := 3
  m_timers := [0, 1, 2]
  m_tickled := false
  m_previousTime := 0

theorem scan_exact_three : ∃ (ts : List ℕ) (m' : TimerManager),
    threeTimers.listExpiredCb (.refl ℕ) 5 1 = .ok (ts.map fun t => (threeTimers.timer t).m_cb, m') ∧
      ts.Nodup ∧ 0 ∈ m'.m_timers ∧ 1 ∉ m'.m_timers ∧ 2 ∈ m'.m_timers := by
  obtain ⟨ts, m', h, hnd, -, hmem, hone, hrec, hleft, -⟩ :=
    @scan_exact (.refl ℕ) threeTimers (by decide) 5 1
  have h0 : 0 ∈ ts := (hmem 0).2 (by decide)
  have h1 : 1 ∈ ts := (hmem 1).2 (by decide)
  have h2 : 2 ∉ ts := fun h => absurd ((hmem 2).1 h) (by decide)
  exact ⟨ts, m', h, hnd, (hrec 0 h0 (by decide)).1, (hone 1 h1 (by decide)).1,
    (hleft 2 h2).2.2 (by decide)⟩

/-! ## What `getNextTimer` answers -/

/-- The answer of `getNextTimer`, from the timer due first. -/
theorem getNextTimer_fst (now_ms : UInt64) : (m.getNextTimer now_ms).1 =
    match m.m_timers with
    | [] => ~~~ 0
    | next :: _ =>
      if (m.timer next).m_next ≤ now_ms then 0 else (m.timer next).m_next - now_ms := by
  unfold getNextTimer
  dsimp only
  cases m.m_timers with
  | nil => rfl
  | cons next rest =>
    dsimp only
    split <;> rfl

/-- **A timer set answers with the time until the first deadline**, never with the mark for none. -/
theorem getNextTimer_cons {front : ℕ} (hfront : m.m_timers.head? = some front) {now_ms : UInt64}
    (hnow : 0 < now_ms) : (m.getNextTimer now_ms).1 ≠ ~~~ 0 ∧ (m.getNextTimer now_ms).1.toNat =
      (m.timer front).m_next.toNat - now_ms.toNat := by
  have hnext := (m.timer front).m_next.toNat_lt
  have hnow' := now_ms.toNat_lt
  have hmax : (~~~ 0 : UInt64).toNat = 2 ^ 64 - 1 := rfl
  rw [UInt64.lt_iff_toNat_lt] at hnow
  have hzero : (0 : UInt64).toNat = 0 := rfl
  rw [getNextTimer_fst]
  cases hcons : m.m_timers with
  | nil => rw [hcons] at hfront; cases hfront
  | cons next rest =>
    rw [hcons] at hfront
    cases hfront
    dsimp only
    rw [ne_eq, ← UInt64.toNat_inj]
    split
    · rename_i hle
      rw [UInt64.le_iff_toNat_le] at hle
      omega
    · rename_i hle
      rw [UInt64.le_iff_toNat_le] at hle
      rw [UInt64.toNat_sub_of_le _ _ (by rw [UInt64.le_iff_toNat_le]; omega)]
      omega

/-- **The wait that `getNextTimer` asks for is the shortest after which the scan hands out a
callback**, and it asks for none exactly when no timer is armed. -/
theorem wait_exact (hs : OrdSet.Sorted (m.before addr) m.m_timers) {t t' : UInt64} (ht : 0 < t)
    (htt' : t ≤ t') (probe : ℕ) (hroll : (m.getNextTimer t).2.clockRollover t' = false) :
    (∃ cbs m', (m.getNextTimer t).2.listExpiredCb addr t' probe = .ok (cbs, m') ∧
      (cbs ≠ [] ↔
        (m.getNextTimer t).1 ≠ ~~~ 0 ∧ t.toNat + (m.getNextTimer t).1.toNat ≤ t'.toNat)) ∧
      ((m.getNextTimer t).1 = ~~~ 0 ↔ m.m_timers = []) := by
  rw [getNextTimer_eq] at hroll ⊢
  have hs' : OrdSet.Sorted (({ m with m_tickled := false } : TimerManager).before addr)
      ({ m with m_tickled := false } : TimerManager).m_timers := hs
  obtain ⟨cbs, m', h⟩ :=
    listExpiredCb_defined addr { m with m_tickled := false } t' probe
  have hscan := listExpiredCb_scans hs' h
  -- something is handed out exactly when some timer of the set is due
  have hsome : cbs ≠ [] ↔ ∃ u ∈ m.m_timers, (m.timer u).m_next ≤ t' := by
    rw [hscan.cbs, ne_eq, List.map_eq_nil_iff, List.eq_nil_iff_forall_not_mem, not_forall]
    apply exists_congr
    intro u
    rw [not_not, mem_expired hs', hroll]
    simp
  refine ⟨⟨cbs, m', h, ?_⟩, ?_⟩
  · rw [hsome]
    cases hcons : m.m_timers with
    | nil =>
      have hnone : (m.getNextTimer t).1 = ~~~ 0 := by rw [getNextTimer_fst, hcons]
      simp [hnone]
    | cons front rest =>
      have hfront : m.m_timers.head? = some front := by rw [hcons]; rfl
      obtain ⟨hne, hd⟩ := getNextTimer_cons hfront ht
      rw [UInt64.le_iff_toNat_le] at htt'
      rw [← hcons]
      constructor
      · rintro ⟨u, hu, hdue⟩
        have hle := front_le hs hfront hu
        rw [UInt64.le_iff_toNat_le] at hle hdue
        exact ⟨hne, by omega⟩
      · rintro ⟨-, hwait⟩
        refine ⟨front, by rw [hcons]; exact List.mem_cons_self, ?_⟩
        rw [UInt64.le_iff_toNat_le]
        omega
  · constructor
    · intro hnone
      cases hcons : m.m_timers with
      | nil => rfl
      | cons front rest =>
        have hfront : m.m_timers.head? = some front := by rw [hcons]; rfl
        exact absurd hnone (getNextTimer_cons hfront ht).1
    · intro hnil
      rw [getNextTimer_fst, hnil]

theorem wait_exact_three : (∃ cbs m',
    (threeTimers.getNextTimer 2).2.listExpiredCb (.refl ℕ) 5 1 = .ok (cbs, m') ∧ cbs ≠ []) ∧
      (threeTimers.getNextTimer 2).1 ≠ ~~~ 0 := by
  obtain ⟨⟨cbs, m', h, hsome⟩, hnone⟩ := @wait_exact (.refl ℕ) threeTimers
    (by decide) 2 5 (by decide) (by decide) 1 (by decide)
  exact ⟨⟨cbs, m', h, hsome.2 (by decide)⟩, fun h => absurd (hnone.1 h) (by decide)⟩

end TimerManager

end Coroutine
