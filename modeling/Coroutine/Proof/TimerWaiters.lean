import Coroutine.Lib.Run
import Coroutine.Proof.TimerExpiry
import Coroutine.Proof.TimerFront
import Coroutine.Spec.TimerWaiters

/-!
# What `m_tickled` hides from waiting threads

Only an insertion at the front and a `listExpiredCb` that takes the clock for rolled over can
bring the first deadline forward (`defers_of_timers`): `refresh` and recurrence arm a timer
from a clock at which it was armed before. The former calls `onTimerInsertedAtFront`, or finds
`m_tickled` set by an insertion that did so after every waiter's last `getNextTimer`.

* `step_alert`: so nothing is hidden as long as `listExpiredCb` re-arms with a clock that is
  no older than the arming (`Fresh`).
* `nothing_hidden`: so it is in runs. A reading that is still the clock is never too old
  (`fresh_of_current`).
-/

namespace Coroutine

open Lib

namespace TimerManager

variable {addr : ℕ ↪ ℕ} {m m' : TimerManager}

/-! ## The first deadline -/

theorem nextDeadline_le (hm : m.WF addr) {t : ℕ} (ht : t ∈ m.m_timers) :
    m.nextDeadline ≤ ((m.timer t).m_next.toNat : WithTop ℕ) := by
  unfold nextDeadline
  cases hcons : m.m_timers with
  | nil => rw [hcons] at ht; cases ht
  | cons front rest =>
    have hle := front_le hm.sorted (by rw [hcons]; rfl) ht
    rw [UInt64.le_iff_toNat_le] at hle
    exact WithTop.coe_le_coe.2 hle

/-- **A set whose timers were all in the other one, and due no later, comes due no earlier.** -/
theorem nextDeadline_mono (hm : m.WF addr) (h : ∀ t ∈ m'.m_timers, t ∈ m.m_timers ∧
    (m.timer t).m_next.toNat ≤ (m'.timer t).m_next.toNat) : m.nextDeadline ≤ m'.nextDeadline := by
  cases hcons : m'.m_timers with
  | nil =>
    have htop : m'.nextDeadline = ⊤ := by simp [nextDeadline, hcons]
    rw [htop]
    exact le_top
  | cons front rest =>
    obtain ⟨hmem, hle⟩ := h front (by rw [hcons]; exact List.mem_cons_self)
    have hfront : m'.nextDeadline = ((m'.timer front).m_next.toNat : WithTop ℕ) := by
      simp [nextDeadline, hcons]
    rw [hfront]
    exact (nextDeadline_le hm hmem).trans (WithTop.coe_le_coe.2 hle)

/-- An insertion goes on to `onTimerInsertedAtFront`, finds `m_tickled` set, or leaves another
timer in front. -/
theorem addTimerPtr_next (val : ℕ) : (m.addTimerPtr addr val).2 = true ∨ m.m_tickled = true ∨
    ∃ u ∈ m.m_timers, u ≠ val ∧
      (m.addTimerPtr addr val).1.nextDeadline = ((m.timer u).m_next.toNat : WithTop ℕ) := by
  cases hcons : (m.addTimerPtr addr val).1.m_timers with
  | nil =>
    rw [addTimerPtr_timers] at hcons
    exact absurd hcons (OrdSet.insert_ne_nil _ _)
  | cons u rest =>
    by_cases hu : u = val
    · have hfront : (m.addTimerPtr addr val).2 = true ∨ m.m_tickled = true :=
        addTimerPtr_front (by rw [hcons, hu]; rfl)
      exact hfront.imp_right Or.inl
    · have hmem : u ∈ (m.insert addr val).m_timers := by
        rw [← addTimerPtr_timers, hcons]; exact List.mem_cons_self
      refine Or.inr (Or.inr ⟨u, (OrdSet.mem_insert.1 hmem).resolve_left hu, hu, ?_⟩)
      simp only [nextDeadline, hcons, addTimerPtr_timer]

/-- `getNextTimer` answers `~0` for no timer, or for one as far away as a clock can say. -/
theorem getNextTimer_none {now_ms : UInt64} (h : (m.getNextTimer now_ms).1 = ~~~ 0) :
    m.m_timers = [] ∨ now_ms = 0 ∧ ∃ front ∈ m.m_timers.head?, (m.timer front).m_next = ~~~ 0 := by
  unfold getNextTimer at h
  cases hcons : m.m_timers with
  | nil => exact Or.inl rfl
  | cons front rest =>
    right
    simp only [hcons] at h
    split at h
    · have hfalse : (0 : UInt64) = ~~~ 0 := h
      exact absurd hfalse (by decide)
    · rename_i hlate
      have hdist : ((m.timer front).m_next - now_ms).toNat = 2 ^ 64 - 1 := congrArg UInt64.toNat h
      rw [UInt64.le_iff_toNat_le] at hlate
      rw [UInt64.toNat_sub_of_le _ _ (UInt64.le_iff_toNat_le.2 (by omega))] at hdist
      have hbound := (m.timer front).m_next.toNat_lt
      refine ⟨UInt64.toNat_inj.1 ?_, front, rfl, UInt64.toNat_inj.1 ?_⟩
      · show now_ms.toNat = 0
        omega
      · show (m.timer front).m_next.toNat = 2 ^ 64 - 1
        omega

end TimerManager

/-- The clock a thread has read for the call it is in. -/
def WaiterPc.reading : WaiterPc → Option UInt64
  | .made now _ _ _ => some now
  | .read now_ms | .checked now_ms => some now_ms
  | _ => none

namespace TimerWaiters

variable {Th : Type} {addr : ℕ ↪ ℕ} {s s' : TimerWaiters Th}

/-- `onTimerInsertedAtFront` was called since `w` last called `getNextTimer`, or is about to be
called by a thread that has released the lock. -/
def Told (s : TimerWaiters Th) (w : Th) : Prop :=
  s.notified w = true ∨ ∃ th, s.pc th = .notify

/-- **No earlier deadline is hidden**: where the first deadline is now earlier than it was at
a thread's last `getNextTimer`, that thread was told. -/
def NothingHidden (s : TimerWaiters Th) : Prop :=
  ∀ w deadline, s.seen w = some deadline → s.m.nextDeadline < deadline → s.Told w

/-- The sum of the section a thread is to enter takes no more than 64 bits. -/
def SectionFits (addr : ℕ ↪ ℕ) (m : TimerManager) (probe : ℕ) : WaiterPc → Prop
  | .made now ms _ _ => now.toNat + ms.toNat < 2 ^ 64
  | .checked now_ms => ∀ t ∈ m.expired addr now_ms probe, (m.timer t).m_recurring = true →
    now_ms.toNat + (m.timer t).m_ms.toNat < 2 ^ 64
  | _ => True

/-- No sum of the step takes more than 64 bits. -/
def Fits (addr : ℕ ↪ ℕ) (s : TimerWaiters Th) : WaiterAct Th → Prop
  | .tick _ => True
  | .call th (.refresh t) => s.pc th = .out → t ∈ s.m.m_timers →
    s.clock.toNat + (s.m.timer t).m_ms.toNat < 2 ^ 64
  | .call th (.reset ms from_now t) => s.pc th = .out → t ∈ s.m.m_timers →
    ¬ (ms = (s.m.timer t).m_ms ∧ from_now = false) →
    (if from_now then s.clock else (s.m.timer t).m_next - (s.m.timer t).m_ms).toNat + ms.toNat < 2 ^ 64
  | .call _ _ => True
  | .go th probe => SectionFits addr s.m probe (s.pc th)

/-- The clock a thread extracts with is not older than a recurring timer, if it takes the clock
for rolled over. -/
def SectionFresh (m : TimerManager) : WaiterPc → Prop
  | .checked now_ms => m.clockRollover now_ms = true → ∀ t ∈ m.m_timers,
    (m.timer t).m_recurring = true → (m.timer t).m_next.toNat ≤ now_ms.toNat + (m.timer t).m_ms.toNat
  | _ => True

/-- **The clock `listExpiredCb` works with is not too old**: if it takes the clock for rolled
over, no recurring timer was armed after the reading. And no `getNextTimer` is to answer `~0`
for a timer. -/
def Fresh (s : TimerWaiters Th) : WaiterAct Th → Prop
  | .call th .getNextTimer => s.pc th = .out → s.clock = 0 →
    ∀ front ∈ s.m.m_timers.head?, (s.m.timer front).m_next ≠ ~~~ 0
  | .go th _ => SectionFresh s.m (s.pc th)
  | _ => True

instance [Fintype Th] (s : TimerWaiters Th) (w : Th) : Decidable (s.Told w) :=
  inferInstanceAs (Decidable (_ ∨ ∃ _, _))

instance (addr : ℕ ↪ ℕ) (m : TimerManager) (probe : ℕ) : DecidablePred (SectionFits addr m probe)
  | .made _ _ _ _ => inferInstanceAs (Decidable (_ < _))
  | .checked _ => inferInstanceAs (Decidable (∀ _ ∈ _, _ → _))
  | .out | .notify | .read _ => isTrue trivial

instance (m : TimerManager) : DecidablePred (SectionFresh m)
  | .checked _ => inferInstanceAs (Decidable (_ → ∀ _ ∈ _, _ → _))
  | .out | .notify | .read _ | .made _ _ _ _ => isTrue trivial

instance (addr : ℕ ↪ ℕ) (s : TimerWaiters Th) : DecidablePred (s.Fits addr)
  | .tick _ => isTrue trivial
  | .call _ (.refresh _) => inferInstanceAs (Decidable (_ → _ → _))
  | .call _ (.reset _ _ _) => inferInstanceAs (Decidable (_ → _ → _ → _))
  | .call _ (.addTimer _ _ _) | .call _ (.cancel _) | .call _ .getNextTimer
  | .call _ .listExpiredCb => isTrue trivial
  | .go _ _ => inferInstanceAs (Decidable (SectionFits _ _ _ _))

instance (s : TimerWaiters Th) : DecidablePred s.Fresh
  | .call _ .getNextTimer => inferInstanceAs (Decidable (_ → _ → ∀ _ ∈ _, _))
  | .call _ (.addTimer _ _ _) | .call _ (.cancel _) | .call _ (.refresh _) | .call _ (.reset _ _ _)
  | .call _ .listExpiredCb | .tick _ => isTrue trivial
  | .go _ _ => inferInstanceAs (Decidable (SectionFresh _ _))

/-! ## What a section does to the deadlines -/

/-- A store all of whose deadlines are times that were, and the period after. -/
structure Timely (addr : ℕ ↪ ℕ) (m : TimerManager) (clock : UInt64) : Prop where
  wf : m.WF addr
  period : ∀ t ∈ m.m_timers, (m.timer t).m_ms.toNat ≤ (m.timer t).m_next.toNat
  armed : ∀ t ∈ m.m_timers, (m.timer t).m_next.toNat ≤ clock.toNat + (m.timer t).m_ms.toNat

/-- **Writing a timer with an exact sum from a clock that was keeps the deadlines so.** -/
theorem Timely.of_timers {m m' : TimerManager} {clock : UInt64} (hm : Timely addr m clock)
    (hwf : m'.WF addr) (h : ∀ t ∈ m'.m_timers, t ∈ m.m_timers ∧ m'.timer t = m.timer t ∨
      ∃ start : UInt64, start.toNat ≤ clock.toNat ∧
        (m'.timer t).m_next = start + (m'.timer t).m_ms ∧
        start.toNat + (m'.timer t).m_ms.toNat < 2 ^ 64) : Timely addr m' clock := by
  have hexact : ∀ t ∈ m'.m_timers, (m'.timer t).m_ms.toNat ≤ (m'.timer t).m_next.toNat ∧
      (m'.timer t).m_next.toNat ≤ clock.toNat + (m'.timer t).m_ms.toNat := by
    intro t ht
    rcases h t ht with ⟨hold, heq⟩ | ⟨start, hle, hnext, hfits⟩
    · rw [heq]; exact ⟨hm.period t hold, hm.armed t hold⟩
    · have hsum : (m'.timer t).m_next.toNat = start.toNat + (m'.timer t).m_ms.toNat := by
        rw [hnext, UInt64.toNat_add]
        exact Nat.mod_eq_of_lt hfits
      omega
  exact ⟨hwf, fun t ht => (hexact t ht).1, fun t ht => (hexact t ht).2⟩

/-- A section that brings no deadline forward. -/
structure Defers (addr : ℕ ↪ ℕ) (m m' : TimerManager) (clock : UInt64) : Prop where
  timely : Timely addr m' clock
  deadline : m.nextDeadline ≤ m'.nextDeadline
  tickled : m'.m_tickled = true → m.m_tickled = true

section Deadlines

variable {m m' : TimerManager} {clock : UInt64}

theorem Timely.defers (hm : Timely addr m clock) : Defers addr m m clock := ⟨hm, le_rfl, id⟩

/-- **Taking timers out and arming others again no earlier brings no deadline forward.** -/
theorem defers_of_timers (hm : Timely addr m clock) (hwf : m'.WF addr)
    (htickled : m'.m_tickled = m.m_tickled) (h : ∀ t ∈ m'.m_timers, t ∈ m.m_timers ∧
      (m'.timer t = m.timer t ∨ ∃ start : UInt64, start.toNat ≤ clock.toNat ∧
        m'.timer t = { m.timer t with m_next := start + (m.timer t).m_ms } ∧
        start.toNat + (m.timer t).m_ms.toNat < 2 ^ 64 ∧
        (m.timer t).m_next.toNat ≤ start.toNat + (m.timer t).m_ms.toNat)) :
    Defers addr m m' clock := by
  refine ⟨hm.of_timers hwf fun t ht => ?_, TimerManager.nextDeadline_mono hm.wf fun t ht => ?_,
    fun h => htickled ▸ h⟩
  · obtain ⟨hin, heq | ⟨start, hle, heq, hfits, -⟩⟩ := h t ht
    · exact Or.inl ⟨hin, heq⟩
    · refine Or.inr ⟨start, hle, ?_, ?_⟩ <;> rw [heq]
      exact hfits
  · obtain ⟨hin, heq | ⟨start, -, heq, hfits, hlater⟩⟩ := h t ht
    · exact ⟨hin, by rw [heq]⟩
    · refine ⟨hin, ?_⟩
      rw [heq]
      show _ ≤ (start + (m.timer t).m_ms).toNat
      rw [UInt64.toNat_add, Nat.mod_eq_of_lt hfits]
      exact hlater

theorem cancel_defers (hm : Timely addr m clock) {t : ℕ} {b : Bool}
    (h : m.cancel addr t = .ok (b, m')) : Defers addr m m' clock := by
  obtain ⟨b', m'', hok, hwf⟩ := TimerManager.cancel_ok hm.wf t
  rw [h] at hok
  cases hok
  rcases TimerManager.cancel_cases hm.wf t with ⟨-, heq⟩ | ⟨ht, heq⟩
  · rw [h] at heq
    cases heq
    exact hm.defers
  · rw [h] at heq
    cases heq
    refine defers_of_timers hm hwf rfl fun i hi => ?_
    obtain ⟨hit, hin⟩ := (List.Nodup.mem_erase_iff hm.wf.sorted.nodup).1 hi
    exact ⟨hin, Or.inl (TimerManager.set_timer_of_ne _ hit)⟩

/-- `refresh` arms a timer no earlier, as it was armed no later than now. -/
theorem refresh_defers (hm : Timely addr m clock) (t : ℕ)
    (hfits : t ∈ m.m_timers → clock.toNat + (m.timer t).m_ms.toNat < 2 ^ 64) :
    Defers addr m (m.refresh addr clock t).2 clock := by
  have hwf := TimerManager.refresh_wf hm.wf clock t
  rcases TimerManager.refresh_cases hm.wf clock t with ⟨-, heq⟩ | ⟨ht, heq⟩
  · rw [heq]
    exact hm.defers
  · rw [heq] at hwf ⊢
    refine defers_of_timers hm hwf rfl fun i hi => ?_
    have hin := (TimerManager.mem_reinsert hm.wf.sorted ht _ i).1 hi
    refine ⟨hin, ?_⟩
    rw [TimerManager.reinsert_timer]
    by_cases hit : i = t
    · -- it was armed no later than now, with the same period
      subst hit
      rw [if_pos rfl]
      exact Or.inr ⟨clock, le_rfl, rfl, hfits ht, hm.armed i hin⟩
    · exact Or.inl (if_neg hit)

/-- So does `listExpiredCb` with the recurring timers it hands out, if its clock is fresh. -/
theorem listExpired_defers (hm : Timely addr m clock) {now_ms : UInt64} {probe : ℕ}
    {cbs : List (Option TimerCb)} (hle : now_ms.toNat ≤ clock.toNat)
    (hfits : ∀ t ∈ m.expired addr now_ms probe, (m.timer t).m_recurring = true →
      now_ms.toNat + (m.timer t).m_ms.toNat < 2 ^ 64)
    (hfresh : m.clockRollover now_ms = true → ∀ t ∈ m.m_timers, (m.timer t).m_recurring = true →
      (m.timer t).m_next.toNat ≤ now_ms.toNat + (m.timer t).m_ms.toNat)
    (h : m.listExpired addr now_ms probe = .ok (cbs, m')) : Defers addr m m' clock := by
  have hspec := (TimerManager.listExpired_spec hm.wf h).1
  refine defers_of_timers hm hspec.wf (TimerManager.listExpired_tickled h) fun t ht => ?_
  obtain ⟨hin, hrec⟩ := (hspec.mem_iff hm.wf t).1 ht
  refine ⟨hin, ?_⟩
  rw [hspec.timer]
  by_cases hexp : t ∈ m.expired addr now_ms probe
  · right
    rw [if_pos hexp]
    refine ⟨now_ms, hle, by simp [Timer.rearmed, hrec hexp], hfits t hexp (hrec hexp), ?_⟩
    -- what is due is not put before the reading; what is not was found by a rollover
    rcases ((TimerManager.mem_expired hm.wf.sorted).1 hexp).2 with hroll | hdue
    · exact hfresh hroll t hin (hrec hexp)
    · rw [UInt64.le_iff_toNat_le] at hdue
      omega
  · left
    rw [if_neg hexp]

theorem addTimer_timely (hm : Timely addr m clock) {now ms : UInt64} (cb : TimerCb)
    (recurring : Bool) (hle : now.toNat ≤ clock.toNat) (hfits : now.toNat + ms.toNat < 2 ^ 64) :
    Timely addr (m.addTimer addr now ms (some cb) recurring).2.1 clock := by
  refine hm.of_timers (TimerManager.addTimer_wf hm.wf now ms cb recurring) fun i hi => ?_
  have hin := (TimerManager.mem_addTimer now ms (some cb) recurring i).1 hi
  have htimer := @TimerManager.addTimer_timer addr m now ms (some cb) recurring i
  by_cases hmade : i = m.made
  · rw [if_pos hmade] at htimer
    refine Or.inr ⟨now, hle, ?_, ?_⟩ <;> rw [htimer]
    exact hfits
  · rw [if_neg hmade] at htimer
    exact Or.inl ⟨hin.resolve_left hmade, htimer⟩

/-- `reset` arms a timer from now, or from when it was armed. -/
theorem reset_timely (hm : Timely addr m clock) (ms : UInt64) (from_now : Bool) (t : ℕ)
    (hfits : t ∈ m.m_timers → ¬ (ms = (m.timer t).m_ms ∧ from_now = false) →
      (if from_now then clock else (m.timer t).m_next - (m.timer t).m_ms).toNat + ms.toNat < 2 ^ 64) :
    Timely addr (m.reset addr clock ms from_now t).2.1 clock := by
  have hwf := TimerManager.reset_wf hm.wf clock ms from_now t
  rcases TimerManager.reset_cases hm.wf clock ms from_now t with
    ⟨-, heq⟩ | ⟨-, -, heq⟩ | ⟨hsame, ht, heq⟩
  · rw [heq]
    exact hm
  · rw [heq]
    exact hm
  · rw [heq] at hwf ⊢
    refine hm.of_timers hwf fun i hi => ?_
    rw [TimerManager.addTimerPtr_timers] at hi
    have hin := (TimerManager.mem_reinsert hm.wf.sorted ht _ i).1 hi
    rw [TimerManager.addTimerPtr_timer]
    by_cases hit : i = t
    · subst hit
      have hsum := hfits ht hsame
      refine Or.inr ⟨if from_now then clock else (m.timer i).m_next - (m.timer i).m_ms, ?_,
        by simp [TimerManager.set], by simpa [TimerManager.set] using hsum⟩
      cases from_now with
      | true => exact le_rfl
      | false =>
        have hper := hm.period i hin
        have harm := hm.armed i hin
        simp only [Bool.false_eq_true, if_false]
        rw [UInt64.toNat_sub_of_le _ _ (UInt64.le_iff_toNat_le.2 hper)]
        omega
    · exact Or.inl ⟨hin, by simp [TimerManager.set, TimerManager.erase, hit]⟩

theorem getNextTimer_defers (hm : Timely addr m clock) :
    Defers addr m (m.getNextTimer clock).2 clock := by
  rw [TimerManager.getNextTimer_eq]
  exact ⟨⟨hm.wf.tickled false, hm.period, hm.armed⟩, le_rfl, nofun⟩

end Deadlines

/-! ## The invariant -/

/-- **The invariant.** -/
structure Alert (addr : ℕ ↪ ℕ) (s : TimerWaiters Th) : Prop where
  wf : s.m.WF addr
  /-- a timer's deadline is a time that was, and its period after it -/
  period : ∀ t ∈ s.m.m_timers, (s.m.timer t).m_ms.toNat ≤ (s.m.timer t).m_next.toNat
  armed : ∀ t ∈ s.m.m_timers,
    (s.m.timer t).m_next.toNat ≤ s.clock.toNat + (s.m.timer t).m_ms.toNat
  reading : ∀ th, ∀ now ∈ (s.pc th).reading, now.toNat ≤ s.clock.toNat
  /-- while `m_tickled` is set, everybody who has asked was told -/
  tickled : s.m.m_tickled = true → ∀ w, (s.seen w).isSome → s.Told w
  hidden : s.NothingHidden

theorem Alert.timely (hs : s.Alert addr) : Timely addr s.m s.clock := ⟨hs.wf, hs.period, hs.armed⟩

/-- A step that brings no deadline forward and takes back nothing that was told. -/
theorem alert_of_defers (hs : s.Alert addr) (hd : Defers addr s.m s'.m s'.clock)
    (hread : ∀ th, ∀ now ∈ (s'.pc th).reading, now.toNat ≤ s'.clock.toNat) (hseen : s'.seen = s.seen)
    (htold : ∀ w, s.Told w → s'.Told w) : s'.Alert addr := by
  refine ⟨hd.timely.wf, hd.timely.period, hd.timely.armed, hread, ?_, ?_⟩
  · intro h w hw
    rw [hseen] at hw
    exact htold w (hs.tickled (hd.tickled h) w hw)
  · intro w deadline hw hlt
    rw [hseen] at hw
    exact htold w (hs.hidden w deadline hw (lt_of_le_of_lt hd.deadline hlt))

/-- A step that makes a thread call `onTimerInsertedAtFront` next. -/
theorem alert_of_notify (th : Th) (ht : Timely addr s'.m s'.clock)
    (hread : ∀ th, ∀ now ∈ (s'.pc th).reading, now.toNat ≤ s'.clock.toNat)
    (hnotify : s'.pc th = .notify) : s'.Alert addr :=
  ⟨ht.wf, ht.period, ht.armed, hread, fun _ _ _ => Or.inr ⟨th, hnotify⟩,
    fun _ _ _ _ => Or.inr ⟨th, hnotify⟩⟩

theorem init_alert (now_ms : UInt64) : (init now_ms : TimerWaiters Th).Alert addr := by
  refine ⟨TimerManager.init_wf now_ms, ?_, ?_, ?_, ?_, ?_⟩
  · intro t ht; cases ht
  · intro t ht; cases ht
  · intro th now hnow; cases hnow
  · intro h; cases h
  · intro w deadline hw; cases hw

variable [DecidableEq Th]

/-- A thread that is not about to call `onTimerInsertedAtFront` moves. -/
theorem told_setPc {th : Th} (hth : s.pc th ≠ .notify) {pc : WaiterPc} {m : TimerManager} {w : Th}
    (h : s.Told w) : ({ s.setPc th pc with m := m } : TimerWaiters Th).Told w := by
  rcases h with h | ⟨u, hu⟩
  · exact Or.inl h
  · have hne : u ≠ th := by rintro rfl; exact hth hu
    exact Or.inr ⟨u, by simpa [setPc, hne] using hu⟩

theorem reading_setPc (hs : s.Alert addr) {th : Th} {pc : WaiterPc}
    (hpc : ∀ now ∈ pc.reading, now.toNat ≤ s.clock.toNat) (u : Th) :
    ∀ now ∈ ((s.setPc th pc).pc u).reading, now.toNat ≤ s.clock.toNat := by
  by_cases hu : u = th
  · subst hu
    simpa [setPc] using hpc
  · simpa [setPc, hu] using hs.reading u

/-- A thread that is not about to call `onTimerInsertedAtFront` goes on, after a section that
brings no deadline forward. -/
theorem alert_setPc (hs : s.Alert addr) {th : Th} (hth : s.pc th ≠ .notify) {pc : WaiterPc}
    {m : TimerManager} (hd : Defers addr s.m m s.clock)
    (hpc : ∀ now ∈ pc.reading, now.toNat ≤ s.clock.toNat) :
    ({ s.setPc th pc with m := m } : TimerWaiters Th).Alert addr :=
  alert_of_defers hs hd (reading_setPc hs hpc) rfl fun _ => told_setPc hth

/-- **A timer is inserted**, by a thread that calls `onTimerInsertedAtFront` next if it is to. -/
theorem alert_insert (hs : s.Alert addr) {th : Th} (hth : s.pc th ≠ .notify) {m : TimerManager}
    {val : ℕ} (hflag : m.m_tickled = s.m.m_tickled)
    (hm : ∀ u ∈ m.m_timers, u ≠ val → u ∈ s.m.m_timers ∧ m.timer u = s.m.timer u)
    (ht : Timely addr (m.addTimerPtr addr val).1 s.clock) :
    ({ s.setPc th (if (m.addTimerPtr addr val).2 then .notify else .out) with
        m := (m.addTimerPtr addr val).1 } : TimerWaiters Th).Alert addr := by
  by_cases hfront : (m.addTimerPtr addr val).2 = true
  · rw [if_pos hfront]
    refine alert_of_notify th ht (reading_setPc hs ?_) ?_
    · intro now hnow; cases hnow
    · simp [setPc]
  · rw [if_neg hfront]
    have hread : ∀ u, ∀ now ∈ ((s.setPc th .out).pc u).reading, now.toNat ≤ s.clock.toNat :=
      reading_setPc hs fun now hnow => by cases hnow
    have htold : ∀ w, s.Told w →
        ({ s.setPc th .out with m := (m.addTimerPtr addr val).1 } : TimerWaiters Th).Told w :=
      fun w hw => told_setPc hth hw
    have htickled : (m.addTimerPtr addr val).1.m_tickled = true → s.m.m_tickled = true := by
      intro h
      rw [← hflag]
      exact (TimerManager.addTimerPtr_tickled h).resolve_right hfront
    rcases @TimerManager.addTimerPtr_next addr m val with h | h | ⟨u, hu, hne, heq⟩
    · exact absurd h hfront
    · -- an earlier insertion has told everybody
      rw [hflag] at h
      exact ⟨ht.wf, ht.period, ht.armed, hread, fun _ w hw => htold w (hs.tickled h w hw),
        fun w deadline hw _ => htold w (hs.tickled h w (by
          have hsome : s.seen w = some deadline := hw
          rw [hsome]; rfl))⟩
    · obtain ⟨hmem, htimer⟩ := hm u hu hne
      have hle : s.m.nextDeadline ≤ (m.addTimerPtr addr val).1.nextDeadline := by
        rw [heq, htimer]
        exact TimerManager.nextDeadline_le hs.wf hmem
      exact alert_of_defers hs ⟨ht, hle, htickled⟩ hread rfl htold

omit [DecidableEq Th] in
/-- A reading that is still the clock is fresh. -/
theorem fresh_of_current (hs : s.Alert addr) {th : Th} (hpc : s.pc th = .checked s.clock)
    (probe : ℕ) : s.Fresh (.go th probe) := by
  simp only [Fresh, hpc, SectionFresh]
  intro _ t ht _
  exact hs.armed t ht

/-! ## The steps -/

/-- **Whoever asks for the next timer** has just seen the first deadline. -/
theorem getNextTimer_alert (hs : s.Alert addr) (th : Th)
    (hfresh : s.clock = 0 → ∀ front ∈ s.m.m_timers.head?, (s.m.timer front).m_next ≠ ~~~ 0) :
    (s.call addr th .getNextTimer).Alert addr := by
  have hd := getNextTimer_defers hs.timely
  refine ⟨hd.timely.wf, hd.timely.period, hd.timely.armed, hs.reading, ?_, ?_⟩
  · intro h
    have hfalse : (s.m.getNextTimer s.clock).2.m_tickled = false :=
      TimerManager.getNextTimer_tickled s.clock
    exact absurd (hfalse.symm.trans h) Bool.false_ne_true
  · intro w deadline hw hlt
    have hlt' : s.m.nextDeadline < deadline := lt_of_le_of_lt hd.deadline hlt
    by_cases hwth : w = th
    · -- the caller has just seen the first deadline
      exfalso
      subst hwth
      simp only [call, Function.update_self, Option.some.injEq] at hw
      split at hw
      · rename_i hnone
        rcases TimerManager.getNextTimer_none hnone with hnil | ⟨hzero, front, hfront, hmax⟩
        · subst hw
          simp [TimerManager.nextDeadline, hnil] at hlt'
        · exact hfresh hzero front hfront hmax
      · subst hw
        exact lt_irrefl _ hlt'
    · have hw' : s.seen w = some deadline := by
        simpa [call, Function.update_of_ne hwth] using hw
      rcases hs.hidden w deadline hw' hlt' with h | h
      · left
        simpa [call, Function.update_of_ne hwth] using h
      · exact Or.inr h

/-- `reset` inserts the timer it arms. -/
theorem reset_alert (hs : s.Alert addr) {th : Th} (hth : s.pc th ≠ .notify) (ms : UInt64)
    (from_now : Bool) (t : ℕ)
    (hfits : t ∈ s.m.m_timers → ¬ (ms = (s.m.timer t).m_ms ∧ from_now = false) →
      (if from_now then s.clock else (s.m.timer t).m_next - (s.m.timer t).m_ms).toNat + ms.toNat <
        2 ^ 64) : (s.call addr th (.reset ms from_now t)).Alert addr := by
  have htimely := reset_timely hs.timely ms from_now t hfits
  rcases TimerManager.reset_cases hs.wf s.clock ms from_now t with
    ⟨-, heq⟩ | ⟨-, -, heq⟩ | ⟨-, -, heq⟩
  · simp only [call, heq]
    exact alert_setPc hs hth hs.timely.defers nofun
  · simp only [call, heq]
    exact alert_setPc hs hth hs.timely.defers nofun
  · simp only [call, heq]
    rw [heq] at htimely
    refine alert_insert hs hth rfl (fun u hu hut => ?_) htimely
    exact ⟨List.mem_of_mem_erase hu, by simp only [TimerManager.set, TimerManager.erase, if_neg hut]⟩

theorem call_alert (hs : s.Alert addr) {th : Th} (hth : s.pc th = .out) (c : WaiterCall)
    (hfits : s.Fits addr (.call th c)) (hfresh : s.Fresh (.call th c)) :
    (s.call addr th c).Alert addr := by
  have hne : s.pc th ≠ .notify := by rw [hth]; simp
  cases c with
  | addTimer ms cb recurring =>
    refine alert_setPc hs hne hs.timely.defers fun now hnow => ?_
    cases hnow
    exact le_rfl
  | listExpiredCb =>
    refine alert_setPc hs hne hs.timely.defers fun now hnow => ?_
    cases hnow
    exact le_rfl
  | cancel t =>
    obtain ⟨b, m', hok, -⟩ := TimerManager.cancel_ok hs.wf t
    simp only [call, hok]
    exact alert_of_defers hs (cancel_defers hs.timely hok) hs.reading rfl fun _ h => h
  | refresh t =>
    have hd := refresh_defers hs.timely t (hfits hth)
    exact alert_of_defers hs hd hs.reading rfl fun _ h => h
  | reset ms from_now t => exact reset_alert hs hne ms from_now t (hfits hth)
  | getNextTimer => exact getNextTimer_alert hs th (hfresh hth)

theorem go_alert (hs : s.Alert addr) (th : Th) (probe : ℕ) (hfits : s.Fits addr (.go th probe))
    (hfresh : s.Fresh (.go th probe)) : (s.go addr th probe).Alert addr := by
  unfold go
  cases hpc : s.pc th with
  | out => exact hs
  | made now ms cb recurring =>
    have hne : s.pc th ≠ .notify := by rw [hpc]; simp
    have hsum : now.toNat + ms.toNat < 2 ^ 64 := by simpa [Fits, SectionFits, hpc] using hfits
    have hle : now.toNat ≤ s.clock.toNat := hs.reading th now (by rw [hpc]; rfl)
    refine alert_insert hs hne rfl ?_ (addTimer_timely hs.timely cb recurring hle hsum)
    intro u hu hut
    exact ⟨hu, by simp only [TimerManager.set, if_neg hut]⟩
  | notify =>
    refine ⟨hs.wf, hs.period, hs.armed, reading_setPc hs ?_, fun _ _ _ => Or.inl rfl,
      fun _ _ _ _ => Or.inl rfl⟩
    intro now hnow; cases hnow
  | read now_ms =>
    have hne : s.pc th ≠ .notify := by rw [hpc]; simp
    refine alert_setPc hs hne hs.timely.defers fun now hnow => hs.reading th now ?_
    rw [hpc]
    split at hnow
    · cases hnow
    · exact hnow
  | checked now_ms =>
    have hne : s.pc th ≠ .notify := by rw [hpc]; simp
    dsimp only
    cases hlist : s.m.listExpired addr now_ms probe with
    | error e => exact alert_of_defers hs hs.timely.defers hs.reading rfl fun _ h => h
    | ok r =>
      have hsum : ∀ t ∈ s.m.expired addr now_ms probe, (s.m.timer t).m_recurring = true →
          now_ms.toNat + (s.m.timer t).m_ms.toNat < 2 ^ 64 := by
        simpa only [Fits, SectionFits, hpc] using hfits
      have hle : now_ms.toNat ≤ s.clock.toNat := hs.reading th now_ms (by rw [hpc]; rfl)
      have hlater : s.m.clockRollover now_ms = true → ∀ t ∈ s.m.m_timers,
          (s.m.timer t).m_recurring = true →
            (s.m.timer t).m_next.toNat ≤ now_ms.toNat + (s.m.timer t).m_ms.toNat := by
        simpa only [Fresh, SectionFresh, hpc] using hfresh
      refine alert_setPc hs hne (listExpired_defers hs.timely hle hsum hlater hlist) ?_
      intro now hnow; cases hnow

/-- **A step with fresh clocks hides nothing.** -/
theorem step_alert (hs : s.Alert addr) (a : WaiterAct Th) (hfits : s.Fits addr a)
    (hfresh : s.Fresh a) : (step addr s a).Alert addr := by
  unfold step
  split
  · exact hs
  · cases a with
    | tick now_ms =>
      dsimp only
      split
      · rename_i hle
        rw [UInt64.le_iff_toNat_le] at hle
        refine ⟨hs.wf, hs.period, ?_, ?_, hs.tickled, hs.hidden⟩
        · intro t ht
          exact (hs.armed t ht).trans (Nat.add_le_add_right hle _)
        · intro th now hnow
          exact (hs.reading th now hnow).trans hle
      · exact hs
    | call th c =>
      dsimp only
      split
      · rename_i hth; exact call_alert hs hth c hfits hfresh
      · exact hs
    | go th probe => exact go_alert hs th probe hfits hfresh

/-- **In a run without overflow whose clock readings are fresh, no earlier deadline is hidden
from a waiting thread.** -/
theorem nothing_hidden (addr : ℕ ↪ ℕ) (start : UInt64) (acts : List (WaiterAct Th))
    (hfits : Along (step addr) (fun s a => s.fault = none → s.Fits addr a) (init start) acts)
    (hfresh : Along (step addr) (fun s a => s.fault = none → s.Fresh a) (init start) acts) :
    ∀ s ∈ trace (step addr) (init start) acts, s.NothingHidden := by
  intro s hs
  have halert : s.Alert addr := by
    refine trace_inv_of (I := fun s : TimerWaiters Th => s.Alert addr) ?_ acts (init_alert start)
      (hfits.and hfresh) s hs
    rintro s a halert ⟨h1, h2⟩
    by_cases hfault : s.fault = none
    · exact step_alert halert a (h1 hfault) (h2 hfault)
    · have hstay : step addr s a = s := if_pos (Option.isSome_iff_ne_none.2 hfault)
      rw [hstay]; exact halert
  exact halert.hidden

/-- A timer is added, a thread asks for it, and an earlier one is added. -/
def earlierTimer : List (WaiterAct Bool) :=
  [.call true (.addTimer 100 (.fn 7) false), .go true 0, .go true 0, .call false .getNextTimer,
    .tick 20, .call true (.addTimer 50 (.fn 8) true), .go true 0]

theorem nothing_hidden_earlier_timer :
    (run (step (.refl ℕ)) (init 10) earlierTimer).m.nextDeadline = (70 : ℕ) ∧
      (run (step (.refl ℕ)) (init 10) earlierTimer).seen false = some (110 : ℕ) ∧
      ∀ s ∈ trace (step (.refl ℕ)) (init 10) earlierTimer, s.NothingHidden :=
  ⟨by decide, by decide, nothing_hidden (.refl ℕ) 10 earlierTimer (by decide) (by decide)⟩

/-- A thread reads the clock for `listExpiredCb` and is held up for two hours before it takes
the lock; by then another one has recorded a later reading and armed a recurring timer. -/
def heldUp : List (WaiterAct Bool) :=
  [.call false (.addTimer 10000000 (.fn 7) false), .go false 0, .go false 0,
    .call true .listExpiredCb, .go true 0, .tick 1700007200000,
    .call false .listExpiredCb, .go false 0, .go false 0,
    .call false (.addTimer 1000 (.fn 8) true), .go false 0, .call false .getNextTimer, .go true 0]

/-- The recurring timer is armed again two hours back, and nobody is told. -/
theorem stale_clock_hides :
    ¬ ∀ s ∈ trace (step (.refl ℕ)) (init 1700000000000) heldUp, s.NothingHidden := by
  intro h
  have hlast := h _ (mem_trace.2 ⟨heldUp, List.prefix_rfl, rfl⟩)
  have htold := hlast false (1700007201000 : ℕ) (by decide) (by decide)
  exact absurd htold (by decide)

end TimerWaiters

end Coroutine
