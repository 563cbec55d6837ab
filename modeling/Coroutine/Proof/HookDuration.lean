import Coroutine.Spec.HookDuration
import Coroutine.Proof.TimerEffect

/-!
# How long a hooked call waits

* `sleep_ok_iff`, `usleep_ok_iff`, `nanosleep_ok_iff`: when the delay is no shorter than the time asked for.
* `timeout_ok_iff`: when the timeout that `setsockopt` stores makes `do_io` wait as asked for.
* `addTimer_negative`: the timer of a `sleep` whose product is a negative `int` is due at once.
* `wait_timer`: the timer that `do_io` arms is of `waitTimeout`.
* `durations_iff`: all four.
-/

namespace Coroutine

/-- The time asked for, in nanoseconds. -/
def Timespec.nanos (t : Timespec) : ℕ := t.tv_sec * 1000000000 + t.tv_nsec

/-- In milliseconds, rounded down. -/
def Timespec.millis (t : Timespec) : ℕ := t.tv_sec * 1000 + t.tv_nsec / 1000000

/-- The time asked for, in microseconds. -/
def Timeval.micros (t : Timeval) : ℕ := t.tv_sec * 1000000 + t.tv_usec

/-- In milliseconds, rounded down. -/
def Timeval.millis (t : Timeval) : ℕ := t.tv_sec * 1000 + t.tv_usec / 1000

/-- The call waits for a timer, of at least `request` units of which `unit` make a millisecond. -/
def SleepWait.AtLeast (request unit : ℕ) : SleepWait → Prop
  | .origin => False
  | .addTimer ms => request ≤ ms.toNat * unit

/-- `do_io` waits at least as long as `v` says, and without end if it says zero. -/
def IoCall.Honours (call : IoCall) (v : Timeval) : Prop :=
  if v.micros = 0 then call.waitTimeout = none
  else ∃ ms, call.waitTimeout = some ms ∧ v.micros ≤ ms.toNat * 1000

/-! ## Conversions -/

theorem longMillis_eq (tv_sec ms : ℕ) :
    longMillis tv_sec ms =
      if tv_sec * 1000 + ms < 2 ^ 63 then .ok (tv_sec * 1000 + ms) else .error .undefined := by
  unfold longMillis
  have hiff : (tv_sec * 1000 < 2 ^ 63 ∧ tv_sec * 1000 + ms < 2 ^ 63) ↔
      tv_sec * 1000 + ms < 2 ^ 63 := by omega
  simp only [hiff]

/-- A negative `int` becomes a very large `uint64_t`. -/
theorem toUInt64_ofNat (ms : ℕ) :
    (CInt.toUInt64 (BitVec.ofNat 32 ms)).toNat =
      if 2 ^ 31 ≤ ms % 2 ^ 32 then ms % 2 ^ 32 + (2 ^ 64 - 2 ^ 32) else ms % 2 ^ 32 := by
  unfold CInt.toUInt64
  rw [UInt64.toNat_ofBitVec, BitVec.toNat_signExtend, BitVec.msb_eq_decide]
  have hlt : ms % 2 ^ 32 < 2 ^ 32 := Nat.mod_lt _ (by decide)
  simp only [BitVec.toNat_setWidth, BitVec.toNat_ofNat, decide_eq_true_eq]
  split <;> omega

/-! ## The sleeping functions -/

theorem sleep_ok_iff (seconds : UInt32) :
    (sleep true seconds).AtLeast (seconds.toNat * 1000) 1 ↔ seconds.toNat * 1000 < 2 ^ 32 := by
  -- the product is taken in 32 bits, before it is widened
  have hms : ((seconds * 1000).toUInt64).toNat = seconds.toNat * 1000 % 2 ^ 32 := by
    rw [UInt32.toNat_toUInt64, UInt32.toNat_mul]
    rfl
  unfold sleep SleepWait.AtLeast
  simp only [Bool.not_true, Bool.false_eq_true, if_false, hms]
  omega

theorem usleep_ok_iff (usec : UInt32) :
    (usleep true usec).AtLeast usec.toNat 1000 ↔ usec.toNat % 1000 = 0 := by
  have hms : ((usec / 1000).toUInt64).toNat = usec.toNat / 1000 := by
    rw [UInt32.toNat_toUInt64, UInt32.toNat_div]
    rfl
  unfold usleep SleepWait.AtLeast
  simp only [Bool.not_true, Bool.false_eq_true, if_false, hms]
  omega

/-- **`nanosleep`**: in the range of an `int` the fraction of a millisecond is lost, and beyond it the time
is as long as was asked for only where the `int` is negative. -/
theorem nanosleep_ok_iff (req : Timespec) :
    (∃ w, nanosleep true req = .ok w ∧ w.AtLeast req.nanos 1000000) ↔
      req.millis < 2 ^ 63 ∧
        (2 ^ 31 ≤ req.millis % 2 ^ 32 ∨ req.millis < 2 ^ 31 ∧ req.tv_nsec % 1000000 = 0) := by
  have hnanos : req.nanos = req.millis * 1000000 + req.tv_nsec % 1000000 := by
    unfold Timespec.nanos Timespec.millis
    omega
  have hmillis : req.tv_sec * 1000 + req.tv_nsec / 1000 / 1000 = req.millis := by
    unfold Timespec.millis
    omega
  have hfrac : req.tv_nsec % 1000000 < 1000000 := Nat.mod_lt _ (by decide)
  unfold nanosleep
  rw [longMillis_eq, hmillis, hnanos]
  generalize req.millis = ms at *
  by_cases hlong : ms < 2 ^ 63
  · have hdelay := toUInt64_ofNat ms
    have hwait : (∃ w, (Except.ok (.addTimer (CInt.toUInt64 (BitVec.ofNat 32 ms))) :
          Except Fault SleepWait) = .ok w ∧
          w.AtLeast (ms * 1000000 + req.tv_nsec % 1000000) 1000000) ↔
        ms * 1000000 + req.tv_nsec % 1000000 ≤
          (CInt.toUInt64 (BitVec.ofNat 32 ms)).toNat * 1000000 := by
      constructor
      · rintro ⟨w, hw, hlen⟩
        cases hw
        exact hlen
      · exact fun hlen => ⟨_, rfl, hlen⟩
    simp only [Bool.not_true, Bool.false_eq_true, if_false, if_pos hlong]
    refine hwait.trans ?_
    -- a negative `int` widens to more than any `long`; another one is what is left below `2 ^ 31`
    rw [hdelay]
    split <;> omega
  · simp only [Bool.not_true, Bool.false_eq_true, if_false, if_neg hlong]
    constructor
    · rintro ⟨w, hw, -⟩
      cases hw
    · exact fun h => absurd h.1 hlong

/-! ## Timeouts -/

section

variable {C : Type} {ops : FdTimeoutOps C}

theorem stored_waitTimeout {call : IoCall} {ms : ℕ} (hms : ms < 2 ^ 63)
    (h : call.timeout = UInt64.ofNat ms) : call.waitTimeout = some (UInt64.ofNat ms) := by
  have hne : UInt64.ofNat ms ≠ ~~~ 0 := by
    intro heq
    have htoNat := congrArg UInt64.toNat heq
    rw [UInt64.toNat_ofNat_of_lt' (by unfold UInt64.size; omega),
      show (~~~ 0 : UInt64).toNat = 2 ^ 64 - 1 from rfl] at htoNat
    omega
  unfold IoCall.waitTimeout
  rw [h, if_pos hne]

/-- **A stored timeout** makes `do_io` wait as asked for unless it is zero, which is not stored as no
timeout, or has a fraction of a millisecond, which is lost, or overflows. -/
theorem timeout_ok_iff (hops : ops.Lawful) {optname : CInt}
    (hopt : optname = SO_RCVTIMEO ∨ optname = SO_SNDTIMEO) (v : Timeval) (c : C) :
    (∃ c', setsockopt ops true SOL_SOCKET optname v (some c) = .ok (some c') ∧
        ∀ call : IoCall, call.timeout = ops.getTimeout c' optname → call.Honours v) ↔
      v.micros ≠ 0 ∧ v.tv_usec % 1000 = 0 ∧ v.millis < 2 ^ 63 := by
  have hmicros : v.micros = v.millis * 1000 + v.tv_usec % 1000 := by
    unfold Timeval.micros Timeval.millis
    omega
  have hset : setsockopt ops true SOL_SOCKET optname v (some c) =
      if v.millis < 2 ^ 63 then
        .ok (some (ops.setTimeout c optname (UInt64.ofNat v.millis))) else .error .undefined := by
    unfold setsockopt
    rw [longMillis_eq]
    simp only [Bool.not_true, Bool.false_eq_true, if_false, if_true, hopt]
    unfold Timeval.millis
    split <;> rfl
  rw [hset]
  by_cases hlong : v.millis < 2 ^ 63
  · have hwait : ∀ call : IoCall,
        call.timeout = ops.getTimeout (ops.setTimeout c optname (UInt64.ofNat v.millis)) optname →
          (call.Honours v ↔ v.micros ≠ 0 ∧ v.tv_usec % 1000 = 0) := by
      intro call hcall
      rw [hops.getTimeout_set] at hcall
      have hms : (UInt64.ofNat v.millis).toNat = v.millis :=
        UInt64.toNat_ofNat_of_lt' (by unfold UInt64.size; omega)
      unfold IoCall.Honours
      rw [stored_waitTimeout hlong hcall]
      by_cases hzero : v.micros = 0
      · simp [hzero]
      · simp only [hzero, if_false, Option.some.injEq, exists_eq_left', hms]
        omega
    rw [if_pos hlong]
    constructor
    · rintro ⟨c', hc', hall⟩
      cases hc'
      -- there is a call that reads the timeout
      have hcall := hall ⟨true, some ⟨false, true, false, ops.getTimeout _ optname⟩, 0, .READ,
        ⟨none, 0, true⟩, 0, 0⟩ rfl
      obtain ⟨hne, hfrac⟩ := (hwait _ rfl).1 hcall
      exact ⟨hne, hfrac, hlong⟩
    · rintro ⟨hne, hfrac, -⟩
      exact ⟨_, rfl, fun call hcall => (hwait call hcall).2 ⟨hne, hfrac⟩⟩
  · rw [if_neg hlong]
    constructor
    · rintro ⟨c', hc', -⟩
      cases hc'
    · exact fun h => absurd h.2.2 hlong

/-- **A negative `int` of milliseconds** gives a timer that is due before it is made. -/
theorem addTimer_negative (addr : ℕ ↪ ℕ) (m : TimerManager) {now : UInt64} (hnow : 2 ^ 31 ≤ now.toNat)
    {ms : ℕ} (hms : 2 ^ 31 ≤ ms % 2 ^ 32) (cb : Option TimerCb) :
    ((m.addTimer addr now (CInt.toUInt64 (BitVec.ofNat 32 ms)) cb false).2.1.timer m.made).m_next
      < now := by
  have hdelay := toUInt64_ofNat ms
  have hlt : ms % 2 ^ 32 < 2 ^ 32 := Nat.mod_lt _ (by decide)
  have hclock := now.toNat_lt
  rw [if_pos hms] at hdelay
  rw [TimerManager.addTimer_timer, if_pos rfl, UInt64.lt_iff_toNat_lt, UInt64.toNat_add, hdelay]
  omega

/-- **The timer of `do_io`** is added if the timeout is not `-1`, and with the timeout. -/
theorem wait_timer {κ : Type} (addr : ℕ ↪ ℕ) (ctl : EpollCtl κ) (call : IoCall) (s : HookIo κ) :
    (s.pc = .call → s.doIo addr ctl call (-1) EAGAIN =
      .ok { s with pc := if call.waitTimeout.isSome then .arm else .add }) ∧
    ∀ now n errno s', s.pc = .insert now → s.doIo addr ctl call n errno = .ok s' →
      ∃ timer, s'.timer = some timer ∧ (s'.timers.timer timer).m_ms = call.timeout := by
  constructor
  · intro hpc
    unfold HookIo.doIo IoCall.waitTimeout
    rw [hpc]
    by_cases hto : call.timeout = ~~~ 0 <;> simp [hto, EAGAIN, EINTR]
  · intro now n errno s' hpc h
    unfold HookIo.doIo at h
    rw [hpc] at h
    cases h
    refine ⟨s.timers.made, rfl, ?_⟩
    have htimer : (s.timers.addTimer addr now call.timeout (some (.onTimer call.tinfo (some call.cb)))
        false).2.1.timer s.timers.made = _ := TimerManager.addTimer_timer ..
    rw [if_pos rfl] at htimer
    exact congrArg Timer.m_ms htimer

/-- **Which durations are not shortened**: of `sleep` those whose milliseconds fit 32 bits; of `usleep` whole
milliseconds; of `nanosleep` whole milliseconds of an `int`, and those whose lower 32 bits are a
negative `int`; and of a socket's timeouts whole milliseconds other than zero. -/
theorem durations_iff {C : Type} (ops : FdTimeoutOps C) (hops : ops.Lawful) :
    (∀ seconds : UInt32, (sleep true seconds).AtLeast (seconds.toNat * 1000) 1 ↔
      seconds.toNat * 1000 < 2 ^ 32) ∧
    (∀ usec : UInt32, (usleep true usec).AtLeast usec.toNat 1000 ↔ usec.toNat % 1000 = 0) ∧
    (∀ req : Timespec, (∃ w, nanosleep true req = .ok w ∧ w.AtLeast req.nanos 1000000) ↔
      req.millis < 2 ^ 63 ∧
        (2 ^ 31 ≤ req.millis % 2 ^ 32 ∨ req.millis < 2 ^ 31 ∧ req.tv_nsec % 1000000 = 0)) ∧
    ∀ optname : CInt, optname = SO_RCVTIMEO ∨ optname = SO_SNDTIMEO → ∀ (v : Timeval) (c : C),
      (∃ c', setsockopt ops true SOL_SOCKET optname v (some c) = .ok (some c') ∧
          ∀ call : IoCall, call.timeout = ops.getTimeout c' optname → call.Honours v) ↔
        v.micros ≠ 0 ∧ v.tv_usec % 1000 = 0 ∧ v.millis < 2 ^ 63 :=
  ⟨sleep_ok_iff, usleep_ok_iff, nanosleep_ok_iff,
    fun _ hopt v c => timeout_ok_iff hops hopt v c⟩

end

/-- An `FdCtx` that is a table of timeouts. -/
def timeoutTable : FdTimeoutOps (CInt → UInt64) where
  setTimeout ctx optname ms := Function.update ctx optname ms
  getTimeout ctx optname := ctx optname

theorem timeoutTable_lawful : timeoutTable.Lawful where
  getTimeout_set := by
    intro ctx optname ms
    exact Function.update_self ..

/-- Half a second is kept as it is. -/
theorem durations_iff_table :
    (usleep true 500000).AtLeast 500000 1000 ∧
      ∃ c', setsockopt timeoutTable true SOL_SOCKET SO_RCVTIMEO ⟨0, 500000, by decide, by decide⟩
          (some fun _ => ~~~ 0) = .ok (some c') ∧
        ∀ call : IoCall, call.timeout = timeoutTable.getTimeout c' SO_RCVTIMEO →
          call.Honours ⟨0, 500000, by decide, by decide⟩ :=
  ⟨((durations_iff timeoutTable timeoutTable_lawful).2.1 500000).2 (by decide),
    ((durations_iff timeoutTable timeoutTable_lawful).2.2.2 SO_RCVTIMEO (.inl rfl)
      ⟨0, 500000, by decide, by decide⟩ fun _ => ~~~ 0).2 (by decide)⟩

/-- 4294968 seconds, close to fifty days, become 704 milliseconds. -/
theorem sleep_wraps :
    ¬ ∀ seconds : UInt32, (sleep true seconds).AtLeast (seconds.toNat * 1000) 1 := by
  intro h
  have hlen : 4294968 * 1000 ≤ 704 * 1 := h 4294968
  revert hlen
  decide

end Coroutine
