import Coroutine.Proof.HookWake

/-!
# Timeouts across rounds

All rounds of a call share one `timer_info`, and `cancel` cannot stop a callback that has been
extracted. When the call goes back to `retry`, such a callback finds the flag still clear, and
sets it in a round that is not its own.

* `Rounds`: as long as that does not happen, the flag is set, and the event cancelled, only by the
  callback of the round, and only once its deadline has passed.
* `step_rounds`: one step.
* `times_out_on_time`: so the call returns `ETIMEDOUT` only then.
-/

namespace Coroutine

open Lib

namespace HookIo

variable {κ : Type} {addr : ℕ ↪ ℕ} {ctl : EpollCtl κ} {call : IoCall} {s s' : HookIo κ}

/-- The timeout of the round has passed since its timer was made. -/
def Elapsed (call : IoCall) (s : HookIo κ) : Prop :=
  ∃ now ∈ s.armed, now.toNat + call.timeout.toNat ≤ s.time.toNat

instance (call : IoCall) (s : HookIo κ) : Decidable (s.Elapsed call) :=
  inferInstanceAs (Decidable (∃ now ∈ s.armed, _))

/-- **No timeout comes early**: no callback has set the flag or cancelled the event in a round of
another timer, and a call that has returned `ETIMEDOUT` has waited for its timeout. -/
def OnTime (call : IoCall) (s : HookIo κ) : Prop :=
  s.crossed = false ∧ (s.pc = .returned (-1) ETIMEDOUT → s.Elapsed call)

instance (call : IoCall) (s : HookIo κ) : Decidable (s.OnTime call) :=
  inferInstanceAs (Decidable (_ ∧ (_ → _)))

/-- The part of `Separate` about a step of `do_io`, by where the call stands. -/
def SeparateIo (call : IoCall) (s : HookIo κ) (n : ℤ) (errno : CInt) : IoPc → Prop
  | .plain | .call => ¬ (n = -1 ∧ errno = ETIMEDOUT)
  | .failed => errno ≠ ETIMEDOUT
  | .arm => s.time.toNat + call.timeout.toNat < 2 ^ 64
  | .check => s.cancelled = 0 → ∀ t ∈ s.mine, s.callbacks t ≠ some .tested
  | _ => True

instance (call : IoCall) (s : HookIo κ) (n : ℤ) (errno : CInt) :
    DecidablePred (s.SeparateIo call n errno)
  | .plain | .call => inferInstanceAs (Decidable (¬ _))
  | .failed => inferInstanceAs (Decidable (_ ≠ _))
  | .arm => inferInstanceAs (Decidable (_ < _))
  | .check => inferInstanceAs (Decidable (_ → ∀ t ∈ s.mine, _))
  | .enter | .insert _ | .add | .yielding | .suspended | .resumed | .returned _ _ => isTrue trivial

/-- **No callback outlasts its round**: none finds the flag clear in the round of another timer,
and the call does not retry while one stands between its test and the flag. Besides, the deadline
of a timer is a 64-bit number, no clock rollover takes the timer of the round out before it, and
`ETIMEDOUT` does not come from `fun` or from a failed `addEvent`. -/
def Separate (call : IoCall) (s : HookIo κ) : HookAct → Prop
  | .io n errno => s.SeparateIo call n errno s.pc
  | .callback t =>
    s.callbacks t = some .locked → s.cancelled = 0 → s.pc.done = false → s.timer = some t
  | .listExpired now _ =>
    now ≤ s.time → s.timers.clockRollover now = true →
      (∃ t ∈ s.timer, t ∈ s.timers.m_timers) → s.Elapsed call
  | _ => True

instance (call : IoCall) (s : HookIo κ) : DecidablePred (Separate call s)
  | .io _ _ => inferInstanceAs (Decidable (s.SeparateIo call _ _ s.pc))
  | .callback _ => inferInstanceAs (Decidable (_ → _ → _ → _))
  | .listExpired _ _ => inferInstanceAs (Decidable (_ → _ → _ → _))
  | .timerOp _ | .eventOp _ | .ready _ | .tick _ => inferInstanceAs (Decidable True)

/-- **The flag belongs to the round.** -/
structure Rounds (addr : ℕ ↪ ℕ) (call : IoCall) (s : HookIo κ) : Prop where
  sound : s.Sound addr
  inserting : ∀ now, s.pc = .insert now →
    s.armed = some now ∧ now.toNat + call.timeout.toNat < 2 ^ 64
  /-- the timer of the round is a one-shot timer with the deadline of the round -/
  dated : ∀ t, s.timer = some t → t ∈ s.timers.m_timers →
    (s.timers.timer t).m_recurring = false ∧
      ∃ now, s.armed = some now ∧
        (s.timers.timer t).m_next.toNat = now.toNat + call.timeout.toNat
  /-- it is extracted after its deadline -/
  expired : ∀ t, s.timer = some t → s.callbacks t ≠ none → s.Elapsed call
  /-- the flag is set by the callback of the round -/
  flag : s.pc.done = false → s.cancelled ≠ 0 → ∃ t, s.timer = some t ∧ s.callbacks t ≠ none
  /-- which is the only one past its test -/
  own : s.pc.done = false → ∀ t, s.callbacks t = some .tested ∨ s.callbacks t = some .flagged →
    s.timer = some t
  set : s.pc.done = false → ∀ t, s.callbacks t = some .flagged → s.cancelled ≠ 0
  onTime : s.OnTime call

theorem init_rounds (now_ms : UInt64) (k : κ) : (init now_ms k).Rounds addr call := by
  refine ⟨init_sound now_ms k, ?_, ?_, ?_, ?_, ?_, ?_, rfl, ?_⟩
  · intro now h; cases h
  · intro t ht; cases ht
  · intro t ht; cases ht
  · intro _ h; exact absurd rfl h
  · rintro - t (h | h) <;> cases h
  · intro _ t h; cases h
  · intro h; cases h

/-- **A step of `do_io` within the round**: it goes on to `pc`, and the timer of the round is as
it was if it is still in the set. -/
theorem Rounds.goto (hs : s.Rounds addr call) {m : TimerManager} {io : IOManager κ} {taken : ℕ}
    {pc : IoPc}
    (hsound : ({ s with timers := m, io := io, taken := taken, pc := pc } : HookIo κ).Sound addr)
    (hdone : s.pc.done = false) (hm : ∀ t, s.timer = some t → s.timers.Leaves m t)
    (hinsert : ∀ now, pc ≠ .insert now)
    (hret : pc = .returned (-1) ETIMEDOUT → s.Elapsed call) :
    ({ s with timers := m, io := io, taken := taken, pc := pc } : HookIo κ).Rounds addr call := by
  refine ⟨hsound, fun now h => absurd h (hinsert now), ?_, hs.expired, fun _ => hs.flag hdone,
    fun _ => hs.own hdone, fun _ => hs.set hdone, hs.onTime.1, hret⟩
  intro t ht hmem
  obtain ⟨hold, hsame⟩ := hm t ht hmem
  show (m.timer t).m_recurring = false ∧ _
  rw [hsame]
  exact hs.dated t ht hold

theorem leaves_refl (m : TimerManager) (t : ℕ) : m.Leaves m t := fun h => ⟨h, rfl⟩

theorem Cancels.leaves {m : TimerManager} (hs : s.Sound addr) (hm : s.Cancels addr m) (t : ℕ) :
    s.timers.Leaves m t := by
  rcases hm with rfl | ⟨u, hu⟩
  · exact leaves_refl _ t
  · exact TimerManager.cancel_leaves hs.wf hu t

/-- The timer of the next round is made. -/
theorem Rounds.make (hs : s.Rounds addr call)
    (hsound : ({ s with armed := some s.time, pc := .insert s.time } : HookIo κ).Sound addr)
    (hpc : s.pc = .arm) (hdeadline : s.time.toNat + call.timeout.toNat < 2 ^ 64) :
    ({ s with armed := some s.time, pc := .insert s.time } : HookIo κ).Rounds addr call := by
  have hdone : s.pc.done = false := by rw [hpc]; rfl
  have hnever : ∀ t, s.timer ≠ some t := hs.sound.ne_timer (by rw [hpc]; rfl)
  refine ⟨hsound, ?_, fun t ht => absurd ht (hnever t), fun t ht => absurd ht (hnever t),
    fun _ => hs.flag hdone, fun _ => hs.own hdone, fun _ => hs.set hdone, hs.onTime.1, ?_⟩
  · intro now h
    cases h
    exact ⟨rfl, hdeadline⟩
  · intro h; cases h

/-- **The next round begins**: its timer has the deadline of the round, and no callback yet. -/
theorem Rounds.insert (hs : s.Rounds addr call) {now : UInt64}
    (hsound : ({ s with
      timers := (s.timers.addTimer addr now call.timeout
        (some (.onTimer call.tinfo (some call.cb))) false).2.1
      timer := some s.timers.made
      mine := s.timers.made :: s.mine
      pc := .add } : HookIo κ).Sound addr) (hpc : s.pc = .insert now) :
    ({ s with
      timers := (s.timers.addTimer addr now call.timeout
        (some (.onTimer call.tinfo (some call.cb))) false).2.1
      timer := some s.timers.made
      mine := s.timers.made :: s.mine
      pc := .add } : HookIo κ).Rounds addr call := by
  have hdone : s.pc.done = false := by rw [hpc]; rfl
  have hnever : ∀ t, s.timer ≠ some t := hs.sound.ne_timer (by rw [hpc]; rfl)
  obtain ⟨harmed, hdeadline⟩ := hs.inserting now hpc
  have hfresh := hs.sound.fresh
  refine ⟨hsound, (fun _ h => by cases h), ?_, ?_, ?_, ?_, fun _ => hs.set hdone, hs.onTime.1, ?_⟩
  · intro t ht _
    cases ht
    dsimp only
    rw [TimerManager.addTimer_timer, if_pos rfl]
    refine ⟨rfl, now, harmed, ?_⟩
    rw [UInt64.toNat_add, Nat.mod_eq_of_lt hdeadline]
  · intro t ht hsome
    cases ht
    exact absurd hfresh hsome
  · intro _ hset
    obtain ⟨t, ht, -⟩ := hs.flag hdone hset
    exact absurd ht (hnever t)
  · intro _ t ht
    exact absurd (hs.own hdone t ht) (hnever t)
  · intro h; cases h

/-- **A round ends** with the flag clear: no callback is past its test. -/
theorem Rounds.retry (hs : s.Rounds addr call)
    (hsound : ({ s with timer := none, armed := none, pc := .call } : HookIo κ).Sound addr)
    (hpc : s.pc = .check) (hset : s.cancelled = 0)
    (htested : ∀ t ∈ s.mine, s.callbacks t ≠ some .tested) :
    ({ s with timer := none, armed := none, pc := .call } : HookIo κ).Rounds addr call := by
  have hdone : s.pc.done = false := by rw [hpc]; rfl
  have hflagged : ∀ t, s.callbacks t ≠ some .flagged := fun t h => hs.set hdone t h hset
  refine ⟨hsound, ?_, ?_, ?_, ?_, ?_, fun _ t h => absurd h (hflagged t), hs.onTime.1, ?_⟩
  · intro now h; cases h
  · intro t ht; cases ht
  · intro t ht; cases ht
  · intro _ hne
    exact absurd hset hne
  · rintro - t (h | h)
    · have hmine := hs.sound.extracted t (by rw [show s.callbacks t = _ from h]; simp)
      exact absurd h (htested t hmine)
    · exact absurd h (hflagged t)
  · intro h; cases h

/-- **A step of `do_io`.** -/
theorem moves_rounds (hs : s.Rounds addr call) {n : ℤ} {errno : CInt}
    (hok : s.Separate call (.io n errno)) (h : Moves addr ctl call s n errno s') :
    s'.Rounds addr call := by
  have hsound := moves_sound hs.sound h
  -- the call has not returned, wherever it can go on
  have hdone : ∀ pc, s.pc = pc → pc.done = false → s.pc.done = false := by
    intro pc hpc h
    rw [hpc]
    exact h
  have hsame : ∀ t, s.timer = some t → s.timers.Leaves s.timers t := fun t _ => leaves_refl _ t
  cases h with
  | stays => exact hs
  | enters pc hpc hnext =>
    refine hs.goto hsound (hdone _ hpc rfl) hsame ?_ ?_
    · rintro now rfl
      simp at hnext
    · rintro rfl
      exact absurd hnext (by decide)
  | returns hpc =>
    have hcall : ¬ (n = -1 ∧ errno = ETIMEDOUT) := by
      rcases hpc with hpc | hpc <;> simpa only [Separate, SeparateIo, hpc] using hok
    refine hs.goto hsound ?_ hsame (fun _ => IoPc.noConfusion) ?_
    · rcases hpc with hpc | hpc <;> exact hdone _ hpc rfl
    · intro h
      cases h
      exact absurd ⟨rfl, rfl⟩ hcall
  | starts pc hpc hnext =>
    refine hs.goto hsound (hdone _ hpc rfl) hsame ?_ ?_
    · rintro now rfl
      simp at hnext
    · rintro rfl
      simp at hnext
  | arms hpc =>
    refine hs.make hsound hpc ?_
    simpa only [Separate, SeparateIo, hpc] using hok
  | inserts now hpc => exact hs.insert hsound hpc
  | adds io pc hpc hio hnext =>
    refine hs.goto hsound (hdone _ hpc rfl) hsame ?_ ?_
    · rintro now rfl
      simp at hnext
    · rintro rfl
      simp at hnext
  | fails m hpc hm =>
    have herrno : errno ≠ ETIMEDOUT := by simpa only [Separate, SeparateIo, hpc] using hok
    refine hs.goto hsound (hdone _ hpc rfl) (fun t _ => hm.leaves hs.sound t)
      (fun _ => IoPc.noConfusion) ?_
    intro h
    cases h
    exact absurd rfl herrno
  | yields hpc =>
    exact hs.goto hsound (hdone _ hpc rfl) hsame (fun _ => IoPc.noConfusion) IoPc.noConfusion
  | wakes hpc =>
    exact hs.goto hsound (hdone _ hpc rfl) hsame (fun _ => IoPc.noConfusion) IoPc.noConfusion
  | cancels m hpc hm =>
    exact hs.goto hsound (hdone _ hpc rfl) (fun t _ => hm.leaves hs.sound t)
      (fun _ => IoPc.noConfusion) IoPc.noConfusion
  | timesOut hpc hset =>
    refine hs.goto hsound (hdone _ hpc rfl) hsame (fun _ => IoPc.noConfusion) fun _ => ?_
    obtain ⟨t, ht, hsome⟩ := hs.flag (hdone _ hpc rfl) hset
    exact hs.expired t ht hsome
  | retries hpc hset =>
    refine hs.retry hsound hpc hset ?_
    have htested : s.cancelled = 0 → ∀ t ∈ s.mine, s.callbacks t ≠ some .tested := by
      simpa only [Separate, SeparateIo, hpc] using hok
    exact htested hset

/-- A step of an extracted callback changes nothing about which callbacks have been extracted. -/
theorem setCallback_ne_none {t : ℕ} (hsome : s.callbacks t ≠ none) (pc : CbPc) (i : ℕ) :
    (s.setCallback t pc).callbacks i ≠ none ↔ s.callbacks i ≠ none := by
  by_cases hit : i = t
  · rw [hit, setCallback_self]
    exact ⟨fun _ => hsome, fun _ => Option.some_ne_none pc⟩
  · rw [setCallback_of_ne pc hit]

/-- **A step of a callback that leaves the flag alone.** It passes the test only in its round. -/
theorem Rounds.setCallback (hs : s.Rounds addr call) {t : ℕ} {pc : CbPc}
    (hsome : s.callbacks t ≠ none) (htest : pc = .tested → s.pc.done = false → s.timer = some t)
    (hflagged : pc ≠ .flagged) : (s.setCallback t pc).Rounds addr call := by
  refine ⟨hs.sound.setCallback hsome, hs.inserting, hs.dated, ?_, ?_, ?_, ?_, hs.onTime⟩
  · intro i hi hsome'
    exact hs.expired i hi ((setCallback_ne_none hsome pc i).1 hsome')
  · intro hdone hset
    obtain ⟨i, hi, hsome'⟩ := hs.flag hdone hset
    exact ⟨i, hi, (setCallback_ne_none hsome pc i).2 hsome'⟩
  · intro hdone i hi
    by_cases hit : i = t
    · rw [hit, setCallback_self] at hi
      rw [hit]
      rcases hi with h | h
      · exact htest (Option.some.inj h) hdone
      · exact absurd (Option.some.inj h) hflagged
    · rw [setCallback_of_ne pc hit] at hi
      exact hs.own hdone i hi
  · intro hdone i hi
    by_cases hit : i = t
    · rw [hit, setCallback_self] at hi
      exact absurd (Option.some.inj hi) hflagged
    · rw [setCallback_of_ne pc hit] at hi
      exact hs.set hdone i hi

theorem not_foreign {t : ℕ} (h : s.pc.done = false → s.timer = some t) : s.foreign t = false := by
  unfold foreign
  cases hdone : s.pc.done with
  | true => rfl
  | false => simp [h hdone]

/-- **A step of a callback.** -/
theorem fires_rounds (hs : s.Rounds addr call) {t : ℕ} (hok : s.Separate call (.callback t))
    (h : Fires ctl call s t s') : s'.Rounds addr call := by
  have hsound := fires_sound hs.sound h
  have hsome : ∀ pc, s.callbacks t = some pc → s.callbacks t ≠ none := by
    intro pc hpc
    rw [hpc]
    exact Option.some_ne_none pc
  cases h with
  | stays => exact hs
  | locks pc hpc hnext =>
    refine hs.setCallback (hsome _ hpc) ?_ ?_
    · rintro rfl
      simp at hnext
    · rintro rfl
      simp at hnext
  | skips hpc hset => exact hs.setCallback (hsome _ hpc) CbPc.noConfusion CbPc.noConfusion
  | tests hpc hset =>
    exact hs.setCallback (hsome _ hpc) (fun _ hdone => hok hpc hset hdone) CbPc.noConfusion
  | flags hpc =>
    have hown : s.pc.done = false → s.timer = some t := fun hdone => hs.own hdone t (Or.inl hpc)
    have hne : ETIMEDOUT ≠ 0 := by decide
    refine ⟨hsound, hs.inserting, hs.dated, ?_, ?_, ?_, fun _ _ _ => hne, ?_, hs.onTime.2⟩
    · intro i hi hsome'
      exact hs.expired i hi ((setCallback_ne_none (hsome _ hpc) .flagged i).1 hsome')
    · intro hdone _
      exact ⟨t, hown hdone, (setCallback_ne_none (hsome _ hpc) .flagged t).2 (hsome _ hpc)⟩
    · intro hdone i hi
      by_cases hit : i = t
      · rw [hit]
        exact hown hdone
      · have hi' : s.callbacks i = some .tested ∨ s.callbacks i = some .flagged := by
          rw [← setCallback_of_ne .flagged hit]
          exact hi
        exact hs.own hdone i hi'
    · show (s.crossed || s.foreign t) = false
      rw [hs.onTime.1, Bool.false_or]
      exact not_foreign hown
  | cancels b io hpc hio =>
    have hmoved : (s.setCallback t .finished).Rounds addr call :=
      hs.setCallback (hsome _ hpc) CbPc.noConfusion CbPc.noConfusion
    have hown : s.pc.done = false → s.timer = some t := fun hdone => hs.own hdone t (Or.inr hpc)
    refine ⟨hsound, hmoved.inserting, hmoved.dated, hmoved.expired, hmoved.flag, hmoved.own,
      hmoved.set, ?_, hmoved.onTime.2⟩
    show (s.crossed || (b && s.foreign t)) = false
    rw [hs.onTime.1, Bool.false_or, not_foreign hown]
    exact Bool.and_false b

/-- **An extraction** takes the timer of the round only after its deadline. -/
theorem hands_rounds (hs : s.Rounds addr call) {now : UInt64} {probe : ℕ} (hnow : now ≤ s.time)
    (hok : s.Separate call (.listExpired now probe)) (h : s.Hands addr now probe s') :
    s'.Rounds addr call := by
  have hsound := hands_sound hs.sound h
  obtain ⟨cbs, hscan⟩ := h.scans
  -- what is extracted of the round is due
  have helapsed : ∀ t, s.timer = some t → t ∈ s.timers.expired addr now probe → s.Elapsed call := by
    intro t ht hexp
    obtain ⟨hmem, hdue⟩ := (TimerManager.mem_expired hs.sound.wf.sorted).1 hexp
    rcases hdue with hroll | hdue
    · exact hok hnow hroll ⟨t, ht, hmem⟩
    · obtain ⟨-, a, ha, hnext⟩ := hs.dated t ht hmem
      rw [UInt64.le_iff_toNat_le] at hdue hnow
      exact ⟨a, ha, by omega⟩
  have hcbs : ∀ t pc, s'.callbacks t = some pc → pc ≠ .start → s.callbacks t = some pc := by
    intro t pc ht hne
    rcases h.callbacks t with heq | ⟨hstart, -⟩
    · rw [← heq]
      exact ht
    · rw [hstart] at ht
      exact absurd (Option.some.inj ht).symm hne
  rw [h.rest] at hsound ⊢
  refine ⟨hsound, hs.inserting, ?_, ?_, ?_, ?_, ?_, hs.onTime⟩
  · intro t ht hmem
    obtain ⟨hold, hsame⟩ := hscan.leaves (fun hold => (hs.dated t ht hold).1) hmem
    show (s'.timers.timer t).m_recurring = false ∧ _
    rw [hsame]
    exact hs.dated t ht hold
  · intro t ht hsome
    rcases h.callbacks t with heq | ⟨-, -, hexp⟩
    · refine hs.expired t ht ?_
      rw [← heq]
      exact hsome
    · exact helapsed t ht hexp
  · intro hdone hset
    obtain ⟨t, ht, hsome⟩ := hs.flag hdone hset
    refine ⟨t, ht, ?_⟩
    show s'.callbacks t ≠ none
    rcases h.callbacks t with heq | ⟨hstart, -⟩
    · rw [heq]
      exact hsome
    · rw [hstart]
      simp
  · intro hdone t ht
    refine hs.own hdone t ?_
    exact ht.imp (fun h => hcbs t _ h CbPc.noConfusion) (fun h => hcbs t _ h CbPc.noConfusion)
  · intro hdone t ht
    exact hs.set hdone t (hcbs t _ ht CbPc.noConfusion)

/-- **One step.** -/
theorem step_rounds (s s' : HookIo κ) (a : HookAct) (hs : s.Rounds addr call)
    (hok : s.Separate call a) (h : s.stepOk addr ctl call a = .ok s') : s'.Rounds addr call := by
  have hsound := step_sound hs.sound h
  cases a with
  | io n errno => exact moves_rounds hs hok (doIo_moves h)
  | callback t => exact fires_rounds hs hok (onTimer_fires h)
  | listExpired now probe =>
    simp only [stepOk] at h
    split at h
    · rename_i hnow
      exact hands_rounds hs hnow hok (listExpired_hands hs.sound h)
    · cases h
      exact hs
  | timerOp op =>
    simp only [stepOk] at h
    split at h
    · cases h
      exact hs
    · rename_i hguard
      obtain ⟨m, hcall, rfl⟩ := map_ok h
      refine ⟨hsound, hs.inserting, ?_, hs.expired, hs.flag, hs.own, hs.set, hs.onTime⟩
      intro t ht hmem
      have hmine := hs.sound.timer t ht
      have hother : op.handle ≠ some t := by
        intro heq
        rw [heq] at hguard
        exact hguard (by simpa using hmine)
      obtain ⟨hold, hsame⟩ :=
        TimerManager.call_leaves hs.sound.wf hcall (hs.sound.made t hmine) hother hmem
      show (m.timer t).m_recurring = false ∧ _
      rw [hsame]
      exact hs.dated t ht hold
  | eventOp op =>
    simp only [stepOk] at h
    split at h
    · cases h
      exact hs
    · obtain ⟨io, -, rfl⟩ := map_ok h
      exact ⟨hsound, hs.inserting, hs.dated, hs.expired, hs.flag, hs.own, hs.set, hs.onTime⟩
  | ready b =>
    cases h
    exact ⟨hsound, hs.inserting, hs.dated, hs.expired, hs.flag, hs.own, hs.set, hs.onTime⟩
  | tick now =>
    simp only [stepOk] at h
    split at h
    · rename_i hle
      cases h
      rw [UInt64.le_iff_toNat_le] at hle
      have hlater : s.Elapsed call → ({ s with time := now } : HookIo κ).Elapsed call := by
        rintro ⟨a, ha, hdeadline⟩
        exact ⟨a, ha, Nat.le_trans hdeadline hle⟩
      exact ⟨hsound, hs.inserting, hs.dated, fun t ht hsome => hlater (hs.expired t ht hsome),
        hs.flag, hs.own, hs.set, hs.onTime.1, fun h => hlater (hs.onTime.2 h)⟩
    · cases h
      exact hs

/-- **Timeouts come on time** in a run in which no callback outlasts its round. -/
theorem times_out_on_time (addr : ℕ ↪ ℕ) (ctl : EpollCtl κ) (call : IoCall) (now_ms : UInt64) (k : κ)
    (as : List HookAct)
    (hok : Along (step addr ctl call) (fun r a => IfOk (fun s => s.Separate call a) r)
      (.ok (init now_ms k)) as) :
    ∀ r ∈ trace (step addr ctl call) (.ok (init now_ms k)) as, IfOk (fun s => s.OnTime call) r := by
  intro r hr
  have hrounds := trace_ok_inv (fun _ _ => rfl) (I := fun s : HookIo κ => s.Rounds addr call)
    step_rounds as (init_rounds now_ms k) hok r hr
  cases r with
  | error e => exact trivial
  | ok s => exact hrounds.onTime

theorem times_out_on_time_recv :
    IfOk (fun s => s.OnTime recvCall)
      (run (step (.refl ℕ) IOManager.acceptAll recvCall) (.ok (init 0 ()))
        (recvExpires ++ [.io 0 0, .io 0 0, .io 0 0])) :=
  times_out_on_time (.refl ℕ) IOManager.acceptAll recvCall 0 ()
    (recvExpires ++ [.io 0 0, .io 0 0, .io 0 0]) (by decide) _ (run_mem_trace _ _)

/-- The timer of the first round is extracted, and the descriptor becomes ready before its
callback runs. There is nothing to receive after all, and the callback cancels the second round
at its start. -/
theorem expires_in_next_round : ∃ s : HookIo Unit,
    run (step (.refl ℕ) IOManager.acceptAll recvCall) (.ok (init 0 ()))
      [.io 0 0, .io (-1) EAGAIN, .io 0 0, .io 0 0, .io 0 0, .io 0 0, .tick 5, .listExpired 5 0,
        .eventOp (.dispatch 5 EPOLLIN), .io 0 0, .io 0 0, .io 0 0, .io (-1) EAGAIN, .io 0 0, .io 0 0,
        .io 0 0, .io 0 0, .callback 0, .callback 0, .callback 0, .callback 0, .io 0 0, .io 0 0,
        .io 0 0] = .ok s ∧
      s.crossed = true ∧ s.pc = .returned (-1) ETIMEDOUT ∧ ¬ s.Elapsed recvCall ∧
      ¬ s.OnTime recvCall :=
  ⟨_, rfl, by decide, by decide, by decide, by decide⟩

end HookIo

end Coroutine
