import Coroutine.Proof.HookIo
import Coroutine.Spec.HookConnect

/-!
# Steps of hooked `connect`

What one step of `connect_with_timeout` (`Moves`) and of its timer callback (`Fires`) can do.

* `cancelTimer_disarms`: `if(timer) timer->cancel()` takes the timer out of the set.
* `step_sound`, `returns_disarmed`: so a call that has returned, 0 or -1, has no armed timer.
-/

namespace Coroutine

open Lib

namespace HookConnect

variable {κ : Type} {addr : ℕ ↪ ℕ} {ctl : EpollCtl κ} {call : ConnectCall} {s s' : HookConnect κ}

/-! ## What a step can do -/

/-- **What a step of `connect_with_timeout` does.** -/
inductive Moves (addr : ℕ ↪ ℕ) (ctl : EpollCtl κ) (call : ConnectCall) (s : HookConnect κ) :
    HookConnect κ → Prop
  | stays : Moves addr ctl call s s
  | enters (pc : ConnectPc) (hpc : s.pc = .enter)
      (hnext : pc = .plain ∨ pc = .connect ∨ pc = .returned (-1) EBADF) :
      Moves addr ctl call s { s with taken := call.wakes s.io, pc := pc }
  | succeeds (errno : CInt) (hpc : s.pc = .plain ∨ s.pc = .connect) :
      Moves addr ctl call s { s.ends 0 with pc := .returned 0 errno }
  | refused (conn : Connection) (errno : CInt) (hpc : s.pc = .plain ∨ s.pc = .connect)
      (hconn : conn = s.conn ∨ conn = .connecting) :
      Moves addr ctl call s { s with conn := conn, pc := .returned (-1) errno }
  | starts (pc : ConnectPc) (hpc : s.pc = .connect) (hnext : pc = .arm ∨ pc = .add) :
      Moves addr ctl call s { s with conn := .connecting, pc := pc }
  | arms (hpc : s.pc = .arm) : Moves addr ctl call s { s with pc := .insert s.time }
  | inserts (now : UInt64) (hpc : s.pc = .insert now) :
      Moves addr ctl call s
        { s with
          timers := (s.timers.addTimer addr now call.timeout_ms
            (some (.onTimer call.tinfo (some call.cb))) false).2.1
          timer := some s.timers.made
          pc := .add }
  | adds (rt : ℤ) (io : IOManager κ) (hpc : s.pc = .add)
      (hio : s.io.addEvent ctl call.caller call.fd .WRITE none = .ok (rt, io)) :
      Moves addr ctl call s { s with io := io, pc := if rt = 0 then .yielding else .failed }
  | cancels (pc : ConnectPc) (s₁ : HookConnect κ) (hcancel : s.cancelTimer addr = .ok s₁)
      (hpc : s.pc = .failed ∧ pc = .getsockopt ∨ s.pc = .resumed ∧ pc = .check) :
      Moves addr ctl call s { s₁ with pc := pc }
  | yields (hpc : s.pc = .yielding) : Moves addr ctl call s { s with pc := .suspended }
  | wakes (hpc : s.pc = .suspended) (htaken : s.taken < call.wakes s.io) :
      Moves addr ctl call s { s with taken := s.taken + 1, pc := .resumed }
  | timesOut (hpc : s.pc = .check) (hset : s.cancelled ≠ 0) :
      Moves addr ctl call s { s with pc := .returned (-1) s.cancelled }
  | asks (hpc : s.pc = .check) (hset : s.cancelled = 0) :
      Moves addr ctl call s { s with pc := .getsockopt }
  | answers (ok : Bool) (n : ℤ) (error errno : CInt) (hpc : s.pc = .getsockopt)
      (hn : n = 0 ∧ s.conn.soError ok errno = some 0 ∨ n = -1) :
      Moves addr ctl call s { s with pc := .returned n error }

/-- `connect_f` completes the connection, starts it, or fails. -/
theorem connect_f_cases (s : HookConnect κ) (ok : Bool) (errno : CInt) :
    s.connect_f ok errno = (0, s.ends 0) ∨
      errno = EINPROGRESS ∧ s.connect_f ok errno = (-1, { s with conn := .connecting }) ∨
      errno ≠ EINPROGRESS ∧ s.connect_f ok errno = (-1, s) := by
  unfold connect_f
  cases ok with
  | true => exact .inl rfl
  | false =>
    right
    by_cases herr : errno = EINPROGRESS
    · exact .inl ⟨herr, if_pos herr⟩
    · exact .inr ⟨herr, if_neg herr⟩

theorem connect_with_timeout_moves {ok : Bool} {errno : CInt}
    (h : s.connect_with_timeout addr ctl call ok errno = .ok s') : Moves addr ctl call s s' := by
  unfold connect_with_timeout at h
  split at h <;> rename_i hpc
  · dsimp only at h
    split at h
    · cases h
      exact .enters _ hpc (.inl rfl)
    · split at h
      · cases h
        exact .enters _ hpc (.inr (.inr rfl))
      · split at h
        · cases h
          exact .enters _ hpc (.inr (.inr rfl))
        · split at h
          · cases h
            exact .enters _ hpc (.inl rfl)
          · split at h
            · cases h
              exact .enters _ hpc (.inl rfl)
            · cases h
              exact .enters _ hpc (.inr (.inl rfl))
  · dsimp only at h
    rcases s.connect_f_cases ok errno with heq | ⟨-, heq⟩ | ⟨-, heq⟩ <;> rw [heq] at h <;> cases h
    · exact .succeeds errno (.inl hpc)
    · exact .refused _ errno (.inl hpc) (.inr rfl)
    · exact .refused s.conn errno (.inl hpc) (.inl rfl)
  · dsimp only at h
    have hneg : (-1 : ℤ) ≠ 0 := by decide
    rcases s.connect_f_cases ok errno with heq | ⟨herr, heq⟩ | ⟨herr, heq⟩ <;> rw [heq] at h
    · cases h
      exact .succeeds errno (.inr hpc)
    · rw [if_neg hneg, if_neg (by simp [herr])] at h
      cases h
      refine .starts _ hpc ?_
      split
      · exact .inl rfl
      · exact .inr rfl
    · rw [if_neg hneg, if_pos (.inr herr)] at h
      cases h
      exact .refused s.conn errno (.inr hpc) (.inl rfl)
  · cases h
    exact .arms hpc
  · cases h
    exact .inserts _ hpc
  · obtain ⟨⟨rt, io⟩, hadd, rfl⟩ := map_ok h
    exact .adds rt io hpc hadd
  · obtain ⟨s₁, hcancel, rfl⟩ := map_ok h
    exact .cancels _ s₁ hcancel (.inl ⟨hpc, rfl⟩)
  · cases h
    exact .yields hpc
  · split at h
    · rename_i htaken
      cases h
      exact .wakes hpc htaken
    · cases h
      exact .stays
  · obtain ⟨s₁, hcancel, rfl⟩ := map_ok h
    exact .cancels _ s₁ hcancel (.inr ⟨hpc, rfl⟩)
  · split at h
    · rename_i hset
      cases h
      exact .timesOut hpc hset
    · rename_i hset
      cases h
      exact .asks hpc (not_not.1 hset)
  · split at h
    · cases h
      exact .answers ok _ _ errno hpc (.inr rfl)
    · rename_i error herror
      split at h
      · rename_i hzero
        cases h
        exact .answers ok _ _ errno hpc (.inl ⟨rfl, by rw [herror, hzero]⟩)
      · cases h
        exact .answers ok _ _ errno hpc (.inr rfl)
  · cases h
    exact .stays

/-- **What a step of the callback does.** -/
inductive Fires (ctl : EpollCtl κ) (call : ConnectCall) (s : HookConnect κ) : HookConnect κ → Prop
  | stays : Fires ctl call s s
  | moves (pc : CbPc) (hne : pc ≠ .flagged) : Fires ctl call s { s with callback := some pc }
  | flags : Fires ctl call s { s with callback := some .flagged, cancelled := ETIMEDOUT }
  | cancels (b : Bool) (io : IOManager κ) (hpc : s.callback = some .flagged)
      (hio : s.io.cancelEvent ctl call.fd .WRITE = .ok (b, io)) :
      Fires ctl call s { s with callback := some .finished, io := io }

theorem onTimer_fires (h : s.onTimer ctl call = .ok s') : Fires ctl call s s' := by
  unfold onTimer at h
  split at h
  · cases h
    exact .stays
  · cases h
    exact .stays
  · cases h
    exact .moves _ (by split <;> exact CbPc.noConfusion)
  · cases h
    exact .moves _ (by split <;> exact CbPc.noConfusion)
  · cases h
    exact .flags
  · rename_i hpc
    obtain ⟨⟨b, io⟩, hcancel, rfl⟩ := map_ok h
    exact .cancels b io hpc hcancel

/-- **`if(timer) timer->cancel()`** takes the timer out of the set, and does nothing else. -/
theorem cancelTimer_disarms (hm : s.timers.WF addr) (h : s.cancelTimer addr = .ok s') :
    ∃ m, s' = { s with timers := m } ∧ m.WF addr ∧ s.timers.made ≤ m.made ∧
      ∀ t, s.timer = some t → t ∉ m.m_timers := by
  unfold cancelTimer at h
  split at h
  · rename_i hnone
    cases h
    refine ⟨s.timers, rfl, hm, le_rfl, fun t ht => ?_⟩
    rw [hnone] at ht
    cases ht
  · rename_i timer htimer
    obtain ⟨⟨b, m⟩, hcancel, rfl⟩ := map_ok h
    have hcall : (TimerOp.cancel timer).call addr s.timers = .ok m := by
      simp [TimerOp.call, hcancel, Except.map]
    obtain ⟨hwf, hle⟩ := TimerManager.call_made hm hcall
    refine ⟨m, rfl, hwf, hle, fun t ht => ?_⟩
    rw [htimer] at ht
    cases ht
    exact TimerManager.not_mem_of_cancel hm hcancel

/-! ## The timer -/

/-- **The call has one timer**, made by `addConditionTimer` and out of the set once it was cancelled;
and it returns 0 or -1. -/
structure Sound (addr : ℕ ↪ ℕ) (s : HookConnect κ) : Prop where
  wf : s.timers.WF addr
  made : ∀ t, s.timer = some t → t < s.timers.made
  unarmed : s.pc.unarmed = true → s.timer = none
  disarmed : s.pc.disarmed = true → ∀ t, s.timer = some t → t ∉ s.timers.m_timers
  result : ∀ n errno, s.pc = .returned n errno → n = 0 ∨ n = -1

theorem init_sound (now_ms : UInt64) (k : κ) : (init now_ms k).Sound addr := by
  refine ⟨TimerManager.init_wf now_ms, ?_, fun _ => rfl, ?_, ?_⟩
  · intro t ht; cases ht
  · intro h; cases h
  · intro n errno h; cases h

/-- A step of others on the timers. -/
theorem Sound.timers (hs : s.Sound addr) {m : TimerManager} (hm : m.WF addr)
    (hmade : s.timers.made ≤ m.made)
    (hleft : ∀ t, s.timer = some t → t ∈ m.m_timers → t ∈ s.timers.m_timers)
    (htimers : s'.timers = m) (htimer : s'.timer = s.timer) (hpc : s'.pc = s.pc) :
    s'.Sound addr := by
  refine ⟨by rwa [htimers], ?_, ?_, ?_, ?_⟩
  · intro t ht
    rw [htimer] at ht
    rw [htimers]
    exact Nat.lt_of_lt_of_le (hs.made t ht) hmade
  · rw [hpc, htimer]
    exact hs.unarmed
  · intro hdis t ht hmem
    rw [hpc] at hdis
    rw [htimer] at ht
    rw [htimers] at hmem
    exact hs.disarmed hdis t ht (hleft t ht hmem)
  · rw [hpc]
    exact hs.result

/-- A step that leaves the timers. -/
theorem Sound.frame (hs : s.Sound addr) (htimers : s'.timers = s.timers) (htimer : s'.timer = s.timer)
    (hpc : s'.pc = s.pc) : s'.Sound addr :=
  hs.timers hs.wf le_rfl (fun _ _ => id) htimers htimer hpc

/-- A step of the call that leaves the timers. -/
theorem Sound.goes (hs : s.Sound addr) (htimers : s'.timers = s.timers) (htimer : s'.timer = s.timer)
    (hunarmed : s'.pc.unarmed = true → s.pc.unarmed = true)
    (hdisarmed : s'.pc.disarmed = true → s.pc.unarmed = true ∨ s.pc.disarmed = true)
    (hresult : ∀ n errno, s'.pc = .returned n errno → n = 0 ∨ n = -1) : s'.Sound addr := by
  refine ⟨by rw [htimers]; exact hs.wf, by rw [htimers, htimer]; exact hs.made, ?_, ?_, hresult⟩
  · intro h
    rw [htimer]
    exact hs.unarmed (hunarmed h)
  · intro h t ht
    rw [htimer] at ht
    rw [htimers]
    rcases hdisarmed h with hun | hdis
    · rw [hs.unarmed hun] at ht
      cases ht
    · exact hs.disarmed hdis t ht

/-- A step of the call before it has a timer. -/
theorem Sound.early (hs : s.Sound addr) (htimers : s'.timers = s.timers) (htimer : s'.timer = s.timer)
    (hun : s.pc.unarmed = true) (hresult : ∀ n errno, s'.pc = .returned n errno → n = 0 ∨ n = -1) :
    s'.Sound addr :=
  hs.goes htimers htimer (fun _ => hun) (fun _ => .inl hun) hresult

/-- A step of the call while its timer may be armed. -/
theorem Sound.midway (hs : s.Sound addr) (htimers : s'.timers = s.timers)
    (htimer : s'.timer = s.timer) (hun : s'.pc.unarmed = false) (hdis : s'.pc.disarmed = false) :
    s'.Sound addr := by
  refine hs.goes htimers htimer ?_ ?_ ?_
  · rw [hun]; exact fun h => by cases h
  · rw [hdis]; exact fun h => by cases h
  · intro n errno hpc
    rw [hpc] at hdis
    cases hdis

/-- A step of the call after its timer was cancelled. -/
theorem Sound.late (hs : s.Sound addr) (htimers : s'.timers = s.timers) (htimer : s'.timer = s.timer)
    (hdis : s.pc.disarmed = true) (hun : s'.pc.unarmed = false)
    (hresult : ∀ n errno, s'.pc = .returned n errno → n = 0 ∨ n = -1) : s'.Sound addr := by
  refine hs.goes htimers htimer ?_ (fun _ => .inr hdis) hresult
  rw [hun]
  exact fun h => by cases h

theorem moves_sound (hs : s.Sound addr) (h : Moves addr ctl call s s') : s'.Sound addr := by
  cases h with
  | stays => exact hs
  | enters pc hpc hnext =>
    have hun : s.pc.unarmed = true := by rw [hpc]; rfl
    refine hs.early rfl rfl hun ?_
    rintro n errno rfl
    rcases hnext with h | h | h <;> cases h
    exact .inr rfl
  | succeeds errno hpc =>
    have hun : s.pc.unarmed = true := by rcases hpc with h | h <;> rw [h] <;> rfl
    refine hs.early rfl rfl hun ?_
    intro n _ h
    cases h
    exact .inl rfl
  | refused conn errno hpc hconn =>
    have hun : s.pc.unarmed = true := by rcases hpc with h | h <;> rw [h] <;> rfl
    refine hs.early rfl rfl hun ?_
    intro n _ h
    cases h
    exact .inr rfl
  | starts pc hpc hnext =>
    have hun : s.pc.unarmed = true := by rw [hpc]; rfl
    refine hs.early rfl rfl hun ?_
    rintro n errno rfl
    rcases hnext with h | h <;> cases h
  | arms hpc =>
    have hun : s.pc.unarmed = true := by rw [hpc]; rfl
    exact hs.early rfl rfl hun fun n errno h => by cases h
  | inserts now hpc =>
    refine ⟨TimerManager.addTimer_wf hs.wf now call.timeout_ms _ false, ?_, ?_, ?_, ?_⟩
    · intro t ht
      cases ht
      rw [TimerManager.addTimer_made]
      exact Nat.lt_succ_self _
    · intro h; cases h
    · intro h; cases h
    · intro n errno h; cases h
  | adds rt io hpc hio =>
    split
    · exact hs.midway rfl rfl rfl rfl
    · exact hs.midway rfl rfl rfl rfl
  | cancels pc s₁ hcancel hpc =>
    obtain ⟨m, rfl, hwf, hle, hout⟩ := cancelTimer_disarms hs.wf hcancel
    have hnext : pc = .getsockopt ∨ pc = .check := hpc.imp And.right And.right
    refine ⟨hwf, fun t ht => Nat.lt_of_lt_of_le (hs.made t ht) hle, ?_, fun _ => hout, ?_⟩
    · intro h
      rcases hnext with rfl | rfl <;> cases h
    · rintro n errno rfl
      rcases hnext with h | h <;> cases h
  | yields hpc => exact hs.midway rfl rfl rfl rfl
  | wakes hpc htaken => exact hs.midway rfl rfl rfl rfl
  | timesOut hpc hset =>
    have hdis : s.pc.disarmed = true := by rw [hpc]; rfl
    refine hs.late rfl rfl hdis rfl ?_
    intro n errno h
    cases h
    exact .inr rfl
  | asks hpc hset =>
    have hdis : s.pc.disarmed = true := by rw [hpc]; rfl
    exact hs.late rfl rfl hdis rfl fun n errno h => by cases h
  | answers ok n error errno hpc hn =>
    have hdis : s.pc.disarmed = true := by rw [hpc]; rfl
    refine hs.late rfl rfl hdis rfl ?_
    intro n' _ h
    cases h
    exact hn.imp And.left id

/-- **Every step.** -/
theorem step_sound (hs : s.Sound addr) {a : ConnectAct} (h : s.stepOk addr ctl call a = .ok s') :
    s'.Sound addr := by
  cases a with
  | connect ok errno => exact moves_sound hs (connect_with_timeout_moves h)
  | callback => cases onTimer_fires h <;> exact hs.frame rfl rfl rfl
  | listExpired now probe =>
    simp only [stepOk] at h
    split at h
    · obtain ⟨⟨cbs, m⟩, hlist, rfl⟩ := map_ok h
      have hscan := (TimerManager.listExpired_scans hs.wf.sorted hlist).1
      exact hs.timers (TimerManager.listExpired_wf hs.wf hlist) (Nat.le_of_eq hscan.made.symm)
        (fun t _ ht => ((hscan.mem t).1 ht).1) rfl rfl rfl
    · cases h
      exact hs
  | timerOp op =>
    simp only [stepOk] at h
    split at h
    · cases h
      exact hs
    · rename_i hguard
      obtain ⟨m, hcall, rfl⟩ := map_ok h
      obtain ⟨hwf, hle⟩ := TimerManager.call_made hs.wf hcall
      refine hs.timers hwf hle (fun t ht hmem => ?_) rfl rfl rfl
      -- other code has no handle of the timer of the call
      have hother : op.handle ≠ some t := by
        intro heq
        rw [heq, ht] at hguard
        exact hguard (by simp)
      exact (TimerManager.call_leaves hs.wf hcall (hs.made t ht) hother hmem).1
  | eventOp op =>
    obtain ⟨io, -, rfl⟩ := map_ok h
    exact hs.frame rfl rfl rfl
  | finish error =>
    simp only [stepOk] at h
    split at h
    · cases h
      unfold ends
      split <;> exact hs.frame rfl rfl rfl
    · cases h
      exact hs
  | close =>
    simp only [stepOk] at h
    split at h <;> cases h
    · exact hs.frame rfl rfl rfl
    · exact hs
  | reuse =>
    simp only [stepOk] at h
    split at h <;> cases h
    · exact hs.frame rfl rfl rfl
    · exact hs
  | tick now =>
    simp only [stepOk] at h
    split at h <;> cases h
    · exact hs.frame rfl rfl rfl
    · exact hs

/-- **A call that has returned** has returned 0 or -1, and its timer is not armed, whatever has happened
meanwhile. -/
theorem returns_disarmed (addr : ℕ ↪ ℕ) (ctl : EpollCtl κ) (call : ConnectCall) (now_ms : UInt64)
    (k : κ) (as : List ConnectAct) (n : ℤ) (errno : CInt)
    (h : run (step addr ctl call) (.ok (init now_ms k)) as = .ok s) (hpc : s.pc = .returned n errno) :
    (n = 0 ∨ n = -1) ∧ ∀ t, s.timer = some t → t ∉ s.timers.m_timers := by
  have hsound : s.Sound addr :=
    run_ok_inv (fun _ _ => rfl) (fun _ _ _ _ hs h => step_sound hs h) (init_sound now_ms k) h
  exact ⟨hsound.result n errno hpc, hsound.disarmed (by rw [hpc]; rfl)⟩

end HookConnect

end Coroutine
