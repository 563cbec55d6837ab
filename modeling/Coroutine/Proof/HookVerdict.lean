import Coroutine.Proof.EventAwaiting
import Coroutine.Proof.HookConnect

/-!
# What hooked `connect` reports

`SO_ERROR` is 0 both on a connected socket and on one that is still connecting, so the answer of
`connect_with_timeout` is right only if it asks after the attempt has ended. It asks as soon as
`addEvent` has failed, and after any wake-up that is not the timeout's.

* `step_held`: while nothing disturbs the call, it is woken only after the attempt has ended or the
  timeout has been set.
* `verdict_undisturbed`: so in such runs it returns 0 only for a connection that was completed.
* `reports_connecting`: a refused registration, or `cancelAll` of a concurrent `close`, makes it
  report a connection that is still being made.
-/

namespace Coroutine

open Lib

namespace HookConnect

variable {κ : Type} {addr : ℕ ↪ ℕ} {ctl : EpollCtl κ} {call : ConnectCall} {s s' : HookConnect κ}

/-- **The answer is right**: the call returns 0 only for a connection that the kernel has completed,
and otherwise -1, with its timer no longer armed. -/
def Verdict (s : HookConnect κ) : Prop :=
  ∀ n errno, s.pc = .returned n errno →
    n = 0 ∧ s.completed = true ∨ n = -1 ∧ ∀ t, s.timer = some t → t ∉ s.timers.m_timers

/-- **Nothing disturbs the call**: `addEvent` does not fail while the attempt goes on; until the
attempt has ended or the timeout is set, nobody takes an event away that the fiber is registered for;
and `fd` does not become another socket's before the call returns, unless the connection was completed. -/
def Undisturbed (ctl : EpollCtl κ) (call : ConnectCall) (s : HookConnect κ) : ConnectAct → Prop
  | .connect _ _ => s.pc = .add → s.conn.pending = true →
    IfOk (fun r => r.1 = 0) (s.io.addEvent ctl call.caller call.fd .WRITE none)
  | .eventOp op => s.pc.asleep = true → s.conn.pending = true → s.cancelled = 0 →
    ∀ p < s.io.nctx, ∀ e ∈ [Event.READ, .WRITE],
      s.io.Awaits call.caller.fiber p e → ¬ s.io.Takes p e op
  | .reuse => s.pc.done = true ∨ s.completed = true
  | _ => True

instance (ctl : EpollCtl κ) (call : ConnectCall) (s : HookConnect κ) :
    DecidablePred (Undisturbed ctl call s)
  | .connect _ _ => inferInstanceAs (Decidable (_ → _ → IfOk _ _))
  | .eventOp _ => inferInstanceAs (Decidable (_ → _ → _ → ∀ p < s.io.nctx, _))
  | .reuse => inferInstanceAs (Decidable (_ ∨ _))
  | .callback | .listExpired _ _ | .timerOp _ | .finish _ | .close | .tick _ =>
    inferInstanceAs (Decidable True)

/-! ## What the call is woken for -/

/-- The attempt has ended, or the timeout is set. -/
def Decided (s : HookConnect κ) : Prop := s.conn.pending = false ∨ s.cancelled ≠ 0

/-- **What holds where the call stands**: a wake-up that it has not used yet, or has just used, has come
after the attempt had ended or the timeout was set, and `SO_ERROR` is asked for after the attempt. -/
def Here (call : ConnectCall) (s : HookConnect κ) : ConnectPc → Prop
  | .enter | .plain => s.conn = .idle
  | .connect => s.conn = .idle ∧ (s.taken < call.wakes s.io → s.Decided)
  | .arm | .insert _ | .add | .yielding | .suspended => s.taken < call.wakes s.io → s.Decided
  | .resumed | .check => s.Decided
  | .failed | .getsockopt => s.conn.pending = false
  | .returned n _ => n = 0 → s.completed = true

/-- A step of others, for every place where the call may stand. -/
theorem Here.mono {pc : ConnectPc} (h : s.Here call pc) (hidle : s.conn = .idle → s'.conn = .idle)
    (hwoken : pc.asleep = true → s'.taken < call.wakes s'.io →
      s.taken < call.wakes s.io ∨ s'.Decided)
    (hdecided : s.Decided → s'.Decided) (hover : s.conn.pending = false → s'.conn.pending = false)
    (hcompleted : s.completed = true → s'.completed = true) : s'.Here call pc := by
  cases pc with
  | enter | plain => exact hidle h
  | connect => exact ⟨hidle h.1, fun hlt => (hwoken rfl hlt).elim (hdecided ∘ h.2) id⟩
  | arm | insert now | add | yielding | suspended =>
    exact fun hlt => (hwoken rfl hlt).elim (hdecided ∘ h) id
  | resumed | check => exact hdecided h
  | failed | getsockopt => exact hover h
  | returned n errno => exact fun hn => hcompleted (h hn)

/-- **The call is held** until the attempt has ended or the timeout is set. -/
structure Held (addr : ℕ ↪ ℕ) (call : ConnectCall) (s : HookConnect κ) : Prop where
  sound : s.Sound addr
  io : s.io.OK
  flagged : s.callback = some .flagged → s.cancelled ≠ 0
  failed : ∀ error, s.conn = .failed error → error ≠ 0
  connected : s.conn = .connected → s.completed = true
  reused : s.conn = .reused → s.pc.done = true ∨ s.completed = true
  here : s.Here call s.pc

theorem init_held (now_ms : UInt64) (k : κ) : (init now_ms k).Held addr call where
  sound := init_sound now_ms k
  io := IOManager.init_ok k
  flagged := fun h => by cases h
  failed := fun _ h => by cases h
  connected := fun h => by cases h
  reused := fun h => by cases h
  here := rfl

/-- What holds where the call stands. -/
theorem Held.place (hs : s.Held addr call) {pc : ConnectPc} (hpc : s.pc = pc) : s.Here call pc := by
  rw [← hpc]
  exact hs.here

/-- The number of another socket, while the call goes on, is that of a completed connection. -/
theorem Held.completed (hs : s.Held addr call) (hdone : s.pc.done = false) (h : s.conn = .reused) :
    s.completed = true := by
  refine (hs.reused h).resolve_left ?_
  rw [hdone]
  exact Bool.false_ne_true

/-- **`getsockopt` after the attempt** finds no error only if the connection was completed. -/
theorem Held.soError (hs : s.Held addr call) (hpc : s.pc = .getsockopt) {ok : Bool} {errno : CInt}
    (h : s.conn.soError ok errno = some 0) : s.completed = true := by
  have hover : s.conn.pending = false := hs.place hpc
  cases ok with
  | false => cases h
  | true =>
    cases hconn : s.conn with
    | idle | connecting => rw [hconn] at hover; cases hover
    | connected => exact hs.connected hconn
    | failed error =>
      rw [hconn] at h
      exact absurd (Option.some.inj h) (hs.failed error hconn)
    | closed => rw [hconn] at h; cases h
    | reused => exact hs.completed (by rw [hpc]; rfl) hconn

/-- **A step of the call from one place to another** that leaves the connection and the events. -/
theorem Held.goes (hs : s.Held addr call) {pc : ConnectPc} (hpc : s.pc = pc) (hdone : pc.done = false)
    (hsound : s'.Sound addr)
    (hcall : s' = { s with timers := s'.timers, timer := s'.timer, taken := s'.taken, pc := s'.pc })
    (hhere : s.Here call pc → s'.Here call s'.pc) : s'.Held addr call := by
  have hconn : s'.conn = s.conn := by rw [hcall]
  have hcompleted : s'.completed = s.completed := by rw [hcall]
  refine ⟨hsound, ?_, ?_, ?_, ?_, ?_, hhere (hs.place hpc)⟩
  · rw [hcall]
    exact hs.io
  · rw [hcall]
    exact hs.flagged
  · rw [hconn]
    exact hs.failed
  · rw [hconn, hcompleted]
    exact hs.connected
  · intro h
    rw [hcompleted]
    exact .inr (hs.completed (by rw [hpc]; exact hdone) (hconn.symm.trans h))

/-- **`addEvent`** wakes nobody, and a registration that fails is one after the attempt. -/
theorem adds_held (hs : s.Held addr call) (hpc : s.pc = .add) {rt : ℤ} {io : IOManager κ}
    (hio : s.io.addEvent ctl call.caller call.fd .WRITE none = .ok (rt, io))
    (hok : s.conn.pending = true → rt = 0) {pc : ConnectPc}
    (hnext : pc = if rt = 0 then .yielding else .failed)
    (hsound : Sound addr { s with io := io, pc := pc }) :
    Held addr call { s with io := io, pc := pc } := by
  have hcall : (EventOp.addEvent call.caller call.fd .WRITE none).call ctl s.io = .ok io := by
    simp [EventOp.call, hio, Except.map]
  have hwakes : call.wakes io = call.wakes s.io := by
    rcases IOManager.call_wakes (f := call.caller.fiber) hs.io hcall with hsame | ⟨_, _, -, htakes⟩
    · exact hsame
    · cases htakes
  have hhere : s.taken < call.wakes s.io → s.Decided := hs.place hpc
  refine ⟨hsound, IOManager.call_keeps_ok hs.io hcall, hs.flagged, hs.failed, hs.connected,
    fun hconn => .inr (hs.completed (by rw [hpc]; rfl) hconn), ?_⟩
  by_cases hrt : rt = 0
  · rw [if_pos hrt] at hnext
    subst hnext
    intro hlt
    exact hhere (Nat.lt_of_lt_of_eq hlt hwakes)
  · -- `addEvent` failed, so the attempt was over and `SO_ERROR` tells how
    rw [if_neg hrt] at hnext
    subst hnext
    exact Bool.eq_false_of_not_eq_true fun hpend => hrt (hok hpend)

theorem moves_held (hs : s.Held addr call) {ok : Bool} {errno : CInt}
    (hok : s.Undisturbed ctl call (.connect ok errno)) (h : Moves addr ctl call s s') :
    s'.Held addr call := by
  have hsound := moves_sound hs.sound h
  cases h with
  | stays => exact hs
  | enters pc hpc hnext =>
    refine hs.goes hpc rfl hsound rfl fun hidle => ?_
    rcases hnext with rfl | rfl | rfl
    · exact hidle
    · exact ⟨hidle, fun h => absurd h (Nat.lt_irrefl _)⟩
    · intro h; cases h
  | succeeds errno hpc =>
    refine ⟨hsound, hs.io, hs.flagged, ?_, fun _ => rfl, fun _ => .inl rfl, fun _ => rfl⟩
    intro _ h; cases h
  | refused conn errno hpc hconn =>
    refine ⟨hsound, hs.io, hs.flagged, ?_, ?_, fun _ => .inl rfl, fun h => by cases h⟩
    · rcases hconn with rfl | rfl
      · exact hs.failed
      · intro _ h; cases h
    · rcases hconn with rfl | rfl
      · exact hs.connected
      · intro h; cases h
  | starts pc hpc hnext =>
    obtain ⟨hidle, hdecided⟩ : s.conn = .idle ∧ (s.taken < call.wakes s.io → s.Decided) :=
      hs.place hpc
    -- an idle socket counts as decided only through the timeout, and the attempt starts now
    have hwoken : s.taken < call.wakes s.io → s.cancelled ≠ 0 := by
      intro hlt
      refine (hdecided hlt).resolve_left ?_
      rw [hidle]
      exact Bool.noConfusion
    refine ⟨hsound, hs.io, hs.flagged, ?_, ?_, ?_, ?_⟩
    · intro _ h; cases h
    · intro h; cases h
    · intro h; cases h
    · rcases hnext with rfl | rfl
      · exact fun hlt => .inr (hwoken hlt)
      · exact fun hlt => .inr (hwoken hlt)
  | arms hpc => exact hs.goes hpc rfl hsound rfl id
  | inserts now hpc => exact hs.goes hpc rfl hsound rfl id
  | adds rt io hpc hio =>
    refine adds_held hs hpc hio (fun hpend => ?_) rfl hsound
    have hzero := hok hpc hpend
    rw [hio] at hzero
    exact hzero
  | cancels pc s₁ hcancel hpc =>
    obtain ⟨m, rfl, -, -, -⟩ := cancelTimer_disarms hs.sound.wf hcancel
    rcases hpc with ⟨hpc, rfl⟩ | ⟨hpc, rfl⟩
    · exact hs.goes hpc rfl hsound rfl id
    · exact hs.goes hpc rfl hsound rfl id
  | yields hpc => exact hs.goes hpc rfl hsound rfl id
  | wakes hpc htaken => exact hs.goes hpc rfl hsound rfl fun hdecided => hdecided htaken
  | timesOut hpc hset => exact hs.goes hpc rfl hsound rfl fun _ h => by cases h
  | asks hpc hset =>
    exact hs.goes hpc rfl hsound rfl fun hdecided => hdecided.resolve_right (not_not.2 hset)
  | answers ok n error errno hpc hn =>
    refine hs.goes hpc rfl hsound rfl fun _ hzero => ?_
    rcases hn with ⟨-, herror⟩ | rfl
    · exact hs.soError hpc herror
    · cases hzero

theorem fires_held (hs : s.Held addr call) (hsound : s'.Sound addr) (h : Fires ctl call s s') :
    s'.Held addr call := by
  cases h with
  | stays => exact hs
  | moves pc hne =>
    exact ⟨hsound, hs.io, fun h => absurd (Option.some.inj h) hne, hs.failed, hs.connected, hs.reused,
      hs.here⟩
  | flags =>
    have hset : ETIMEDOUT ≠ (0 : CInt) := by decide
    exact ⟨hsound, hs.io, fun _ => hset, hs.failed, hs.connected, hs.reused,
      hs.here.mono id (fun _ => .inl) (fun _ => .inr hset) id id⟩
  | cancels b io hpc hio =>
    have hcall : (EventOp.cancelEvent call.fd .WRITE).call ctl s.io = .ok io := by
      simp [EventOp.call, hio, Except.map]
    -- the flag is set already
    have hset := hs.flagged hpc
    refine ⟨hsound, IOManager.call_keeps_ok hs.io hcall, ?_, hs.failed, hs.connected, hs.reused,
      hs.here.mono id (fun _ _ => .inr (.inr hset)) id id id⟩
    intro h; cases h

/-- **An operation on events** that takes none of the fiber's away. -/
theorem eventOp_held (hs : s.Held addr call) {op : EventOp}
    (hok : s.Undisturbed ctl call (.eventOp op)) {io : IOManager κ}
    (h : op.call ctl s.io = .ok io) (hsound : Sound addr { s with io := io }) :
    Held addr call { s with io := io } := by
  refine ⟨hsound, IOManager.call_keeps_ok hs.io h, hs.flagged, hs.failed, hs.connected, hs.reused,
    hs.here.mono id ?_ id id id⟩
  intro hasleep hlt
  -- once decided the call may be woken by anyone; before, only by an event of its own
  by_cases hdecided : s.Decided
  · exact .inr hdecided
  obtain ⟨hpend, hunset⟩ := not_or.1 hdecided
  left
  rcases IOManager.call_wakes (f := call.caller.fiber) hs.io h with hsame | ⟨p, e, hwaits, htakes⟩
  · exact Nat.lt_of_lt_of_eq hlt hsame
  · have hnone := hok hasleep (Bool.eq_true_of_not_eq_false hpend) (not_not.1 hunset) p
      (hs.io.lt_nctx (hwaits.has hs.io))
    exact absurd htakes (hnone e (hwaits.event_mem) hwaits)

/-- **The end of the attempt**, in whatever way. -/
theorem Held.decides (hs : s.Held addr call) {conn : Connection} {completed : Bool}
    (hsound : Sound addr { s with conn := conn, completed := completed }) (hbusy : s.conn ≠ .idle)
    (hover : conn.pending = false) (hfailed : ∀ error, conn = .failed error → error ≠ 0)
    (hconnected : conn = .connected → completed = true)
    (hreused : conn = .reused → s.pc.done = true ∨ completed = true)
    (hcompleted : s.completed = true → completed = true) :
    Held addr call { s with conn := conn, completed := completed } := by
  refine ⟨hsound, hs.io, hs.flagged, hfailed, hconnected, hreused, ?_⟩
  exact hs.here.mono (fun h => absurd h hbusy) (fun _ => .inl) (fun _ => .inl hover) (fun _ => hover)
    hcompleted

/-- **One step.** -/
theorem step_held (s s' : HookConnect κ) (a : ConnectAct) (hs : s.Held addr call)
    (hok : s.Undisturbed ctl call a) (h : s.stepOk addr ctl call a = .ok s') : s'.Held addr call := by
  have hsound := step_sound hs.sound h
  cases a with
  | connect ok errno => exact moves_held hs hok (connect_with_timeout_moves h)
  | callback => exact fires_held hs hsound (onTimer_fires h)
  | listExpired now probe =>
    simp only [stepOk] at h
    split at h
    · obtain ⟨⟨cbs, m⟩, -, rfl⟩ := map_ok h
      refine ⟨hsound, hs.io, ?_, hs.failed, hs.connected, hs.reused, hs.here⟩
      dsimp only
      split
      · intro h; cases h
      · exact hs.flagged
    · cases h
      exact hs
  | timerOp op =>
    simp only [stepOk] at h
    split at h
    · cases h
      exact hs
    · obtain ⟨m, -, rfl⟩ := map_ok h
      exact ⟨hsound, hs.io, hs.flagged, hs.failed, hs.connected, hs.reused, hs.here⟩
  | eventOp op =>
    obtain ⟨io, hio, rfl⟩ := map_ok h
    exact eventOp_held hs hok hio hsound
  | finish error =>
    simp only [stepOk] at h
    split at h
    · rename_i hconn
      have hbusy : s.conn ≠ .idle := by rw [hconn]; exact Connection.noConfusion
      cases h
      by_cases herror : error = 0
      · rw [ends, if_pos herror] at hsound ⊢
        exact hs.decides hsound hbusy rfl (fun _ h => by cases h) (fun _ => rfl) (fun h => by cases h)
          fun _ => rfl
      · rw [ends, if_neg herror] at hsound ⊢
        refine hs.decides hsound hbusy rfl ?_ (fun h => by cases h) (fun h => by cases h) id
        intro _ h
        cases h
        exact herror
    · cases h
      exact hs
  | close =>
    simp only [stepOk] at h
    split at h
    · rename_i hopen
      cases h
      exact hs.decides hsound hopen.1 rfl (fun _ h => by cases h) (fun h => by cases h)
        (fun h => by cases h) id
    · cases h
      exact hs
  | reuse =>
    simp only [stepOk] at h
    split at h
    · rename_i hclosed
      have hbusy : s.conn ≠ .idle := by rw [hclosed]; exact Connection.noConfusion
      cases h
      exact hs.decides hsound hbusy rfl (fun _ h => by cases h) (fun h => by cases h) (fun _ => hok) id
    · cases h
      exact hs
  | tick now =>
    simp only [stepOk] at h
    split at h <;> cases h
    · exact ⟨hsound, hs.io, hs.flagged, hs.failed, hs.connected, hs.reused, hs.here⟩
    · exact hs

/-- What has returned has returned the right answer. -/
theorem Held.verdict (hs : s.Held addr call) : s.Verdict := by
  intro n errno hpc
  rcases hs.sound.result n errno hpc with rfl | rfl
  · have hhere := hs.here
    rw [hpc] at hhere
    exact .inl ⟨rfl, hhere rfl⟩
  · exact .inr ⟨rfl, hs.sound.disarmed (by rw [hpc]; rfl)⟩

/-- **A call that nothing disturbs** returns 0 only for a connection that was completed, and otherwise
-1, with its timer no longer armed. -/
theorem verdict_undisturbed (addr : ℕ ↪ ℕ) (ctl : EpollCtl κ) (call : ConnectCall) (now_ms : UInt64)
    (k : κ) (as : List ConnectAct)
    (hok : Along (step addr ctl call) (fun r a => IfOk (fun s => s.Undisturbed ctl call a) r)
      (.ok (init now_ms k)) as) :
    ∀ r ∈ trace (step addr ctl call) (.ok (init now_ms k)) as, IfOk Verdict r := by
  intro r hr
  have hheld := trace_ok_inv (fun _ _ => rfl) (I := fun s : HookConnect κ => s.Held addr call)
    step_held as (init_held now_ms k) hok r hr
  cases r with
  | error e => exact trivial
  | ok s => exact hheld.verdict

/-- A call of `connect` on a socket, with a timeout of 5 s. -/
def webConnect : ConnectCall where
  hook_enable := true
  ctx := some { isClose := false, isSocket := true, getUserNonblock := false, getTimeout := ~~~ 0 }
  fd := 5
  timeout_ms := 5000
  caller := ⟨some 0, 1, true⟩
  tinfo := 0
  cb := 7

/-- The connection is made while the call waits, and the event loop reports the socket writable. -/
def connects : List ConnectAct :=
  [.connect true 0, .connect false EINPROGRESS, .connect true 0, .connect true 0, .connect true 0,
    .connect true 0, .finish 0, .eventOp (.dispatch 5 EPOLLOUT), .connect true 0, .connect true 0,
    .connect true 0, .connect true 0]

theorem verdict_undisturbed_connects :
    IfOk Verdict
      (run (step (.refl ℕ) IOManager.acceptAll webConnect) (.ok (init 0 ())) connects) :=
  verdict_undisturbed (.refl ℕ) IOManager.acceptAll webConnect 0 () connects (by decide) _
    (run_mem_trace _ _)

/-- The kernel refuses every request. -/
def refuseAll : EpollCtl Unit := fun _ _ _ _ => (-1, ())

/-- Where `addEvent` fails, and where a concurrent `close` calls `cancelAll` while the call waits, it
returns 0 for a socket that is still connecting. -/
theorem reports_connecting :
    (∃ s : HookConnect Unit,
      run (step (.refl ℕ) refuseAll webConnect) (.ok (init 0 ()))
        [.connect true 0, .connect false EINPROGRESS, .connect true 0, .connect true 0,
          .connect true 0, .connect true 0, .connect true 0] = .ok s ∧
      s.pc = .returned 0 0 ∧ s.conn = .connecting ∧ ¬ s.Verdict) ∧
    ∃ s : HookConnect Unit,
      run (step (.refl ℕ) IOManager.acceptAll webConnect) (.ok (init 0 ()))
        [.connect true 0, .connect false EINPROGRESS, .connect true 0, .connect true 0,
          .connect true 0, .connect true 0, .eventOp (.cancelAll 5), .connect true 0, .connect true 0,
          .connect true 0, .connect true 0] = .ok s ∧
      s.pc = .returned 0 0 ∧ s.conn = .connecting ∧ ¬ s.Verdict := by
  have hwrong : ∀ s : HookConnect Unit, s.pc = .returned 0 0 → s.completed = false → ¬ s.Verdict := by
    intro s hpc hnot hverdict
    rcases hverdict 0 0 hpc with ⟨-, hcompleted⟩ | ⟨hneg, -⟩
    · rw [hnot] at hcompleted
      cases hcompleted
    · cases hneg
  exact ⟨⟨_, rfl, rfl, rfl, hwrong _ rfl rfl⟩, ⟨_, rfl, rfl, rfl, hwrong _ rfl rfl⟩⟩

end HookConnect

end Coroutine
