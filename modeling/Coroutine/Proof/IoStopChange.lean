import Coroutine.Proof.SchedulerMoves
import Coroutine.Spec.IoStop

/-!
# What a step of a stopping `IOManager` can do

* `dispatch_eq`, `cancelEventAt_eq`, `cancelAllAt_eq`: a section that triggers events, cut at
  `epoll_ctl`, is the section as one step, if nothing comes between.
* `Change env s a s'`: one constructor for each thing a step can do to what a shutdown is about,
  which is the scheduler, `m_timers`, `m_pendingEventCount` and the callbacks extracted.
* `step_change`: there is nothing else.
-/

namespace Coroutine

open Scheduler

/-! ## Sections that trigger events -/

theorem FdContext.triggerEvent_events {c : FdContext} {event : Event}
    {r : FdContext × ℕ × Option FiberOrcb} (h : c.triggerEvent event = .ok r) :
    r.1.m_events = c.m_events &&& ~~~ event.bits := by
  unfold triggerEvent at h
  split at h
  · cases h
  · dsimp only at h
    split at h
    · cases h
    · split at h
      · cases h
      · split at h <;>
        · cases h
          cases event <;> rfl

namespace IOManager

variable {κ : Type}

/-- The rest of a section that triggers events. -/
def consumeAll (s : IOManager κ) (p : ℕ) (events : List Event) : Except Fault (IOManager κ) :=
  events.foldlM (fun s event => s.consume p event) s

theorem consumeIf_eq (s : IOManager κ) (p : ℕ) (b : Bool) (event : Event) :
    consumeIf b s p event = s.consumeAll p (if b then [event] else []) := by
  cases b with
  | false => rfl
  | true =>
    unfold consumeIf consumeAll
    rw [if_pos rfl, if_pos rfl, List.foldlM_cons]
    cases s.consume p event with
    | error e => rfl
    | ok s' => rfl

theorem consumeAll_append (s : IOManager κ) (p : ℕ) (l r : List Event) :
    s.consumeAll p (l ++ r) = (s.consumeAll p l).bind fun s => s.consumeAll p r :=
  List.foldlM_append

/-- Triggering `READ` leaves the bit of `WRITE` as it was. -/
theorem consumeIf_write {s s' : IOManager κ} {p : ℕ} {b : Bool} (h : consumeIf b s p .READ = .ok s') :
    (s'.fdctx p).m_events &&& Event.WRITE.bits = (s.fdctx p).m_events &&& Event.WRITE.bits := by
  unfold consumeIf consume at h
  split at h
  · split at h
    · cases h
    · rename_i fd_ctx sched task htrigger
      cases h
      have hevents : fd_ctx.m_events = _ := FdContext.triggerEvent_events htrigger
      show (if p = p then fd_ctx else s.fdctx p).m_events &&& _ = _
      rw [if_pos rfl, hevents, BitVec.and_assoc]
      rfl
  · cases h; rfl

/-- **A turn of the event loop** is its section up to `epoll_ctl`, and then its triggers. -/
theorem dispatch_eq (ctl : EpollCtl κ) (s : IOManager κ) (p : ℕ) (events : BitVec 32) :
    s.dispatch ctl p events =
      match s.turn ctl p events with
      | (none, io) => .ok ([], io)
      | (some todo, io) => (io.consumeAll p todo).map (todo, ·) := by
  unfold dispatch turn
  dsimp only
  split
  · rfl
  · split
    · rfl
    · dsimp only
      rw [consumeAll_append, consumeIf_eq]
      simp only [decide_eq_true_eq]
      cases consumeAll _ p _ with
      | error e => rfl
      | ok s₁ =>
        dsimp only [Except.bind]
        rw [consumeIf_eq]
        simp only [decide_eq_true_eq]
        cases consumeAll s₁ p _ with
        | error e => rfl
        | ok s₂ => rfl

/-- So is `cancelEvent`. -/
theorem cancelEventAt_eq (ctl : EpollCtl κ) (s : IOManager κ) (p : ℕ) (fd : Int32) (event : Event) :
    s.cancelEventAt ctl p fd event =
      match s.cancelOne ctl fd event p with
      | (none, io) => .ok (false, io)
      | (some todo, io) => (io.consumeAll p todo).map (true, ·) := by
  unfold cancelEventAt cancelOne
  dsimp only
  split
  · rfl
  · split
    · rfl
    · exact congrArg (Except.map _) (consumeIf_eq _ p true event)

/-- And so is `cancelAll`, with its assertion at the end. -/
theorem cancelAllAt_eq (ctl : EpollCtl κ) (s : IOManager κ) (p : ℕ) (fd : Int32) :
    s.cancelAllAt ctl p fd =
      match s.cancelBoth ctl fd p with
      | (none, io) => .ok (false, io)
      | (some todo, io) => (io.consumeAll p todo).bind fun io =>
          if (io.fdctx p).m_events = 0 then .ok (true, io) else .error .assertion := by
  unfold cancelAllAt cancelBoth
  dsimp only
  split
  · rfl
  · split
    · rfl
    · dsimp only
      rw [consumeAll_append]
      have hread := consumeIf_eq { s with kernel := (ctl s.kernel .DEL fd 0).2 } p
        (decide ((s.fdctx p).m_events &&& Event.READ.bits ≠ 0)) .READ
      simp only [decide_eq_true_eq] at hread
      rw [← hread]
      cases hok : consumeIf _ _ p Event.READ with
      | error e => rfl
      | ok s₁ =>
        have hwrite := consumeIf_write hok
        dsimp only [Except.bind] at hwrite ⊢
        rw [hwrite, consumeIf_eq]
        simp only [decide_eq_true_eq]
        cases consumeAll s₁ p _ with
        | error e => rfl
        | ok s₂ => rfl
end IOManager

/-! ## Steps -/

/-- The callbacks a worker has extracted and not handed out yet, with the number of the first. -/
def Idling.holds : Idling → Option (ℕ × List (Option TimerCb))
  | .expired first cbs _ => some (first, cbs)
  | _ => none

namespace IoStop

variable {W T κ : Type}

/-- `m_timers` and `m_pendingEventCount` are as they were, and no callback is extracted or
handed out. -/
structure Still (s s' : IoStop W T κ) : Prop where
  timers : s'.timers.m_timers = s.timers.m_timers
  pending : s'.io.m_pendingEventCount = s.io.m_pendingEventCount
  extracted : s'.extracted = s.extracted
  entry : s'.entry = s.entry

/-- Asking for the next timer leaves `m_timers` alone. -/
theorem getNextTimer_timers (m : TimerManager) (now_ms : UInt64) :
    (m.getNextTimer now_ms).2.m_timers = m.m_timers := by
  unfold TimerManager.getNextTimer
  dsimp only
  split
  · rfl
  · split <;> rfl

theorem stoppingStep_timers (s : IoStop W T κ) (now_ms : UInt64) (t : Stopping) :
    (s.stoppingStep now_ms t).2.m_timers = s.timers.m_timers := by
  cases t with
  | start => exact getNextTimer_timers s.timers now_ms
  | asked timeout => rfl
  | counted => rfl

/-- `stopping(timeout)` returns true only after its last read. -/
theorem stoppingStep_true {s : IoStop W T κ} (now_ms : UInt64) {t : Stopping}
    (h : (s.stoppingStep now_ms t).1 = .inr true) : t = .counted ∧ s.sched.stopping := by
  cases t with
  | start => cases h
  | asked timeout =>
    simp only [stoppingStep] at h
    split at h <;> cases h
  | counted => exact ⟨rfl, of_decide_eq_true (Sum.inr.inj h)⟩

/-- The step is a call by `q` on the timers or the events, or one of its triggers. -/
def Calls (s : IoStop W T κ) (a : StopAct W T) (q : W ⊕ T) : Prop :=
  (∃ o, a = .timer q o) ∧ s.inUser q = true ∨ (∃ o, a = .event q o) ∧ s.inUser q = true ∨
    a = .trigger q ∧ s.inCall q = true

variable [DecidableEq W] [DecidableEq T] [Fintype W]

/-- **The changes.** -/
inductive Change (env : StopEnv W κ) (s : IoStop W T κ) : StopAct W T → IoStop W T κ → Prop
  | stay (a : StopAct W T) : Change env s a s
  | abort (a : StopAct W T) (e : Fault) : Change env s a (s.abort e)
  -- a step of the scheduler
  | run (w : W) (now_ms : UInt64) (probe : ℕ) (idle : W → Idling) (sched : Scheduler W)
      (hpc : (s.sched.worker w).pc ≠ .idle) (h : Move env.pool s.sched (.run w) sched)
      (hidle : idle = s.idle ∨
        (s.sched.worker w).pc = .idleIn ∧ idle = Function.update s.idle w (.testing .start)) :
      Change env s (.run w now_ms probe) { s with sched := sched, idle := idle }
  | user (w : W) (u : UserAct) : Change env s (.user w u) { s with sched := s.sched.userStep w u }
  | call (th : T) (c : SchedCall) :
      Change env s (.call th c) { s with sched := s.sched.call none c }
  | stop (now_ms : UInt64) (hearly : s.sched.stopPc ≠ .earlyTest) (htest : s.sched.stopPc ≠ .test) :
      Change env s (.stop now_ms) { s with sched := s.sched.stopStep env.pool }
  -- `stopping()` in `stop()`
  | ask (now_ms : UInt64) (s' : IoStop W T κ) (hstill : s.Still s') (hsched : s'.sched = s.sched)
      (hidle : s'.idle = s.idle) : Change env s (.stop now_ms) s'
  | tested (now_ms : UInt64) (b : Bool) (yes no : StopPc) (s' : IoStop W T κ)
      (hpc : s.sched.stopPc = .earlyTest ∧ yes = .done ∧ no = .mark ∨
        s.sched.stopPc = .test ∧ yes = .join ∧ no = .call)
      (hb : b = true → s.test = .counted ∧ s.sched.stopping) (hstill : s.Still s')
      (hsched : s'.sched = { s.sched with stopPc := if b then yes else no })
      (hidle : s'.idle = s.idle) : Change env s (.stop now_ms) s'
  -- in `idle()`
  | turn (a : StopAct W T) (w : W) (pc : Idling) (s' : IoStop W T κ)
      (hpc : (s.sched.worker w).pc = .idle) (hold : (s.idle w).holds = none) (hnew : pc.holds = none)
      (hstill : s.Still s') (hsched : s'.sched = s.sched)
      (hidle : s'.idle = Function.update s.idle w pc) : Change env s a s'
  | pass (w : W) (now_ms : UInt64) (probe : ℕ) (hpc : (s.sched.worker w).pc = .idle)
      (hidle : s.idle w = .testing .counted) (hstop : s.sched.stopping) :
      Change env s (.run w now_ms probe) (s.leaveIdle w .TERM)
  | yield (w : W) (now_ms : UInt64) (probe : ℕ) (hpc : (s.sched.worker w).pc = .idle)
      (hidle : s.idle w = .events []) : Change env s (.run w now_ms probe) (s.leaveIdle w .HOLD)
  | expire (w : W) (now_ms : UInt64) (probe : ℕ) (now : UInt64) (cbs : List (Option TimerCb))
      (events : List (ℕ × BitVec 32)) (timers : TimerManager) (hpc : (s.sched.worker w).pc = .idle)
      (hidle : s.idle w = .checked now events) :
      Change env s (.run w now_ms probe) { s.setIdle w (.expired s.extracted.length cbs events) with
        timers := timers, extracted := s.extracted ++ cbs }
  | handOut (w : W) (now_ms : UInt64) (probe : ℕ) (first : ℕ) (cbs : List (Option TimerCb))
      (events : List (ℕ × BitVec 32)) (hpc : (s.sched.worker w).pc = .idle)
      (hidle : s.idle w = .expired first cbs events) :
      Change env s (.run w now_ms probe) ((s.handOut env first cbs).setIdle w (.events events))
  -- a call on the timers or the events, and triggers
  | inCall (a : StopAct W T) (q : W ⊕ T) (s' : IoStop W T κ) (hq : s.Calls a q)
      (hsched : s'.sched = s.sched ∨ ∃ task, s'.sched = s.sched.call none (.scheduler task (-1)))
      (hidle : s'.idle = s.idle) (hextracted : s'.extracted = s.extracted)
      (hentry : s'.entry = s.entry) : Change env s a s'

variable {env : StopEnv W κ} {s : IoStop W T κ}

omit [DecidableEq T] in
theorem testStep_change (now_ms : UInt64) {yes no : StopPc}
    (hpc : s.sched.stopPc = .earlyTest ∧ yes = .done ∧ no = .mark ∨
      s.sched.stopPc = .test ∧ yes = .join ∧ no = .call) :
    Change env s (.stop now_ms) (s.testStep now_ms yes no) := by
  have htimers := s.stoppingStep_timers now_ms s.test
  unfold testStep
  cases hstep : s.stoppingStep now_ms s.test with
  | mk r timers =>
    rw [hstep] at htimers
    cases r with
    | inl t => exact .ask now_ms _ ⟨htimers, rfl, rfl, rfl⟩ rfl rfl
    | inr b =>
      refine .tested now_ms b yes no _ hpc (fun hb => ?_) ⟨htimers, rfl, rfl, rfl⟩ rfl rfl
      refine stoppingStep_true now_ms ?_
      rw [hstep, hb]

omit [DecidableEq T] in
theorem stopStep_change (now_ms : UInt64) :
    Change env s (.stop now_ms) (s.stopStep env now_ms) := by
  unfold stopStep
  split
  · rename_i hpc; exact testStep_change now_ms (.inl ⟨hpc, rfl, rfl⟩)
  · rename_i hpc; exact testStep_change now_ms (.inr ⟨hpc, rfl, rfl⟩)
  · rename_i hearly htest; exact .stop now_ms hearly htest

omit [Fintype W] in
/-- Beginning to trigger leaves everything but the triggers alone. -/
theorem begin_frame (s : IoStop W T κ) (q : W ⊕ T) (p : ℕ) (all : Bool) (todo : Option (List Event)) :
    s.Still (s.begin q p all todo) ∧ (s.begin q p all todo).sched = s.sched ∧
      (s.begin q p all todo).idle = s.idle := by
  cases todo with
  | none => exact ⟨⟨rfl, rfl, rfl, rfl⟩, rfl, rfl⟩
  | some events => exact ⟨⟨rfl, rfl, rfl, rfl⟩, rfl, rfl⟩

theorem turn_pending (ctl : EpollCtl κ) (io : IOManager κ) (p : ℕ) (events : BitVec 32) :
    (io.turn ctl p events).2.m_pendingEventCount = io.m_pendingEventCount := by
  unfold IOManager.turn
  dsimp only
  split
  · rfl
  · split <;> rfl

theorem idleStep_change (w : W) (now_ms : UInt64) (probe : ℕ)
    (hpc : (s.sched.worker w).pc = .idle) :
    Change env s (.run w now_ms probe) (s.idleStep env w now_ms probe) := by
  unfold idleStep
  cases hidle : s.idle w with
  | testing t =>
    have htimers := s.stoppingStep_timers now_ms t
    have hold : (s.idle w).holds = none := by rw [hidle]; rfl
    dsimp only
    cases hstep : s.stoppingStep now_ms t with
    | mk r timers =>
      rw [hstep] at htimers
      cases r with
      | inl t' => exact .turn _ w (.testing t') _ hpc hold rfl ⟨htimers, rfl, rfl, rfl⟩ rfl rfl
      | inr b =>
        cases b with
        | false => exact .turn _ w .waiting _ hpc hold rfl ⟨htimers, rfl, rfl, rfl⟩ rfl rfl
        | true =>
          obtain ⟨rfl, hstop⟩ := stoppingStep_true now_ms (congrArg Prod.fst hstep)
          obtain rfl : s.timers = timers := congrArg Prod.snd hstep
          exact .pass w now_ms probe hpc hidle hstop
  | waiting => exact .stay _
  | woken events =>
    have hold : (s.idle w).holds = none := by rw [hidle]; rfl
    dsimp only
    split
    · exact .turn _ w (.events events) _ hpc hold rfl ⟨rfl, rfl, rfl, rfl⟩ rfl rfl
    · exact .turn _ w (.checked now_ms events) _ hpc hold rfl ⟨rfl, rfl, rfl, rfl⟩ rfl rfl
  | checked now events =>
    dsimp only
    split
    · exact .abort _ _
    · exact .expire w now_ms probe now _ events _ hpc hidle
  | expired first cbs events => exact .handOut w now_ms probe first cbs events hpc hidle
  | events events =>
    have hold : (s.idle w).holds = none := by rw [hidle]; rfl
    cases events with
    | nil => exact .yield w now_ms probe hpc hidle
    | cons e events =>
      dsimp only
      split
      · exact .stay _
      · obtain ⟨hstill, hsched, hsame⟩ := begin_frame
          { s with io := (s.io.turn env.ctl e.1 e.2).2 } (.inl w) e.1 false (s.io.turn env.ctl e.1 e.2).1
        refine .turn _ w (.events events) _ hpc hold rfl ?_ hsched ?_
        · exact ⟨hstill.timers, hstill.pending.trans (turn_pending ..), hstill.extracted, hstill.entry⟩
        · exact congrArg (Function.update · w (Idling.events events)) hsame

theorem runStep_change (w : W) (now_ms : UInt64) (probe : ℕ) :
    Change env s (.run w now_ms probe) (s.runStep env w now_ms probe) := by
  have hmove : Move env.pool s.sched (.run w) (s.sched.runStep env.pool w) := runStep_move w
  unfold runStep
  split
  · rename_i hpc; exact idleStep_change w now_ms probe hpc
  · rename_i hpc
    exact .run w now_ms probe _ _ (by rw [hpc]; nofun) hmove (.inr ⟨hpc, rfl⟩)
  · rename_i hpc _; exact .run w now_ms probe _ _ hpc hmove (.inl rfl)

omit [DecidableEq T] in
theorem timer_change {q : W ⊕ T} (o : TimerOp) (hq : s.inUser q = true) :
    Change env s (.timer q o) (s.timer env o) := by
  unfold timer
  split
  · exact .abort _ _
  · exact .inCall _ q _ (.inl ⟨⟨o, rfl⟩, hq⟩) (.inl rfl) rfl rfl rfl

theorem event_change {q : W ⊕ T} (o : EventOp) (hq : s.inUser q = true) :
    Change env s (.event q o) (s.event env q o) := by
  have hcall : s.Calls (.event q o) q := .inr (.inl ⟨⟨o, rfl⟩, hq⟩)
  have hcancel : ∀ fd all request, Change env s (.event q o) (s.cancel q fd all request) := by
    intro fd all request
    unfold cancel
    split
    · split
      · exact .abort _ _
      · rename_i p _
        obtain ⟨hstill, hsched, hsame⟩ := begin_frame { s with io := (request p).2 } q p all (request p).1
        exact .inCall _ q _ hcall (.inl hsched) hsame hstill.extracted hstill.entry
    · exact .stay _
  unfold event
  cases o with
  | addEvent other fd event cb =>
    dsimp only
    split
    · exact .stay _
    · split
      · exact .abort _ _
      · exact .inCall _ q _ hcall (.inl rfl) rfl rfl rfl
  | delEvent fd event =>
    dsimp only
    split
    · exact .stay _
    · split
      · exact .abort _ _
      · exact .inCall _ q _ hcall (.inl rfl) rfl rfl rfl
  | cancelEvent fd event =>
    dsimp only
    split
    · exact .stay _
    · exact hcancel _ _ _
  | cancelAll fd =>
    dsimp only
    split
    · exact .stay _
    · exact hcancel _ _ _
  | dispatch p events => exact .stay _

theorem trigger_change {q : W ⊕ T} (hq : s.inCall q = true) :
    Change env s (.trigger q) (s.trigger env q) := by
  have hcall : s.Calls (.trigger q) q := .inr (.inr ⟨rfl, hq⟩)
  unfold trigger
  split
  · exact .stay _
  · split
    · exact .abort _ _
    · exact .inCall _ q _ hcall (.inl rfl) rfl rfl rfl
  · split
    · exact .abort _ _
    · rename_i scheduler task _
      refine .inCall _ q _ hcall ?_ rfl rfl rfl
      dsimp only
      split
      · exact .inr ⟨task, rfl⟩
      · exact .inl rfl
  · exact .inCall _ q _ hcall (.inl rfl) rfl rfl rfl

omit [DecidableEq T] in
theorem wake_change (w : W) (events : List (ℕ × BitVec 32)) :
    Change env s (.wake w events) (s.wake w events) := by
  unfold wake
  split
  · rename_i hpc hidle
    refine .turn _ w (.woken events) _ hpc ?_ rfl ⟨rfl, rfl, rfl, rfl⟩ rfl rfl
    rw [hidle]
    rfl
  · exact .stay _

/-- **Every step is one of the changes.** -/
theorem step_change (env : StopEnv W κ) (s : IoStop W T κ) (a : StopAct W T) :
    Change env s a (s.step env a) := by
  unfold step
  split
  · exact .stay a
  · split
    · exact .stay a
    · cases a with
      | run w now_ms probe => exact runStep_change w now_ms probe
      | user w u => exact .user w u
      | call th c => exact .call th c
      | wake w events => exact wake_change w events
      | stop now_ms => exact stopStep_change now_ms
      | timer q o =>
        simp only [act]
        split
        · rename_i hq; exact timer_change o hq
        · exact .stay _
      | event q o =>
        simp only [act]
        split
        · rename_i hq; exact event_change o hq
        · exact .stay _
      | trigger q =>
        simp only [act]
        split
        · rename_i hq; exact trigger_change hq
        · exact .stay _

end IoStop

end Coroutine
