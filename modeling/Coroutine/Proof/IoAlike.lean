import Coroutine.Proof.IoScheduler
import Coroutine.Proof.IoStop

/-!
# The two models of an `IOManager`

`IoThreads` has the tickle pipe and makes the reads of `stopping()` in one step; `IoStop` makes each
of them a step, and has the events and `stop()`. Both go through `IOManager::idle`.

* `idleStep_alike`: a step of the one in `idle()` is a step of the other in `idle()`, or none.
* `step_matched`: so is every step before `stop()`, up to the calls of `tickle()` that follow it.
* `runs_threads`: so until `stop()` is called a run of `IoStop` is a run of `IoThreads`, in which
  somebody else makes the calls of `scheduler()` that come of events.
-/

namespace Coroutine

open Lib

/-- **Where a worker stands in `idle()`**, in both. -/
inductive SameIdle : Idling → IdlePc → Prop
  | start : SameIdle (.testing .start) .top
  | asked (timeout : UInt64) : SameIdle (.testing (.asked timeout)) (.asked timeout)
  | counted : SameIdle (.testing .counted) (.asked (~~~ 0))
  | waiting (timeout : Int32) (wakeup : Option ℕ) : SameIdle .waiting (.blocked timeout wakeup)
  | woken (events : List (ℕ × BitVec 32)) : SameIdle (.woken events) (.woken false)
  | checked (now_ms : UInt64) (events : List (ℕ × BitVec 32)) :
      SameIdle (.checked now_ms events) (.checked now_ms false)
  | expired (first : ℕ) (cbs : List (Option TimerCb)) (events : List (ℕ × BitVec 32)) :
      SameIdle (.expired first cbs events) (.expired cbs false)
  | events (events : List (ℕ × BitVec 32)) : SameIdle (.events events) (.events false)

namespace IoThreads

variable {W T : Type} [DecidableEq W] [DecidableEq T] {s : IoThreads W T} {env : IoEnv W} {w : W}

/-- **A call of `tickle()` comes to its end**, if no other is held up. -/
theorem tickle_settles (env : IoEnv W) (s : IoThreads W T) (p : W ⊕ T)
    (hothers : ∀ q, q ≠ p → s.tickling q = none) :
    ∃ s', Reaches (step env) s s' ∧ s'.sched = s.sched ∧ s'.timers = s.timers ∧ s'.idle = s.idle ∧
      (s.sched.fault = none → ∀ q, s'.tickling q = none) := by
  by_cases hfault : s.sched.fault = none
  swap
  · exact ⟨s, .refl s, rfl, rfl, rfl, fun h => absurd h hfault⟩
  have hstep : ∀ s : IoThreads W T, s.sched.fault = none →
      step env s (.tickle p) = { s.tickle p with time := s.time + 1 } := by
    intro s hfault
    exact step_of_free env hfault fun _ hq => by cases hq
  have hcleared : ∀ q, Function.update s.tickling p none q = none := by
    intro q
    by_cases hq : q = p
    · rw [hq, Function.update_self]
    · rw [Function.update_of_ne hq]
      exact hothers q hq
  cases htickle : s.tickling p with
  | none =>
    -- there is no such call
    refine ⟨s, .refl s, rfl, rfl, rfl, fun _ q => ?_⟩
    by_cases hq : q = p
    · rw [hq, htickle]
    · exact hothers q hq
  | some stage =>
    cases stage with
    | write =>
      refine ⟨_, .one (.tickle p) (hstep s hfault), ?_⟩
      unfold tickle
      rw [htickle]
      exact ⟨rfl, rfl, rfl, fun _ => hcleared⟩
    | test why =>
      by_cases hidle : 0 < s.sched.m_idleThreadCount
      · refine ⟨_, .one (.tickle p) (hstep s hfault), ?_⟩
        unfold tickle
        rw [htickle]
        dsimp only
        rw [if_pos hidle]
        exact ⟨rfl, rfl, rfl, fun _ => hcleared⟩
      · -- no thread is idle: the test passes, and the write is a step of its own
        have htest : step env s (.tickle p) =
            { s.setTickling p (some .write) with time := s.time + 1 } := by
          rw [hstep s hfault]
          unfold tickle
          rw [htickle]
          dsimp only
          rw [if_neg hidle]
        have hwrite : ({ s.setTickling p (some .write) with time := s.time + 1 } :
            IoThreads W T).tickling p = some .write := Function.update_self ..
        refine ⟨_, .head htest (.one (.tickle p) (hstep _ hfault)), ?_⟩
        unfold tickle
        rw [hwrite]
        refine ⟨rfl, rfl, rfl, fun _ q => ?_⟩
        show Function.update (Function.update s.tickling p (some .write)) p none q = none
        rw [Function.update_idem]
        exact hcleared q

/-- What a step of a worker outside `idle()` leaves alone. -/
theorem runStep_rest (env : IoEnv W) (s : IoThreads W T) (w : W) (r : Reads)
    (hpc : (s.sched.worker w).pc ≠ .idle) (hin : (s.sched.worker w).pc ≠ .idleIn) :
    (s.runStep env w r).timers = s.timers ∧ (s.runStep env w r).idle = s.idle ∧
      ∀ q, q ≠ .inl w → (s.runStep env w r).tickling q = s.tickling q := by
  have hset : ∀ (t : Option Tickle) q, q ≠ .inl w →
      (s.setTickling (.inl w) t).tickling q = s.tickling q := fun t q hq => Function.update_of_ne hq ..
  unfold runStep
  dsimp only
  split
  · rename_i hidle
    exact absurd hidle hpc
  · rename_i hidle
    exact absurd hidle hin
  · split
    · exact ⟨rfl, rfl, hset _⟩
    · exact ⟨rfl, rfl, fun _ _ => rfl⟩
  · split
    · exact ⟨rfl, rfl, hset _⟩
    · exact ⟨rfl, rfl, fun _ _ => rfl⟩
  · unfold push
    split
    · exact ⟨rfl, rfl, hset _⟩
    · exact ⟨rfl, rfl, fun _ _ => rfl⟩
  · exact ⟨rfl, rfl, fun _ _ => rfl⟩

/-- What a call of `scheduler()` leaves alone. -/
theorem scheduler_rest (s : IoThreads W T) (p : W ⊕ T) (pusher : Option W) (c : SchedCall) :
    (s.scheduler p pusher c).timers = s.timers ∧ (s.scheduler p pusher c).idle = s.idle ∧
      ∀ q, q ≠ p → (s.scheduler p pusher c).tickling q = s.tickling q := by
  have hframe := push_frame s p (s.sched.call pusher c) (s.sched.needTickle pusher c)
  refine ⟨hframe.timers, hframe.idle, fun q hq => ?_⟩
  show (s.push p _ _).tickling q = s.tickling q
  rw [hframe.tickling]
  split
  · exact Function.update_of_ne hq ..
  · rfl

/-- What a step of a task leaves alone. -/
theorem userStep_rest (s : IoThreads W T) (w : W) (u : UserAct) :
    (s.userStep w u).timers = s.timers ∧ (s.userStep w u).idle = s.idle ∧
      ∀ q, q ≠ .inl w → (s.userStep w u).tickling q = s.tickling q := by
  unfold userStep
  split
  · exact scheduler_rest s (.inl w) (some w) _
  · exact ⟨rfl, rfl, fun _ _ => rfl⟩

end IoThreads

namespace IoStop

variable {W T κ : Type} {env : StopEnv W κ} {s s' : IoStop W T κ} {t t' : IoThreads W (Option T)} {w : W}

/-- The same scheduler, timers, and places in `idle()`. -/
structure Alike (s : IoStop W T κ) (t : IoThreads W (Option T)) : Prop where
  sched : t.sched = s.sched
  timers : t.timers = s.timers
  idle : ∀ w, SameIdle (s.idle w) (t.idle w)

/-- **Matched**: they are alike, and nobody is held up by `tickle()`; or an assertion on the events has
ended the one run. -/
def Matched (s : IoStop W T κ) (t : IoThreads W (Option T)) : Prop :=
  (s.Alike t ∧ (s.sched.fault = none → ∀ p, t.tickling p = none)) ∨ ∃ e, s.sched = t.sched.abort e

variable [DecidableEq W] [DecidableEq T]

omit [DecidableEq T] in
/-- A worker moves in both. -/
theorem Alike.moves (h : s.Alike t) {pc : Idling} {pc' : IdlePc} (hpc : SameIdle pc pc') (v : W) :
    SameIdle (Function.update s.idle w pc v) (Function.update t.idle w pc' v) := by
  by_cases hv : v = w
  · rw [hv, Function.update_self, Function.update_self]
    exact hpc
  · rw [Function.update_of_ne hv, Function.update_of_ne hv]
    exact h.idle v

omit [DecidableEq T] in
/-- It moves in the one. -/
theorem Alike.stays (h : s.Alike t) {pc : Idling} (hpc : SameIdle pc (t.idle w)) (v : W) :
    SameIdle (Function.update s.idle w pc v) (t.idle v) := by
  by_cases hv : v = w
  · rw [hv, Function.update_self]
    exact hpc
  · rw [Function.update_of_ne hv]
    exact h.idle v

/-- A step of the other, and the call of `tickle()` that it may begin. -/
theorem matched_of_act {env : IoEnv W} {a : IoAct W (Option T)} (p : W ⊕ Option T)
    (hfault : t.sched.fault = none) (hfree : ∀ q, t.tickling q = none) (halike : s'.Alike (t.act env a))
    (hothers : ∀ q, q ≠ p → (t.act env a).tickling q = none) :
    ∃ t', Reaches (IoThreads.step env) t t' ∧ s'.Matched t' := by
  have hstep := IoThreads.step_of_free (a := a) env hfault fun q _ => hfree q
  obtain ⟨t', hreach, hsched, htimers, hidle, hquiet⟩ :=
    IoThreads.tickle_settles env { t.act env a with time := t.time + 1 } p hothers
  refine ⟨t', .head hstep hreach, Or.inl ⟨⟨hsched.trans halike.sched, htimers.trans halike.timers,
    fun w => ?_⟩, fun hs => hquiet (by rw [← hs]; exact congrArg Scheduler.fault halike.sched)⟩⟩
  rw [hidle]
  exact halike.idle w

/-- Nothing that the other knows of has happened. -/
theorem matched_of_same (h : s.Alike t) (hfree : ∀ q, t.tickling q = none) (hsched : s'.sched = s.sched)
    (htimers : s'.timers = s.timers) (hidle : ∀ w, SameIdle (s'.idle w) (t.idle w)) (env : IoEnv W) :
    ∃ t', Reaches (IoThreads.step env) t t' ∧ s'.Matched t' :=
  ⟨t, .refl t, Or.inl ⟨⟨h.sched.trans hsched.symm, h.timers.trans htimers.symm, hidle⟩, fun _ => hfree⟩⟩

omit [DecidableEq T] in
/-- It leaves `idle()` in both. -/
theorem Alike.leaves (h : s.Alike t) (st : FiberState) : (s.leaveIdle w st).Alike { t with
    sched := t.sched.setWorker w { t.sched.worker w with pc := .idleOut, idle := st } } :=
  ⟨by rw [h.sched]; rfl, h.timers, h.idle⟩

/-! ## `IOManager::idle` -/

omit [DecidableEq W] [DecidableEq T] in
theorem handOut_timers (env : StopEnv W κ) (s : IoStop W T κ) (k : ℕ) (cbs : List (Option TimerCb)) :
    (s.handOut env k cbs).timers = s.timers := by
  induction cbs generalizing s k with
  | nil => rfl
  | cons cb cbs ih => exact ih (s.handOne env k cb) (k + 1)

theorem begin_timers (s : IoStop W T κ) (q : W ⊕ T) (p : ℕ) (all : Bool)
    (todo : Option (List Event)) : (s.begin q p all todo).timers = s.timers := by
  cases todo <;> rfl

/-- **A step in `idle()`** is one in `idle()` of the other, or none; a call of `tickle()` that it begins is
the worker's own. -/
theorem idleStep_alike (h : s.Alike t) (hfree : ∀ q, t.tickling q = none) (w : W) (now_ms : UInt64)
    (probe : ℕ) : (s.idleStep env w now_ms probe).Alike t ∨
      ∃ r, (s.idleStep env w now_ms probe).Alike (t.idleStep env.toIoEnv w r) ∧
        ∀ q, q ≠ .inl w → (t.idleStep env.toIoEnv w r).tickling q = none := by
  have hhere := h.idle w
  have hstays : ∀ pc, SameIdle pc (t.idle w) →
      ∀ v, SameIdle (Function.update s.idle w pc v) (t.idle v) := fun _ hpc => h.stays hpc
  unfold idleStep IoThreads.idleStep
  generalize t.idle w = pc at hhere hstays
  cases hidle : s.idle w <;> rw [hidle] at hhere
  case testing stage =>
    cases hhere with
    | start =>
      -- `getNextTimer`
      refine Or.inr ⟨{ now_ms := now_ms }, ?_, fun q _ => hfree q⟩
      dsimp only [stoppingStep]
      rw [h.timers]
      exact ⟨h.sched, rfl, h.moves (.asked _)⟩
    | asked timeout =>
      dsimp only [stoppingStep]
      by_cases hnone : timeout = ~~~ 0 ∧ s.io.m_pendingEventCount = 0
      · -- the read of the scheduler is still to come
        left
        rw [if_pos hnone]
        obtain ⟨rfl, -⟩ := hnone
        exact ⟨h.sched, h.timers, hstays _ .counted⟩
      · -- the answer is no already, whatever the scheduler says
        have hnot : ¬ (timeout = ~~~ 0 ∧ s.io.m_pendingEventCount = 0 ∧ t.sched.stopping) :=
          fun hall => hnone ⟨hall.1, hall.2.1⟩
        refine Or.inr ⟨{ m_pendingEventCount := s.io.m_pendingEventCount }, ?_⟩
        rw [if_neg hnone]
        dsimp only
        rw [if_neg hnot]
        exact ⟨⟨h.sched, h.timers, h.moves (.waiting _ _)⟩, fun q _ => hfree q⟩
    | counted =>
      -- the other reads all three here, of which two have been found to be zero
      refine Or.inr ⟨{}, ?_⟩
      dsimp only [stoppingStep]
      rw [h.sched]
      by_cases hstop : s.sched.stopping
      · rw [decide_eq_true hstop, if_pos ⟨rfl, rfl, hstop⟩, ← h.sched]
        exact ⟨h.leaves .TERM, fun q _ => hfree q⟩
      · rw [decide_eq_false hstop, if_neg fun hall => hstop hall.2.2]
        exact ⟨⟨h.sched, h.timers, h.moves (.waiting _ _)⟩, fun q _ => hfree q⟩
  case waiting =>
    exact Or.inl h
  case woken events =>
    cases hhere
    refine Or.inr ⟨{ now_ms := now_ms }, ?_⟩
    dsimp only
    rw [h.timers]
    split
    · exact ⟨⟨h.sched, h.timers, h.moves (.events events)⟩, fun q _ => hfree q⟩
    · exact ⟨⟨h.sched, h.timers, h.moves (.checked now_ms events)⟩, fun q _ => hfree q⟩
  case checked now events =>
    cases hhere
    refine Or.inr ⟨{ probe := probe }, ?_⟩
    dsimp only
    rw [h.timers]
    cases s.timers.listExpired env.addr now probe with
    | error e => exact ⟨⟨congrArg (Scheduler.abort · e) h.sched, h.timers, h.idle⟩,
        fun q _ => hfree q⟩
    | ok r => exact ⟨⟨h.sched, rfl, h.moves (.expired _ _ events)⟩, fun q _ => hfree q⟩
  case expired first cbs events =>
    cases hhere
    refine Or.inr ⟨{}, ?_⟩
    dsimp only
    split
    · rename_i hnil
      subst hnil
      exact ⟨⟨h.sched, h.timers, h.moves (.events events)⟩, fun q _ => hfree q⟩
    · obtain ⟨htimers, hidle', hothers⟩ := IoThreads.scheduler_rest (t.setIdle w (.events false)) (.inl w)
        none (.batch (cbs.map (·.map fun cb => .cb (env.function cb))))
      refine ⟨⟨?_, ?_, ?_⟩, fun q hq => (hothers q hq).trans (hfree q)⟩
      · rw [IoThreads.scheduler, IoThreads.push_sched]
        show t.sched.call none _ = (s.handOut env first cbs).sched
        rw [handOut_sched, h.sched]
      · rw [htimers]
        exact h.timers.trans (handOut_timers env s first cbs).symm
      · rw [hidle']
        show ∀ v, SameIdle (Function.update (s.handOut env first cbs).idle w _ v) _
        rw [(handOut_frame env s first cbs).1]
        exact h.moves (.events events)
  case events events =>
    cases hhere
    cases events with
    | nil => exact Or.inr ⟨{}, h.leaves .HOLD, fun q _ => hfree q⟩
    | cons e events =>
      left
      dsimp only
      split
      · exact h
      · -- a turn up to `epoll_ctl`, of which the other sees nothing
        let s₁ : IoStop W T κ := { s with io := (s.io.turn env.ctl e.1 e.2).2 }
        let todo := (s.io.turn env.ctl e.1 e.2).1
        obtain ⟨-, hsched, hsame⟩ := begin_frame s₁ (.inl w) e.1 false todo
        refine ⟨h.sched.trans hsched.symm, h.timers.trans (begin_timers s₁ _ _ _ todo).symm, ?_⟩
        show ∀ v, SameIdle (Function.update (s₁.begin (.inl w) e.1 false todo).idle w _ v) (t.idle v)
        rw [hsame]
        exact hstays _ (.events events)

/-- A step of a worker. -/
theorem runStep_alike (env : StopEnv W κ) (h : s.Alike t) (hfree : ∀ q, t.tickling q = none) (w : W)
    (now_ms : UInt64) (probe : ℕ) : (s.runStep env w now_ms probe).Alike t ∨
      ∃ r, (s.runStep env w now_ms probe).Alike (t.runStep env.toIoEnv w r) ∧
        ∀ q, q ≠ .inl w → (t.runStep env.toIoEnv w r).tickling q = none := by
  have hworker : (t.sched.worker w).pc = (s.sched.worker w).pc := by rw [h.sched]
  by_cases hidle : (s.sched.worker w).pc = .idle
  · have hs : s.runStep env w now_ms probe = s.idleStep env w now_ms probe := by
      unfold runStep
      rw [hidle]
    have ht : ∀ r, t.runStep env.toIoEnv w r = t.idleStep env.toIoEnv w r := by
      intro r
      unfold IoThreads.runStep
      rw [hworker, hidle]
    simp only [hs, ht]
    exact idleStep_alike h hfree w now_ms probe
  refine Or.inr ⟨{}, ?_⟩
  have hsched : (t.runStep env.toIoEnv w {}).sched = s.sched.runStep env.pool w := by
    rw [IoThreads.runStep_sched (by rw [hworker]; exact hidle), h.sched]
  by_cases hin : (s.sched.worker w).pc = .idleIn
  · have hs : s.runStep env w now_ms probe =
        { s.setIdle w (.testing .start) with sched := s.sched.runStep env.pool w } := by
      unfold runStep
      rw [hin]
    have ht : t.runStep env.toIoEnv w {} =
        { t.setIdle w .top with sched := t.sched.runStep env.pool w } := by
      unfold IoThreads.runStep
      rw [hworker, hin]
    rw [hs]
    refine ⟨⟨hsched, ?_, ?_⟩, fun q _ => ?_⟩
    · rw [ht]
      exact h.timers
    · rw [ht]
      exact h.moves .start
    · rw [ht]
      exact hfree q
  · have hs : s.runStep env w now_ms probe = { s with sched := s.sched.runStep env.pool w } := by
      unfold runStep
      split
      · rename_i hpc
        exact absurd hpc hidle
      · rename_i hpc
        exact absurd hpc hin
      · rfl
    obtain ⟨htimers, hidle', hothers⟩ := IoThreads.runStep_rest env.toIoEnv t w {}
      (by rw [hworker]; exact hidle) (by rw [hworker]; exact hin)
    rw [hs]
    refine ⟨⟨hsched, htimers.trans h.timers, ?_⟩, fun q hq => (hothers q hq).trans (hfree q)⟩
    rw [hidle']
    exact h.idle

/-- A step of a task. -/
theorem userStep_alike (h : s.Alike t) (w : W) (u : UserAct) :
    ({ s with sched := s.sched.userStep w u } : IoStop W T κ).Alike (t.userStep w u) := by
  obtain ⟨htimers, hidle, -⟩ := IoThreads.userStep_rest t w u
  refine ⟨?_, htimers.trans h.timers, ?_⟩
  · rw [IoThreads.userStep_sched, h.sched]
  · rw [hidle]
    exact h.idle

/-- A call of `scheduler()`. -/
theorem scheduler_alike (h : s.Alike t) (p : W ⊕ Option T) (pusher : Option W) (c : SchedCall) :
    ({ s with sched := s.sched.call pusher c } : IoStop W T κ).Alike (t.scheduler p pusher c) := by
  obtain ⟨htimers, hidle, -⟩ := IoThreads.scheduler_rest t p pusher c
  refine ⟨?_, htimers.trans h.timers, ?_⟩
  · rw [IoThreads.scheduler, IoThreads.push_sched, h.sched]
  · rw [hidle]
    exact h.idle

/-! ## Until `stop()` is called -/

omit [DecidableEq W] [DecidableEq T] in
theorem inUser_alike (h : s.Alike t) (q : W ⊕ T) : t.inUser (q.map id some) = s.inUser q := by
  cases q with
  | inl w =>
    unfold IoThreads.inUser inUser
    rw [← h.sched]
    rfl
  | inr th => rfl

/-- An assertion on the events. -/
theorem matched_of_abort (h : s.Alike t) (env : IoEnv W) (e : Fault) :
    ∃ t', Reaches (IoThreads.step env) t t' ∧ (s.abort e).Matched t' :=
  ⟨t, .refl t, Or.inr ⟨e, congrArg (Scheduler.abort · e) h.sched.symm⟩⟩

section Free

variable (hfault : t.sched.fault = none) (hfree : ∀ q, t.tickling q = none)

include hfree

/-- A call on the events, up to the triggers. -/
theorem event_matched (h : s.Alike t) (q : W ⊕ T) (o : EventOp) :
    ∃ t', Reaches (IoThreads.step env.toIoEnv) t t' ∧ (s.event env q o).Matched t' := by
  have hsame : ∀ {s' : IoStop W T κ}, s'.sched = s.sched → s'.timers = s.timers → s'.idle = s.idle →
      ∃ t', Reaches (IoThreads.step env.toIoEnv) t t' ∧ s'.Matched t' :=
    fun hsched htimers hidle => matched_of_same h hfree hsched htimers (hidle ▸ h.idle) env.toIoEnv
  have hcancel : ∀ (fd : Int32) (all : Bool) (request : ℕ → Option (List Event) × IOManager κ),
      ∃ t', Reaches (IoThreads.step env.toIoEnv) t t' ∧ (s.cancel q fd all request).Matched t' := by
    intro fd all request
    unfold cancel
    split
    · split
      · exact matched_of_abort h env.toIoEnv _
      · rename_i p _
        obtain ⟨-, hsched, hidle⟩ := begin_frame { s with io := (request p).2 } q p all (request p).1
        exact hsame hsched (begin_timers { s with io := (request p).2 } q p all (request p).1) hidle
    · exact hsame rfl rfl rfl
  cases o with
  | addEvent other fd event cb =>
    dsimp only [IoStop.event]
    split
    · exact hsame rfl rfl rfl
    · split
      · exact matched_of_abort h env.toIoEnv _
      · exact hsame rfl rfl rfl
  | delEvent fd event =>
    dsimp only [IoStop.event]
    split
    · exact hsame rfl rfl rfl
    · split
      · exact matched_of_abort h env.toIoEnv _
      · exact hsame rfl rfl rfl
  | cancelEvent fd event =>
    dsimp only [IoStop.event]
    split
    · exact hsame rfl rfl rfl
    · exact hcancel fd false _
  | cancelAll fd =>
    dsimp only [IoStop.event]
    split
    · exact hsame rfl rfl rfl
    · exact hcancel fd true _
  | dispatch p events => exact hsame rfl rfl rfl

include hfault

/-- A call on the timers. -/
theorem timer_matched (h : s.Alike t) (q : W ⊕ T) (o : TimerOp) :
    ∃ t', Reaches (IoThreads.step env.toIoEnv) t t' ∧
      (if s.inUser q then s.timer env o else s).Matched t' := by
  by_cases hq : s.inUser q = true
  swap
  · rw [if_neg hq]
    exact matched_of_same h hfree rfl rfl h.idle env.toIoEnv
  rw [if_pos hq]
  have hact : t.act env.toIoEnv (.timer (q.map id some) o) = t.timer env.toIoEnv (q.map id some) o :=
    if_pos ((inUser_alike h q).trans hq)
  refine matched_of_act (q.map id some) hfault hfree (a := .timer (q.map id some) o) ?_ fun p hp => ?_
  · rw [hact]
    cases hcall : o.call env.addr s.timers with
    | error e =>
      unfold timer IoThreads.timer
      rw [h.timers, hcall]
      exact ⟨congrArg (Scheduler.abort · e) h.sched, h.timers, h.idle⟩
    | ok timers =>
      have hcall' : o.call env.toIoEnv.addr t.timers = .ok timers := by
        rw [h.timers]
        exact hcall
      obtain ⟨hf, htimers, -⟩ := IoThreads.timer_frame env.toIoEnv t (q.map id some) hcall'
      unfold timer
      rw [hcall]
      refine ⟨hf.sched.trans h.sched, htimers, ?_⟩
      rw [hf.idle]
      exact h.idle
  · rw [hact]
    cases hcall : o.call env.addr t.timers with
    | error e =>
      unfold IoThreads.timer
      rw [hcall]
      exact hfree p
    | ok timers =>
      have hf := (IoThreads.timer_frame env.toIoEnv t (q.map id some) hcall).1
      rw [hf.tickling]
      split
      · rw [Function.update_of_ne hp]
        exact hfree p
      · exact hfree p

/-- A step of the triggers: `scheduler()` is called by somebody else. -/
theorem trigger_matched (h : s.Alike t) (q : W ⊕ T) :
    ∃ t', Reaches (IoThreads.step env.toIoEnv) t t' ∧ (s.trigger env q).Matched t' := by
  have hsame : ∀ {s' : IoStop W T κ}, s'.sched = s.sched → s'.timers = s.timers → s'.idle = s.idle →
      ∃ t', Reaches (IoThreads.step env.toIoEnv) t t' ∧ s'.Matched t' :=
    fun hsched htimers hidle => matched_of_same h hfree hsched htimers (hidle ▸ h.idle) env.toIoEnv
  unfold trigger
  split
  · exact hsame rfl rfl rfl
  · split
    · exact matched_of_abort h env.toIoEnv _
    · exact hsame rfl rfl rfl
  · split
    · exact matched_of_abort h env.toIoEnv _
    · rename_i fd_ctx scheduler task htrigger
      by_cases hthis : scheduler = env.this
      · -- the entry goes to this scheduler, as one of a thread that makes such calls only
        have halike := scheduler_alike h (.inr none) none (.scheduler task (-1))
        obtain ⟨-, -, hothers⟩ := IoThreads.scheduler_rest t (.inr none) none (.scheduler task (-1))
        refine matched_of_act (.inr none) hfault hfree (a := .call none (.scheduler task (-1)))
          ⟨?_, halike.timers, halike.idle⟩ fun q hq => (hothers q hq).trans (hfree q)
        rw [if_pos hthis]
        exact halike.sched
      · exact hsame (if_neg hthis) rfl rfl
  · exact hsame rfl rfl rfl

/-- `epoll_wait` returns. -/
theorem wake_matched (h : s.Alike t) (w : W) (events : List (ℕ × BitVec 32)) :
    ∃ t', Reaches (IoThreads.step env.toIoEnv) t t' ∧ (s.wake w events).Matched t' := by
  refine matched_of_act (.inl w) hfault hfree (a := .wake w false) ?_ fun q _ => ?_
  · show (s.wake w events).Alike (t.wake w false)
    have hhere := h.idle w
    unfold wake IoThreads.wake
    rw [h.sched]
    split
    · rename_i hpc hwaiting
      rw [hwaiting] at hhere
      generalize t.idle w = pc at hhere
      cases hhere
      rw [hpc]
      exact ⟨h.sched, h.timers, h.moves (.woken events)⟩
    · rename_i hnot
      split
      · rename_i hpc hblocked
        rw [hblocked] at hhere
        generalize hidle : s.idle w = pc at hhere
        cases hhere
        exact absurd hidle (hnot hpc)
      · exact h
  · show (t.wake w false).tickling q = none
    unfold IoThreads.wake
    split
    · split
      · exact hfree q
      · exact hfree q
    · exact hfree q

end Free

theorem step_of_fault [Fintype W] (env : StopEnv W κ) (h : s.sched.fault ≠ none) (a : StopAct W T) :
    s.step env a = s :=
  if_pos (Option.isSome_iff_ne_none.2 h)

/-- **Before `stop()` a step is some of the other**: one and the call of `tickle()` that it may begin, or
none. -/
theorem step_matched [Fintype W] (env : StopEnv W κ) (hmatched : s.Matched t) (a : StopAct W T)
    (ha : ∀ now_ms, a ≠ .stop now_ms) :
    ∃ t', Reaches (IoThreads.step env.toIoEnv) t t' ∧ (s.step env a).Matched t' := by
  by_cases hfault : s.sched.fault = none
  swap
  · rw [step_of_fault env hfault]
    exact ⟨t, .refl t, hmatched⟩
  obtain ⟨h, hquiet⟩ | ⟨e, he⟩ := hmatched
  swap
  · rw [he] at hfault
    cases hfault
  have hfree := hquiet hfault
  have hfault' : t.sched.fault = none := by rw [h.sched, hfault]
  have hnot : ¬ s.sched.fault.isSome := by rw [hfault]; exact Bool.false_ne_true
  unfold step
  rw [if_neg hnot]
  split
  · -- its triggers hold the thread up
    exact matched_of_same h hfree rfl rfl h.idle env.toIoEnv
  cases a with
  | run w now_ms probe =>
    obtain hsame | ⟨r, halike, hothers⟩ := runStep_alike env h hfree w now_ms probe
    · exact ⟨t, .refl t, Or.inl ⟨hsame, fun _ => hfree⟩⟩
    · exact matched_of_act (.inl w) hfault' hfree (a := .run w r) halike hothers
  | user w u =>
    obtain ⟨-, -, hothers⟩ := IoThreads.userStep_rest t w u
    exact matched_of_act (.inl w) hfault' hfree (a := .user w u) (userStep_alike h w u)
      fun q hq => (hothers q hq).trans (hfree q)
  | call th c =>
    obtain ⟨-, -, hothers⟩ := IoThreads.scheduler_rest t (.inr (some th)) none c
    exact matched_of_act (.inr (some th)) hfault' hfree (a := .call (some th) c)
      (scheduler_alike h _ none c) fun q hq => (hothers q hq).trans (hfree q)
  | timer q o => exact timer_matched hfault' hfree h q o
  | event q o =>
    dsimp only [act]
    split
    · exact event_matched hfree h q o
    · exact matched_of_same h hfree rfl rfl h.idle env.toIoEnv
  | trigger q =>
    dsimp only [act]
    split
    · exact trigger_matched hfault' hfree h q
    · exact matched_of_same h hfree rfl rfl h.idle env.toIoEnv
  | wake w events => exact wake_matched hfault' hfree h w events
  | stop now_ms => exact absurd rfl (ha now_ms)

/-- **Until `stop()` is called a run of `IoStop` is a run of `IoThreads`**, unless an assertion on the
events ends it. -/
theorem runs_threads [Fintype W] (env : StopEnv W κ) (k : κ) (now_ms : UInt64) (as : List (StopAct W T))
    (hstop : ∀ a ∈ as, ∀ now_ms, a ≠ .stop now_ms) :
    ∃ acts : List (IoAct W (Option T)), (run (step env) (init env k now_ms) as).Matched
      (run (IoThreads.step env.toIoEnv) (IoThreads.init env.toIoEnv now_ms) acts) := by
  have hinit : (init env k now_ms : IoStop W T κ).Matched (IoThreads.init env.toIoEnv now_ms) :=
    Or.inl ⟨⟨rfl, rfl, fun _ => .start⟩, fun _ _ => rfl⟩
  obtain ⟨t, ⟨acts, rfl⟩, hmatched⟩ := Lib.run_matched (R := Matched)
    (fun s t a h ha => step_matched env h a ha) as hstop hinit
  exact ⟨acts, hmatched⟩

end IoStop

end Coroutine
