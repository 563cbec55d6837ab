import Coroutine.Proof.IoChange
import Coroutine.Proof.SchedulerReturns
import Coroutine.Proof.TimerExpiry
import Coroutine.Spec.HookIo

/-!
# What steps do to armed timers

Timers are looked at by workers that have nothing else to do: such a worker asks for its timeout,
sleeps in `epoll_wait`, and then takes out what is due and schedules it.

* `act_apart`: a step of others leaves a worker alone.
* `act_keeps`: an armed timer stays armed, as long as nobody makes a call on its handle, until a
  worker has its callback in hand.
* `near_of_not_waits`, `near_of_waits`: a worker with nothing to do comes nearer to the section in
  which it takes the timers out, and there it takes out those that are due.
* `held_of_run`, `held_of_not_run`: what it has in hand it schedules with its next step.
* `act_goes`, `act_free`: nothing is taken from the record of what was pushed, and a worker about to
  swap its idle fiber in is in no call of `tickle()`.
* `step_armed`, `step_held`, `step_near`: the same for steps, which faults and calls of `tickle()`
  may hold up.
-/

namespace Coroutine

open Lib Filter

namespace TimerManager

variable {addr : ℕ ↪ ℕ} {m m' : TimerManager}

/-- A call on another handle leaves an armed timer alone. -/
theorem call_other (hm : m.WF addr) {o : TimerOp} (h : o.call addr m = .ok m') {t : ℕ}
    (hother : o.handle ≠ some t) (ht : t < m.made) : m'.timer t = m.timer t := by
  cases o with
  | addTimer now ms cb recurring =>
    cases h
    rw [addTimer_timer, if_neg (by omega)]
  | addConditionTimer now ms cb weak_cond recurring =>
    cases h
    show (m.addTimer addr now ms _ recurring).2.1.timer t = m.timer t
    rw [addTimer_timer, if_neg (by omega)]
  | cancel u =>
    have hne : t ≠ u := fun heq => hother (congrArg some heq.symm)
    obtain ⟨⟨b, m₁⟩, hcancel, rfl⟩ := map_ok h
    rcases cancel_cases hm u with ⟨-, heq⟩ | ⟨-, heq⟩ <;> rw [heq] at hcancel <;> cases hcancel
    · rfl
    · exact set_timer_of_ne _ hne
  | refresh now u =>
    have hne : t ≠ u := fun heq => hother (congrArg some heq.symm)
    cases h
    rcases refresh_cases hm now u with ⟨-, heq⟩ | ⟨-, heq⟩ <;> rw [heq]
    rw [reinsert_timer, if_neg hne]
  | reset now ms from_now u =>
    have hne : t ≠ u := fun heq => hother (congrArg some heq.symm)
    cases h
    rcases reset_cases hm now ms from_now u with ⟨-, heq⟩ | ⟨-, -, heq⟩ | ⟨-, -, heq⟩ <;> rw [heq]
    dsimp only
    rw [addTimerPtr_timer]
    exact set_timer_of_ne _ hne
  | getNextTimer now =>
    cases h
    rw [getNextTimer_eq]

end TimerManager

/-- The worker whose own step the action is, or whose call of `tickle()` it is part of. -/
def IoAct.worker {W T : Type} : IoAct W T → Option W
  | .run w _ | .user w _ | .wake w _ | .interrupt w _ | .trigger w _ => some w
  | .timer (.inl w) _ | .tickle (.inl w) => some w
  | _ => none

/-- The action is a call on the handle of timer `t`. -/
def IoAct.touches {W T : Type} (t : ℕ) : IoAct W T → Prop
  | .timer _ o => o.handle = some t
  | _ => False

/-- The steps of a worker with nothing to do to the section of `listExpiredCb`. -/
def IdlePc.toTimers {W : Type} : Pc W → IdlePc → Option ℕ
  | .idleIn, _ => some 5
  | .idle, .top => some 4
  | .idle, .asked _ => some 3
  | .idle, .blocked _ _ => some 2
  | .idle, .woken _ => some 1
  | .idle, .checked _ _ => some 0
  | _, _ => none

namespace IoThreads

variable {W T : Type} {s s' : IoThreads W T} {a : IoAct W T} {env : IoEnv W} {t : ℕ} {d : UInt64}
  {cb : TimerCb} {w v : W}

/-- Timer `t` is armed: it is due at `d` and calls `cb`. -/
def Armed (s : IoThreads W T) (t : ℕ) (d : UInt64) (cb : TimerCb) : Prop :=
  (s.timers.timer t).m_next = d ∧ (s.timers.timer t).m_cb = some cb

/-- Worker `v` has taken `cb` out of the timers, and is about to schedule it. -/
structure Held (s : IoThreads W T) (v : W) (cb : TimerCb) : Prop where
  pc : (s.sched.worker v).pc = .idle
  free : s.tickling (.inl v) = none
  hand : ∃ cbs tickled, s.idle v = .expired cbs tickled ∧ some cb ∈ cbs

/-- `cb` has been scheduled, for any worker, by a push after the first `n`. -/
def Scheduled (env : IoEnv W) (s : IoThreads W T) (n : ℕ) (cb : TimerCb) : Prop :=
  ∃ ft ∈ s.sched.pushed, n ≤ ft.serial ∧ ft.task = .cb (env.function cb) ∧ ft.thread = -1

/-- Worker `w` is `k` steps from taking out what is due at `d`. -/
structure Near (s : IoThreads W T) (w : W) (d : UInt64) (k : ℕ) : Prop where
  steps : IdlePc.toTimers (s.sched.worker w).pc (s.idle w) = some k
  free : s.tickling (.inl w) = none
  late : ∀ now_ms tickled, s.idle w = .checked now_ms tickled → k = 0 → d ≤ now_ms

/-! ## Steps of others -/

/-- What a step of others leaves alone of worker `w`. -/
structure Apart (s s' : IoThreads W T) (w : W) : Prop where
  worker : s'.sched.worker w = s.sched.worker w
  idle : s'.idle w = s.idle w
  tickling : s'.tickling (.inl w) = s.tickling (.inl w)

variable [DecidableEq W] [DecidableEq T]

theorem push_apart {p : W ⊕ T} (hp : p ≠ .inl w) {sched : Scheduler W}
    (hsched : sched.worker w = s.sched.worker w) (need_tickle : Bool) :
    Apart s (s.push p sched need_tickle) w := by
  have hf := push_frame s p sched need_tickle
  refine ⟨?_, congrFun hf.idle w, ?_⟩
  · unfold push
    cases need_tickle <;> exact hsched
  · rw [hf.tickling]
    split
    · exact Function.update_of_ne (Ne.symm hp) _ _
    · rfl

theorem scheduler_apart {p : W ⊕ T} (hp : p ≠ .inl w) (pusher : Option W) (c : SchedCall) :
    Apart s (s.scheduler p pusher c) w :=
  push_apart hp (congrFun (Scheduler.call_frame s.sched pusher c).worker w) _

omit [DecidableEq T] in
theorem setIdle_apart (hv : v ≠ w) (pc : IdlePc) : Apart s (s.setIdle v pc) w :=
  ⟨rfl, Function.update_of_ne (Ne.symm hv) _ _, rfl⟩

theorem idleStep_apart (hv : v ≠ w) (r : Reads) : Apart s (s.idleStep env v r) w := by
  have hleave : ∀ wk : Worker W, (s.sched.setWorker v wk).worker w = s.sched.worker w :=
    fun wk => Function.update_of_ne (Ne.symm hv) _ _
  have hidle : ∀ pc : IdlePc, (s.setIdle v pc).idle w = s.idle w :=
    fun pc => (setIdle_apart hv pc).idle
  unfold idleStep
  split
  · exact ⟨rfl, hidle _, rfl⟩
  · split
    · exact ⟨hleave _, rfl, rfl⟩
    · exact setIdle_apart hv _
  · exact ⟨rfl, rfl, rfl⟩
  · split <;> exact setIdle_apart hv _
  · split
    · exact ⟨rfl, rfl, rfl⟩
    · exact ⟨rfl, hidle _, rfl⟩
  · dsimp only
    split
    · exact setIdle_apart hv _
    · rename_i cbs tickled hpc hne
      have hapart : Apart (s.setIdle v (.events tickled)) _ w :=
        scheduler_apart (p := .inl v) (by simpa using hv) none
          (.batch (cbs.map (·.map fun cb => .cb (env.function cb))))
      exact ⟨hapart.worker, hapart.idle.trans (hidle _), hapart.tickling⟩
  · split
    · exact ⟨rfl, rfl, rfl⟩
    · exact setIdle_apart hv _
  · exact ⟨hleave _, rfl, rfl⟩

variable [Fintype W]

theorem runStep_apart (hv : v ≠ w) (r : Reads) : Apart s (s.runStep env v r) w := by
  have hworker : (s.sched.runStep env.pool v).worker w = s.sched.worker w :=
    Scheduler.move_other (Scheduler.runStep_move v) (Ne.symm hv)
  have hp : (.inl v : W ⊕ T) ≠ .inl w := by simpa using hv
  have htickling : ∀ x : Option Tickle,
      (s.setTickling (.inl v) x).tickling (.inl w) = s.tickling (.inl w) :=
    fun x => Function.update_of_ne (Ne.symm hp) _ _
  unfold runStep
  dsimp only
  split
  · exact idleStep_apart hv r
  · exact ⟨hworker, (setIdle_apart hv _).idle, rfl⟩
  · split
    · exact ⟨hworker, rfl, htickling _⟩
    · exact ⟨hworker, rfl, rfl⟩
  · split
    · exact ⟨hworker, rfl, htickling _⟩
    · exact ⟨hworker, rfl, rfl⟩
  · exact push_apart hp hworker _
  · exact ⟨hworker, rfl, rfl⟩

theorem userStep_apart (pool : Pool W) (hv : v ≠ w) (u : UserAct) :
    Apart s (s.userStep v u) w := by
  have hp : (.inl v : W ⊕ T) ≠ .inl w := by simpa using hv
  unfold userStep
  split
  · exact scheduler_apart hp _ _
  · refine ⟨?_, rfl, rfl⟩
    exact Scheduler.move_keeps (Scheduler.userStep_move v _ : Scheduler.Move pool _ _ _)
      (by simpa [SchedAct.moves] using hv)

omit [Fintype W] in
theorem timer_apart {p : W ⊕ T} (hp : p ≠ .inl w) (o : TimerOp) : Apart s (s.timer env p o) w := by
  cases hcall : o.call env.addr s.timers with
  | error e =>
    have habort : s.timer env p o = s.abort e := by simp only [timer, hcall]
    rw [habort]
    exact ⟨rfl, rfl, rfl⟩
  | ok timers =>
    have hf := (timer_frame env s p hcall).1
    refine ⟨by rw [hf.sched], by rw [hf.idle], ?_⟩
    rw [hf.tickling]
    split
    · exact Function.update_of_ne (Ne.symm hp) _ _
    · rfl

/-- **A step of others leaves a worker alone.** -/
theorem act_apart (ha : a.worker ≠ some w) : Apart s (s.act env a) w := by
  have hne : ∀ {v : W}, some v ≠ some w → v ≠ w := fun h heq => h (congrArg some heq)
  cases a with
  | run v r => exact runStep_apart (hne ha) r
  | user v u => exact userStep_apart env.pool (hne ha) u
  | call th c => exact scheduler_apart (by simp) none c
  | timer p o =>
    have hp : p ≠ .inl w := by
      rintro rfl
      exact ha rfl
    simp only [act]
    split
    · exact timer_apart hp o
    · exact ⟨rfl, rfl, rfl⟩
  | wake v tickled =>
    simp only [act, wake]
    split
    · split
      · exact ⟨rfl, rfl, rfl⟩
      · exact setIdle_apart (hne ha) _
    · exact ⟨rfl, rfl, rfl⟩
  | interrupt v now_ms =>
    simp only [act, interrupt]
    split
    · exact setIdle_apart (hne ha) _
    · exact ⟨rfl, rfl, rfl⟩
  | trigger v fc =>
    have hv := hne ha
    simp only [act, trigger]
    split
    · exact scheduler_apart (by simpa using hv) none _
    · exact ⟨rfl, rfl, rfl⟩
  | tickle p =>
    have hp : .inl w ≠ p := by
      rintro rfl
      exact ha rfl
    simp only [act, tickle]
    split
    · exact ⟨rfl, rfl, rfl⟩
    · split <;> exact ⟨rfl, rfl, Function.update_of_ne hp _ _⟩
    · exact ⟨rfl, rfl, Function.update_of_ne hp _ _⟩

/-! ## Armed timers -/

omit [DecidableEq W] [DecidableEq T] [Fintype W] in
theorem lt_made (hwf : s.timers.WF env.addr) (h : s.Armed t d cb) : t < s.timers.made := by
  by_contra hge
  have hnone := hwf.fresh t (by omega)
  rw [h.2] at hnone
  cases hnone

omit [DecidableEq W] [DecidableEq T] [Fintype W] in
theorem mem_of_armed (hwf : s.timers.WF env.addr) (h : s.Armed t d cb) : t ∈ s.timers.m_timers := by
  rw [hwf.armed, h.2]
  rfl

/-- What a step keeps of the timers: the store stays well formed, and a timer stays armed or a
worker has its callback in hand. -/
structure Keeps (env : IoEnv W) (a : IoAct W T) (s s' : IoThreads W T) : Prop where
  wf : s'.timers.WF env.addr
  armed : ∀ t d cb, s.Armed t d cb → ¬ a.touches t → s'.Armed t d cb ∨ ∃ v, s'.Held v cb

omit [DecidableEq W] [DecidableEq T] [Fintype W] in
theorem keeps_of_eq (hwf : s.timers.WF env.addr) (h : s'.timers = s.timers) : Keeps env a s s' := by
  refine ⟨by rw [h]; exact hwf, fun t d cb harmed _ => Or.inl ?_⟩
  unfold Armed
  rw [h]
  exact harmed

omit [Fintype W] in
theorem push_keeps (hwf : s.timers.WF env.addr) (p : W ⊕ T) (sched : Scheduler W)
    (need_tickle : Bool) : Keeps env a s (s.push p sched need_tickle) :=
  keeps_of_eq hwf (push_frame s p sched need_tickle).timers

omit [Fintype W] in
theorem idleStep_keeps (hwf : s.timers.WF env.addr) (hpc : (s.sched.worker v).pc = .idle)
    (hfree : s.tickling (.inl v) = none) (r : Reads) : Keeps env a s (s.idleStep env v r) := by
  unfold idleStep
  split
  · refine ⟨TimerManager.getNextTimer_wf hwf r.now_ms, fun t d cb harmed _ => Or.inl ?_⟩
    have htimer : (s.timers.getNextTimer r.now_ms).2.timer = s.timers.timer := by
      rw [TimerManager.getNextTimer_eq]
    show ((s.timers.getNextTimer r.now_ms).2.timer t).m_next = d ∧
      ((s.timers.getNextTimer r.now_ms).2.timer t).m_cb = some cb
    rw [htimer]
    exact harmed
  · split <;> exact keeps_of_eq hwf rfl
  · exact keeps_of_eq hwf rfl
  · split <;> exact keeps_of_eq hwf rfl
  · rename_i now_ms tickled hidle
    split
    · exact keeps_of_eq hwf rfl
    · rename_i cbs timers hexpired
      have hspec := (TimerManager.listExpired_spec hwf hexpired).1
      refine ⟨hspec.wf, fun t d cb harmed _ => ?_⟩
      -- what is due goes into the worker's hand, the other timers are left alone
      by_cases hexp : t ∈ s.timers.expired env.addr now_ms r.probe
      · refine Or.inr ⟨v, hpc, hfree, cbs, tickled, Function.update_self .., ?_⟩
        rw [hspec.cbs, ← harmed.2]
        exact List.mem_map_of_mem hexp
      · left
        show (timers.timer t).m_next = d ∧ (timers.timer t).m_cb = some cb
        rw [hspec.timer, if_neg hexp]
        exact harmed
  · dsimp only
    split
    · exact keeps_of_eq hwf rfl
    · exact keeps_of_eq hwf (push_frame (s.setIdle v (.events _)) _ _ _).timers
  · split <;> exact keeps_of_eq hwf rfl
  · exact keeps_of_eq hwf rfl

omit [Fintype W] in
theorem timer_keeps (hwf : s.timers.WF env.addr) (p : W ⊕ T) (o : TimerOp) :
    Keeps env (.timer p o) s (s.timer env p o) := by
  obtain ⟨timers, hcall, hwf'⟩ := TimerOp.call_ok hwf o
  have htimers := (timer_frame env s p hcall).2.1
  refine ⟨by rw [htimers]; exact hwf', fun t d cb harmed hother => Or.inl ?_⟩
  have hsame := TimerManager.call_other hwf hcall hother (lt_made hwf harmed)
  unfold Armed
  rw [htimers, hsame]
  exact harmed

omit [Fintype W] in
/-- **An armed timer stays armed**, as long as nobody makes a call on its handle, until a worker has
its callback in hand. -/
theorem act_keeps (hwf : s.timers.WF env.addr) (hfree : ∀ p ∈ a.caller, s.tickling p = none) :
    Keeps env a s (s.act env a) := by
  cases a with
  | run v r =>
    simp only [act, runStep]
    split
    · rename_i hpc
      exact idleStep_keeps hwf hpc (hfree _ rfl) r
    · exact keeps_of_eq hwf rfl
    · split <;> exact keeps_of_eq hwf rfl
    · split <;> exact keeps_of_eq hwf rfl
    · exact push_keeps hwf _ _ _
    · exact keeps_of_eq hwf rfl
  | user v u =>
    simp only [act, userStep]
    split
    · exact push_keeps hwf _ _ _
    · exact keeps_of_eq hwf rfl
  | call th c => exact push_keeps hwf _ _ _
  | timer p o =>
    simp only [act]
    split
    · exact timer_keeps hwf p o
    · exact keeps_of_eq hwf rfl
  | wake v tickled =>
    simp only [act, wake]
    split
    · split <;> exact keeps_of_eq hwf rfl
    · exact keeps_of_eq hwf rfl
  | interrupt v now_ms =>
    simp only [act, interrupt]
    split <;> exact keeps_of_eq hwf rfl
  | trigger v fc =>
    simp only [act, trigger]
    split
    · exact push_keeps hwf _ _ _
    · exact keeps_of_eq hwf rfl
  | tickle p =>
    simp only [act, tickle]
    split
    · exact keeps_of_eq hwf rfl
    · split <;> exact keeps_of_eq hwf rfl
    · exact keeps_of_eq hwf rfl

/-! ## A worker without a task -/

omit [Fintype W] in
/-- A worker in its idle fiber, or about to swap it in, has no user code to go on with. -/
theorem userStep_eq {w : W} (hpc : (s.sched.worker w).pc = .idleIn ∨ (s.sched.worker w).pc = .idle)
    (u : UserAct) : s.userStep w u = s := by
  have hsched : s.sched.userStep w u = s.sched := by
    unfold Scheduler.userStep
    rcases hpc with hpc | hpc <;> rw [hpc]
  unfold userStep
  split
  · rename_i hrun
    rcases hpc with hpc | hpc <;> rw [hpc] at hrun <;> cases hrun
  · rw [hsched]

omit [DecidableEq W] [DecidableEq T] [Fintype W] in
theorem not_inUser {w : W} (hpc : (s.sched.worker w).pc = .idleIn ∨ (s.sched.worker w).pc = .idle) :
    s.inUser (.inl w) = false := by
  unfold inUser
  dsimp only
  rcases hpc with hpc | hpc <;> rw [hpc]

/-- **A worker in its idle fiber, or about to swap it in**, is moved by its own steps and by
`epoll_wait` alone. -/
theorem act_idle (env : IoEnv W)
    (hpc : (s.sched.worker w).pc = .idleIn ∨ (s.sched.worker w).pc = .idle)
    (hevents : (s.sched.worker w).pc = .idle → ∀ tickled, s.idle w ≠ .events tickled)
    (hfree : s.tickling (.inl w) = none) (hrun : ∀ r, a ≠ .run w r)
    (hwake : ∀ tickled, a ≠ .wake w tickled) (hint : ∀ now_ms, a ≠ .interrupt w now_ms) :
    Apart s (s.act env a) w := by
  by_cases ha : a.worker = some w
  swap
  · exact act_apart ha
  -- its own actions: those that are not excluded do nothing in its idle fiber
  cases a with
  | run v r =>
    cases ha
    exact absurd rfl (hrun r)
  | user v u =>
    cases ha
    show Apart s (s.userStep w u) w
    rw [userStep_eq hpc]
    exact ⟨rfl, rfl, rfl⟩
  | call th c => cases ha
  | timer p o =>
    cases p with
    | inl v =>
      cases ha
      simp only [act, not_inUser hpc]
      exact ⟨rfl, rfl, rfl⟩
    | inr th => cases ha
  | wake v tickled =>
    cases ha
    exact absurd rfl (hwake tickled)
  | interrupt v now_ms =>
    cases ha
    exact absurd rfl (hint now_ms)
  | trigger v fc =>
    cases ha
    simp only [act, trigger]
    split
    · rename_i hidle hev
      exact absurd hev (hevents hidle _)
    · exact ⟨rfl, rfl, rfl⟩
  | tickle p =>
    cases p with
    | inl v =>
      cases ha
      simp only [act, tickle, hfree]
      exact ⟨rfl, rfl, rfl⟩
    | inr th => cases ha

/-! ## The way to the timers -/

/-- The step that a worker waits for, `k` steps from the timers: `epoll_wait` is up, or its own. -/
def Waits (w : W) (k : ℕ) (a : IoAct W T) : Prop :=
  k = 2 ∧ a = .wake w false ∨ k ≠ 2 ∧ ∃ r, a = .run w r

omit [DecidableEq W] [DecidableEq T] [Fintype W] in
/-- Where a worker is that is `k` steps from the timers. -/
theorem Near.cases {k : ℕ} (h : s.Near w d k) : (s.sched.worker w).pc = .idleIn ∧ k = 5 ∨
    (s.sched.worker w).pc = .idle ∧ (s.idle w = .top ∧ k = 4 ∨
      (∃ next_timeout, s.idle w = .asked next_timeout) ∧ k = 3 ∨
      (∃ timeout wakeup, s.idle w = .blocked timeout wakeup) ∧ k = 2 ∨
      (∃ tickled, s.idle w = .woken tickled) ∧ k = 1 ∨
      (∃ now_ms tickled, s.idle w = .checked now_ms tickled ∧ d ≤ now_ms) ∧ k = 0) := by
  have hsteps := h.steps
  have hlate := h.late
  cases hpc : (s.sched.worker w).pc with
  | idleIn =>
    rw [hpc] at hsteps
    exact Or.inl ⟨rfl, (Option.some.inj hsteps).symm⟩
  | idle =>
    rw [hpc] at hsteps
    right
    refine ⟨rfl, ?_⟩
    cases hidle : s.idle w with
    | top =>
      rw [hidle] at hsteps
      exact Or.inl ⟨rfl, (Option.some.inj hsteps).symm⟩
    | asked next_timeout =>
      rw [hidle] at hsteps
      exact Or.inr (Or.inl ⟨⟨next_timeout, rfl⟩, (Option.some.inj hsteps).symm⟩)
    | blocked timeout wakeup =>
      rw [hidle] at hsteps
      exact Or.inr (Or.inr (Or.inl ⟨⟨timeout, wakeup, rfl⟩, (Option.some.inj hsteps).symm⟩))
    | woken tickled =>
      rw [hidle] at hsteps
      exact Or.inr (Or.inr (Or.inr (Or.inl ⟨⟨tickled, rfl⟩, (Option.some.inj hsteps).symm⟩)))
    | checked now_ms tickled =>
      rw [hidle] at hsteps
      have hk : k = 0 := (Option.some.inj hsteps).symm
      exact Or.inr (Or.inr (Or.inr (Or.inr
        ⟨⟨now_ms, tickled, rfl, hlate now_ms tickled hidle hk⟩, hk⟩)))
    | expired cbs tickled =>
      rw [hidle] at hsteps
      cases hsteps
    | events tickled =>
      rw [hidle] at hsteps
      cases hsteps
  | _ =>
    rw [hpc] at hsteps
    cases hsteps

omit [DecidableEq W] [DecidableEq T] [Fintype W] in
theorem Near.blocked (h : s.Near w d 2) : (s.sched.worker w).pc = .idle ∧
    ∃ timeout wakeup, s.idle w = .blocked timeout wakeup := by
  rcases h.cases with ⟨-, hk⟩ | ⟨hpc, ⟨-, hk⟩ | ⟨-, hk⟩ | ⟨hblocked, -⟩ | ⟨-, hk⟩ | ⟨-, hk⟩⟩
  · cases hk
  · cases hk
  · cases hk
  · exact ⟨hpc, hblocked⟩
  · cases hk
  · cases hk

omit [DecidableEq W] [DecidableEq T] [Fintype W] in
theorem Near.apart {k : ℕ} (h : s.Near w d k) (hs : Apart s s' w) : s'.Near w d k := by
  refine ⟨?_, by rw [hs.tickling]; exact h.free, ?_⟩
  · rw [hs.worker, hs.idle]
    exact h.steps
  · rw [hs.idle]
    exact h.late

omit [DecidableEq T] [Fintype W] in
/-- The worker has moved in `idle()`. -/
theorem near_setIdle (hpc : (s.sched.worker w).pc = .idle) (hfree : s.tickling (.inl w) = none)
    {pc : IdlePc} {k : ℕ} (hk : IdlePc.toTimers (.idle : Pc W) pc = some k)
    (hlate : k = 0 → ∀ now_ms tickled, pc = .checked now_ms tickled → d ≤ now_ms) :
    (s.setIdle w pc).Near w d k := by
  have hidle : (s.setIdle w pc).idle w = pc := Function.update_self ..
  refine ⟨?_, hfree, fun now_ms tickled h hk => hlate hk now_ms tickled (hidle.symm.trans h)⟩
  rw [hidle]
  show IdlePc.toTimers (s.sched.worker w).pc pc = some k
  rw [hpc]
  exact hk

/-- **What a worker does not wait for** takes it no further away. -/
theorem near_of_not_waits (env : IoEnv W) {k : ℕ} (h : s.Near w d k) (hwaits : ¬ Waits w k a) :
    ∃ k' ≤ k, (s.act env a).Near w d k' := by
  have hcases := h.cases
  have hpc : (s.sched.worker w).pc = .idleIn ∨ (s.sched.worker w).pc = .idle := by
    rcases hcases with hc | hc
    · exact Or.inl hc.1
    · exact Or.inr hc.1
  have hevents : (s.sched.worker w).pc = .idle → ∀ tickled, s.idle w ≠ .events tickled := by
    intro hidle tickled hev
    have hsteps := h.steps
    rw [hidle, hev] at hsteps
    cases hsteps
  by_cases hrun : ∃ r, a = .run w r
  · -- in `epoll_wait` it does nothing
    have hk : k = 2 := by
      by_contra hne
      exact hwaits (Or.inr ⟨hne, hrun⟩)
    obtain ⟨r, rfl⟩ := hrun
    subst hk
    obtain ⟨hidle, timeout, wakeup, hblocked⟩ := h.blocked
    have hact : s.act env (.run w r) = s := by
      simp only [act, runStep, hidle, idleStep, hblocked]
    rw [hact]
    exact ⟨2, Nat.le_refl 2, h⟩
  by_cases hwake : ∃ tickled, a = .wake w tickled
  · obtain ⟨tickled, rfl⟩ := hwake
    simp only [act, wake]
    split
    · rename_i timeout wakeup hidle hblocked
      have hk : k = 2 := by
        have hsteps := h.steps
        rw [hidle, hblocked] at hsteps
        exact (Option.some.inj hsteps).symm
      split
      · exact ⟨k, Nat.le_refl k, h⟩
      · exact ⟨1, by omega, near_setIdle hidle h.free rfl fun hk => absurd hk (by omega)⟩
    · exact ⟨k, Nat.le_refl k, h⟩
  by_cases hint : ∃ now_ms, a = .interrupt w now_ms
  · obtain ⟨now_ms, rfl⟩ := hint
    simp only [act, interrupt]
    split
    · rename_i timeout wakeup hidle hblocked
      have hk : k = 2 := by
        have hsteps := h.steps
        rw [hidle, hblocked] at hsteps
        exact (Option.some.inj hsteps).symm
      exact ⟨2, by omega, near_setIdle hidle h.free rfl fun hk => absurd hk (by omega)⟩
    · exact ⟨k, Nat.le_refl k, h⟩
  refine ⟨k, Nat.le_refl k, h.apart ?_⟩
  exact act_idle env hpc hevents h.free (fun r ha => hrun ⟨r, ha⟩)
    (fun tickled ha => hwake ⟨tickled, ha⟩) fun now_ms ha => hint ⟨now_ms, ha⟩

omit [Fintype W] in
/-- A worker with nothing to do swaps its idle fiber in. -/
theorem act_idleIn (env : IoEnv W) (hpc : (s.sched.worker w).pc = .idleIn) (r : Reads) :
    ((s.act env (.run w r)).sched.worker w).pc = .idle ∧ (s.act env (.run w r)).idle w = .top ∧
      (s.act env (.run w r)).tickling = s.tickling := by
  have hact : s.act env (.run w r) = { s.setIdle w .top with
      sched := s.sched.setWorker w { s.sched.worker w with pc := .idle, idle := .EXEC } } := by
    simp only [act, runStep, hpc, Scheduler.runStep]
  rw [hact]
  refine ⟨?_, Function.update_self .., rfl⟩
  unfold Scheduler.setWorker
  dsimp only
  rw [Function.update_self]

omit [Fintype W] in
/-- **What it waits for** brings it nearer; at the timers it takes out those that are due. -/
theorem near_of_waits (hwf : s.timers.WF env.addr) (hauto : s.sched.m_autoStop = false)
    (harmed : s.Armed t d cb) {k : ℕ} (h : s.Near w d k) (hwaits : Waits w k a)
    (hlate : ∀ r, a = .run w r → d ≤ r.now_ms) :
    (∃ k' < k, (s.act env a).Near w d k') ∨ ∃ v, (s.act env a).Held v cb := by
  have hmem := mem_of_armed hwf harmed
  have hne : s.timers.m_timers ≠ [] := List.ne_nil_of_mem hmem
  rcases hwaits with ⟨rfl, rfl⟩ | ⟨hk2, r, rfl⟩
  · obtain ⟨hidle, timeout, wakeup, hblocked⟩ := h.blocked
    have hact : s.act env (.wake w false) = s.setIdle w (.woken false) := by
      simp [act, wake, hidle, hblocked]
    rw [hact]
    exact Or.inl ⟨1, by omega, near_setIdle hidle h.free rfl fun hk => absurd hk (by omega)⟩
  have hlate := hlate r rfl
  rcases h.cases with ⟨hpc, rfl⟩ | ⟨hpc, hidle⟩
  · -- into the idle fiber
    obtain ⟨hpc', htop, htickling⟩ := act_idleIn env hpc r
    refine Or.inl ⟨4, by omega, ?_, by rw [htickling]; exact h.free, fun _ _ _ hk => by cases hk⟩
    rw [hpc', htop]
    rfl
  have hact : s.act env (.run w r) = s.idleStep env w r := by
    simp only [act, runStep, hpc]
  rw [hact]
  rcases hidle with ⟨htop, rfl⟩ | ⟨⟨next_timeout, hasked⟩, rfl⟩ | ⟨-, hk⟩ |
    ⟨⟨tickled, hwoken⟩, rfl⟩ | ⟨⟨now_ms, tickled, hchecked, hdue⟩, rfl⟩
  · unfold idleStep
    rw [htop]
    have hnear : (s.setIdle w (.asked (s.timers.getNextTimer r.now_ms).1)).Near w d 3 :=
      near_setIdle hpc h.free rfl fun hk => absurd hk (by omega)
    exact Or.inl ⟨3, by omega, hnear.steps, hnear.free, hnear.late⟩
  · unfold idleStep
    rw [hasked]
    dsimp only
    have hnot : ¬ s.sched.stopping := by
      intro hstop
      rw [hstop.1] at hauto
      cases hauto
    rw [if_neg fun hall => hnot hall.2.2]
    exact Or.inl ⟨2, by omega, near_setIdle hpc h.free rfl fun hk => absurd hk (by omega)⟩
  · exact absurd hk hk2
  · unfold idleStep
    rw [hwoken]
    dsimp only
    rw [if_neg hne]
    refine Or.inl ⟨0, by omega, near_setIdle hpc h.free rfl fun _ now_ms tickled h => ?_⟩
    cases h
    exact hlate
  · -- the timer is due
    obtain ⟨⟨cbs, timers⟩, hexpired⟩ : ∃ x, s.timers.listExpired env.addr now_ms r.probe = .ok x :=
      TimerManager.listExpired_ok hne
    have hspec := (TimerManager.listExpired_spec hwf hexpired).1
    have hexp : t ∈ s.timers.expired env.addr now_ms r.probe := by
      rw [TimerManager.mem_expired hwf.sorted, harmed.1]
      exact ⟨hmem, Or.inr hdue⟩
    have hstep : s.idleStep env w r =
        { s.setIdle w (.expired cbs tickled) with timers := timers } := by
      unfold idleStep
      rw [hchecked]
      dsimp only
      rw [hexpired]
    rw [hstep]
    refine Or.inr ⟨w, hpc, h.free, cbs, tickled, Function.update_self .., ?_⟩
    rw [hspec.cbs, ← harmed.2]
    exact List.mem_map_of_mem hexp

/-! ## The callback in hand -/

omit [DecidableEq W] [Fintype W] in
/-- No call takes an entry from the record. -/
theorem call_pushed (σ : Scheduler W) (pusher : Option W) (c : SchedCall) :
    σ.pushed <+: (σ.call pusher c).pushed :=
  Scheduler.call_inv (I := fun x : Scheduler W => σ.pushed <+: x.pushed)
    (fun _ _ _ h _ => h.trans (List.prefix_append _ _)) (fun _ _ h => h) (List.prefix_refl _) c

omit [DecidableEq W] [Fintype W] in
/-- A batch pushes each of its callbacks. -/
theorem batch_pushes (f : Callback) : ∀ (fcs : List (Option FiberOrcb)) (σ : Scheduler W),
    some (.cb f) ∈ fcs → ∃ ft ∈ (σ.call none (.batch fcs)).pushed,
      σ.pushed.length ≤ ft.serial ∧ ft.task = .cb f ∧ ft.thread = -1 := by
  intro fcs
  induction fcs with
  | nil =>
    intro σ hmem
    cases hmem
  | cons fc fcs ih =>
    intro σ hmem
    rcases List.mem_cons.1 hmem with rfl | hmem
    · have hrest := call_pushed (σ.push (.cb f) (-1) none) none (.batch fcs)
      refine ⟨{ task := .cb f, serial := σ.pushed.length, early := σ.stopPc = .out, pusher := none },
        hrest.subset ?_, Nat.le_refl _, rfl, rfl⟩
      exact List.mem_append_right _ (List.mem_singleton_self _)
    · obtain ⟨ft, hft, hserial, hpushed⟩ := ih (σ.scheduleNoLock fc (-1) none) hmem
      have hgrow : σ.pushed.length ≤ (σ.scheduleNoLock fc (-1) none).pushed.length :=
        (call_pushed σ none (.scheduler fc (-1))).length_le
      exact ⟨ft, hft, hgrow.trans hserial, hpushed⟩

omit [Fintype W] in
theorem push_sched (s : IoThreads W T) (p : W ⊕ T) (sched : Scheduler W) (need_tickle : Bool) :
    (s.push p sched need_tickle).sched = sched := by
  unfold push
  cases need_tickle <;> rfl

omit [Fintype W] in
/-- **A worker schedules what it has in hand** with its next step. -/
theorem held_of_run (h : s.Held v cb) (r : Reads) :
    Scheduled env (s.act env (.run v r)) s.sched.pushed.length cb := by
  obtain ⟨cbs, tickled, hidle, hmem⟩ := h.hand
  have hact : s.act env (.run v r) = (s.setIdle v (.events tickled)).scheduler (.inl v) none
      (.batch (cbs.map (·.map fun cb => .cb (env.function cb)))) := by
    simp only [act, runStep, h.pc, idleStep, hidle]
    rw [if_neg (List.ne_nil_of_mem hmem)]
  have hsched : (s.act env (.run v r)).sched =
      s.sched.call none (.batch (cbs.map (·.map fun cb => .cb (env.function cb)))) := by
    rw [hact]
    unfold scheduler
    rw [push_sched]
    rfl
  unfold Scheduled
  rw [hsched]
  refine batch_pushes (env.function cb) _ s.sched ?_
  exact List.mem_map.2 ⟨some cb, hmem, rfl⟩

omit [DecidableEq W] [DecidableEq T] [Fintype W] in
theorem Held.apart (h : s.Held v cb) (hs : Apart s s' v) : s'.Held v cb :=
  ⟨by rw [hs.worker]; exact h.pc, by rw [hs.tickling]; exact h.free, by rw [hs.idle]; exact h.hand⟩

/-- **No other step** takes it away. -/
theorem held_of_not_run (env : IoEnv W) (h : s.Held v cb) (hrun : ∀ r, a ≠ .run v r) :
    (s.act env a).Held v cb := by
  obtain ⟨cbs, tickled, hidle, hmem⟩ := h.hand
  by_cases hwake : ∃ tickled, a = .wake v tickled
  · obtain ⟨tickled, rfl⟩ := hwake
    simp only [act, wake, h.pc, hidle]
    exact h
  by_cases hint : ∃ now_ms, a = .interrupt v now_ms
  · obtain ⟨now_ms, rfl⟩ := hint
    simp only [act, interrupt, h.pc, hidle]
    exact h
  refine h.apart (act_idle env (Or.inr h.pc) ?_ h.free hrun (fun tickled ha => hwake ⟨tickled, ha⟩)
    fun now_ms ha => hint ⟨now_ms, ha⟩)
  intro _ tickled' hev
  rw [hidle] at hev
  cases hev

/-! ## What holds in every state -/

/-- The scheduler goes on: entries are only added to the record, and nobody calls `stop()`. -/
structure Goes (σ τ : Scheduler W) : Prop where
  pushed : σ.pushed <+: τ.pushed
  auto : τ.m_autoStop = σ.m_autoStop

theorem goes_of_move {σ τ : Scheduler W} {pool : Pool W} {b : SchedAct W}
    (h : Scheduler.Move pool σ b τ) (hb : b ≠ .stop) : Goes σ τ := by
  refine ⟨Scheduler.move_pushed h, ?_⟩
  rcases Scheduler.move_flags h with ⟨hstop, -⟩ | ⟨-, hauto, -⟩
  · exact absurd hstop hb
  · exact hauto

omit [DecidableEq W] [Fintype W] in
theorem call_goes (σ : Scheduler W) (pusher : Option W) (c : SchedCall) :
    Goes σ (σ.call pusher c) :=
  ⟨call_pushed σ pusher c, (Scheduler.call_frame σ pusher c).autoStop⟩

omit [Fintype W] in
theorem idleStep_goes (r : Reads) : Goes s.sched (s.idleStep env v r).sched := by
  have hsame : Goes s.sched s.sched := ⟨List.prefix_refl _, rfl⟩
  unfold idleStep
  split
  · exact hsame
  · split
    · exact ⟨List.prefix_refl _, rfl⟩
    · exact hsame
  · exact hsame
  · split <;> exact hsame
  · split
    · exact ⟨List.prefix_refl _, rfl⟩
    · exact hsame
  · dsimp only
    split
    · exact hsame
    · unfold scheduler
      rw [push_sched]
      exact call_goes s.sched none _
  · split <;> exact hsame
  · exact ⟨List.prefix_refl _, rfl⟩

/-- **No step takes an entry from the record** or stops the scheduler. -/
theorem act_goes (env : IoEnv W) (s : IoThreads W T) (a : IoAct W T) :
    Goes s.sched (s.act env a).sched := by
  have hsame : Goes s.sched s.sched := ⟨List.prefix_refl _, rfl⟩
  cases a with
  | run v r =>
    have hrun : Goes s.sched (s.sched.runStep env.pool v) :=
      goes_of_move (Scheduler.runStep_move v) (by simp)
    simp only [act, runStep]
    split
    · exact idleStep_goes r
    · exact hrun
    · split <;> exact hrun
    · split <;> exact hrun
    · rw [push_sched]
      exact hrun
    · exact hrun
  | user v u =>
    simp only [act, userStep]
    split
    · unfold scheduler
      rw [push_sched]
      exact call_goes _ _ _
    · exact goes_of_move (Scheduler.userStep_move v _ : Scheduler.Move env.pool _ _ _) (by simp)
  | call th c =>
    simp only [act, scheduler]
    rw [push_sched]
    exact call_goes _ _ _
  | timer p o =>
    simp only [act]
    split
    · unfold timer
      split
      · exact ⟨List.prefix_refl _, rfl⟩
      · dsimp only
        split <;> exact hsame
    · exact hsame
  | wake v tickled =>
    simp only [act, wake]
    split
    · split <;> exact hsame
    · exact hsame
  | interrupt v now_ms =>
    simp only [act, interrupt]
    split <;> exact hsame
  | trigger v fc =>
    simp only [act, trigger]
    split
    · unfold scheduler
      rw [push_sched]
      exact call_goes _ _ _
    · exact hsame
  | tickle p =>
    simp only [act, tickle]
    split
    · exact hsame
    · split <;> exact hsame
    · exact hsame

/-- **The invariant.** -/
structure Steady (env : IoEnv W) (s : IoThreads W T) : Prop where
  wf : s.timers.WF env.addr
  auto : s.sched.m_autoStop = false
  free : ∀ w, (s.sched.worker w).pc = .idleIn → s.tickling (.inl w) = none

omit [Fintype W] in
theorem idleStep_not_idleIn (hpc : (s.sched.worker w).pc = .idle) (r : Reads) :
    ((s.idleStep env w r).sched.worker w).pc ≠ .idleIn := by
  have hsame : (s.sched.worker w).pc ≠ .idleIn := by rw [hpc]; simp
  have hleave : ∀ st : FiberState, ((s.sched.setWorker w
      { s.sched.worker w with pc := .idleOut, idle := st }).worker w).pc ≠ .idleIn := by
    intro st
    simp [Scheduler.setWorker]
  unfold idleStep
  split
  · exact hsame
  · split
    · exact hleave .TERM
    · exact hsame
  · exact hsame
  · split <;> exact hsame
  · split <;> exact hsame
  · dsimp only
    split
    · exact hsame
    · unfold scheduler
      rw [push_sched, (Scheduler.call_frame _ none _).worker]
      exact hsame
  · split <;> exact hsame
  · exact hleave .HOLD

/-- A worker about to swap its idle fiber in is in no call of `tickle()`. -/
theorem runStep_free (hfree : s.tickling (.inl w) = none) (r : Reads)
    (hpc : ((s.runStep env w r).sched.worker w).pc = .idleIn) :
    (s.runStep env w r).tickling (.inl w) = none := by
  have hmove : Scheduler.Move env.pool s.sched (.run w) (s.sched.runStep env.pool w) :=
    Scheduler.runStep_move w
  -- it comes there from a scan that picked nothing, or has been there
  have hfrom : ((s.sched.runStep env.pool w).worker w).pc = .idleIn →
      (s.sched.worker w).pc = .idleIn ∨ (s.sched.worker w).pc = .picked none := by
    intro hin
    rcases Scheduler.move_inIdle hmove (by rw [hin]; rfl) with hold | hold | hold
    · exact Or.inl (hold.symm.trans hin)
    · exact Or.inr hold
    · exact Or.inl hold
  revert hpc
  unfold runStep
  dsimp only
  split
  · rename_i hidle
    intro hpc
    exact absurd hpc (idleStep_not_idleIn hidle r)
  · intro _
    exact hfree
  · rename_i hpicked
    split
    · rename_i hterm
      intro hpc
      have hexit : ((s.sched.runStep env.pool w).worker w).pc = .exited := by
        simp [Scheduler.runStep, hpicked, hterm, Scheduler.setPc, Scheduler.setWorker]
      have hin : ((s.sched.runStep env.pool w).worker w).pc = .idleIn := hpc
      rw [hexit] at hin
      cases hin
    · intro _
      exact hfree
  · rename_i hscan
    intro hpc
    have hin : ((s.sched.runStep env.pool w).worker w).pc = .idleIn := by
      revert hpc
      split <;> exact id
    rcases hfrom hin with hold | hold <;> rw [hscan] at hold <;> cases hold
  · rename_i f b hrequeue
    intro hpc
    rw [push_sched] at hpc
    rcases hfrom hpc with hold | hold <;> rw [hrequeue] at hold <;> cases hold
  · intro _
    exact hfree

theorem act_free (env : IoEnv W) (hs : s.Steady env) (hfree : ∀ p ∈ a.caller, s.tickling p = none)
    (w : W) (hpc : ((s.act env a).sched.worker w).pc = .idleIn) :
    (s.act env a).tickling (.inl w) = none := by
  by_cases ha : a.worker = some w
  swap
  · have hapart : Apart s (s.act env a) w := act_apart ha
    rw [hapart.worker] at hpc
    rw [hapart.tickling]
    exact hs.free w hpc
  by_cases hrun : ∃ r, a = .run w r
  · obtain ⟨r, rfl⟩ := hrun
    exact runStep_free (hfree _ rfl) r hpc
  cases a with
  | run v r =>
    cases ha
    exact absurd ⟨r, rfl⟩ hrun
  | user v u =>
    cases ha
    have hmove : Scheduler.Move env.pool s.sched (.user w u) (s.sched.userStep w u) :=
      Scheduler.userStep_move w u
    -- a task that is executed leaves the worker with a task
    by_cases hrunning : ∃ f b, (s.sched.worker w).pc = .task .running f b
    · exfalso
      obtain ⟨f, b, hrunning⟩ := hrunning
      revert hpc
      cases u with
      | call c =>
        simp only [act, userStep, hrunning, scheduler]
        rw [push_sched, (Scheduler.call_frame _ _ _).worker, hrunning]
        simp
      | _ =>
        simp [act, userStep, Scheduler.userStep, hrunning, Scheduler.setPc, Scheduler.setWorker]
    · have hsched : s.sched.userStep w u = s.sched := by
        unfold Scheduler.userStep
        split
        · rename_i f b hold
          exact absurd ⟨f, b, hold⟩ hrunning
        · rfl
      have hact : s.act env (.user w u) = s := by
        simp only [act, userStep]
        split
        · rename_i f b hold
          exact absurd ⟨_, _, hold⟩ hrunning
        · rw [hsched]
      rw [hact] at hpc ⊢
      exact hs.free w hpc
  | call th c => cases ha
  | timer p o =>
    cases p with
    | inr th => cases ha
    | inl v =>
      cases ha
      revert hpc
      simp only [act]
      split
      · rename_i huser
        intro hpc
        exfalso
        have hsched : (s.timer env (.inl w) o).sched.worker w = s.sched.worker w := by
          obtain ⟨timers, hcall, -⟩ := TimerOp.call_ok hs.wf o
          rw [(timer_frame env s (.inl w) hcall).1.sched]
        rw [hsched] at hpc
        have hnot := not_inUser (T := T) (Or.inl hpc)
        rw [hnot] at huser
        cases huser
      · exact hs.free w
  | wake v tickled =>
    cases ha
    revert hpc
    simp only [act, wake]
    split
    · split <;> exact hs.free w
    · exact hs.free w
  | interrupt v now_ms =>
    cases ha
    revert hpc
    simp only [act, interrupt]
    split <;> exact hs.free w
  | trigger v fc =>
    cases ha
    revert hpc
    simp only [act, trigger]
    split
    · rename_i hidle hev
      unfold scheduler
      rw [push_sched, (Scheduler.call_frame _ _ _).worker, hidle]
      intro hpc
      cases hpc
    · exact hs.free w
  | tickle p =>
    cases p with
    | inr th => cases ha
    | inl v =>
      cases ha
      revert hpc
      simp only [act, tickle]
      split
      · exact hs.free w
      · split
        · exact fun _ => Function.update_self ..
        · rename_i why htest hidle
          intro hpc
          have hnone := hs.free w hpc
          rw [hnone] at htest
          cases htest
      · exact fun _ => Function.update_self ..

/-! ## Steps -/

omit [Fintype W] in
theorem step_of_fault (env : IoEnv W) (h : s.sched.fault ≠ none) (a : IoAct W T) :
    step env s a = s :=
  if_pos (Option.isSome_iff_ne_none.2 h)

omit [Fintype W] in
theorem step_of_free (env : IoEnv W) (hfault : s.sched.fault = none)
    (hfree : ∀ p ∈ a.caller, s.tickling p = none) :
    step env s a = { s.act env a with time := s.time + 1 } := by
  have hheld : ¬ ∃ p ∈ a.caller, (s.tickling p).isSome := by
    rintro ⟨p, hp, hsome⟩
    rw [hfree p hp] at hsome
    cases hsome
  unfold step
  rw [hfault, if_neg hheld]
  rfl

omit [Fintype W] in
/-- A step is one of `act`, or a caller of `tickle()` or a fault holds it up. -/
theorem step_cases (env : IoEnv W) (s : IoThreads W T) (a : IoAct W T) : step env s a = s ∨
    (∀ p ∈ a.caller, s.tickling p = none) ∧
      step env s a = { s.act env a with time := s.time + 1 } := by
  by_cases hfault : s.sched.fault = none
  swap
  · exact Or.inl (step_of_fault env hfault a)
  by_cases hfree : ∀ p ∈ a.caller, s.tickling p = none
  · exact Or.inr ⟨hfree, step_of_free env hfault hfree⟩
  · left
    push Not at hfree
    obtain ⟨p, hp, hsome⟩ := hfree
    have hheld : ∃ p ∈ a.caller, (s.tickling p).isSome := ⟨p, hp, Option.isSome_iff_ne_none.2 hsome⟩
    unfold step
    rw [hfault, if_pos hheld]
    rfl

omit [DecidableEq W] [DecidableEq T] [Fintype W] in
theorem apart_time (s : IoThreads W T) (time : ℕ) (w : W) : Apart s { s with time := time } w :=
  ⟨rfl, rfl, rfl⟩

omit [DecidableEq T] [Fintype W] in
theorem init_steady (env : IoEnv W) (now_ms : UInt64) :
    (init env now_ms : IoThreads W T).Steady env :=
  ⟨TimerManager.init_wf now_ms, rfl, fun _ _ => rfl⟩

theorem step_steady (hs : s.Steady env) (a : IoAct W T) : (step env s a).Steady env := by
  rcases step_cases env s a with heq | ⟨hfree, heq⟩ <;> rw [heq]
  · exact hs
  · have hkeeps : Keeps env a s (s.act env a) := act_keeps hs.wf hfree
    exact ⟨hkeeps.wf, (act_goes env s a).auto.trans hs.auto, act_free env hs hfree⟩

theorem step_pushed (env : IoEnv W) (s : IoThreads W T) (a : IoAct W T) :
    s.sched.pushed.length ≤ (step env s a).sched.pushed.length := by
  rcases step_cases env s a with heq | ⟨-, heq⟩ <;> rw [heq]
  exact (act_goes env s a).pushed.length_le

omit [Fintype W] in
/-- **An armed timer stays armed** until a worker has its callback in hand. -/
theorem step_armed (hs : s.Steady env) (h : s.Armed t d cb) (hother : ¬ a.touches t) :
    (step env s a).Armed t d cb ∨ ∃ v, (step env s a).Held v cb := by
  rcases step_cases env s a with heq | ⟨hfree, heq⟩ <;> rw [heq]
  · exact Or.inl h
  · have hkeeps : Keeps env a s (s.act env a) := act_keeps hs.wf hfree
    rcases hkeeps.armed t d cb h hother with harmed | ⟨v, hheld⟩
    · exact Or.inl harmed
    · exact Or.inr ⟨v, hheld.apart (apart_time _ _ v)⟩

/-- **A worker keeps what it has in hand** until it schedules it. -/
theorem step_held (h : s.Held v cb) (a : IoAct W T) : (step env s a).Held v cb ∨
    Scheduled env (step env s a) s.sched.pushed.length cb := by
  rcases step_cases env s a with heq | ⟨-, heq⟩ <;> rw [heq]
  · exact Or.inl h
  by_cases hrun : ∃ r, a = .run v r
  · obtain ⟨r, rfl⟩ := hrun
    exact Or.inr (held_of_run h r)
  · have hheld : (s.act env a).Held v cb := held_of_not_run env h fun r ha => hrun ⟨r, ha⟩
    exact Or.inl (hheld.apart (apart_time _ _ v))

/-- **A worker with nothing to do comes no further away** from the timers, and the step it waits for
brings it nearer. -/
theorem step_near (hs : s.Steady env) (hfault : s.sched.fault = none) (harmed : s.Armed t d cb)
    {k : ℕ} (h : s.Near w d k) (hlate : ∀ r, a = .run w r → d ≤ r.now_ms) :
    (∃ k' ≤ k, (step env s a).Near w d k' ∧ (Waits w k a → k' < k)) ∨
      ∃ v, (step env s a).Held v cb := by
  by_cases hwaits : Waits w k a
  · -- the step is made: its maker is in no call of `tickle()`
    have hfree : ∀ p ∈ a.caller, s.tickling p = none := by
      rcases hwaits with ⟨-, rfl⟩ | ⟨-, r, rfl⟩
      · intro p hp
        cases hp
      · intro p hp
        cases hp
        exact h.free
    rw [step_of_free env hfault hfree]
    rcases near_of_waits hs.wf hs.auto harmed h hwaits hlate with ⟨k', hlt, hnear⟩ | ⟨v, hheld⟩
    · exact Or.inl ⟨k', hlt.le, hnear.apart (apart_time _ _ w), fun _ => hlt⟩
    · exact Or.inr ⟨v, hheld.apart (apart_time _ _ v)⟩
  · rcases step_cases env s a with heq | ⟨-, heq⟩ <;> rw [heq]
    · exact Or.inl ⟨k, Nat.le_refl k, h, fun hw => absurd hw hwaits⟩
    · obtain ⟨k', hle, hnear⟩ := near_of_not_waits env h hwaits
      exact Or.inl ⟨k', hle, hnear.apart (apart_time _ _ w), fun hw => absurd hw hwaits⟩

end IoThreads

end Coroutine
