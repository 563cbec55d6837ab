import Coroutine.Proof.IoChange

/-!
# Lost wakeups

`IOManager::tickle` returns without writing when there are idle threads, so the only calls
that write are those made while nobody sleeps.

* `Lost`: everybody is in `epoll_wait`, no byte is in the pipe or on its way, and there is
  work that came after they went to sleep.
* `awake_of_change`: what a step can do keeps a byte coming for all such work.
* `no_lost_wakeup`: so in a run in which no call of `tickle()` for such work takes its early
  return while all workers are away, no wakeup is lost.
* `tickle_lost_iff`: and while all are blocked a call that does so loses one.
-/

namespace Coroutine

open Lib

namespace IoThreads

variable {W T : Type} {s s' : IoThreads W T}

/-- All workers are away, those in `run()` since before `k`. -/
def Gone (s : IoThreads W T) (why : TickleFor) (k : ℕ) : Prop :=
  ∀ w, s.away why w = true ∧ ((s.sched.worker w).pc = .out ∨ s.since why w < k)

/-- The worker is blocked in `epoll_wait`, or is not in `run()` yet. -/
def Blocked (s : IoThreads W T) (w : W) : Prop :=
  (s.sched.worker w).pc = .out ∨ (s.sched.worker w).pc = .idle ∧
    ∃ timeout wakeup, s.idle w = .blocked timeout wakeup

/-- There is something the workers would have to wake up for. -/
def Overdue (s : IoThreads W T) : Prop :=
  -- an unpinned callback that was pushed onto an empty queue after they went idle
  (∃ ft ∈ s.sched.m_fibers, ft.free = true ∧ ∃ k, s.arrived ft.serial = some k ∧
    ∀ w, (s.sched.worker w).pc = .out ∨ s.entered w < k) ∨
  -- a timer inserted at the front after they asked, due before they wake up
  ∃ t ∈ s.timers.m_timers, ∃ k, s.inserted t = some k ∧
    (∀ w, (s.sched.worker w).pc = .out ∨ s.asked w < k) ∧
    ∀ w timeout time, s.idle w = .blocked timeout (some time) →
      (s.sched.worker w).pc = .out ∨ (s.timers.timer t).m_next.toNat < time

/-- **A lost wakeup**: every worker is blocked in `epoll_wait`, some thread is idle, the pipe
is empty, no call of `tickle()` is in progress, and there is something to wake up for. -/
structure Lost (s : IoThreads W T) : Prop where
  blocked : ∀ w, s.Blocked w
  idle : 0 < s.sched.m_idleThreadCount
  pipe : s.pipe = 0
  quiet : ∀ p, s.tickling p = none
  overdue : s.Overdue

/-- **The invariant of wakeups.** -/
structure Awake (s : IoThreads W T) : Prop where
  queue : s.sched.Queue
  arrived : ∀ i k, s.arrived i = some k → k < s.time
  inserted : ∀ t k, s.inserted t = some k → k < s.time
  /-- for what was pushed onto an empty queue a byte is coming -/
  push : ∀ ft ∈ s.sched.m_fibers, ∀ k, s.arrived ft.serial = some k → s.Gone .push k →
    s.Coming .push
  /-- and for what was inserted at the front -/
  front : ∀ t k, s.inserted t = some k → s.Gone .front k → s.Coming .front
  /-- `m_tickled` says so while nobody has asked again -/
  tickled : s.timers.m_tickled = true → (∀ w, s.away .front w = true) → s.Coming .front

theorem away_of_blocked {w : W} (h : s.Blocked w) :
    s.away .push w = true ∧ s.away .front w = true := by
  rcases h with hpc | ⟨hpc, timeout, wakeup, hidle⟩
  · simp [away, hpc]
  · simp [away, hpc, hidle, IdlePc.parked, IdlePc.asleep]

/-- In a lost wakeup nothing is coming. -/
theorem not_lost (hs : s.Awake) : ¬ s.Lost := by
  intro hlost
  have hno : ∀ why, ¬ s.Coming why := by
    rintro why (hpipe | ⟨p, hp⟩ | ⟨p, hp⟩)
    · rw [hlost.pipe] at hpipe; omega
    · rw [hlost.quiet p] at hp; cases hp
    · rw [hlost.quiet p] at hp; cases hp
  have haway := fun w => away_of_blocked (hlost.blocked w)
  rcases hlost.overdue with ⟨ft, hft, -, k, hk, hsince⟩ | ⟨t, -, k, hk, hsince, -⟩
  · exact hno .push (hs.push ft hft k hk fun w => ⟨(haway w).1, hsince w⟩)
  · exact hno .front (hs.front t k hk fun w => ⟨(haway w).2, hsince w⟩)

/-- Who is away since before the step was so before the step. -/
theorem Change.gone (h : Change s s') {why : TickleFor} {k : ℕ} (hk : k ≤ s.time)
    (hgone : s'.Gone why k) : s.Gone why k := by
  intro w
  obtain ⟨haway, hsince⟩ := hgone w
  rcases h.worker why w haway with ⟨hold, heq, hout⟩ | ⟨hnow, hne⟩
  · refine ⟨hold, ?_⟩
    rcases hsince with hpc | hlt
    · exact Or.inl (hout hpc)
    · exact Or.inr (heq ▸ hlt)
  · rcases hsince with hpc | hlt
    · exact absurd hpc hne
    · omega

/-- **What a step can do keeps the invariant.** -/
theorem awake_of_change (hs : s.Awake) (h : Change s s') (htime : s'.time = s.time + 1) :
    s'.Awake := by
  refine ⟨h.queue, ?_, ?_, ?_, ?_, ?_⟩
  · intro i k hk
    rcases h.arrived i k hk with hold | rfl
    · have hlt := hs.arrived i k hold
      omega
    · omega
  · intro t k hk
    rcases h.inserted t k hk with hold | rfl
    · have hlt := hs.inserted t k hold
      omega
    · omega
  · intro ft hft k hk hgone
    rcases h.push ft hft with ⟨hold, heq⟩ | hnone | hcoming
    · rw [heq] at hk
      have hlt := hs.arrived ft.serial k hk
      have hcoming := hs.push ft hold k hk (h.gone (by omega) hgone)
      exact h.coming .push (fun w => (hgone w).1) hcoming
    · rw [hnone] at hk; cases hk
    · exact hcoming
  · intro t k hk hgone
    have haway : ∀ w, s'.away .front w = true := fun w => (hgone w).1
    rcases h.front t k hk with hold | hcoming | ⟨htickled, hkeep⟩
    · have hlt := hs.inserted t k hold
      exact h.coming .front haway (hs.front t k hold (h.gone (by omega) hgone))
    · exact hcoming
    · exact h.coming .front haway (hs.tickled htickled fun w => hkeep w (haway w))
  · intro htickled haway
    rcases h.tickled htickled with hcoming | ⟨hold, hkeep⟩
    · exact hcoming
    · exact h.coming .front haway (hs.tickled hold fun w => hkeep w (haway w))

variable [DecidableEq W] [DecidableEq T] [Fintype W]

omit [DecidableEq T] [Fintype W] in
theorem init_awake (env : IoEnv W) (now_ms : UInt64) : (init env now_ms : IoThreads W T).Awake := by
  refine ⟨Scheduler.init_queue env.pool, ?_, ?_, ?_, ?_, ?_⟩
  · intro i k hk; cases hk
  · intro t k hk; cases hk
  · intro ft hft; cases hft
  · intro t k hk; cases hk
  · intro h; cases h

/-- A step that meets the condition keeps the invariant. -/
theorem step_awake (env : IoEnv W) (hs : s.Awake) (a : IoAct W T)
    (hheard : s.sched.fault = none → s.Heard a) : (step env s a).Awake := by
  unfold step
  split
  · exact hs
  · rename_i hfault
    split
    · exact hs
    · rename_i hcaller
      have hfree : ∀ p ∈ a.caller, s.tickling p = none := by
        intro p hp
        by_contra hbusy
        exact hcaller ⟨p, hp, Option.isSome_iff_ne_none.2 hbusy⟩
      have hchange := act_change env hs.queue a (hheard (by simpa using hfault)) hfree
      have hnext : Change s { s.act env a with time := s.time + 1 } :=
        ⟨hchange.queue, hchange.worker, hchange.coming, hchange.push, hchange.arrived,
          hchange.inserted, hchange.front, hchange.tickled⟩
      exact awake_of_change hs hnext rfl

/-- **No lost wakeup**, in a run in which no call of `tickle()` for a push onto an empty queue,
or for a timer at the front, takes its early return while all workers are away and no byte is
in the pipe or on its way. -/
theorem no_lost_wakeup {W T : Type} [DecidableEq W] [DecidableEq T] [Fintype W] (env : IoEnv W)
    (now_ms : UInt64) (acts : List (IoAct W T))
    (h : Along (step env) (fun s a => s.sched.fault = none → s.Heard a) (init env now_ms) acts) :
    ∀ s ∈ trace (step env) (init env now_ms) acts, ¬ s.Lost := by
  intro s hs
  have hawake : s.Awake := trace_inv_of (I := Awake) (fun s a hs ha => step_awake env hs a ha) acts
    (init_awake env now_ms) h s hs
  exact not_lost hawake

omit [Fintype W] in
/-- **The condition is exact** for the last call of `tickle()` while all workers are blocked. -/
theorem tickle_lost_iff (env : IoEnv W) (hfault : s.sched.fault = none) {p : W ⊕ T}
    {why : TickleFor} (hwhy : why ≠ .other) (hp : s.tickling p = some (.test why))
    (hquiet : ∀ q, q ≠ p → s.tickling q = none) (hblocked : ∀ w, s.Blocked w) (hpipe : s.pipe = 0)
    (hoverdue : s.Overdue) : (step env s (.tickle p)).Lost ↔ ¬ s.Heard (.tickle p) := by
  have hstep : step env s (.tickle p) = { s.tickle p with time := s.time + 1 } := by
    simp [step, act, hfault, IoAct.caller]
  have hwrites : ¬ ∃ q, s.tickling q = some .write := by
    rintro ⟨q, hq⟩
    by_cases hqp : q = p
    · rw [hqp, hp] at hq; cases hq
    · rw [hquiet q hqp] at hq; cases hq
  have haway : ∀ w, s.away why w = true := by
    intro w
    cases why with
    | push => exact (away_of_blocked (hblocked w)).1
    | front => exact (away_of_blocked (hblocked w)).2
    | other => exact absurd rfl hwhy
  have htesting : why ∈ (s.tickling p).bind Tickle.testing := by rw [hp]; rfl
  rw [hstep]
  constructor
  · intro hlost hheard
    have hidle : 0 < s.sched.m_idleThreadCount := by
      by_contra hzero
      have hwrite : (s.tickle p).tickling p = some .write := by
        simp only [tickle, hp, if_neg hzero, setTickling, Function.update_self]
      have hnone := hlost.quiet p
      rw [show (s.tickle p).tickling p = none from hnone] at hwrite
      cases hwrite
    rcases hheard why htesting hidle haway with hbyte | hwrite
    · omega
    · exact hwrites hwrite
  · intro hheard
    have hidle : 0 < s.sched.m_idleThreadCount := by
      by_contra hzero
      exact hheard fun _ _ h => absurd h hzero
    have htickle : s.tickle p = s.setTickling p none := by
      simp only [tickle, hp, if_pos hidle]
    rw [htickle]
    refine ⟨hblocked, hidle, hpipe, ?_, hoverdue⟩
    intro q
    by_cases hqp : q = p
    · rw [hqp]; exact Function.update_self ..
    · exact (Function.update_of_ne hqp _ _).trans (hquiet q hqp)

/-- Two threads, neither the caller's; timers call functions given to them. -/
def twoIo : IoEnv Bool :=
  { pool := { tid := fun w => if w then 101 else 100, root := none }
    addr := Function.Embedding.refl ℕ
    function := fun f => match f with
      | .fn cb => cb
      | .onTimer _ _ => 0 }

/-- A worker with nothing to do goes to sleep. -/
def goToSleep (w : Bool) : List (IoAct Bool Unit) := List.replicate 5 (.run w {})

/-- A push while nobody is idle writes a byte; a callback pushes another and adds a timer while
the other worker sleeps, which is woken by the byte and executes what was pushed. -/
def wokenUp : List (IoAct Bool Unit) :=
  [.call () (.scheduler (some (.cb 7)) (-1)), .tickle (.inr ()), .tickle (.inr ()), .run true {},
    .run true {}, .run true {}, .run true {}] ++ goToSleep false ++
  [.user true (.call (.scheduler (some (.cb 8)) (-1))), .tickle (.inl true),
    .timer (.inl true) (.addTimer 0 10 9 false), .tickle (.inl true), .wake false true, .run false {},
    .run false {}, .run false {}, .run false {}, .run false {}, .run false {}, .run false {},
    .run false {}, .run false {}, .run false {}, .run false {}]

theorem no_lost_wakeup_woken_up :
    Along (step twoIo) (fun s a => s.sched.fault = none → s.Heard a) (init twoIo 0) wokenUp ∧
      (run (step twoIo) (init twoIo 0) wokenUp).sched.started = [0, 1] ∧
      ∀ s ∈ trace (step twoIo) (init twoIo 0) wokenUp, ¬ s.Lost :=
  ⟨by decide, by decide, no_lost_wakeup twoIo 0 wokenUp (by decide)⟩

/-- Both workers sleep; a callback is pushed onto the empty queue. -/
def pushAsleep : List (IoAct Bool Unit) :=
  goToSleep true ++ goToSleep false ++
    [.call () (.scheduler (some (.cb 7)) (-1)), .tickle (.inr ())]

/-- Both workers sleep until 3000; a timer due at 10 is added. -/
def timerAsleep : List (IoAct Bool Unit) :=
  goToSleep true ++ goToSleep false ++
    [.timer (.inr ()) (.addTimer 0 10 7 false), .tickle (.inr ())]

/-- `tickle()` returns without writing, and both stay asleep. -/
theorem asleep_lost :
    (run (step twoIo) (init twoIo 0) pushAsleep).Lost ∧
      (run (step twoIo) (init twoIo 0) timerAsleep).Lost ∧
      ¬ ∀ s ∈ trace (step twoIo) (init twoIo 0) pushAsleep, ¬ s.Lost := by
  have hpush : (run (step twoIo) (init twoIo 0) pushAsleep).Lost := by
    refine ⟨?_, by decide, by decide, by decide, Or.inl ?_⟩
    · intro w
      exact Or.inr ⟨by revert w; decide, 3000, some 3000, by revert w; decide⟩
    · exact ⟨{ task := .cb 7, serial := 0, early := true, pusher := none }, by decide, by decide, 10,
        by decide, by decide⟩
  have htimer : (run (step twoIo) (init twoIo 0) timerAsleep).Lost := by
    refine ⟨?_, by decide, by decide, by decide, Or.inr ?_⟩
    · intro w
      exact Or.inr ⟨by revert w; decide, 3000, some 3000, by revert w; decide⟩
    · have hsleep : ∀ w, (run (step twoIo) (init twoIo 0) timerAsleep).idle w =
          .blocked 3000 (some 3000) := by decide
      refine ⟨0, by decide, 10, by decide, by decide, ?_⟩
      intro w timeout time hidle
      rw [hsleep w] at hidle
      cases hidle
      exact Or.inr (by decide)
  exact ⟨hpush, htimer, fun h => h _ (mem_trace.2 ⟨pushAsleep, List.prefix_rfl, rfl⟩) hpush⟩

end IoThreads

end Coroutine
