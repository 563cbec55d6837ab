import Coroutine.Proof.IoScheduler
import Coroutine.Proof.SchedulerServed
import Mathlib.Data.List.GetD

/-!
# Armed timers fire

An infinite run of an `IOManager` whose workers go on. A worker looks at the timers when it has
nothing to do, so one of them must have nothing to do again and again; it need not be the one that
takes the timer out, nor the one that executes its callback.

* `near_leads`: the way to the timers is gone to its end, and what is due there is taken out.
* `held_leads`: what is in hand is scheduled.
* `timer_scheduled`: so the callback of an armed timer is scheduled, once the clock has come to the
  time it is due at.
* `serves_goesOn`: a worker that has nothing to do again and again goes on in the run of `Scheduler`
  that the run is.
* `timer_fires`: so the callback is taken.
-/

namespace Coroutine

open Lib Filter

namespace IoThreads

variable {W T : Type} {s : IoThreads W T} {a : IoAct W T} {env : IoEnv W} {t n : ℕ} {d : UInt64}
  {cb : TimerCb} {w v : W} [DecidableEq W] [DecidableEq T] [Fintype W]

/-! ## Whole runs -/

/-- The state after `n` steps from the constructor. -/
def after (env : IoEnv W) (now_ms : UInt64) (acts : ℕ → IoAct W T) (n : ℕ) : IoThreads W T :=
  stateAt (step env) (init env now_ms) acts n

/-- **The workers go on**, and worker `w` has nothing to do again and again; so does `epoll_wait`
return to it. -/
structure Serves (env : IoEnv W) (now_ms : UInt64) (acts : ℕ → IoAct W T) (w : W) : Prop where
  workers : ∀ v, ∃ᶠ n in atTop, ∃ r, acts n = .run v r
  returns : ∃ᶠ n in atTop, acts n = .wake w false
  idles : ∃ᶠ n in atTop, ((after env now_ms acts n).sched.worker w).pc = .idleIn

variable {now_ms : UInt64} {acts : ℕ → IoAct W T}

theorem steady_after (env : IoEnv W) (now_ms : UInt64) (acts : ℕ → IoAct W T) (n : ℕ) :
    (after env now_ms acts n).Steady env := by
  have hstep : ∀ m, (after env now_ms acts m).Steady env →
      (after env now_ms acts (m + 1)).Steady env := fun m hs => step_steady hs (acts m)
  exact stateAt_inv (I := Steady env) (init_steady env now_ms) hstep n

theorem pushed_after (env : IoEnv W) (now_ms : UInt64) (acts : ℕ → IoAct W T) {n m : ℕ}
    (hnm : n ≤ m) : (after env now_ms acts n).sched.pushed.length ≤
      (after env now_ms acts m).sched.pushed.length := by
  induction m, hnm using Nat.le_induction with
  | base => exact Nat.le_refl _
  | succ m _ ih => exact ih.trans (step_pushed env _ (acts m))

omit [Fintype W] in
theorem waits_again (h : Serves env now_ms acts w) (k : ℕ) : ∃ᶠ n in atTop, Waits w k (acts n) := by
  by_cases hk : k = 2
  · exact h.returns.mono fun n hn => Or.inl ⟨hk, hn⟩
  · exact (h.workers w).mono fun n hn => Or.inr ⟨hk, hn⟩

omit [Fintype W] in
theorem fault_after {m : ℕ} (h : (after env now_ms acts m).sched.fault ≠ none) :
    (after env now_ms acts (m + 1)).sched.fault ≠ none := by
  show (step env (after env now_ms acts m) (acts m)).sched.fault ≠ none
  rw [step_of_fault env h]
  exact h

/-- What is in hand is scheduled. -/
theorem held_leads (h : Serves env now_ms acts w) (v : W) (n : ℕ) (cb : TimerCb) :
    LeadsTo (fun m => n ≤ m ∧ (after env now_ms acts m).Held v cb) fun m =>
      (after env now_ms acts m).sched.fault ≠ none ∨ Scheduled env (after env now_ms acts m)
        (after env now_ms acts n).sched.pushed.length cb := by
  have hlater : ∀ m, n ≤ m →
      Scheduled env (after env now_ms acts (m + 1))
        (after env now_ms acts m).sched.pushed.length cb →
      Scheduled env (after env now_ms acts (m + 1))
        (after env now_ms acts n).sched.pushed.length cb := by
    rintro m hnm ⟨ft, hft, hserial, hpushed⟩
    exact ⟨ft, hft, (pushed_after env now_ms acts hnm).trans hserial, hpushed⟩
  refine leadsTo_of_fair (h.workers v) ?_ ?_
  · rintro m ⟨hnm, hheld⟩
    rcases step_held hheld (acts m) with hheld' | hsched
    · exact Or.inl ⟨by omega, hheld'⟩
    · exact Or.inr (Or.inr (hlater m hnm hsched))
  · rintro m ⟨hnm, hheld⟩ ⟨r, hact⟩
    by_cases hfault : (after env now_ms acts m).sched.fault = none
    · right
      refine hlater m hnm ?_
      have hfree : ∀ p ∈ (acts m).caller, (after env now_ms acts m).tickling p = none := by
        rw [hact]
        intro p hp
        cases hp
        exact hheld.free
      show Scheduled env (step env (after env now_ms acts m) (acts m)) _ cb
      rw [step_of_free env hfault hfree, hact]
      exact held_of_run hheld r
    · exact Or.inl (fault_after hfault)

/-- **The way to the timers is gone to its end**, and what is due there is taken out. -/
theorem near_leads (h : Serves env now_ms acts w) (n : ℕ)
    (hclock : ∀ m, n ≤ m → ∀ r, acts m = .run w r → d ≤ r.now_ms)
    (hother : ∀ m, n ≤ m → ¬ (acts m).touches t) (k : ℕ) :
    LeadsTo (fun m => n ≤ m ∧ (after env now_ms acts m).Armed t d cb ∧
        (after env now_ms acts m).Near w d k)
      fun m => (after env now_ms acts m).sched.fault ≠ none ∨
        ∃ v, (after env now_ms acts m).Held v cb := by
  induction k using Nat.strong_induction_on with
  | _ k ih =>
    let p : ℕ → ℕ → Prop := fun k m => n ≤ m ∧ (after env now_ms acts m).Armed t d cb ∧
      (after env now_ms acts m).Near w d k
    let q : ℕ → Prop := fun m =>
      (after env now_ms acts m).sched.fault ≠ none ∨ ∃ v, (after env now_ms acts m).Held v cb
    -- no step takes the worker further away, and the one that it waits for brings it nearer
    have hstep : ∀ m, p k m →
        q (m + 1) ∨ ∃ k' ≤ k, p k' (m + 1) ∧ (Waits w k (acts m) → k' < k) := by
      rintro m ⟨hnm, harmed, hnear⟩
      by_cases hfault : (after env now_ms acts m).sched.fault = none
      swap
      · exact Or.inl (Or.inl (fault_after hfault))
      have hs := steady_after env now_ms acts m
      rcases step_armed hs harmed (hother m hnm) with harmed' | hheld
      · rcases step_near hs hfault harmed hnear (hclock m hnm) with ⟨k', hle, hnear', hlt⟩ | hheld
        · exact Or.inr ⟨k', hle, ⟨by omega, harmed', hnear'⟩, hlt⟩
        · exact Or.inl (Or.inr hheld)
      · exact Or.inl (Or.inr hheld)
    have hnearer : LeadsTo (p k) fun m => q m ∨ ∃ k' < k, p k' m := by
      refine leadsTo_of_fair (waits_again h k) ?_ ?_
      · intro m hm
        rcases hstep m hm with hq | ⟨k', hle, hp, -⟩
        · exact Or.inr (Or.inl hq)
        rcases Nat.lt_or_eq_of_le hle with hlt | rfl
        · exact Or.inr (Or.inr ⟨k', hlt, hp⟩)
        · exact Or.inl hp
      · intro m hm hwaits
        rcases hstep m hm with hq | ⟨k', -, hp, hlt⟩
        · exact Or.inl hq
        · exact Or.inr ⟨k', hlt hwaits, hp⟩
    refine hnearer.trans ?_
    rintro m (hq | ⟨k', hlt, hp⟩)
    · exact ⟨m, Nat.le_refl m, hq⟩
    · exact ih k' hlt m hp

/-- The timer waits for the worker. -/
theorem armed_until (hother : ∀ m, n ≤ m → ¬ (acts m).touches t)
    (harmed : (after env now_ms acts n).Armed t d cb) {m : ℕ} (hnm : n ≤ m) :
    (after env now_ms acts m).Armed t d cb ∨
      ∃ i, n ≤ i ∧ ∃ v, (after env now_ms acts i).Held v cb := by
  induction m, hnm using Nat.le_induction with
  | base => exact Or.inl harmed
  | succ m hnm ih =>
    rcases ih with harmed' | hheld
    · rcases step_armed (steady_after env now_ms acts m) harmed' (hother m hnm) with hstays | hheld
      · exact Or.inl hstays
      · exact Or.inr ⟨m + 1, by omega, hheld⟩
    · exact Or.inr hheld

/-- **The callback of an armed timer is scheduled**, or there is a fault. -/
theorem timer_scheduled (h : Serves env now_ms acts w)
    (harmed : (after env now_ms acts n).Armed t d cb)
    (hclock : ∀ᶠ m in atTop, ∀ r, acts m = .run w r → d ≤ r.now_ms)
    (hother : ∀ m, n ≤ m → ¬ (acts m).touches t) :
    ∃ m, n ≤ m ∧ ((after env now_ms acts m).sched.fault ≠ none ∨
      Scheduled env (after env now_ms acts m) (after env now_ms acts n).sched.pushed.length cb) := by
  have hfires : ∀ i, n ≤ i → (∃ v, (after env now_ms acts i).Held v cb) →
      ∃ m, n ≤ m ∧ ((after env now_ms acts m).sched.fault ≠ none ∨
        Scheduled env (after env now_ms acts m) (after env now_ms acts n).sched.pushed.length cb) := by
    rintro i hni ⟨v, hheld⟩
    obtain ⟨m, him, hm⟩ := held_leads h v n cb i ⟨hni, hheld⟩
    exact ⟨m, hni.trans him, hm⟩
  -- from some time on the clock is late enough, and then the worker has nothing to do
  obtain ⟨c, hc⟩ := eventually_atTop.1 hclock
  obtain ⟨j, hj, hidle⟩ := frequently_atTop.1 h.idles (max n c)
  have hnj : n ≤ j := (le_max_left n c).trans hj
  have hcj : c ≤ j := (le_max_right n c).trans hj
  rcases armed_until hother harmed hnj with harmed' | ⟨i, hni, hheld⟩
  · have hnear : (after env now_ms acts j).Near w d 5 := by
      refine ⟨?_, (steady_after env now_ms acts j).free w hidle, fun _ _ _ hk => by cases hk⟩
      rw [hidle]
      rfl
    have hlate : ∀ m, j ≤ m → ∀ r, acts m = .run w r → d ≤ r.now_ms :=
      fun m hjm => hc m (hcj.trans hjm)
    have hquiet : ∀ m, j ≤ m → ¬ (acts m).touches t := fun m hjm => hother m (hnj.trans hjm)
    obtain ⟨m, hjm, hfault | hheld⟩ :=
      near_leads h j hlate hquiet 5 j ⟨Nat.le_refl j, harmed', hnear⟩
    · exact ⟨m, hnj.trans hjm, Or.inl hfault⟩
    · exact hfires m (hnj.trans hjm) hheld
  · exact hfires i hni hheld

/-! ## In the run of `Scheduler` -/

/-- The steps of `Scheduler` that the run is. -/
def schedActs (env : IoEnv W) (now_ms : UInt64) (acts : ℕ → IoAct W T) (m : ℕ) : SchedAct W :=
  (after env now_ms acts m).seen env (acts m)

/-- The scheduler of a run without faults. -/
theorem sched_after (hok : ∀ m, (after env now_ms acts m).sched.fault = none) (m : ℕ) :
    (after env now_ms acts m).sched =
      Scheduler.after env.pool (schedActs env now_ms acts) m := by
  induction m with
  | zero => rfl
  | succ m ih =>
    rcases step_sched (steady_after env now_ms acts m) (acts m) with hstep | ⟨e, hfail⟩
    · have hnext : (after env now_ms acts (m + 1)).sched =
          (after env now_ms acts m).sched.step env.pool (schedActs env now_ms acts m) := hstep
      rw [hnext, ih]
      rfl
    · -- the timers have failed, so there is a fault
      have hfault := hok (m + 1)
      have hnext : (after env now_ms acts (m + 1)).sched = _ := hfail
      rw [hnext] at hfault
      cases hfault

/-- A worker with nothing to do stands where it is until its own next step. -/
theorem step_stands (hpc : (s.sched.worker w).pc = .idleIn ∨
      (s.sched.worker w).pc = .idle ∧ s.idle w = .top)
    (hfree : s.tickling (.inl w) = none) (hrun : ∀ r, a ≠ .run w r) : Apart s (step env s a) w := by
  have hact : Apart s (s.act env a) w := by
    by_cases hwake : ∃ tickled, a = .wake w tickled
    · obtain ⟨tickled, rfl⟩ := hwake
      simp only [act, wake]
      split
      · rename_i timeout wakeup hidle hblocked
        rcases hpc with hin | ⟨-, htop⟩
        · rw [hin] at hidle
          cases hidle
        · rw [htop] at hblocked
          cases hblocked
      · exact ⟨rfl, rfl, rfl⟩
    by_cases hint : ∃ now_ms, a = .interrupt w now_ms
    · obtain ⟨now_ms, rfl⟩ := hint
      simp only [act, interrupt]
      split
      · rename_i timeout wakeup hidle hblocked
        rcases hpc with hin | ⟨-, htop⟩
        · rw [hin] at hidle
          cases hidle
        · rw [htop] at hblocked
          cases hblocked
      · exact ⟨rfl, rfl, rfl⟩
    refine act_idle env (hpc.imp_right And.left) ?_ hfree hrun
      (fun tickled ha => hwake ⟨tickled, ha⟩) fun now_ms ha => hint ⟨now_ms, ha⟩
    intro hidle tickled hevents
    rcases hpc with hin | ⟨-, htop⟩
    · rw [hin] at hidle
      cases hidle
    · rw [htop] at hevents
      cases hevents
  rcases step_cases env s a with heq | ⟨-, heq⟩ <;> rw [heq]
  · exact ⟨rfl, rfl, rfl⟩
  · exact ⟨hact.worker, hact.idle, hact.tickling⟩

omit [Fintype W] in
/-- **The worker's own next step** comes while what it needs still holds. -/
theorem own_step (h : Serves env now_ms acts w) {p : ℕ → Prop}
    (hkeep : ∀ m, p m → (∀ r, acts m ≠ .run w r) → p (m + 1)) (hn : p n) :
    ∃ m, n ≤ m ∧ p m ∧ ∃ r, acts m = .run w r := by
  obtain ⟨j, hnj, r, hj⟩ := frequently_atTop.1 (h.workers w) n
  by_contra hno
  have hstay : ∀ m, n ≤ m → p m := by
    intro m hnm
    induction m, hnm using Nat.le_induction with
    | base => exact hn
    | succ m hnm ih => exact hkeep m ih fun r hr => hno ⟨m, hnm, ih, r, hr⟩
  exact hno ⟨j, hnj, hstay j hnj, r, hj⟩

/-- **A worker that has nothing to do again and again goes on** in the run of `Scheduler`. -/
theorem serves_goesOn (h : Serves env now_ms acts w)
    (hok : ∀ m, (after env now_ms acts m).sched.fault = none) :
    Scheduler.GoesOn (schedActs env now_ms acts) w := by
  let entering : ℕ → Prop := fun m => ((after env now_ms acts m).sched.worker w).pc = .idleIn ∧
    (after env now_ms acts m).tickling (.inl w) = none
  let entered : ℕ → Prop := fun m => ((after env now_ms acts m).sched.worker w).pc = .idle ∧
    (after env now_ms acts m).idle w = .top ∧ (after env now_ms acts m).tickling (.inl w) = none
  have hentering : ∀ n, ∃ m, n ≤ m ∧ entering m ∧ ∃ r, acts m = .run w r := by
    intro n
    obtain ⟨j, hnj, hidle⟩ := frequently_atTop.1 h.idles n
    have hkeep : ∀ m, entering m → (∀ r, acts m ≠ .run w r) → entering (m + 1) := by
      rintro m ⟨hpc, hfree⟩ hrun
      have hstands : Apart (after env now_ms acts m) (after env now_ms acts (m + 1)) w :=
        step_stands (Or.inl hpc) hfree hrun
      exact ⟨by rw [hstands.worker]; exact hpc, by rw [hstands.tickling]; exact hfree⟩
    obtain ⟨m, hjm, hm, hrun⟩ :=
      own_step h hkeep ⟨hidle, (steady_after env now_ms acts j).free w hidle⟩
    exact ⟨m, hnj.trans hjm, hm, hrun⟩
  refine ⟨fun m => seen_ne_stop env _ _, ?_, ?_⟩
  · refine frequently_atTop.2 fun n => ?_
    obtain ⟨m, hnm, ⟨hpc, hfree⟩, r, hact⟩ := hentering n
    refine ⟨m, hnm, ?_⟩
    simp [schedActs, seen, actSeen, IoAct.caller, hact, hfree, hpc]
  · refine frequently_atTop.2 fun n => ?_
    obtain ⟨m, hnm, ⟨hpc, hfree⟩, r, hact⟩ := hentering n
    have hentered : entered (m + 1) := by
      have hnext : after env now_ms acts (m + 1) =
          { (after env now_ms acts m).act env (.run w r) with
            time := (after env now_ms acts m).time + 1 } := by
        show step env (after env now_ms acts m) (acts m) = _
        rw [hact]
        refine step_of_free env (hok m) fun p hp => ?_
        cases hp
        exact hfree
      obtain ⟨hpc', htop, htickling⟩ := act_idleIn env hpc r
      show ((after env now_ms acts (m + 1)).sched.worker w).pc = .idle ∧ _
      rw [hnext]
      exact ⟨hpc', htop, (congrFun htickling _).trans hfree⟩
    have hkeep : ∀ k, entered k → (∀ r, acts k ≠ .run w r) → entered (k + 1) := by
      rintro k ⟨hpc, htop, hfree⟩ hrun
      have hstands : Apart (after env now_ms acts k) (after env now_ms acts (k + 1)) w :=
        step_stands (Or.inr ⟨hpc, htop⟩) hfree hrun
      exact ⟨by rw [hstands.worker]; exact hpc, by rw [hstands.idle]; exact htop,
        by rw [hstands.tickling]; exact hfree⟩
    -- the first step in `idle()` is none of `Scheduler`
    obtain ⟨k, hmk, ⟨hpc, htop, hfree⟩, r, hact⟩ := own_step h hkeep hentered
    refine ⟨k, by omega, .finish, rfl, ?_⟩
    simp [schedActs, seen, actSeen, idleSeen, IoAct.caller, hact, hfree, hpc, htop]

omit [Fintype W] in
theorem fault_later {m : ℕ} (hmn : m ≤ n) (h : (after env now_ms acts m).sched.fault ≠ none) :
    (after env now_ms acts n).sched.fault ≠ none := by
  induction n, hmn using Nat.le_induction with
  | base => exact h
  | succ n _ ih => exact fault_after ih

/-- **Armed timers fire.** Whatever is scheduled and whatever the other workers and threads do, an
armed timer on whose handle no call is made has its callback scheduled and taken by a worker, if the
clock comes to the time it is due at and some worker in `run()` has nothing to do again and again,
unless there is a fault before. -/
theorem timer_fires {W T : Type} [Fintype W] [DecidableEq W] [DecidableEq T] (env : IoEnv W)
    (now_ms : UInt64) (acts : ℕ → IoAct W T) (w : W) (hw : env.pool.root ≠ some w)
    (h : Serves env now_ms acts w) (n t : ℕ) (d : UInt64) (cb : TimerCb)
    (harmed : (after env now_ms acts n).Armed t d cb)
    (hclock : ∀ᶠ m in atTop, ∀ r, acts m = .run w r → d ≤ r.now_ms)
    (hother : ∀ m, n ≤ m → ¬ (acts m).touches t) :
    ∃ m, n ≤ m ∧ ((after env now_ms acts m).sched.fault ≠ none ∨
      ∃ ft ∈ (after env now_ms acts m).sched.popped,
        (after env now_ms acts n).sched.pushed.length ≤ ft.serial ∧
          ft.task = .cb (env.function cb)) := by
  by_cases hlater : ∀ m, n ≤ m → (after env now_ms acts m).sched.fault = none
  swap
  · push Not at hlater
    obtain ⟨m, hnm, hfault⟩ := hlater
    exact ⟨m, hnm, Or.inl hfault⟩
  have hok : ∀ m, (after env now_ms acts m).sched.fault = none := by
    intro m
    by_contra hfault
    rcases Nat.le_total n m with hnm | hmn
    · exact hfault (hlater m hnm)
    · exact fault_later hmn hfault (hlater n (Nat.le_refl n))
  obtain ⟨m, hnm, hm | ⟨ft, hft, hserial, htask, hthread⟩⟩ := timer_scheduled h harmed hclock hother
  · exact absurd (hok m) hm
  -- what was pushed has been taken or is still queued
  have hqueue : (Scheduler.after env.pool (schedActs env now_ms acts) m).Queue :=
    stateAt_inv (I := Scheduler.Queue) (Scheduler.init_queue env.pool)
      (fun _ hs => Scheduler.move_queue hs (Scheduler.step_move env.pool _ _)) m
  rw [sched_after hok m] at hft
  rcases List.mem_append.1 (hqueue.all.symm.subset hft) with htaken | hqueued
  · refine ⟨m, hnm, Or.inr ⟨ft, ?_, hserial, htask⟩⟩
    rw [sched_after hok m]
    exact htaken
  · have hcb : ft.task.fiber? = none := by
      rw [htask]
      rfl
    have hnone : (Scheduler.after env.pool (schedActs env now_ms acts) m).fault = none := by
      rw [← sched_after hok m]
      exact hok m
    obtain ⟨k, hmk, hfault | htaken⟩ := Scheduler.queued_leads env.pool hw (serves_goesOn h hok) hcb
      (Or.inl hthread) m ⟨hnone, hqueued⟩
    · rw [← sched_after hok k] at hfault
      exact absurd (hok k) hfault
    · refine ⟨k, hnm.trans hmk, Or.inr ⟨ft, ?_, hserial, htask⟩⟩
      rw [sched_after hok k]
      exact htaken

/-- One worker; timers call functions given to them. -/
def oneIo : IoEnv Unit :=
  { pool := Scheduler.oneThread
    addr := Function.Embedding.refl ℕ
    function := fun f => match f with
      | .fn cb => cb
      | .onTimer _ _ => 0 }

/-- A timer due at 10 is added; the worker goes idle, takes it out, schedules and executes its
callback, and goes idle again. -/
def firing : List (IoAct Unit Unit) :=
  .timer (.inr ()) (.addTimer 0 10 7 false) :: List.replicate 5 (.run () { now_ms := 20 }) ++
    .wake () false :: List.replicate 3 (.run () { now_ms := 20 }) ++
    .tickle (.inl ()) :: List.replicate 6 (.run () { now_ms := 20 }) ++
    .user () .finish :: List.replicate 5 (.run () { now_ms := 20 })

/-- From the idle fiber to the next time that the worker swaps it in. -/
def round : List (IoAct Unit Unit) :=
  (List.range 9).map fun i => if i = 3 then .wake () false else .run () { now_ms := 20 }

/-- The timer fires, and from then on the worker goes round. -/
def rounds (n : ℕ) : IoAct Unit Unit :=
  firing.getD n (if n % 9 = 8 then .wake () false else .run () { now_ms := 20 })

/-- There is nothing to do, and the worker is about to swap its idle fiber in. -/
structure Rests (s : IoThreads Unit Unit) : Prop where
  fault : s.sched.fault = none
  fibers : s.sched.m_fibers = []
  timers : s.timers.m_timers = []
  tickling : s.tickling (.inl ()) = none
  auto : s.sched.m_autoStop = false
  pc : (s.sched.worker ()).pc = .idleIn

theorem round_rests {s : IoThreads Unit Unit} (h : s.Rests) : (run (step oneIo) s round).Rests := by
  obtain ⟨sched, timers, idle, tickling, pipe, time, entered, asked, arrived, inserted⟩ := s
  obtain ⟨hfault, hfibers, htimers, htickling, hauto, hpc⟩ := h
  dsimp only at hfault hfibers htimers htickling hauto hpc
  simp [run, round, List.range, List.range.loop, step, act, runStep, idleStep, wake,
    Scheduler.runStep, Scheduler.setWorker, Scheduler.setPc, Scheduler.scan, Scheduler.tickleMe,
    setIdle, Scheduler.stopping, IoAct.caller, TimerManager.getNextTimer_eq, hfault, hfibers, htimers,
    htickling, hauto, hpc]
  exact ⟨rfl, rfl, rfl, htickling, rfl, by dsimp only; rw [Function.update_self]⟩

theorem rounds_late {n : ℕ} (hn : 23 ≤ n) :
    rounds n = if n % 9 = 8 then .wake () false else .run () { now_ms := 20 } :=
  List.getD_eq_default _ _ hn

theorem rounds_rests (k : ℕ) : (after oneIo 0 rounds (23 + 9 * k)).Rests := by
  induction k with
  | zero =>
    have hrun : after oneIo 0 rounds 23 = run (step oneIo) (init oneIo 0) firing := by
      refine stateAt_add firing 0 fun i hi => ?_
      rw [Nat.zero_add]
      exact List.getD_eq_getElem _ _ hi
    show (after oneIo 0 rounds 23).Rests
    rw [hrun]
    exact ⟨by decide, by decide, by decide, by decide, by decide, by decide⟩
  | succ k ih =>
    have hrun : after oneIo 0 rounds (23 + 9 * k + 9) =
        run (step oneIo) (after oneIo 0 rounds (23 + 9 * k)) round := by
      refine stateAt_add round (23 + 9 * k) fun i hi => ?_
      have hi9 : i < 9 := hi
      have hmod : (23 + 9 * k + i) % 9 = 8 ↔ i = 3 := by omega
      rw [rounds_late (by omega)]
      simp [round, hmod]
    have hnext : 23 + 9 * (k + 1) = 23 + 9 * k + 9 := by omega
    rw [hnext, hrun]
    exact round_rests ih

theorem timer_fires_rounds : ∃ m, 1 ≤ m ∧ ((after oneIo 0 rounds m).sched.fault ≠ none ∨
    ∃ ft ∈ (after oneIo 0 rounds m).sched.popped,
      (after oneIo 0 rounds 1).sched.pushed.length ≤ ft.serial ∧ ft.task = .cb 7) := by
  refine timer_fires oneIo 0 rounds () (by decide) ⟨fun _ => ?_, ?_, ?_⟩ 1 0 10 (.fn 7)
    ⟨by decide, by decide⟩ ?_ ?_
  · refine frequently_atTop.2 fun n => ⟨9 * n + 27, by omega, { now_ms := 20 }, ?_⟩
    rw [rounds_late (by omega)]
    exact if_neg (by omega)
  · refine frequently_atTop.2 fun n => ⟨9 * n + 26, by omega, ?_⟩
    rw [rounds_late (by omega)]
    exact if_pos (by omega)
  · exact frequently_atTop.2 fun n => ⟨23 + 9 * n, by omega, (rounds_rests n).pc⟩
  · refine eventually_atTop.2 ⟨23, fun n hn r hrun => ?_⟩
    rw [rounds_late hn] at hrun
    split at hrun
    · cases hrun
    · cases hrun
      decide
  · intro n _
    unfold rounds
    by_cases hn : n < firing.length
    · have hall : ∀ a ∈ firing, ¬ a.touches 0 := by
        simp [firing, IoAct.touches, TimerOp.handle]
      rw [List.getD_eq_getElem _ _ hn]
      exact hall _ (List.getElem_mem hn)
    · rw [List.getD_eq_default _ _ (Nat.le_of_not_lt hn)]
      split <;> exact id

end IoThreads

end Coroutine
