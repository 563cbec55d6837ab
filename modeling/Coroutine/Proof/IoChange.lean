import Coroutine.Lib.Parties
import Coroutine.Proof.SchedulerQueue
import Coroutine.Proof.TimerFront
import Mathlib.Data.Fintype.Sum

/-!
# What a step does to sleeping workers

`Change` says what a step can do as far as wakeups are concerned: who goes away, what is
pushed onto an empty queue or inserted at the front, and which bytes for the pipe are on
their way.

* `needTickle_of_empty`: whoever pushes onto an empty queue has to call `tickle()`.
* `tickle_change`: a call of `tickle()` that is `Heard` takes no byte away that is needed.
* `act_change`: every action that meets the condition is a `Change`.
-/

namespace Coroutine

open Lib

/-- The worker has not called `epoll_wait`, or not returned from it. -/
def IdlePc.parked : IdlePc → Bool
  | .top | .asked _ | .blocked _ _ => true
  | _ => false

/-- The worker has asked for its timeout, and not returned from `epoll_wait`. -/
def IdlePc.asleep : IdlePc → Bool
  | .asked _ | .blocked _ _ => true
  | _ => false

/-- What a call of `tickle()` is about to test for. -/
def Tickle.testing : Tickle → Option TickleFor
  | .test why => some why
  | .write => none

/-- The worker is in its idle fiber, about to enter it, or not in `run()` yet. -/
def Pc.inIdle {W : Type} : Pc W → Bool
  | .out | .idleIn | .idle => true
  | _ => false

namespace Scheduler

variable {W : Type} {s s' : Scheduler W}

/-- What a call of `scheduler()` queues gets a new number. -/
theorem call_serial (s : Scheduler W) (pusher : Option W) (c : SchedCall) :
    ∀ ft ∈ (s.call pusher c).m_fibers, ft ∈ s.m_fibers ∨ s.pushed.length ≤ ft.serial := by
  refine (call_inv (I := fun t : Scheduler W => s.pushed.length ≤ t.pushed.length ∧
    ∀ ft ∈ t.m_fibers, ft ∈ s.m_fibers ∨ s.pushed.length ≤ ft.serial) ?_ (fun _ _ h => h)
    ⟨le_rfl, fun ft hft => Or.inl hft⟩ c).2
  rintro t task thread ⟨hle, hall⟩ _
  refine ⟨?_, ?_⟩
  · have hlen : (t.push task thread pusher).pushed.length = t.pushed.length + 1 := by simp [push]
    omega
  · intro ft hft
    rcases List.mem_append.1 hft with hft | hft
    · exact hall ft hft
    · rw [List.mem_singleton] at hft
      subst hft
      exact Or.inr hle

/-- **Whoever pushes onto an empty queue has to call `tickle()`.** -/
theorem needTickle_of_empty (hempty : s.m_fibers = []) {pusher : Option W} {c : SchedCall}
    (h : (s.call pusher c).m_fibers ≠ []) : s.needTickle pusher c = true := by
  cases c with
  | scheduler fc thread => simp [needTickle, hempty]
  | newFiber cb => exact absurd hempty h
  | batch fcs =>
    -- once set the flag stays set
    have hkeep : ∀ (l : List (Option FiberOrcb)) (t : Scheduler W),
        (l.foldl (scheduleNext pusher) (t, true)).2 = true := by
      intro l
      induction l with
      | nil => intro t; rfl
      | cons fc l ih =>
        intro t
        simp only [List.foldl_cons, scheduleNext, Bool.or_true]
        exact ih _
    cases fcs with
    | nil => exact absurd hempty h
    | cons fc fcs =>
      simp only [needTickle, List.foldl_cons, scheduleNext, hempty, List.isEmpty_nil, Bool.true_or]
      exact hkeep fcs _

variable [DecidableEq W] [Fintype W] {pool : Pool W} {w : W}

/-- A step in `run()` brings a worker into its idle fiber, or keeps it there. -/
theorem move_inIdle (h : Move pool s (.run w) s') (hw : (s'.worker w).pc.inIdle = true) :
    (s'.worker w).pc = (s.worker w).pc ∨ (s.worker w).pc = .picked none ∨
      (s.worker w).pc = .idleIn := by
  cases h with
  | stay => exact Or.inl rfl
  | abort => exact Or.inl rfl
  | idleIn w hpc hidle => exact Or.inr (Or.inl hpc)
  | idle w hpc => exact Or.inr (Or.inr hpc)
  | _ =>
    rcases update_elim (P := fun k : Worker W => k.pc.inIdle = true) hw with ⟨-, hw⟩ | ⟨hne, -⟩
    · cases hw
    · exact absurd rfl hne

/-- A step in `run()` that is not the end of a requeue queues nothing. -/
theorem move_fibers (h : Move pool s (.run w) s')
    (hpc : ∀ f b, (s.worker w).pc ≠ .task .requeue f b) : ∀ ft ∈ s'.m_fibers, ft ∈ s.m_fibers := by
  cases h with
  | pop w ft hscan hfind => exact fun ft hft => List.mem_of_mem_eraseP hft
  | requeue w f hrequeue => exact absurd hrequeue (hpc f _)
  | requeueCb w f hrequeue => exact absurd hrequeue (hpc f _)
  | _ => exact fun ft hft => hft

end Scheduler

namespace IoThreads

variable {W T : Type} {s s' : IoThreads W T}

/-- The worker will look at what a call of `tickle()` is made for only when woken: it has
gone idle, or has asked for its timeout, and has not returned from `epoll_wait`. -/
def away (s : IoThreads W T) : TickleFor → W → Bool
  | .push, w =>
    match (s.sched.worker w).pc with
    | .out | .idleIn => true
    | .idle => (s.idle w).parked
    | _ => false
  | .front, w =>
    match (s.sched.worker w).pc with
    | .out => true
    | .idle => (s.idle w).asleep
    | _ => false
  | .other, _ => false

/-- Since when. -/
def since (s : IoThreads W T) : TickleFor → W → ℕ
  | .push, w => s.entered w
  | .front, w => s.asked w
  | .other, _ => 0

/-- A byte is in the pipe, or on its way, or a call for it is about to test. -/
def Coming (s : IoThreads W T) (why : TickleFor) : Prop :=
  0 < s.pipe ∨ (∃ p, s.tickling p = some .write) ∨ ∃ p, s.tickling p = some (.test why)

/-- **A call of `tickle()` for a push onto an empty queue, or a timer at the front, does not
take its early return while all workers are away**, unless a byte is in the pipe or on its
way. -/
def Heard (s : IoThreads W T) : IoAct W T → Prop
  | .tickle p => ∀ why ∈ (s.tickling p).bind Tickle.testing, 0 < s.sched.m_idleThreadCount →
    (∀ w, s.away why w = true) → 0 < s.pipe ∨ ∃ q, s.tickling q = some .write
  | _ => True

instance (s : IoThreads W T) [DecidableEq W] [Fintype W] [Fintype T] : DecidablePred s.Heard
  | .tickle _ => inferInstanceAs (Decidable (∀ _ ∈ _, _))
  | .run _ _ | .user _ _ | .call _ _ | .timer _ _ | .wake _ _ | .interrupt _ _ | .trigger _ _ =>
    isTrue trivial

/-- The worker was away before the step, and since the same time. -/
def StaysAway (s s' : IoThreads W T) (why : TickleFor) (w : W) : Prop :=
  s.away why w = true ∧ s'.since why w = s.since why w ∧
    ((s'.sched.worker w).pc = .out → (s.sched.worker w).pc = .out)

/-- **What a step can do**, as far as wakeups are concerned. -/
structure Change (s s' : IoThreads W T) : Prop where
  queue : s'.sched.Queue
  /-- a worker that is away was so before, or goes away now -/
  worker : ∀ why w, s'.away why w = true → s.StaysAway s' why w ∨
    s'.since why w = s.time ∧ (s'.sched.worker w).pc ≠ .out
  /-- a byte that is coming stays so while all are away -/
  coming : ∀ why, (∀ w, s'.away why w = true) → s.Coming why → s'.Coming why
  /-- an entry queued now did not meet an empty queue, or a byte is coming -/
  push : ∀ ft ∈ s'.sched.m_fibers, ft ∈ s.sched.m_fibers ∧
    s'.arrived ft.serial = s.arrived ft.serial ∨ s'.arrived ft.serial = none ∨ s'.Coming .push
  arrived : ∀ i k, s'.arrived i = some k → s.arrived i = some k ∨ k = s.time
  inserted : ∀ t k, s'.inserted t = some k → s.inserted t = some k ∨ k = s.time
  /-- for a timer inserted at the front now a byte is coming, or one was for another timer -/
  front : ∀ t k, s'.inserted t = some k → s.inserted t = some k ∨ s'.Coming .front ∨
    s.timers.m_tickled = true ∧ ∀ w, s'.away .front w = true → s.away .front w = true
  tickled : s'.timers.m_tickled = true → s'.Coming .front ∨
    s.timers.m_tickled = true ∧ ∀ w, s'.away .front w = true → s.away .front w = true

/-! ## Parts of a change -/

theorem away_congr {w : W} (hpc : (s'.sched.worker w).pc = (s.sched.worker w).pc)
    (hidle : s'.idle w = s.idle w) (why : TickleFor) : s'.away why w = s.away why w := by
  cases why <;> simp [away, hpc, hidle]

theorem not_away {w : W} (h : (s.sched.worker w).pc.inIdle = false) (why : TickleFor) :
    s.away why w = false := by
  cases hpc : (s.sched.worker w).pc <;> simp [hpc, Pc.inIdle] at h <;> cases why <;> simp [away, hpc]

/-- A worker in `idle()` that has returned from `epoll_wait` is not away. -/
theorem not_away_of_idle {w : W} (hpc : (s.sched.worker w).pc = .idle)
    (h : (s.idle w).parked = false) (why : TickleFor) : s.away why w = false := by
  cases hidle : s.idle w <;> simp [hidle, IdlePc.parked] at h <;>
    cases why <;> simp [away, hpc, hidle, IdlePc.parked, IdlePc.asleep]

/-- A worker the step does not move. -/
theorem stays_of_same {w : W} (hworker : s'.sched.worker w = s.sched.worker w)
    (hidle : s'.idle w = s.idle w) (hentered : s'.entered w = s.entered w)
    (hasked : s'.asked w = s.asked w) {why : TickleFor} (hw : s'.away why w = true) :
    s.StaysAway s' why w := by
  refine ⟨?_, ?_, ?_⟩
  · rw [← away_congr (by rw [hworker]) hidle]; exact hw
  · cases why <;> simp [since, hentered, hasked]
  · rw [hworker]; exact id

/-- A byte that is coming stays so when no call of `tickle()` changes. -/
theorem coming_mono (hpipe : s.pipe ≤ s'.pipe)
    (htickling : ∀ p t, s.tickling p = some t → s'.tickling p = some t) {why : TickleFor}
    (h : s.Coming why) : s'.Coming why := by
  rcases h with h | ⟨p, h⟩ | ⟨p, h⟩
  · exact Or.inl (by omega)
  · exact Or.inr (Or.inl ⟨p, htickling p _ h⟩)
  · exact Or.inr (Or.inr ⟨p, htickling p _ h⟩)

/-- A step that pushes nothing and leaves the timers' flag alone. -/
theorem change_plain (hq : s'.sched.Queue)
    (hstays : ∀ why w, s'.away why w = true → s.StaysAway s' why w)
    (hcoming : ∀ why, (∀ w, s'.away why w = true) → s.Coming why → s'.Coming why)
    (hfibers : ∀ ft ∈ s'.sched.m_fibers, ft ∈ s.sched.m_fibers) (harrived : s'.arrived = s.arrived)
    (hinserted : s'.inserted = s.inserted)
    (htickled : s'.timers.m_tickled = s.timers.m_tickled) : Change s s' := by
  refine ⟨hq, fun why w hw => Or.inl (hstays why w hw), hcoming, ?_, ?_, ?_, ?_, ?_⟩
  · intro ft hft
    exact Or.inl ⟨hfibers ft hft, by rw [harrived]⟩
  · intro i k hk; rw [harrived] at hk; exact Or.inl hk
  · intro t k hk; rw [hinserted] at hk; exact Or.inl hk
  · intro t k hk; rw [hinserted] at hk; exact Or.inl hk
  · intro htrue
    rw [htickled] at htrue
    exact Or.inr ⟨htrue, fun w hw => (hstays .front w hw).1⟩

theorem change_refl (hs : s.sched.Queue) : Change s s :=
  change_plain hs (fun _ _ hw => ⟨hw, rfl, id⟩) (fun _ _ h => h) (fun _ hft => hft) rfl rfl rfl

theorem change_abort (hs : s.sched.Queue) (e : Fault) : Change s (s.abort e) :=
  change_plain ⟨hs.serial, hs.all, hs.order⟩ (fun _ _ hw => ⟨hw, rfl, id⟩) (fun _ _ h => h)
    (fun _ hft => hft) rfl rfl rfl

theorem serial_lt (hq : s.sched.Queue) {ft : FiberAndThread W} (hft : ft ∈ s.sched.m_fibers) :
    ft.serial < s.sched.pushed.length := by
  have hmem : ft ∈ s.sched.pushed := hq.all.mem_iff.1 (List.mem_append_right _ hft)
  have hserial : ft.serial ∈ s.sched.pushed.map (·.serial) := List.mem_map_of_mem hmem
  rw [hq.serial] at hserial
  exact List.mem_range.1 hserial

/-! ## Workers -/

section Workers

variable [DecidableEq W]

/-- A worker that moves in `idle()` is not away afterwards unless it is asleep as before. -/
theorem away_setIdle {w : W} {pc : IdlePc} (hpc : (s.sched.worker w).pc = .idle)
    (hparked : pc.parked = true → (s.idle w).parked = true)
    (hasleep : pc.asleep = true → (s.idle w).asleep = true) {why : TickleFor} {v : W}
    (hv : (s.setIdle w pc).away why v = true) : s.away why v = true := by
  by_cases hvw : v = w
  · subst hvw
    cases why with
    | push =>
      simp only [away, setIdle, hpc, Function.update_self] at hv ⊢
      exact hparked hv
    | front =>
      simp only [away, setIdle, hpc, Function.update_self] at hv ⊢
      exact hasleep hv
    | other => cases hv
  · have hworker : ((s.setIdle w pc).sched.worker v).pc = (s.sched.worker v).pc := rfl
    have hsame : (s.setIdle w pc).idle v = s.idle v := Function.update_of_ne hvw _ _
    rw [away_congr hworker hsame] at hv
    exact hv

theorem setIdle_timers_change (hs : s.sched.Queue) {w : W} {pc : IdlePc} {timers : TimerManager}
    (hpc : (s.sched.worker w).pc = .idle) (hparked : pc.parked = true → (s.idle w).parked = true)
    (hasleep : pc.asleep = true → (s.idle w).asleep = true)
    (htimers : timers.m_tickled = s.timers.m_tickled) :
    Change s { s.setIdle w pc with timers := timers } := by
  refine change_plain hs ?_ (fun why _ h => h) (fun ft hft => hft) rfl rfl htimers
  intro why v hv
  exact ⟨away_setIdle hpc hparked hasleep hv, by cases why <;> rfl, id⟩

theorem setIdle_change (hs : s.sched.Queue) {w : W} {pc : IdlePc}
    (hpc : (s.sched.worker w).pc = .idle) (hparked : pc.parked = true → (s.idle w).parked = true)
    (hasleep : pc.asleep = true → (s.idle w).asleep = true) : Change s (s.setIdle w pc) :=
  setIdle_timers_change hs hpc hparked hasleep rfl

/-- `epoll_wait` returns. -/
theorem wake_change (hs : s.sched.Queue) (w : W) (tickled : Bool) : Change s (s.wake w tickled) := by
  unfold wake
  split
  · rename_i timeout wakeup hpc hidle
    split
    · exact change_refl hs
    · exact setIdle_change hs hpc (fun h => by cases h) (fun h => by cases h)
  · exact change_refl hs

theorem interrupt_change (hs : s.sched.Queue) (w : W) (now_ms : UInt64) :
    Change s (s.interrupt w now_ms) := by
  unfold interrupt
  split
  · rename_i timeout wakeup hpc hidle
    exact setIdle_change hs hpc (fun _ => by rw [hidle]; rfl) (fun _ => by rw [hidle]; rfl)
  · exact change_refl hs

/-- A worker leaves its idle fiber. -/
theorem leave_change (hs : s.sched.Queue) (w : W) (st : FiberState) :
    Change s { s with
      sched := s.sched.setWorker w { s.sched.worker w with pc := .idleOut, idle := st } } := by
  refine change_plain (Scheduler.queue_congr hs rfl rfl rfl) ?_ (fun _ _ h => h) (fun _ hft => hft) rfl rfl rfl
  intro why v hv
  by_cases hvw : v = w
  · subst hvw
    rw [not_away (by simp [Scheduler.setWorker, Pc.inIdle])] at hv
    cases hv
  · refine stays_of_same ?_ ?_ ?_ ?_ hv
    · exact Function.update_of_ne hvw _ _
    all_goals rfl

/-- **A worker asks for its timeout**, which resets `m_tickled`. -/
theorem ask_change (hs : s.sched.Queue) {w : W} {next_timeout : UInt64} {timers : TimerManager}
    (hpc : (s.sched.worker w).pc = .idle) (hidle : s.idle w = .top)
    (htimers : timers.m_tickled = false) :
    Change s { s.setIdle w (.asked next_timeout) with
      timers := timers, asked := Function.update s.asked w s.time } := by
  refine ⟨hs, ?_, fun _ _ h => h, fun ft hft => Or.inl ⟨hft, rfl⟩, fun _ _ hk => Or.inl hk,
    fun _ _ hk => Or.inl hk, fun _ _ hk => Or.inl hk, ?_⟩
  · intro why v hv
    by_cases hvw : v = w
    · subst hvw
      cases why with
      -- at the top of its loop it had not looked at the queue either
      | push => exact Or.inl ⟨by simp [away, hpc, hidle, IdlePc.parked], rfl, id⟩
      | front =>
        refine Or.inr ⟨Function.update_self .., ?_⟩
        intro hout
        rw [show (s.sched.worker v).pc = .out from hout] at hpc
        cases hpc
      | other => cases hv
    · refine Or.inl (stays_of_same ?_ ?_ ?_ ?_ hv)
      · rfl
      · exact Function.update_of_ne hvw _ _
      · rfl
      · exact Function.update_of_ne hvw _ _
  · intro htrue
    rw [show timers.m_tickled = true from htrue] at htimers
    cases htimers

/-- What a requeue queues gets a new number. -/
theorem requeue_serial {pool : Pool W} {w : W} {f : FiberPtr} {b : Branch}
    (hpc : (s.sched.worker w).pc = .task .requeue f b) :
    ∀ ft ∈ (s.sched.runStep pool w).m_fibers,
      ft ∈ s.sched.m_fibers ∨ s.sched.pushed.length ≤ ft.serial := by
  intro ft hft
  have hpush : ft ∈ (s.sched.push (.fiber f) (-1) none).m_fibers := by
    cases b <;>
      simpa [Scheduler.runStep, hpc, Scheduler.execute, Scheduler.requeue, Scheduler.setPc,
        Scheduler.setWorker] using hft
  rcases List.mem_append.1 hpush with hold | hnew
  · exact Or.inl hold
  · rw [List.mem_singleton] at hnew
    subst hnew
    exact Or.inr le_rfl

variable [Fintype W]

theorem runStep_queue (pool : Pool W) (hs : s.sched.Queue) (w : W) :
    (s.sched.runStep pool w).Queue := Scheduler.move_queue hs (Scheduler.runStep_move w)

/-- A step in `run()` that does not bring the worker into its idle fiber. -/
theorem run_stays {pool : Pool W} {w : W}
    (hsame : ((s.sched.runStep pool w).worker w).pc.inIdle = true →
      ((s.sched.runStep pool w).worker w).pc = (s.sched.worker w).pc)
    (hsched : s'.sched = s.sched.runStep pool w) (hidle : s'.idle = s.idle)
    (hentered : s'.entered = s.entered) (hasked : s'.asked = s.asked) :
    ∀ why v, s'.away why v = true → s.StaysAway s' why v := by
  have hmove : Scheduler.Move pool s.sched (.run w) s'.sched := hsched ▸ Scheduler.runStep_move w
  intro why v hv
  by_cases hvw : v = w
  · subst hvw
    rw [← hsched] at hsame
    have hin : (s'.sched.worker v).pc.inIdle = true := by
      by_contra hno
      rw [not_away (by simpa using hno)] at hv
      cases hv
    have hpc := hsame hin
    refine ⟨away_congr hpc (congrFun hidle v) why ▸ hv, ?_, fun hout => hpc ▸ hout⟩
    cases why <;> simp [since, hentered, hasked]
  · exact stays_of_same (Scheduler.move_other hmove hvw) (congrFun hidle v) (congrFun hentered v)
      (congrFun hasked v) hv

/-- A step in `run()` that pushes nothing. -/
theorem run_change {pool : Pool W} (hs : s.sched.Queue) {w : W}
    (hsame : ((s.sched.runStep pool w).worker w).pc.inIdle = true →
      ((s.sched.runStep pool w).worker w).pc = (s.sched.worker w).pc)
    (hrequeue : ∀ f b, (s.sched.worker w).pc ≠ .task .requeue f b) :
    Change s { s with sched := s.sched.runStep pool w } :=
  change_plain (runStep_queue pool hs w) (run_stays hsame rfl rfl rfl rfl) (fun _ _ h => h)
    (Scheduler.move_fibers (Scheduler.runStep_move w) hrequeue) rfl rfl rfl

/-- **A worker goes idle.** -/
theorem enter_change {pool : Pool W} (hs : s.sched.Queue) {w : W}
    (hpc : (s.sched.worker w).pc = .picked none) (hterm : (s.sched.worker w).idle ≠ .TERM) :
    Change s { s with
      sched := s.sched.runStep pool w, entered := Function.update s.entered w s.time } := by
  have hmove : Scheduler.Move pool s.sched (.run w) (s.sched.runStep pool w) :=
    Scheduler.runStep_move w
  have hpc' : ((s.sched.runStep pool w).worker w).pc = .idleIn := by
    simp [Scheduler.runStep, hpc, hterm, Scheduler.setPc, Scheduler.setWorker]
  have hfibers := Scheduler.move_fibers hmove (fun f b h => by rw [hpc] at h; cases h)
  have hkeep : ∀ v, v ≠ w → ∀ {why}, away { s with
      sched := s.sched.runStep pool w, entered := Function.update s.entered w s.time } why v = true →
      s.StaysAway { s with
        sched := s.sched.runStep pool w, entered := Function.update s.entered w s.time } why v := by
    intro v hvw why hv
    refine stays_of_same ?_ ?_ ?_ ?_ hv
    · exact Scheduler.move_other hmove hvw
    · rfl
    · exact Function.update_of_ne hvw _ _
    · rfl
  refine ⟨runStep_queue pool hs w, ?_, fun _ _ h => ?_, fun ft hft => Or.inl ⟨hfibers ft hft, rfl⟩,
    fun _ _ hk => Or.inl hk, fun _ _ hk => Or.inl hk, fun _ _ hk => Or.inl hk, ?_⟩
  · intro why v hv
    by_cases hvw : v = w
    · subst hvw
      cases why with
      | push =>
        refine Or.inr ⟨Function.update_self .., ?_⟩
        intro hout
        rw [show ((s.sched.runStep pool v).worker v).pc = .out from hout] at hpc'
        cases hpc'
      | front => simp [away, hpc'] at hv
      | other => cases hv
    · exact Or.inl (hkeep v hvw hv)
  · exact h
  · intro htrue
    refine Or.inr ⟨htrue, ?_⟩
    intro v hv
    by_cases hvw : v = w
    · subst hvw
      simp [away, hpc'] at hv
    · exact (hkeep v hvw hv).1

/-- A worker switches to its idle fiber. -/
theorem idleIn_change {pool : Pool W} (hs : s.sched.Queue) {w : W}
    (hpc : (s.sched.worker w).pc = .idleIn) :
    Change s { s.setIdle w .top with sched := s.sched.runStep pool w } := by
  have hmove : Scheduler.Move pool s.sched (.run w) (s.sched.runStep pool w) :=
    Scheduler.runStep_move w
  have hpc' : ((s.sched.runStep pool w).worker w).pc = .idle := by
    simp [Scheduler.runStep, hpc, Scheduler.setWorker]
  refine change_plain (runStep_queue pool hs w) ?_ (fun _ _ h => h)
    (Scheduler.move_fibers hmove fun f b h => by rw [hpc] at h; cases h) rfl rfl rfl
  intro why v hv
  by_cases hvw : v = w
  · subst hvw
    cases why with
    | push =>
      refine ⟨by simp [away, hpc], rfl, ?_⟩
      intro hout
      rw [show ((s.sched.runStep pool v).worker v).pc = .out from hout] at hpc'
      cases hpc'
    | front => simp [away, setIdle, hpc', IdlePc.asleep] at hv
    | other => cases hv
  · refine stays_of_same ?_ ?_ ?_ ?_ hv
    · exact Scheduler.move_other hmove hvw
    · exact Function.update_of_ne hvw _ _
    all_goals rfl

/-- A step of user code other than a call. -/
theorem user_change {pool : Pool W} {σ : Scheduler W} (hs : s.sched.Queue) {w : W} {u : UserAct}
    (h : Scheduler.Move pool s.sched (.user w u) σ)
    (hno : ∀ c f b, u = .call c → (s.sched.worker w).pc ≠ .task .running f b) :
    Change s { s with sched := σ } := by
  have hleave : ∀ f fb ctx b, Change s { s with
      sched := (s.sched.setFiber f fb).setPc w (.task (.leaving ctx) f b) } := by
    intro f fb ctx b
    refine change_plain (Scheduler.queue_congr hs rfl rfl rfl) ?_ (fun _ _ h => h)
      (fun _ hft => hft) rfl rfl rfl
    intro why v hv
    by_cases hvw : v = w
    · subst hvw
      rw [not_away (by simp [Scheduler.setPc, Scheduler.setWorker, Pc.inIdle])] at hv
      cases hv
    · refine stays_of_same ?_ ?_ ?_ ?_ hv
      · exact Function.update_of_ne hvw _ _
      all_goals rfl
  cases h with
  | stay => exact change_refl hs
  | abort a e => exact change_abort hs e
  | callIn w f b c hpc => exact absurd hpc (hno c f b rfl)
  | yield w u f b st hpc hst => exact hleave f _ _ b
  | finish w f b hpc => exact hleave f _ _ b
  | throw w f b hpc => exact hleave f _ _ b

end Workers

/-! ## Pushes, calls on the timers, and calls of `tickle()` -/

variable [DecidableEq W] [DecidableEq T]

/-- The calls of `tickle()` after one that was not in progress began. -/
theorem update_tickling {p : W ⊕ T} (hp : s.tickling p = none) (t : Option Tickle) (q : W ⊕ T)
    (x : Tickle) (hq : s.tickling q = some x) :
    Function.update s.tickling p t q = some x := by
  by_cases hqp : q = p
  · subst hqp; rw [hp] at hq; cases hq
  · rw [Function.update_of_ne hqp]; exact hq

/-- A step after which a call of `tickle()` is made as well. -/
theorem change_tickling {p : W ⊕ T} (h : Change s s') (hp : s'.tickling p = none) (t : Tickle) :
    Change s (s'.setTickling p (some t)) := by
  have hmono : ∀ why, s'.Coming why → (s'.setTickling p (some t)).Coming why := by
    intro why hcoming
    refine coming_mono ?_ ?_ hcoming
    · exact le_rfl
    · exact fun q x hq => update_tickling hp _ q x hq
  refine ⟨h.queue, h.worker, fun why hall hc => hmono why (h.coming why hall hc), ?_, h.arrived,
    h.inserted, ?_, ?_⟩
  · intro ft hft
    exact (h.push ft hft).imp_right (Or.imp_right (hmono .push))
  · intro t k hk
    exact (h.front t k hk).imp_right (Or.imp_left (hmono .front))
  · intro htickled
    exact (h.tickled htickled).imp_left (hmono .front)

/-- **A push**, and the call of `tickle()` it makes necessary. -/
theorem change_of_push (hs : s.sched.Queue) {p : W ⊕ T} {need_tickle : Bool}
    (hp : s.tickling p = none) (hq : s'.sched.Queue)
    (hfibers : ∀ ft ∈ s'.sched.m_fibers, ft ∈ s.sched.m_fibers ∨ s.sched.pushed.length ≤ ft.serial)
    (hneed : s.sched.m_fibers = [] → s'.sched.m_fibers ≠ [] → need_tickle = true)
    (harrived : ∀ i, s'.arrived i = if i < s.sched.pushed.length then s.arrived i
      else if s.sched.m_fibers = [] then some s.time else none)
    (htickling : s'.tickling = if need_tickle then
      Function.update s.tickling p (some (.test .push)) else s.tickling)
    (hpipe : s'.pipe = s.pipe) (htimers : s'.timers = s.timers) (hinserted : s'.inserted = s.inserted)
    (hstays : ∀ why w, s'.away why w = true → s.StaysAway s' why w) : Change s s' := by
  refine ⟨hq, fun why w hw => Or.inl (hstays why w hw), ?_, ?_, ?_, ?_, ?_, ?_⟩
  · intro why _ hcoming
    refine coming_mono hpipe.ge ?_ hcoming
    -- the pusher had no call of `tickle()` in progress
    intro q x hqx
    rw [htickling]
    split
    · exact update_tickling hp _ q x hqx
    · exact hqx
  · intro ft hft
    rw [harrived]
    rcases hfibers ft hft with hold | hnew
    · rw [if_pos (serial_lt hs hold)]
      exact Or.inl ⟨hold, rfl⟩
    · right
      rw [if_neg (by omega)]
      split
      · -- the queue was empty
        rename_i hempty
        right
        have htrue := hneed hempty (List.ne_nil_of_mem hft)
        refine Or.inr (Or.inr ⟨p, ?_⟩)
        rw [htickling, if_pos htrue, Function.update_self]
      · exact Or.inl rfl
  · intro i k hk
    rw [harrived] at hk
    split at hk
    · exact Or.inl hk
    · split at hk
      · cases hk; exact Or.inr rfl
      · cases hk
  · intro t k hk; rw [hinserted] at hk; exact Or.inl hk
  · intro t k hk; rw [hinserted] at hk; exact Or.inl hk
  · intro htrue
    rw [htimers] at htrue
    exact Or.inr ⟨htrue, fun w hw => (hstays .front w hw).1⟩

/-- What a push leaves alone, and the call of `tickle()` it begins. -/
structure PushFrame (s s' : IoThreads W T) (p : W ⊕ T) (need_tickle : Bool) : Prop where
  tickling : s'.tickling = if need_tickle then
    Function.update s.tickling p (some (.test .push)) else s.tickling
  idle : s'.idle = s.idle
  pipe : s'.pipe = s.pipe
  timers : s'.timers = s.timers
  inserted : s'.inserted = s.inserted
  entered : s'.entered = s.entered
  asked : s'.asked = s.asked

theorem push_frame (s : IoThreads W T) (p : W ⊕ T) (sched : Scheduler W) (need_tickle : Bool) :
    PushFrame s (s.push p sched need_tickle) p need_tickle := by
  unfold push
  cases need_tickle <;> exact ⟨rfl, rfl, rfl, rfl, rfl, rfl, rfl⟩

/-- **A call of `scheduler()`** by somebody who is not away, and may move in `idle()`. -/
theorem scheduler_change (hs : s.sched.Queue) {p : W ⊕ T} (hp : s.tickling p = none)
    (pusher : Option W) (c : SchedCall) {idle : W → IdlePc}
    (hidle : ∀ why w, away { s with idle := idle } why w = true → s.away why w = true) :
    Change s (scheduler { s with idle := idle } p pusher c) := by
  have hf := push_frame { s with idle := idle } p (s.sched.call pusher c)
    (s.sched.needTickle pusher c)
  have hcall := Scheduler.call_frame s.sched pusher c
  refine change_of_push hs hp (Scheduler.call_queue hs pusher c)
    (Scheduler.call_serial s.sched pusher c)
    (fun hempty => Scheduler.needTickle_of_empty hempty) (fun i => rfl) hf.tickling hf.pipe hf.timers
    hf.inserted ?_
  intro why w hw
  have hpc : (s.sched.call pusher c).worker w = s.sched.worker w := congrFun hcall.worker w
  have haway : away (scheduler { s with idle := idle } p pusher c) why w =
      away { s with idle := idle } why w :=
    away_congr (congrArg Worker.pc hpc) (congrFun hf.idle w) why
  refine ⟨hidle why w (haway ▸ hw), ?_, fun hout => hpc ▸ hout⟩
  cases why
  · exact congrFun hf.entered w
  · exact congrFun hf.asked w
  · rfl

/-- What a call on the timers leaves alone, and the call of `tickle()` it begins. -/
structure TimerFrame (env : IoEnv W) (s s' : IoThreads W T) (p : W ⊕ T) (o : TimerOp) : Prop where
  sched : s'.sched = s.sched
  tickling : s'.tickling = if o.tickles env.addr s.timers then
    Function.update s.tickling p (some (.test .front)) else s.tickling
  idle : s'.idle = s.idle
  pipe : s'.pipe = s.pipe
  entered : s'.entered = s.entered
  asked : s'.asked = s.asked
  arrived : s'.arrived = s.arrived

theorem timer_frame (env : IoEnv W) (s : IoThreads W T) (p : W ⊕ T) {o : TimerOp}
    {timers : TimerManager} (h : o.call env.addr s.timers = .ok timers) :
    TimerFrame env s (s.timer env p o) p o ∧ (s.timer env p o).timers = timers ∧
      ∀ t, (s.timer env p o).inserted t =
        if o.inserts env.addr s.timers = some t ∧ timers.m_timers.head? = some t then some s.time
        else s.inserted t := by
  unfold timer
  simp only [h]
  cases htickles : o.tickles env.addr s.timers
  · exact ⟨⟨rfl, by simp [htickles], rfl, rfl, rfl, rfl, rfl⟩, trivial, fun _ => trivial⟩
  · exact ⟨⟨rfl, by simp [htickles, setTickling], rfl, rfl, rfl, rfl, rfl⟩, trivial, fun _ => trivial⟩

/-- **A call on the timers.** -/
theorem timer_change (env : IoEnv W) (hs : s.sched.Queue) {p : W ⊕ T} (hp : s.tickling p = none)
    (o : TimerOp) : Change s (s.timer env p o) := by
  cases hcall : o.call env.addr s.timers with
  | error e =>
    have habort : s.timer env p o = s.abort e := by simp only [timer, hcall]
    rw [habort]
    exact change_abort hs e
  | ok timers =>
    obtain ⟨hf, htimers, hinserted⟩ := timer_frame env s p hcall
    have haway : ∀ why w, (s.timer env p o).away why w = s.away why w := fun why w =>
      away_congr (by rw [hf.sched]) (congrFun hf.idle w) why
    have hkeep : ∀ w, (s.timer env p o).away .front w = true → s.away .front w = true :=
      fun w hw => haway .front w ▸ hw
    -- the insertion at the front begins a call of `tickle()`
    have hcoming : o.tickles env.addr s.timers = true → (s.timer env p o).Coming .front := by
      intro htickles
      refine Or.inr (Or.inr ⟨p, ?_⟩)
      rw [hf.tickling, if_pos htickles, Function.update_self]
    refine ⟨by rw [hf.sched]; exact hs, ?_, ?_, ?_, ?_, ?_, ?_, ?_⟩
    · intro why w hw
      refine Or.inl ⟨haway why w ▸ hw, ?_, by rw [hf.sched]; exact id⟩
      cases why <;> simp [since, hf.entered, hf.asked]
    · intro why _ h
      refine coming_mono hf.pipe.ge ?_ h
      intro q x hq
      rw [hf.tickling]
      split
      · exact update_tickling hp _ q x hq
      · exact hq
    · intro ft hft
      rw [hf.sched] at hft
      exact Or.inl ⟨hft, by rw [hf.arrived]⟩
    · intro i k hk; rw [hf.arrived] at hk; exact Or.inl hk
    · intro t k hk
      rw [hinserted] at hk
      split at hk
      · cases hk; exact Or.inr rfl
      · exact Or.inl hk
    · intro t k hk
      rw [hinserted] at hk
      split at hk
      · rename_i hfront
        rcases TimerOp.call_front hcall hfront.1 hfront.2 with htickles | htickled
        · exact Or.inr (Or.inl (hcoming htickles))
        · exact Or.inr (Or.inr ⟨htickled, hkeep⟩)
      · exact Or.inl hk
    · intro htickled
      rw [htimers] at htickled
      rcases TimerOp.call_tickled hcall htickled with hold | htickles
      · exact Or.inr ⟨hold, hkeep⟩
      · exact Or.inl (hcoming htickles)

/-- **The test and the write of `tickle()`.** -/
theorem tickle_change (hs : s.sched.Queue) (p : W ⊕ T) (hheard : s.Heard (.tickle p)) :
    Change s (s.tickle p) := by
  have hplain : ∀ s' : IoThreads W T, s'.sched = s.sched → s'.idle = s.idle →
      s'.entered = s.entered → s'.asked = s.asked → s'.arrived = s.arrived →
      s'.inserted = s.inserted → s'.timers = s.timers →
      (∀ why, (∀ w, s.away why w = true) → s.Coming why → s'.Coming why) → Change s s' := by
    intro s' hsched hidle hentered hasked harrived hinserted htimers hcoming
    have haway : ∀ why w, s'.away why w = s.away why w := fun why w =>
      away_congr (by rw [hsched]) (congrFun hidle w) why
    refine change_plain (by rw [hsched]; exact hs) ?_ ?_ ?_ harrived hinserted (by rw [htimers])
    · intro why w hw
      refine ⟨haway why w ▸ hw, ?_, by rw [hsched]; exact id⟩
      cases why <;> simp [since, hentered, hasked]
    · intro why hall
      exact hcoming why fun w => haway why w ▸ hall w
    · rw [hsched]; exact fun ft hft => hft
  unfold tickle
  split
  · exact hplain s rfl rfl rfl rfl rfl rfl rfl (fun _ _ h => h)
  · rename_i why hp
    split
    · -- the early return
      rename_i hidle
      refine hplain _ rfl rfl rfl rfl rfl rfl rfl ?_
      have hwrites : ∀ q, s.tickling q = some .write →
          (s.setTickling p none).tickling q = some .write := by
        intro q hq
        have hne : q ≠ p := by
          rintro rfl
          rw [hp] at hq
          cases hq
        exact (Function.update_of_ne hne _ _).trans hq
      rintro why' hall (hpipe | ⟨q, hq⟩ | ⟨q, hq⟩)
      · exact Or.inl hpipe
      · exact Or.inr (Or.inl ⟨q, hwrites q hq⟩)
      · -- only this call was to test: then it was heard
        by_cases hqp : q = p
        · subst hqp
          have hwhy : why' ∈ (s.tickling q).bind Tickle.testing := by rw [hq]; rfl
          rcases hheard why' hwhy hidle hall with hpipe | ⟨q', hq'⟩
          · exact Or.inl hpipe
          · exact Or.inr (Or.inl ⟨q', hwrites q' hq'⟩)
        · exact Or.inr (Or.inr ⟨q, (Function.update_of_ne hqp _ _).trans hq⟩)
    · refine hplain _ rfl rfl rfl rfl rfl rfl rfl ?_
      intro _ _ _
      exact Or.inr (Or.inl ⟨p, Function.update_self ..⟩)
  · refine hplain _ rfl rfl rfl rfl rfl rfl rfl ?_
    intro _ _ _
    exact Or.inl (Nat.succ_pos _)

/-! ## All actions -/

/-- **The steps of `IOManager::idle`.** -/
theorem idleStep_change (env : IoEnv W) (hs : s.sched.Queue) {w : W} (r : Reads)
    (hpc : (s.sched.worker w).pc = .idle) (hw : s.tickling (.inl w) = none) :
    Change s (s.idleStep env w r) := by
  unfold idleStep
  split
  · rename_i hidle
    exact ask_change hs hpc hidle (TimerManager.getNextTimer_tickled _)
  · rename_i next_timeout hidle
    split
    · exact leave_change hs w .TERM
    · exact setIdle_change hs hpc (fun _ => by rw [hidle]; rfl) (fun _ => by rw [hidle]; rfl)
  · exact change_refl hs
  · split <;> exact setIdle_change hs hpc (fun h => by cases h) (fun h => by cases h)
  · rename_i now_ms tickled hidle
    split
    · exact change_abort hs _
    · rename_i cbs timers hexpired
      exact setIdle_timers_change hs hpc (fun h => by cases h) (fun h => by cases h)
        (TimerManager.listExpired_tickled hexpired)
  · rename_i cbs tickled hidle
    dsimp only
    split
    · exact setIdle_change hs hpc (fun h => by cases h) (fun h => by cases h)
    · refine scheduler_change hs hw none _ ?_
      exact fun why v hv => away_setIdle hpc (fun h => by cases h) (fun h => by cases h) hv
  · rename_i hidle
    split
    · refine change_plain hs (fun _ _ hv => ⟨hv, rfl, id⟩) ?_ (fun _ hft => hft) rfl rfl rfl
      -- whoever empties the pipe is not away
      intro why hall
      have haway := not_away_of_idle hpc (by rw [hidle]; rfl) why
      rw [show s.away why w = true from hall w] at haway
      cases haway
    · exact setIdle_change hs hpc (fun h => by cases h) (fun h => by cases h)
  · exact leave_change hs w .HOLD

variable [Fintype W]

/-- **The steps of a worker.** -/
theorem runStep_change (env : IoEnv W) (hs : s.sched.Queue) {w : W} (r : Reads)
    (hw : s.tickling (.inl w) = none) : Change s (s.runStep env w r) := by
  have hsame : (s.sched.worker w).pc ≠ .picked none → (s.sched.worker w).pc ≠ .idleIn →
      ((s.sched.runStep env.pool w).worker w).pc.inIdle = true →
      ((s.sched.runStep env.pool w).worker w).pc = (s.sched.worker w).pc := by
    intro hpicked hidleIn hin
    rcases Scheduler.move_inIdle (Scheduler.runStep_move w) hin with hpc | hpc | hpc
    · exact hpc
    · exact absurd hpc hpicked
    · exact absurd hpc hidleIn
  unfold runStep
  dsimp only
  split
  · rename_i hpc
    exact idleStep_change env hs r hpc hw
  · rename_i hpc
    exact idleIn_change hs hpc
  · rename_i hpc
    split
    · rename_i hterm
      have hexit : ((s.sched.runStep env.pool w).worker w).pc = .exited := by
        simp [Scheduler.runStep, hpc, hterm, Scheduler.setPc, Scheduler.setWorker]
      have hrun : Change s { s with sched := s.sched.runStep env.pool w } :=
        run_change hs (fun hin => by rw [hexit] at hin; cases hin)
          (fun f b h => by rw [hpc] at h; cases h)
      exact change_tickling hrun hw _
    · rename_i hterm
      exact enter_change hs hpc hterm
  · rename_i hpc
    have hrun : Change s { s with sched := s.sched.runStep env.pool w } :=
      run_change hs (hsame (by simp [hpc]) (by simp [hpc])) (by simp [hpc])
    split
    · exact change_tickling hrun hw _
    · exact hrun
  · rename_i f b hpc
    have hf := push_frame s (.inl w) (s.sched.runStep env.pool w) s.sched.m_fibers.isEmpty
    refine change_of_push hs hw (runStep_queue env.pool hs w) ?_ ?_ (fun i => rfl) hf.tickling hf.pipe
      hf.timers hf.inserted
      (run_stays (hsame (by simp [hpc]) (by simp [hpc])) rfl hf.idle hf.entered hf.asked)
    · exact requeue_serial hpc
    · intro hempty _
      rw [hempty]
      rfl
  · rename_i hidle hidleIn hpicked hscan hrequeue
    exact run_change hs (hsame hpicked hidleIn) hrequeue

/-- **The steps of user code.** -/
theorem userStep_change (pool : Pool W) (hs : s.sched.Queue) {w : W} (u : UserAct)
    (hw : s.tickling (.inl w) = none) : Change s (s.userStep w u) := by
  unfold userStep
  split
  · exact scheduler_change hs hw _ _ (fun _ _ h => h)
  · rename_i hno
    refine user_change hs (Scheduler.userStep_move w _ : Scheduler.Move pool _ _ _) ?_
    rintro c f b rfl hpc
    exact hno c f b rfl hpc

/-- **Every action that meets the condition is such a step.** -/
theorem act_change (env : IoEnv W) (hs : s.sched.Queue) (a : IoAct W T) (hheard : s.Heard a)
    (hfree : ∀ p ∈ a.caller, s.tickling p = none) : Change s (s.act env a) := by
  cases a with
  | run w r => exact runStep_change env hs r (hfree _ rfl)
  | user w u => exact userStep_change env.pool hs u (hfree _ rfl)
  | call th c => exact scheduler_change hs (hfree _ rfl) none c (fun _ _ h => h)
  | timer p o =>
    simp only [act]
    split
    · exact timer_change env hs (hfree _ rfl) o
    · exact change_refl hs
  | wake w tickled => exact wake_change hs w tickled
  | interrupt w now_ms => exact interrupt_change hs w now_ms
  | trigger w fc =>
    simp only [act, trigger]
    split
    · exact scheduler_change hs (hfree _ rfl) none _ (fun _ _ h => h)
    · exact change_refl hs
  | tickle p => exact tickle_change hs p hheard

end IoThreads

end Coroutine
