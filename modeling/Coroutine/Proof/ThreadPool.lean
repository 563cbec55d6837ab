import Coroutine.Lib.Parties
import Coroutine.Lib.Run
import Coroutine.Proof.SchedulerMoves
import Coroutine.Spec.ThreadPool
import Mathlib.Algebra.Order.BigOperators.Group.Finset

/-!
# Starting and stopping the threads of a scheduler

The state of a thread depends on where it is in the order of construction: `joined` threads come
first, then those whose constructor has returned (`made`), then the one being constructed, if any,
then those not created. `Stand` says where the owner is for each pair of these numbers, and `At`
what holds of a thread in each state.

* `step_inv`: each step of an owner that keeps to the order keeps both. The owner's steps have a
  lemma for each place it can be at.
* `start_stop`: so no task is taken before `start()` has returned; then the pool has its threads,
  each has taken its callback, and `m_threadIds` has their ids; and when `stop()` has returned, each
  of them has ended and was joined once. `start()` does not hang.
-/

namespace Coroutine

open Lib

/-- What the constructor puts in `m_threadIds`: `m_rootThread`, if the caller is used. -/
def Crew.rootIds {W : Type} (crew : Crew W) : List ℤ :=
  if crew.root.isSome then [crew.fiberId] else []

/-- The name of the caller's thread, if it is used. -/
def Crew.callerName {W : Type} (crew : Crew W) : String :=
  if crew.m_name = "" then "UNKNOW" else crew.m_name

namespace ThreadPool

variable {W : Type}

/-- What `Thread::run` of thread `i` has written before it calls `notify()`. -/
structure Named (crew : Crew W) (s : ThreadPool W) (i : ℕ) (w : W) : Prop where
  m_id : (s.thread w).m_id = crew.tid w
  m_cb : (s.thread w).m_cb = none
  m_name : (s.thread w).m_name = crew.threadName i
  t_thread : (s.locals w).t_thread = some w
  t_thread_name : (s.locals w).t_thread_name = crew.threadName i

/-- A thread whose constructor still waits for it. -/
def Coming (crew : Crew W) (s : ThreadPool W) (i : ℕ) (w : W) : Prop :=
  match s.birth w with
  | .unborn => False
  | .enter => (s.thread w).m_cb = some .run ∧ (s.thread w).m_semaphore = 0 ∧
      (s.thread w).m_name = crew.threadName i
  | .swap => (s.thread w).m_cb = some .run ∧ (s.thread w).m_semaphore = 0 ∧
      (s.thread w).m_name = crew.threadName i ∧ (s.thread w).m_id = crew.tid w ∧
      (s.locals w).t_thread = some w ∧ (s.locals w).t_thread_name = crew.threadName i
  | .notify cb => cb = some .run ∧ (s.thread w).m_semaphore = 0 ∧ Named crew s i w
  | .call cb => cb = some .run ∧ (s.thread w).m_semaphore = 1 ∧ Named crew s i w
  | .run => (s.thread w).m_semaphore = 1 ∧ Named crew s i w ∧ (s.locals w).t_scheduler = true

/-- A thread whose constructor has returned. -/
structure Past (crew : Crew W) (s : ThreadPool W) (i : ℕ) (w : W) : Prop where
  named : Named crew s i w
  m_semaphore : (s.thread w).m_semaphore = 0
  birth : s.birth w = .call (some .run) ∨ s.birth w = .run ∧ (s.locals w).t_scheduler = true

/-- How far the owner is with a thread. -/
inductive Made where
  | unborn
  | coming
  | past
  | gone

/-- What holds of thread `i`, which is worker `w`. -/
def At (crew : Crew W) (s : ThreadPool W) (i : ℕ) (w : W) : Made → Prop
  | .unborn => s.birth w = .unborn ∧ s.joined w = 0
  | .coming => s.Coming crew i w ∧ s.joined w = 0 ∧ (s.thread w).m_thread = true
  | .past => s.Past crew i w ∧ s.joined w = 0 ∧ (s.thread w).m_thread = true
  | .gone => s.Past crew i w ∧ s.joined w = 1 ∧ (s.thread w).m_thread = false ∧
      (s.sched.worker w).pc = .exited

/-- With `j` threads joined, `k` constructed and the next one perhaps being so. -/
def made (j k : ℕ) (waiting : Bool) (i : ℕ) : Made :=
  if i < j then .gone
  else if i < k then .past
  else if i = k ∧ waiting = true then .coming
  else .unborn

/-- `m_threads` with the first `k` threads. -/
def slots (crew : Crew W) (k : ℕ) : List (Option W) :=
  (crew.order.take k).map some ++ List.replicate (crew.m_threadCount - k) none

/-- In `start()`, after its test, with `k` threads constructed. -/
structure Building (crew : Crew W) (s : ThreadPool W) (k : ℕ) : Prop where
  called : s.called = false
  threw : s.threw = false
  m_threads : s.m_threads = slots crew k
  stopPc : s.sched.stopPc = .out
  m_stopping : s.sched.m_stopping = false

/-- A call of `start()` has ended, and has constructed `k` threads. -/
structure Built (crew : Crew W) (s : ThreadPool W) (k : ℕ) : Prop where
  le : k ≤ crew.m_threadCount
  called : s.called = true
  threw : s.threw = true ↔ k < crew.m_threadCount

/-- After that, until the threads are joined: how far `stop()` may be. -/
structure Serving (crew : Crew W) (s : ThreadPool W) (k : ℕ) : Prop extends Built crew s k where
  m_threads : s.m_threads = slots crew k
  unmarked : s.sched.stopPc = .out → s.sched.m_stopping = false
  marked : s.sched.stopPc = .earlyTest ∨ s.sched.stopPc = .test ∨ s.sched.stopPc = .call ∨
    s.sched.stopPc = .join → s.sched.m_stopping = true
  early : s.sched.stopPc = .early ∨ s.sched.stopPc = .earlyTest → crew.order = []
  notDone : s.sched.stopPc ≠ .done

/-- **Where the owner stands**, with `j` threads joined, `k` constructed and perhaps one being so. -/
inductive Stand (crew : Crew W) (s : ThreadPool W) : ℕ → ℕ → Bool → Prop
  | before (howner : s.owner = .out ∨ s.owner = .test) (hcalled : s.called = false)
      (hthrew : s.threw = false) (hthreads : s.m_threads = []) (hstop : s.sched.stopPc = .out)
      (hstopping : s.sched.m_stopping = true) : Stand crew s 0 0 false
  | creating (k : ℕ) (hk : k ≤ crew.m_threadCount) (howner : s.owner = .create k)
      (hbuilding : s.Building crew k) : Stand crew s 0 k false
  | waiting (k : ℕ) (hk : k < crew.m_threadCount) (howner : s.owner = .wait k)
      (hbuilding : s.Building crew k) : Stand crew s 0 k true
  | started (k : ℕ) (howner : s.owner = .out ∨ s.owner = .test ∧ s.sched.stopPc = .out)
      (hserving : s.Serving crew k) : Stand crew s 0 k false
  | joining (k j : ℕ) (hj : j ≤ k) (howner : s.owner = .join (slots crew k) ((slots crew k).drop j))
      (hbuilt : s.Built crew k) (hthreads : s.m_threads = []) (hstop : s.sched.stopPc = .join)
      (hstopping : s.sched.m_stopping = true) : Stand crew s j k false
  | stopped (howner : s.owner = .out) (hcalled : s.called = true) (hthrew : s.threw = false)
      (hthreads : s.m_threads = []) (hstop : s.sched.stopPc = .done)
      (hstopping : s.sched.m_stopping = true) :
      Stand crew s crew.m_threadCount crew.m_threadCount false

/-- `stop()` has come to a null pointer, which a `start()` has left that threw. -/
structure NullJoined (s : ThreadPool W) : Prop where
  threw : s.threw = true
  fault : s.fault = some .undefined
  owner : ∃ thrs rest, s.owner = .join thrs (none :: rest)

/-- **The invariant.** -/
structure Inv (crew : Crew W) (s : ThreadPool W) : Prop where
  counts : ∃ j k waiting, s.Stand crew j k waiting ∧
    s.m_threadIds = crew.rootIds ++ (crew.order.take k).map crew.tid ∧
    ∀ i w, crew.order[i]? = some w → s.At crew i w (made j k waiting i)
  root : ∀ w, crew.root = some w → s.birth w = .unborn ∧ (s.locals w).t_scheduler = true ∧
    (s.locals w).t_thread_name = crew.callerName
  attached : ∀ w, s.detached w = 0
  faultless : s.fault ≠ none → s.NullJoined
  quiet : s.called = false → s.sched.popped = [] ∧
    ∀ w, crew.root ≠ some w ∧ (s.sched.worker w).pc = .scan ∨
      crew.root = some w ∧ (s.sched.worker w).pc = .out

/-! ## Threads -/

variable {crew : Crew W} {s s' : ThreadPool W} {i : ℕ} {w : W}

/-- What holds of a thread depends on its own part of the state. -/
theorem At.congr {m : Made} (h : s.At crew i w m) (hthread : s'.thread w = s.thread w)
    (hlocals : s'.locals w = s.locals w) (hbirth : s'.birth w = s.birth w)
    (hjoined : s'.joined w = s.joined w)
    (hexited : (s.sched.worker w).pc = .exited → (s'.sched.worker w).pc = .exited) :
    s'.At crew i w m := by
  have hnamed : Named crew s i w → Named crew s' i w := by
    rintro ⟨h1, h2, h3, h4, h5⟩
    exact ⟨by rw [hthread]; exact h1, by rw [hthread]; exact h2, by rw [hthread]; exact h3,
      by rw [hlocals]; exact h4, by rw [hlocals]; exact h5⟩
  have hpast : s.Past crew i w → s'.Past crew i w := by
    rintro ⟨h1, h2, h3⟩
    exact ⟨hnamed h1, by rw [hthread]; exact h2, by rw [hbirth, hlocals]; exact h3⟩
  cases m with
  | unborn => exact ⟨hbirth.trans h.1, hjoined.trans h.2⟩
  | coming =>
    refine ⟨?_, hjoined.trans h.2.1, by rw [hthread]; exact h.2.2⟩
    have hcoming := h.1
    unfold Coming at hcoming ⊢
    rw [hbirth]
    split at hcoming
    · exact hcoming
    · rw [hthread]; exact hcoming
    · rw [hthread, hlocals]; exact hcoming
    · rw [hthread]; exact ⟨hcoming.1, hcoming.2.1, hnamed hcoming.2.2⟩
    · rw [hthread]; exact ⟨hcoming.1, hcoming.2.1, hnamed hcoming.2.2⟩
    · rw [hthread, hlocals]; exact ⟨hcoming.1, hnamed hcoming.2.1, hcoming.2.2⟩
  | past => exact ⟨hpast h.1, hjoined.trans h.2.1, by rw [hthread]; exact h.2.2⟩
  | gone =>
    exact ⟨hpast h.1, hjoined.trans h.2.1, by rw [hthread]; exact h.2.2.1, hexited h.2.2.2⟩

theorem Building.congr {k : ℕ} (h : s.Building crew k) (hcalled : s'.called = s.called)
    (hthrew : s'.threw = s.threw) (hthreads : s'.m_threads = s.m_threads)
    (hstop : s'.sched.stopPc = s.sched.stopPc)
    (hstopping : s'.sched.m_stopping = s.sched.m_stopping) : s'.Building crew k :=
  ⟨hcalled.trans h.called, hthrew.trans h.threw, hthreads.trans h.m_threads, hstop.trans h.stopPc,
    hstopping.trans h.m_stopping⟩

theorem Built.congr {k : ℕ} (h : s.Built crew k) (hcalled : s'.called = s.called)
    (hthrew : s'.threw = s.threw) : s'.Built crew k :=
  ⟨h.le, hcalled.trans h.called, by rw [hthrew]; exact h.threw⟩

theorem Serving.congr {k : ℕ} (h : s.Serving crew k) (hcalled : s'.called = s.called)
    (hthrew : s'.threw = s.threw) (hthreads : s'.m_threads = s.m_threads)
    (hstop : s'.sched.stopPc = s.sched.stopPc)
    (hstopping : s'.sched.m_stopping = s.sched.m_stopping) : s'.Serving crew k := by
  refine ⟨h.toBuilt.congr hcalled hthrew, hthreads.trans h.m_threads, ?_, ?_, ?_, ?_⟩
  · rw [hstop, hstopping]; exact h.unmarked
  · rw [hstop, hstopping]; exact h.marked
  · rw [hstop]; exact h.early
  · rw [hstop]; exact h.notDone

/-- The owner's place does not depend on a thread. -/
theorem Stand.congr {j k : ℕ} {waiting : Bool} (h : s.Stand crew j k waiting)
    (howner : s'.owner = s.owner) (hcalled : s'.called = s.called) (hthrew : s'.threw = s.threw)
    (hthreads : s'.m_threads = s.m_threads) (hstop : s'.sched.stopPc = s.sched.stopPc)
    (hstopping : s'.sched.m_stopping = s.sched.m_stopping) : s'.Stand crew j k waiting := by
  cases h with
  | before h1 h2 h3 h4 h5 h6 =>
    exact .before (by rw [howner]; exact h1) (hcalled.trans h2) (hthrew.trans h3) (hthreads.trans h4)
      (hstop.trans h5) (hstopping.trans h6)
  | creating k hk h1 h2 =>
    exact .creating k hk (howner.trans h1) (h2.congr hcalled hthrew hthreads hstop hstopping)
  | waiting k hk h1 h2 =>
    exact .waiting k hk (howner.trans h1) (h2.congr hcalled hthrew hthreads hstop hstopping)
  | started k h1 h2 =>
    refine .started k ?_ (h2.congr hcalled hthrew hthreads hstop hstopping)
    rw [howner, hstop]
    exact h1
  | joining k j hj h1 h2 h4 h5 h6 =>
    exact .joining k j hj (howner.trans h1) (h2.congr hcalled hthrew) (hthreads.trans h4)
      (hstop.trans h5) (hstopping.trans h6)
  | stopped h1 h2 h3 h4 h5 h6 =>
    exact .stopped (howner.trans h1) (hcalled.trans h2) (hthrew.trans h3) (hthreads.trans h4)
      (hstop.trans h5) (hstopping.trans h6)

theorem Stand.of_create {j n k : ℕ} {waiting : Bool} (h : s.Stand crew j n waiting)
    (howner : s.owner = .create k) :
    j = 0 ∧ n = k ∧ waiting = false ∧ k ≤ crew.m_threadCount ∧ s.Building crew k := by
  cases h with
  | creating n hn ho hb =>
    have hk : n = k := OwnerPc.create.inj (ho.symm.trans howner)
    subst hk
    exact ⟨rfl, rfl, rfl, hn, hb⟩
  | before ho => rcases ho with ho | ho <;> rw [howner] at ho <;> cases ho
  | waiting n hn ho => rw [howner] at ho; cases ho
  | started n ho => rcases ho with ho | ⟨ho, -⟩ <;> rw [howner] at ho <;> cases ho
  | joining n j hj ho => rw [howner] at ho; cases ho
  | stopped ho => rw [howner] at ho; cases ho

theorem Stand.of_wait {j n k : ℕ} {waiting : Bool} (h : s.Stand crew j n waiting)
    (howner : s.owner = .wait k) :
    j = 0 ∧ n = k ∧ waiting = true ∧ k < crew.m_threadCount ∧ s.Building crew k := by
  cases h with
  | waiting n hn ho hb =>
    have hk : n = k := OwnerPc.wait.inj (ho.symm.trans howner)
    subst hk
    exact ⟨rfl, rfl, rfl, hn, hb⟩
  | before ho => rcases ho with ho | ho <;> rw [howner] at ho <;> cases ho
  | creating n hn ho => rw [howner] at ho; cases ho
  | started n ho => rcases ho with ho | ⟨ho, -⟩ <;> rw [howner] at ho <;> cases ho
  | joining n j hj ho => rw [howner] at ho; cases ho
  | stopped ho => rw [howner] at ho; cases ho

/-- At the test of `start()` the owner has not called `stop()`, and the pool is empty if it is to be
filled. -/
theorem Stand.of_test {j n : ℕ} {waiting : Bool} (h : s.Stand crew j n waiting)
    (howner : s.owner = .test) :
    s.sched.stopPc = .out ∧ (s.sched.m_stopping = true → s.m_threads = []) := by
  cases h with
  | before _ _ _ hthreads hstop => exact ⟨hstop, fun _ => hthreads⟩
  | started n ho hserving =>
    rcases ho with ho | ⟨-, hstop⟩
    · rw [howner] at ho; cases ho
    · refine ⟨hstop, fun hs => ?_⟩
      rw [hserving.unmarked hstop] at hs
      cases hs
  | creating n hn ho => rw [howner] at ho; cases ho
  | waiting n hn ho => rw [howner] at ho; cases ho
  | joining n j hj ho => rw [howner] at ho; cases ho
  | stopped ho => rw [howner] at ho; cases ho

/-- Once a call of `start()` has ended, and until the threads are joined. -/
theorem Stand.of_out {j n : ℕ} {waiting : Bool} (h : s.Stand crew j n waiting)
    (howner : s.owner = .out) (hcalled : s.called = true) (hdone : s.sched.stopPc ≠ .done) :
    j = 0 ∧ waiting = false ∧ s.Serving crew n := by
  cases h with
  | started n ho hserving => exact ⟨rfl, rfl, hserving⟩
  | before _ hc => rw [hcalled] at hc; cases hc
  | creating n hn ho => rw [howner] at ho; cases ho
  | waiting n hn ho => rw [howner] at ho; cases ho
  | joining n j hj ho => rw [howner] at ho; cases ho
  | stopped _ _ _ _ hs => exact absurd hs hdone

/-- Before a call of `start()` has ended it is in none, or in the first one. -/
theorem Stand.uncalled {j n : ℕ} {waiting : Bool} (h : s.Stand crew j n waiting)
    (hcalled : s.called = false) :
    s.sched.stopPc = .out ∧ (s.starting = true ∨ j = 0 ∧ n = 0 ∧ waiting = false) := by
  cases h with
  | before ho _ _ _ hstop => exact ⟨hstop, .inr ⟨rfl, rfl, rfl⟩⟩
  | creating n hn ho hb => exact ⟨hb.stopPc, .inl (by unfold starting; rw [ho])⟩
  | waiting n hn ho hb => exact ⟨hb.stopPc, .inl (by unfold starting; rw [ho])⟩
  | started n ho hserving => rw [hserving.called] at hcalled; cases hcalled
  | joining n j hj ho hb => rw [hb.called] at hcalled; cases hcalled
  | stopped ho hc => rw [hc] at hcalled; cases hcalled

/-- `m_stopping` is as the constructor has made it until the test of the first `start()`. -/
theorem Stand.unmarked {j n : ℕ} {waiting : Bool} (h : s.Stand crew j n waiting)
    (hstop : s.sched.stopPc = .out) (hstopping : s.sched.m_stopping ≠ false) : s.called = false := by
  cases h with
  | before _ hcalled => exact hcalled
  | creating n hn ho hb => exact hb.called
  | waiting n hn ho hb => exact hb.called
  | started n ho hserving => exact absurd (hserving.unmarked hstop) hstopping
  | joining n j hj ho hb ht hs => rw [hs] at hstop; cases hstop
  | stopped _ _ _ _ hs => rw [hs] at hstop; cases hstop

/-- While it joins the threads. -/
theorem Stand.of_join {j n : ℕ} {waiting : Bool} {thrs rest : List (Option W)}
    (h : s.Stand crew j n waiting) (howner : s.owner = .join thrs rest) :
    waiting = false ∧ j ≤ n ∧ thrs = slots crew n ∧ rest = (slots crew n).drop j ∧ s.Built crew n ∧
      s.m_threads = [] ∧ s.sched.stopPc = .join ∧ s.sched.m_stopping = true := by
  cases h with
  | joining n j hj ho hb ht hs hm =>
    obtain ⟨rfl, rfl⟩ := OwnerPc.join.inj (ho.symm.trans howner)
    exact ⟨rfl, hj, rfl, rfl, hb, ht, hs, hm⟩
  | before ho => rcases ho with ho | ho <;> rw [howner] at ho <;> cases ho
  | creating n hn ho => rw [howner] at ho; cases ho
  | waiting n hn ho => rw [howner] at ho; cases ho
  | started n ho => rcases ho with ho | ⟨ho, -⟩ <;> rw [howner] at ho <;> cases ho
  | stopped ho => rw [howner] at ho; cases ho

/-- A change of the owner's part of the state that leaves the threads alone. -/
theorem Inv.owner (h : s.Inv crew) {j k : ℕ} {waiting : Bool} (hstand : s'.Stand crew j k waiting)
    (hids : s'.m_threadIds = crew.rootIds ++ (crew.order.take k).map crew.tid)
    (hat : ∀ i w, crew.order[i]? = some w → s'.At crew i w (made j k waiting i))
    (hbirth : ∀ w, crew.root = some w → s'.birth w = s.birth w) (hlocals : s'.locals = s.locals)
    (hdetached : s'.detached = s.detached) (hfault : s'.fault = none ∨ s'.NullJoined)
    (hquiet : s'.called = false → s.called = false)
    (hpopped : s'.sched.popped = s.sched.popped) (hworker : s'.sched.worker = s.sched.worker) :
    s'.Inv crew := by
  refine ⟨⟨j, k, waiting, hstand, hids, hat⟩, ?_, ?_, fun hf => hfault.resolve_left hf, ?_⟩
  · intro w hw
    rw [hbirth w hw, hlocals]
    exact h.root w hw
  · rw [hdetached]; exact h.attached
  · intro hcalled
    rw [hpopped, hworker]
    exact h.quiet (hquiet hcalled)

/-- The owner moves, and nothing else does. -/
theorem Inv.goes (h : s.Inv crew) {j k : ℕ} {waiting : Bool}
    (hat : ∀ i w, crew.order[i]? = some w → s.At crew i w (made j k waiting i))
    (hids : s.m_threadIds = crew.rootIds ++ (crew.order.take k).map crew.tid)
    {owner : OwnerPc W} (hstand : { s with owner := owner }.Stand crew j k waiting)
    (hrun : s.fault = none) : { s with owner := owner }.Inv crew :=
  h.owner hstand hids (fun i w hi => (hat i w hi).congr rfl rfl rfl rfl id) (fun _ _ => rfl) rfl rfl
    (.inl hrun) id rfl rfl

/-! ## The order of construction -/

theorem order_inj {i' : ℕ} (h : crew.order[i]? = some w) (h' : crew.order[i']? = some w) : i = i' := by
  have hi : i < crew.order.length := (List.getElem?_eq_some_iff.1 h).1
  exact (List.getElem?_inj hi crew.nodup).1 (h.trans h'.symm)

theorem order_ne {i' : ℕ} {w' : W} (h : crew.order[i]? = some w) (h' : crew.order[i']? = some w')
    (hi : i' ≠ i) : w' ≠ w := by
  rintro rfl
  exact hi (order_inj h' h)

theorem root_ne (h : crew.order[i]? = some w) : crew.root ≠ some w :=
  (crew.mem_order w).1 (List.mem_of_getElem? h)

theorem slots_length (crew : Crew W) {k : ℕ} (hk : k ≤ crew.m_threadCount) :
    (slots crew k).length = crew.m_threadCount := by
  have hle : k ≤ crew.order.length := hk
  simp only [slots, List.length_append, List.length_map, List.length_take, List.length_replicate,
    Crew.m_threadCount]
  omega

theorem slots_full : slots crew crew.m_threadCount = crew.order.map some := by
  simp [slots, Crew.m_threadCount]

theorem slots_zero : slots crew 0 = List.replicate crew.m_threadCount none := by
  simp [slots]

/-- Of the first `k` there are threads, of the rest none. -/
theorem slots_get {k j : ℕ} (hk : k ≤ crew.m_threadCount) {x : Option W}
    (h : (slots crew k)[j]? = some x) :
    (j < k ∧ ∃ w, crew.order[j]? = some w ∧ x = some w) ∨ (k ≤ j ∧ j < crew.m_threadCount ∧ x = none) := by
  have hle : k ≤ crew.order.length := hk
  have hlen : ((crew.order.take k).map some).length = k := by
    rw [List.length_map, List.length_take]
    omega
  unfold slots at h
  by_cases hj : j < k
  · rw [List.getElem?_append_left (by omega), List.getElem?_map, List.getElem?_take_of_lt hj] at h
    have hlt : j < crew.order.length := by omega
    rw [List.getElem?_eq_getElem hlt] at h
    exact Or.inl ⟨hj, _, List.getElem?_eq_getElem hlt, (Option.some.inj h).symm⟩
  · rw [List.getElem?_append_right (by omega), List.getElem?_replicate, hlen] at h
    split at h
    · rename_i hlt
      exact Or.inr ⟨by omega, by omega, (Option.some.inj h).symm⟩
    · cases h

/-- The next thread gets its place. -/
theorem slots_set {k : ℕ} (h : crew.order[k]? = some w) :
    (slots crew k).set k (some w) = slots crew (k + 1) := by
  obtain ⟨hlt, hw⟩ := List.getElem?_eq_some_iff.1 h
  have hlen : ((crew.order.take k).map some).length = k := by
    rw [List.length_map, List.length_take]
    omega
  have hrest : crew.m_threadCount - k = crew.m_threadCount - (k + 1) + 1 := by
    have hcount : k < crew.m_threadCount := hlt
    omega
  unfold slots
  rw [List.set_append_right _ _ (by omega), hlen, Nat.sub_self, hrest, List.replicate_succ,
    List.set_cons_zero, List.take_succ_eq_append_getElem hlt, List.map_append, hw]
  simp

/-! ## New threads -/

theorem threadName_ne (crew : Crew W) (i : ℕ) : crew.threadName i ≠ "" := by
  intro h
  have hlen := congrArg String.length h
  simp [Crew.threadName, String.length_append] at hlen

variable [DecidableEq W]

/-- What a step of a new thread leaves alone. -/
structure BornFrame (s s' : ThreadPool W) (w : W) : Prop where
  sched : s'.sched = s.sched
  owner : s'.owner = s.owner
  m_threads : s'.m_threads = s.m_threads
  m_threadIds : s'.m_threadIds = s.m_threadIds
  called : s'.called = s.called
  threw : s'.threw = s.threw
  joined : s'.joined = s.joined
  detached : s'.detached = s.detached
  thread : ∀ v, v ≠ w → s'.thread v = s.thread v
  locals : ∀ v, v ≠ w → s'.locals v = s.locals v
  birth : ∀ v, v ≠ w → s'.birth v = s.birth v

theorem bornStep_frame (crew : Crew W) (s : ThreadPool W) (w : W) :
    BornFrame s (s.bornStep crew w) w := by
  unfold bornStep
  dsimp only
  split
  case h_1 | h_2 => exact ⟨rfl, rfl, rfl, rfl, rfl, rfl, rfl, rfl, fun _ _ => rfl, fun _ _ => rfl, fun _ _ => rfl⟩
  case h_6 => exact ⟨rfl, rfl, rfl, rfl, rfl, rfl, rfl, rfl, fun _ _ => rfl, fun _ _ => rfl, fun _ _ => rfl⟩
  all_goals
    refine ⟨rfl, rfl, rfl, rfl, rfl, rfl, rfl, rfl, fun v hv => ?_, fun v hv => ?_, fun v hv => ?_⟩ <;>
      first | rfl | exact Function.update_of_ne hv _ _

/-- After the constructor has returned, the thread enters `run()` and stays in it. -/
theorem bornStep_past (h : s.Past crew i w) : (s.bornStep crew w).Past crew i w ∧
    (s.bornStep crew w).thread w = s.thread w ∧ (s.bornStep crew w).fault = s.fault := by
  rcases h.birth with hbirth | ⟨hbirth, hthis⟩
  · have hstep : s.bornStep crew w =
        (s.setLocals w { s.locals w with t_scheduler := true }).setBirth w .run := by
      unfold bornStep
      rw [hbirth]
    obtain ⟨h1, h2, h3, h4, h5⟩ := h.named
    rw [hstep]
    refine ⟨⟨⟨h1, h2, h3, ?_, ?_⟩, h.m_semaphore, Or.inr ⟨?_, ?_⟩⟩, rfl, rfl⟩
    · simpa [setBirth, setLocals] using h4
    · simpa [setBirth, setLocals] using h5
    · simp [setBirth]
    · simp [setBirth, setLocals]
  · have hstep : s.bornStep crew w = s := by
      unfold bornStep
      rw [hbirth]
    rw [hstep]
    exact ⟨h, rfl, rfl⟩

/-- It takes its thread, its name and its id. -/
theorem enter_at (h : s.At crew i w .coming) (hbirth : s.birth w = .enter) :
    (s.bornStep crew w).At crew i w .coming ∧ (s.bornStep crew w).fault = s.fault := by
  obtain ⟨hcoming, hjoined, hthread⟩ := h
  unfold Coming at hcoming
  rw [hbirth] at hcoming
  obtain ⟨hcb, hsem, hname⟩ := hcoming
  have hstep : s.bornStep crew w =
      ((s.setLocals w { s.locals w with
          t_thread := some w, t_thread_name := (s.thread w).m_name }).setThread w
        { s.thread w with m_id := crew.tid w }).setBirth w .swap := by
    unfold bornStep
    rw [hbirth]
  rw [hstep]
  refine ⟨⟨?_, hjoined, ?_⟩, rfl⟩
  · simp [Coming, setBirth, setThread, setLocals, hcb, hsem, hname]
  · simpa [setBirth, setThread] using hthread

/-- It swaps the callback out. -/
theorem swap_at (h : s.At crew i w .coming) (hbirth : s.birth w = .swap) :
    (s.bornStep crew w).At crew i w .coming ∧ (s.bornStep crew w).fault = s.fault := by
  obtain ⟨hcoming, hjoined, hthread⟩ := h
  unfold Coming at hcoming
  rw [hbirth] at hcoming
  obtain ⟨hcb, hsem, hname, hid, hptr, htname⟩ := hcoming
  have hstep : s.bornStep crew w =
      (s.setThread w { s.thread w with m_cb := none }).setBirth w (.notify (s.thread w).m_cb) := by
    unfold bornStep
    rw [hbirth]
  rw [hstep]
  refine ⟨⟨?_, hjoined, ?_⟩, rfl⟩
  · have hnamed : Named crew ((s.setThread w { s.thread w with m_cb := none }).setBirth w
        (.notify (s.thread w).m_cb)) i w :=
      ⟨by simpa [setBirth, setThread] using hid, by simp [setBirth, setThread],
        by simpa [setBirth, setThread] using hname, hptr, htname⟩
    have hat : ((s.setThread w { s.thread w with m_cb := none }).setBirth w
        (.notify (s.thread w).m_cb)).birth w = .notify (s.thread w).m_cb := by simp [setBirth]
    unfold Coming
    rw [hat]
    exact ⟨hcb, by simpa [setBirth, setThread] using hsem, hnamed⟩
  · simpa [setBirth, setThread] using hthread

/-- It notifies the constructor. -/
theorem notify_at (h : s.At crew i w .coming) {cb : Option PoolCb} (hbirth : s.birth w = .notify cb) :
    (s.bornStep crew w).At crew i w .coming ∧ (s.bornStep crew w).fault = s.fault := by
  obtain ⟨hcoming, hjoined, hthread⟩ := h
  unfold Coming at hcoming
  rw [hbirth] at hcoming
  obtain ⟨hcb, hsem, h1, h2, h3, h4, h5⟩ := hcoming
  have hstep : s.bornStep crew w = (s.setThread w (s.thread w).notify).setBirth w (.call cb) := by
    unfold bornStep
    rw [hbirth]
  rw [hstep]
  refine ⟨⟨?_, hjoined, ?_⟩, rfl⟩
  · have hnamed : Named crew ((s.setThread w (s.thread w).notify).setBirth w (.call cb)) i w :=
      ⟨by simpa [setBirth, setThread, Thread.notify] using h1,
        by simpa [setBirth, setThread, Thread.notify] using h2,
        by simpa [setBirth, setThread, Thread.notify] using h3, h4, h5⟩
    have hat : ((s.setThread w (s.thread w).notify).setBirth w (.call cb)).birth w = .call cb := by
      simp [setBirth]
    unfold Coming
    rw [hat]
    exact ⟨hcb, by simp [setBirth, setThread, Thread.notify, hsem], hnamed⟩
  · simpa [setBirth, setThread, Thread.notify] using hthread

/-- It calls what it was given, `Scheduler::run`. -/
theorem call_at (h : s.At crew i w .coming) {cb : Option PoolCb} (hbirth : s.birth w = .call cb) :
    (s.bornStep crew w).At crew i w .coming ∧ (s.bornStep crew w).fault = s.fault := by
  obtain ⟨hcoming, hjoined, hthread⟩ := h
  unfold Coming at hcoming
  rw [hbirth] at hcoming
  obtain ⟨rfl, hsem, h1, h2, h3, h4, h5⟩ := hcoming
  have hstep : s.bornStep crew w =
      (s.setLocals w { s.locals w with t_scheduler := true }).setBirth w .run := by
    unfold bornStep
    rw [hbirth]
  rw [hstep]
  refine ⟨⟨?_, hjoined, hthread⟩, rfl⟩
  have hnamed : Named crew
      ((s.setLocals w { s.locals w with t_scheduler := true }).setBirth w .run) i w :=
    ⟨h1, h2, h3, by simpa [setBirth, setLocals] using h4, by simpa [setBirth, setLocals] using h5⟩
  have hat : ((s.setLocals w { s.locals w with t_scheduler := true }).setBirth w .run).birth w =
      .run := by simp [setBirth]
  unfold Coming
  rw [hat]
  exact ⟨hsem, hnamed, by simp [setBirth, setLocals]⟩

/-- **The handshake.** Each step of a new thread brings it to the next place before its constructor
returns, and does not disturb what holds after that. -/
theorem bornStep_at {m : Made} (h : s.At crew i w m) : (s.bornStep crew w).At crew i w m ∧
    (s.bornStep crew w).fault = s.fault := by
  have hframe := bornStep_frame crew s w
  cases m with
  | unborn =>
    have hstep : s.bornStep crew w = s := by
      unfold bornStep
      rw [h.1]
    rw [hstep]
    exact ⟨h, rfl⟩
  | past =>
    obtain ⟨hpast', hthread, hfault⟩ := bornStep_past h.1
    exact ⟨⟨hpast', by rw [hframe.joined]; exact h.2.1, by rw [hthread]; exact h.2.2⟩, hfault⟩
  | gone =>
    obtain ⟨hpast', hthread, hfault⟩ := bornStep_past h.1
    exact ⟨⟨hpast', by rw [hframe.joined]; exact h.2.1, by rw [hthread]; exact h.2.2.1,
      by rw [hframe.sched]; exact h.2.2.2⟩, hfault⟩
  | coming =>
    cases hbirth : s.birth w with
    | unborn =>
      have hcoming := h.1
      unfold Coming at hcoming
      rw [hbirth] at hcoming
      exact hcoming.elim
    | enter => exact enter_at h hbirth
    | swap => exact swap_at h hbirth
    | notify cb => exact notify_at h hbirth
    | call cb => exact call_at h hbirth
    | run =>
      have hstep : s.bornStep crew w = s := by
        unfold bornStep
        rw [hbirth]
      rw [hstep]
      exact ⟨h, rfl⟩

/-- **A step of a new thread keeps the invariant.** -/
theorem bornStep_inv (h : s.Inv crew) (hrun : s.fault = none) (w : W) :
    (s.bornStep crew w).Inv crew := by
  have hframe := bornStep_frame crew s w
  obtain ⟨j, k, waiting, hstand, hids, hat⟩ := h.counts
  by_cases hroot : crew.root = some w
  · -- the root fiber's worker is no thread of the pool
    have hstep : s.bornStep crew w = s := by
      unfold bornStep
      rw [(h.root w hroot).1]
    rw [hstep]
    exact h
  · have hmem : w ∈ crew.order := (crew.mem_order w).2 hroot
    obtain ⟨i, hi⟩ := List.mem_iff_getElem?.1 hmem
    obtain ⟨hself, hfault⟩ := bornStep_at (hat i w hi)
    refine ⟨⟨j, k, waiting, ?_, ?_, ?_⟩, ?_, ?_, ?_, ?_⟩
    · exact hstand.congr hframe.owner hframe.called hframe.threw hframe.m_threads
        (by rw [hframe.sched]) (by rw [hframe.sched])
    · rw [hframe.m_threadIds]; exact hids
    · intro i' v hi'
      by_cases hv : v = w
      · subst hv
        have hsame : i' = i := order_inj hi' hi
        rw [hsame]
        exact hself
      · exact (hat i' v hi').congr (hframe.thread v hv) (hframe.locals v hv) (hframe.birth v hv)
          (by rw [hframe.joined]) (by rw [hframe.sched]; exact id)
    · intro v hv
      have hne : v ≠ w := by
        rintro rfl
        exact hroot hv
      rw [hframe.birth v hne, hframe.locals v hne]
      exact h.root v hv
    · rw [hframe.detached]; exact h.attached
    · rw [hfault]; exact fun hf => absurd hrun hf
    · rw [hframe.called, hframe.sched]; exact h.quiet

/-! ## The owner in `start()` -/

omit [DecidableEq W] in
/-- It calls `start()`. -/
theorem called_inv (h : s.Inv crew) (hrun : s.fault = none) (howner : s.owner = .out)
    (hstop : s.sched.stopPc = .out) : { s with owner := .test }.Inv crew := by
  obtain ⟨j, k, waiting, hstand, hids, hat⟩ := h.counts
  refine h.goes hat hids ?_ hrun
  cases hstand with
  | before _ hcalled hthrew hthreads hstop hstopping =>
    exact .before (.inr rfl) hcalled hthrew hthreads hstop hstopping
  | started k _ hserving =>
    exact .started k (.inr ⟨rfl, hstop⟩) (hserving.congr rfl rfl rfl rfl rfl)
  | creating k _ ho => rw [howner] at ho; cases ho
  | waiting k _ ho => rw [howner] at ho; cases ho
  | joining k j _ ho => rw [howner] at ho; cases ho
  | stopped _ _ _ _ hs => rw [hstop] at hs; cases hs

/-- The test of `m_stopping`, and `m_threads.resize`. -/
theorem test_inv (h : s.Inv crew) (hrun : s.fault = none) (howner : s.owner = .test)
    (created : Bool) : (s.startStep crew created).Inv crew := by
  obtain ⟨j, k, waiting, hstand, hids, hat⟩ := h.counts
  cases hstand with
  | before _ hcalled hthrew hthreads hstop hstopping =>
    have hstep : s.startStep crew created =
        { s with
          sched := { s.sched with m_stopping := false }
          m_threads := List.replicate crew.m_threadCount none, owner := .create 0 } := by
      unfold startStep
      rw [howner]
      dsimp only
      rw [if_neg (by rw [hstopping]; simp), if_pos hthreads]
    rw [hstep]
    exact h.owner (.creating 0 (Nat.zero_le _) rfl ⟨hcalled, hthrew, slots_zero.symm, hstop, rfl⟩) hids
      (fun i w hi => (hat i w hi).congr rfl rfl rfl rfl id) (fun _ _ => rfl) rfl rfl (.inl hrun) id rfl
      rfl
  | started k ho hserving =>
    -- it is running already
    have hstop : s.sched.stopPc = .out := by
      rcases ho with ho | ⟨-, hstop⟩
      · rw [howner] at ho; cases ho
      · exact hstop
    have hstep : s.startStep crew created = { s with owner := .out, called := true } := by
      unfold startStep
      rw [howner]
      exact if_pos (hserving.unmarked hstop)
    rw [hstep]
    refine h.owner (.started k (.inl rfl) (hserving.congr hserving.called.symm rfl rfl rfl rfl)) hids
      (fun i w hi => (hat i w hi).congr rfl rfl rfl rfl id) (fun _ _ => rfl) rfl rfl (.inl hrun)
      (fun hc => absurd hc (by simp)) rfl rfl
  | creating k _ ho => rw [howner] at ho; cases ho
  | waiting k _ ho => rw [howner] at ho; cases ho
  | joining k j _ ho => rw [howner] at ho; cases ho
  | stopped ho => rw [howner] at ho; cases ho

omit [DecidableEq W] in
/-- A `start()` that has come to its end, or thrown, leaves the threads it has constructed. -/
theorem Building.serving {k : ℕ} (h : s.Building crew k) (hk : k ≤ crew.m_threadCount)
    {threw : Bool} (hthrew : threw = true ↔ k < crew.m_threadCount) :
    { s with owner := .out, called := true, threw := threw }.Serving crew k := by
  refine ⟨⟨hk, rfl, hthrew⟩, h.m_threads, fun _ => h.m_stopping, ?_, ?_, ?_⟩
  · simp [h.stopPc]
  · simp [h.stopPc]
  · simp [h.stopPc]

omit [DecidableEq W] in
/-- All threads are constructed. -/
theorem complete_inv (h : s.Inv crew) (hrun : s.fault = none) {k : ℕ} (howner : s.owner = .create k)
    (hget : crew.order[k]? = none) : { s with owner := .out, called := true }.Inv crew := by
  obtain ⟨j, n, waiting, hstand, hids, hat⟩ := h.counts
  obtain ⟨rfl, rfl, rfl, hk, hbuilding⟩ := hstand.of_create howner
  have hle : crew.order.length ≤ n := List.getElem?_eq_none_iff.1 hget
  have hfull : n = crew.m_threadCount := Nat.le_antisymm hk hle
  have hthrew : s.threw = true ↔ n < crew.m_threadCount := by simp [hbuilding.threw, hfull]
  exact h.owner (.started n (.inl rfl) (hbuilding.serving hk hthrew)) hids
    (fun i w hi => (hat i w hi).congr rfl rfl rfl rfl id) (fun _ _ => rfl) rfl rfl (.inl hrun)
    (fun hc => absurd hc (by simp)) rfl rfl

/-- The constructor of thread `k`, up to where it waits. -/
theorem construct_inv (h : s.Inv crew) (hrun : s.fault = none) {k : ℕ} (howner : s.owner = .create k)
    (hget : crew.order[k]? = some w) :
    { (s.setThread w { Thread.new (some PoolCb.run) (crew.threadName k) with m_thread := true }).setBirth
      w .enter with owner := .wait k }.Inv crew := by
  obtain ⟨j, n, waiting, hstand, hids, hat⟩ := h.counts
  obtain ⟨rfl, rfl, rfl, -, hbuilding⟩ := hstand.of_create howner
  have hlt : n < crew.m_threadCount := (List.getElem?_eq_some_iff.1 hget).1
  have hjoined : s.joined w = 0 := by
    have hw := hat n w hget
    rw [show made 0 n false n = .unborn by simp [made]] at hw
    exact hw.2
  refine h.owner (.waiting n hlt rfl (hbuilding.congr rfl rfl rfl rfl rfl)) hids ?_ ?_ rfl rfl
    (.inl hrun) id rfl rfl
  · intro i v hi
    by_cases hik : i = n
    · subst hik
      have hv : v = w := Option.some.inj (hi.symm.trans hget)
      subst hv
      have hmade : made 0 i true i = .coming := by simp [made]
      rw [hmade]
      refine ⟨?_, hjoined, by simp [setThread, setBirth]⟩
      simp [Coming, setThread, setBirth, Thread.new, threadName_ne]
    · have hne : v ≠ w := order_ne hget hi hik
      have hmade : made 0 n true i = made 0 n false i := by simp [made, hik]
      rw [hmade]
      exact (hat i v hi).congr (by simp [setThread, setBirth, hne]) rfl
        (by simp [setThread, setBirth, hne]) rfl id
  · intro v hv
    have hne : v ≠ w := by
      rintro rfl
      exact root_ne hget hv
    simp [setThread, setBirth, hne]

/-- `pthread_create` fails in the constructor of thread `k`. -/
theorem refused_inv (h : s.Inv crew) (hrun : s.fault = none) {k : ℕ} (howner : s.owner = .create k)
    (hget : crew.order[k]? = some w) :
    { s.setThread w (.new (some .run) (crew.threadName k)) with
      owner := .out, called := true, threw := true }.Inv crew := by
  obtain ⟨j, n, waiting, hstand, hids, hat⟩ := h.counts
  obtain ⟨rfl, rfl, rfl, hk, hbuilding⟩ := hstand.of_create howner
  have hlt : n < crew.m_threadCount := (List.getElem?_eq_some_iff.1 hget).1
  have hserving : { s with owner := .out, called := true, threw := true }.Serving crew n :=
    hbuilding.serving hk ⟨fun _ => hlt, fun _ => rfl⟩
  refine h.owner (.started n (.inl rfl) (hserving.congr rfl rfl rfl rfl rfl)) hids ?_ (fun _ _ => rfl)
    rfl rfl (.inl hrun) (fun hc => absurd hc (by simp)) rfl rfl
  intro i v hi
  by_cases hik : i = n
  · -- this thread is not there
    subst hik
    have hw := hat i v hi
    rw [show made 0 i false i = .unborn by simp [made]] at hw ⊢
    exact hw
  · have hne : v ≠ w := order_ne hget hi hik
    exact (hat i v hi).congr (by simp [setThread, hne]) rfl rfl rfl id

omit [DecidableEq W] in
/-- A thread that has called `notify()` is past the places before it. -/
theorem Coming.notified (h : s.Coming crew i w) (hsem : (s.thread w).m_semaphore ≠ 0) :
    (s.thread w).m_semaphore = 1 ∧ Named crew s i w ∧
      (s.birth w = .call (some .run) ∨ s.birth w = .run ∧ (s.locals w).t_scheduler = true) := by
  unfold Coming at h
  split at h
  · exact h.elim
  · exact absurd h.2.1 hsem
  · exact absurd h.2.1 hsem
  · exact absurd h.2.1 hsem
  · rename_i cb hbirth
    obtain ⟨rfl, hone, hnamed⟩ := h
    exact ⟨hone, hnamed, Or.inl hbirth⟩
  · rename_i hbirth
    exact ⟨h.1, h.2.1, Or.inr ⟨hbirth, h.2.2⟩⟩

/-- `m_semaphore.wait()` returns in the constructor of thread `k`. -/
theorem waited_inv (h : s.Inv crew) (hrun : s.fault = none) {k : ℕ} (howner : s.owner = .wait k)
    (hw : crew.order[k]? = some w) (hsem : (s.thread w).m_semaphore ≠ 0) :
    { s.setThread w (s.thread w).wait with
      m_threads := s.m_threads.set k (some w)
      m_threadIds := s.m_threadIds ++ [(s.thread w).m_id]
      owner := .create (k + 1) }.Inv crew := by
  obtain ⟨j, n, waiting, hstand, hids, hat⟩ := h.counts
  obtain ⟨rfl, rfl, rfl, hk, hbuilding⟩ := hstand.of_wait howner
  have hcoming : s.Coming crew n w ∧ s.joined w = 0 ∧ (s.thread w).m_thread = true := by
    have hw' := hat n w hw
    rwa [show made 0 n true n = .coming by simp [made]] at hw'
  obtain ⟨hone, ⟨h1, h2, h3, h4, h5⟩, hbirth⟩ := hcoming.1.notified hsem
  have hthreads : s.m_threads.set n (some w) = slots crew (n + 1) := by
    rw [hbuilding.m_threads, slots_set hw]
  refine h.owner (.creating (n + 1) hk rfl
    ⟨hbuilding.called, hbuilding.threw, hthreads, hbuilding.stopPc, hbuilding.m_stopping⟩) ?_ ?_
    (fun _ _ => rfl) rfl rfl (.inl hrun) id rfl rfl
  · show s.m_threadIds ++ [(s.thread w).m_id] =
      crew.rootIds ++ (crew.order.take (n + 1)).map crew.tid
    obtain ⟨hlt, hkw⟩ := List.getElem?_eq_some_iff.1 hw
    rw [h1, hids, List.take_succ_eq_append_getElem hlt, List.map_append, hkw, List.append_assoc]
    rfl
  · intro i v hi
    by_cases hik : i = n
    · subst hik
      have hv : v = w := Option.some.inj (hi.symm.trans hw)
      subst hv
      have hmade : made 0 (i + 1) false i = .past := by simp [made]
      rw [hmade]
      refine ⟨⟨⟨?_, ?_, ?_, h4, h5⟩, ?_, hbirth⟩, hcoming.2.1, ?_⟩
      · simpa [setThread, Thread.wait] using h1
      · simpa [setThread, Thread.wait] using h2
      · simpa [setThread, Thread.wait] using h3
      · simp [setThread, Thread.wait, hone]
      · simpa [setThread, Thread.wait] using hcoming.2.2
    · have hne : v ≠ w := order_ne hw hi hik
      have hmade : made 0 (n + 1) false i = made 0 n true i := by
        unfold made
        have hlt : i < n + 1 ↔ i < n := by omega
        simp [hlt, hik]
      rw [hmade]
      exact (hat i v hi).congr (by simp [setThread, hne]) rfl rfl rfl id

/-- **A step of the owner in `start()` keeps the invariant.** -/
theorem startStep_inv (h : s.Inv crew) (hrun : s.fault = none) {created : Bool}
    (ho : s.InOrder (.start created)) : (s.startStep crew created).Inv crew := by
  cases howner : s.owner with
  | out =>
    have hstep : s.startStep crew created = { s with owner := .test } := by
      unfold startStep
      rw [howner]
    rw [hstep]
    exact called_inv h hrun howner ho
  | test => exact test_inv h hrun howner created
  | create k =>
    unfold startStep
    rw [howner]
    dsimp only
    cases hget : crew.order[k]? with
    | none => exact complete_inv h hrun howner hget
    | some w =>
      cases created with
      | true =>
        have hnew := construct_inv h hrun howner hget
        simpa [setThread] using hnew
      | false => exact refused_inv h hrun howner hget
  | wait k =>
    obtain ⟨j, n, waiting, hstand, -, -⟩ := h.counts
    have hk : k < crew.order.length := (hstand.of_wait howner).2.2.2.1
    have hget : crew.order[k]? = some crew.order[k] := List.getElem?_eq_getElem hk
    unfold startStep
    rw [howner]
    dsimp only
    rw [hget]
    dsimp only
    split
    · exact h
    · rename_i hsem
      have hnext := waited_inv h hrun howner hget hsem
      simpa [setThread, Thread.wait] using hnext
  | join thrs rest =>
    have hstep : s.startStep crew created = s := by
      unfold startStep
      rw [howner]
    rw [hstep]
    exact h

/-! ## The owner in `stop()` -/

variable [Fintype W]

/-- The steps of `stop()` before it swaps the threads out. -/
theorem stopping_stand {k : ℕ} (h : s.Serving crew k) (howner : s.owner = .out)
    (hjoin : s.sched.stopPc ≠ .join) :
    { s with sched := s.sched.stopStep crew.toPool }.Stand crew 0 k false := by
  have hstart : ∀ sched' : Scheduler W, sched'.stopPc ≠ .out →
      (sched'.stopPc = .earlyTest ∨ sched'.stopPc = .test ∨ sched'.stopPc = .call ∨
        sched'.stopPc = .join → sched'.m_stopping = true) →
      (sched'.stopPc = .early ∨ sched'.stopPc = .earlyTest → crew.order = []) →
      sched'.stopPc ≠ .done → { s with sched := sched' }.Stand crew 0 k false :=
    fun sched' hout hm he hd => .started k (.inl howner)
      ⟨⟨h.le, h.called, h.threw⟩, h.m_threads, fun hs => absurd hs hout, hm, he, hd⟩
  have hmove := Scheduler.stopStep_move crew.toPool s.sched
  generalize s.sched.stopStep crew.toPool = sched' at hmove
  cases hmove with
  | begin hpc hcaller => exact hstart _ (by simp) (by simp) (by simp) (by simp)
  | beginEarly hpc hcaller =>
    -- there is no thread but the caller's
    have hempty : crew.order = [] := by
      rw [List.eq_nil_iff_forall_not_mem]
      intro w hw
      exact (crew.mem_order w).1 hw (hcaller.2 w)
    exact hstart _ (by simp) (by simp) (fun _ => hempty) (by simp)
  | markEarly hpc => exact hstart _ (by simp) (fun _ => rfl) (fun _ => h.early (.inl hpc)) (by simp)
  | testEarly hpc hstop =>
    have hempty := h.early (.inr hpc)
    have hcount : crew.m_threadCount = 0 := by simp [Crew.m_threadCount, hempty]
    have hle := h.le
    have hzero : k = 0 := by omega
    subst hzero
    have hnot : s.threw = false := by
      rw [← Bool.not_eq_true, h.threw]
      omega
    have hnil : s.m_threads = [] := by rw [h.m_threads, slots_zero, hcount]; rfl
    have hstand : { s with sched := { s.sched with stopPc := StopPc.done } }.Stand crew
        crew.m_threadCount crew.m_threadCount false :=
      .stopped howner h.called hnot hnil rfl (h.marked (.inl hpc))
    rwa [hcount] at hstand
  | missEarly hpc hstop => exact hstart _ (by simp) (by simp) (by simp) (by simp)
  | mark hpc hcaller => exact hstart _ (by simp) (fun _ => rfl) (by simp) (by simp)
  | markThreads hpc hcaller => exact hstart _ (by simp) (fun _ => rfl) (by simp) (by simp)
  | test hpc hstop =>
    exact hstart _ (by simp) (fun _ => h.marked (.inr (.inl hpc))) (by simp) (by simp)
  | miss hpc hstop =>
    exact hstart _ (by simp) (fun _ => h.marked (.inr (.inl hpc))) (by simp) (by simp)
  | call hpc hexit =>
    exact hstart _ (by simp) (fun _ => h.marked (.inr (.inr (.inl hpc)))) (by simp) (by simp)
  | join hpc hexit => exact absurd hpc hjoin
  | wait hpc =>
    refine hstart _ ?_ h.marked h.early h.notDone
    rcases hpc with hpc | hpc | hpc <;> rw [hpc] <;> simp

/-- It walks on to where it joins the threads. -/
theorem walk_inv (h : s.Inv crew) (hrun : s.fault = none) {k : ℕ} (hserving : s.Serving crew k)
    (howner : s.owner = .out) (hjoin : s.sched.stopPc ≠ .join)
    (hids : s.m_threadIds = crew.rootIds ++ (crew.order.take k).map crew.tid)
    (hat : ∀ i w, crew.order[i]? = some w → s.At crew i w (made 0 k false i)) :
    { s with sched := s.sched.stopStep crew.toPool }.Inv crew := by
  have hframe := Scheduler.stopStep_frame crew.toPool s.sched
  have hexited : ∀ w, (s.sched.worker w).pc = .exited →
      ((s.sched.stopStep crew.toPool).worker w).pc = .exited := by
    intro w hw
    rw [hframe.worker]
    exact hw
  exact h.owner (stopping_stand hserving howner hjoin) hids
    (fun i w hi => (hat i w hi).congr rfl rfl rfl rfl (hexited w)) (fun _ _ => rfl) rfl rfl (.inl hrun) id
    hframe.popped hframe.worker

omit [DecidableEq W] [Fintype W] in
/-- `thrs.swap(m_threads)`. -/
theorem swap_inv (h : s.Inv crew) (hrun : s.fault = none) {k : ℕ} (hserving : s.Serving crew k)
    (hjoin : s.sched.stopPc = .join)
    (hids : s.m_threadIds = crew.rootIds ++ (crew.order.take k).map crew.tid)
    (hat : ∀ i w, crew.order[i]? = some w → s.At crew i w (made 0 k false i)) :
    { s with owner := .join s.m_threads s.m_threads, m_threads := [] }.Inv crew := by
  have hmark := hserving.marked (.inr (.inr (.inr hjoin)))
  rw [hserving.m_threads]
  exact h.owner (.joining k 0 (Nat.zero_le k) rfl ⟨hserving.le, hserving.called, hserving.threw⟩ rfl
    hjoin hmark) hids (fun i w hi => (hat i w hi).congr rfl rfl rfl rfl id) (fun _ _ => rfl) rfl rfl
    (.inl hrun) id rfl rfl

omit [Fintype W] in
/-- `thrs` is destroyed when all threads in it are joined, so no thread is detached. -/
theorem destroy_inv (h : s.Inv crew) (hrun : s.fault = none) {thrs : List (Option W)}
    (howner : s.owner = .join thrs []) : { s.destroy thrs with owner := .out }.Inv crew := by
  obtain ⟨j, k, waiting, hstand, hids, hat⟩ := h.counts
  obtain ⟨rfl, hj, rfl, hrest, hbuilt, hthreads, -, hstopping⟩ := hstand.of_join howner
  have hk := hbuilt.le
  have hend : (slots crew k).length ≤ j := List.drop_eq_nil_iff.1 hrest.symm
  rw [slots_length crew hk] at hend
  have hkn : k = crew.m_threadCount := by omega
  have hjn : j = crew.m_threadCount := by omega
  subst hjn
  subst hkn
  have hdetached : (s.destroy (slots crew crew.m_threadCount)).detached = s.detached := by
    funext w
    have hno : ¬ (some w ∈ slots crew crew.m_threadCount ∧ (s.thread w).m_thread = true) := by
      rintro ⟨hmem, hthread⟩
      rw [slots_full, List.mem_map_of_injective (Option.some_injective W)] at hmem
      obtain ⟨i, hi⟩ := List.mem_iff_getElem?.1 hmem
      have hlt : i < crew.m_threadCount := (List.getElem?_eq_some_iff.1 hi).1
      have hgone := hat i w hi
      rw [show made crew.m_threadCount crew.m_threadCount false i = .gone by simp [made, hlt]] at hgone
      have hfalse := hgone.2.2.1
      rw [hthread] at hfalse
      cases hfalse
    show s.detached w + (if some w ∈ slots crew crew.m_threadCount ∧ (s.thread w).m_thread = true
      then 1 else 0) = s.detached w
    rw [if_neg hno]
    rfl
  have hnot : s.threw = false := by
    rw [← Bool.not_eq_true, hbuilt.threw]
    omega
  exact h.owner (.stopped rfl hbuilt.called hnot hthreads rfl hstopping) hids
    (fun i w hi => (hat i w hi).congr rfl rfl rfl rfl id) (fun _ _ => rfl) rfl hdetached (.inl hrun) id
    rfl rfl

omit [DecidableEq W] [Fintype W] in
/-- Where there is a thread in `thrs`, it is the next one in the order. -/
theorem Stand.next {j k : ℕ} {waiting : Bool} {x : Option W} {thrs rest : List (Option W)}
    (hstand : s.Stand crew j k waiting) (howner : s.owner = .join thrs (x :: rest)) :
    rest = thrs.drop (j + 1) ∧
      ((j < k ∧ ∃ w, crew.order[j]? = some w ∧ x = some w) ∨ (k < crew.m_threadCount ∧ x = none)) := by
  obtain ⟨-, hj, rfl, hrest, hbuilt, -⟩ := hstand.of_join howner
  have hget : (slots crew k)[j]? = some x := by
    have hzero : ((slots crew k).drop j)[0]? = some x := by rw [← hrest]; rfl
    rwa [List.getElem?_drop, Nat.add_zero] at hzero
  have htail : rest = (slots crew k).drop (j + 1) := by
    have htl : ((slots crew k).drop j).tail = rest := by rw [← hrest]; rfl
    rw [← htl, List.tail_drop]
  refine ⟨htail, ?_⟩
  rcases slots_get hbuilt.le hget with hthread | ⟨hle, hlt, hnull⟩
  · exact .inl hthread
  · exact .inr ⟨by omega, hnull⟩

omit [DecidableEq W] [Fintype W] in
/-- It comes to a thread, which has not been joined. -/
theorem Inv.next (h : s.Inv crew) {thrs rest : List (Option W)}
    (howner : s.owner = .join thrs (some w :: rest)) :
    s.joined w = 0 ∧ (s.thread w).m_thread = true := by
  obtain ⟨j, k, waiting, hstand, -, hat⟩ := h.counts
  rcases hstand.next howner with ⟨-, ⟨hlt, v, hv, hx⟩ | ⟨-, hx⟩⟩
  · cases hx
    have hpast := hat j w hv
    simp only [made, lt_irrefl, if_false, hlt, if_true] at hpast
    exact hpast.2
  · cases hx

omit [Fintype W] in
/-- `pthread_join` returns. -/
theorem joined_inv (h : s.Inv crew) (hrun : s.fault = none) {thrs rest : List (Option W)}
    (howner : s.owner = .join thrs (some w :: rest)) (hexit : (s.sched.worker w).pc = .exited) :
    { s.setThread w { s.thread w with m_thread := false } with
      joined := Function.update s.joined w (s.joined w + 1), owner := .join thrs rest }.Inv crew := by
  obtain ⟨j, k, waiting, hstand, hids, hat⟩ := h.counts
  have hnext := hstand.next howner
  obtain ⟨rfl, -, rfl, -, hbuilt, hthreads, hstop, hstopping⟩ := hstand.of_join howner
  rcases hnext with ⟨hrest, ⟨hlt, w', hw, hx⟩ | ⟨-, hx⟩⟩
  swap
  · cases hx
  cases hx
  have hpast : s.Past crew j w ∧ s.joined w = 0 ∧ (s.thread w).m_thread = true := by
    have hat' := hat j w hw
    simpa [made, At, hlt] using hat'
  refine h.owner (.joining k (j + 1) hlt (by rw [← hrest]) ⟨hbuilt.le, hbuilt.called, hbuilt.threw⟩
    hthreads hstop hstopping) hids ?_ (fun _ _ => rfl) rfl rfl (.inl hrun) id rfl rfl
  intro i v hi
  by_cases hij : i = j
  · subst hij
    have hv : v = w := Option.some.inj (hi.symm.trans hw)
    subst hv
    have hmade : made (i + 1) k false i = .gone := by simp [made]
    obtain ⟨⟨⟨h1, h2, h3, h4, h5⟩, hsem, hbirth⟩, hjoined, -⟩ := hpast
    rw [hmade]
    refine ⟨⟨⟨?_, ?_, ?_, h4, h5⟩, ?_, hbirth⟩, ?_, ?_, hexit⟩
    · simpa [setThread] using h1
    · simpa [setThread] using h2
    · simpa [setThread] using h3
    · simpa [setThread] using hsem
    · simp [hjoined]
    · simp [setThread]
  · have hne : v ≠ w := order_ne hw hi hij
    have hmade : made (j + 1) k false i = made j k false i := by
      unfold made
      have hiff : i < j + 1 ↔ i < j := by omega
      simp [hiff]
    rw [hmade]
    exact (hat i v hi).congr (by simp [setThread, hne]) rfl rfl (by simp [hne]) id

omit [DecidableEq W] [Fintype W] in
/-- It comes to a null pointer. -/
theorem null_inv (h : s.Inv crew) {thrs rest : List (Option W)}
    (howner : s.owner = .join thrs (none :: rest)) :
    { s with fault := some .undefined }.Inv crew := by
  obtain ⟨j, k, waiting, hstand, hids, hat⟩ := h.counts
  have hthrown : s.threw = true := by
    rcases hstand.next howner with ⟨-, ⟨-, v, -, hx⟩ | ⟨hlt, -⟩⟩
    · cases hx
    · exact (hstand.of_join howner).2.2.2.2.1.threw.2 hlt
  exact h.owner (hstand.congr rfl rfl rfl rfl rfl rfl) hids
    (fun i w hi => (hat i w hi).congr rfl rfl rfl rfl id) (fun _ _ => rfl) rfl rfl
    (.inr ⟨hthrown, rfl, thrs, rest, howner⟩) id rfl rfl

/-- **A step of the owner in `stop()` keeps the invariant.** -/
theorem stopStep_inv (h : s.Inv crew) (hrun : s.fault = none) (hsched : s.sched.fault = none)
    (ho : s.InOrder .stop) : (s.stopStep crew).Inv crew := by
  obtain ⟨hstart, hcalled, hdone⟩ := ho
  cases howner : s.owner with
  | test | create i | wait i => simp [starting, howner] at hstart
  | out =>
    obtain ⟨j, k, waiting, hstand, hids, hat⟩ := h.counts
    obtain ⟨rfl, rfl, hserving⟩ := hstand.of_out howner hcalled hdone
    by_cases hjoin : s.sched.stopPc = .join
    · have hstep : s.stopStep crew =
          { s with owner := .join s.m_threads s.m_threads, m_threads := [] } := by
        unfold stopStep
        rw [howner]
        exact if_pos hjoin
      rw [hstep]
      exact swap_inv h hrun hserving hjoin hids hat
    · have hstep : s.stopStep crew = { s with sched := s.sched.stopStep crew.toPool } := by
        unfold stopStep
        rw [howner]
        dsimp only
        rw [if_neg hjoin]
        unfold Scheduler.step
        rw [hsched]
        rfl
      rw [hstep]
      exact walk_inv h hrun hserving howner hjoin hids hat
  | join thrs rest =>
    cases rest with
    | nil =>
      have hstep : s.stopStep crew = { s.destroy thrs with owner := .out } := by
        unfold stopStep
        rw [howner]
      rw [hstep]
      exact destroy_inv h hrun howner
    | cons x rest =>
      cases x with
      | none =>
        have hstep : s.stopStep crew = { s with fault := some .undefined } := by
          unfold stopStep
          rw [howner]
        rw [hstep]
        exact null_inv h howner
      | some w =>
        have hthread : s.stopStep crew = if (s.sched.worker w).pc = .exited then
            { s.setThread w { s.thread w with m_thread := false } with
              joined := Function.update s.joined w (s.joined w + 1), owner := .join thrs rest }
            else s := by
          unfold stopStep
          rw [howner]
          dsimp only
          rw [if_neg (by rw [(h.next howner).2]; simp)]
        rw [hthread]
        split
        · rename_i hexit
          exact joined_inv h hrun howner hexit
        · exact h

/-! ## The scheduler's own steps -/

/-- A worker that has returned from `run()` stays so. -/
theorem move_stays {sched sched' : Scheduler W} {a : SchedAct W}
    (h : Scheduler.Move crew.toPool sched a sched') {w : W} (hw : (sched.worker w).pc = .exited) :
    (sched'.worker w).pc = .exited := by
  cases h with
  | stay => exact hw
  | abort => exact hw
  | callOut c => rw [(Scheduler.call_frame sched none c).worker]; exact hw
  | callIn v f b c hpc => rw [(Scheduler.call_frame sched (some v) c).worker]; exact hw
  | stop => rw [(Scheduler.stopStep_frame crew.toPool sched).worker]; exact hw
  | _ =>
    refine update_intro (P := fun k : Worker W => k.pc = .exited) hw ?_
    intro hself
    clear hw
    simp [*, Scheduler.setFiber, Scheduler.setState, Scheduler.newFiber, Scheduler.push] at hself

/-- Before the first call of `start()` has ended, the scheduler is only called from outside. -/
theorem step_quiet (h : s.Inv crew) (hcalled : s.called = false) {a : SchedAct W}
    (ha : s.enabled crew a) :
    s.sched.step crew.toPool a = s.sched ∨ ∃ c, a = .call c := by
  obtain ⟨-, hpc⟩ := h.quiet hcalled
  obtain ⟨j, k, waiting, hstand, -, hat⟩ := h.counts
  obtain ⟨hstop, hstart⟩ := hstand.uncalled hcalled
  -- a thread that is in `run()` waits for `m_mutex`
  have hwaits : ∀ w, s.birth w = .run → s.starting = true := by
    intro w hw
    have hroot : crew.root ≠ some w := by
      intro hroot
      rw [(h.root w hroot).1] at hw
      cases hw
    obtain ⟨i, hi⟩ := List.mem_iff_getElem?.1 ((crew.mem_order w).2 hroot)
    refine hstart.resolve_right ?_
    rintro ⟨rfl, rfl, rfl⟩
    have hunborn := hat i w hi
    rw [show made 0 0 false i = .unborn by simp [made]] at hunborn
    rw [hunborn.1] at hw
    cases hw
  cases a with
  | run w =>
    left
    rcases hpc w with ⟨hroot, hscan⟩ | ⟨hroot, hout⟩
    · have hrun : s.birth w = .run := ha.1.resolve_left hroot
      have hlocks : s.sched.locks (.run w) = false := ha.2 (hwaits w hrun)
      have hscans : s.sched.locks (.run w) = true := by
        unfold Scheduler.locks
        dsimp only
        rw [hscan]
      rw [hscans] at hlocks
      cases hlocks
    · have hstay : s.sched.runStep crew.toPool w = s.sched := by
        unfold Scheduler.runStep
        rw [hout]
        exact if_neg (by rw [hstop]; simp)
      unfold Scheduler.step
      dsimp only
      rw [hstay]
      exact ite_self _
  | user w u =>
    left
    have hstay : s.sched.userStep w u = s.sched := by
      unfold Scheduler.userStep
      rcases hpc w with ⟨-, hpc⟩ | ⟨-, hpc⟩
      · rw [hpc]
      · rw [hpc]
    unfold Scheduler.step
    dsimp only
    rw [hstay]
    exact ite_self _
  | call c => exact Or.inr ⟨c, rfl⟩
  | stop => exact ha.1.elim

/-- **A step of the scheduler keeps the invariant.** -/
theorem sched_inv (h : s.Inv crew) (hrun : s.fault = none) {a : SchedAct W} (ha : s.enabled crew a) :
    { s with sched := s.sched.step crew.toPool a }.Inv crew := by
  obtain ⟨j, k, waiting, hstand, hids, hat⟩ := h.counts
  have hmove := Scheduler.step_move crew.toPool s.sched a
  have hflags : (s.sched.step crew.toPool a).stopPc = s.sched.stopPc ∧
      (s.sched.step crew.toPool a).m_stopping = s.sched.m_stopping := by
    rcases Scheduler.move_flags hmove with ⟨rfl, -⟩ | ⟨hstop, -, hstopping⟩
    · exact ha.1.elim
    · exact ⟨hstop, hstopping⟩
  refine ⟨⟨j, k, waiting, ?_, hids, ?_⟩, h.root, h.attached, fun hf => absurd hrun hf, ?_⟩
  · exact hstand.congr rfl rfl rfl rfl hflags.1 hflags.2
  · exact fun i w hi => (hat i w hi).congr rfl rfl rfl rfl (move_stays hmove)
  · intro hcalled
    have hquiet := h.quiet hcalled
    dsimp only
    rcases step_quiet h hcalled ha with hstep | ⟨c, rfl⟩
    · rw [hstep]
      exact hquiet
    · unfold Scheduler.step
      split
      · exact hquiet
      · have hframe := Scheduler.call_frame s.sched none c
        dsimp only
        rw [hframe.popped, hframe.worker]
        exact hquiet

/-- **Each step of an owner that keeps to the order keeps the invariant.** -/
theorem step_inv (h : s.Inv crew) {a : PoolAct W} (ho : s.InOrder a) : (s.step crew a).Inv crew := by
  unfold step
  split
  · exact h
  · rename_i hrunning
    rw [Bool.or_eq_true, not_or, Bool.not_eq_true, Bool.not_eq_true, Option.isSome_eq_false_iff,
      Option.isSome_eq_false_iff, Option.isNone_iff_eq_none, Option.isNone_iff_eq_none] at hrunning
    obtain ⟨hrun, hsched⟩ := hrunning
    cases a with
    | start created => exact startStep_inv h hrun ho
    | stop => exact stopStep_inv h hrun hsched ho
    | born w => exact bornStep_inv h hrun w
    | sched a =>
      dsimp only
      split
      · rename_i ha
        exact sched_inv h hrun ha
      · exact h

omit [Fintype W] in
theorem update_const {β : Type} (x y : β) (w : W) :
    Function.update (fun _ => x) w y = fun v => if w = v then y else x := by
  funext v
  simp [Function.update_apply, eq_comm]

omit [Fintype W] in
/-- The constructor sets the variables of the caller's thread, and no others. -/
theorem init_eq (crew : Crew W) : init crew =
    { new crew with
      m_threadIds := crew.rootIds
      locals := fun w => if crew.root = some w then
        { t_thread_name := crew.callerName, t_scheduler := true } else {} } := by
  unfold init Crew.rootIds Crew.callerName
  cases hroot : crew.root with
  | none => simp [new]
  | some w =>
    by_cases hname : crew.m_name = ""
    · simp [new, setLocals, SetName, hname]
      exact update_const _ _ w
    · simp [new, setLocals, SetName, hname]
      exact update_const _ _ w

omit [Fintype W] in
theorem init_inv (crew : Crew W) : (init crew).Inv crew := by
  rw [init_eq]
  refine ⟨⟨0, 0, false, ?_, ?_, ?_⟩, ?_, fun _ => rfl, fun h => absurd rfl h, ?_⟩
  · exact .before (Or.inl rfl) rfl rfl rfl rfl rfl
  · simp
  · intro i w _
    rw [show made 0 0 false i = .unborn by simp [made]]
    exact ⟨rfl, rfl⟩
  · intro w hw
    simp [new, hw]
  · intro _
    refine ⟨rfl, fun w => ?_⟩
    show crew.root ≠ some w ∧ (if crew.root = some w then Pc.out else Pc.scan) = .scan ∨
      crew.root = some w ∧ (if crew.root = some w then Pc.out else Pc.scan) = .out
    by_cases hroot : crew.root = some w
    · exact Or.inr ⟨hroot, if_pos hroot⟩
    · exact Or.inl ⟨hroot, if_neg hroot⟩

/-! ## `start()` returns -/

/-- How many steps a new thread has before it. -/
def left : Birth → ℕ
  | .unborn => 5
  | .enter => 4
  | .swap => 3
  | .notify _ => 2
  | .call _ => 1
  | .run => 0

omit [DecidableEq W] [Fintype W] in
/-- In `start()` the owner has not called `stop()`. -/
theorem Inv.unstopped (h : s.Inv crew) (hstart : s.starting = true) : s.sched.stopPc = .out := by
  obtain ⟨j, k, waiting, hstand, -, -⟩ := h.counts
  cases howner : s.owner with
  | test => exact (hstand.of_test howner).1
  | create k => exact (hstand.of_create howner).2.2.2.2.stopPc
  | wait k => exact (hstand.of_wait howner).2.2.2.2.stopPc
  | out => simp [starting, howner] at hstart
  | join thrs rest => simp [starting, howner] at hstart

/-- The caller's thread and one more. -/
def callerAndOne : Crew Bool where
  tid := fun w => if w then 0 else 1
  root := some true
  m_name := "main"
  fiberId := 0
  order := [false]
  nodup := by decide
  mem_order := by decide

/-- `start()`, a task for the thread, and `stop()`. -/
def oneTask : List (PoolAct Bool) :=
  List.replicate 3 (.start true) ++ List.replicate 3 (.born false) ++ List.replicate 2 (.start true) ++
    [.born false, .sched (.call (.scheduler (some (.cb 7)) 1))] ++
    List.replicate 7 (.sched (.run false)) ++ [.sched (.user false .finish)] ++
    List.replicate 3 (.sched (.run false)) ++ List.replicate 3 .stop ++
    List.replicate 7 (.sched (.run false)) ++ List.replicate 3 .stop

end ThreadPool

end Coroutine
