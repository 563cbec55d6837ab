import Coroutine.Proof.SchedulerCount

/-!
# What `stopping()` says

A worker's share of `m_activeThreadCount` is one from its pop to its decrement, and one more
for good in the branch for fibers.

* `move_shares`: the shares never exceed the counter.
* `Stopped`: nothing queued, no worker executing a task or about to put one back.
* `stopped_iff`: whenever `stopping()` holds the scheduler is stopped, in exactly the runs
  where no worker holds a yielded callback, its decrement done, while the last count goes or
  `m_stopping` is set with nothing counted.
-/

namespace Coroutine

open Lib

/-- What a worker at least contributes to `m_activeThreadCount`. -/
def Pc.share {W : Type} : Pc W → ℕ
  | .picked (some _) => 1
  | .task .fixup _ .fiber | .task .requeue _ .fiber => 1
  | .task .fixup _ .cb | .task .requeue _ .cb => 0
  | .task _ _ .fiber => 2
  | .task _ _ .cb => 1
  | _ => 0

/-- The worker executes a task: it has one in hand and has not returned from `swapIn`. -/
def Pc.Executes {W : Type} : Pc W → Prop
  | .picked ft => ft.isSome
  | .task .fixup _ _ | .task .requeue _ _ => False
  | .task _ _ _ => True
  | _ => False

theorem Pc.share_pos {W : Type} {pc : Pc W} (h : pc.Executes) : 0 < pc.share := by
  cases pc with
  | picked ft =>
    cases ft with
    | none => cases h
    | some ft => exact Nat.one_pos
  | task stage f b =>
    cases stage <;> cases b <;> first | exact h.elim | exact Nat.succ_pos _
  | _ => exact h.elim

/-- The worker is about to put its fiber back into the queue: it has decremented the counter,
and the fiber is `READY`, or was when `run()` tested it. -/
def Pc.PutsBack {W : Type} (fiber : FiberPtr → Fiber) : Pc W → Prop
  | .task .fixup f _ => (fiber f).m_state = .READY
  | .task .requeue _ _ => True
  | _ => False

instance {W : Type} (fiber : FiberPtr → Fiber) : DecidablePred (Pc.PutsBack fiber : Pc W → Prop)
  | .task .fixup f _ => inferInstanceAs (Decidable ((fiber f).m_state = .READY))
  | .task .requeue _ _ => isTrue trivial
  | .task .enter _ _ | .task .switch _ _ | .task .running _ _ | .task (.leaving _) _ _
  | .task .back _ _ | .out | .scan | .picked _ | .idleIn | .idle | .idleOut | .exited => isFalse id

theorem Pc.PutsBack.mono {W : Type} {fiber fiber' : FiberPtr → Fiber} {pc : Pc W}
    (hready : ∀ f, (fiber' f).m_state = .READY → (fiber f).m_state = .READY)
    (h : pc.PutsBack fiber') : pc.PutsBack fiber := by
  cases pc with
  | task stage f b => cases stage <;> first | exact hready f h | exact h
  | _ => exact h

namespace Scheduler

variable {W : Type} {pool : Pool W} {s s' : Scheduler W} {a : SchedAct W}

/-- Worker `w` is about to put its fiber back into the queue. -/
def PutsBack (s : Scheduler W) (w : W) : Prop := (s.worker w).pc.PutsBack s.fiber

/-- **Stopped**: no task is queued, and no worker executes a task or is about to put one
back. -/
structure Stopped (s : Scheduler W) : Prop where
  queue : s.m_fibers = []
  idle : ∀ w, ¬ (s.worker w).pc.Executes
  hand : ∀ w, ¬ s.PutsBack w

variable [Fintype W]

/-- The shares of all workers. -/
def shares (s : Scheduler W) : ℕ := ∑ w, (s.worker w).pc.share

theorem shares_congr (h : s'.worker = s.worker) : s'.shares = s.shares := by
  unfold shares
  rw [h]

theorem share_le (w : W) : (s.worker w).pc.share ≤ s.shares :=
  Finset.single_le_sum (f := fun v => (s.worker v).pc.share) (fun _ _ => Nat.zero_le _)
    (Finset.mem_univ w)

/-- **What a run keeps**: the shares are counted, and `stop()` has set `m_autoStop` before it
sets `m_stopping`. -/
structure Counted (s : Scheduler W) : Prop where
  shares : s.shares ≤ s.m_activeThreadCount
  autoStop : s.stopPc ≠ .out → s.m_autoStop = true
  out : s.stopPc = .out → s.m_stopping = false

variable [DecidableEq W]

/-- **One worker moves**, and the counter makes up for its share. -/
theorem shares_of_update {w : W} {wk : Worker W} (hle : s.shares ≤ s.m_activeThreadCount)
    (h : s'.worker = Function.update s.worker w wk)
    (hcount : s.m_activeThreadCount + wk.pc.share ≤ s'.m_activeThreadCount + (s.worker w).pc.share) :
    s'.shares ≤ s'.m_activeThreadCount := by
  have hsum := sum_change (f := fun v => (s.worker v).pc.share)
    (g := fun v => (s'.worker v).pc.share) (Finset.mem_univ w)
    (fun v _ hv => by rw [h, Function.update_of_ne hv])
  have hw : (s'.worker w).pc = wk.pc := by rw [h, Function.update_self]
  rw [hw] at hsum
  change s'.shares + _ = s.shares + _ at hsum
  omega

/-- **A move and the shares.** -/
theorem move_shares (h : Move pool s a s') (hle : s.shares ≤ s.m_activeThreadCount) :
    s'.shares ≤ s'.m_activeThreadCount := by
  cases h with
  | stay => exact hle
  | abort => exact hle
  | callOut c =>
    have hf := call_frame s none c
    rw [hf.active, shares_congr hf.worker]; exact hle
  | callIn w f b c hpc =>
    have hf := call_frame s (some w) c
    rw [hf.active, shares_congr hf.worker]; exact hle
  | stop =>
    have hf := stopStep_frame pool s
    rw [hf.active, shares_congr hf.worker]; exact hle
  | back w f b hpc =>
    -- the decrement takes the worker's own share
    have hshare := share_le (s := s) w
    refine shares_of_update hle rfl ?_
    rw [hpc] at hshare ⊢
    show s.m_activeThreadCount + _ ≤ s.m_activeThreadCount - 1 + _
    cases b with
    | fiber =>
      change 2 ≤ s.shares at hshare
      show s.m_activeThreadCount + 1 ≤ s.m_activeThreadCount - 1 + 2
      omega
    | cb =>
      change 1 ≤ s.shares at hshare
      show s.m_activeThreadCount + 0 ≤ s.m_activeThreadCount - 1 + 1
      omega
  | enter w f b hpc => exact shares_of_update hle rfl (by rw [hpc]; cases b <;> exact le_rfl)
  | start w f b job hpc => exact shares_of_update hle rfl (by rw [hpc]; cases b <;> exact le_rfl)
  | startEmpty w f b hpc => exact shares_of_update hle rfl (by rw [hpc]; cases b <;> exact le_rfl)
  | resume w f b hpc => exact shares_of_update hle rfl (by rw [hpc]; cases b <;> exact le_rfl)
  | yield w u f b st hpc => exact shares_of_update hle rfl (by rw [hpc]; cases b <;> exact le_rfl)
  | finish w f b hpc => exact shares_of_update hle rfl (by rw [hpc]; cases b <;> exact le_rfl)
  | throw w f b hpc => exact shares_of_update hle rfl (by rw [hpc]; cases b <;> exact le_rfl)
  | save w f b ctx hpc => exact shares_of_update hle rfl (by rw [hpc]; cases b <;> exact le_rfl)
  | ready w f b hpc => exact shares_of_update hle rfl (by rw [hpc]; cases b <;> exact le_rfl)
  | _ => exact shares_of_update hle rfl (by
      simp [*, Pc.share, setPc, setWorker, setFiber, setState, newFiber, push])

/-- Every move keeps what a run keeps. -/
theorem move_counted (hs : s.Counted) (h : Move pool s a s') : s'.Counted := by
  rcases move_flags h with ⟨-, rfl⟩ | ⟨hpc, hauto, hstopping⟩
  · exact ⟨move_shares h hs.shares, fun _ => stopStep_autoStop hs.autoStop,
      fun hout => absurd hout (stopStep_called pool s)⟩
  · refine ⟨move_shares h hs.shares, ?_, ?_⟩
    · rw [hpc, hauto]; exact hs.autoStop
    · rw [hpc, hstopping]; exact hs.out

omit [DecidableEq W] in
/-- A worker that is counted keeps the scheduler from stopping. -/
theorem not_stopping_of_share (hs : s.Counted) {w : W} (h : 0 < (s.worker w).pc.share) :
    ¬ s.stopping := by
  rintro ⟨-, -, -, hzero⟩
  have hshare := share_le (s := s) w
  have hle := hs.shares
  omega

omit [DecidableEq W] in
/-- Once `stopping()` holds, only what is about to be put back is not accounted for. -/
theorem stopped_of_stopping (hs : s.Counted) (h : s.stopping) (hhand : ∀ w, ¬ s.PutsBack w) :
    s.Stopped :=
  ⟨h.2.2.1, fun _ hex => not_stopping_of_share hs (Pc.share_pos hex) h, hhand⟩

omit [Fintype W] in
/-- One worker moves and no fiber becomes `READY`: who puts a fiber back did so before. -/
theorem putsBack_of_update {w v : W} {wk : Worker W} (h : s'.worker = Function.update s.worker w wk)
    (hwk : ¬ wk.pc.PutsBack s'.fiber)
    (hready : ∀ f, (s'.fiber f).m_state = .READY → (s.fiber f).m_state = .READY)
    (hv : s'.PutsBack v) : v ≠ w ∧ s.PutsBack v := by
  unfold PutsBack at hv
  rw [h] at hv
  rcases update_elim (P := fun k : Worker W => k.pc.PutsBack s'.fiber) hv with ⟨-, hself⟩ | ⟨hne, hv⟩
  · exact absurd hself hwk
  · exact ⟨hne, hv.mono hready⟩

omit [Fintype W] [DecidableEq W] in
/-- Writing another state makes no fiber `READY`. -/
theorem ready_of_setFiber {f g : FiberPtr} {fb : Fiber} (hfb : fb.m_state ≠ .READY)
    (h : ((s.setFiber f fb).fiber g).m_state = .READY) : (s.fiber g).m_state = .READY := by
  by_cases hg : g = f
  · subst hg
    simp only [setFiber, Function.update_self] at h
    exact absurd h hfb
  · simpa only [setFiber, Function.update_of_ne hg] using h

/-- **The last count goes over a yielded callback**: with both flags set and nothing queued a
worker decrements the counter to zero, or with nothing queued or counted `stop()` sets
`m_stopping`, while a yielded fiber waits to be put back: by that worker, or by another. -/
def ReleasesYielded (s : Scheduler W) (a : SchedAct W) : Prop :=
  s.fault = none ∧ s.m_fibers = [] ∧ s.m_autoStop = true ∧
    ((∃ w f b, a = .run w ∧ (s.worker w).pc = .task .back f b ∧ s.m_stopping = true ∧
        s.m_activeThreadCount = 1 ∧ ((s.fiber f).m_state = .READY ∨ ∃ v, s.PutsBack v)) ∨
      (a = .stop ∧ (s.stopPc = .early ∨ s.stopPc = .mark) ∧ s.m_activeThreadCount = 0 ∧
        ∃ v, s.PutsBack v))

omit [Fintype W] [DecidableEq W] in
/-- A call after which `stopping()` holds has queued nothing, and has put no fiber in a hand. -/
theorem call_putsBack {pusher : Option W} {c : SchedCall} (hstop : (s.call pusher c).stopping) {v : W}
    (hv : (s.call pusher c).PutsBack v) : s.stopping ∧ s.PutsBack v := by
  have hf := call_frame s pusher c
  have hqueue : s.m_fibers = [] := by
    refine call_inv (I := fun t : Scheduler W => t.m_fibers = [] → s.m_fibers = []) ?_
      (fun _ _ ht => ht) id c hstop.2.2.1
    intro t task thread _ _ hempty
    exact absurd hempty (List.append_ne_nil_of_right_ne_nil _ (List.cons_ne_nil _ _))
  refine ⟨⟨hf.autoStop ▸ hstop.1, hf.stopping ▸ hstop.2.1, hqueue, hf.active ▸ hstop.2.2.2⟩, ?_⟩
  unfold PutsBack at hv
  rw [hf.worker] at hv
  refine hv.mono fun g hg => ?_
  -- a fiber that the call makes is in `INIT`
  rcases call_fiber s pusher c g with heq | ⟨-, cb, heq⟩
  · rw [heq] at hg; exact hg
  · rw [heq] at hg; cases hg

/-- Who is about to put a fiber back when `stopping()` holds after a move. -/
theorem move_putsBack (hs' : s'.Counted) (h : Move pool s a s') (hstop : s'.stopping)
    {v : W} (hv : s'.PutsBack v) : (s.stopping ∧ ∃ u, s.PutsBack u) ∨
      (∃ w f b, a = .run w ∧ (s.worker w).pc = .task .back f b ∧
        s' = { s.setPc w (.task .fixup f b) with
          m_activeThreadCount := s.m_activeThreadCount - 1 }) ∨ a = .stop := by
  have hkeep : ∀ {w wk}, s'.worker = Function.update s.worker w wk → ¬ wk.pc.PutsBack s'.fiber →
      (∀ f, (s'.fiber f).m_state = .READY → (s.fiber f).m_state = .READY) → s.stopping →
      s.stopping ∧ ∃ u, s.PutsBack u := fun hw hwk hready hs =>
    ⟨hs, v, (putsBack_of_update hw hwk hready hv).2⟩
  have hbusy : ∀ {w wk}, s'.worker = Function.update s.worker w wk → wk.pc.Executes → False := by
    intro w wk hw hex
    refine not_stopping_of_share hs' (w := w) (Pc.share_pos ?_) hstop
    rw [hw, Function.update_self]
    exact hex
  cases h with
  | callOut c => exact Or.inl ((call_putsBack hstop hv).imp id fun hput => ⟨v, hput⟩)
  | callIn w f b c => exact Or.inl ((call_putsBack hstop hv).imp id fun hput => ⟨v, hput⟩)
  | stop => exact Or.inr (Or.inr rfl)
  | back w f b hpc => exact Or.inr (Or.inl ⟨w, f, b, rfl, hpc, rfl⟩)
  | stay => exact Or.inl ⟨hstop, v, hv⟩
  | abort => exact Or.inl ⟨hstop, v, hv⟩
  | ready w f b hpc hstate =>
    have hw : s.PutsBack w := by unfold PutsBack; rw [hpc]; exact hstate
    exact Or.inl ⟨hstop, w, hw⟩
  -- queued again, or counted: not stopping
  | requeue w f hpc =>
    exact absurd hstop.2.2.1 (List.append_ne_nil_of_right_ne_nil _ (List.cons_ne_nil _ _))
  | requeueCb w f hpc =>
    exact absurd hstop.2.2.1 (List.append_ne_nil_of_right_ne_nil _ (List.cons_ne_nil _ _))
  | pop w ft hpc hfind => exact absurd hstop.2.2.2 (Nat.succ_ne_zero _)
  | fiber w ft f hpc htask => exact absurd hstop.2.2.2 (Nat.succ_ne_zero _)
  | recycle w ft cb f hpc => exact (hbusy rfl (by exact trivial)).elim
  | create w ft cb hpc => exact (hbusy rfl (by exact trivial)).elim
  | enter w f b hpc => exact (hbusy rfl (by exact trivial)).elim
  | start w f b job hpc => exact (hbusy rfl (by exact trivial)).elim
  | startEmpty w f b hpc => exact (hbusy rfl (by exact trivial)).elim
  | resume w f b hpc => exact (hbusy rfl (by exact trivial)).elim
  | yield w u f b st hpc => exact (hbusy rfl (by exact trivial)).elim
  | finish w f b hpc => exact (hbusy rfl (by exact trivial)).elim
  | throw w f b hpc => exact (hbusy rfl (by exact trivial)).elim
  | save w f b ctx hpc => exact (hbusy rfl (by exact trivial)).elim
  -- a fiber that is put away is not `READY`
  | clear w f hpc hstate =>
    exact Or.inl (hkeep rfl (by exact id) (fun g => ready_of_setFiber (by simp [Fiber.reset])) hstop)
  | hold w f hpc =>
    exact Or.inl (hkeep rfl (by exact id) (fun g => ready_of_setFiber (by simp)) hstop)
  | holdCb w f hpc =>
    exact Or.inl (hkeep rfl (by exact id) (fun g => ready_of_setFiber (by simp)) hstop)
  | _ => exact Or.inl (hkeep rfl (by exact id) (fun _ h => h) hstop)

/-- `stopping()` after a step of `stop()`. -/
theorem stopping_of_stopStep (hs : s.Counted) (h : (s.stopStep pool).stopping) : s.stopping ∨
    (s.m_fibers = [] ∧ s.m_autoStop = true ∧ (s.stopPc = .early ∨ s.stopPc = .mark) ∧
      s.m_activeThreadCount = 0) := by
  have hf := stopStep_frame pool s
  obtain ⟨hauto, hstopping, hqueue, hcount⟩ := h
  rw [hf.fibers] at hqueue
  rw [hf.active] at hcount
  have hmove := stopStep_move pool s
  generalize s.stopStep pool = s' at hf hstopping hmove
  cases hmove with
  | begin hpc | beginEarly hpc =>
    -- `m_stopping` is not set yet
    have hset : s.m_stopping = true := hstopping
    rw [hs.out hpc] at hset
    cases hset
  | markEarly hpc =>
    exact Or.inr ⟨hqueue, hs.autoStop (by rw [hpc]; decide), Or.inl hpc, hcount⟩
  | mark hpc | markThreads hpc =>
    exact Or.inr ⟨hqueue, hs.autoStop (by rw [hpc]; decide), Or.inr hpc, hcount⟩
  | wait hpc =>
    have hcalled : s.stopPc ≠ .out := by rcases hpc with hpc | hpc | hpc <;> rw [hpc] <;> nofun
    exact Or.inl ⟨hs.autoStop hcalled, hstopping, hqueue, hcount⟩
  | testEarly hpc | missEarly hpc | test hpc | miss hpc | call hpc | join hpc =>
    exact Or.inl ⟨hs.autoStop (by rw [hpc]; decide), hstopping, hqueue, hcount⟩

/-- **A step keeps `stopping()` meaning stopped exactly when the last count does not go over a
yielded callback.** -/
theorem step_stopped_iff (hs : s.Counted) (hmeans : s.stopping → s.Stopped) (a : SchedAct W) :
    ((step pool s a).stopping → (step pool s a).Stopped) ↔ ¬ s.ReleasesYielded a := by
  have hmove := step_move pool s a
  have hs' := move_counted hs hmove
  constructor
  · rintro hstopped ⟨hf, hqueue, hauto, h⟩
    rcases h with ⟨w, f, b, rfl, hpc, hset, hcount, hhand⟩ | ⟨rfl, hpc, hcount, v, hv⟩
    · have hstep : step pool s (.run w) = { s.setPc w (.task .fixup f b) with
          m_activeThreadCount := s.m_activeThreadCount - 1 } := by
        simp [step, hf, runStep, hpc, execute]
      rw [hstep] at hstopped
      have hafter := hstopped ⟨hauto, hset, hqueue, by show s.m_activeThreadCount - 1 = 0; omega⟩
      rcases hhand with hready | ⟨v, hv⟩
      · refine hafter.hand w ?_
        simpa [PutsBack, setPc, setWorker, Pc.PutsBack] using hready
      · have hvw : v ≠ w := by
          rintro rfl
          rw [PutsBack, hpc] at hv
          exact hv
        refine hafter.hand v ?_
        simpa [PutsBack, setPc, setWorker, hvw] using hv
    · have hstep : step pool s .stop = s.stopStep pool := by simp [step, hf]
      have hframe := stopStep_frame pool s
      rw [hstep] at hstopped
      have hset : (s.stopStep pool).m_stopping = true := by
        rcases hpc with hpc | hpc <;> rw [stopStep, hpc]
      have hout : s.stopPc ≠ .out := by rcases hpc with hpc | hpc <;> rw [hpc] <;> decide
      have hafter := hstopped ⟨stopStep_autoStop hs.autoStop, hset, hframe.fibers.trans hqueue,
        hframe.active.trans hcount⟩
      refine hafter.hand v ?_
      rwa [PutsBack, hframe.worker, hframe.fiber]
  · intro hno hstop
    refine stopped_of_stopping hs' hstop fun v hv => ?_
    by_cases hf : s.fault = none
    · rcases move_putsBack hs' hmove hstop hv with ⟨hstop₀, u, hu⟩ | ⟨w, f, b, rfl, hpc, heq⟩ | rfl
      · exact (hmeans hstop₀).hand u hu
      · -- the decrement took the last count
        rw [heq] at hstop hv
        obtain ⟨hauto, hset, hqueue, hcount⟩ := hstop
        have hshare := share_le (s := s) w
        have hpos : 0 < (s.worker w).pc.share := Pc.share_pos (by rw [hpc]; trivial)
        have hle := hs.shares
        change s.m_activeThreadCount - 1 = 0 at hcount
        refine hno ⟨hf, hqueue, hauto, Or.inl ⟨w, f, b, rfl, hpc, hset, by omega, ?_⟩⟩
        by_cases hvw : v = w
        · subst hvw
          left
          simpa [PutsBack, setPc, setWorker, Pc.PutsBack] using hv
        · right
          refine ⟨v, ?_⟩
          simpa [PutsBack, setPc, setWorker, hvw] using hv
      · have hstep : step pool s .stop = s.stopStep pool := by simp [step, hf]
        have hframe := stopStep_frame pool s
        rw [hstep] at hstop hv
        rw [PutsBack, hframe.worker, hframe.fiber] at hv
        rcases stopping_of_stopStep hs hstop with hstop₀ | ⟨hqueue, hauto, hpc, hcount⟩
        · exact (hmeans hstop₀).hand v hv
        · exact hno ⟨hf, hqueue, hauto, Or.inr ⟨rfl, hpc, hcount, v, hv⟩⟩
    · rw [step_of_fault hf] at hstop hv
      exact (hmeans hstop).hand v hv

theorem init_counted (pool : Pool W) : (init pool).Counted := by
  refine ⟨?_, fun h => absurd rfl h, fun _ => rfl⟩
  have hzero : (init pool).shares = 0 := by
    apply Finset.sum_eq_zero
    intro w _
    show Pc.share (if _ then _ else _) = 0
    split <;> rfl
  omega

/-- **`stopping()` means stopped in every state of a run if and only if in no step of the run
the last count goes over a yielded callback.** -/
theorem stopped_iff {W : Type} [Fintype W] [DecidableEq W] (pool : Pool W)
    (acts : List (SchedAct W)) :
    (∀ s ∈ trace (step pool) (init pool) acts, s.stopping → s.Stopped) ↔
      Along (step pool) (fun s a => ¬ s.ReleasesYielded a) (init pool) acts := by
  have hcounted : ∀ s ∈ trace (step pool) (init pool) acts, s.Counted := by
    intro s hs
    obtain ⟨bs, -, rfl⟩ := mem_trace.1 hs
    exact run_inv (fun s a hs => move_counted hs (step_move pool s a)) bs _ (init_counted pool)
  have hstep : ∀ (s : Scheduler W) a, s.Counted ∧ (s.stopping → s.Stopped) →
      (((step pool s a).Counted ∧ ((step pool s a).stopping → (step pool s a).Stopped)) ↔
        ¬ s.ReleasesYielded a) := by
    rintro s a ⟨hs, hmeans⟩
    rw [← step_stopped_iff hs hmeans a]
    exact and_iff_right (move_counted hs (step_move pool s a))
  have hinit : (init pool).stopping → (init pool).Stopped := by
    rintro ⟨hauto, -⟩
    cases hauto
  rw [← forall_trace_iff (P := fun s : Scheduler W => s.Counted ∧ (s.stopping → s.Stopped)) hstep acts
    ⟨init_counted pool, hinit⟩]
  exact forall_congr' fun s => forall_congr' fun hs => (and_iff_right (hcounted s hs)).symm

/-- A callback yields to be scheduled again after `stop()` has set its flags. -/
def yieldWhileStopping : List (SchedAct Unit) :=
  [.call (.scheduler (some (.cb 7)) (-1)), .run (), .run (), .run (), .run (), .stop, .stop,
    .user () .yieldToReady, .run (), .run ()]

/-- After the decrement `stopping()` holds, and the worker then queues the callback's fiber. -/
theorem yielded_while_stopping :
    let s := run (step oneThread) (init oneThread) yieldWhileStopping
    let s' := run (step oneThread) s [.run (), .run ()]
    s.stopping ∧ s.PutsBack () ∧ s'.m_fibers ≠ [] ∧
      ¬ ∀ s ∈ trace (step oneThread) (init oneThread) yieldWhileStopping, s.stopping → s.Stopped := by
  intro s s'
  have hstop : s.stopping := by decide
  have hput : s.PutsBack () := by
    show (s.fiber 0).m_state = .READY
    decide
  refine ⟨hstop, hput, by decide, ?_⟩
  intro h
  exact (h s (mem_trace.2 ⟨yieldWhileStopping, List.prefix_rfl, rfl⟩) hstop).hand () hput

end Scheduler

end Coroutine
