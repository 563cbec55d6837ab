import Coroutine.Lib.Run
import Coroutine.Proof.SchedulerHands
import Coroutine.Proof.SchedulerQueue
import Coroutine.Spec.FiberLife

/-!
# No fiber is used after its end, or destroyed before it

A fiber at rest has not begun, is suspended at a yield, or has ended; its stack has no handle, two
(of `MainFunc` and of the yield) or none (`Resting`). In the hands of a worker it goes through the
stages of `Phase`. `owners` counts the handles there are, wherever they are.

* `Scheduler.Phases.move`: a step of a worker brings the one fiber it has in hand from stage to stage.
* `sched_kept`: after each step the counts are the numbers of handles, so that a fiber whose last
  handle is dropped is at rest with nothing on its stack, and its destructor does not refuse.
* `fibers_live`: so it is in every run whose steps take no fiber that another worker has in hand.
-/

namespace Coroutine

open Lib

/-- The fiber that the local `ft` of `run()` points to. -/
def Pc.owns {W : Type} : Pc W → Option FiberPtr
  | .picked (some ft) => ft.task.fiber?
  | .task _ f .fiber => some f
  | _ => none

/-- `run()` has returned. -/
def Pc.returned {W : Type} : Pc W → Bool
  | .exited => true
  | _ => false

/-- The fiber that the local `cb_fiber` points to, while there are locals. -/
def Worker.slot {W : Type} (wk : Worker W) : Option FiberPtr :=
  if wk.pc.returned then none else wk.cb_fiber

/-- The handles of `f` that a worker has. -/
def Worker.share {W : Type} (wk : Worker W) (f : FiberPtr) : ℕ :=
  (if wk.pc.owns = some f then 1 else 0) + if wk.slot = some f then 1 else 0

theorem Worker.share_congr {W : Type} {wk wk' : Worker W} (hcb : wk.cb_fiber = wk'.cb_fiber)
    (howns : wk.pc.owns = wk'.pc.owns) (hexit : wk.pc.returned = wk'.pc.returned) (f : FiberPtr) :
    wk.share f = wk'.share f := by
  unfold Worker.share Worker.slot
  rw [howns, hexit, hcb]

/-- A fiber that is not in hand, with `n` handles on its stack. -/
def Resting (fb : Fiber) (n : ℕ) : Prop :=
  (fb.m_ctx = .entry ∧ fb.m_state = .INIT ∧ n = 0) ∨
    (fb.m_ctx = .saved ∧ (fb.m_state = .HOLD ∨ fb.m_state = .READY) ∧ n = 2) ∨
    (fb.m_ctx = .ended ∧ (fb.m_state = .TERM ∨ fb.m_state = .EXCEPT) ∧ n = 0)

/-- A fiber in hand, by the stage. -/
def Phase (fb : Fiber) (n : ℕ) : Stage → Prop
  | .enter => Resting fb n
  | .switch => fb.m_state = .EXEC ∧ n = if fb.m_ctx = .saved then 2 else 0
  | .running => fb.m_state = .EXEC ∧ n = 1
  | .leaving .saved => (fb.m_state = .HOLD ∨ fb.m_state = .READY) ∧ n = 2
  | .leaving .ended => (fb.m_state = .TERM ∨ fb.m_state = .EXCEPT) ∧ n = 0
  | .leaving .entry => False
  | .back | .fixup => Resting fb n ∧ fb.m_ctx ≠ .entry
  | .requeue => Resting fb n ∧ fb.m_ctx = .saved

/-- What holds of the fiber that a worker has in hand. -/
def Pc.phase {W : Type} (fb : Fiber) (n : ℕ) : Pc W → Prop
  | .task stage _ _ => Phase fb n stage
  | _ => Resting fb n

theorem Resting.quiet {fb : Fiber} {n : ℕ} (h : Resting fb n) (hn : n = 0) : fb.resettable := by
  rcases h with ⟨-, hst, -⟩ | ⟨-, -, htwo⟩ | ⟨-, hst, -⟩
  · exact Or.inr (Or.inl hst)
  · omega
  · rcases hst with hst | hst
    · exact Or.inl hst
    · exact Or.inr (Or.inr hst)

namespace Scheduler

variable {W : Type} {pool : Pool W} {s s' : Scheduler W} {frames frames' : FiberPtr → ℕ}

/-- **The fibers' states**, with the handles on their stacks. -/
structure Phases (s : Scheduler W) (frames : FiberPtr → ℕ) : Prop where
  rest : ∀ f, (∀ w, s.hand w ≠ some f) → Resting (s.fiber f) (frames f)
  busy : ∀ w f, s.hand w = some f → (s.worker w).pc.phase (s.fiber f) (frames f)

theorem Phases.congr (h : s.Phases frames) (hworker : s'.worker = s.worker)
    (hfiber : ∀ f, s'.fiber f = s.fiber f) : s'.Phases frames := by
  refine ⟨fun f hf => ?_, fun w f hf => ?_⟩
  · rw [hfiber]
    exact h.rest f (by rwa [hand_congr hworker] at hf)
  · rw [hfiber, hworker]
    exact h.busy w f (by rwa [hand_congr hworker] at hf)

/-- A new fiber, or the end of one, that nobody has in hand. -/
theorem Phases.fresh (h : s.Phases frames) (hworker : s'.worker = s.worker) {g : FiberPtr}
    (hfree : ∀ w, s.hand w ≠ some g) (hfiber : ∀ f, f ≠ g → s'.fiber f = s.fiber f)
    (hrest : Resting (s'.fiber g) (frames g)) : s'.Phases frames := by
  refine ⟨fun f hf => ?_, fun w f hf => ?_⟩
  · by_cases hfg : f = g
    · rw [hfg]
      exact hrest
    · rw [hfiber f hfg]
      exact h.rest f (by rwa [hand_congr hworker] at hf)
  · rw [hand_congr hworker] at hf
    have hfg : f ≠ g := by
      rintro rfl
      exact hfree w hf
    rw [hfiber f hfg, hworker]
    exact h.busy w f hf

/-! ## Handles -/

/-- The handles of `f` in the queue. -/
def queued (s : Scheduler W) (f : FiberPtr) : ℕ :=
  s.m_fibers.countP fun ft => decide (ft.task.fiber? = some f)

/-- An entry leaves the queue. -/
theorem queued_pop {tid : ℤ} {ft : FiberAndThread W} (h : s.m_fibers.find? (s.takes tid) = some ft)
    (f : FiberPtr) : s.queued f = (s.m_fibers.eraseP (s.takes tid)).countP
      (fun ft => decide (ft.task.fiber? = some f)) + if ft.task.fiber? = some f then 1 else 0 := by
  obtain ⟨l, r, hsplit, herase, -⟩ := find_split h
  unfold queued
  rw [herase, hsplit, List.countP_append, List.countP_append, List.countP_cons]
  by_cases hf : ft.task.fiber? = some f
  · simp only [hf, decide_true, if_true]
    omega
  · simp [hf]

/-- An entry joins the queue. -/
theorem queued_push (s : Scheduler W) (task : FiberOrcb) (thread : ℤ) (pusher : Option W)
    (f : FiberPtr) : (s.push task thread pusher).queued f =
      s.queued f + if task.fiber? = some f then 1 else 0 := by
  unfold queued push
  rw [List.countP_append]
  by_cases hf : task.fiber? = some f <;> simp [hf]

/-- **Entries with the fibers `fs` have joined the queue**, and nothing else has changed. -/
structure Queues (s s' : Scheduler W) (fs : List FiberPtr) : Prop where
  worker : s'.worker = s.worker
  fiber : s'.fiber = s.fiber
  nfiber : s'.nfiber = s.nfiber
  queued : ∀ f, s'.queued f = s.queued f + fs.count f

theorem Queues.refl (s : Scheduler W) : s.Queues s [] := ⟨rfl, rfl, rfl, fun _ => rfl⟩

theorem Queues.trans {s'' : Scheduler W} {fs fs' : List FiberPtr} (h : s.Queues s' fs)
    (h' : s'.Queues s'' fs') : s.Queues s'' (fs ++ fs') := by
  refine ⟨h'.worker.trans h.worker, h'.fiber.trans h.fiber, h'.nfiber.trans h.nfiber, fun f => ?_⟩
  have hold := h.queued f
  have hnew := h'.queued f
  rw [List.count_append]
  omega

/-- One entry, if it is one. -/
theorem scheduleNoLock_queues (s : Scheduler W) (pusher : Option W) (fc : Option FiberOrcb)
    (thread : ℤ) (hexist : ∀ f ∈ SchedCall.fibers (.scheduler fc thread), f < s.nfiber) :
    s.Queues (s.scheduleNoLock fc thread pusher) (SchedCall.fibers (.scheduler fc thread)) := by
  cases fc with
  | none => exact Queues.refl s
  | some task =>
    have hpush : s.scheduleNoLock (some task) thread pusher = s.push task thread pusher := by
      refine if_pos ?_
      cases task with
      | cb cb => exact True.intro
      | fiber f => exact hexist f (List.mem_singleton.2 rfl)
    rw [hpush]
    refine ⟨rfl, rfl, rfl, fun f => ?_⟩
    rw [queued_push]
    cases task with
    | cb cb => rfl
    | fiber g =>
      have hcount : (SchedCall.fibers (.scheduler (some (.fiber g)) thread)).count f =
          if g = f then 1 else 0 := by
        unfold SchedCall.fibers
        rw [List.count_singleton]
        simp
      rw [hcount]
      simp [FiberOrcb.fiber?]

theorem fibers_cons (fc : Option FiberOrcb) (fcs : List (Option FiberOrcb)) :
    SchedCall.fibers (.batch (fc :: fcs)) =
      SchedCall.fibers (.scheduler fc (-1)) ++ SchedCall.fibers (.batch fcs) := by
  rcases fc with _ | ⟨f⟩ | ⟨cb⟩ <;> rfl

/-- A batch, entry by entry. -/
theorem batch_queues (pusher : Option W) : ∀ (fcs : List (Option FiberOrcb)) (s : Scheduler W),
    (∀ f ∈ SchedCall.fibers (.batch fcs), f < s.nfiber) →
      s.Queues (s.call pusher (.batch fcs)) (SchedCall.fibers (.batch fcs))
  | [], s, _ => Queues.refl s
  | fc :: fcs, s, hexist => by
    rw [fibers_cons] at hexist ⊢
    have hone := scheduleNoLock_queues s pusher fc (-1)
      fun f hf => hexist f (List.mem_append_left _ hf)
    refine hone.trans (batch_queues pusher fcs _ fun f hf => ?_)
    rw [hone.nfiber]
    exact hexist f (List.mem_append_right _ hf)

/-! ## Workers -/

variable [DecidableEq W]

/-- A worker moves that has no fiber in hand, and takes none. -/
theorem Phases.idle (h : s.Phases frames) {w : W} {wk : Worker W}
    (hworker : s'.worker = Function.update s.worker w wk) (hold : s.hand w = none)
    (hnew : wk.pc.hand = none) (hfiber : s'.fiber = s.fiber) : s'.Phases frames := by
  have hhand : s'.hand = s.hand := by
    rw [hand_update hworker, hnew, ← hold, Function.update_eq_self]
  refine ⟨fun f hf => ?_, fun v f hf => ?_⟩
  · rw [hfiber]
    exact h.rest f (by rwa [hhand] at hf)
  · rw [hhand] at hf
    have hv : v ≠ w := by
      rintro rfl
      rw [hold] at hf
      cases hf
    rw [hfiber, hworker, Function.update_of_ne hv]
    exact h.busy v f hf

/-- **A worker moves with fiber `f`**, which no other has in hand: it takes it, has it, or lets go. -/
theorem Phases.move (h : s.Phases frames) {w : W} {wk : Worker W} {f : FiberPtr}
    (hworker : s'.worker = Function.update s.worker w wk)
    (hold : s.hand w = none ∨ s.hand w = some f) (hnew : wk.pc.hand = none ∨ wk.pc.hand = some f)
    (hfree : ∀ v, v ≠ w → s.hand v ≠ some f) (hfiber : ∀ g, g ≠ f → s'.fiber g = s.fiber g)
    (hframes : ∀ g, g ≠ f → frames' g = frames g)
    (hbusy : wk.pc.hand = some f → wk.pc.phase (s'.fiber f) (frames' f))
    (hrest : wk.pc.hand = none → Resting (s'.fiber f) (frames' f)) : s'.Phases frames' := by
  have hhand := hand_update hworker
  refine ⟨fun g hg => ?_, fun v g hg => ?_⟩
  · by_cases hgf : g = f
    · subst hgf
      rcases hnew with hnone | hsome
      · exact hrest hnone
      · refine absurd ?_ (hg w)
        rw [hhand, Function.update_self]
        exact hsome
    · rw [hfiber g hgf, hframes g hgf]
      refine h.rest g fun v hv => ?_
      by_cases hvw : v = w
      · subst hvw
        rcases hold with hnone | hsome
        · rw [hnone] at hv
          cases hv
        · rw [hsome] at hv
          exact hgf (Option.some.inj hv).symm
      · refine hg v ?_
        rw [hhand, Function.update_of_ne hvw]
        exact hv
  · by_cases hvw : v = w
    · subst hvw
      rw [hhand, Function.update_self] at hg
      rcases hnew with hnone | hsome
      · rw [hnone] at hg
        cases hg
      · have hgf : g = f := Option.some.inj (hg.symm.trans hsome)
        subst hgf
        rw [hworker, Function.update_self]
        exact hbusy hsome
    · rw [hhand, Function.update_of_ne hvw] at hg
      have hgf : g ≠ f := by
        rintro rfl
        exact hfree v hvw hg
      rw [hfiber g hgf, hframes g hgf, hworker, Function.update_of_ne hvw]
      exact h.busy v g hg

variable [Fintype W]

/-- The handles of `f` that the scheduler has. -/
def owned (s : Scheduler W) (f : FiberPtr) : ℕ := s.queued f + ∑ w, (s.worker w).share f

/-- **A worker moves**: what the scheduler has more of is what the worker and the queue have. -/
theorem owned_update {w : W} {wk : Worker W} (h : s'.worker = Function.update s.worker w wk)
    (f : FiberPtr) : s'.owned f + (s.queued f + (s.worker w).share f) =
      s.owned f + (s'.queued f + wk.share f) := by
  have hsum := sum_change (f := fun v => (s.worker v).share f) (g := fun v => (s'.worker v).share f)
    (Finset.mem_univ w) (fun v _ hv => by rw [h, Function.update_of_ne hv])
  have hw : (s'.worker w).share f = wk.share f := by rw [h, Function.update_self]
  rw [hw] at hsum
  unfold owned
  omega

/-- Its own handles are not touched. -/
theorem owned_same {w : W} {wk : Worker W} (h : s'.worker = Function.update s.worker w wk)
    (hqueue : s'.m_fibers = s.m_fibers) (f : FiberPtr) (hshare : wk.share f = (s.worker w).share f) :
    s'.owned f = s.owned f := by
  have hsum := owned_update h f
  have hqueued : s'.queued f = s.queued f := by unfold queued; rw [hqueue]
  omega

omit [DecidableEq W] in
theorem owned_congr (hworker : s'.worker = s.worker) (hqueue : s'.m_fibers = s.m_fibers)
    (f : FiberPtr) : s'.owned f = s.owned f := by
  unfold owned queued
  rw [hworker, hqueue]

omit [DecidableEq W] in
/-- Entries with the fibers `fs` have joined the queue. -/
theorem Queues.owned {fs : List FiberPtr} (h : s.Queues s' fs) (f : FiberPtr) :
    s'.owned f = s.owned f + fs.count f := by
  have hqueued := h.queued f
  unfold Scheduler.owned
  rw [h.worker]
  omega

omit [DecidableEq W] in
/-- What a worker has is counted. -/
theorem share_le_owned (w : W) (f : FiberPtr) : (s.worker w).share f ≤ s.owned f := by
  have hle : (s.worker w).share f ≤ ∑ v, (s.worker v).share f :=
    Finset.single_le_sum (f := fun v => (s.worker v).share f) (fun _ _ => Nat.zero_le _)
      (Finset.mem_univ w)
  unfold owned
  omega

/-- While a callback is executed, `cb_fiber` is the fiber it is executed in. -/
def Slots (s : Scheduler W) : Prop :=
  ∀ w stage f, (s.worker w).pc = .task stage f .cb → (s.worker w).cb_fiber = some f

theorem move_slots (hs : s.Slots) {a : SchedAct W} (h : Move pool s a s') : s'.Slots := by
  intro v stage f
  have hv := hs v
  cases h with
  | stay => exact hv stage f
  | abort => exact hv stage f
  | callOut c => rw [(call_frame s none c).worker]; exact hv stage f
  | callIn w g b c hpc => rw [(call_frame s (some w) c).worker]; exact hv stage f
  | stop => rw [(stopStep_frame pool s).worker]; exact hv stage f
  | recycle w ft cb g hpc htask hslot hreset =>
    refine update_intro (P := fun k : Worker W => k.pc = .task stage f .cb → k.cb_fiber = some f)
      (hv stage f) ?_
    rintro - htask'
    cases htask'
    exact hslot
  | create w ft cb hpc htask hslot =>
    refine update_intro (P := fun k : Worker W => k.pc = .task stage f .cb → k.cb_fiber = some f)
      (hv stage f) ?_
    rintro - htask'
    cases htask'
    rfl
  | _ =>
    refine update_intro (P := fun k : Worker W => k.pc = .task stage f .cb → k.cb_fiber = some f)
      (hv stage f) ?_
    rintro - htask'
    cases htask' <;> exact hs _ _ _ (by assumption)

omit [DecidableEq W] [Fintype W] in
/-- A worker that has a fiber in hand has a handle of it. -/
theorem in_hand (hs : s.Slots) {w : W} {f : FiberPtr} (hf : s.hand w = some f) :
    0 < (s.worker w).share f := by
  unfold hand at hf
  unfold Worker.share
  cases hpc : (s.worker w).pc with
  | picked ft =>
    rw [hpc] at hf
    cases ft with
    | none => cases hf
    | some ft =>
      have howns : (Pc.picked (some ft)).owns = some f := hf
      rw [if_pos howns]
      omega
  | task stage g b =>
    rw [hpc] at hf
    have hg : g = f := Option.some.inj hf
    subst hg
    cases b with
    | fiber =>
      have howns : (Pc.task (W := W) stage g .fiber).owns = some g := rfl
      rw [if_pos howns]
      omega
    | cb =>
      have hslot : (s.worker w).slot = some g := by
        unfold Worker.slot
        rw [hpc]
        exact hs w stage g hpc
      rw [if_pos hslot]
      omega
  | _ => rw [hpc] at hf; cases hf

omit [DecidableEq W] in
/-- **A fiber that nobody has a handle of is at rest**, and may be destroyed. -/
theorem quiet_of_unowned (hs : s.Slots) (hp : s.Phases frames) {f : FiberPtr} (howned : s.owned f = 0)
    (hframes : frames f = 0) : (s.fiber f).resettable := by
  refine (hp.rest f fun w hw => ?_).quiet hframes
  have hpos := in_hand hs hw
  have hle := share_le_owned (s := s) w f
  omega

end Scheduler

namespace FiberLife

variable {W : Type} [Fintype W] {pool : Pool W} {x : FiberLife W}

/-- The handles there are of a fiber. -/
def owners (x : FiberLife W) (f : FiberPtr) : ℕ := x.s.owned f + x.frames f + x.held f

/-- **The invariant.** -/
structure Inv (x : FiberLife W) : Prop where
  sound : x.handles.Sound x.owners (· < x.s.nfiber)
  exist : x.s.Exist
  hands : Exclusive x.s.hand
  phases : x.s.Phases x.frames
  slots : x.s.Slots
  fresh : ∀ f, x.s.nfiber ≤ f → x.frames f = 0 ∧ x.held f = 0
  intact : x.dangling = false

theorem Inv.owner_of_hand (h : x.Inv) {w : W} {f : FiberPtr} (hf : x.s.hand w = some f) :
    0 < x.owners f := by
  have hshare := Scheduler.in_hand h.slots hf
  have hle := Scheduler.share_le_owned (s := x.s) w f
  unfold owners
  omega

theorem Inv.owner_of_queue (_ : x.Inv) {ft : FiberAndThread W} (hft : ft ∈ x.s.m_fibers)
    {f : FiberPtr} (hf : ft.task = .fiber f) : 0 < x.owners f := by
  have hpos : 0 < x.s.queued f := by
    refine List.countP_pos_iff.2 ⟨ft, hft, ?_⟩
    rw [hf]
    simp [FiberOrcb.fiber?]
  unfold owners Scheduler.owned
  omega

theorem Inv.owner_of_slot (_ : x.Inv) {w : W} {f : FiberPtr} (hf : (x.s.worker w).slot = some f) :
    0 < x.owners f := by
  have hshare : 0 < (x.s.worker w).share f := by
    unfold Worker.share
    rw [if_pos hf]
    omega
  have hle := Scheduler.share_le_owned (s := x.s) w f
  unfold owners
  omega

/-- **No step dereferences a fiber that was destroyed.** -/
theorem Inv.derefs_alive (h : x.Inv) (a : SchedAct W) :
    ¬ ∃ f ∈ x.s.derefs a, f ∈ x.handles.destroyed := by
  rintro ⟨f, hf, hdead⟩
  refine h.sound.alive ?_ hdead
  unfold Scheduler.derefs at hf
  cases a with
  | call c => cases hf
  | stop => cases hf
  | user w u =>
    dsimp only at hf
    split at hf
    · rename_i g b hpc
      rw [List.mem_singleton] at hf
      subst hf
      exact h.owner_of_hand (w := w) (by unfold Scheduler.hand; rw [hpc]; rfl)
    · cases hf
  | run w =>
    dsimp only at hf
    split at hf
    · rename_i hpc
      obtain ⟨ft, hft, htask⟩ := List.mem_filterMap.1 hf
      refine h.owner_of_queue hft ?_
      split at htask
      · cases htask; rfl
      · cases htask
    · rename_i ft hpc
      split at hf
      · rename_i g htask
        rw [List.mem_singleton] at hf
        subst hf
        exact h.owner_of_hand (w := w) (by
          unfold Scheduler.hand
          rw [hpc]
          simp [Pc.hand, htask, FiberOrcb.fiber?])
      · refine h.owner_of_slot (w := w) ?_
        unfold Worker.slot
        rw [hpc]
        exact Option.mem_toList.1 hf
    · rename_i stage g b hpc
      rw [List.mem_singleton] at hf
      subst hf
      exact h.owner_of_hand (w := w) (by unfold Scheduler.hand; rw [hpc]; rfl)
    · cases hf

/-- Of a fiber that is not made yet there are no handles. -/
theorem Inv.owners_new (h : x.Inv) {f : FiberPtr} (hf : x.s.nfiber ≤ f) : x.owners f = 0 := by
  have hqueue : x.s.queued f = 0 := by
    refine List.countP_eq_zero.2 fun ft hft => ?_
    have hlt := h.exist.queue ft hft
    cases htask : ft.task with
    | cb cb => simp [FiberOrcb.fiber?]
    | fiber g =>
      have hne : g ≠ f := fun heq => Nat.not_lt.2 hf (heq ▸ hlt g htask)
      simp [FiberOrcb.fiber?, hne]
  have hshare : ∀ w, (x.s.worker w).share f = 0 := by
    intro w
    have howns : (x.s.worker w).pc.owns ≠ some f := by
      intro howns
      have hhand : x.s.hand w = some f := by
        unfold Scheduler.hand
        cases hpc : (x.s.worker w).pc with
        | picked ft =>
          rw [hpc] at howns
          cases ft with
          | none => cases howns
          | some ft => exact howns
        | task stage g b =>
          rw [hpc] at howns
          cases b with
          | fiber => exact howns
          | cb => cases howns
        | _ => rw [hpc] at howns; cases howns
      exact Nat.not_lt.2 hf (h.exist.hand w f hhand)
    have hslot : (x.s.worker w).slot ≠ some f := by
      intro hslot
      unfold Worker.slot at hslot
      split at hslot
      · cases hslot
      · exact Nat.not_lt.2 hf (h.exist.slot w f hslot)
    unfold Worker.share
    rw [if_neg howns, if_neg hslot]
  obtain ⟨hframes, hheld⟩ := h.fresh f hf
  unfold owners Scheduler.owned
  rw [hqueue, hframes, hheld, Finset.sum_eq_zero fun w _ => hshare w]
  rfl

/-! ## Steps of workers -/

variable [DecidableEq W]

/-- **What a step must keep**, with the handles of user code after it. -/
structure Kept (pool : Pool W) (x : FiberLife W) (a : SchedAct W) (held' : FiberPtr → ℕ) : Prop where
  phases : (x.s.step pool a).Phases (x.s.framesAfter x.frames a)
  sound : ((x.s.handleOps pool a).foldl (Shared.op (refuses (x.s.step pool a))) x.handles).Sound
    (fun f => (x.s.step pool a).owned f + x.s.framesAfter x.frames a f + held' f)
    (· < (x.s.step pool a).nfiber)

/-- A step that does nothing to handles. -/
theorem Inv.same (h : x.Inv) {a : SchedAct W} (hphases : (x.s.step pool a).Phases x.frames)
    (hframes : x.s.framesAfter x.frames a = x.frames) (hops : x.s.handleOps pool a = [])
    (howned : ∀ f, (x.s.step pool a).owned f = x.s.owned f)
    (hn : (x.s.step pool a).nfiber = x.s.nfiber) : Kept pool x a x.held := by
  refine ⟨by rw [hframes]; exact hphases, ?_⟩
  rw [hops, hframes]
  refine h.sound.congr (fun f => ?_) (fun f => by rw [hn])
  unfold owners
  rw [howned]

/-- A worker's step with no fiber in hand. -/
theorem Inv.idles (h : x.Inv) {w : W} (wk : Worker W)
    (hworker : (x.s.step pool (.run w)).worker = Function.update x.s.worker w wk)
    (hold : x.s.hand w = none) (hnew : wk.pc.hand = none)
    (hshare : ∀ f, wk.share f = (x.s.worker w).share f)
    (hframes : x.s.framesAfter x.frames (.run w) = x.frames)
    (hops : x.s.handleOps pool (.run w) = [])
    (hfiber : (x.s.step pool (.run w)).fiber = x.s.fiber)
    (hqueue : (x.s.step pool (.run w)).m_fibers = x.s.m_fibers)
    (hn : (x.s.step pool (.run w)).nfiber = x.s.nfiber) : Kept pool x (.run w) x.held :=
  h.same (h.phases.idle hworker hold hnew hfiber) hframes hops
    (fun f => Scheduler.owned_same hworker hqueue f (hshare f)) hn

/-- **A worker's step with fiber `f`** that does nothing to handles. -/
theorem Inv.goes (h : x.Inv) {w : W} (wk : Worker W) {f : FiberPtr}
    (hworker : (x.s.step pool (.run w)).worker = Function.update x.s.worker w wk)
    (hold : x.s.hand w = some f) (hnew : wk.pc.hand = none ∨ wk.pc.hand = some f)
    (hshare : ∀ g, wk.share g = (x.s.worker w).share g)
    (hframes : x.s.framesAfter x.frames (.run w) = x.frames)
    (hops : x.s.handleOps pool (.run w) = [])
    (hfiber : ∀ g, g ≠ f → (x.s.step pool (.run w)).fiber g = x.s.fiber g)
    (hqueue : (x.s.step pool (.run w)).m_fibers = x.s.m_fibers)
    (hn : (x.s.step pool (.run w)).nfiber = x.s.nfiber)
    (hbusy : wk.pc.hand = some f → wk.pc.phase ((x.s.step pool (.run w)).fiber f) (x.frames f))
    (hrest : wk.pc.hand = none → Resting ((x.s.step pool (.run w)).fiber f) (x.frames f)) :
    Kept pool x (.run w) x.held := by
  have hfree : ∀ v, v ≠ w → x.s.hand v ≠ some f := fun v hv hf => hv (h.hands v w f hf hold)
  exact h.same (h.phases.move hworker (Or.inr hold) hnew hfree hfiber (fun _ _ => rfl) hbusy hrest)
    hframes hops (fun g => Scheduler.owned_same hworker hqueue g (hshare g)) hn

/-- A worker with nothing in hand, or at the end. -/
theorem idle_kept (h : x.Inv) (hfault : x.s.fault = none) {w : W}
    (hpc : (x.s.worker w).pc = .out ∨ (x.s.worker w).pc = .exited ∨ (x.s.worker w).pc = .idleIn ∨
      (x.s.worker w).pc = .idle ∨ (x.s.worker w).pc = .idleOut) : Kept pool x (.run w) x.held := by
  have hhand : x.s.hand w = none := by
    unfold Scheduler.hand
    rcases hpc with hpc | hpc | hpc | hpc | hpc <;> rw [hpc] <;> rfl
  have hframes : x.s.framesAfter x.frames (.run w) = x.frames := by
    unfold Scheduler.framesAfter
    rcases hpc with hpc | hpc | hpc | hpc | hpc <;> dsimp only <;> rw [hpc]
  have hops : x.s.handleOps pool (.run w) = [] := by
    unfold Scheduler.handleOps
    rcases hpc with hpc | hpc | hpc | hpc | hpc <;> dsimp only <;> rw [hpc]
  have hrun : x.s.step pool (.run w) = x.s.runStep pool w := by
    unfold Scheduler.step
    rw [hfault]
    rfl
  have hstay : x.s.step pool (.run w) = x.s → Kept pool x (.run w) x.held := by
    intro hstep
    exact h.same (by rw [hstep]; exact h.phases) hframes hops (fun f => by rw [hstep]) (by rw [hstep])
  have hmove : ∀ {wk : Worker W} {s' : Scheduler W}, x.s.step pool (.run w) = s' →
      s'.worker = Function.update x.s.worker w wk → wk.pc.hand = none →
      wk.cb_fiber = (x.s.worker w).cb_fiber → wk.pc.owns = none →
      wk.pc.returned = (x.s.worker w).pc.returned → s'.fiber = x.s.fiber →
      s'.m_fibers = x.s.m_fibers → s'.nfiber = x.s.nfiber → Kept pool x (.run w) x.held := by
    intro wk s' hstep hworker hnew hcb howns hexit hfiber hqueue hn
    have hnone : (x.s.worker w).pc.owns = none := by
      rcases hpc with hpc | hpc | hpc | hpc | hpc <;> rw [hpc] <;> rfl
    exact h.idles wk (by rw [hstep]; exact hworker) hhand hnew
      (Worker.share_congr hcb (howns.trans hnone.symm) hexit) hframes hops
      (by rw [hstep]; exact hfiber) (by rw [hstep]; exact hqueue) (by rw [hstep]; exact hn)
  rcases hpc with hpc | hpc | hpc | hpc | hpc
  · by_cases hcall : x.s.stopPc = .call ∧ pool.root = some w
    · have hstep : x.s.step pool (.run w) = x.s.setPc w .scan := by
        rw [hrun]
        unfold Scheduler.runStep
        rw [hpc]
        exact if_pos hcall
      exact hmove hstep rfl rfl rfl rfl (by rw [hpc]; rfl) rfl rfl rfl
    · refine hstay ?_
      rw [hrun]
      unfold Scheduler.runStep
      rw [hpc]
      exact if_neg hcall
  · refine hstay ?_
    rw [hrun]
    unfold Scheduler.runStep
    rw [hpc]
  · have hstep : x.s.step pool (.run w) =
        x.s.setWorker w { x.s.worker w with pc := .idle, idle := .EXEC } := by
      rw [hrun]
      unfold Scheduler.runStep
      rw [hpc]
    exact hmove hstep rfl rfl rfl rfl (by rw [hpc]; rfl) rfl rfl rfl
  · have hstep : x.s.step pool (.run w) = x.s.setWorker w
        { x.s.worker w with pc := .idleOut, idle := if x.s.stopping then .TERM else .HOLD } := by
      rw [hrun]
      unfold Scheduler.runStep
      rw [hpc]
    exact hmove hstep rfl rfl rfl rfl (by rw [hpc]; rfl) rfl rfl rfl
  · have hstep : x.s.step pool (.run w) =
        { x.s.setPc w .scan with m_idleThreadCount := x.s.m_idleThreadCount - 1 } := by
      rw [hrun]
      unfold Scheduler.runStep
      rw [hpc]
    exact hmove hstep rfl rfl rfl rfl (by rw [hpc]; rfl) rfl rfl rfl

theorem step_run (hfault : x.s.fault = none) (w : W) :
    x.s.step pool (.run w) = x.s.runStep pool w := by
  unfold Scheduler.step
  rw [hfault]
  rfl

/-! ## The section under the mutex -/

section Scan

variable {w : W} {ft : FiberAndThread W}

omit [Fintype W] [DecidableEq W] in
theorem hand_scan (hpc : (x.s.worker w).pc = .scan) : x.s.hand w = none := by
  unfold Scheduler.hand
  rw [hpc]
  rfl

omit [Fintype W] [DecidableEq W] in
theorem frames_scan (hpc : (x.s.worker w).pc = .scan) : x.s.framesAfter x.frames (.run w) = x.frames := by
  unfold Scheduler.framesAfter
  dsimp only
  rw [hpc]

theorem step_scan (hfault : x.s.fault = none) (hpc : (x.s.worker w).pc = .scan) :
    x.s.step pool (.run w) = x.s.scan (pool.tid w) w := by
  rw [step_run hfault]
  unfold Scheduler.runStep
  rw [hpc]

/-- It takes nothing. -/
theorem scan_none_kept (h : x.Inv) (hfault : x.s.fault = none) (hpc : (x.s.worker w).pc = .scan)
    (hfind : x.s.m_fibers.find? (x.s.takes (pool.tid w)) = none) : Kept pool x (.run w) x.held := by
  have hstep : x.s.step pool (.run w) = x.s.setPc w (.picked none) := by
    rw [step_scan hfault hpc]
    unfold Scheduler.scan
    rw [hfind]
  have hops : x.s.handleOps pool (.run w) = [] := by
    unfold Scheduler.handleOps
    dsimp only
    rw [hpc]
    dsimp only
    rw [hfind]
  refine h.idles { x.s.worker w with pc := .picked none } (by rw [hstep]; rfl) (hand_scan hpc) rfl ?_
    (frames_scan hpc) hops (by rw [hstep]; rfl) (by rw [hstep]; rfl) (by rw [hstep]; rfl)
  exact Worker.share_congr rfl (by rw [hpc]; rfl) (by rw [hpc]; rfl)

theorem step_takes (hfault : x.s.fault = none) (hpc : (x.s.worker w).pc = .scan)
    (hfind : x.s.m_fibers.find? (x.s.takes (pool.tid w)) = some ft) :
    x.s.step pool (.run w) =
      { x.s.setPc w (.picked (some ft)) with
        m_fibers := x.s.m_fibers.eraseP (x.s.takes (pool.tid w))
        m_activeThreadCount := x.s.m_activeThreadCount + 1
        popped := x.s.popped ++ [ft] } := by
  rw [step_scan hfault hpc]
  unfold Scheduler.scan
  rw [hfind]

/-- The handle goes from the queue to the worker. -/
theorem takes_owned (hfault : x.s.fault = none) (hpc : (x.s.worker w).pc = .scan)
    (hfind : x.s.m_fibers.find? (x.s.takes (pool.tid w)) = some ft) (f : FiberPtr) :
    (x.s.step pool (.run w)).owned f = x.s.owned f := by
  have hworker : (x.s.step pool (.run w)).worker =
      Function.update x.s.worker w { x.s.worker w with pc := .picked (some ft) } := by
    rw [step_takes hfault hpc hfind]
    rfl
  have hsum := Scheduler.owned_update hworker f
  have hpop := Scheduler.queued_pop hfind f
  have hqueued : (x.s.step pool (.run w)).queued f =
      (x.s.m_fibers.eraseP (x.s.takes (pool.tid w))).countP
        fun ft => decide (ft.task.fiber? = some f) := by
    rw [step_takes hfault hpc hfind]
    rfl
  have hold : (x.s.worker w).share f = if (x.s.worker w).cb_fiber = some f then 1 else 0 := by
    simp [Worker.share, Worker.slot, hpc, Pc.owns, Pc.returned]
  have hnew : Worker.share { x.s.worker w with pc := .picked (some ft) } f =
      (if ft.task.fiber? = some f then 1 else 0) +
        if (x.s.worker w).cb_fiber = some f then 1 else 0 := rfl
  omega

/-- It takes an entry; nobody else has its fiber in hand. -/
theorem scan_some_kept (h : x.Inv) (hfault : x.s.fault = none) (hfree : x.s.TakesFree pool (.run w))
    (hpc : (x.s.worker w).pc = .scan)
    (hfind : x.s.m_fibers.find? (x.s.takes (pool.tid w)) = some ft) : Kept pool x (.run w) x.held := by
  have hhand := hand_scan hpc
  have hframes := frames_scan hpc
  have hstep := step_takes hfault hpc hfind
  have howned := takes_owned hfault hpc hfind
  have hworker : (x.s.step pool (.run w)).worker =
      Function.update x.s.worker w { x.s.worker w with pc := .picked (some ft) } := by
    rw [hstep]
    rfl
  have hn : (x.s.step pool (.run w)).nfiber = x.s.nfiber := by rw [hstep]; rfl
  have hfiber : (x.s.step pool (.run w)).fiber = x.s.fiber := by rw [hstep]; rfl
  cases htask : ft.task with
  | cb cb =>
    have hnone : (Pc.picked (W := W) (some ft)).hand = none := by
      simp [Pc.hand, htask, FiberOrcb.fiber?]
    have hops : x.s.handleOps pool (.run w) = [] := by
      unfold Scheduler.handleOps
      dsimp only
      rw [hpc]
      dsimp only
      rw [hfind]
      obtain ⟨task, thread, serial, early, pusher⟩ := ft
      cases htask
      rfl
    exact h.same (h.phases.idle hworker hhand hnone hfiber) hframes hops howned hn
  | fiber f =>
    have hsome : (Pc.picked (W := W) (some ft)).hand = some f := by
      simp [Pc.hand, htask, FiberOrcb.fiber?]
    have hops : x.s.handleOps pool (.run w) = [.copy f, .drop f] := by
      unfold Scheduler.handleOps
      dsimp only
      rw [hpc]
      dsimp only
      rw [hfind]
      obtain ⟨task, thread, serial, early, pusher⟩ := ft
      cases htask
      rfl
    have hothers : ∀ v, v ≠ w → x.s.hand v ≠ some f := by
      have hnext : f ∈ x.s.nextTake pool w := by
        simp [Scheduler.nextTake, hpc, hfind, htask, FiberOrcb.fiber?]
      exact hfree hfault f hnext
    -- so the fiber is at rest
    have hnobody : ∀ v, x.s.hand v ≠ some f := by
      intro v
      by_cases hv : v = w
      · rw [hv, hhand]
        simp
      · exact hothers v hv
    have hmem := List.mem_of_find?_eq_some hfind
    refine ⟨?_, ?_⟩
    · rw [hframes]
      refine h.phases.move hworker (Or.inl hhand) (Or.inr hsome) hothers ?_ (fun _ _ => rfl) ?_ ?_
      · intro g _
        rw [hfiber]
      · intro _
        rw [hfiber]
        exact h.phases.rest f hnobody
      · intro hnone
        rw [hsome] at hnone
        cases hnone
    · -- the worker's copy is made before the queue's is destroyed
      rw [hops, hframes]
      have hpass := h.sound.pass (refuses (x.s.step pool (.run w))) (h.exist.queue ft hmem f htask)
        (h.owner_of_queue hmem htask)
      refine hpass.congr (fun g => ?_) (fun g => by rw [hn])
      unfold owners
      rw [howned]

/-- **The section under the mutex.** -/
theorem scan_kept (h : x.Inv) (hfault : x.s.fault = none) (hfree : x.s.TakesFree pool (.run w))
    (hpc : (x.s.worker w).pc = .scan) : Kept pool x (.run w) x.held := by
  cases hfind : x.s.m_fibers.find? (x.s.takes (pool.tid w)) with
  | none => exact scan_none_kept h hfault hpc hfind
  | some ft => exact scan_some_kept h hfault hfree hpc hfind

end Scan

/-- The process ends. -/
theorem Inv.aborts (h : x.Inv) {a : SchedAct W} {e : Fault} (hstep : x.s.step pool a = x.s.abort e)
    (hframes : x.s.framesAfter x.frames a = x.frames) (hops : x.s.handleOps pool a = []) :
    Kept pool x a x.held :=
  h.same (h.phases.congr (by rw [hstep]; rfl) fun f => by rw [hstep]; rfl) hframes hops
    (fun f => Scheduler.owned_congr (by rw [hstep]; rfl) (by rw [hstep]; rfl) f) (by rw [hstep]; rfl)

/-- **A handle is dropped**, and the destructor does not refuse. -/
theorem Inv.drops (h : x.Inv) {a : SchedAct W} {f : FiberPtr} {held' : FiberPtr → ℕ}
    (hf : f < x.s.nfiber)
    (hphases : (x.s.step pool a).Phases (x.s.framesAfter x.frames a))
    (hops : x.s.handleOps pool a = [.drop f]) (hn : (x.s.step pool a).nfiber = x.s.nfiber)
    (howner : x.owners f = (x.s.step pool a).owned f + x.s.framesAfter x.frames a f + held' f + 1)
    (hothers : ∀ g, g ≠ f → (x.s.step pool a).owned g + x.s.framesAfter x.frames a g + held' g =
      x.owners g) : Kept pool x a held' := by
  refine ⟨hphases, ?_⟩
  rw [hops]
  have hdrop : (x.handles.op (refuses (x.s.step pool a)) (.drop f)).Sound
      (fun g => (x.s.step pool a).owned g + x.s.framesAfter x.frames a g + held' g)
      (· < x.s.nfiber) := by
    refine h.sound.drop _ hf howner hothers fun hzero hrefuses => hrefuses ?_
    have hslots := Scheduler.move_slots h.slots (Scheduler.step_move pool x.s a)
    exact Scheduler.quiet_of_unowned hslots hphases (by omega) (by omega)
  exact hdrop.congr (fun _ => rfl) fun g => by rw [hn]

/-- **A handle is copied** of a fiber that has one. -/
theorem Inv.copies (h : x.Inv) {a : SchedAct W} {f : FiberPtr} {held' : FiberPtr → ℕ}
    (hf : 0 < x.owners f)
    (hphases : (x.s.step pool a).Phases (x.s.framesAfter x.frames a))
    (hops : x.s.handleOps pool a = [.copy f]) (hn : (x.s.step pool a).nfiber = x.s.nfiber)
    (howner : (x.s.step pool a).owned f + x.s.framesAfter x.frames a f + held' f = x.owners f + 1)
    (hothers : ∀ g, g ≠ f → (x.s.step pool a).owned g + x.s.framesAfter x.frames a g + held' g =
      x.owners g) : Kept pool x a held' := by
  refine ⟨hphases, ?_⟩
  rw [hops]
  have hcopy : (x.handles.op (refuses (x.s.step pool a)) (.copy f)).Sound
      (fun g => (x.s.step pool a).owned g + x.s.framesAfter x.frames a g + held' g)
      (· < x.s.nfiber) := h.sound.copy _ hf howner hothers
  exact hcopy.congr (fun _ => rfl) fun g => by rw [hn]

/-- **A handle goes from one place to another.** -/
theorem Inv.passes (h : x.Inv) {a : SchedAct W} {f : FiberPtr} {held' : FiberPtr → ℕ}
    (hf : f < x.s.nfiber) (hpos : 0 < x.owners f)
    (hphases : (x.s.step pool a).Phases (x.s.framesAfter x.frames a))
    (hops : x.s.handleOps pool a = [.copy f, .drop f])
    (hn : (x.s.step pool a).nfiber = x.s.nfiber)
    (howners : ∀ g, (x.s.step pool a).owned g + x.s.framesAfter x.frames a g + held' g =
      x.owners g) : Kept pool x a held' := by
  refine ⟨hphases, ?_⟩
  rw [hops]
  have hpass := h.sound.pass (refuses (x.s.step pool a)) hf hpos
  exact hpass.congr howners fun g => by rw [hn]

/-- A worker without a task: it goes idle, or its locals are destroyed. -/
theorem picked_none_kept (h : x.Inv) (hfault : x.s.fault = none) {w : W}
    (hpc : (x.s.worker w).pc = .picked none) : Kept pool x (.run w) x.held := by
  have hhand : x.s.hand w = none := by
    unfold Scheduler.hand
    rw [hpc]
    rfl
  have hframes : x.s.framesAfter x.frames (.run w) = x.frames := by
    unfold Scheduler.framesAfter
    dsimp only
    rw [hpc]
  by_cases hidle : (x.s.worker w).idle = .TERM
  · have hstep : x.s.step pool (.run w) = x.s.setPc w .exited := by
      rw [step_run hfault]
      unfold Scheduler.runStep
      rw [hpc]
      exact if_pos hidle
    have hops : x.s.handleOps pool (.run w) = (x.s.worker w).cb_fiber.toList.map .drop := by
      unfold Scheduler.handleOps
      dsimp only
      rw [hpc]
      exact if_pos hidle
    have hworker : (x.s.step pool (.run w)).worker =
        Function.update x.s.worker w { x.s.worker w with pc := .exited } := by
      rw [hstep]
      rfl
    have hqueue : (x.s.step pool (.run w)).m_fibers = x.s.m_fibers := by rw [hstep]; rfl
    have hfiber : (x.s.step pool (.run w)).fiber = x.s.fiber := by rw [hstep]; rfl
    have hn : (x.s.step pool (.run w)).nfiber = x.s.nfiber := by rw [hstep]; rfl
    have hphases := h.phases.idle hworker hhand rfl hfiber
    cases hcb : (x.s.worker w).cb_fiber with
    | none =>
      rw [hcb] at hops
      refine h.same hphases hframes hops (fun f => Scheduler.owned_same hworker hqueue f ?_) hn
      simp [Worker.share, Worker.slot, hpc, Pc.owns, hcb, Pc.returned]
    | some c =>
      rw [hcb] at hops
      -- the worker had a handle of `c`, and has none
      have howned : ∀ g, (x.s.step pool (.run w)).owned g + (if c = g then 1 else 0) = x.s.owned g := by
        intro g
        have hsum := Scheduler.owned_update hworker g
        have hqueued : (x.s.step pool (.run w)).queued g = x.s.queued g := by
          unfold Scheduler.queued
          rw [hqueue]
        have hold : (x.s.worker w).share g = if c = g then 1 else 0 := by
          simp [Worker.share, Worker.slot, hpc, Pc.owns, Pc.returned, hcb]
        have hnew : ({ x.s.worker w with pc := Pc.exited } : Worker W).share g = 0 := rfl
        omega
      have hslot : c < x.s.nfiber := h.exist.slot w c hcb
      refine h.drops hslot (by rw [hframes]; exact hphases) hops hn ?_ ?_
      · have hc := howned c
        rw [if_pos rfl] at hc
        rw [hframes]
        unfold owners
        omega
      · intro g hg
        have hg' := howned g
        rw [if_neg (Ne.symm hg)] at hg'
        rw [hframes]
        unfold owners
        omega
  · have hstep : x.s.step pool (.run w) =
        { x.s.setPc w .idleIn with m_idleThreadCount := x.s.m_idleThreadCount + 1 } := by
      rw [step_run hfault]
      unfold Scheduler.runStep
      rw [hpc]
      exact if_neg hidle
    have hops : x.s.handleOps pool (.run w) = [] := by
      unfold Scheduler.handleOps
      dsimp only
      rw [hpc]
      exact if_neg hidle
    refine h.idles { x.s.worker w with pc := .idleIn } (by rw [hstep]; rfl) hhand rfl ?_ hframes hops
      (by rw [hstep]; rfl) (by rw [hstep]; rfl) (by rw [hstep]; rfl)
    exact Worker.share_congr rfl (by rw [hpc]; rfl) (by rw [hpc]; rfl)

/-! ## Workers with an entry from the queue -/

section Picked

variable {w : W} {ft : FiberAndThread W}

omit [Fintype W] [DecidableEq W] in
theorem frames_picked (hpc : (x.s.worker w).pc = .picked (some ft)) :
    x.s.framesAfter x.frames (.run w) = x.frames := by
  unfold Scheduler.framesAfter
  dsimp only
  rw [hpc]

theorem step_picked (hfault : x.s.fault = none) (hpc : (x.s.worker w).pc = .picked (some ft)) :
    x.s.step pool (.run w) = x.s.take w ft := by
  rw [step_run hfault]
  unfold Scheduler.runStep
  rw [hpc]

omit [Fintype W] [DecidableEq W] in
/-- With a callback it has no fiber in hand, and no handle but `cb_fiber`. -/
theorem picked_cb {cb : Callback} (hpc : (x.s.worker w).pc = .picked (some ft))
    (htask : ft.task = .cb cb) :
    x.s.hand w = none ∧ (x.s.worker w).pc.owns = none ∧ (x.s.worker w).pc.returned = false := by
  refine ⟨?_, ?_, ?_⟩
  · unfold Scheduler.hand
    rw [hpc]
    simp [Pc.hand, htask, FiberOrcb.fiber?]
  · rw [hpc]
    simp [Pc.owns, htask, FiberOrcb.fiber?]
  · rw [hpc]
    rfl

/-- It takes a fiber in hand. -/
theorem take_fiber_kept (h : x.Inv) (hfault : x.s.fault = none) {f : FiberPtr}
    (hpc : (x.s.worker w).pc = .picked (some ft)) (htask : ft.task = .fiber f) :
    Kept pool x (.run w) x.held := by
  have hhand : x.s.hand w = some f := by
    unfold Scheduler.hand
    rw [hpc]
    simp [Pc.hand, htask, FiberOrcb.fiber?]
  have hstep : x.s.step pool (.run w) =
      { x.s.setPc w (.task .enter f .fiber) with
        m_activeThreadCount := x.s.m_activeThreadCount + 1 } := by
    have hguard : (x.s.fiber f).m_state ≠ .TERM ∨ (x.s.fiber f).m_state ≠ .EXCEPT := by
      cases (x.s.fiber f).m_state <;> simp
    rw [step_picked hfault hpc]
    unfold Scheduler.take
    rw [htask]
    exact if_pos hguard
  have hops : x.s.handleOps pool (.run w) = [] := by
    unfold Scheduler.handleOps
    dsimp only
    rw [hpc]
    dsimp only
    rw [htask]
  have hbusy := h.phases.busy w f hhand
  rw [hpc] at hbusy
  refine h.goes { x.s.worker w with pc := .task .enter f .fiber } (by rw [hstep]; rfl) hhand
    (Or.inr rfl) ?_ (frames_picked hpc) hops (fun g _ => by rw [hstep]; rfl) (by rw [hstep]; rfl)
    (by rw [hstep]; rfl) (fun _ => by rw [hstep]; exact hbusy) (fun hnone => by cases hnone)
  refine Worker.share_congr rfl ?_ (by rw [hpc]; rfl)
  rw [hpc]
  simp [Pc.owns, htask, FiberOrcb.fiber?]

/-- `new Fiber(ft.cb)`: it has the only handle of the new fiber. -/
theorem new_fiber_kept (h : x.Inv) (hfault : x.s.fault = none) {cb : Callback}
    (hpc : (x.s.worker w).pc = .picked (some ft)) (htask : ft.task = .cb cb)
    (hcb : (x.s.worker w).cb_fiber = none) : Kept pool x (.run w) x.held := by
  obtain ⟨hhand, howns, -⟩ := picked_cb hpc htask
  have hframes := frames_picked hpc
  have hstep : x.s.step pool (.run w) =
      (x.s.newFiber (some { cb := cb, serial := some ft.serial })).setWorker w
        { x.s.worker w with pc := .task .enter x.s.nfiber .cb, cb_fiber := some x.s.nfiber } := by
    rw [step_picked hfault hpc]
    unfold Scheduler.take
    rw [htask]
    dsimp only
    rw [hcb]
  have hops : x.s.handleOps pool (.run w) = [.make x.s.nfiber] := by
    unfold Scheduler.handleOps
    dsimp only
    rw [hpc]
    dsimp only
    rw [htask, hcb]
  have hworker : (x.s.step pool (.run w)).worker = Function.update x.s.worker w
      { x.s.worker w with pc := .task .enter x.s.nfiber .cb, cb_fiber := some x.s.nfiber } := by
    rw [hstep]
    rfl
  have hqueue : (x.s.step pool (.run w)).m_fibers = x.s.m_fibers := by rw [hstep]; rfl
  have hcount : (x.s.step pool (.run w)).nfiber = x.s.nfiber + 1 := by rw [hstep]; rfl
  have hnew : (x.s.step pool (.run w)).fiber x.s.nfiber =
      Fiber.reset (some { cb := cb, serial := some ft.serial }) := by
    rw [hstep]
    exact Function.update_self _ _ _
  have hnobody : ∀ v, v ≠ w → x.s.hand v ≠ some x.s.nfiber := fun v _ hv =>
    Nat.lt_irrefl _ (h.exist.hand v _ hv)
  have hrest : Resting ((x.s.step pool (.run w)).fiber x.s.nfiber) (x.frames x.s.nfiber) := by
    rw [hnew]
    exact Or.inl ⟨rfl, rfl, (h.fresh _ (Nat.le_refl _)).1⟩
  have howned : ∀ g, (x.s.step pool (.run w)).owned g =
      x.s.owned g + if x.s.nfiber = g then 1 else 0 := by
    intro g
    have hsum := Scheduler.owned_update hworker g
    have hqueued : (x.s.step pool (.run w)).queued g = x.s.queued g := by
      unfold Scheduler.queued
      rw [hqueue]
    have hold : (x.s.worker w).share g = 0 := by
      simp [Worker.share, Worker.slot, howns, hcb]
    have hshare : ({ x.s.worker w with
        pc := Pc.task .enter x.s.nfiber .cb, cb_fiber := some x.s.nfiber } : Worker W).share g =
        if x.s.nfiber = g then 1 else 0 := by
      simp [Worker.share, Worker.slot, Pc.owns, Pc.returned]
    omega
  refine ⟨?_, ?_⟩
  · rw [hframes]
    refine h.phases.move hworker (Or.inl hhand) (Or.inr rfl) hnobody ?_ (fun _ _ => rfl)
      (fun _ => hrest) (fun _ => hrest)
    intro g hg
    rw [hstep]
    exact Function.update_of_ne hg _ _
  · rw [hops, hframes]
    have hzero := h.owners_new (Nat.le_refl x.s.nfiber)
    refine h.sound.make (refuses (x.s.step pool (.run w))) (Nat.lt_irrefl _) ?_ ?_ ?_
    · unfold owners at hzero
      rw [howned, if_pos rfl]
      omega
    · intro g hg
      rw [howned, if_neg (Ne.symm hg)]
      rfl
    · intro g
      rw [hcount]
      exact Nat.lt_succ_iff_lt_or_eq

omit [DecidableEq W] in
/-- A fiber at rest that `reset` accepts has no handle on its stack. -/
theorem Inv.frames_resettable (h : x.Inv) {c : FiberPtr} (hnobody : ∀ v, x.s.hand v ≠ some c)
    (hreset : (x.s.fiber c).resettable) : x.frames c = 0 := by
  rcases h.phases.rest c hnobody with ⟨-, -, hzero⟩ | ⟨-, hst, -⟩ | ⟨-, -, hzero⟩
  · exact hzero
  · rcases hst with hst | hst <;> rcases hreset with hr | hr | hr <;> rw [hst] at hr <;> cases hr
  · exact hzero

/-- `cb_fiber->reset(ft.cb)`. -/
theorem recycle_kept (h : x.Inv) (hfault : x.s.fault = none) (hfree : x.s.TakesFree pool (.run w))
    {cb : Callback} {c : FiberPtr} (hpc : (x.s.worker w).pc = .picked (some ft))
    (htask : ft.task = .cb cb) (hcb : (x.s.worker w).cb_fiber = some c)
    (hreset : (x.s.fiber c).resettable) (hops : x.s.handleOps pool (.run w) = []) :
    Kept pool x (.run w) x.held := by
  obtain ⟨hhand, howns, hexit⟩ := picked_cb hpc htask
  have hstep : x.s.step pool (.run w) = (x.s.setFiber c
      (Fiber.reset (some { cb := cb, serial := some ft.serial }))).setPc w (.task .enter c .cb) := by
    rw [step_picked hfault hpc]
    unfold Scheduler.take
    rw [htask]
    dsimp only
    rw [hcb]
    exact if_pos hreset
  have hworker : (x.s.step pool (.run w)).worker =
      Function.update x.s.worker w { x.s.worker w with pc := .task .enter c .cb } := by
    rw [hstep]
    rfl
  have hqueue : (x.s.step pool (.run w)).m_fibers = x.s.m_fibers := by rw [hstep]; rfl
  have hothers : ∀ v, v ≠ w → x.s.hand v ≠ some c := by
    have hnext : c ∈ x.s.nextTake pool w := by simp [Scheduler.nextTake, hpc, htask, hcb]
    exact hfree hfault c hnext
  have hnobody : ∀ v, x.s.hand v ≠ some c := by
    intro v
    by_cases hv : v = w
    · rw [hv, hhand]
      simp
    · exact hothers v hv
  have hrest : Resting ((x.s.step pool (.run w)).fiber c) (x.frames c) := by
    rw [hstep]
    show Resting (Function.update x.s.fiber c _ c) (x.frames c)
    rw [Function.update_self]
    exact Or.inl ⟨rfl, rfl, h.frames_resettable hnobody hreset⟩
  refine h.same (h.phases.move hworker (Or.inl hhand) (Or.inr rfl) hothers ?_ (fun _ _ => rfl)
    (fun _ => hrest) (fun _ => hrest)) (frames_picked hpc) hops
    (fun g => Scheduler.owned_same hworker hqueue g ?_) (by rw [hstep]; rfl)
  · intro g hg
    rw [hstep]
    exact Function.update_of_ne hg _ _
  · have howns' : (Pc.task (W := W) .enter c .cb).owns = none := rfl
    unfold Worker.share Worker.slot
    rw [howns, howns', hexit]
    rfl

/-- **A worker with an entry from the queue.** -/
theorem picked_kept (h : x.Inv) (hfault : x.s.fault = none) (hfree : x.s.TakesFree pool (.run w))
    (hpc : (x.s.worker w).pc = .picked (some ft)) : Kept pool x (.run w) x.held := by
  cases htask : ft.task with
  | fiber f => exact take_fiber_kept h hfault hpc htask
  | cb cb =>
    cases hcb : (x.s.worker w).cb_fiber with
    | none => exact new_fiber_kept h hfault hpc htask hcb
    | some c =>
      have hops : x.s.handleOps pool (.run w) = [] := by
        unfold Scheduler.handleOps
        dsimp only
        rw [hpc]
        dsimp only
        rw [htask, hcb]
      by_cases hreset : (x.s.fiber c).resettable
      · exact recycle_kept h hfault hfree hpc htask hcb hreset hops
      · have hstep : x.s.step pool (.run w) = x.s.abort .assertion := by
          rw [step_picked hfault hpc]
          unfold Scheduler.take
          rw [htask]
          dsimp only
          rw [hcb]
          exact if_neg hreset
        exact h.aborts hstep (frames_picked hpc) hops

end Picked

/-! ## Steps of workers with a fiber in hand -/

section InHand

variable {w : W} {stage : Stage} {f : FiberPtr} {b : Branch}

omit [Fintype W] [DecidableEq W] in
theorem hand_task (hpc : (x.s.worker w).pc = .task stage f b) : x.s.hand w = some f := by
  unfold Scheduler.hand
  rw [hpc]
  rfl

omit [DecidableEq W] in
theorem Inv.phase_task (h : x.Inv) (hpc : (x.s.worker w).pc = .task stage f b) :
    Phase (x.s.fiber f) (x.frames f) stage := by
  have hbusy := h.phases.busy w f (hand_task hpc)
  rw [hpc] at hbusy
  exact hbusy

omit [DecidableEq W] in
theorem Inv.free_task (h : x.Inv) (hpc : (x.s.worker w).pc = .task stage f b) :
    ∀ v, v ≠ w → x.s.hand v ≠ some f :=
  fun v hv hf => hv (h.hands v w f hf (hand_task hpc))

theorem step_task (hfault : x.s.fault = none) (hpc : (x.s.worker w).pc = .task stage f b) :
    x.s.step pool (.run w) = x.s.execute w f b stage := by
  rw [step_run hfault]
  unfold Scheduler.runStep
  rw [hpc]

omit [Fintype W] [DecidableEq W] in
theorem frames_task (hpc : (x.s.worker w).pc = .task stage f b) (hstage : stage ≠ .switch) :
    x.s.framesAfter x.frames (.run w) = x.frames := by
  unfold Scheduler.framesAfter
  dsimp only
  rw [hpc]
  cases stage with
  | switch => exact absurd rfl hstage
  | _ => rfl

omit [Fintype W] [DecidableEq W] in
/-- From stage to stage a worker keeps its handles. -/
theorem share_task (hpc : (x.s.worker w).pc = .task stage f b) (stage' : Stage) (g : FiberPtr) :
    ({ x.s.worker w with pc := .task stage' f b } : Worker W).share g = (x.s.worker w).share g := by
  unfold Worker.share Worker.slot
  rw [hpc]
  cases b <;> rfl

/-- The next stage, with nothing done to handles. -/
theorem Inv.onward (h : x.Inv) (hpc : (x.s.worker w).pc = .task stage f b) (hstage : stage ≠ .switch)
    (stage' : Stage) (hworker : (x.s.step pool (.run w)).worker =
      Function.update x.s.worker w { x.s.worker w with pc := .task stage' f b })
    (hops : x.s.handleOps pool (.run w) = [])
    (hfiber : ∀ g, g ≠ f → (x.s.step pool (.run w)).fiber g = x.s.fiber g)
    (hqueue : (x.s.step pool (.run w)).m_fibers = x.s.m_fibers)
    (hn : (x.s.step pool (.run w)).nfiber = x.s.nfiber)
    (hphase : Phase ((x.s.step pool (.run w)).fiber f) (x.frames f) stage') :
    Kept pool x (.run w) x.held :=
  h.goes _ hworker (hand_task hpc) (Or.inr rfl) (share_task hpc stage') (frames_task hpc hstage) hops
    hfiber hqueue hn (fun _ => hphase) (fun hnone => by cases hnone)

/-- `swapIn` sets the state. -/
theorem enter_kept (h : x.Inv) (hfault : x.s.fault = none)
    (hpc : (x.s.worker w).pc = .task .enter f b) : Kept pool x (.run w) x.held := by
  have hops : x.s.handleOps pool (.run w) = [] := by
    unfold Scheduler.handleOps
    dsimp only
    rw [hpc]
  by_cases hexec : (x.s.fiber f).m_state = .EXEC
  · refine h.aborts (e := .assertion) ?_ (frames_task hpc (by simp)) hops
    rw [step_task hfault hpc]
    exact if_pos hexec
  · have hstep : x.s.step pool (.run w) = (x.s.setState f .EXEC).setPc w (.task .switch f b) := by
      rw [step_task hfault hpc]
      exact if_neg hexec
    have hrest : Resting (x.s.fiber f) (x.frames f) := h.phase_task hpc
    have hfb : (x.s.step pool (.run w)).fiber f = { x.s.fiber f with m_state := .EXEC } := by
      rw [hstep]
      exact Function.update_self _ _ _
    refine h.onward hpc (by simp) .switch (by rw [hstep]; rfl) hops ?_ (by rw [hstep]; rfl)
      (by rw [hstep]; rfl) ?_
    · intro g hg
      rw [hstep]
      exact Function.update_of_ne hg _ _
    · rw [hfb]
      refine ⟨rfl, ?_⟩
      rcases hrest with ⟨hctx, -, hcount⟩ | ⟨hctx, -, hcount⟩ | ⟨hctx, -, hcount⟩
      · have hne : (x.s.fiber f).m_ctx ≠ .saved := by rw [hctx]; simp
        rw [if_neg hne]
        exact hcount
      · rw [if_pos hctx]
        exact hcount
      · have hne : (x.s.fiber f).m_ctx ≠ .saved := by rw [hctx]; simp
        rw [if_neg hne]
        exact hcount

theorem step_switch (hfault : x.s.fault = none) (hpc : (x.s.worker w).pc = .task .switch f b) :
    x.s.step pool (.run w) = x.s.switch w f b := step_task hfault hpc

/-- **It goes on in fiber `f`**, which then has one handle on its stack. -/
theorem Inv.runs (h : x.Inv) (hpc : (x.s.worker w).pc = .task .switch f b) {n : ℕ}
    (hworker : (x.s.step pool (.run w)).worker =
      Function.update x.s.worker w { x.s.worker w with pc := .task .running f b })
    (hfiber : (x.s.step pool (.run w)).fiber = x.s.fiber)
    (hframes : x.s.framesAfter x.frames (.run w) = Function.update x.frames f n) (hone : n = 1) :
    (x.s.step pool (.run w)).Phases (x.s.framesAfter x.frames (.run w)) := by
  obtain ⟨hexec, -⟩ := h.phase_task hpc
  refine h.phases.move hworker (Or.inr (hand_task hpc)) (Or.inr rfl) (h.free_task hpc)
    (fun g _ => by rw [hfiber]) ?_ ?_ (fun hnone => by cases hnone)
  · intro g hg
    rw [hframes, Function.update_of_ne hg]
  · intro _
    rw [hfiber, hframes, Function.update_self]
    exact ⟨hexec, hone⟩

/-- `MainFunc` begins and takes a handle. -/
theorem begin_kept (h : x.Inv) (hfault : x.s.fault = none)
    (hpc : (x.s.worker w).pc = .task .switch f b) (hctx : (x.s.fiber f).m_ctx = .entry) {job : Job}
    (hcb : (x.s.fiber f).m_cb = some job) : Kept pool x (.run w) x.held := by
  obtain ⟨-, hcount⟩ := h.phase_task hpc
  have hzero : x.frames f = 0 := by
    rw [hcount, hctx]
    exact if_neg (by simp)
  have hstep : x.s.step pool (.run w) = { x.s.setPc w (.task .running f b) with
      started := x.s.started ++ job.serial.toList } := by
    rw [step_switch hfault hpc]
    unfold Scheduler.switch
    rw [hctx, hcb]
  have hframes : x.s.framesAfter x.frames (.run w) =
      Function.update x.frames f (x.frames f + 1) := by
    unfold Scheduler.framesAfter
    dsimp only
    rw [hpc]
    dsimp only
    rw [hctx, hcb]
  have hops : x.s.handleOps pool (.run w) = [.copy f] := by
    unfold Scheduler.handleOps
    dsimp only
    rw [hpc]
    dsimp only
    rw [hctx, hcb]
  have hworker : (x.s.step pool (.run w)).worker =
      Function.update x.s.worker w { x.s.worker w with pc := .task .running f b } := by
    rw [hstep]
    rfl
  have howned : ∀ g, (x.s.step pool (.run w)).owned g = x.s.owned g := fun g =>
    Scheduler.owned_same hworker (by rw [hstep]; rfl) g (share_task hpc .running g)
  have hphases := h.runs hpc hworker (by rw [hstep]; rfl) hframes (by omega)
  refine h.copies (h.owner_of_hand (hand_task hpc)) hphases hops (by rw [hstep]; rfl) ?_ ?_
  · rw [howned, hframes, Function.update_self]
    unfold owners
    omega
  · intro g hg
    rw [howned, hframes, Function.update_of_ne hg]
    rfl

/-- `MainFunc` calls an empty function, which throws. -/
theorem empty_kept (h : x.Inv) (hfault : x.s.fault = none)
    (hpc : (x.s.worker w).pc = .task .switch f b) (hctx : (x.s.fiber f).m_ctx = .entry)
    (hcb : (x.s.fiber f).m_cb = none) : Kept pool x (.run w) x.held := by
  obtain ⟨-, hcount⟩ := h.phase_task hpc
  have hzero : x.frames f = 0 := by
    rw [hcount, hctx]
    exact if_neg (by simp)
  have hstep : x.s.step pool (.run w) =
      (x.s.setState f .EXCEPT).setPc w (.task (.leaving .ended) f b) := by
    rw [step_switch hfault hpc]
    unfold Scheduler.switch
    rw [hctx, hcb]
  have hframes : x.s.framesAfter x.frames (.run w) = x.frames := by
    unfold Scheduler.framesAfter
    dsimp only
    rw [hpc]
    dsimp only
    rw [hctx, hcb]
  have hops : x.s.handleOps pool (.run w) = [.copy f, .drop f] := by
    unfold Scheduler.handleOps
    dsimp only
    rw [hpc]
    dsimp only
    rw [hctx, hcb]
  have hworker : (x.s.step pool (.run w)).worker =
      Function.update x.s.worker w { x.s.worker w with pc := .task (.leaving .ended) f b } := by
    rw [hstep]
    rfl
  have howned : ∀ g, (x.s.step pool (.run w)).owned g = x.s.owned g := fun g =>
    Scheduler.owned_same hworker (by rw [hstep]; rfl) g (share_task hpc (.leaving .ended) g)
  refine h.passes (h.exist.hand w f (hand_task hpc)) (h.owner_of_hand (hand_task hpc)) ?_ hops
    (by rw [hstep]; rfl) ?_
  · rw [hframes]
    refine h.phases.move hworker (Or.inr (hand_task hpc)) (Or.inr rfl) (h.free_task hpc) ?_
      (fun _ _ => rfl) ?_ (fun hnone => by cases hnone)
    · intro g hg
      rw [hstep]
      exact Function.update_of_ne hg _ _
    · intro _
      have hfb : (x.s.step pool (.run w)).fiber f = { x.s.fiber f with m_state := .EXCEPT } := by
        rw [hstep]
        exact Function.update_self _ _ _
      rw [hfb]
      exact ⟨Or.inr rfl, hzero⟩
  · intro g
    rw [howned, hframes]
    rfl

/-- A yield returns and drops its handle. -/
theorem resume_kept (h : x.Inv) (hfault : x.s.fault = none)
    (hpc : (x.s.worker w).pc = .task .switch f b) (hctx : (x.s.fiber f).m_ctx = .saved) :
    Kept pool x (.run w) x.held := by
  obtain ⟨-, hcount⟩ := h.phase_task hpc
  have htwo : x.frames f = 2 := by
    rw [hcount, hctx]
    exact if_pos rfl
  have hstep : x.s.step pool (.run w) = x.s.setPc w (.task .running f b) := by
    rw [step_switch hfault hpc]
    unfold Scheduler.switch
    rw [hctx]
  have hframes : x.s.framesAfter x.frames (.run w) =
      Function.update x.frames f (x.frames f - 1) := by
    unfold Scheduler.framesAfter
    dsimp only
    rw [hpc]
    dsimp only
    rw [hctx]
  have hops : x.s.handleOps pool (.run w) = [.drop f] := by
    unfold Scheduler.handleOps
    dsimp only
    rw [hpc]
    dsimp only
    rw [hctx]
  have hworker : (x.s.step pool (.run w)).worker =
      Function.update x.s.worker w { x.s.worker w with pc := .task .running f b } := by
    rw [hstep]
    rfl
  have howned : ∀ g, (x.s.step pool (.run w)).owned g = x.s.owned g := fun g =>
    Scheduler.owned_same hworker (by rw [hstep]; rfl) g (share_task hpc .running g)
  have hphases := h.runs hpc hworker (by rw [hstep]; rfl) hframes (by omega)
  refine h.drops (h.exist.hand w f (hand_task hpc)) hphases hops (by rw [hstep]; rfl) ?_ ?_
  · rw [howned, hframes, Function.update_self]
    unfold owners
    omega
  · intro g hg
    rw [howned, hframes, Function.update_of_ne hg]
    rfl

/-- **The switch**: `MainFunc` takes a handle, or a yield returns and drops its own. -/
theorem switch_kept (h : x.Inv) (hfault : x.s.fault = none)
    (hpc : (x.s.worker w).pc = .task .switch f b) : Kept pool x (.run w) x.held := by
  cases hctx : (x.s.fiber f).m_ctx with
  | entry =>
    cases hcb : (x.s.fiber f).m_cb with
    | some job => exact begin_kept h hfault hpc hctx hcb
    | none => exact empty_kept h hfault hpc hctx hcb
  | saved => exact resume_kept h hfault hpc hctx
  | ended =>
    -- past the end of `MainFunc`
    refine h.aborts (e := .assertion) ?_ ?_ ?_
    · rw [step_switch hfault hpc]
      unfold Scheduler.switch
      rw [hctx]
    · unfold Scheduler.framesAfter
      dsimp only
      rw [hpc]
      dsimp only
      rw [hctx]
    · unfold Scheduler.handleOps
      dsimp only
      rw [hpc]
      dsimp only
      rw [hctx]

/-- `swapOut` saves the context. -/
theorem leaving_kept (h : x.Inv) (hfault : x.s.fault = none) {ctx : Ctx}
    (hpc : (x.s.worker w).pc = .task (.leaving ctx) f b) : Kept pool x (.run w) x.held := by
  have hstep : x.s.step pool (.run w) =
      (x.s.setFiber f { x.s.fiber f with m_ctx := ctx }).setPc w (.task .back f b) :=
    step_task hfault hpc
  have hops : x.s.handleOps pool (.run w) = [] := by
    unfold Scheduler.handleOps
    dsimp only
    rw [hpc]
  have hfb : (x.s.step pool (.run w)).fiber f = { x.s.fiber f with m_ctx := ctx } := by
    rw [hstep]
    exact Function.update_self _ _ _
  have hphase := h.phase_task hpc
  refine h.onward hpc (by simp) .back (by rw [hstep]; rfl) hops ?_ (by rw [hstep]; rfl)
    (by rw [hstep]; rfl) ?_
  · intro g hg
    rw [hstep]
    exact Function.update_of_ne hg _ _
  · rw [hfb]
    cases ctx with
    | entry => exact hphase.elim
    | saved =>
      obtain ⟨hst, htwo⟩ := hphase
      exact ⟨Or.inr (Or.inl ⟨rfl, hst, htwo⟩), by simp⟩
    | ended =>
      obtain ⟨hst, hzero⟩ := hphase
      exact ⟨Or.inr (Or.inr ⟨rfl, hst, hzero⟩), by simp⟩

/-- Back in `run()`. -/
theorem back_kept (h : x.Inv) (hfault : x.s.fault = none)
    (hpc : (x.s.worker w).pc = .task .back f b) : Kept pool x (.run w) x.held := by
  have hstep : x.s.step pool (.run w) = { x.s.setPc w (.task .fixup f b) with
      m_activeThreadCount := x.s.m_activeThreadCount - 1 } := step_task hfault hpc
  have hops : x.s.handleOps pool (.run w) = [] := by
    unfold Scheduler.handleOps
    dsimp only
    rw [hpc]
  have hphase : Phase (x.s.fiber f) (x.frames f) .back := h.phase_task hpc
  have hfiber : (x.s.step pool (.run w)).fiber = x.s.fiber := by rw [hstep]; rfl
  exact h.onward hpc (by simp) .fixup (by rw [hstep]; rfl) hops (fun g _ => by rw [hfiber])
    (by rw [hstep]; rfl) (by rw [hstep]; rfl) (by rw [hfiber]; exact hphase)

omit [Fintype W] [DecidableEq W] in
/-- What a worker has, beside `cb_fiber`, while it executes a fiber from the queue. -/
theorem share_of_fiber (hpc : (x.s.worker w).pc = .task stage f .fiber) (g : FiberPtr) :
    (x.s.worker w).share g =
      (if f = g then 1 else 0) + if (x.s.worker w).cb_fiber = some g then 1 else 0 := by
  simp [Worker.share, Worker.slot, hpc, Pc.owns, Pc.returned]

omit [DecidableEq W] in
/-- What a worker has while it executes a callback. -/
theorem Inv.share_of_cb (h : x.Inv) (hpc : (x.s.worker w).pc = .task stage f .cb) (g : FiberPtr) :
    (x.s.worker w).share g = if f = g then 1 else 0 := by
  have hslot : (x.s.worker w).cb_fiber = some f := h.slots w stage f hpc
  simp [Worker.share, Worker.slot, hpc, Pc.owns, Pc.returned, hslot]

/-- **The worker lets go of fiber `f`** and of its handle: `wk` are its locals then. -/
theorem Inv.lets_go (h : x.Inv) (hpc : (x.s.worker w).pc = .task stage f b) (hstage : stage ≠ .switch)
    (wk : Worker W) (hworker : (x.s.step pool (.run w)).worker = Function.update x.s.worker w wk)
    (hhand : wk.pc.hand = none)
    (hshare : ∀ g, wk.share g + (if f = g then 1 else 0) = (x.s.worker w).share g)
    (hops : x.s.handleOps pool (.run w) = [.drop f])
    (hfiber : ∀ g, g ≠ f → (x.s.step pool (.run w)).fiber g = x.s.fiber g)
    (hqueue : (x.s.step pool (.run w)).m_fibers = x.s.m_fibers)
    (hn : (x.s.step pool (.run w)).nfiber = x.s.nfiber)
    (hrest : Resting ((x.s.step pool (.run w)).fiber f) (x.frames f)) :
    Kept pool x (.run w) x.held := by
  have hframes : x.s.framesAfter x.frames (.run w) = x.frames := frames_task hpc hstage
  have howned : ∀ g, (x.s.step pool (.run w)).owned g + (if f = g then 1 else 0) = x.s.owned g := by
    intro g
    have hsum := Scheduler.owned_update hworker g
    have hqueued : (x.s.step pool (.run w)).queued g = x.s.queued g := by
      unfold Scheduler.queued
      rw [hqueue]
    have hg := hshare g
    omega
  refine h.drops (h.exist.hand w f (hand_task hpc)) ?_ hops hn ?_ ?_
  · rw [hframes]
    refine h.phases.move hworker (Or.inr (hand_task hpc)) (Or.inl hhand) (h.free_task hpc) hfiber
      (fun _ _ => rfl) ?_ (fun _ => hrest)
    intro hsome
    rw [hhand] at hsome
    cases hsome
  · have hf := howned f
    rw [if_pos rfl] at hf
    rw [hframes]
    unfold owners
    omega
  · intro g hg
    have hg' := howned g
    rw [if_neg (Ne.symm hg)] at hg'
    rw [hframes]
    unfold owners
    omega

omit [Fintype W] [DecidableEq W] in
/-- A fiber that was switched out has ended, or is to go on. -/
theorem resting_left {fb : Fiber} {n : ℕ} (h : Phase fb n .fixup) :
    (fb.m_ctx = .saved ∧ (fb.m_state = .HOLD ∨ fb.m_state = .READY) ∧ n = 2) ∨
      (fb.m_ctx = .ended ∧ (fb.m_state = .TERM ∨ fb.m_state = .EXCEPT) ∧ n = 0) := by
  obtain ⟨hrest, hne⟩ := h
  rcases hrest with ⟨hctx, -, -⟩ | hsaved | hended
  · exact absurd hctx hne
  · exact Or.inl hsaved
  · exact Or.inr hended

/-- A fiber that is neither ready nor at its end is held, and the worker drops its handle. -/
theorem held_kept (h : x.Inv) (hfault : x.s.fault = none) (hpc : (x.s.worker w).pc = .task .fixup f b)
    (hctx : (x.s.fiber f).m_ctx = .saved) (hst : (x.s.fiber f).m_state = .HOLD)
    (htwo : x.frames f = 2) : Kept pool x (.run w) x.held := by
  have hfixup : x.s.step pool (.run w) = x.s.fixup w f b := step_task hfault hpc
  have hops : x.s.handleOps pool (.run w) = [.drop f] := by
    unfold Scheduler.handleOps
    dsimp only
    rw [hpc]
    dsimp only
    rw [hst]
  have hrest : ∀ {s' : Scheduler W}, s'.fiber = (x.s.setState f .HOLD).fiber →
      Resting (s'.fiber f) (x.frames f) := by
    intro s' hs'
    have hfb : s'.fiber f = { x.s.fiber f with m_state := .HOLD } := by
      rw [hs']
      exact Function.update_self _ _ _
    rw [hfb]
    exact Or.inr (Or.inl ⟨hctx, Or.inl rfl, htwo⟩)
  cases b with
  | fiber =>
    have hstep : x.s.step pool (.run w) = (x.s.setState f .HOLD).setPc w .scan := by
      rw [hfixup]
      unfold Scheduler.fixup
      rw [hst]
    refine h.lets_go hpc (by simp) { x.s.worker w with pc := .scan } (by rw [hstep]; rfl) rfl ?_
      hops ?_ (by rw [hstep]; rfl) (by rw [hstep]; rfl) (hrest (by rw [hstep]; rfl))
    · intro g
      have hold := share_of_fiber hpc g
      have hnew : ({ x.s.worker w with pc := .scan } : Worker W).share g =
          if (x.s.worker w).cb_fiber = some g then 1 else 0 := by
        simp [Worker.share, Worker.slot, Pc.owns, Pc.returned]
      omega
    · intro g hg
      rw [hstep]
      exact Function.update_of_ne hg _ _
  | cb =>
    have hstep : x.s.step pool (.run w) = (x.s.setState f .HOLD).setWorker w
        { x.s.worker w with pc := .scan, cb_fiber := none } := by
      rw [hfixup]
      unfold Scheduler.fixup
      rw [hst]
    refine h.lets_go hpc (by simp) { x.s.worker w with pc := .scan, cb_fiber := none }
      (by rw [hstep]; rfl) rfl ?_ hops ?_ (by rw [hstep]; rfl) (by rw [hstep]; rfl)
      (hrest (by rw [hstep]; rfl))
    · intro g
      have hold := h.share_of_cb hpc g
      have hnew : ({ x.s.worker w with pc := .scan, cb_fiber := none } : Worker W).share g = 0 := by
        simp [Worker.share, Worker.slot, Pc.owns, Pc.returned]
      omega
    · intro g hg
      rw [hstep]
      exact Function.update_of_ne hg _ _

/-- A ready one stays in hand, to be queued again. -/
theorem ready_kept (h : x.Inv) (hfault : x.s.fault = none) (hpc : (x.s.worker w).pc = .task .fixup f b)
    (hctx : (x.s.fiber f).m_ctx = .saved) (hst : (x.s.fiber f).m_state = .READY) :
    Kept pool x (.run w) x.held := by
  have hphase : Phase (x.s.fiber f) (x.frames f) .fixup := h.phase_task hpc
  have hstep : x.s.step pool (.run w) = x.s.setPc w (.task .requeue f b) := by
    rw [step_task hfault hpc]
    show x.s.fixup w f b = _
    unfold Scheduler.fixup
    rw [hst]
  have hops : x.s.handleOps pool (.run w) = [] := by
    unfold Scheduler.handleOps
    dsimp only
    rw [hpc]
    dsimp only
    rw [hst]
  have hfiber : (x.s.step pool (.run w)).fiber = x.s.fiber := by rw [hstep]; rfl
  refine h.onward hpc (by simp) .requeue (by rw [hstep]; rfl) hops (fun g _ => by rw [hfiber])
    (by rw [hstep]; rfl) (by rw [hstep]; rfl) ?_
  rw [hfiber]
  exact ⟨hphase.1, hctx⟩

/-- Of one that has ended the worker drops its handle, or keeps it and resets the fiber. -/
theorem ended_kept (h : x.Inv) (hfault : x.s.fault = none) (hpc : (x.s.worker w).pc = .task .fixup f b)
    (hst : (x.s.fiber f).m_state = .TERM ∨ (x.s.fiber f).m_state = .EXCEPT) (hzero : x.frames f = 0) :
    Kept pool x (.run w) x.held := by
  have hphase : Phase (x.s.fiber f) (x.frames f) .fixup := h.phase_task hpc
  have hfixup : x.s.step pool (.run w) = x.s.fixup w f b := step_task hfault hpc
  cases b with
  | fiber =>
    have hstep : x.s.step pool (.run w) = x.s.setPc w .scan := by
      rw [hfixup]
      unfold Scheduler.fixup
      rcases hst with hst | hst <;> rw [hst]
    have hops : x.s.handleOps pool (.run w) = [.drop f] := by
      unfold Scheduler.handleOps
      dsimp only
      rw [hpc]
      dsimp only
      rcases hst with hst | hst <;> rw [hst]
    have hfiber : (x.s.step pool (.run w)).fiber = x.s.fiber := by rw [hstep]; rfl
    refine h.lets_go hpc (by simp) { x.s.worker w with pc := .scan } (by rw [hstep]; rfl) rfl ?_
      hops (fun g _ => by rw [hfiber]) (by rw [hstep]; rfl) (by rw [hstep]; rfl) ?_
    · intro g
      have hold := share_of_fiber hpc g
      have hnew : ({ x.s.worker w with pc := .scan } : Worker W).share g =
          if (x.s.worker w).cb_fiber = some g then 1 else 0 := by
        simp [Worker.share, Worker.slot, Pc.owns, Pc.returned]
      omega
    · rw [hfiber]
      exact hphase.1
  | cb =>
    -- `cb_fiber->reset(nullptr)`
    have hstep : x.s.step pool (.run w) =
        (x.s.setFiber f (Fiber.reset none)).setPc w .scan := by
      rw [hfixup]
      unfold Scheduler.fixup
      rcases hst with hst | hst <;> rw [hst]
    have hops : x.s.handleOps pool (.run w) = [] := by
      unfold Scheduler.handleOps
      dsimp only
      rw [hpc]
      dsimp only
      rcases hst with hst | hst <;> rw [hst]
    refine h.goes { x.s.worker w with pc := .scan } (by rw [hstep]; rfl) (hand_task hpc) (Or.inl rfl)
      ?_ (frames_task hpc (by simp)) hops ?_ (by rw [hstep]; rfl) (by rw [hstep]; rfl)
      (fun hsome => by cases hsome) ?_
    · intro g
      have hold := h.share_of_cb hpc g
      have hslot : (x.s.worker w).cb_fiber = some f := h.slots w _ f hpc
      have hnew : ({ x.s.worker w with pc := .scan } : Worker W).share g =
          if f = g then 1 else 0 := by
        simp [Worker.share, Worker.slot, Pc.owns, Pc.returned, hslot]
      exact hnew.trans hold.symm
    · intro g hg
      rw [hstep]
      exact Function.update_of_ne hg _ _
    · intro _
      have hfb : (x.s.step pool (.run w)).fiber f = Fiber.reset none := by
        rw [hstep]
        exact Function.update_self _ _ _
      rw [hfb]
      exact Or.inl ⟨rfl, rfl, hzero⟩

/-- **After `swapIn`**: the fiber is queued again, or kept for the next callback, or the worker drops
its handle. -/
theorem fixup_kept (h : x.Inv) (hfault : x.s.fault = none)
    (hpc : (x.s.worker w).pc = .task .fixup f b) : Kept pool x (.run w) x.held := by
  have hphase : Phase (x.s.fiber f) (x.frames f) .fixup := h.phase_task hpc
  rcases resting_left hphase with ⟨hctx, hhold | hready, htwo⟩ | ⟨-, hend, hzero⟩
  · exact held_kept h hfault hpc hctx hhold htwo
  · exact ready_kept h hfault hpc hctx hready
  · exact ended_kept h hfault hpc hend hzero

/-- **Queued again**: the queue has the handle that the worker had. -/
theorem requeue_kept (h : x.Inv) (hfault : x.s.fault = none)
    (hpc : (x.s.worker w).pc = .task .requeue f b) : Kept pool x (.run w) x.held := by
  have hphase : Phase (x.s.fiber f) (x.frames f) .requeue := h.phase_task hpc
  have hrequeue : x.s.step pool (.run w) = x.s.requeue w f b := step_task hfault hpc
  have hframes : x.s.framesAfter x.frames (.run w) = x.frames := frames_task hpc (by simp)
  have hops : x.s.handleOps pool (.run w) = [.copy f, .drop f] := by
    unfold Scheduler.handleOps
    dsimp only
    rw [hpc]
  have hqueued : ∀ g, (x.s.push (.fiber f) (-1) none).queued g =
      x.s.queued g + if f = g then 1 else 0 := by
    intro g
    rw [Scheduler.queued_push]
    simp [FiberOrcb.fiber?]
  have hmove : ∀ wk : Worker W, (x.s.step pool (.run w)).worker = Function.update x.s.worker w wk →
      (x.s.step pool (.run w)).m_fibers = (x.s.push (.fiber f) (-1) none).m_fibers →
      (x.s.step pool (.run w)).fiber = x.s.fiber → (x.s.step pool (.run w)).nfiber = x.s.nfiber →
      wk.pc.hand = none → (∀ g, wk.share g + (if f = g then 1 else 0) = (x.s.worker w).share g) →
      Kept pool x (.run w) x.held := by
    intro wk hworker hqueue hfiber hn hhand hshare
    refine h.passes (h.exist.hand w f (hand_task hpc)) (h.owner_of_hand (hand_task hpc)) ?_ hops hn ?_
    · rw [hframes]
      refine h.phases.move hworker (Or.inr (hand_task hpc)) (Or.inl hhand) (h.free_task hpc)
        (fun g _ => by rw [hfiber]) (fun _ _ => rfl) ?_ ?_
      · intro hsome
        rw [hhand] at hsome
        cases hsome
      · intro _
        rw [hfiber]
        exact hphase.1
    · intro g
      have hsum := Scheduler.owned_update hworker g
      have hq : (x.s.step pool (.run w)).queued g = x.s.queued g + if f = g then 1 else 0 := by
        rw [← hqueued]
        unfold Scheduler.queued
        rw [hqueue]
      have hg := hshare g
      rw [hframes]
      unfold owners
      omega
  cases b with
  | fiber =>
    refine hmove { x.s.worker w with pc := .scan } (by rw [hrequeue]; rfl)
      (by rw [hrequeue]; rfl) (by rw [hrequeue]; rfl) (by rw [hrequeue]; rfl) rfl ?_
    intro g
    have hold := share_of_fiber hpc g
    have hnew : ({ x.s.worker w with pc := .scan } : Worker W).share g =
        if (x.s.worker w).cb_fiber = some g then 1 else 0 := by
      simp [Worker.share, Worker.slot, Pc.owns, Pc.returned]
    omega
  | cb =>
    refine hmove { x.s.worker w with pc := .scan, cb_fiber := none } (by rw [hrequeue]; rfl)
      (by rw [hrequeue]; rfl) (by rw [hrequeue]; rfl) (by rw [hrequeue]; rfl) rfl ?_
    intro g
    have hold := h.share_of_cb hpc g
    have hnew : ({ x.s.worker w with pc := .scan, cb_fiber := none } : Worker W).share g = 0 := by
      simp [Worker.share, Worker.slot, Pc.owns, Pc.returned]
    omega

/-! ## Steps of user code -/

theorem step_user (hfault : x.s.fault = none) (w : W) (u : UserAct) :
    x.s.step pool (.user w u) = x.s.userStep w u := by
  unfold Scheduler.step
  rw [hfault]
  rfl

/-- **A yield** has its own handle on the stack. -/
theorem yield_kept (h : x.Inv) (hfault : x.s.fault = none)
    (hpc : (x.s.worker w).pc = .task .running f b) {u : UserAct} {st : FiberState}
    (hu : u = .yieldToHold ∧ st = .HOLD ∨ u = .yieldToReady ∧ st = .READY) :
    Kept pool x (.user w u) x.held := by
  obtain ⟨-, hone⟩ := h.phase_task hpc
  have hpos : 0 < x.owners f := h.owner_of_hand (hand_task hpc)
  have hstep : x.s.step pool (.user w u) =
      (x.s.setState f st).setPc w (.task (.leaving .saved) f b) := by
    rw [step_user hfault]
    unfold Scheduler.userStep
    rw [hpc]
    rcases hu with ⟨rfl, rfl⟩ | ⟨rfl, rfl⟩ <;> rfl
  have hframes : x.s.framesAfter x.frames (.user w u) =
      Function.update x.frames f (x.frames f + 1) := by
    unfold Scheduler.framesAfter
    dsimp only
    rw [hpc]
    rcases hu with ⟨rfl, -⟩ | ⟨rfl, -⟩ <;> rfl
  have hops : x.s.handleOps pool (.user w u) = [.copy f] := by
    unfold Scheduler.handleOps
    dsimp only
    rw [hpc]
    rcases hu with ⟨rfl, -⟩ | ⟨rfl, -⟩ <;> rfl
  have hworker : (x.s.step pool (.user w u)).worker =
      Function.update x.s.worker w { x.s.worker w with pc := .task (.leaving .saved) f b } := by
    rw [hstep]
    rfl
  have hfb : (x.s.step pool (.user w u)).fiber f = { x.s.fiber f with m_state := st } := by
    rw [hstep]
    exact Function.update_self _ _ _
  have howned : ∀ g, (x.s.step pool (.user w u)).owned g = x.s.owned g := fun g =>
    Scheduler.owned_same hworker (by rw [hstep]; rfl) g (share_task hpc (.leaving .saved) g)
  refine h.copies hpos ?_ hops (by rw [hstep]; rfl) ?_ ?_
  · refine h.phases.move hworker (Or.inr (hand_task hpc)) (Or.inr rfl) (h.free_task hpc) ?_ ?_ ?_
      (fun hnone => by cases hnone)
    · intro g hg
      rw [hstep]
      exact Function.update_of_ne hg _ _
    · intro g hg
      rw [hframes, Function.update_of_ne hg]
    · intro _
      rw [hfb, hframes, Function.update_self]
      refine ⟨?_, by omega⟩
      rcases hu with ⟨-, rfl⟩ | ⟨-, rfl⟩
      · exact Or.inl rfl
      · exact Or.inr rfl
  · rw [howned, hframes, Function.update_self]
    unfold owners
    omega
  · intro g hg
    rw [howned, hframes, Function.update_of_ne hg]
    rfl

/-- **The end of `MainFunc`**: `cur.reset()`. -/
theorem end_kept (h : x.Inv) (hfault : x.s.fault = none)
    (hpc : (x.s.worker w).pc = .task .running f b) {u : UserAct} (hu : u = .finish ∨ u = .throw) :
    Kept pool x (.user w u) x.held := by
  obtain ⟨-, hone⟩ := h.phase_task hpc
  have hlt : f < x.s.nfiber := h.exist.hand w f (hand_task hpc)
  obtain ⟨fb, hfb, hstep⟩ : ∃ fb : Fiber, (fb.m_state = .TERM ∨ fb.m_state = .EXCEPT) ∧
      x.s.step pool (.user w u) = (x.s.setFiber f fb).setPc w (.task (.leaving .ended) f b) := by
    rw [step_user hfault]
    unfold Scheduler.userStep
    rw [hpc]
    rcases hu with rfl | rfl
    · exact ⟨_, Or.inl rfl, rfl⟩
    · exact ⟨_, Or.inr rfl, rfl⟩
  have hframes : x.s.framesAfter x.frames (.user w u) =
      Function.update x.frames f (x.frames f - 1) := by
    unfold Scheduler.framesAfter
    dsimp only
    rw [hpc]
    rcases hu with rfl | rfl <;> rfl
  have hops : x.s.handleOps pool (.user w u) = [.drop f] := by
    unfold Scheduler.handleOps
    dsimp only
    rw [hpc]
    rcases hu with rfl | rfl <;> rfl
  have hworker : (x.s.step pool (.user w u)).worker =
      Function.update x.s.worker w { x.s.worker w with pc := .task (.leaving .ended) f b } := by
    rw [hstep]
    rfl
  have hnew : (x.s.step pool (.user w u)).fiber f = fb := by
    rw [hstep]
    exact Function.update_self _ _ _
  have howned : ∀ g, (x.s.step pool (.user w u)).owned g = x.s.owned g := fun g =>
    Scheduler.owned_same hworker (by rw [hstep]; rfl) g (share_task hpc (.leaving .ended) g)
  refine h.drops hlt ?_ hops (by rw [hstep]; rfl) ?_ ?_
  · refine h.phases.move hworker (Or.inr (hand_task hpc)) (Or.inr rfl) (h.free_task hpc) ?_ ?_ ?_
      (fun hnone => by cases hnone)
    · intro g hg
      rw [hstep]
      exact Function.update_of_ne hg _ _
    · intro g hg
      rw [hframes, Function.update_of_ne hg]
    · intro _
      rw [hnew, hframes, Function.update_self]
      exact ⟨hfb, by omega⟩
  · rw [howned, hframes, Function.update_self]
    unfold owners
    omega
  · intro g hg
    rw [howned, hframes, Function.update_of_ne hg]
    rfl

end InHand

/-! ## Calls -/

omit [DecidableEq W] in
/-- User code has handles only of fibers that were made. -/
theorem Inv.held_exist (h : x.Inv) {f : FiberPtr} (hf : 0 < x.held f) : f < x.s.nfiber := by
  by_contra hge
  have hzero := (h.fresh f (Nat.not_lt.1 hge)).2
  omega

/-! ## Calls of user code -/

section Calls

variable {a : SchedAct W}

omit [DecidableEq W] in
/-- What is passed to `scheduler()` exists. -/
theorem Inv.has_exist (h : x.Inv) {c : SchedCall} (hhas : x.has c) : ∀ f ∈ c.fibers, f < x.s.nfiber := by
  intro f hf
  have hpos : 0 < c.fibers.count f := List.count_pos_iff.2 hf
  have hle := hhas f hf
  exact h.held_exist (by omega)

/-- The scheduler's copy is the queue's. -/
theorem Inv.call_one (h : x.Inv) (pusher : Option W) (fc : Option FiberOrcb) (thread : ℤ)
    (hstep : x.s.step pool a = x.s.call pusher (.scheduler fc thread))
    (hframes : x.s.framesAfter x.frames a = x.frames)
    (hops : x.s.handleOps pool a = x.s.callOps (.scheduler fc thread)) (hhas : x.has (.scheduler fc thread)) :
    Kept pool x a x.held := by
  have hqueues := Scheduler.scheduleNoLock_queues x.s pusher fc thread (h.has_exist hhas)
  have hphases : (x.s.step pool a).Phases (x.s.framesAfter x.frames a) := by
    rw [hframes, hstep]
    exact h.phases.congr hqueues.worker fun f => by rw [← hqueues.fiber]; rfl
  have hn : (x.s.step pool a).nfiber = x.s.nfiber := by rw [hstep]; exact hqueues.nfiber
  have howned : ∀ g, (x.s.step pool a).owned g =
      x.s.owned g + (SchedCall.fibers (.scheduler fc thread)).count g := by
    intro g
    rw [hstep]
    exact hqueues.owned g
  have hnothing : SchedCall.fibers (.scheduler fc thread) = [] →
      Kept pool x a x.held := by
    intro hnil
    refine h.same (by rw [hframes] at hphases; exact hphases) hframes ?_ (fun g => ?_) hn
    · rw [hops]
      unfold Scheduler.callOps
      dsimp only
      rw [hnil]
      rfl
    · rw [howned, hnil]
      rfl
  rcases fc with _ | ⟨f⟩ | ⟨cb⟩
  · exact hnothing rfl
  · have hheld : 0 < x.held f := by
      have hle := hhas f (List.mem_singleton.2 rfl)
      have hone : (SchedCall.fibers (.scheduler (some (.fiber f)) thread)).count f = 1 :=
        List.count_singleton_self
      omega
    refine h.copies (f := f) ?_ hphases hops hn ?_ ?_
    · unfold owners
      omega
    · have hone : (SchedCall.fibers (.scheduler (some (.fiber f)) thread)).count f = 1 :=
        List.count_singleton_self
      rw [howned, hframes, hone]
      unfold owners
      omega
    · intro g hg
      have hzero : (SchedCall.fibers (.scheduler (some (.fiber f)) thread)).count g = 0 :=
        List.count_eq_zero.2 fun hmem => hg (List.mem_singleton.1 hmem)
      rw [howned, hframes, hzero]
      rfl
  · exact hnothing rfl

/-- A batch leaves the vector's handles in the queue. -/
theorem Inv.call_batch (h : x.Inv) (pusher : Option W) (fcs : List (Option FiberOrcb))
    (hstep : x.s.step pool a = x.s.call pusher (.batch fcs))
    (hframes : x.s.framesAfter x.frames a = x.frames)
    (hops : x.s.handleOps pool a = x.s.callOps (.batch fcs)) (hhas : x.has (.batch fcs)) :
    Kept pool x a (x.s.heldAfterCall x.held (.batch fcs)) := by
  have hqueues := Scheduler.batch_queues pusher fcs x.s (h.has_exist hhas)
  have hphases : (x.s.step pool a).Phases (x.s.framesAfter x.frames a) := by
    rw [hframes, hstep]
    exact h.phases.congr hqueues.worker fun f => by rw [← hqueues.fiber]
  refine ⟨hphases, ?_⟩
  rw [hops, hframes]
  refine h.sound.congr (fun g => ?_) (fun g => by rw [hstep, hqueues.nfiber])
  have howned : (x.s.step pool a).owned g = x.s.owned g + (SchedCall.fibers (.batch fcs)).count g := by
    rw [hstep]
    exact hqueues.owned g
  have hle : (SchedCall.fibers (.batch fcs)).count g ≤ x.held g := by
    by_cases hg : g ∈ SchedCall.fibers (.batch fcs)
    · exact hhas g hg
    · rw [List.count_eq_zero.2 hg]
      exact Nat.zero_le _
  have hheld : x.s.heldAfterCall x.held (.batch fcs) g =
      x.held g - (SchedCall.fibers (.batch fcs)).count g := rfl
  rw [howned, hheld]
  unfold owners
  omega

/-- A new fiber has one handle. -/
theorem Inv.call_new (h : x.Inv) (pusher : Option W) (cb : Option Callback)
    (hstep : x.s.step pool a = x.s.call pusher (.newFiber cb))
    (hframes : x.s.framesAfter x.frames a = x.frames)
    (hops : x.s.handleOps pool a = x.s.callOps (.newFiber cb)) :
    Kept pool x a (x.s.heldAfterCall x.held (.newFiber cb)) := by
  have hnobody : ∀ v, x.s.hand v ≠ some x.s.nfiber := fun v hv =>
    Nat.lt_irrefl _ (h.exist.hand v _ hv)
  have hworker : (x.s.step pool a).worker = x.s.worker := by rw [hstep]; rfl
  have hn : (x.s.step pool a).nfiber = x.s.nfiber + 1 := by rw [hstep]; rfl
  have hqueue : (x.s.step pool a).m_fibers = x.s.m_fibers := by rw [hstep]; rfl
  have howned : ∀ g, (x.s.step pool a).owned g = x.s.owned g :=
    Scheduler.owned_congr hworker hqueue
  have hzero := h.owners_new (Nat.le_refl x.s.nfiber)
  refine ⟨?_, ?_⟩
  · rw [hframes]
    refine h.phases.fresh hworker hnobody ?_ ?_
    · intro g hg
      rw [hstep]
      exact Function.update_of_ne hg _ _
    · have hfb : (x.s.step pool a).fiber x.s.nfiber =
          Fiber.reset (cb.map fun f => { cb := f, serial := none }) := by
        rw [hstep]
        exact Function.update_self _ _ _
      rw [hfb]
      exact Or.inl ⟨rfl, rfl, (h.fresh _ (Nat.le_refl _)).1⟩
  · rw [hops, hframes]
    refine h.sound.make (refuses (x.s.step pool a)) (Nat.lt_irrefl _) ?_ ?_ ?_
    · have hheld : x.s.heldAfterCall x.held (.newFiber cb) x.s.nfiber = 1 :=
        Function.update_self _ _ _
      unfold owners at hzero
      rw [howned, hheld]
      omega
    · intro g hg
      have hheld : x.s.heldAfterCall x.held (.newFiber cb) g = x.held g :=
        Function.update_of_ne hg _ _
      rw [howned, hheld]
      rfl
    · intro g
      rw [hn]
      exact Nat.lt_succ_iff_lt_or_eq

/-- **A call of user code**, which has the handles. -/
theorem Inv.calls (h : x.Inv) (pusher : Option W) {c : SchedCall}
    (hstep : x.s.step pool a = x.s.call pusher c)
    (hframes : x.s.framesAfter x.frames a = x.frames)
    (hops : x.s.handleOps pool a = x.s.callOps c) (hhas : x.has c) :
    Kept pool x a (x.s.heldAfterCall x.held c) := by
  cases c with
  | scheduler fc thread => exact h.call_one pusher fc thread hstep hframes hops hhas
  | batch fcs => exact h.call_batch pusher fcs hstep hframes hops hhas
  | newFiber cb => exact h.call_new pusher cb hstep hframes hops

end Calls

/-- The handles of user code after a step of the scheduler. -/
def heldAfter (x : FiberLife W) (a : SchedAct W) : FiberPtr → ℕ :=
  ((x.s.callOf a).map (x.s.heldAfterCall x.held)).getD x.held

/-- A step of user code. -/
theorem user_kept (h : x.Inv) (hfault : x.s.fault = none) (w : W) (u : UserAct)
    (henabled : x.enabled (.user w u)) : Kept pool x (.user w u) (x.heldAfter (.user w u)) := by
  by_cases hrun : ∃ f b, (x.s.worker w).pc = .task .running f b
  · obtain ⟨f, b, hpc⟩ := hrun
    cases u with
    | yieldToHold => exact yield_kept h hfault hpc (Or.inl ⟨rfl, rfl⟩)
    | yieldToReady => exact yield_kept h hfault hpc (Or.inr ⟨rfl, rfl⟩)
    | finish => exact end_kept h hfault hpc (Or.inl rfl)
    | throw => exact end_kept h hfault hpc (Or.inr rfl)
    | call c =>
      have hcall : x.s.callOf (.user w (.call c)) = some c := by
        unfold Scheduler.callOf
        dsimp only
        rw [hpc]
      have hheld : x.heldAfter (.user w (.call c)) = x.s.heldAfterCall x.held c := by
        unfold heldAfter
        rw [hcall]
        rfl
      rw [hheld]
      refine h.calls (some w) ?_ ?_ ?_ (henabled c hcall)
      · rw [step_user hfault]
        unfold Scheduler.userStep
        rw [hpc]
      · unfold Scheduler.framesAfter
        dsimp only
        rw [hpc]
      · unfold Scheduler.handleOps
        dsimp only
        rw [hpc]
  · -- no task executes, so nothing is done
    have hno : ∀ f b, (x.s.worker w).pc ≠ .task .running f b := fun f b hpc => hrun ⟨f, b, hpc⟩
    have hstep : x.s.step pool (.user w u) = x.s := by
      rw [step_user hfault]
      unfold Scheduler.userStep
      split
      · rename_i f b hpc
        exact absurd hpc (hno f b)
      · rfl
    have hheld : x.heldAfter (.user w u) = x.held := by
      unfold heldAfter Scheduler.callOf
      cases u with
      | call c =>
        dsimp only
        split
        · rename_i f b hpc
          exact absurd hpc (hno f b)
        · rfl
      | _ => rfl
    rw [hheld]
    refine h.same (by rw [hstep]; exact h.phases) ?_ ?_ (fun f => by rw [hstep]) (by rw [hstep])
    · unfold Scheduler.framesAfter
      dsimp only
      split
      · rename_i f b hpc
        exact absurd hpc (hno f b)
      · rfl
    · unfold Scheduler.handleOps
      dsimp only
      split
      · rename_i f b hpc
        exact absurd hpc (hno f b)
      · rfl

/-- A step of a worker in `run()`. -/
theorem run_kept (h : x.Inv) (hfault : x.s.fault = none) {w : W}
    (hfree : x.s.TakesFree pool (.run w)) : Kept pool x (.run w) x.held := by
  cases hpc : (x.s.worker w).pc with
  | out => exact idle_kept h hfault (Or.inl hpc)
  | exited => exact idle_kept h hfault (Or.inr (Or.inl hpc))
  | idleIn => exact idle_kept h hfault (Or.inr (Or.inr (Or.inl hpc)))
  | idle => exact idle_kept h hfault (Or.inr (Or.inr (Or.inr (Or.inl hpc))))
  | idleOut => exact idle_kept h hfault (Or.inr (Or.inr (Or.inr (Or.inr hpc))))
  | scan => exact scan_kept h hfault hfree hpc
  | picked ft =>
    cases ft with
    | none => exact picked_none_kept h hfault hpc
    | some ft => exact picked_kept h hfault hfree hpc
  | task stage f b =>
    cases stage with
    | enter => exact enter_kept h hfault hpc
    | switch => exact switch_kept h hfault hpc
    | leaving ctx => exact leaving_kept h hfault hpc
    | back => exact back_kept h hfault hpc
    | fixup => exact fixup_kept h hfault hpc
    | requeue => exact requeue_kept h hfault hpc
    | running =>
      have hstep : x.s.step pool (.run w) = x.s := step_task hfault hpc
      refine h.same (by rw [hstep]; exact h.phases) (frames_task hpc (by simp)) ?_
        (fun f => by rw [hstep]) (by rw [hstep])
      unfold Scheduler.handleOps
      dsimp only
      rw [hpc]

/-- **Every step of the scheduler** that takes no fiber of another worker. -/
theorem sched_kept (h : x.Inv) (hfault : x.s.fault = none) {a : SchedAct W} (henabled : x.enabled a)
    (hfree : x.s.TakesFree pool a) : Kept pool x a (x.heldAfter a) := by
  cases a with
  | run w => exact run_kept h hfault hfree
  | user w u => exact user_kept h hfault w u henabled
  | call c =>
    refine h.calls none ?_ rfl rfl (henabled c rfl)
    unfold Scheduler.step
    rw [hfault]
    rfl
  | stop =>
    have hstep : x.s.step pool .stop = x.s.stopStep pool := by
      unfold Scheduler.step
      rw [hfault]
      rfl
    have hframe := Scheduler.stopStep_frame pool x.s
    refine h.same ?_ rfl rfl (fun f => ?_) (by rw [hstep]; exact hframe.nfiber)
    · rw [hstep]
      exact h.phases.congr hframe.worker fun f => by rw [hframe.fiber]
    · rw [hstep]
      exact Scheduler.owned_congr hframe.worker hframe.fibers f

/-! ## The invariant -/

omit [Fintype W] [DecidableEq W] in
/-- Only the stack of a fiber in hand changes. -/
theorem framesAfter_of_free {a : SchedAct W} {f : FiberPtr} (hf : ∀ w, x.s.hand w ≠ some f) :
    x.s.framesAfter x.frames a f = x.frames f := by
  have htask : ∀ {w : W} {stage : Stage} {g : FiberPtr} {b : Branch},
      (x.s.worker w).pc = .task stage g b → f ≠ g := by
    intro w stage g b hpc hfg
    subst hfg
    exact hf w (hand_task hpc)
  unfold Scheduler.framesAfter
  cases a with
  | call c => rfl
  | stop => rfl
  | run w =>
    dsimp only
    cases hpc : (x.s.worker w).pc with
    | task stage g b =>
      cases stage with
      | switch =>
        dsimp only
        cases (x.s.fiber g).m_ctx with
        | entry =>
          cases (x.s.fiber g).m_cb with
          | none => rfl
          | some job => exact Function.update_of_ne (htask hpc) _ _
        | saved => exact Function.update_of_ne (htask hpc) _ _
        | ended => rfl
      | _ => rfl
    | _ => rfl
  | user w u =>
    dsimp only
    cases hpc : (x.s.worker w).pc with
    | task stage g b =>
      cases stage with
      | running =>
        cases u with
        | call c => rfl
        | _ => exact Function.update_of_ne (htask hpc) _ _
      | _ => rfl
    | _ => rfl

/-- No fiber is unmade. -/
theorem move_nfiber {s s' : Scheduler W} {a : SchedAct W} (h : Scheduler.Move pool s a s') :
    s.nfiber ≤ s'.nfiber := by
  have hcall : ∀ (pusher : Option W) (c : SchedCall), s.nfiber ≤ (s.call pusher c).nfiber :=
    fun pusher c => Scheduler.call_inv (I := fun t : Scheduler W => s.nfiber ≤ t.nfiber)
      (fun _ _ _ ht _ => ht) (fun _ _ ht => Nat.le_succ_of_le ht) (Nat.le_refl _) c
  cases h with
  | callOut c => exact hcall none c
  | callIn w f b c hpc => exact hcall (some w) c
  | stop => exact Nat.le_of_eq (Scheduler.stopStep_frame pool s).nfiber.symm
  | create w ft cb hpc htask hslot => exact Nat.le_succ _
  | _ => exact Nat.le_refl _

/-- User code gets no handle of a fiber that is not made. -/
theorem Inv.held_fresh (h : x.Inv) (hfault : x.s.fault = none) {a : SchedAct W} {f : FiberPtr}
    (hf : (x.s.step pool a).nfiber ≤ f) : x.heldAfter a f = 0 := by
  have hle := move_nfiber (Scheduler.step_move pool x.s a)
  have hzero : x.held f = 0 := (h.fresh f (Nat.le_trans hle hf)).2
  unfold heldAfter
  cases hcall : x.s.callOf a with
  | none => exact hzero
  | some c =>
    cases c with
    | scheduler fc thread => exact hzero
    | batch fcs =>
      show x.held f - _ = 0
      omega
    | newFiber cb =>
      have hn : (x.s.step pool a).nfiber = x.s.nfiber + 1 := by
        unfold Scheduler.callOf at hcall
        cases a with
        | run w => cases hcall
        | stop => cases hcall
        | call c =>
          cases hcall
          unfold Scheduler.step
          rw [hfault]
          rfl
        | user w u =>
          cases u with
          | call c =>
            dsimp only at hcall
            split at hcall
            · rename_i hpc
              cases hcall
              rw [step_user hfault]
              unfold Scheduler.userStep
              rw [hpc]
              rfl
            · cases hcall
          | _ => cases hcall
      have hne : f ≠ x.s.nfiber := by
        rintro rfl
        exact Nat.not_succ_le_self _ (hn ▸ hf)
      exact (Function.update_of_ne hne _ _).trans hzero

/-- **A step of the scheduler keeps the invariant.** -/
theorem sched_inv (h : x.Inv) (hfault : x.s.fault = none) {a : SchedAct W} (henabled : x.enabled a)
    (hfree : x.s.TakesFree pool a) : (x.sched pool a).Inv := by
  have hkept : Kept pool x a (x.heldAfter a) := sched_kept h hfault henabled hfree
  have hmove := Scheduler.step_move pool x.s a
  have hsched : x.sched pool a =
      { x with
        s := x.s.step pool a
        handles := (x.s.handleOps pool a).foldl (Shared.op (refuses (x.s.step pool a))) x.handles
        frames := x.s.framesAfter x.frames a
        held := x.heldAfter a } := if_neg (h.derefs_alive a)
  rw [hsched]
  refine ⟨hkept.sound, Scheduler.move_exist h.exist hmove,
    Scheduler.move_exclusive h.exist h.hands hmove hfault hfree, hkept.phases,
    Scheduler.move_slots h.slots hmove, fun f hf => ?_, h.intact⟩
  have hle : x.s.nfiber ≤ f := Nat.le_trans (move_nfiber hmove) hf
  refine ⟨?_, h.held_fresh hfault hf⟩
  have hnobody : ∀ w, x.s.hand w ≠ some f := fun w hw => Nat.not_lt.2 hle (h.exist.hand w f hw)
  show x.s.framesAfter x.frames a f = 0
  rw [framesAfter_of_free hnobody]
  exact (h.fresh f hle).1

omit [DecidableEq W] in
/-- User code copies or drops handles of `f`. -/
theorem Inv.holds (h : x.Inv) {f : FiberPtr} (hf : f < x.s.nfiber) (n : ℕ) {handles : Shared FiberPtr}
    (hsound : handles.Sound
      (fun g => x.s.owned g + x.frames g + Function.update x.held f n g) (· < x.s.nfiber)) :
    Inv { x with handles := handles, held := Function.update x.held f n } := by
  refine ⟨hsound, h.exist, h.hands, h.phases, h.slots, fun g hg => ?_, h.intact⟩
  have hne : g ≠ f := by
    rintro rfl
    exact Nat.not_lt.2 hg hf
  obtain ⟨hframes, hheld⟩ := h.fresh g hg
  exact ⟨hframes, (Function.update_of_ne hne _ _).trans hheld⟩

omit [DecidableEq W] in
/-- User code copies a handle that there is. -/
theorem Inv.copy (h : x.Inv) {f : FiberPtr} (hf : f < x.s.nfiber) (hpos : 0 < x.owners f) :
    Inv { x with
      handles := x.handles.op (refuses x.s) (.copy f)
      held := Function.update x.held f (x.held f + 1) } := by
  refine h.holds hf _ (h.sound.copy _ hpos ?_ ?_)
  · rw [Function.update_self]
    unfold owners
    omega
  · intro g hg
    rw [Function.update_of_ne hg]
    rfl

omit [DecidableEq W] in
/-- **User code drops a handle**: if it was the last, the fiber is at rest with nothing on its
stack. -/
theorem Inv.drop (h : x.Inv) {f : FiberPtr} (hpos : 0 < x.held f) :
    Inv { x with
      handles := x.handles.op (refuses x.s) (.drop f)
      held := Function.update x.held f (x.held f - 1) } := by
  refine h.holds (h.held_exist hpos) _ (h.sound.drop _ (h.held_exist hpos) ?_ ?_ ?_)
  · rw [Function.update_self]
    unfold owners
    omega
  · intro g hg
    rw [Function.update_of_ne hg]
    rfl
  · intro hzero hrefuses
    exact hrefuses (Scheduler.quiet_of_unowned h.slots h.phases (by omega) (by omega))

/-- No step of the scheduler takes a fiber that another worker has in hand. -/
def TakesFree (pool : Pool W) (x : FiberLife W) : LifeAct W → Prop
  | .sched a => x.s.TakesFree pool a
  | _ => True

instance (pool : Pool W) (x : FiberLife W) : DecidablePred (x.TakesFree pool)
  | .sched _ => inferInstanceAs (Decidable (Scheduler.TakesFree _ _ _))
  | .getThis _ => isTrue trivial
  | .copy _ => isTrue trivial
  | .drop _ => isTrue trivial

/-- **Every step keeps the invariant.** -/
theorem step_inv (h : x.Inv) {a : LifeAct W} (hfree : x.TakesFree pool a) : (x.step pool a).Inv := by
  unfold step
  split
  · exact h
  · rename_i hgo
    have hfault : x.s.fault = none := by
      by_contra hne
      refine hgo ?_
      rw [Option.isSome_iff_ne_none.2 hne]
      rfl
    cases a with
    | sched a =>
      dsimp only
      split
      · rename_i henabled
        exact sched_inv h hfault henabled hfree
      · exact h
    | getThis w =>
      dsimp only
      split
      · rename_i f b hpc
        have hhand : x.s.hand w = some f := hand_task hpc
        exact h.copy (h.exist.hand w f hhand) (h.owner_of_hand hhand)
      · exact h
    | copy f =>
      dsimp only
      split
      · exact h
      · rename_i hheld
        refine h.copy (h.held_exist (Nat.pos_of_ne_zero hheld)) ?_
        unfold owners
        omega
    | drop f =>
      dsimp only
      split
      · exact h
      · rename_i hheld
        exact h.drop (Nat.pos_of_ne_zero hheld)

theorem init_inv (pool : Pool W) : (init pool).Inv := by
  have hhand : ∀ w, (init pool).s.hand w = none := by
    intro w
    show Pc.hand (if _ then _ else _) = none
    split <;> rfl
  have hshare : ∀ w f, ((init pool).s.worker w).share f = 0 := by
    intro w f
    show Worker.share { pc := if _ then _ else _ } f = 0
    split <;> rfl
  have howners : ∀ f, (init pool).owners f = 0 := by
    intro f
    have hsum : ∑ w, ((init pool).s.worker w).share f = 0 := Finset.sum_eq_zero fun w _ => hshare w f
    unfold owners Scheduler.owned
    rw [hsum]
    rfl
  refine ⟨?_, Scheduler.init_exist pool, ?_, ?_, ?_, fun _ _ => ⟨rfl, rfl⟩, rfl⟩
  · exact Shared.empty_sound.congr howners fun f => ⟨fun hf => Nat.not_lt_zero f hf, False.elim⟩
  · intro w w' f hw
    rw [hhand] at hw
    cases hw
  · refine ⟨fun f _ => Or.inl ⟨rfl, rfl, rfl⟩, fun w f hw => ?_⟩
    rw [hhand] at hw
    cases hw
  · intro w stage f hpc
    have hnone : ((init pool).s.worker w).pc.hand = none := hhand w
    rw [hpc] at hnone
    cases hnone

/-! ## Fibers live as long as they are needed -/

/-- **What holds of the handles in a run.** -/
structure Safe (x : FiberLife W) : Prop where
  /-- no step has used a fiber after it was destroyed -/
  intact : x.dangling = false
  /-- no destructor has failed its assertion -/
  unbroken : x.handles.broken = false
  /-- each count is the number of handles there are -/
  count : ∀ f, x.handles.use_count f = x.owners f
  /-- a fiber is destroyed when its last handle is dropped, and not before -/
  destroyed : ∀ f, f ∈ x.handles.destroyed ↔ f < x.s.nfiber ∧ x.owners f = 0
  once : x.handles.destroyed.Nodup
  /-- the queue and the workers name no fiber that was destroyed -/
  named : ∀ f ∈ x.handles.destroyed, (∀ w, x.s.hand w ≠ some f ∧ (x.s.worker w).slot ≠ some f) ∧
    ∀ ft ∈ x.s.m_fibers, ft.task ≠ .fiber f
  /-- a suspended fiber, whose stack is in use, is not destroyed -/
  suspended : ∀ f, (x.s.fiber f).m_ctx = .saved → f ∉ x.handles.destroyed

omit [DecidableEq W] in
theorem Inv.safe (h : x.Inv) : x.Safe := by
  refine ⟨h.intact, h.sound.unbroken, h.sound.count, h.sound.destroyed, h.sound.once, ?_, ?_⟩
  · intro f hf
    have hdead : ¬ 0 < x.owners f := fun hpos => h.sound.alive hpos hf
    exact ⟨fun w => ⟨fun hw => hdead (h.owner_of_hand hw), fun hw => hdead (h.owner_of_slot hw)⟩,
      fun ft hft htask => hdead (h.owner_of_queue hft htask)⟩
  · intro f hctx hf
    obtain ⟨-, hzero⟩ := (h.sound.destroyed f).1 hf
    have hnobody : ∀ w, x.s.hand w ≠ some f := by
      intro w hw
      have hpos := h.owner_of_hand hw
      omega
    unfold owners at hzero
    rcases h.phases.rest f hnobody with ⟨hentry, -, -⟩ | ⟨-, -, htwo⟩ | ⟨hended, -, -⟩
    · rw [hctx] at hentry
      cases hentry
    · omega
    · rw [hctx] at hended
      cases hended

/-- **In every run whose steps take no fiber that another worker has in hand** the handles of the
scheduler, of the fibers' own stacks and of user code keep each fiber for as long as it is used. -/
theorem fibers_live {W : Type} [Fintype W] [DecidableEq W] (pool : Pool W) (acts : List (LifeAct W))
    (h : Along (step pool) (TakesFree pool) (init pool) acts) :
    ∀ x ∈ trace (step pool) (init pool) acts, x.Safe := by
  intro x hx
  have hinv : x.Inv :=
    trace_inv_of (I := Inv) (fun _ _ hx hfree => step_inv hx hfree) acts (init_inv pool) h x hx
  exact hinv.safe

/-- A fiber yields on one thread and is finished by the other; user code drops its handle while
the fiber is suspended, so that the queue has the last one. -/
def handedOver : List (LifeAct Bool) :=
  [.sched (.call (.newFiber (some 7))), .sched (.call (.scheduler (some (.fiber 0)) (-1)))] ++
    List.replicate 4 (.sched (.run true)) ++ [.sched (.user true .yieldToReady)] ++
    List.replicate 4 (.sched (.run true)) ++ [.drop 0] ++ List.replicate 4 (.sched (.run false)) ++
    [.sched (.user false .finish)] ++ List.replicate 3 (.sched (.run false))

theorem fibers_live_handed_over :
    (run (step Scheduler.twoThreads) (init Scheduler.twoThreads) handedOver).handles.destroyed = [0] ∧
      Along (step Scheduler.twoThreads) (TakesFree Scheduler.twoThreads) (init Scheduler.twoThreads)
        handedOver ∧
      ∀ x ∈ trace (step Scheduler.twoThreads) (init Scheduler.twoThreads) handedOver, x.Safe :=
  ⟨by decide, by decide, fibers_live Scheduler.twoThreads handedOver (by decide)⟩

end FiberLife

end Coroutine
