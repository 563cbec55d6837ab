import Coroutine.Proof.FiberSwitch
import Coroutine.Spec.FiberLaw

/-!
# The coroutine law

A callback that yields `k` times takes `k + 1` calls of `swapIn` from the main fiber of its thread,
if `Scheduler::GetMainFiber()` points to a fiber there; if not, the first call already has no place
to save its context in.

* `Ready`: the fiber is suspended before segment `i`, as far as a `swapIn` reads it.
* `resume_yield`, `resume_end`: one call, for a segment that yields and for the last.
* `law_of_live`, `no_law`: the law, with and without a main fiber of the scheduler.
* `coroutine_law_iff`: both. `reachable_law_iff` says which threads have one, and `destroyed_no_law`
  that a thread loses it with its scheduler.
-/

namespace Coroutine

open Lib

/-- The state in which segment `i` leaves its fiber. -/
def Script.stateAfter (cb : Script) (i : ℕ) : FiberState :=
  match cb.yields[i]? with
  | some .toHold => .HOLD
  | some .toReady => .READY
  | none => if cb.throws then .EXCEPT else .TERM

namespace LawThread

variable {s : LawThread} {f m : FiberPtr} {cb : Script} {i : ℕ}

/-- **The call of `swapIn` that runs segment `i`** of fiber `f` returns to the main fiber, in state
`s'`: no fault, the place after this call, the state the segment leaves, and one more segment. -/
structure Returns (cb : Script) (f : FiberPtr) (i : ℕ) (s s' : LawThread) : Prop where
  resumes : ∃ fuel, (s.swapIn f).resume fuel = some s'
  fault : s'.thread.fault = none
  here : s'.thread.here = { stack := .thread, point := .swapped s.thread.swapIns.length .fiber f }
  state : (s'.thread.fiber f).m_state = cb.stateAfter i
  ran : s'.ran = s.ran ++ [(f, i)]

/-- **The coroutine law** of a thread and a callback: of a fresh fiber, each call of `swapIn` up to
one more than there are yields runs the next segment and returns. -/
def CoroutineLaw (s : LawThread) (cb : Script) : Prop :=
  ∃ t : ℕ → LawThread, t 0 = s.newFiber cb ∧
    ∀ i ≤ cb.yields.length, Returns cb s.thread.nfiber i (t i) (t (i + 1))

/-! ## One call -/

/-- `f` is suspended before segment `i`, and `m` is the fiber whose context `swapIn` saves. -/
structure Ready (cb : Script) (f m : FiberPtr) (i : ℕ) (s : LawThread) : Prop where
  fault : s.thread.fault = none
  here : s.thread.here.stack = .thread
  main : s.thread.mainFiber = some m
  live : s.Live m
  ne : f ≠ m
  state : (s.thread.fiber f).m_state ≠ .EXEC
  code : (s.thread.fiber f).m_cb = some .user
  ctx : (s.thread.fiber f).m_ctx =
    { stack := .fiber f, point := if i = 0 then .mainFunc else .user f }
  script : s.script f = cb
  segment : s.segment f = i

theorem switch_live (hmain : s.thread.mainFiber = some m) (hlive : s.Live m) (t : FiberThread) :
    s.switch t = { s with thread := t } := by
  have hnot : ¬ s.Dangling := by
    rintro ⟨m', hm', hdead⟩
    rw [hmain] at hm'
    cases hm'
    exact hdead hlive
  unfold switch
  rw [if_neg hnot]

/-- A fresh fiber: at the start of `MainFunc`, in `INIT`. -/
theorem newFiber_fiber (s : LawThread) (cb : Script) :
    (s.newFiber cb).thread.fiber s.thread.nfiber =
      { m_id := s.thread.s_fiber_id + 1, m_stack := .fiber s.thread.nfiber, m_cb := some .user
        m_ctx := { stack := .fiber s.thread.nfiber, point := .mainFunc } } :=
  Function.update_self ..

/-- It is ready. -/
theorem newFiber_ready (hfault : s.thread.fault = none) (hstack : s.thread.here.stack = .thread)
    (hmain : s.thread.mainFiber = some m) (hlive : s.Live m) (cb : Script) :
    Ready cb s.thread.nfiber m 0 (s.newFiber cb) := by
  have hne : s.thread.nfiber ≠ m := Nat.ne_of_gt hlive.1
  have hfiber := newFiber_fiber s cb
  refine ⟨hfault, hstack, hmain, ⟨Nat.lt_succ_of_lt hlive.1, ?_⟩, hne, ?_, ?_, ?_, ?_, ?_⟩
  · exact (Function.update_of_ne hne.symm ..).trans hlive.2
  · rw [hfiber]
    exact fun heq => by cases heq
  · rw [hfiber]
  · rw [hfiber]
    rfl
  · exact Function.update_self ..
  · exact Function.update_self ..

/-- `f` executes at `p`, before segment `i`, in the call of `swapIn` that was made in state `s`. -/
structure Running (cb : Script) (f m : FiberPtr) (i : ℕ) (s : LawThread) (p : Point)
    (s' : LawThread) : Prop where
  fault : s'.thread.fault = none
  here : s'.thread.here = { stack := .fiber f, point := p }
  current : s'.thread.t_fiber = some f
  main : s'.thread.mainFiber = some m
  live : s'.Live m
  code : (s'.thread.fiber f).m_cb = some .user
  back : (s'.thread.fiber m).m_ctx =
    { stack := .thread, point := .swapped s.thread.swapIns.length .fiber f }
  script : s'.script f = cb
  segment : s'.segment f = i
  ran : s'.ran = s.ran

theorem resume_step {fuel : ℕ} (hfault : s.thread.fault = none)
    (hstack : s.thread.here.stack = .fiber f) : resume (fuel + 1) s = resume fuel s.fiberStep := by
  rw [resume, if_neg]
  rw [hfault, hstack]
  simp

theorem resume_done {fuel : ℕ} (hstack : s.thread.here.stack = .thread) :
    resume (fuel + 1) s = some s := by
  rw [resume, if_pos (.inr hstack)]

/-- **`swapIn`** saves the place of the caller and goes to the fiber. -/
theorem swapIn_running (hr : Ready cb f m i s) :
    Running cb f m i s (if i = 0 then .mainFunc else .user f) (s.swapIn f) := by
  have hswap : s.swapIn f = { s with thread := s.thread.swapIn f .fiber } := by
    unfold swapIn
    rw [if_neg hr.state, switch_live hr.main hr.live]
  have heq : s.thread.swapIn f .fiber = _ := FiberThread.swapIn_eq hr.main hr.state
  have hfiber : (s.thread.enter m .fiber f).fiber f = { s.thread.fiber f with m_state := .EXEC } := by
    unfold FiberThread.enter
    rw [FiberThread.setFiber_ne _ _ hr.ne]
    exact FiberThread.setFiber_self ..
  have hmain : ((s.thread.enter m .fiber f).fiber m).m_ctx = s.thread.ret .fiber f := by
    unfold FiberThread.enter
    rw [FiberThread.setFiber_self]
  have hret : s.thread.ret .fiber f =
      { stack := .thread, point := .swapped s.thread.swapIns.length .fiber f } := by
    unfold FiberThread.ret
    rw [← hr.here]
  rw [hswap, heq]
  refine ⟨hr.fault, ?_, rfl, hr.main, hr.live, ?_, hmain.trans hret, hr.script, hr.segment, rfl⟩
  · dsimp only
    rw [hfiber]
    exact hr.ctx
  · dsimp only
    rw [hfiber]
    exact hr.code

/-- The start of `MainFunc`. -/
theorem mainFunc_running {s' : LawThread} (hr : Running cb f m i s .mainFunc s') :
    Running cb f m i s (.user f) s'.fiberStep := by
  have hstep : s'.fiberStep = { s' with thread := s'.thread.goto (.user f) } := by
    unfold fiberStep
    rw [hr.here]
    dsimp only
    unfold FiberThread.MainFunc
    rw [FiberThread.getThis_some hr.current]
    dsimp only
    rw [hr.code]
  rw [hstep]
  exact ⟨hr.fault, by unfold FiberThread.goto; rw [hr.here], hr.current, hr.main, hr.live, hr.code,
    hr.back, hr.script, hr.segment, hr.ran⟩

/-- The call has come to the segment. -/
theorem swapIn_segment (hr : Ready cb f m i s) : ∃ n s', Running cb f m i s (.user f) s' ∧
    ∀ fuel, (s.swapIn f).resume (fuel + n) = s'.resume fuel := by
  have hrun := swapIn_running hr
  by_cases hi : i = 0
  · rw [if_pos hi] at hrun
    refine ⟨1, _, mainFunc_running hrun, fun fuel => ?_⟩
    exact resume_step hrun.fault (by rw [hrun.here])
  · rw [if_neg hi] at hrun
    exact ⟨0, _, hrun, fun _ => rfl⟩

/-- The place that `swapOut` goes to, and what it leaves of the fiber. -/
theorem swapOut_back {t : FiberThread} {p : Point} (hmain : t.mainFiber = some m) (hne : f ≠ m) :
    (t.swapOut f p).fault = t.fault ∧ (t.swapOut f p).here = (t.fiber m).m_ctx ∧
      (t.swapOut f p).mainFiber = t.mainFiber ∧ (t.swapOut f p).nfiber = t.nfiber ∧
      (t.swapOut f p).fiber f = { t.fiber f with m_ctx := { t.here with point := p } } := by
  rw [FiberThread.swapOut_eq hmain hne]
  exact ⟨rfl, rfl, rfl, rfl, FiberThread.setFiber_self ..⟩

/-- A yield writes the state and swaps out. -/
theorem yield_step {s' : LawThread} (hr : Running cb f m i s (.user f) s') {y : Yield}
    (hy : cb.yields[i]? = some y) : ∃ st : FiberState, st ≠ .EXEC ∧ cb.stateAfter i = st ∧
      s'.fiberStep = { s' with
        thread := (s'.thread.setState f st).swapOut f (.user f)
        ran := s'.ran ++ [(f, i)]
        segment := Function.update s'.segment f (i + 1) } := by
  have hswitch : ∀ ran segment t,
      LawThread.switch { s' with ran := ran, segment := segment } t =
        { s' with ran := ran, segment := segment, thread := t } :=
    fun ran segment t =>
      switch_live (s := { s' with ran := ran, segment := segment }) hr.main hr.live t
  unfold fiberStep runSegment Script.stateAfter Script.act
  rw [hr.here]
  dsimp only
  rw [hr.script, hr.segment, hy]
  cases y with
  | toHold =>
    refine ⟨.HOLD, by decide, rfl, ?_⟩
    dsimp only
    rw [hswitch, FiberThread.userStep, FiberThread.getThis_some hr.current]
  | toReady =>
    refine ⟨.READY, by decide, rfl, ?_⟩
    dsimp only
    rw [hswitch, FiberThread.userStep, FiberThread.getThis_some hr.current]

/-- **A segment that yields** returns, and leaves the fiber ready for the next. -/
theorem segment_yield {s' : LawThread} (hr : Running cb f m i s (.user f) s') (hne : f ≠ m)
    {y : Yield} (hy : cb.yields[i]? = some y) :
    ∃ s'', s'.fiberStep = s'' ∧ s''.thread.fault = none ∧
      s''.thread.here = { stack := .thread, point := .swapped s.thread.swapIns.length .fiber f } ∧
      (s''.thread.fiber f).m_state = cb.stateAfter i ∧ s''.ran = s.ran ++ [(f, i)] ∧
      Ready cb f m (i + 1) s'' := by
  obtain ⟨st, hexec, hstate, hstep⟩ := yield_step hr hy
  have hmain : (s'.thread.setState f st).mainFiber = some m := hr.main
  obtain ⟨hfault, hhere, hmain', hn, hfiber⟩ := swapOut_back (p := .user f) hmain hne
  have hback : ((s'.thread.setState f st).fiber m).m_ctx = (s'.thread.fiber m).m_ctx := by
    unfold FiberThread.setState
    rw [FiberThread.setFiber_ne _ _ hne.symm]
  have hself : (s'.thread.setState f st).fiber f = { s'.thread.fiber f with m_state := st } :=
    FiberThread.setFiber_self ..
  rw [hback, hr.back] at hhere
  rw [hself] at hfiber
  refine ⟨_, hstep, hfault.trans hr.fault, hhere, ?_, by rw [hr.ran], ?_⟩
  · dsimp only
    rw [hfiber, hstate]
  · refine ⟨hfault.trans hr.fault, by rw [hhere], hmain'.trans hr.main, ?_, hne, ?_, ?_, ?_, hr.script,
      Function.update_self ..⟩
    · exact ⟨by rw [hn]; exact hr.live.1, hr.live.2⟩
    · dsimp only
      rw [hfiber]
      exact hexec
    · dsimp only
      rw [hfiber]
      exact hr.code
    · dsimp only
      rw [hfiber]
      show ({ s'.thread.here with point := Point.user f } : Place) = _
      rw [hr.here]
      rfl

/-- An end writes the state, and `MainFunc` goes on to its last `swapOut`. -/
theorem end_step {s' : LawThread} (hr : Running cb f m i s (.user f) s')
    (hend : cb.yields[i]? = none) : ∃ fb : StackFiber, fb.m_state = cb.stateAfter i ∧
      s'.fiberStep = { s' with
        thread := (s'.thread.setFiber f fb).goto (.leave f)
        ran := s'.ran ++ [(f, i)]
        segment := Function.update s'.segment f (i + 1) } := by
  unfold fiberStep runSegment Script.stateAfter Script.act
  rw [hr.here]
  dsimp only
  rw [hr.script, hr.segment, hend]
  cases cb.throws
  · exact ⟨_, rfl, rfl⟩
  · exact ⟨_, rfl, rfl⟩

/-- The last `swapOut` of `MainFunc`. -/
theorem leave_step (hpoint : s.thread.here.point = .leave f) (hmain : s.thread.mainFiber = some m)
    (hlive : s.Live m) : s.fiberStep = { s with thread := s.thread.swapOut f .neverReach } := by
  unfold fiberStep
  rw [hpoint]
  exact switch_live hmain hlive _

/-- **The last segment** ends, and `MainFunc` swaps out. -/
theorem segment_end {s' : LawThread} (hr : Running cb f m i s (.user f) s') (hne : f ≠ m)
    (hend : cb.yields[i]? = none) :
    ∃ s'', s'.fiberStep.fiberStep = s'' ∧ s'.fiberStep.thread.fault = none ∧
      s'.fiberStep.thread.here.stack = .fiber f ∧ s''.thread.fault = none ∧
      s''.thread.here = { stack := .thread, point := .swapped s.thread.swapIns.length .fiber f } ∧
      (s''.thread.fiber f).m_state = cb.stateAfter i ∧ s''.ran = s.ran ++ [(f, i)] := by
  obtain ⟨fb, hstate, hstep⟩ := end_step hr hend
  rw [hstep]
  have hmain : ((s'.thread.setFiber f fb).goto (.leave f)).mainFiber = some m := hr.main
  obtain ⟨hfault, hhere, -, -, hfiber⟩ := swapOut_back (p := .neverReach) hmain hne
  have hback : (((s'.thread.setFiber f fb).goto (.leave f)).fiber m).m_ctx =
      (s'.thread.fiber m).m_ctx := by
    show ((s'.thread.setFiber f fb).fiber m).m_ctx = _
    rw [FiberThread.setFiber_ne _ _ hne.symm]
  have hself : ((s'.thread.setFiber f fb).goto (.leave f)).fiber f = fb :=
    FiberThread.setFiber_self ..
  rw [hback, hr.back] at hhere
  rw [hself] at hfiber
  have hlast := leave_step (f := f) (m := m) (s := { s' with
    thread := (s'.thread.setFiber f fb).goto (.leave f)
    ran := s'.ran ++ [(f, i)]
    segment := Function.update s'.segment f (i + 1) }) rfl hr.main hr.live
  refine ⟨_, rfl, hr.fault, congrArg Place.stack hr.here, ?_⟩
  rw [hlast]
  refine ⟨hfault.trans hr.fault, hhere, ?_, ?_⟩
  · dsimp only
    rw [hfiber]
    exact hstate
  · show s'.ran ++ [(f, i)] = _
    rw [hr.ran]

/-! ## The law -/

/-- **A call that runs to a yield.** -/
theorem resume_yield (hr : Ready cb f m i s) {y : Yield} (hy : cb.yields[i]? = some y) :
    ∃ s', Returns cb f i s s' ∧ Ready cb f m (i + 1) s' := by
  obtain ⟨n, s₁, hrun, hresume⟩ := swapIn_segment hr
  obtain ⟨s₂, hstep, hfault, hhere, hstate, hran, hready⟩ := segment_yield hrun hr.ne hy
  refine ⟨s₂, ⟨⟨2 + n, ?_⟩, hfault, hhere, hstate, hran⟩, hready⟩
  rw [hresume, resume_step hrun.fault (congrArg Place.stack hrun.here), hstep]
  exact resume_done hready.here

/-- **A call that runs to the end.** -/
theorem resume_end (hr : Ready cb f m i s) (hend : cb.yields[i]? = none) :
    ∃ s', Returns cb f i s s' := by
  obtain ⟨n, s₁, hrun, hresume⟩ := swapIn_segment hr
  obtain ⟨s₂, hstep, hmid, hstack, hfault, hhere, hstate, hran⟩ := segment_end hrun hr.ne hend
  refine ⟨s₂, ⟨3 + n, ?_⟩, hfault, hhere, hstate, hran⟩
  rw [hresume, resume_step hrun.fault (congrArg Place.stack hrun.here), resume_step hmid hstack, hstep]
  exact resume_done (congrArg Place.stack hhere)

/-- **With a main fiber of the scheduler** the law holds, of every callback. -/
theorem law_of_live (hfault : s.thread.fault = none) (hstack : s.thread.here.stack = .thread)
    (hmain : s.thread.mainFiber = some m) (hlive : s.Live m) (cb : Script) : CoroutineLaw s cb := by
  -- the fiber is ready before each call but the one after the last
  have hcalls : ∀ i < cb.yields.length + 1, ∀ s', (i ≤ cb.yields.length →
      Ready cb s.thread.nfiber m i s') → ∃ s'', Returns cb s.thread.nfiber i s' s'' ∧
        (i + 1 ≤ cb.yields.length → Ready cb s.thread.nfiber m (i + 1) s'') := by
    intro i hi s' hready
    have hr := hready (Nat.le_of_lt_succ hi)
    rcases Nat.lt_succ_iff_lt_or_eq.1 hi with hlt | heq
    · obtain ⟨s'', hreturns, hnext⟩ := resume_yield hr (List.getElem?_eq_getElem hlt)
      exact ⟨s'', hreturns, fun _ => hnext⟩
    · obtain ⟨s'', hreturns⟩ := resume_end hr (List.getElem?_eq_none (Nat.le_of_eq heq.symm))
      exact ⟨s'', hreturns, fun hle => absurd hle (by omega)⟩
  obtain ⟨t, h0, hreturns, -⟩ := sequence_inv
    (fun _ => newFiber_ready hfault hstack hmain hlive cb) (cb.yields.length + 1) hcalls
  exact ⟨t, h0, fun i hi => hreturns i (Nat.lt_succ_of_le hi)⟩

/-- Without a main fiber of the scheduler, `swapIn` reads its context all the same. -/
theorem swapIn_none {t : FiberThread} {branch : RunBranch} (hmain : t.mainFiber = none)
    (hstate : (t.fiber f).m_state ≠ .EXEC) : (t.swapIn f branch).fault = some .undefined := by
  have hmain' : ((t.SetThis (some f)).setState f .EXEC).mainFiber = none := hmain
  have hstate' : ((t.SetThis (some f)).fiber f).m_state ≠ .EXEC := hstate
  unfold FiberThread.swapIn
  dsimp only
  rw [if_neg hstate', hmain']
  rfl

/-- A fiber that is the main fiber itself goes on at the place it has just saved. -/
theorem swapIn_self {t : FiberThread} {branch : RunBranch} (hmain : t.mainFiber = some f)
    (hstate : (t.fiber f).m_state ≠ .EXEC) : (t.swapIn f branch).here.stack = t.here.stack := by
  rw [FiberThread.swapIn_eq hmain hstate]
  unfold FiberThread.enter
  dsimp only
  rw [FiberThread.setFiber_self]
  rfl

/-- **Without one** the first call runs nothing: it has no place to save its context in, or saves
it in the new fiber. -/
theorem swapIn_lost (hno : ¬ ∃ m, s.thread.mainFiber = some m ∧ s.Live m) (cb : Script) :
    (((s.newFiber cb).swapIn s.thread.nfiber).thread.fault = some .undefined ∨
      ((s.newFiber cb).swapIn s.thread.nfiber).thread.here.stack = s.thread.here.stack) ∧
    ((s.newFiber cb).swapIn s.thread.nfiber).ran = s.ran := by
  have hstate : ((s.newFiber cb).thread.fiber s.thread.nfiber).m_state ≠ .EXEC := by
    rw [newFiber_fiber]
    exact fun heq => by cases heq
  unfold swapIn
  rw [if_neg hstate]
  refine ⟨?_, rfl⟩
  unfold switch
  split
  · exact .inl rfl
  · rename_i hdangling
    cases hmain : s.thread.mainFiber with
    | none => exact .inl (swapIn_none hmain hstate)
    | some m =>
      -- `m` exists by now, so it is the new fiber
      have hlive : (s.newFiber cb).Live m := by
        by_contra hdead
        exact hdangling ⟨m, hmain, hdead⟩
      have heq : m = s.thread.nfiber := by
        by_contra hne
        have hlt : m < s.thread.nfiber := Nat.lt_of_le_of_ne (Nat.lt_succ_iff.1 hlive.1) hne
        exact hno ⟨m, hmain, hlt, (Function.update_of_ne hne ..).symm.trans hlive.2⟩
      rw [heq] at hmain
      exact .inr (swapIn_self hmain hstate)

/-- **Without a main fiber of the scheduler** the law fails, of every callback. -/
theorem no_law (hstack : s.thread.here.stack = .thread)
    (hno : ¬ ∃ m, s.thread.mainFiber = some m ∧ s.Live m) (cb : Script) : ¬ CoroutineLaw s cb := by
  rintro ⟨t, h0, hcalls⟩
  obtain ⟨⟨fuel, hresume⟩, hfault, -, -, hran⟩ := hcalls 0 (Nat.zero_le _)
  obtain ⟨hlost, hsame⟩ := swapIn_lost hno cb
  rw [h0] at hresume hran
  -- no code of the fiber runs after the call
  have hdone : ((s.newFiber cb).swapIn s.thread.nfiber).thread.fault.isSome ∨
      ((s.newFiber cb).swapIn s.thread.nfiber).thread.here.stack = .thread := by
    rcases hlost with hundefined | hback
    · exact .inl (by rw [hundefined]; rfl)
    · exact .inr (hback.trans hstack)
  cases fuel with
  | zero => cases hresume
  | succ fuel =>
    rw [resume, if_pos hdone] at hresume
    rw [← Option.some.inj hresume, hsame] at hran
    have hlength := congrArg List.length hran
    rw [List.length_append] at hlength
    exact absurd hlength (Nat.ne_of_lt (Nat.lt_succ_self _))

/-- **When the law holds**: for every callback, or for none, as `Scheduler::GetMainFiber()` points
to a fiber or not. -/
theorem coroutine_law_iff (s : LawThread) (cb : Script) (hfault : s.thread.fault = none)
    (hstack : s.thread.here.stack = .thread) :
    CoroutineLaw s cb ↔ ∃ m, s.thread.mainFiber = some m ∧ s.Live m := by
  constructor
  · intro hlaw
    by_contra hno
    exact no_law hstack hno cb hlaw
  · rintro ⟨m, hmain, hlive⟩
    exact law_of_live hfault hstack hmain hlive cb

/-- The thread of `main`, with a scheduler that uses its caller: a callback that yields both ways and
throws. -/
theorem coroutine_law_use_caller :
    CoroutineLaw { thread := (FiberThread.init ⟨1, Nat.one_pos⟩ .caller).step .next }
        { yields := [.toHold, .toReady], throws := true } ↔
      ∃ m, ((FiberThread.init ⟨1, Nat.one_pos⟩ .caller).step .next).mainFiber = some m ∧
        LawThread.Live { thread := (FiberThread.init ⟨1, Nat.one_pos⟩ .caller).step .next } m :=
  coroutine_law_iff _ _ (by decide) (by decide)

/-- **The threads of `test_fiber`** have called `Fiber::GetThis` and construct no scheduler: the first
`swapIn` dereferences a null pointer. -/
theorem test_fiber_no_law :
    ∃ s : LawThread, s.thread = (FiberThread.init ⟨1, Nat.one_pos⟩ .caller).step .getThis ∧
      s.thread.t_threadFiber = some 0 ∧
      ((s.newFiber { yields := [.toHold, .toHold], throws := false }).swapIn 1).thread.fault =
        some .undefined ∧
      ¬ CoroutineLaw s { yields := [.toHold, .toHold], throws := false } := by
  refine ⟨{ thread := (FiberThread.init ⟨1, Nat.one_pos⟩ .caller).step .getThis }, rfl, by decide,
    by decide, no_law (by decide) ?_ _⟩
  rintro ⟨m, hm, -⟩
  cases hm

/-! ## The threads -/

open FiberThread in
/-- **The threads that have one**: on the caller's thread, from the constructor on; on a worker, from
`Scheduler::run` on. -/
theorem reachable_law_iff (tid : ℕ+) (kind : ThreadKind) (as : List SwitchAct) (cb : Script)
    (hfault : (run step (init tid kind) as).fault = none)
    (hstack : (run step (init tid kind) as).here.stack = .thread)
    (hstart : (run step (init tid kind) as).here.point ≠ .runStart)
    (hexit : (run step (init tid kind) as).here.point ≠ .exited) :
    CoroutineLaw { thread := run step (init tid kind) as } cb ↔
      (run step (init tid kind) as).here.point ≠ .main := by
  obtain ⟨hs, hw⟩ := run_inv step_inv as _ (init_inv tid kind) hfault
  generalize run step (init tid kind) as = t at *
  have hlaw : ∀ m, t.mainFiber = some m → m < t.nfiber → CoroutineLaw { thread := t } cb :=
    fun m hmain hlt => law_of_live hfault hstack hmain ⟨hlt, rfl⟩ cb
  cases hw with
  | main hhere _ hmain =>
    refine ⟨fun h => absurd h (no_law hstack ?_ cb), fun h => absurd (congrArg Place.point hhere) h⟩
    rintro ⟨m, hm, -⟩
    rw [show t.mainFiber = none from hmain] at hm
    cases hm
  | outside _ hpoint _ _ hroot =>
    obtain ⟨hlt, hmain, -⟩ := hs.root _ hroot
    refine ⟨fun _ => ?_, fun _ => hlaw _ hmain hlt⟩
    rcases hpoint with hpoint | hpoint <;> rw [hpoint] <;> exact fun heq => by cases heq
  | start hhere => exact absurd (congrArg Place.point hhere) hstart
  | root _ hfiber => rw [hfiber] at hstack; cases hstack
  | rootEnd _ _ hhere => rw [hhere] at hstack; cases hstack
  | run hrun =>
    refine ⟨fun _ heq => ?_, fun _ => hlaw _ hrun.home.main hrun.home.lt⟩
    have hpoint := hrun.point
    rw [heq] at hpoint
    exact hpoint
  | task htask => rw [htask.stack] at hstack; cases hstack
  | exited hhere => exact absurd (congrArg Place.point hhere) hexit

theorem freed_no_law {r : FiberPtr} (hmain : s.thread.mainFiber = some r) (hfreed : s.freed r = true)
    (hstack : s.thread.here.stack = .thread) (cb : Script) : ¬ CoroutineLaw s cb := by
  refine no_law hstack ?_ cb
  rintro ⟨m, hm, -, hexists⟩
  obtain rfl : r = m := Option.some.inj (hmain.symm.trans hm)
  rw [hfreed] at hexists
  cases hexists

/-- **A destroyed scheduler** leaves its thread without one: `Scheduler::GetMainFiber()` still points
to the root fiber. -/
theorem destroyed_no_law {r : FiberPtr} (hs : s.thread.Shape)
    (hroot : s.thread.m_rootFiber = some r) (hstack : s.thread.here.stack = .thread)
    (hfault : s.destroyScheduler.thread.fault = none) (cb : Script) :
    ¬ CoroutineLaw s.destroyScheduler cb := by
  have hmain : s.thread.mainFiber = some r := (hs.root r hroot).2.1
  unfold destroyScheduler at hfault ⊢
  rw [hroot] at hfault ⊢
  dsimp only at hfault ⊢
  split at hfault
  · rename_i hended
    rw [if_pos hended]
    refine freed_no_law (r := r) ?_ ?_ ?_ cb
    · exact hmain
    · exact Function.update_self ..
    · exact hstack
  · cases hfault

end LawThread

end Coroutine
