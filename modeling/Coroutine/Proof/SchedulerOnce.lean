import Coroutine.Proof.SchedulerQueue
import Coroutine.Proof.SchedulerSound

/-!
# Where a popped callback is

From the pop of its entry a callback is carried by the worker that popped it, then by the
fiber it was put into, and `started` gets its number when a switch enters `MainFunc`.

* `move_carry`: nothing is carried twice, and what a worker has picked is not started.
* `move_once`: while no worker switches to a fiber another is on, a callback that was started
  is not started again from the fiber that still holds it.
* `move_pending`: and one that was popped is started, or its worker is about to start it.
-/

namespace Coroutine

open Lib

/-- The number of the callback entry a worker has picked. -/
def Pc.picks {W : Type} : Pc W → Option ℕ
  | .picked (some ft) =>
    match ft.task with
    | .cb _ => some ft.serial
    | .fiber _ => none
  | _ => none

/-- The callback fiber a worker is about to switch to. -/
def Pc.about {W : Type} : Pc W → Option FiberPtr
  | .task .enter f b | .task .switch f b => if b = .cb then some f else none
  | _ => none

theorem Pc.own_of_about {W : Type} {pc : Pc W} {f : FiberPtr} (h : pc.about = some f) :
    pc.own = some f := by
  cases pc with
  | task stage g b => cases stage <;> first | exact h | cases h
  | _ => cases h

theorem Pc.picks_eq {W : Type} {pc : Pc W} {i : ℕ} (h : pc.picks = some i) :
    ∃ ft cb, pc = .picked (some ft) ∧ ft.task = .cb cb ∧ ft.serial = i := by
  cases pc with
  | picked ft =>
    cases ft with
    | none => cases h
    | some ft =>
      cases htask : ft.task with
      | cb cb => exact ⟨ft, cb, rfl, htask, by simpa [Pc.picks, htask] using h⟩
      | fiber f => simp [Pc.picks, htask] at h
  | _ => cases h

namespace Scheduler

variable {W : Type} {pool : Pool W} {s s' : Scheduler W} {a : SchedAct W}

/-- The number of the callback entry a worker or a fiber carries. -/
def carries (s : Scheduler W) : W ⊕ FiberPtr → Option ℕ
  | .inl w => (s.worker w).pc.picks
  | .inr f => (s.fiber f).m_cb.bind (·.serial)

theorem carries_fiber {f : FiberPtr} {i : ℕ} :
    s.carries (.inr f) = some i ↔ ∃ job, (s.fiber f).m_cb = some job ∧ job.serial = some i :=
  Option.bind_eq_some_iff

/-- The fiber's callback has been started: its context is no longer the one `makecontext`
made, or somebody is on it. -/
def Begun (s : Scheduler W) (f : FiberPtr) : Prop :=
  (s.fiber f).m_ctx ≠ .entry ∨ ∃ w, (s.worker w).pc.on = some f

/-- **What is carried.** -/
structure Carry (s : Scheduler W) : Prop where
  only : Exclusive s.carries
  popped : ∀ x i, s.carries x = some i → i ∈ s.popped.map (·.serial)
  fresh : ∀ w i, (s.worker w).pc.picks = some i → i ∉ s.started
  started : ∀ i ∈ s.started, i ∈ s.popped.map (·.serial)

/-- **No callback is started twice.** -/
structure Once (s : Scheduler W) : Prop where
  nodup : s.started.Nodup
  begun : ∀ f i, s.carries (.inr f) = some i → i ∈ s.started → s.Begun f
  leaving : ∀ w f b, (s.worker w).pc ≠ .task (.leaving .entry) f b

/-- **No callback that was popped is lost.** -/
structure Pending (s : Scheduler W) : Prop where
  all : ∀ ft ∈ s.popped, ∀ cb, ft.task = .cb cb → ft.serial ∈ s.started ∨
    (∃ w, (s.worker w).pc.picks = some ft.serial) ∨
    ∃ w f, (s.worker w).pc.about = some f ∧ s.carries (.inr f) = some ft.serial
  /-- nobody is in the middle of a callback that was not started -/
  quiet : ∀ f i, s.carries (.inr f) = some i → i ∉ s.started → s.Quiet f

/-- The number of a queued entry is none of the popped ones. -/
theorem queued_not_popped (hq : s.Queue) {ft : FiberAndThread W} (hft : ft ∈ s.m_fibers) :
    ft.serial ∉ s.popped.map (·.serial) := by
  have hnodup := hq.nodup
  rw [List.map_append, List.nodup_append] at hnodup
  intro hin
  exact hnodup.2.2 _ hin _ (List.mem_map_of_mem hft) rfl

variable [DecidableEq W] [Fintype W]

/-! ## How something came to be carried, popped, started -/

/-- What a worker has picked after a move it had picked before, or has just popped. -/
theorem move_picks (h : Move pool s a s') {v : W} {i : ℕ} (hv : (s'.worker v).pc.picks = some i) :
    (s.worker v).pc.picks = some i ∨ ∃ ft ∈ s.m_fibers, a = .run v ∧ ft.serial = i ∧
      s'.popped = s.popped ++ [ft] ∧ s'.started = s.started := by
  cases h with
  | stay => exact Or.inl hv
  | abort => exact Or.inl hv
  | callOut c => rw [(call_frame s none c).worker] at hv; exact Or.inl hv
  | callIn w f b c hpc => rw [(call_frame s (some w) c).worker] at hv; exact Or.inl hv
  | stop => rw [(stopStep_frame pool s).worker] at hv; exact Or.inl hv
  | pop w ft hpc hfind =>
    rcases update_elim (P := fun k : Worker W => k.pc.picks = some i) hv with ⟨rfl, hv⟩ | ⟨-, hv⟩
    · obtain ⟨ft', cb, heq, -, hserial⟩ := Pc.picks_eq hv
      cases heq
      exact Or.inr ⟨ft, List.mem_of_find?_eq_some hfind, rfl, hserial, rfl, rfl⟩
    · exact Or.inl hv
  | _ =>
    left
    rcases update_elim (P := fun k : Worker W => k.pc.picks = some i) hv with ⟨rfl, hv⟩ | ⟨-, hv⟩
    · cases hv
    · exact hv

/-- What is carried after a move was carried before, or has just been popped, or put into
its fiber by the worker that had picked it. -/
theorem move_carries (h : Move pool s a s') {x : W ⊕ FiberPtr} {i : ℕ}
    (hx : s'.carries x = some i) : s.carries x = some i ∨
      (∃ v, ∃ ft ∈ s.m_fibers, x = .inl v ∧ a = .run v ∧ ft.serial = i ∧
        s'.popped = s.popped ++ [ft]) ∨
      ∃ v f, x = .inr f ∧ a = .run v ∧ (s.worker v).pc.picks = some i ∧
        (s'.worker v).pc = .task .enter f .cb := by
  cases x with
  | inl v =>
    rcases move_picks h hx with hold | ⟨ft, hft, ha, hserial, hpop, -⟩
    · exact Or.inl hold
    · exact Or.inr (Or.inl ⟨v, ft, hft, rfl, ha, hserial, hpop⟩)
  | inr f =>
    obtain ⟨job, hjob, hserial⟩ := carries_fiber.1 hx
    rcases move_cb h hjob with hold | ⟨-, hnone⟩ | ⟨v, ft, cb, ha, hpc, htask, hpc', rfl, -⟩
    · exact Or.inl (carries_fiber.2 ⟨job, hold, hserial⟩)
    · rw [hnone] at hserial; cases hserial
    · cases hserial
      exact Or.inr (Or.inr ⟨v, f, rfl, ha, by simp [hpc, Pc.picks, htask], hpc'⟩)

/-- A move that pops an entry leaves it with a worker. -/
theorem move_popped (h : Move pool s a s') : s'.popped = s.popped ∨
    ∃ w, ∃ ft ∈ s.m_fibers, (s'.worker w).pc = .picked (some ft) ∧
      s'.popped = s.popped ++ [ft] := by
  cases h with
  | callOut c => exact Or.inl (call_frame s none c).popped
  | callIn w f b c hpc => exact Or.inl (call_frame s (some w) c).popped
  | stop => exact Or.inl (stopStep_frame pool s).popped
  | pop w ft hpc hfind =>
    exact Or.inr ⟨w, ft, List.mem_of_find?_eq_some hfind, by simp [setPc, setWorker], rfl⟩
  | _ => exact Or.inl rfl

/-- A move that starts a callback enters a fiber that was not entered before. -/
theorem move_started (h : Move pool s a s') : s'.started = s.started ∨
    ∃ w f b job, a = .run w ∧ (s.worker w).pc = .task .switch f b ∧ (s.fiber f).m_ctx = .entry ∧
      (s.fiber f).m_cb = some job ∧ s'.started = s.started ++ job.serial.toList ∧
      s'.fiber = s.fiber ∧ (s'.worker w).pc = .task .running f b := by
  cases h with
  | callOut c => exact Or.inl (call_frame s none c).started
  | callIn w f b c hpc => exact Or.inl (call_frame s (some w) c).started
  | stop => exact Or.inl (stopStep_frame pool s).started
  | start w f b job hpc hctx hjob =>
    exact Or.inr ⟨w, f, b, job, rfl, hpc, hctx, hjob, rfl, rfl, by simp [setPc, setWorker]⟩
  | _ => exact Or.inl rfl

theorem move_popped_subset (h : Move pool s a s') {i : ℕ} (hi : i ∈ s.popped.map (·.serial)) :
    i ∈ s'.popped.map (·.serial) := by
  rcases move_popped h with heq | ⟨w, ft, -, -, heq⟩
  · rwa [heq]
  · rw [heq, List.map_append]
    exact List.mem_append_left _ hi

theorem move_started_subset (h : Move pool s a s') {i : ℕ} (hi : i ∈ s.started) :
    i ∈ s'.started := by
  rcases move_started h with heq | ⟨w, f, b, job, -, -, -, -, heq, -⟩
  · rwa [heq]
  · rw [heq]
    exact List.mem_append_left _ hi

/-- A number that a move adds to `started` was carried by the fiber that is entered. -/
theorem move_started_new (h : Move pool s a s') {i : ℕ} (hi : i ∈ s'.started)
    (hnew : i ∉ s.started) : ∃ w f b, a = .run w ∧ (s.worker w).pc = .task .switch f b ∧
      (s.fiber f).m_ctx = .entry ∧ s.carries (.inr f) = some i ∧ s'.carries (.inr f) = some i ∧
      (s'.worker w).pc = .task .running f b := by
  rcases move_started h with heq | ⟨w, f, b, job, ha, hpc, hctx, hjob, heq, hfiber, hpc'⟩
  · rw [heq] at hi
    exact absurd hi hnew
  · rw [heq, List.mem_append, Option.mem_toList] at hi
    rcases hi with hi | hi
    · exact absurd hi hnew
    · have hcarry := carries_fiber.2 ⟨job, hjob, hi⟩
      exact ⟨w, f, b, ha, hpc, hctx, hcarry, by simpa only [carries, hfiber] using hcarry, hpc'⟩

/-! ## Nothing is carried twice -/

omit [Fintype W] in
theorem init_carry (pool : Pool W) : (init pool).Carry := by
  have hno : ∀ x, (init pool).carries x = none := by
    intro x
    cases x with
    | inl w => rcases init_pc pool w with h | h <;> rw [carries, h] <;> rfl
    | inr f => rfl
  refine ⟨?_, ?_, ?_, ?_⟩
  · intro x y i hx; rw [hno x] at hx; cases hx
  · intro x i hx; rw [hno x] at hx; cases hx
  · intro w i hw; exact List.not_mem_nil
  · intro i hi; cases hi

/-- **Every move keeps what is carried apart.** -/
theorem move_carry (hq : s.Queue) (hs : s.Carry) (h : Move pool s a s') : s'.Carry := by
  -- an entry in the queue is not carried
  have hqueued : ∀ x, ∀ ft ∈ s.m_fibers, s.carries x ≠ some ft.serial :=
    fun x ft hft hx => queued_not_popped hq hft (hs.popped x _ hx)
  refine ⟨?_, ?_, ?_, ?_⟩
  · intro x y i hx hy
    have hx' := hx
    have hy' := hy
    rcases move_carries h hx with hx | ⟨v, ft, hft, rfl, ha, rfl, -⟩ | ⟨v, f, rfl, ha, hpick, hpc⟩
    · rcases move_carries h hy with hy | ⟨v, ft, hft, rfl, -, rfl, -⟩ | ⟨v, f, rfl, -, hpick, hpc⟩
      · exact hs.only x y i hx hy
      · exact absurd hx (hqueued x ft hft)
      · have heq := hs.only x (.inl v) i hx hpick
        subst heq
        rw [carries, hpc] at hx'
        cases hx'
    · rcases move_carries h hy with hy | ⟨v', -, -, rfl, ha', -⟩ | ⟨v', f, rfl, -, hpick, -⟩
      · exact absurd hy (hqueued y ft hft)
      · rw [ha] at ha'; cases ha'; rfl
      · exact absurd hpick (hqueued (.inl v') ft hft)
    · rcases move_carries h hy with hy | ⟨v', ft, hft, rfl, -, rfl, -⟩ | ⟨v', f', rfl, ha', -, hpc'⟩
      · have heq := hs.only y (.inl v) i hy hpick
        subst heq
        rw [carries, hpc] at hy'
        cases hy'
      · exact absurd hpick (hqueued (.inl v) ft hft)
      · rw [ha] at ha'
        cases ha'
        rw [hpc] at hpc'
        cases hpc'
        rfl
  · intro x i hx
    rcases move_carries h hx with hx | ⟨v, ft, hft, rfl, -, rfl, hpop⟩ | ⟨v, f, rfl, -, hpick, -⟩
    · exact move_popped_subset h (hs.popped x i hx)
    · rw [hpop]
      simp
    · exact move_popped_subset h (hs.popped (.inl v) i hpick)
  · intro v i hv hi
    rcases move_picks h hv with hold | ⟨ft, hft, -, rfl, -, hst⟩
    · by_cases hin : i ∈ s.started
      · exact hs.fresh v i hold hin
      · obtain ⟨w, f, b, -, -, -, hcarry, -⟩ := move_started_new h hi hin
        cases hs.only (.inl v) (.inr f) i hold hcarry
    · rw [hst] at hi
      exact queued_not_popped hq hft (hs.started _ hi)
  · intro i hi
    by_cases hin : i ∈ s.started
    · exact move_popped_subset h (hs.started i hin)
    · obtain ⟨w, f, b, -, -, -, hcarry, -⟩ := move_started_new h hi hin
      exact move_popped_subset h (hs.popped _ i hcarry)

/-! ## No callback is started twice -/

/-- Whoever is on a fiber stays on it until it has saved the context. -/
theorem move_on_keep (hleave : ∀ w f b, (s.worker w).pc ≠ .task (.leaving .entry) f b)
    (h : Move pool s a s') {v : W} {g : FiberPtr} (hv : (s.worker v).pc.on = some g) :
    (s'.worker v).pc.on = some g ∨ (s'.fiber g).m_ctx ≠ .entry := by
  cases h with
  | stay => exact Or.inl hv
  | abort => exact Or.inl hv
  | callOut c => rw [(call_frame s none c).worker]; exact Or.inl hv
  | callIn w f b c hpc => rw [(call_frame s (some w) c).worker]; exact Or.inl hv
  | stop => rw [(stopStep_frame pool s).worker]; exact Or.inl hv
  | save w f b ctx hpc =>
    by_cases hvw : v = w
    · subst hvw
      rw [hpc] at hv
      cases hv
      right
      have hctx : ctx ≠ .entry := by
        rintro rfl
        exact hleave v _ b hpc
      simpa [setPc, setWorker, setFiber] using hctx
    · left
      simpa [setPc, setWorker, setFiber, hvw] using hv
  | _ =>
    left
    refine update_intro (P := fun k : Worker W => k.pc.on = some g) hv ?_
    intro hw
    first
      | (simp [*, Pc.on, setFiber, setState, newFiber, push] at hw; done)
      | simpa [*, Pc.on, setFiber, setState] using hw

/-- A context is made by `makecontext` only where the callback is changed: it is taken away,
or is one that a worker had picked. -/
theorem move_entry (hleave : ∀ w f b, (s.worker w).pc ≠ .task (.leaving .entry) f b)
    (h : Move pool s a s') {g : FiberPtr} (hg : (s'.fiber g).m_ctx = .entry) :
    (s.fiber g).m_ctx = .entry ∨
      ∀ i, s'.carries (.inr g) = some i → ∃ w, (s.worker w).pc.picks = some i := by
  have hcall : ∀ pusher c, ((s.call pusher c).fiber g).m_ctx = .entry →
      (s.fiber g).m_ctx = .entry ∨ ∀ i, (s.call pusher c).carries (.inr g) = some i →
        ∃ w, (s.worker w).pc.picks = some i := by
    intro pusher c hctx
    rcases call_fiber s pusher c g with heq | ⟨-, cb, heq⟩
    · rw [heq] at hctx; exact Or.inl hctx
    · right
      intro i hi
      rw [carries, heq] at hi
      cases cb <;> cases hi
  cases h with
  | callOut c => exact hcall none c hg
  | callIn w f b c hpc => exact hcall (some w) c hg
  | stop => rw [(stopStep_frame pool s).fiber] at hg; exact Or.inl hg
  | recycle w ft cb f hpc htask hslot hres =>
    by_cases hgf : g = f
    · subst hgf
      refine Or.inr (fun i hi => ⟨w, ?_⟩)
      simpa [carries, setPc, setWorker, setFiber, Fiber.reset, hpc, Pc.picks, htask] using hi
    · left
      simpa [setPc, setWorker, setFiber, hgf] using hg
  | create w ft cb hpc htask hslot =>
    by_cases hgf : g = s.nfiber
    · subst hgf
      refine Or.inr (fun i hi => ⟨w, ?_⟩)
      simpa [carries, setWorker, newFiber, setFiber, Fiber.reset, hpc, Pc.picks, htask] using hi
    · left
      simpa [setWorker, newFiber, setFiber, hgf] using hg
  | clear w f hpc hstate =>
    by_cases hgf : g = f
    · subst hgf
      refine Or.inr (fun i hi => ?_)
      simp [carries, setPc, setWorker, setFiber, Fiber.reset] at hi
    · left
      simpa [setPc, setWorker, setFiber, hgf] using hg
  | save w f b ctx hpc =>
    left
    rcases update_elim (P := fun fb : Fiber => fb.m_ctx = .entry) hg with ⟨rfl, hctx⟩ | ⟨-, hctx⟩
    · have hentry : ctx = .entry := hctx
      exact absurd (hentry ▸ hpc) (hleave w _ b)
    · exact hctx
  | _ =>
    left
    first
      | exact hg
      | rcases update_elim (P := fun fb : Fiber => fb.m_ctx = .entry) hg with ⟨rfl, hctx⟩ | ⟨-, hctx⟩
        · exact hctx
        · exact hctx

/-- A fiber that was begun stays so while it keeps its callback. -/
theorem move_begun (hs : s.Once) (h : Move pool s a s') {g : FiberPtr} (hg : s.Begun g) :
    s'.Begun g ∨ ∀ i, s'.carries (.inr g) = some i → ∃ w, (s.worker w).pc.picks = some i := by
  rcases hg with hctx | ⟨w, hw⟩
  · by_cases hentry : (s'.fiber g).m_ctx = .entry
    · rcases move_entry hs.leaving h hentry with hold | hreset
      · exact absurd hold hctx
      · exact Or.inr hreset
    · exact Or.inl (Or.inl hentry)
  · left
    rcases move_on_keep hs.leaving h hw with hw' | hctx
    · exact Or.inr ⟨w, hw'⟩
    · exact Or.inl hctx

/-- No move makes a worker save a start. -/
theorem move_leaving (hleave : ∀ w f b, (s.worker w).pc ≠ .task (.leaving .entry) f b)
    (h : Move pool s a s') (v : W) (g : FiberPtr) (b : Branch) :
    (s'.worker v).pc ≠ .task (.leaving .entry) g b := by
  cases h with
  | stay => exact hleave v g b
  | abort => exact hleave v g b
  | callOut c => rw [(call_frame s none c).worker]; exact hleave v g b
  | callIn w f b c hpc => rw [(call_frame s (some w) c).worker]; exact hleave v g _
  | stop => rw [(stopStep_frame pool s).worker]; exact hleave v g b
  | _ =>
    refine update_intro (P := fun k : Worker W => k.pc ≠ .task (.leaving .entry) g _)
      (hleave v g _) ?_
    intro _ heq
    cases heq

omit [Fintype W] in
theorem init_once (pool : Pool W) : (init pool).Once := by
  refine ⟨List.nodup_nil, ?_, ?_⟩
  · intro f i hf; cases hf
  · intro w f b hpc
    rcases init_pc pool w with h | h <;> rw [h] at hpc <;> cases hpc

/-- **A move that switches to nobody else's fiber starts no callback again.** -/
theorem move_once (hc : s.Carry) (hs : s.Once) (h : Move pool s a s') (hc' : s'.Carry)
    (ha : s.SwitchesAlone a) : s'.Once := by
  refine ⟨?_, ?_, move_leaving hs.leaving h⟩
  · rcases move_started h with heq | ⟨w, f, b, job, rfl, hpc, hctx, hjob, heq, -⟩
    · rw [heq]; exact hs.nodup
    · rw [heq, List.nodup_append]
      refine ⟨hs.nodup, ?_, ?_⟩
      · cases job.serial <;> simp
      · rintro i hi j hj rfl
        rw [Option.mem_toList] at hj
        -- a callback that was started is in a fiber that was begun, and nobody else is on it
        rcases hs.begun f i (carries_fiber.2 ⟨job, hjob, hj⟩) hi with hne | ⟨v, hv⟩
        · exact hne hctx
        · have hvw : v ≠ w := by
            rintro rfl
            rw [hpc] at hv
            cases hv
          exact ha f (by rw [hpc]; rfl) v hvw hv
  · intro f i hf hi
    by_cases hin : i ∈ s.started
    · rcases move_carries h hf with hold | ⟨v, -, -, hx, -⟩ | ⟨v, g, -, -, hpick, -⟩
      · rcases move_begun hs h (hs.begun f i hold hin) with hbegun | hreset
        · exact hbegun
        · obtain ⟨w, hw⟩ := hreset i hf
          exact absurd hin (hc.fresh w i hw)
      · cases hx
      · exact absurd hin (hc.fresh v i hpick)
    · obtain ⟨w, g, b, -, -, -, -, hcarry, hpc⟩ := move_started_new h hi hin
      cases hc'.only (.inr f) (.inr g) i hf hcarry
      exact Or.inr ⟨w, by rw [hpc]; rfl⟩

/-! ## No callback that was popped is lost -/

/-- A callback a worker has picked it still has after a move, or has put into a fiber that
it is about to enter. -/
theorem move_picks_keep (h : Move pool s a s') {v : W} {i : ℕ}
    (hv : (s.worker v).pc.picks = some i) : (s'.worker v).pc.picks = some i ∨
      ∃ f, (s'.worker v).pc.about = some f ∧ s'.carries (.inr f) = some i := by
  cases h with
  | stay => exact Or.inl hv
  | abort => exact Or.inl hv
  | callOut c => rw [(call_frame s none c).worker]; exact Or.inl hv
  | callIn w f b c hpc => rw [(call_frame s (some w) c).worker]; exact Or.inl hv
  | stop => rw [(stopStep_frame pool s).worker]; exact Or.inl hv
  | recycle w ft cb f hpc htask hslot hres =>
    by_cases hvw : v = w
    · subst hvw
      right
      have hserial : ft.serial = i := by simpa [hpc, Pc.picks, htask] using hv
      refine ⟨f, ?_, ?_⟩
      · simp [setPc, setWorker, Pc.about]
      · simp [carries, setPc, setWorker, setFiber, Fiber.reset, hserial]
    · left
      simpa [setPc, setWorker, setFiber, hvw] using hv
  | create w ft cb hpc htask hslot =>
    by_cases hvw : v = w
    · subst hvw
      right
      have hserial : ft.serial = i := by simpa [hpc, Pc.picks, htask] using hv
      refine ⟨s.nfiber, ?_, ?_⟩
      · simp [setWorker, Pc.about]
      · simp [carries, setWorker, newFiber, setFiber, Fiber.reset, hserial]
    · left
      simpa [setWorker, newFiber, setFiber, hvw] using hv
  | _ =>
    left
    refine update_intro (P := fun k : Worker W => k.pc.picks = some i) hv ?_
    intro hw
    simp [*, Pc.picks, setFiber, setState, push] at hw

/-- A worker about to enter its callback fiber is so after a move, or has entered it. -/
theorem move_about (h : Move pool s a s') {v : W} {g : FiberPtr}
    (hv : (s.worker v).pc.about = some g) : (s'.worker v).pc.about = some g ∨
      (s.fiber g).m_ctx = .saved ∨ (s.fiber g).m_cb = none ∨
      ∃ job, (s.fiber g).m_cb = some job ∧ s'.started = s.started ++ job.serial.toList := by
  cases h with
  | stay => exact Or.inl hv
  | abort => exact Or.inl hv
  | callOut c => rw [(call_frame s none c).worker]; exact Or.inl hv
  | callIn w f b c hpc => rw [(call_frame s (some w) c).worker]; exact Or.inl hv
  | stop => rw [(stopStep_frame pool s).worker]; exact Or.inl hv
  | start w f b job hpc hctx hjob =>
    by_cases hvw : v = w
    · subst hvw
      have hf : b = .cb ∧ f = g := by simpa [hpc, Pc.about] using hv
      rw [← hf.2]
      exact Or.inr (Or.inr (Or.inr ⟨job, hjob, rfl⟩))
    · left
      simpa [setPc, setWorker, hvw] using hv
  | startEmpty w f b hpc hctx hjob =>
    by_cases hvw : v = w
    · subst hvw
      have hf : b = .cb ∧ f = g := by simpa [hpc, Pc.about] using hv
      rw [← hf.2]
      exact Or.inr (Or.inr (Or.inl hjob))
    · left
      simpa [setPc, setWorker, setState, setFiber, hvw] using hv
  | resume w f b hpc hctx =>
    by_cases hvw : v = w
    · subst hvw
      have hf : b = .cb ∧ f = g := by simpa [hpc, Pc.about] using hv
      rw [← hf.2]
      exact Or.inr (Or.inl hctx)
    · left
      simpa [setPc, setWorker, hvw] using hv
  | _ =>
    left
    refine update_intro (P := fun k : Worker W => k.pc.about = some g) hv ?_
    intro hw
    first
      | (simp [*, Pc.about, setFiber, setState, newFiber, push] at hw; done)
      | simpa [*, Pc.about, setFiber, setState] using hw

/-- A fiber loses its callback only to a worker in the middle of it, or to the worker whose
callback fiber it is. -/
theorem move_cb_keep (h : Move pool s a s') {g : FiberPtr} {job : Job}
    (hg : (s.fiber g).m_cb = some job) : (s'.fiber g).m_cb = some job ∨ s.nfiber ≤ g ∨
      (∃ v, (s.worker v).pc.midway = some g) ∨
      ∃ v, ((s.worker v).cb_fiber = some g ∨ (s.worker v).pc.own = some g) ∧
        (s.worker v).pc.about = none := by
  have hcall : ∀ pusher c, ((s.call pusher c).fiber g).m_cb = some job ∨ s.nfiber ≤ g := by
    intro pusher c
    rcases call_fiber s pusher c g with heq | ⟨hle, -⟩
    · rw [heq]; exact Or.inl hg
    · exact Or.inr hle
  cases h with
  | callOut c => exact (hcall none c).imp_right Or.inl
  | callIn w f b c hpc => exact (hcall (some w) c).imp_right Or.inl
  | stop => rw [(stopStep_frame pool s).fiber]; exact Or.inl hg
  | recycle w ft cb f hpc htask hslot hres =>
    by_cases hgf : g = f
    · exact Or.inr (Or.inr (Or.inr ⟨w, Or.inl (hgf ▸ hslot), by rw [hpc]; rfl⟩))
    · left
      simpa [setPc, setWorker, setFiber, hgf] using hg
  | create w ft cb hpc htask hslot =>
    by_cases hgf : g = s.nfiber
    · exact Or.inr (Or.inl (Nat.le_of_eq hgf.symm))
    · left
      simpa [setWorker, newFiber, setFiber, hgf] using hg
  | finish w f b hpc =>
    by_cases hgf : g = f
    · exact Or.inr (Or.inr (Or.inl ⟨w, by rw [hpc, hgf]; rfl⟩))
    · left
      simpa [setPc, setWorker, setFiber, hgf] using hg
  | clear w f hpc hstate =>
    by_cases hgf : g = f
    · exact Or.inr (Or.inr (Or.inr ⟨w, Or.inr (by rw [hpc, hgf]; rfl), by rw [hpc]; rfl⟩))
    · left
      simpa [setPc, setWorker, setFiber, hgf] using hg
  | _ =>
    left
    first
      | exact hg
      | exact update_intro (P := fun fb : Fiber => fb.m_cb = some job) hg id

omit [Fintype W] in
theorem init_pending (pool : Pool W) : (init pool).Pending := by
  refine ⟨?_, ?_⟩
  · intro ft hft; cases hft
  · intro f i hf; cases hf

/-- **A callback that was popped and is not started** stays with its worker, in hand or in the fiber that
the worker is about to switch to. -/
theorem move_kept (hex : s.Exist) (hsound : s.Sound) (hs : s.Pending) (h : Move pool s a s')
    {ft : FiberAndThread W} (hft : ft ∈ s.popped) {cb : Callback} (htask : ft.task = .cb cb)
    (hin : ft.serial ∉ s'.started) :
    (∃ w, (s'.worker w).pc.picks = some ft.serial) ∨
      ∃ w f, (s'.worker w).pc.about = some f ∧ s'.carries (.inr f) = some ft.serial := by
  have hold : ft.serial ∉ s.started := fun hin' => hin (move_started_subset h hin')
  rcases hs.all ft hft cb htask with hst | ⟨w, hw⟩ | ⟨w, f, hw, hf⟩
  · exact absurd hst hold
  · rcases move_picks_keep h hw with hw' | ⟨f, hf⟩
    · exact Or.inl ⟨w, hw'⟩
    · exact Or.inr ⟨w, f, hf⟩
  · right
    have hquiet := hs.quiet f _ hf hold
    have hslot := hsound.own w f (Pc.own_of_about hw)
    obtain ⟨job, hjob, hserial⟩ := carries_fiber.1 hf
    refine ⟨w, f, ?_, ?_⟩
    · rcases move_about h hw with hw' | hctx | hnone | ⟨job', hjob', heq⟩
      · exact hw'
      · exact absurd hctx hquiet.ctx
      · rw [hjob] at hnone; cases hnone
      · rw [hjob] at hjob'
        cases hjob'
        rw [heq, hserial] at hin
        exact absurd (List.mem_append_right _ List.mem_cons_self) hin
    · rcases move_cb_keep h hjob with hjob' | hle | ⟨v, hv⟩ | ⟨v, hv, hnone⟩
      · exact carries_fiber.2 ⟨job, hjob', hserial⟩
      · exact absurd (hex.slot w f hslot) (Nat.not_lt.2 hle)
      · exact absurd hv (hquiet.midway v)
      · -- only `w` itself could have reset it
        have heq := hsound.slot v w f (hv.elim id (hsound.own v f)) hslot
        rw [heq, hw] at hnone
        cases hnone

/-- **A fiber with a callback that is not started** stays quiet. -/
theorem move_pending_quiet (hex : s.Exist) (hsound : s.Sound) (hs : s.Pending)
    (h : Move pool s a s') {f : FiberPtr} {i : ℕ} (hf : s'.carries (.inr f) = some i)
    (hin : i ∉ s'.started) : s'.Quiet f := by
  have hold : i ∉ s.started := fun hin' => hin (move_started_subset h hin')
  obtain ⟨job, hjob, hserial⟩ := carries_fiber.1 hf
  rcases move_cb h hjob with hcb | ⟨-, hnone⟩ |
    ⟨v, ft, cb, rfl, hpc, htask, hpc', rfl, hslot, hctx⟩
  · have hquiet := hs.quiet f i (carries_fiber.2 ⟨job, hcb, hserial⟩) hold
    rcases move_quiet h hquiet with hq | ⟨job', hjob', -, heq⟩
    · exact hq
    · rw [hcb] at hjob'
      cases hjob'
      rw [heq, hserial] at hin
      exact absurd (List.mem_append_right _ List.mem_cons_self) hin
  · rw [hnone] at hserial; cases hserial
  · -- the callback was put into a spare fiber, or into a new one
    refine ⟨by rw [hctx]; simp, ?_⟩
    intro u hu
    rcases move_midway h hu with hmid | ⟨heq, hswitch, -⟩
    · rcases hslot with hslot | rfl
      · have hown : (s.worker v).pc.own ≠ some f := by rw [hpc]; simp [Pc.own]
        exact (hsound.spare v f hslot hown).2.midway u hmid
      · exact Nat.lt_irrefl _
          (hex.hand u _ (Pc.hand_of_taken (Pc.taken_of_on (Pc.on_of_midway hmid))))
    · cases heq
      rw [hpc] at hswitch
      cases hswitch

/-- **A move that switches to nobody else's fiber loses no callback.** -/
theorem move_pending (hex : s.Exist) (hsound : s.Sound) (hs : s.Pending)
    (h : Move pool s a s') : s'.Pending := by
  refine ⟨?_, fun f i hf hin => move_pending_quiet hex hsound hs h hf hin⟩
  intro ft hft cb htask
  by_cases hin : ft.serial ∈ s'.started
  · exact Or.inl hin
  right
  rcases move_popped h with heq | ⟨w, ft', -, hpc, heq⟩
  · rw [heq] at hft
    exact move_kept hex hsound hs h hft htask hin
  · rw [heq, List.mem_append, List.mem_singleton] at hft
    rcases hft with hft | rfl
    · exact move_kept hex hsound hs h hft htask hin
    · exact Or.inl ⟨w, by simp [hpc, Pc.picks, htask]⟩

end Scheduler

end Coroutine
