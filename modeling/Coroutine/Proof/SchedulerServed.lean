import Coroutine.Proof.SchedulerReturns

/-!
# No callback waits for ever

An infinite run of a scheduler that is not stopped. Tasks of all kinds are scheduled, by anyone and
without end; they yield, throw and end. The scan of a worker takes the first entry of the queue that
it may take, and entries are added at the back.

* `move_place`: no step puts an entry further back.
* `scan_place`: the scan of a worker takes the entry, if the worker may take it, or one before it.
* `runStep_nearer`: a worker that is not at the scan comes nearer to it.
* `queued_leads`: so a queued callback is taken, if a worker that may take it goes on.
* `callback_taken`: in a run in which one worker goes on and every task at last leaves it, each
  callback that it may take is taken, unless an assertion of the program fails first.
-/

namespace Coroutine

open Lib Filter

/-- The task leaves its worker: it yields, ends or throws. -/
def UserAct.leaves : UserAct → Bool
  | .call _ => false
  | _ => true

/-- The steps of a worker to its next scan. -/
def Pc.toScan {W : Type} (pc : Pc W) : ℕ := pc.left + pc.away

/-! ## A place in a list -/

/-- What `eraseP` erases stands before the entry, unless it is the entry or one behind it. -/
theorem idxOf_eraseP {α : Type} [DecidableEq α] {p : α → Bool} {l : List α} {x y : α}
    (hfind : l.find? p = some y) (hx : x ∈ l) : y = x ∨
      x ∈ l.eraseP p ∧ (l.eraseP p).idxOf x ≤ l.idxOf x ∧
        (p x = true → (l.eraseP p).idxOf x < l.idxOf x) := by
  induction l with
  | nil => cases hx
  | cons z l ih =>
    by_cases hxz : z = x
    · subst hxz
      by_cases hp : p z = true
      · rw [List.find?_cons_of_pos hp] at hfind
        exact Or.inl (Option.some.inj hfind).symm
      · rw [List.eraseP_cons_of_neg hp]
        refine Or.inr ⟨List.mem_cons_self, ?_, fun h => absurd h hp⟩
        rw [List.idxOf_cons_self]
        exact Nat.zero_le _
    · have hmem : x ∈ l := (List.mem_cons.1 hx).resolve_left fun h => hxz h.symm
      have hplace : (z :: l).idxOf x = l.idxOf x + 1 := List.idxOf_cons_ne l hxz
      by_cases hp : p z = true
      · rw [List.eraseP_cons_of_pos hp, hplace]
        exact Or.inr ⟨hmem, Nat.le_succ _, fun _ => Nat.lt_succ_self _⟩
      · rw [List.find?_cons_of_neg hp] at hfind
        rcases ih hfind hmem with heq | ⟨hstays, hle, hlt⟩
        · exact Or.inl heq
        · have hplace' : (z :: l.eraseP p).idxOf x = (l.eraseP p).idxOf x + 1 :=
            List.idxOf_cons_ne _ hxz
          rw [List.eraseP_cons_of_neg hp, hplace, hplace']
          refine Or.inr ⟨List.mem_cons_of_mem z hstays, by omega, fun h => ?_⟩
          have hless := hlt h
          omega

namespace Scheduler

variable {W : Type} [DecidableEq W] {pool : Pool W} {s s' : Scheduler W} {a : SchedAct W}
  {ft : FiberAndThread W}

/-! ## The place of an entry in the queue -/

/-- The entry is where it was in the queue, or further in front. -/
def Ahead (ft : FiberAndThread W) (s s' : Scheduler W) : Prop :=
  ft ∈ s'.m_fibers ∧ s'.m_fibers.idxOf ft ≤ s.m_fibers.idxOf ft

theorem ahead_of_eq (hft : ft ∈ s.m_fibers) (h : s'.m_fibers = s.m_fibers) : Ahead ft s s' := by
  unfold Ahead
  rw [h]
  exact ⟨hft, Nat.le_refl _⟩

theorem ahead_of_push (hft : ft ∈ s.m_fibers) {fts : List (FiberAndThread W)}
    (h : s'.m_fibers = s.m_fibers ++ fts) : Ahead ft s s' := by
  unfold Ahead
  rw [h, List.idxOf_append_of_mem hft]
  exact ⟨List.mem_append_left _ hft, Nat.le_refl _⟩

theorem call_ahead (hft : ft ∈ s.m_fibers) (pusher : Option W) (c : SchedCall) :
    Ahead ft s (s.call pusher c) := by
  refine call_inv (I := Ahead ft s) ?_ (fun _ _ h => h) (ahead_of_eq hft rfl) c
  rintro t task thread ⟨hmem, hle⟩ -
  have hpush : Ahead ft t (t.push task thread pusher) := ahead_of_push hmem rfl
  exact ⟨hpush.1, hpush.2.trans hle⟩

variable [Fintype W]

/-- **No step puts an entry further back**; it may be taken. -/
theorem move_place (h : Move pool s a s') (hft : ft ∈ s.m_fibers) :
    ft ∈ s'.popped ∨ Ahead ft s s' := by
  cases h with
  | callOut c => exact Or.inr (call_ahead hft none c)
  | callIn w f b c hpc => exact Or.inr (call_ahead hft (some w) c)
  | stop => exact Or.inr (ahead_of_eq hft (stopStep_frame pool s).fibers)
  | pop w ft' hpc hfind =>
    rcases idxOf_eraseP hfind hft with heq | ⟨hmem, hle, -⟩
    · subst heq
      exact Or.inl (List.mem_append_right _ (List.mem_singleton_self _))
    · exact Or.inr ⟨hmem, hle⟩
  | requeue w f hpc => exact Or.inr (ahead_of_push hft rfl)
  | requeueCb w f hpc => exact Or.inr (ahead_of_push hft rfl)
  | _ => exact Or.inr (ahead_of_eq hft rfl)

omit [Fintype W] in
/-- **The scan of a worker that may take the entry** takes it, or one before it. -/
theorem scan_place (pool : Pool W) (v : W) (htakes : s.takes (pool.tid v) ft = true)
    (hft : ft ∈ s.m_fibers) :
    ft ∈ (s.scan (pool.tid v) v).popped ∨
      ft ∈ (s.scan (pool.tid v) v).m_fibers ∧
        (s.scan (pool.tid v) v).m_fibers.idxOf ft < s.m_fibers.idxOf ft := by
  cases hfind : s.m_fibers.find? (s.takes (pool.tid v)) with
  | none => exact absurd htakes (List.find?_eq_none.1 hfind ft hft)
  | some ft' =>
    unfold scan
    rw [hfind]
    dsimp only
    rcases idxOf_eraseP hfind hft with heq | ⟨hmem, -, hlt⟩
    · subst heq
      exact Or.inl (List.mem_append_right _ (List.mem_singleton_self _))
    · exact Or.inr ⟨hmem, hlt htakes⟩

/-! ## The way to the scan -/

omit [Fintype W] in
/-- **A worker comes nearer to its next scan**, or an assertion fails. -/
theorem runStep_nearer (pool : Pool W) {v : W} (hout : (s.worker v).pc ≠ .out)
    (hexit : (s.worker v).pc ≠ .exited) (hterm : (s.worker v).idle ≠ .TERM)
    (hscan : (s.worker v).pc ≠ .scan) (hrun : ∀ f b, (s.worker v).pc ≠ .task .running f b) : (s.runStep pool v).fault ≠ none ∨
      ((s.runStep pool v).worker v).pc.toScan < (s.worker v).pc.toScan := by
  generalize hstep : s.runStep pool v = s'
  have hgo : ∀ {t : Scheduler W} {wk : Worker W}, s' = t → t.worker = Function.update s.worker v wk →
      wk.pc.toScan < (s.worker v).pc.toScan →
      s'.fault ≠ none ∨ (s'.worker v).pc.toScan < (s.worker v).pc.toScan := by
    rintro t wk rfl hworker hless
    rw [hworker, Function.update_self]
    exact Or.inr hless
  have hfail : ∀ {e : Fault}, s' = s.abort e →
      s'.fault ≠ none ∨ (s'.worker v).pc.toScan < (s.worker v).pc.toScan := by
    rintro e rfl
    exact Or.inl (Option.some_ne_none e)
  unfold runStep at hstep
  cases hpc : (s.worker v).pc with
  | out => exact absurd hpc hout
  | exited => exact absurd hpc hexit
  | scan => exact absurd hpc hscan
  | picked ft =>
    cases ft with
    | none =>
      rw [hpc] at hstep hgo
      exact hgo (hstep.symm.trans (if_neg hterm)) rfl (by simp [Pc.toScan, Pc.left, Pc.away])
    | some ft =>
      rw [hpc] at hstep hgo hfail
      dsimp only at hstep
      unfold take at hstep
      cases htask : ft.task with
      | fiber f =>
        rw [htask] at hstep
        -- a state is never both `TERM` and `EXCEPT`
        have hguard : (s.fiber f).m_state ≠ .TERM ∨ (s.fiber f).m_state ≠ .EXCEPT := by
          cases (s.fiber f).m_state <;> simp
        exact hgo (hstep.symm.trans (if_pos hguard)) rfl (by simp [Pc.toScan, Pc.left, Pc.away])
      | cb cb =>
        rw [htask] at hstep
        dsimp only at hstep
        cases hslot : (s.worker v).cb_fiber with
        | none =>
          rw [hslot] at hstep
          exact hgo hstep.symm rfl (by simp [Pc.toScan, Pc.left, Pc.away])
        | some c =>
          rw [hslot] at hstep
          by_cases hreset : (s.fiber c).resettable
          · exact hgo (hstep.symm.trans (if_pos hreset)) rfl (by simp [Pc.toScan, Pc.left, Pc.away])
          · exact hfail (hstep.symm.trans (if_neg hreset))
  | task stage f b =>
    rw [hpc] at hstep hgo hfail
    dsimp only at hstep
    unfold execute at hstep
    cases stage with
    | enter =>
      by_cases hstate : (s.fiber f).m_state = .EXEC
      · exact hfail (hstep.symm.trans (if_pos hstate))
      · exact hgo (hstep.symm.trans (if_neg hstate)) rfl (by simp [Pc.toScan, Pc.left, Pc.away])
    | switch =>
      dsimp only at hstep
      unfold switch at hstep
      cases hctx : (s.fiber f).m_ctx with
      | entry =>
        rw [hctx] at hstep
        cases hcb : (s.fiber f).m_cb with
        | none =>
          rw [hcb] at hstep
          exact hgo hstep.symm rfl (by simp [Pc.toScan, Pc.left, Pc.away])
        | some job =>
          rw [hcb] at hstep
          exact hgo hstep.symm rfl (by simp [Pc.toScan, Pc.left, Pc.away])
      | saved =>
        rw [hctx] at hstep
        exact hgo hstep.symm rfl (by simp [Pc.toScan, Pc.left, Pc.away])
      | ended =>
        rw [hctx] at hstep
        exact hfail hstep.symm
    | running => exact absurd hpc (hrun f b)
    | leaving ctx => exact hgo hstep.symm rfl (by simp [Pc.toScan, Pc.left, Pc.away])
    | back => exact hgo hstep.symm rfl (by simp [Pc.toScan, Pc.left, Pc.away])
    | fixup =>
      dsimp only at hstep
      unfold fixup at hstep
      cases hstate : (s.fiber f).m_state <;> cases b <;> rw [hstate] at hstep <;>
        exact hgo hstep.symm rfl (by simp [Pc.toScan, Pc.left, Pc.away])
    | requeue => cases b <;> exact hgo hstep.symm rfl (by simp [Pc.toScan, Pc.left, Pc.away])
  | idleIn =>
    rw [hpc] at hstep hgo
    exact hgo hstep.symm rfl (by simp [Pc.toScan, Pc.left, Pc.away])
  | idle =>
    rw [hpc] at hstep hgo
    exact hgo hstep.symm rfl (by simp [Pc.toScan, Pc.left, Pc.away])
  | idleOut =>
    rw [hpc] at hstep hgo
    exact hgo hstep.symm rfl (by simp [Pc.toScan, Pc.left, Pc.away])

/-- The step that worker `v` waits for: its own, or the one with which its task leaves it. -/
def Due (s : Scheduler W) (v : W) (a : SchedAct W) : Prop :=
  (∃ f b, (s.worker v).pc = .task .running f b ∧ ∃ u : UserAct, u.leaves = true ∧ a = .user v u) ∨
    (∀ f b, (s.worker v).pc ≠ .task .running f b) ∧ a = .run v

omit [Fintype W] in
theorem leave_nearer {v : W} {f : FiberPtr} {b : Branch} {u : UserAct}
    (hpc : (s.worker v).pc = .task .running f b) (hu : u.leaves = true) :
    ((s.userStep v u).worker v).pc.toScan < (s.worker v).pc.toScan := by
  unfold userStep
  rw [hpc]
  cases u with
  | call c => cases hu
  | _ => simp [setPc, setWorker, Pc.toScan, Pc.left, Pc.away]

/-- A worker is left alone by all but the step that it waits for. -/
theorem worker_of_not_due (pool : Pool W) {v : W} (h : ¬ s.Due v a) :
    (s.step pool a).worker v = s.worker v := by
  by_cases hfault : s.fault = none
  swap
  · rw [step_of_fault hfault]
  cases hmoves : a.moves v with
  | false => exact move_keeps (step_move pool s a) hmoves
  | true =>
    cases a with
    | run w =>
      have hw : w = v := of_decide_eq_true hmoves
      subst hw
      have hrun : ∃ f b, (s.worker w).pc = .task .running f b := by
        by_contra hno
        exact h (Or.inr ⟨fun f b hpc => hno ⟨f, b, hpc⟩, rfl⟩)
      obtain ⟨f, b, hpc⟩ := hrun
      rw [step_run hfault]
      unfold runStep
      rw [hpc]
      rfl
    | user w u =>
      have hw : w = v := of_decide_eq_true hmoves
      subst hw
      rw [step_user hfault]
      unfold userStep
      split
      · rename_i f b hpc
        cases u with
        | call c => exact congrFun (call_frame s (some w) c).worker w
        | yieldToHold => exact absurd (Or.inl ⟨f, b, hpc, .yieldToHold, rfl, rfl⟩) h
        | yieldToReady => exact absurd (Or.inl ⟨f, b, hpc, .yieldToReady, rfl, rfl⟩) h
        | finish => exact absurd (Or.inl ⟨f, b, hpc, .finish, rfl, rfl⟩) h
        | throw => exact absurd (Or.inl ⟨f, b, hpc, .throw, rfl, rfl⟩) h
      · rfl
    | call c => cases hmoves
    | stop => cases hmoves

/-! ## How long the entry has to wait -/

omit [Fintype W] in
/-- The scans of worker `v` until it comes to the entry, and the steps to the next one. -/
def wait (ft : FiberAndThread W) (v : W) (s : Scheduler W) : ℕ :=
  9 * s.m_fibers.idxOf ft + (s.worker v).pc.toScan

omit [DecidableEq W] [Fintype W] in
theorem toScan_le (pc : Pc W) : pc.toScan ≤ 8 := by
  unfold Pc.toScan
  cases pc with
  | picked ft => cases ft <;> simp [Pc.left, Pc.away]
  | task stage f b => cases stage <;> simp [Pc.left, Pc.away]
  | _ => simp [Pc.left, Pc.away]

omit [DecidableEq W] [Fintype W] in
/-- Worker `v` is in `run()`. -/
def Working (s : Scheduler W) (v : W) : Prop :=
  (s.worker v).pc ≠ .out ∧ (s.worker v).pc ≠ .exited ∧ (s.worker v).idle ≠ .TERM

/-- **The step that the worker waits for** takes the entry or shortens the wait, or an assertion
fails. -/
theorem wait_of_due {v : W} (hfault : s.fault = none) (hv : s.Working v) (hft : ft ∈ s.m_fibers)
    (htakes : s.takes (pool.tid v) ft = true) (hdue : s.Due v a) :
    ((s.step pool a).fault ≠ none ∨ ft ∈ (s.step pool a).popped) ∨
      ft ∈ (s.step pool a).m_fibers ∧ (s.step pool a).wait ft v < s.wait ft v := by
  have hplace := move_place (step_move pool s a) hft
  have hnearer : ((s.step pool a).worker v).pc.toScan < (s.worker v).pc.toScan →
      ((s.step pool a).fault ≠ none ∨ ft ∈ (s.step pool a).popped) ∨
        ft ∈ (s.step pool a).m_fibers ∧ (s.step pool a).wait ft v < s.wait ft v := by
    intro hless
    rcases hplace with htaken | ⟨hmem, hle⟩
    · exact Or.inl (Or.inr htaken)
    · refine Or.inr ⟨hmem, ?_⟩
      unfold wait
      omega
  rcases hdue with ⟨f, b, hpc, u, hu, rfl⟩ | ⟨hrun, rfl⟩
  · refine hnearer ?_
    rw [step_user hfault]
    exact leave_nearer hpc hu
  · have hstep : s.step pool (.run v) = s.runStep pool v := step_run hfault v
    by_cases hscan : (s.worker v).pc = .scan
    · have hrunStep : s.runStep pool v = s.scan (pool.tid v) v := by
        unfold runStep
        rw [hscan]
      rw [hstep, hrunStep]
      rcases scan_place pool v htakes hft with htaken | ⟨hmem, hlt⟩
      · exact Or.inl (Or.inr htaken)
      · have hle := toScan_le ((s.scan (pool.tid v) v).worker v).pc
        refine Or.inr ⟨hmem, ?_⟩
        unfold wait
        omega
    · rcases runStep_nearer pool hv.1 hv.2.1 hv.2.2 hscan hrun with hfail | hless
      · rw [hstep]
        exact Or.inl (Or.inl hfail)
      · refine hnearer ?_
        rw [hstep]
        exact hless

/-- **No other step** makes it longer. -/
theorem wait_of_not_due (pool : Pool W) {v : W} (hft : ft ∈ s.m_fibers) (hdue : ¬ s.Due v a) :
    ft ∈ (s.step pool a).popped ∨ ft ∈ (s.step pool a).m_fibers ∧
      (s.step pool a).worker v = s.worker v ∧ (s.step pool a).wait ft v ≤ s.wait ft v := by
  have hworker := worker_of_not_due pool hdue
  rcases move_place (step_move pool s a) hft with htaken | ⟨hmem, hle⟩
  · exact Or.inl htaken
  · refine Or.inr ⟨hmem, hworker, ?_⟩
    unfold wait
    rw [hworker]
    omega

/-! ## Runs that are not stopped -/

/-- **Worker `v` goes on again and again** in a run in which nobody calls `stop()`: it takes its
steps, and every task at last leaves it. -/
structure GoesOn (acts : ℕ → SchedAct W) (v : W) : Prop where
  unstopped : ∀ n, acts n ≠ .stop
  worker : ∃ᶠ n in atTop, acts n = .run v
  tasks : ∃ᶠ n in atTop, ∃ u : UserAct, u.leaves = true ∧ acts n = .user v u

/-- What holds as long as nobody calls `stop()`. -/
structure Unstopped (pool : Pool W) (s : Scheduler W) : Prop where
  stops : s.Stops pool
  out : ∀ w, (s.worker w).pc = .out → pool.root = some w
  stop : s.stopPc = .out

theorem step_unstopped [Nonempty W] (hs : s.Unstopped pool) (ha : a ≠ .stop) :
    (s.step pool a).Unstopped pool := by
  have hmove := step_move pool s a
  refine ⟨move_stops hs.stops hmove, fun w hw => hs.out w (move_to_out hmove hw), ?_⟩
  rcases move_flags hmove with ⟨hstop, -⟩ | ⟨hpc, -, -⟩
  · exact absurd hstop ha
  · rw [hpc]
    exact hs.stop

omit [DecidableEq W] [Fintype W] in
theorem Unstopped.working (hs : s.Unstopped pool) {v : W} (hv : pool.root ≠ some v) :
    s.Working v := by
  have hterm : (s.worker v).idle ≠ .TERM := fun h => (hs.stops.idle v h).called hs.stop
  exact ⟨fun h => hv (hs.out v h), fun h => hterm (hs.stops.exited v h), hterm⟩

variable {acts : ℕ → SchedAct W}

theorem GoesOn.unstopped_after (pool : Pool W) {v : W} (h : GoesOn acts v) (n : ℕ) :
    (after pool acts n).Unstopped pool := by
  have : Nonempty W := ⟨v⟩
  have hinit : (init pool).Unstopped pool := by
    refine ⟨init_stops pool, fun w hw => ?_, rfl⟩
    by_contra hroot
    have hpc : ((init pool).worker w).pc = .scan := if_neg hroot
    rw [hpc] at hw
    cases hw
  have hstep : ∀ n, (after pool acts n).Unstopped pool → (after pool acts (n + 1)).Unstopped pool :=
    fun n hs => step_unstopped hs (h.unstopped n)
  exact stateAt_inv (I := Unstopped pool) hinit hstep n

/-- **A queued callback is taken**, or an assertion fails. -/
theorem queued_leads (pool : Pool W) {w : W} (hw : pool.root ≠ some w) (h : GoesOn acts w)
    (hcb : ft.task.fiber? = none) (hthread : ft.thread = -1 ∨ ft.thread = pool.tid w) :
    LeadsTo (fun m => (after pool acts m).fault = none ∧ ft ∈ (after pool acts m).m_fibers)
      fun m => (after pool acts m).fault ≠ none ∨ ft ∈ (after pool acts m).popped := by
  let p : ℕ → Prop := fun m => (after pool acts m).fault = none ∧ ft ∈ (after pool acts m).m_fibers
  let q : ℕ → Prop := fun m => (after pool acts m).fault ≠ none ∨ ft ∈ (after pool acts m).popped
  show LeadsTo p q
  refine LeadsTo.induct (fun m => (after pool acts m).wait ft w) fun k => ?_
  rintro m ⟨hp, hk⟩
  -- the worker stands where it is until the step that it waits for
  let p' : ℕ → Prop := fun j =>
    p j ∧ (after pool acts j).wait ft w = k ∧
      (after pool acts j).worker w = (after pool acts m).worker w
  let q' : ℕ → Prop := fun j => q j ∨ p j ∧ (after pool acts j).wait ft w < k
  have hq : ∀ j, ft ∈ (after pool acts (j + 1)).m_fibers →
      (after pool acts (j + 1)).wait ft w < k → q' (j + 1) := by
    intro j hmem hless
    by_cases hfail : (after pool acts (j + 1)).fault = none
    · exact Or.inr ⟨⟨hfail, hmem⟩, hless⟩
    · exact Or.inl (Or.inl hfail)
  have hgo : ∀ j, p' j → (after pool acts j).Due w (acts j) → q' (j + 1) := by
    rintro j ⟨⟨hok, hmem⟩, hwait, -⟩ hdue
    have hworking := (h.unstopped_after pool j).working hw
    have htakes : (after pool acts j).takes (pool.tid w) ft = true :=
      takes_of_workable hcb hthread
    rcases wait_of_due hok hworking hmem htakes hdue with hend | ⟨hmem', hless⟩
    · exact Or.inl hend
    · exact hq j hmem' (hwait ▸ hless)
  have hkeep : ∀ j, p' j → p' (j + 1) ∨ q' (j + 1) := by
    rintro j ⟨⟨hok, hmem⟩, hwait, hsame⟩
    by_cases hdue : (after pool acts j).Due w (acts j)
    · exact Or.inr (hgo j ⟨⟨hok, hmem⟩, hwait, hsame⟩ hdue)
    rcases wait_of_not_due pool hmem hdue with htaken | ⟨hmem', hworker, hle⟩
    · exact Or.inr (Or.inl (Or.inr htaken))
    rcases Nat.lt_or_eq_of_le hle with hless | heq
    · exact Or.inr (hq j hmem' (hwait ▸ hless))
    · by_cases hfail : (after pool acts (j + 1)).fault = none
      · exact Or.inl ⟨⟨hfail, hmem'⟩, heq.trans hwait, hworker.trans hsame⟩
      · exact Or.inr (Or.inl (Or.inl hfail))
  have hp' : p' m := ⟨hp, hk, rfl⟩
  by_cases hrun : ∃ f b, ((after pool acts m).worker w).pc = .task .running f b
  · obtain ⟨f, b, hpc⟩ := hrun
    refine leadsTo_of_fair h.tasks hkeep (fun j hj hact => hgo j hj (Or.inl ⟨f, b, ?_, hact⟩)) m hp'
    rw [hj.2.2]
    exact hpc
  · refine leadsTo_of_fair h.worker hkeep (fun j hj hact => hgo j hj (Or.inr ⟨?_, hact⟩)) m hp'
    intro f b hpc
    rw [hj.2.2] at hpc
    exact hrun ⟨f, b, hpc⟩

/-- **No callback waits for ever.** Whatever else is scheduled and whatever the other workers do, a
queued callback that worker `w` may take is taken, by it or by another one, unless an assertion
fails. -/
theorem callback_taken {W : Type} [Fintype W] [DecidableEq W] (pool : Pool W)
    (acts : ℕ → SchedAct W) (w : W) (hw : pool.root ≠ some w) (h : GoesOn acts w) (n : ℕ)
    (ft : FiberAndThread W) (hft : ft ∈ (after pool acts n).m_fibers) (hcb : ft.task.fiber? = none)
    (hthread : ft.thread = -1 ∨ ft.thread = pool.tid w) :
    ∃ m, n ≤ m ∧ ((after pool acts m).fault ≠ none ∨ ft ∈ (after pool acts m).popped) := by
  by_cases hfault : (after pool acts n).fault = none
  · exact queued_leads pool hw h hcb hthread n ⟨hfault, hft⟩
  · exact ⟨n, Nat.le_refl n, Or.inl hfault⟩

/-- Callbacks are scheduled without end; the thread takes its steps, and each of them ends. -/
def endless (n : ℕ) : SchedAct Unit :=
  if n % 3 = 0 then .call (.scheduler (some (.cb 7)) (-1))
  else if n % 3 = 1 then .run () else .user () .finish

theorem callback_taken_endless : ∃ m, 1 ≤ m ∧ ((after oneThread endless m).fault ≠ none ∨
    ({ task := .cb 7, serial := 0, early := true, pusher := none } : FiberAndThread Unit) ∈
      (after oneThread endless m).popped) := by
  refine callback_taken oneThread endless () (by decide) ⟨fun n => ?_, ?_, ?_⟩ 1 _
    (List.mem_singleton_self _) rfl (Or.inl rfl)
  · unfold endless
    split
    · simp
    · split <;> simp
  · refine frequently_atTop.2 fun n => ⟨3 * n + 1, by omega, ?_⟩
    have hne : (3 * n + 1) % 3 ≠ 0 := by omega
    have hone : (3 * n + 1) % 3 = 1 := by omega
    exact (if_neg hne).trans (if_pos hone)
  · refine frequently_atTop.2 fun n => ⟨3 * n + 2, by omega, .finish, rfl, ?_⟩
    have hne : (3 * n + 2) % 3 ≠ 0 := by omega
    have hne' : (3 * n + 2) % 3 ≠ 1 := by omega
    exact (if_neg hne).trans (if_neg hne')

end Scheduler

end Coroutine
