import Coroutine.Lib.Run
import Coroutine.Proof.IoStopChange
import Coroutine.Proof.SchedulerClosing

/-!
# A clean shutdown of an `IOManager`

`stopping()` reads `m_timers`, then `m_pendingEventCount`, then the queue and the counter of active
threads. What it read first may have changed when it reads the last.

* `change_new_spent`: a worker becomes spent only by such a test, its own or, for the root fiber,
  that of `stop()`.
* `ending_of_change`: so when the last worker becomes spent nothing is left, if at that test
  nothing had changed and no worker was about to put a fiber back.
* `accounted_of_change`: every callback extracted is in the hands of one worker, or has its entry.
* `clean_shutdown`: then after `stop()` there are no timers, no pending events, and every callback
  extracted, or scheduled for any thread, has been started.
-/

namespace Coroutine

open Lib Scheduler

namespace IoStop

variable {W T κ : Type} {env : StopEnv W κ} {s s' : IoStop W T κ} {a : StopAct W T}

/-- Calls from other threads come before `stop()`. -/
def Early (s : IoStop W T κ) (a : StopAct W T) : Prop := a.outside = true → s.sched.stopPc = .out

/-- A switch made by the step is to a fiber no other worker is on. -/
def SwitchesAlone (s : IoStop W T κ) : StopAct W T → Prop
  | .run w _ _ => s.sched.SwitchesAlone (.run w)
  | _ => True

/-- **The last read of `stopping()`** returns true, in the idle fiber of `w`, or in `stop()` when `w`
is the root fiber. -/
def Passes (env : StopEnv W κ) (s : IoStop W T κ) : StopAct W T → W → Prop
  | .run v _ _, w => v = w ∧ (s.sched.worker w).pc = .idle ∧ s.idle w = .testing .counted ∧
      s.sched.stopping
  | .stop _, w => env.pool.root = some w ∧
      (s.sched.stopPc = .earlyTest ∨ s.sched.stopPc = .test) ∧ s.test = .counted ∧ s.sched.stopping
  | _, _ => False

/-- **The last worker's test is up to date**: when it passes there are still no timers and no
pending events, and no worker is about to put a fiber back. -/
def UpToDate (env : StopEnv W κ) (s : IoStop W T κ) (a : StopAct W T) : Prop :=
  ∀ w, s.Passes env a w → (∀ v, v ≠ w → s.sched.Spent env.pool v) →
    s.timers.m_timers = [] ∧ s.io.m_pendingEventCount = 0 ∧ ∀ v, ¬ s.sched.PutsBack v

instance [DecidableEq W] (pool : Pool W) (s : Scheduler W) : DecidablePred (s.Spent pool) :=
  fun _ => inferInstanceAs (Decidable (_ ∨ _))

instance (s : IoStop W T κ) : DecidablePred s.Early := fun _ => inferInstanceAs (Decidable (_ → _))

instance [DecidableEq W] [Fintype W] (s : IoStop W T κ) : DecidablePred s.SwitchesAlone
  | .run w _ _ => inferInstanceAs (Decidable (s.sched.SwitchesAlone (.run w)))
  | .user _ _ | .call _ _ | .timer _ _ | .event _ _ | .trigger _ | .wake _ _ | .stop _ => isTrue trivial

instance [DecidableEq W] (env : StopEnv W κ) (s : IoStop W T κ) (w : W) :
    DecidablePred fun a => s.Passes env a w
  | .run _ _ _ => inferInstanceAs (Decidable (_ ∧ _))
  | .stop _ => inferInstanceAs (Decidable (_ ∧ _))
  | .user _ _ | .call _ _ | .timer _ _ | .event _ _ | .trigger _ | .wake _ _ => isFalse id

instance [DecidableEq W] [Fintype W] (env : StopEnv W κ) (s : IoStop W T κ) :
    DecidablePred (s.UpToDate env) := fun a =>
  have (w : W) : Decidable (s.Passes env a w) := inferInstanceAs (Decidable ((fun a => s.Passes env a w) a))
  have : DecidablePred s.sched.PutsBack := fun v =>
    inferInstanceAs (Decidable ((s.sched.worker v).pc.PutsBack s.sched.fiber))
  inferInstanceAs (Decidable (∀ w, s.Passes env a w → (∀ v, v ≠ w → s.sched.Spent env.pool v) → _))

/-- A callback extracted has its entry. -/
def Handed (env : StopEnv W κ) (s : IoStop W T κ) (k : ℕ) (cb : TimerCb) : Prop :=
  ∃ ft ∈ s.sched.pushed, s.entry k = some ft.serial ∧ ft.free = true ∧
    ft.task = .cb (env.function cb)

/-- **A clean shutdown.** -/
structure Clean (env : StopEnv W κ) (s : IoStop W T κ) : Prop where
  timers : s.timers.m_timers = []
  pending : s.io.m_pendingEventCount = 0
  /-- what was scheduled for any thread has been started -/
  scheduled : ∀ ft ∈ s.sched.pushed, ft.free = true → ft.serial ∈ s.sched.started
  /-- what was extracted has been scheduled, each under a number of its own -/
  extracted : ∀ k cb, s.extracted[k]? = some (some cb) → s.Handed env k cb
  entry : Exclusive s.entry

/-! ## The scheduler -/

/-- What handing out does to the scheduler. -/
theorem handOut_sched (s : IoStop W T κ) (k : ℕ) (cbs : List (Option TimerCb)) :
    (s.handOut env k cbs).sched =
      s.sched.call none (.batch (cbs.map fun cb => cb.map fun cb => .cb (env.function cb))) := by
  induction cbs generalizing s k with
  | nil => rfl
  | cons cb cbs ih => exact ih (s.handOne env k cb) (k + 1)

variable [DecidableEq W] [Fintype W]

/-- **Every change is a step of the scheduler.** -/
theorem change_shift (h : Change env s a s') (ha : s.SwitchesAlone a) :
    Shift env.pool s.sched s'.sched := by
  have hstay : Shift env.pool s.sched s.sched :=
    .move (.call (.newFiber none)) _ (.stay _) nofun trivial
  have hcall : ∀ c, Shift env.pool s.sched (s.sched.call none c) :=
    fun c => .move (.call c) _ (.callOut c) nofun trivial
  cases h with
  | stay => exact hstay
  | abort a e => exact .move (.call (.newFiber none)) _ (.abort _ e) nofun trivial
  | run w now_ms probe idle sched hpc h hidle => exact .move (.run w) _ h nofun ha
  | user w u => exact .move (.user w u) _ (userStep_move w u) nofun trivial
  | call th c => exact hcall c
  | stop now_ms hearly htest => exact .stop hearly htest
  | ask now_ms s' hstill hsched hidle => rw [hsched]; exact hstay
  | tested now_ms b yes no s' hpc hb hstill hsched hidle =>
    rw [hsched]
    refine .tested _ ?_
    rcases hpc with ⟨hpc, rfl, rfl⟩ | ⟨hpc, rfl, rfl⟩
    · exact .inl ⟨hpc, by cases b <;> simp⟩
    · exact .inr ⟨hpc, by cases b <;> simp⟩
  | turn a w pc s' hpc hold hnew hstill hsched hidle => rw [hsched]; exact hstay
  | pass w now_ms probe hpc hidle hstop => exact .move (.run w) _ (.idleStop w hpc hstop) nofun ha
  | yield w now_ms probe hpc hidle => exact .move (.run w) _ (.idleYield w hpc) nofun ha
  | expire w now_ms probe now cbs events timers hpc hidle => exact hstay
  | handOut w now_ms probe first cbs events hpc hidle =>
    show Shift env.pool s.sched (s.handOut env first cbs).sched
    rw [handOut_sched]
    exact hcall _
  | inCall a q s' hq hsched hidle hextracted hentry =>
    rcases hsched with hsched | ⟨task, hsched⟩ <;> rw [hsched]
    · exact hstay
    · exact hcall _

/-- **A worker becomes spent only by passing its test.** -/
theorem change_new_spent (h : Change env s a s') {v : W} (hv : s'.sched.Spent env.pool v) :
    s.sched.Spent env.pool v ∨ s.Passes env a v := by
  have hcall : ∀ c, (s.sched.call none c).Spent env.pool v → s.sched.Spent env.pool v := by
    intro c hv
    have hm : Move env.pool s.sched (.call c) (s.sched.call none c) := .callOut c
    exact (move_new_spent hm nofun hv).resolve_right fun h => nomatch h.1
  cases h with
  | stay => exact .inl hv
  | abort a e => exact .inl hv
  | run w now_ms probe idle sched hpc h hidle =>
    rcases move_new_spent h nofun hv with hold | ⟨hw, hin⟩
    · exact .inl hold
    · cases hw
      exact absurd hin hpc
  | user w u =>
    exact .inl ((move_new_spent (userStep_move w u) nofun hv).resolve_right fun h => nomatch h.1)
  | call th c => exact .inl (hcall c hv)
  | stop now_ms hearly htest => exact .inl (stopStep_new_spent hv hearly htest)
  | ask now_ms s' hstill hsched hidle => rw [hsched] at hv; exact .inl hv
  -- only a test that lets `stop()` go on to join makes the root's worker spent
  | tested now_ms b yes no s' hpc hb hstill hsched hidle =>
    rw [hsched] at hv
    rcases hv with hterm | ⟨hroot, hout, hjoin⟩
    · exact .inl (.inl hterm)
    · cases b with
      | true =>
        obtain ⟨hcounted, hstop⟩ := hb rfl
        exact .inr ⟨hroot, hpc.imp (·.1) (·.1), hcounted, hstop⟩
      | false => rcases hpc with ⟨-, -, rfl⟩ | ⟨-, -, rfl⟩ <;> rcases hjoin with h | h <;> cases h
  | turn a w pc s' hpc hold hnew hstill hsched hidle => rw [hsched] at hv; exact .inl hv
  | pass w now_ms probe hpc hidle hstop =>
    have hm : Move env.pool s.sched (.run w) (s.leaveIdle w .TERM).sched := .idleStop w hpc hstop
    rcases move_new_spent hm nofun hv with hold | ⟨hw, -⟩
    · exact .inl hold
    · cases hw
      exact .inr ⟨rfl, hpc, hidle, hstop⟩
  | yield w now_ms probe hpc hidle =>
    have hm : Move env.pool s.sched (.run w) (s.leaveIdle w .HOLD).sched := .idleYield w hpc
    left
    rcases hv with hterm | ⟨hroot, hout, hjoin⟩
    · rcases update_elim (P := fun k : Worker W => k.idle = .TERM) hterm with ⟨-, h⟩ | ⟨-, h⟩
      · cases h
      · exact .inl h
    · exact .inr ⟨hroot, move_to_out hm hout, hjoin⟩
  | expire w now_ms probe now cbs events timers hpc hidle => exact .inl hv
  | handOut w now_ms probe first cbs events hpc hidle =>
    refine .inl (hcall (.batch (cbs.map fun cb => cb.map fun cb => .cb (env.function cb))) ?_)
    rw [← handOut_sched s first cbs]
    exact hv
  | inCall a q s' hq hsched hidle hextracted hentry =>
    rcases hsched with hsched | ⟨task, hsched⟩ <;> rw [hsched] at hv
    · exact .inl hv
    · exact .inl (hcall _ hv)

/-! ## The end of the work -/

/-- **Nothing is left to do**: no timers, no pending events, and a scheduler that is stopped. -/
structure Over (s : IoStop W T κ) : Prop where
  timers : s.timers.m_timers = []
  pending : s.io.m_pendingEventCount = 0
  stopped : s.sched.Stopped

omit [DecidableEq W] [Fintype W] in
/-- A worker that calls on the timers or the events executes a task, or is in `idle()`. -/
theorem calls_worker {w : W} (h : s.Calls a (.inl w)) :
    (s.sched.worker w).pc.Executes ∨ a = .trigger (.inl w) ∧ (s.sched.worker w).pc = .idle := by
  have huser : s.inUser (.inl w) = true → (s.sched.worker w).pc.Executes := by
    intro hq
    simp only [inUser] at hq
    split at hq
    · rename_i hpc; rw [hpc]; trivial
    · cases hq
  rcases h with ⟨-, hq⟩ | ⟨-, hq⟩ | ⟨ha, hq⟩
  · exact .inl (huser hq)
  · exact .inl (huser hq)
  · simp only [inCall] at hq
    split at hq
    · rename_i hpc; left; rw [hpc]; trivial
    · rename_i hpc; exact .inr ⟨ha, hpc⟩
    · cases hq

/-- **Nothing comes back** but by a worker in `idle()` that is past its test, or from outside. -/
theorem change_over (ho : s.Over) (h : Change env s a s') (hout : a.outside = false)
    (hrun : ∀ w now_ms probe, a = .run w now_ms probe → (s.sched.worker w).pc = .idle →
      s.idle w = .testing .counted)
    (htrigger : ∀ w, a = .trigger (.inl w) → (s.sched.worker w).pc ≠ .idle) : s'.Over := by
  have hgo : ∀ {b : SchedAct W} {t : IoStop W T κ}, Move env.pool s.sched b t.sched →
      (∀ c, b ≠ .call c) → s.Still t → t.Over := fun hmove hb hstill =>
    ⟨hstill.timers.trans ho.timers, hstill.pending.trans ho.pending,
      move_stopped ho.stopped hmove hb⟩
  have hstill : ∀ {t : IoStop W T κ}, s.Still t → t.sched = s.sched → t.Over := fun hst hsched =>
    ⟨hst.timers.trans ho.timers, hst.pending.trans ho.pending, by rw [hsched]; exact ho.stopped⟩
  cases h with
  | stay => exact ho
  | abort a e => exact ⟨ho.timers, ho.pending, ⟨ho.stopped.queue, ho.stopped.idle, ho.stopped.hand⟩⟩
  | run w now_ms probe idle sched hpc h hidle => exact hgo h nofun ⟨rfl, rfl, rfl, rfl⟩
  | user w u => exact hgo (userStep_move w u) nofun ⟨rfl, rfl, rfl, rfl⟩
  | call th c => cases hout
  | stop now_ms hearly htest => exact hgo .stop nofun ⟨rfl, rfl, rfl, rfl⟩
  | ask now_ms s' hst hsched hidle => exact hstill hst hsched
  | tested now_ms b yes no s' hpc hb hst hsched hidle =>
    refine ⟨hst.timers.trans ho.timers, hst.pending.trans ho.pending, ?_⟩
    rw [hsched]
    exact ⟨ho.stopped.queue, ho.stopped.idle, ho.stopped.hand⟩
  | turn a w pc s' hpc hold hnew hst hsched hidle => exact hstill hst hsched
  | pass w now_ms probe hpc hidle hstop =>
    exact hgo (.idleStop w hpc hstop) nofun ⟨rfl, rfl, rfl, rfl⟩
  | yield w now_ms probe hpc hidle => exact hgo (.idleYield w hpc) nofun ⟨rfl, rfl, rfl, rfl⟩
  -- whoever is past its test is not on its way to the timers
  | expire w now_ms probe now cbs events timers hpc hidle =>
    rw [hrun w now_ms probe rfl hpc] at hidle
    cases hidle
  | handOut w now_ms probe first cbs events hpc hidle =>
    rw [hrun w now_ms probe rfl hpc] at hidle
    cases hidle
  | inCall a q s' hq hsched hidle hextracted hentry =>
    cases q with
    | inl w =>
      rcases calls_worker hq with hex | ⟨ha, hpc⟩
      · exact absurd hex (ho.stopped.idle w)
      · exact absurd hpc (htrigger w ha)
    | inr th =>
      rcases hq with ⟨⟨o, rfl⟩, -⟩ | ⟨⟨o, rfl⟩, -⟩ | ⟨rfl, -⟩ <;> cases hout

/-- **When the last worker becomes spent nothing is left**, if its test was up to date. -/
theorem ending_of_change [Nonempty W] (hs : s.sched.Kept env.pool)
    (hover : (∀ v, s.sched.Spent env.pool v) → s.Over) (h : Change env s a s') (hearly : s.Early a)
    (htest : s.UpToDate env a) (hall : ∀ v, s'.sched.Spent env.pool v) : s'.Over := by
  by_cases hbefore : ∀ v, s.sched.Spent env.pool v
  · have hidle : ∀ w, (s.sched.worker w).pc ≠ .idle := fun w =>
      (not_idle_of_spent hs.closing (hbefore w)).2
    have hcalled : s.sched.stopPc ≠ .out := by
      obtain ⟨w⟩ := ‹Nonempty W›
      rcases hbefore w with hterm | ⟨-, -, hjoin⟩
      · exact hs.called w hterm
      · rcases hjoin with h | h <;> rw [h] <;> nofun
    refine change_over (hover hbefore) h ?_ (fun w _ _ _ hpc => absurd hpc (hidle w))
      fun w _ => hidle w
    cases hout : a.outside with
    | false => rfl
    | true => exact absurd (hearly hout) hcalled
  · obtain ⟨v, hv⟩ := not_forall.1 hbefore
    have hpass := (change_new_spent h (hall v)).resolve_left hv
    -- one worker at a time becomes spent
    have hothers : ∀ u, u ≠ v → s.sched.Spent env.pool u := by
      intro u hu
      refine (change_new_spent h (hall u)).resolve_right fun hpass' => hu ?_
      cases a with
      | run w now_ms probe => exact hpass'.1.symm.trans hpass.1
      | stop now_ms => exact Option.some.inj (hpass'.1.symm.trans hpass.1)
      | _ => cases hpass
    obtain ⟨htimers, hpending, hput⟩ := htest v hpass hothers
    have hstop : s.sched.stopping := by
      cases a with
      | run w now_ms probe => exact hpass.2.2.2
      | stop now_ms => exact hpass.2.2.2
      | _ => cases hpass
    have ho : s.Over := ⟨htimers, hpending, stopped_of_stopping hs.counted hstop hput⟩
    refine change_over ho h ?_ ?_ ?_
    · cases a with
      | run w now_ms probe => rfl
      | stop now_ms => rfl
      | _ => cases hpass
    · rintro w now_ms probe rfl _
      obtain ⟨rfl, -, hcounted, -⟩ := hpass
      exact hcounted
    · rintro w rfl
      cases hpass

/-! ## The callbacks extracted -/

/-- **Every callback extracted is accounted for**: a worker still has it, or it has its entry. -/
structure Accounted (env : StopEnv W κ) (s : IoStop W T κ) : Prop where
  held : ∀ w first cbs, (s.idle w).holds = some (first, cbs) → (s.sched.worker w).pc = .idle ∧
    ∀ j cb, cbs[j]? = some cb → s.extracted[first + j]? = some cb
  known : ∀ k cb, s.extracted[k]? = some (some cb) → s.Handed env k cb ∨
    ∃ w first cbs, (s.idle w).holds = some (first, cbs) ∧ first ≤ k ∧ k < first + cbs.length
  once : Exclusive s.entry
  fresh : ∀ k i, s.entry k = some i → i < s.sched.pushed.length

omit [DecidableEq W] [Fintype W] in
theorem Handed.mono {t : IoStop W T κ} {k : ℕ} {cb : TimerCb} (h : s.Handed env k cb)
    (hentry : t.entry k = s.entry k) (hpushed : s.sched.pushed <+: t.sched.pushed) :
    t.Handed env k cb := by
  obtain ⟨ft, hft, hk, hfree, htask⟩ := h
  exact ⟨ft, hpushed.subset hft, by rw [hentry]; exact hk, hfree, htask⟩

omit [DecidableEq W] [Fintype W] in
/-- What a step that extracts and hands out nothing has to keep. -/
theorem accounted_of_frame {t : IoStop W T κ} (hs : s.Accounted env)
    (hidle : ∀ v, (t.idle v).holds = (s.idle v).holds) (hextracted : t.extracted = s.extracted)
    (hentry : t.entry = s.entry) (hpushed : s.sched.pushed <+: t.sched.pushed)
    (hpc : ∀ v, (s.idle v).holds.isSome → (s.sched.worker v).pc = .idle →
      (t.sched.worker v).pc = .idle) : t.Accounted env := by
  refine ⟨?_, ?_, ?_, ?_⟩
  · intro w first cbs hw
    rw [hidle] at hw
    obtain ⟨hin, hcbs⟩ := hs.held w first cbs hw
    refine ⟨hpc w (by rw [hw]; rfl) hin, ?_⟩
    rw [hextracted]
    exact hcbs
  · intro k cb hk
    rw [hextracted] at hk
    rcases hs.known k cb hk with hhanded | ⟨w, first, cbs, hw, hlt⟩
    · exact .inl (hhanded.mono (congrFun hentry k) hpushed)
    · exact .inr ⟨w, first, cbs, by rw [hidle]; exact hw, hlt⟩
  · rw [hentry]; exact hs.once
  · intro k i hk
    rw [hentry] at hk
    exact Nat.lt_of_lt_of_le (hs.fresh k i hk) hpushed.length_le

/-- What handing out has done. -/
structure HandedOut (env : StopEnv W κ) (s t : IoStop W T κ) (k : ℕ) (cbs : List (Option TimerCb)) :
    Prop where
  pushed : s.sched.pushed <+: t.sched.pushed
  old : ∀ n cb, s.Handed env n cb → n < k ∨ k + cbs.length ≤ n → t.Handed env n cb
  new : ∀ j cb, cbs[j]? = some (some cb) → t.Handed env (k + j) cb
  once : Exclusive t.entry
  fresh : ∀ n i, t.entry n = some i → i < t.sched.pushed.length

omit [DecidableEq W] [Fintype W] in
theorem handOne_handedOut (env : StopEnv W κ) (hone : Exclusive s.entry)
    (hfresh : ∀ n i, s.entry n = some i → i < s.sched.pushed.length) (k : ℕ) (cb : Option TimerCb) :
    HandedOut env s (s.handOne env k cb) k [cb] := by
  cases cb with
  | none =>
    refine ⟨List.prefix_refl _, fun n cb hn _ => hn, ?_, hone, hfresh⟩
    intro j cb hj
    cases j <;> simp at hj
  | some cb =>
    have hsched : (s.handOne env k (some cb)).sched =
        s.sched.push (.cb (env.function cb)) (-1) none := by
      simp [handOne, scheduleNoLock, exist]
    have hpushed : s.sched.pushed <+: (s.handOne env k (some cb)).sched.pushed := by
      rw [hsched]
      exact List.prefix_append _ _
    have hentry : (s.handOne env k (some cb)).entry =
        Function.update s.entry k (some s.sched.pushed.length) := rfl
    refine ⟨hpushed, ?_, ?_, ?_, ?_⟩
    · intro n cb' hn hout
      refine hn.mono ?_ hpushed
      rw [hentry, Function.update_of_ne]
      rcases hout with h | h
      · exact Nat.ne_of_lt h
      · exact Nat.ne_of_gt h
    · intro j cb' hj
      obtain ⟨rfl, rfl⟩ : j = 0 ∧ cb = cb' := by
        cases j with
        | zero => simpa using hj
        | succ j => simp at hj
      let ft : FiberAndThread W :=
        { task := .cb (env.function cb), thread := -1, serial := s.sched.pushed.length
          early := s.sched.stopPc = .out, pusher := none }
      refine ⟨ft, ?_, ?_, rfl, rfl⟩
      · rw [hsched]
        exact List.mem_append_right _ List.mem_cons_self
      · rw [hentry]
        exact Function.update_self ..
    · rw [hentry]
      -- its number is that of the next push, which no other callback has
      refine hone.acquire fun n _ hn => ?_
      exact Nat.lt_irrefl _ (hfresh n _ hn)
    · intro n i hn
      rw [hsched]
      simp only [push, List.length_append, List.length_singleton]
      rw [hentry] at hn
      rcases update_elim (P := fun o => o = some i) hn with ⟨-, heq⟩ | ⟨-, hn⟩
      · cases heq
        exact Nat.lt_succ_self _
      · exact Nat.lt_succ_of_lt (hfresh n i hn)

omit [DecidableEq W] [Fintype W] in
/-- **Handing out** gives each of the callbacks its entry. -/
theorem handOut_handedOut (env : StopEnv W κ) (hone : Exclusive s.entry)
    (hfresh : ∀ n i, s.entry n = some i → i < s.sched.pushed.length) (k : ℕ)
    (cbs : List (Option TimerCb)) : HandedOut env s (s.handOut env k cbs) k cbs := by
  induction cbs generalizing s k with
  | nil => exact ⟨List.prefix_refl _, fun n cb hn _ => hn, fun j cb hj => by simp at hj, hone, hfresh⟩
  | cons cb cbs ih =>
    have hfirst := handOne_handedOut env hone hfresh k cb
    have hrest := ih hfirst.once hfirst.fresh (k + 1)
    refine ⟨hfirst.pushed.trans hrest.pushed, ?_, ?_, hrest.once, hrest.fresh⟩
    · intro n cb' hn hout
      rw [List.length_cons] at hout
      exact hrest.old n cb' (hfirst.old n cb' hn (by simp only [List.length_singleton]; omega)) (by omega)
    · intro j cb' hj
      cases j with
      | zero =>
        refine hrest.old k cb' (hfirst.new 0 cb' ?_) (.inl (Nat.lt_succ_self k))
        simpa using hj
      | succ j =>
        have hnext := hrest.new j cb' (by simpa using hj)
        rwa [Nat.add_right_comm] at hnext

omit [DecidableEq W] [Fintype W] in
theorem handOut_frame (env : StopEnv W κ) (s : IoStop W T κ) (k : ℕ) (cbs : List (Option TimerCb)) :
    (s.handOut env k cbs).idle = s.idle ∧ (s.handOut env k cbs).extracted = s.extracted := by
  induction cbs generalizing s k with
  | nil => exact ⟨rfl, rfl⟩
  | cons cb cbs ih => exact ih (s.handOne env k cb) (k + 1)

omit [DecidableEq W] [Fintype W] in
theorem Accounted.holds_none (hs : s.Accounted env) {w : W} (hpc : (s.sched.worker w).pc ≠ .idle) :
    (s.idle w).holds = none := by
  cases hholds : (s.idle w).holds with
  | none => rfl
  | some p => exact absurd (hs.held w p.1 p.2 hholds).1 hpc

omit [DecidableEq W] [Fintype W] in
/-- What a step that does nothing to the scheduler's workers has to keep. -/
theorem accounted_of_still {t : IoStop W T κ} (hs : s.Accounted env)
    (hidle : ∀ v, (t.idle v).holds = (s.idle v).holds) (hextracted : t.extracted = s.extracted)
    (hentry : t.entry = s.entry) (hworker : t.sched.worker = s.sched.worker)
    (hpushed : t.sched.pushed = s.sched.pushed) : t.Accounted env := by
  refine accounted_of_frame hs hidle hextracted hentry ?_ fun v _ hv => ?_
  · rw [hpushed]
  · rw [hworker]
    exact hv

/-- A worker that still has callbacks moves only in `idle()`. -/
theorem accounted_of_move {t : IoStop W T κ} {b : SchedAct W} (hs : s.Accounted env)
    (hm : Move env.pool s.sched b t.sched) (hidle : ∀ v, (t.idle v).holds = (s.idle v).holds)
    (hextracted : t.extracted = s.extracted) (hentry : t.entry = s.entry)
    (hfree : ∀ w, b = .run w → (s.idle w).holds = none) : t.Accounted env := by
  refine accounted_of_frame hs hidle hextracted hentry (move_pushed hm) fun v hholds hv => ?_
  rcases move_idle_keep hm hv with heq | rfl
  · rw [heq]
    exact hv
  · rw [hfree v rfl] at hholds
    cases hholds

theorem accounted_of_call {t : IoStop W T κ} {c : SchedCall} (hs : s.Accounted env)
    (hsched : t.sched = s.sched.call none c) (hidle : t.idle = s.idle)
    (hextracted : t.extracted = s.extracted) (hentry : t.entry = s.entry) : t.Accounted env := by
  have hm : Move env.pool s.sched (.call c) t.sched := by
    rw [hsched]
    exact .callOut c
  exact accounted_of_move hs hm (fun v => by rw [hidle]) hextracted hentry nofun

omit [Fintype W] in
/-- **The callbacks that `listExpiredCb` extracts** are the worker's. -/
theorem accounted_of_expire (hs : s.Accounted env) {w : W} (timers : TimerManager)
    (cbs : List (Option TimerCb)) (events : List (ℕ × BitVec 32))
    (hpc : (s.sched.worker w).pc = .idle) (hold : (s.idle w).holds = none) :
    Accounted env { s.setIdle w (.expired s.extracted.length cbs events) with
      timers := timers, extracted := s.extracted ++ cbs } := by
  refine ⟨?_, ?_, hs.once, hs.fresh⟩
  · intro v first cbs' hv
    rcases update_elim (P := fun i : Idling => i.holds = some (first, cbs')) hv with
      ⟨rfl, heq⟩ | ⟨-, hv⟩
    · -- the worker's own, at the end of the record
      cases heq
      refine ⟨hpc, fun j cb hj => ?_⟩
      show (s.extracted ++ cbs)[_]? = _
      rw [List.getElem?_append_right (Nat.le_add_right _ _), Nat.add_sub_cancel_left]
      exact hj
    · obtain ⟨hin, hcbs⟩ := hs.held v first cbs' hv
      refine ⟨hin, fun j cb hj => ?_⟩
      have hbefore := hcbs j cb hj
      show (s.extracted ++ cbs)[_]? = _
      rw [List.getElem?_append_left (List.getElem?_eq_some_iff.1 hbefore).1]
      exact hbefore
  · intro k cb hk
    change (s.extracted ++ cbs)[k]? = _ at hk
    by_cases hlt : k < s.extracted.length
    · rw [List.getElem?_append_left hlt] at hk
      rcases hs.known k cb hk with hhanded | ⟨v, first, cbs', hv, hrange⟩
      · exact .inl (hhanded.mono rfl (List.prefix_refl _))
      · refine .inr ⟨v, first, cbs', ?_, hrange⟩
        -- it had none before
        have hvw : v ≠ w := by
          rintro rfl
          rw [hold] at hv
          cases hv
        show (Function.update s.idle w _ v).holds = _
        rw [Function.update_of_ne hvw]
        exact hv
    · have hend := (List.getElem?_eq_some_iff.1 hk).1
      rw [List.length_append] at hend
      refine .inr ⟨w, s.extracted.length, cbs, ?_, Nat.le_of_not_lt hlt, hend⟩
      show (Function.update s.idle w _ w).holds = _
      rw [Function.update_self]
      rfl

/-- **The callbacks that the worker hands out** have their entries. -/
theorem accounted_of_handOut (hs : s.Accounted env) {w : W} {first : ℕ}
    {cbs : List (Option TimerCb)} (events : List (ℕ × BitVec 32))
    (hw : (s.idle w).holds = some (first, cbs)) :
    Accounted env ((s.handOut env first cbs).setIdle w (.events events)) := by
  have hhands := handOut_handedOut env hs.once hs.fresh first cbs
  obtain ⟨hsame, hextracted⟩ := handOut_frame env s first cbs
  have hm : Move env.pool s.sched
      (.call (.batch (cbs.map fun cb => cb.map fun cb => .cb (env.function cb))))
      (s.handOut env first cbs).sched := by
    rw [handOut_sched]
    exact .callOut _
  have hidle : ((s.handOut env first cbs).setIdle w (.events events)).idle =
      Function.update s.idle w (.events events) := by
    rw [← hsame]
    rfl
  refine ⟨?_, ?_, hhands.once, hhands.fresh⟩
  · intro v first' cbs' hv
    rw [hidle] at hv
    rcases update_elim (P := fun i : Idling => i.holds = some (first', cbs')) hv with
      ⟨-, heq⟩ | ⟨-, hv⟩
    · cases heq
    · obtain ⟨hin, hcbs⟩ := hs.held v first' cbs' hv
      have hstay : ((s.handOut env first cbs).sched.worker v).pc = .idle := by
        rcases move_idle_keep hm hin with heq | hrun
        · rw [heq]
          exact hin
        · cases hrun
      refine ⟨hstay, fun j cb hj => ?_⟩
      show (s.handOut env first cbs).extracted[_]? = _
      rw [hextracted]
      exact hcbs j cb hj
  · intro k cb hk
    change (s.handOut env first cbs).extracted[k]? = _ at hk
    rw [hextracted] at hk
    by_cases hrange : first ≤ k ∧ k < first + cbs.length
    · -- it is one of those that are handed out
      left
      obtain ⟨j, rfl⟩ := Nat.exists_eq_add_of_le hrange.1
      have hj : j < cbs.length := by omega
      have hcb := (hs.held w first cbs hw).2 j cbs[j] (List.getElem?_eq_getElem hj)
      rw [hcb] at hk
      refine hhands.new j cb ?_
      rw [List.getElem?_eq_getElem hj]
      exact hk
    · rcases hs.known k cb hk with hhanded | ⟨v, first', cbs', hv, hrange'⟩
      · exact .inl (hhands.old k cb hhanded (by omega))
      · -- another worker still has it, as its number is not in the range
        have hvw : v ≠ w := by
          rintro rfl
          rw [hw] at hv
          cases hv
          exact hrange hrange'
        refine .inr ⟨v, first', cbs', ?_, hrange'⟩
        rw [hidle, Function.update_of_ne hvw]
        exact hv

/-- **Every change keeps the callbacks accounted for.** -/
theorem accounted_of_change (hs : s.Accounted env) (h : Change env s a s') : s'.Accounted env := by
  cases h with
  | stay => exact hs
  | abort a e => exact ⟨hs.held, hs.known, hs.once, hs.fresh⟩
  | run w now_ms probe idle sched hpc h hidle =>
    refine accounted_of_move hs h (fun v => ?_) rfl rfl ?_
    · rcases hidle with rfl | ⟨-, rfl⟩
      · rfl
      · refine update_intro (P := fun i : Idling => i.holds = (s.idle v).holds) rfl fun heq => ?_
        rw [← heq, hs.holds_none hpc]
        rfl
    · rintro v heq
      cases heq
      exact hs.holds_none hpc
  | user w u => exact accounted_of_move hs (userStep_move w u) (fun _ => rfl) rfl rfl nofun
  | call th c => exact accounted_of_call hs rfl rfl rfl rfl
  | stop now_ms hearly htest => exact accounted_of_move hs .stop (fun _ => rfl) rfl rfl nofun
  | ask now_ms s' hstill hsched hidle =>
    exact accounted_of_still hs (fun v => by rw [hidle]) hstill.extracted hstill.entry (by rw [hsched])
      (by rw [hsched])
  | tested now_ms b yes no s' hpc hb hstill hsched hidle =>
    exact accounted_of_still hs (fun v => by rw [hidle]) hstill.extracted hstill.entry (by rw [hsched])
      (by rw [hsched])
  | turn a w pc s' hpc hold hnew hstill hsched hidle =>
    refine accounted_of_still hs (fun v => ?_) hstill.extracted hstill.entry (by rw [hsched])
      (by rw [hsched])
    rw [hidle]
    refine update_intro (P := fun i : Idling => i.holds = (s.idle v).holds) rfl fun heq => ?_
    rw [hnew, ← heq, hold]
  | pass w now_ms probe hpc hidle hstop =>
    refine accounted_of_move hs (.idleStop w hpc hstop) (fun _ => rfl) rfl rfl ?_
    rintro v heq
    cases heq
    rw [hidle]
    rfl
  | yield w now_ms probe hpc hidle =>
    refine accounted_of_move hs (.idleYield w hpc) (fun _ => rfl) rfl rfl ?_
    rintro v heq
    cases heq
    rw [hidle]
    rfl
  | expire w now_ms probe now cbs events timers hpc hidle =>
    refine accounted_of_expire hs timers cbs events hpc ?_
    rw [hidle]
    rfl
  | handOut w now_ms probe first cbs events hpc hidle =>
    refine accounted_of_handOut hs events ?_
    rw [hidle]
    rfl
  | inCall a q s' hq hsched hidle hextracted hentry =>
    rcases hsched with hsched | ⟨task, hsched⟩
    · exact accounted_of_still hs (fun v => by rw [hidle]) hextracted hentry (by rw [hsched])
        (by rw [hsched])
    · exact accounted_of_call hs hsched hidle hextracted hentry

/-! ## Whole runs -/

/-- Everything the invariants say of a state. -/
structure Ending (env : StopEnv W κ) (s : IoStop W T κ) : Prop where
  kept : s.sched.Kept env.pool
  ended : (∀ v, s.sched.Spent env.pool v) → s.Over
  accounted : s.Accounted env

omit [DecidableEq W] in
/-- **When `stop()` has returned the shutdown is clean.** -/
theorem clean_of_ending (hs : s.Ending env) (hdone : s.sched.stopPc = .done) : s.Clean env := by
  have hspent := spent_of_done hs.kept.closing hdone
  have hover := hs.ended fun v => (hspent v).1
  have hrest : ∀ w, (s.sched.worker w).pc = .out ∨ (s.sched.worker w).pc = .exited :=
    fun w => Pc.rest_iff.1 (hspent w).2
  refine ⟨hover.timers, hover.pending, ?_, ?_, hs.accounted.once⟩
  · intro ft hft hfree
    obtain ⟨-, cb, htask⟩ := ft.free_iff.1 hfree
    have hpop : ft ∈ s.sched.popped := by
      have hall := hs.kept.queue.all.mem_iff.2 hft
      rw [hover.stopped.queue, List.append_nil] at hall
      exact hall
    rcases hs.kept.pending.all ft hpop cb htask with hst | ⟨w, hw⟩ | ⟨w, f, hw, -⟩
    · exact hst
    · rcases hrest w with h | h <;> rw [h] at hw <;> cases hw
    · rcases hrest w with h | h <;> rw [h] at hw <;> cases hw
  · intro k cb hk
    refine (hs.accounted.known k cb hk).resolve_right ?_
    rintro ⟨w, first, cbs, hw, -⟩
    have hin := (hs.accounted.held w first cbs hw).1
    rcases hrest w with h | h <;> rw [h] at hin <;> cases hin

theorem change_ending [Nonempty W] (hs : s.Ending env) (h : Change env s a s') (hearly : s.Early a)
    (htest : s.UpToDate env a) (halone : s.SwitchesAlone a) : s'.Ending env :=
  ⟨shift_kept hs.kept (change_shift h halone),
    ending_of_change hs.kept hs.ended h hearly htest, accounted_of_change hs.accounted h⟩

theorem init_ending [Nonempty W] (env : StopEnv W κ) (k : κ) (now_ms : UInt64) :
    (init env k now_ms : IoStop W T κ).Ending env := by
  refine ⟨init_kept env.pool, ?_, ?_, ?_, nofun, nofun⟩
  · intro hall
    obtain ⟨w⟩ := ‹Nonempty W›
    rcases hall w with hterm | ⟨-, -, h | h⟩
    · cases hterm
    · cases h
    · cases h
  · intro w first cbs hw
    cases hw
  · intro k cb hk
    cases hk

/-- **A clean shutdown**: in every run in which other threads call nothing once `stop()` has been
called, if the last worker's test is up to date whenever it passes, and no worker switches to a
fiber that another is on, then nothing is left when `stop()` has returned. -/
theorem clean_shutdown {W T κ : Type} [DecidableEq W] [DecidableEq T] [Fintype W] [Nonempty W]
    (env : StopEnv W κ) (k : κ) (now_ms : UInt64) (acts : List (StopAct W T))
    (h : Along (step env) Early (init env k now_ms) acts)
    (hok : Along (step env) (fun s a => s.sched.fault = none → s.UpToDate env a ∧ s.SwitchesAlone a)
      (init env k now_ms) acts) :
    ∀ s ∈ trace (step env) (init env k now_ms) acts, s.sched.stopPc = .done → s.Clean env := by
  intro s hs hdone
  refine clean_of_ending (trace_inv_of (I := Ending env) ?_ acts (init_ending env k now_ms)
    (h.and hok) s hs) hdone
  rintro s a hs ⟨hearly, hok⟩
  by_cases hfault : s.sched.fault = none
  · exact change_ending hs (step_change env s a) hearly (hok hfault).1 (hok hfault).2
  · have hstay : s.step env a = s := if_pos (Option.isSome_iff_ne_none.2 hfault)
    rw [hstay]
    exact hs

/-- One worker, and a kernel that refuses nothing. -/
def oneIo : StopEnv Unit Unit :=
  { pool := oneThread, addr := Function.Embedding.refl ℕ
    function := fun cb =>
      match cb with
      | .fn cb => cb
      | .onTimer _ cb => cb.getD 0
    this := 0, ctl := fun k _ _ _ => (0, k) }

/-- The next steps of the one worker. -/
def steps (n : ℕ) : List (StopAct Unit Unit) := List.replicate n (.run () 0 0)

/-- A timer is due when `stop()` is called; its callback is extracted, handed out and executed. -/
def dueTimer : List (StopAct Unit Unit) :=
  .timer (.inr ()) (.addTimer 0 0 7 false) :: steps 3 ++ [.stop 0, .stop 0] ++ steps 2 ++
    .wake () [] :: steps 10 ++ .user () .finish :: steps 12 ++ [.stop 0]

theorem clean_shutdown_due_timer :
    (run (step oneIo) (init oneIo () 0) dueTimer).sched.stopPc = .done ∧
      (run (step oneIo) (init oneIo () 0) dueTimer).extracted = [some (.fn 7)] ∧
      (run (step oneIo) (init oneIo () 0) dueTimer).Clean oneIo := by
  have hdone : (run (step oneIo) (init oneIo () 0) dueTimer).sched.stopPc = .done := by decide +kernel
  refine ⟨hdone, by decide +kernel, ?_⟩
  exact clean_shutdown oneIo () 0 dueTimer (by decide +kernel) (by decide +kernel) _
    (mem_trace.2 ⟨dueTimer, List.prefix_rfl, rfl⟩) hdone

/-- The worker has read `m_timers` and `m_pendingEventCount` when another thread adds a timer and
then calls `stop()`. -/
def lateTimer : List (StopAct Unit Unit) :=
  steps 5 ++ .timer (.inr ()) (.addTimer 0 1000 7 false) :: [.stop 0, .stop 0] ++ steps 4 ++ [.stop 0]

/-- The timer is still there when `stop()` has returned. -/
theorem late_timer_left :
    Along (step oneIo) Early (init oneIo () 0) lateTimer ∧
      (run (step oneIo) (init oneIo () 0) lateTimer).sched.stopPc = .done ∧
      (run (step oneIo) (init oneIo () 0) lateTimer).timers.m_timers = [0] ∧
      ¬ ∀ s ∈ trace (step oneIo) (init oneIo () 0) lateTimer, s.sched.stopPc = .done → s.Clean oneIo := by
  have hdone : (run (step oneIo) (init oneIo () 0) lateTimer).sched.stopPc = .done := by decide
  have hleft : (run (step oneIo) (init oneIo () 0) lateTimer).timers.m_timers = [0] := by decide
  refine ⟨by decide, hdone, hleft, ?_⟩
  intro h
  have hclean := h _ (mem_trace.2 ⟨lateTimer, List.prefix_rfl, rfl⟩) hdone
  rw [hclean.timers] at hleft
  cases hleft

end IoStop

end Coroutine
