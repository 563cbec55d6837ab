import Coroutine.Proof.HookIo
import Coroutine.Spec.HookCalls

/-!
# Hooked I/O is transparent

`do_io` may call `fun` many times, with other threads, timers and the event loop in between.

* `aside_of_step`: what steps of others leave to the call.
* `doIo_accounts`: all results of `fun` but the last are `EINTR` or `EAGAIN`.
* `io_transparent`: so what the caller is told is what the one call of `fun` that mattered has
  returned, or that none did: the descriptor was closed, the timeout has come, or the event was
  refused. And no timer of the call is armed afterwards.
-/

namespace Coroutine

open Lib

namespace HookCalls

variable {κ : Type} {addr : ℕ ↪ ℕ} {ctl : EpollCtl κ} {call : IoCall}

/-- A result after which `do_io` calls `fun` again. -/
def Again (r : ℤ × CInt) : Prop := r.1 = -1 ∧ (r.2 = EINTR ∨ r.2 = EAGAIN)

/-- The call has called `fun` to no effect, the last time because it would have blocked. -/
structure Blocked (call : IoCall) (s : HookCalls κ) : Prop where
  mode : call.mode = .blocking
  again : ∀ r ∈ s.results, Again r
  last : s.results.getLast? = some (-1, EAGAIN)

/-- **What a call has done** that returns `n` and leaves `errno`. -/
inductive Outcome (call : IoCall) (s : HookCalls κ) (n : ℤ) (errno : CInt) : Prop
  | closed (hmode : call.mode = .closed) (hnone : s.results = []) (hn : n = -1) (herrno : errno = EBADF)
  | passed (hmode : call.mode = .plain) (hone : s.results = [(n, errno)])
  | answered (hmode : call.mode = .blocking) (earlier : List (ℤ × CInt))
      (hresults : s.results = earlier ++ [(n, errno)]) (hagain : ∀ r ∈ earlier, Again r)
      (hlast : ¬ Again (n, errno))
  | refused (hblocked : s.Blocked call) (hn : n = -1) (hrefused : s.refused = true)
  | timedOut (hblocked : s.Blocked call) (hn : n = -1) (herrno : errno = ETIMEDOUT)
      (harmed : call.timeout ≠ ~~~ 0) (hfired : ∃ t ∈ s.hook.mine, s.hook.callbacks t ≠ none)

/-- What is known where the call stands. -/
def Phase (call : IoCall) (s : HookCalls κ) : IoPc → Prop
  | .enter => s.results = []
  | .plain => call.mode = .plain ∧ s.results = []
  | .call => call.mode = .blocking ∧ ∀ r ∈ s.results, Again r
  | .arm | .insert _ => s.Blocked call ∧ call.timeout ≠ ~~~ 0
  | .failed => s.Blocked call ∧ s.refused = true
  | .add | .yielding | .suspended | .resumed | .check => s.Blocked call
  | .returned n errno => Outcome call s n errno

/-- Where the timer of the round has been cancelled. -/
def settled : IoPc → Bool
  | .check | .returned _ _ => true
  | _ => false

/-- **The books of a call.** -/
structure Accounts (addr : ℕ ↪ ℕ) (call : IoCall) (s : HookCalls κ) : Prop where
  sound : s.hook.Sound addr
  /-- a timer of the call that is in the set is that of the round, and a one-shot timer -/
  pending : ∀ t ∈ s.hook.mine, t ∈ s.hook.timers.m_timers →
    s.hook.timer = some t ∧ settled s.hook.pc = false ∧ (s.hook.timers.timer t).m_recurring = false
  armed : s.hook.mine ≠ [] → call.timeout ≠ ~~~ 0
  flag : s.hook.cancelled ≠ 0 →
    s.hook.cancelled = ETIMEDOUT ∧ ∃ t ∈ s.hook.mine, s.hook.callbacks t ≠ none
  phase : Phase call s s.hook.pc

/-! ## Steps of others -/

/-- **A step that is not one of the call**: the callbacks of its timers go on, and its timers may
leave the set. -/
structure Aside (s s' : HookIo κ) : Prop where
  pc : s'.pc = s.pc
  mine : s'.mine = s.mine
  timer : s'.timer = s.timer
  fired : ∀ t, s.callbacks t ≠ none → s'.callbacks t ≠ none
  flag : s'.cancelled = s.cancelled ∨ s'.cancelled = ETIMEDOUT ∧ ∃ t, s.callbacks t ≠ none
  pending : ∀ t ∈ s.mine, s.timers.Leaves s'.timers t

theorem aside_refl (s : HookIo κ) : Aside s s :=
  ⟨rfl, rfl, rfl, fun _ h => h, .inl rfl, fun _ _ h => ⟨h, rfl⟩⟩

variable {s s' : HookIo κ}

/-- A callback goes on. -/
theorem aside_setCallback (t : ℕ) (pc : CbPc) : Aside s (s.setCallback t pc) := by
  refine ⟨rfl, rfl, rfl, ?_, .inl rfl, fun _ _ h => ⟨h, rfl⟩⟩
  intro i hi
  by_cases hit : i = t
  · rw [hit, HookIo.setCallback_self]
    exact Option.some_ne_none pc
  · rw [HookIo.setCallback_of_ne pc hit]
    exact hi

theorem aside_of_fires {t : ℕ} (h : HookIo.Fires ctl call s t s') : Aside s s' := by
  have hset := fun pc => aside_setCallback (s := s) t pc
  cases h with
  | stays => exact aside_refl s
  | locks pc hpc hnext => exact hset pc
  | skips hpc hflag => exact hset .finished
  | tests hpc hflag => exact hset .tested
  | flags hpc =>
    have hsome : s.callbacks t ≠ none := by rw [hpc]; exact Option.some_ne_none _
    exact ⟨rfl, rfl, rfl, (hset .flagged).fired, .inr ⟨rfl, t, hsome⟩, (hset .flagged).pending⟩
  | cancels b io hpc hio =>
    exact ⟨rfl, rfl, rfl, (hset .finished).fired, .inl rfl, (hset .finished).pending⟩

theorem aside_of_hands (hone : ∀ t ∈ s.mine, t ∈ s.timers.m_timers →
      (s.timers.timer t).m_recurring = false) {now : UInt64} {probe : ℕ}
    (h : s.Hands addr now probe s') : Aside s s' := by
  have hrest := h.rest
  obtain ⟨cbs, hscan⟩ := h.scans
  refine ⟨by rw [hrest], by rw [hrest], by rw [hrest], ?_, .inl (by rw [hrest]), ?_⟩
  · intro t ht
    rcases h.callbacks t with hsame | ⟨hstart, -, -⟩
    · rw [hsame]
      exact ht
    · rw [hstart]
      exact Option.some_ne_none _
  · exact fun t ht => hscan.leaves (hone t ht)

/-- **What others leave to the call.** -/
theorem aside_of_step (hs : s.Sound addr)
    (hone : ∀ t ∈ s.mine, t ∈ s.timers.m_timers → (s.timers.timer t).m_recurring = false)
    {a : HookAct} (hother : ∀ n errno, a ≠ .io n errno) (h : s.stepOk addr ctl call a = .ok s') :
    Aside s s' := by
  cases a with
  | io n errno => exact absurd rfl (hother n errno)
  | callback t => exact aside_of_fires (HookIo.onTimer_fires h)
  | listExpired now probe =>
    simp only [HookIo.stepOk] at h
    split at h
    · exact aside_of_hands hone (HookIo.listExpired_hands hs h)
    · cases h
      exact aside_refl s
  | timerOp op =>
    simp only [HookIo.stepOk] at h
    split at h
    · cases h
      exact aside_refl s
    · rename_i hguard
      obtain ⟨m, hcall, rfl⟩ := map_ok h
      refine ⟨rfl, rfl, rfl, fun _ h => h, .inl rfl, fun t ht => ?_⟩
      have hne : op.handle ≠ some t := by
        intro heq
        rw [heq] at hguard
        exact hguard (by simpa using ht)
      exact TimerManager.call_leaves hs.wf hcall (hs.made t ht) hne
  | eventOp op =>
    simp only [HookIo.stepOk] at h
    split at h
    · cases h
      exact aside_refl s
    · obtain ⟨io, -, rfl⟩ := map_ok h
      exact ⟨rfl, rfl, rfl, fun _ h => h, .inl rfl, fun _ _ h => ⟨h, rfl⟩⟩
  | ready b =>
    cases h
    exact ⟨rfl, rfl, rfl, fun _ h => h, .inl rfl, fun _ _ h => ⟨h, rfl⟩⟩
  | tick now =>
    simp only [HookIo.stepOk] at h
    split at h
    · cases h
      exact ⟨rfl, rfl, rfl, fun _ h => h, .inl rfl, fun _ _ h => ⟨h, rfl⟩⟩
    · cases h
      exact aside_refl s

/-- What is known stays known. -/
theorem Phase.aside {c : HookCalls κ} {hook : HookIo κ} {b : Bool} (haside : Aside c.hook hook)
    (hb : c.refused = true → b = true) {pc : IoPc} (h : Phase call c pc) :
    Phase call { hook := hook, results := c.results, refused := b } pc := by
  have hblocked : c.Blocked call → (HookCalls.mk hook c.results b).Blocked call :=
    fun h => ⟨h.mode, h.again, h.last⟩
  cases pc with
  | enter => exact h
  | plain => exact h
  | call => exact h
  | arm => exact ⟨hblocked h.1, h.2⟩
  | insert now => exact ⟨hblocked h.1, h.2⟩
  | failed => exact ⟨hblocked h.1, hb h.2⟩
  | add => exact hblocked h
  | yielding => exact hblocked h
  | suspended => exact hblocked h
  | resumed => exact hblocked h
  | check => exact hblocked h
  | returned n errno =>
    cases (h : Outcome call c n errno) with
    | closed hmode hnone hn herrno => exact .closed hmode hnone hn herrno
    | passed hmode hone => exact .passed hmode hone
    | answered hmode earlier hresults hagain hlast => exact .answered hmode earlier hresults hagain hlast
    | refused hbl hn hrefused => exact .refused (hblocked hbl) hn (hb hrefused)
    | timedOut hbl hn herrno harmed hfired =>
      obtain ⟨t, ht, hsome⟩ := hfired
      exact .timedOut (hblocked hbl) hn herrno harmed
        ⟨t, by rw [haside.mine]; exact ht, haside.fired t hsome⟩

theorem Accounts.aside {c : HookCalls κ} {hook : HookIo κ} {b : Bool} (hc : c.Accounts addr call)
    (hsound : hook.Sound addr) (haside : Aside c.hook hook) (hb : c.refused = true → b = true) :
    Accounts addr call { hook := hook, results := c.results, refused := b } := by
  refine ⟨hsound, ?_, ?_, ?_, ?_⟩
  · intro t ht hmem
    have hmine : t ∈ c.hook.mine := by rw [← haside.mine]; exact ht
    obtain ⟨hold, hsame⟩ := haside.pending t hmine hmem
    obtain ⟨htimer, hpc, hone⟩ := hc.pending t hmine hold
    dsimp only
    rw [haside.timer, haside.pc, hsame]
    exact ⟨htimer, hpc, hone⟩
  · intro hne
    have hmine : c.hook.mine ≠ [] := by rw [← haside.mine]; exact hne
    exact hc.armed hmine
  · intro hset
    dsimp only at hset ⊢
    rw [haside.mine]
    rcases haside.flag with hsame | ⟨hset', t, ht⟩
    · rw [hsame] at hset ⊢
      obtain ⟨hval, t, ht, hsome⟩ := hc.flag hset
      exact ⟨hval, t, ht, haside.fired t hsome⟩
    · exact ⟨hset', t, hc.sound.extracted t ht, haside.fired t ht⟩
  · dsimp only
    rw [haside.pc]
    exact hc.phase.aside haside hb

/-! ## Steps of the call -/

/-- **`if(timer) timer->cancel()`**: no timer of the call is in the set any more. -/
theorem cancelTimer_clears (hs : s.Sound addr)
    (hpending : ∀ t ∈ s.mine, t ∈ s.timers.m_timers → s.timer = some t)
    (h : s.cancelTimer addr = .ok s') :
    ∃ m, s' = { s with timers := m } ∧ ∀ t ∈ s.mine, t ∉ m.m_timers := by
  unfold HookIo.cancelTimer at h
  split at h
  · rename_i hnone
    cases h
    refine ⟨s.timers, rfl, fun t ht hmem => ?_⟩
    have htimer := hpending t ht hmem
    rw [hnone] at htimer
    cases htimer
  · rename_i timer htimer
    obtain ⟨⟨b, m⟩, hcancel, rfl⟩ := map_ok h
    have hcall : (TimerOp.cancel timer).call addr s.timers = .ok m := by
      simp [TimerOp.call, hcancel, Except.map]
    refine ⟨m, rfl, fun t ht hmem => ?_⟩
    have hold := (TimerManager.cancel_leaves hs.wf hcall t hmem).1
    have hsame := hpending t ht hold
    rw [htimer] at hsame
    cases hsame
    exact TimerManager.not_mem_of_cancel hs.wf hcancel hmem

variable {c : HookCalls κ}

/-- **The call goes on** to `pc`: the timers are as they were, or no timer of it is armed. -/
theorem Accounts.goto (hc : c.Accounts addr call) {hook : HookIo κ} {results : List (ℤ × CInt)}
    {b : Bool} (hsound : hook.Sound addr) (hmine : hook.mine = c.hook.mine)
    (hcbs : hook.callbacks = c.hook.callbacks) (hcancelled : hook.cancelled = c.hook.cancelled)
    (htimers : (∀ t ∈ c.hook.mine, t ∉ hook.timers.m_timers) ∨
      hook.timers = c.hook.timers ∧ hook.timer = c.hook.timer ∧ settled hook.pc = false)
    (hphase : Phase call ⟨hook, results, b⟩ hook.pc) :
    Accounts addr call ⟨hook, results, b⟩ := by
  refine ⟨hsound, ?_, ?_, ?_, hphase⟩
  · intro t ht hmem
    have hold : t ∈ c.hook.mine := by rw [← hmine]; exact ht
    rcases htimers with hout | ⟨hsame, htimer, hpc⟩
    · exact absurd hmem (hout t hold)
    · have hmem' : t ∈ hook.timers.m_timers := hmem
      rw [hsame] at hmem'
      obtain ⟨hround, -, hone⟩ := hc.pending t hold hmem'
      refine ⟨htimer.trans hround, hpc, ?_⟩
      show (hook.timers.timer t).m_recurring = false
      rw [hsame]
      exact hone
  · intro hne
    have hold : c.hook.mine ≠ [] := by rw [← hmine]; exact hne
    exact hc.armed hold
  · intro hset
    have hold : c.hook.cancelled ≠ 0 := by rw [← hcancelled]; exact hset
    obtain ⟨hval, t, ht, hsome⟩ := hc.flag hold
    refine ⟨hcancelled.trans hval, t, ?_, ?_⟩
    · show t ∈ hook.mine
      rw [hmine]; exact ht
    · show hook.callbacks t ≠ none
      rw [hcbs]; exact hsome

/-- Before it arms a timer, or after it has cancelled it, no timer of the call is in the set. -/
theorem Accounts.none_pending (hc : c.Accounts addr call)
    (hpc : c.hook.timer = none ∨ settled c.hook.pc = true) :
    ∀ t ∈ c.hook.mine, t ∉ c.hook.timers.m_timers := by
  intro t ht hmem
  obtain ⟨htimer, hnot, -⟩ := hc.pending t ht hmem
  rcases hpc with hnone | hsettled
  · rw [hnone] at htimer
    cases htimer
  · rw [hsettled] at hnot
    cases hnot

section Step

variable {n : ℤ} {errno : CInt} {hook : HookIo κ}

/-- The books after a step of the call, in which `fun` may have returned `n` and set `errno`. -/
def Booked (addr : ℕ ↪ ℕ) (call : IoCall) (c : HookCalls κ) (n : ℤ) (errno : CInt)
    (hook : HookIo κ) : Prop :=
  Accounts addr call ⟨hook, c.record (.io n errno), c.refused || hook.pc == .failed⟩

/-- Where `fun` is not called nothing is recorded. -/
theorem record_keeps (hpc : c.hook.pc.calls = false) (n : ℤ) (errno : CInt) :
    c.record (.io n errno) = c.results := by
  unfold record
  simp [hpc]

theorem record_calls (hpc : c.hook.pc.calls = true) (n : ℤ) (errno : CInt) :
    c.record (.io n errno) = c.results ++ [(n, errno)] := by
  unfold record
  simp [hpc]

theorem Blocked.keep (h : c.Blocked call) (hook : HookIo κ) (b : Bool) :
    (HookCalls.mk hook c.results b).Blocked call := ⟨h.mode, h.again, h.last⟩

theorem doIo_sound (hc : c.Accounts addr call) (h : c.hook.doIo addr ctl call n errno = .ok hook) :
    hook.Sound addr := HookIo.moves_sound hc.sound (HookIo.doIo_moves h)

/-- Before its round has made a timer, none of the call is in the set. -/
theorem Accounts.unarmed (hc : c.Accounts addr call) (hpc : c.hook.pc.unarmed = true) :
    ∀ t ∈ c.hook.mine, t ∉ c.hook.timers.m_timers := hc.none_pending (.inl (hc.sound.unarmed hpc))

/-- The tests before `retry`. -/
theorem enter_accounts (hc : c.Accounts addr call) (hpc : c.hook.pc = .enter)
    (h : c.hook.doIo addr ctl call n errno = .ok hook) : Booked addr call c n errno hook := by
  have hsound := doIo_sound hc h
  have hnone : c.results = [] := by
    have hphase := hc.phase
    rwa [hpc] at hphase
  have hout := hc.unarmed (by rw [hpc]; rfl)
  have hmode := IoCall.mode.eq_1 call
  have hgo : ∀ (pc : IoPc) (b : Bool),
      ({ c.hook with taken := call.wakes c.hook.io, pc := pc } : HookIo κ).Sound addr →
      Phase call ⟨{ c.hook with taken := call.wakes c.hook.io, pc := pc }, c.results, b⟩ pc →
      Accounts addr call ⟨{ c.hook with taken := call.wakes c.hook.io, pc := pc }, c.results, b⟩ :=
    fun pc b hs hp => hc.goto hs rfl rfl rfl (.inl hout) hp
  unfold Booked
  rw [record_keeps (by rw [hpc]; rfl)]
  unfold HookIo.doIo at h
  rw [hpc] at h
  dsimp only at h
  split at h
  · rename_i henable
    cases h
    rw [if_pos henable] at hmode
    exact hgo .plain _ hsound ⟨hmode, hnone⟩
  rename_i henable
  rw [if_neg henable] at hmode
  split at h
  · rename_i hctx
    cases h
    rw [hctx] at hmode
    exact hgo .plain _ hsound ⟨hmode, hnone⟩
  rename_i ctx hctx
  rw [hctx] at hmode
  dsimp only at hmode
  split at h
  · rename_i hclose
    cases h
    rw [if_pos hclose] at hmode
    exact hgo (.returned (-1) EBADF) _ hsound (.closed hmode hnone rfl rfl)
  rename_i hclose
  rw [if_neg hclose] at hmode
  split at h
  · rename_i hplain
    cases h
    rw [if_pos hplain] at hmode
    exact hgo .plain _ hsound ⟨hmode, hnone⟩
  · rename_i hplain
    cases h
    rw [if_neg hplain] at hmode
    refine hgo .call _ hsound ⟨hmode, fun r hr => ?_⟩
    rw [show (HookCalls.mk _ c.results _).results = c.results from rfl, hnone] at hr
    cases hr

/-- `fun` in its place. -/
theorem plain_accounts (hc : c.Accounts addr call) (hpc : c.hook.pc = .plain)
    (h : c.hook.doIo addr ctl call n errno = .ok hook) : Booked addr call c n errno hook := by
  have hsound := doIo_sound hc h
  have hphase := hc.phase
  rw [hpc] at hphase
  obtain ⟨hmode, hnone⟩ := hphase
  have hout := hc.unarmed (by rw [hpc]; rfl)
  unfold HookIo.doIo at h
  rw [hpc] at h
  cases h
  unfold Booked
  rw [record_calls (by rw [hpc]; rfl), hnone]
  exact hc.goto hsound rfl rfl rfl (.inl hout) (.passed hmode rfl)

/-- At `retry`: `fun` was interrupted, would have blocked, or has come to something. -/
theorem retry_accounts (hc : c.Accounts addr call) (hpc : c.hook.pc = .call)
    (h : c.hook.doIo addr ctl call n errno = .ok hook) : Booked addr call c n errno hook := by
  have hsound := doIo_sound hc h
  have hphase := hc.phase
  rw [hpc] at hphase
  obtain ⟨hmode, hagain⟩ := hphase
  have hout := hc.unarmed (by rw [hpc]; rfl)
  have hmore : Again (n, errno) → ∀ r ∈ c.results ++ [(n, errno)], Again r := by
    intro hone r hr
    rcases List.mem_append.1 hr with hr | hr
    · exact hagain r hr
    · rw [List.mem_singleton.1 hr]
      exact hone
  unfold Booked
  rw [record_calls (by rw [hpc]; rfl)]
  unfold HookIo.doIo at h
  rw [hpc] at h
  dsimp only at h
  split at h
  · rename_i hintr
    cases h
    refine hc.goto hsound rfl rfl rfl (.inl hout) ?_
    rw [hpc]
    exact ⟨hmode, hmore ⟨hintr.1, .inl hintr.2⟩⟩
  rename_i hintr
  split at h
  · rename_i hblock
    cases h
    obtain ⟨rfl, rfl⟩ := hblock
    have hblocked : ∀ (hook : HookIo κ) b,
        (HookCalls.mk hook (c.results ++ [(-1, EAGAIN)]) b).Blocked call :=
      fun _ _ => ⟨hmode, hmore ⟨rfl, .inr rfl⟩, List.getLast?_concat⟩
    refine hc.goto hsound rfl rfl rfl (.inl hout) ?_
    dsimp only
    split
    · rename_i harm
      exact ⟨hblocked _ _, harm⟩
    · exact hblocked _ _
  · rename_i hblock
    cases h
    refine hc.goto hsound rfl rfl rfl (.inl hout) (.answered hmode c.results rfl hagain ?_)
    rintro ⟨hn, herrno | herrno⟩
    · exact hintr ⟨hn, herrno⟩
    · exact hblock ⟨hn, herrno⟩

/-- The timer of the round is made, and joins the set. -/
theorem insert_accounts (hc : c.Accounts addr call) {now : UInt64} (hpc : c.hook.pc = .insert now)
    (h : c.hook.doIo addr ctl call n errno = .ok hook) : Booked addr call c n errno hook := by
  have hsound := doIo_sound hc h
  have hphase := hc.phase
  rw [hpc] at hphase
  obtain ⟨hblocked, harm⟩ := hphase
  have hout := hc.unarmed (by rw [hpc]; rfl)
  unfold Booked
  rw [record_keeps (by rw [hpc]; rfl)]
  unfold HookIo.doIo at h
  rw [hpc] at h
  cases h
  refine ⟨hsound, ?_, fun _ => harm, ?_, hblocked.keep _ _⟩
  · intro t ht hmem
    have hmem' := (TimerManager.mem_addTimer now call.timeout
      (some (.onTimer call.tinfo (some call.cb))) false t).1 hmem
    rcases hmem' with rfl | hold
    · refine ⟨rfl, rfl, ?_⟩
      show ((c.hook.timers.addTimer addr now call.timeout
        (some (.onTimer call.tinfo (some call.cb))) false).2.1.timer _).m_recurring = false
      rw [TimerManager.addTimer_timer, if_pos rfl]
    · rcases List.mem_cons.1 ht with rfl | ht
      · exact absurd (TimerCall.lt_made hc.sound.wf hold) (Nat.lt_irrefl _)
      · exact absurd hold (hout t ht)
  · intro hset
    obtain ⟨hval, t, ht, hsome⟩ := hc.flag hset
    exact ⟨hval, t, List.mem_cons_of_mem _ ht, hsome⟩

/-- `addEvent`. -/
theorem add_accounts (hc : c.Accounts addr call) (hpc : c.hook.pc = .add)
    (h : c.hook.doIo addr ctl call n errno = .ok hook) : Booked addr call c n errno hook := by
  have hsound := doIo_sound hc h
  have hblocked : c.Blocked call := by
    have hphase := hc.phase
    rwa [hpc] at hphase
  unfold Booked
  rw [record_keeps (by rw [hpc]; rfl)]
  unfold HookIo.doIo at h
  rw [hpc] at h
  obtain ⟨⟨rt, io⟩, hadd, rfl⟩ := map_ok h
  refine hc.goto hsound rfl rfl rfl (.inr ⟨rfl, rfl, ?_⟩) ?_
  · dsimp only
    split <;> rfl
  · dsimp only
    split
    · exact ⟨hblocked.keep _ _, by simp⟩
    · exact hblocked.keep _ _

/-- `addEvent` has failed. -/
theorem failed_accounts (hc : c.Accounts addr call) (hpc : c.hook.pc = .failed)
    (h : c.hook.doIo addr ctl call n errno = .ok hook) : Booked addr call c n errno hook := by
  have hsound := doIo_sound hc h
  have hphase := hc.phase
  rw [hpc] at hphase
  obtain ⟨hblocked, hrefused⟩ := hphase
  unfold Booked
  rw [record_keeps (by rw [hpc]; rfl)]
  unfold HookIo.doIo at h
  rw [hpc] at h
  obtain ⟨s₁, hcancel, rfl⟩ := map_ok h
  obtain ⟨m, rfl, hout⟩ :=
    cancelTimer_clears hc.sound (fun t ht hmem => (hc.pending t ht hmem).1) hcancel
  refine hc.goto hsound rfl rfl rfl (.inl hout) (.refused (hblocked.keep _ _) rfl ?_)
  show (c.refused || _) = true
  rw [hrefused]
  rfl

/-- Woken up, it cancels the timer of the round. -/
theorem resumed_accounts (hc : c.Accounts addr call) (hpc : c.hook.pc = .resumed)
    (h : c.hook.doIo addr ctl call n errno = .ok hook) : Booked addr call c n errno hook := by
  have hsound := doIo_sound hc h
  have hblocked : c.Blocked call := by
    have hphase := hc.phase
    rwa [hpc] at hphase
  unfold Booked
  rw [record_keeps (by rw [hpc]; rfl)]
  unfold HookIo.doIo at h
  rw [hpc] at h
  obtain ⟨s₁, hcancel, rfl⟩ := map_ok h
  obtain ⟨m, rfl, hout⟩ :=
    cancelTimer_clears hc.sound (fun t ht hmem => (hc.pending t ht hmem).1) hcancel
  exact hc.goto hsound rfl rfl rfl (.inl hout) (hblocked.keep _ _)

/-- The test of the flag. -/
theorem check_accounts (hc : c.Accounts addr call) (hpc : c.hook.pc = .check)
    (h : c.hook.doIo addr ctl call n errno = .ok hook) : Booked addr call c n errno hook := by
  have hsound := doIo_sound hc h
  have hblocked : c.Blocked call := by
    have hphase := hc.phase
    rwa [hpc] at hphase
  have hout := hc.none_pending (.inr (by rw [hpc]; rfl))
  unfold Booked
  rw [record_keeps (by rw [hpc]; rfl)]
  unfold HookIo.doIo at h
  rw [hpc] at h
  dsimp only at h
  split at h
  · rename_i hset
    cases h
    obtain ⟨hval, t, ht, hsome⟩ := hc.flag hset
    exact hc.goto hsound rfl rfl rfl (.inl hout) (.timedOut (hblocked.keep _ _) rfl hval
      (hc.armed (List.ne_nil_of_mem ht)) ⟨t, ht, hsome⟩)
  · cases h
    exact hc.goto hsound rfl rfl rfl (.inl hout) ⟨hblocked.mode, hblocked.again⟩

/-- The places where nothing comes to light. -/
theorem onward_accounts (hc : c.Accounts addr call)
    (hpc : c.hook.pc = .arm ∨ c.hook.pc = .yielding ∨ c.hook.pc = .suspended)
    (h : c.hook.doIo addr ctl call n errno = .ok hook) : Booked addr call c n errno hook := by
  have hsound := doIo_sound hc h
  have hphase := hc.phase
  unfold Booked
  rw [record_keeps (by rcases hpc with hpc | hpc | hpc <;> rw [hpc] <;> rfl)]
  unfold HookIo.doIo at h
  rcases hpc with hpc | hpc | hpc <;> rw [hpc] at h hphase
  · cases h
    exact hc.goto hsound rfl rfl rfl (.inr ⟨rfl, rfl, rfl⟩) ⟨Blocked.keep hphase.1 _ _, hphase.2⟩
  · cases h
    exact hc.goto hsound rfl rfl rfl (.inr ⟨rfl, rfl, rfl⟩) (Blocked.keep hphase _ _)
  · dsimp only at h
    split at h
    · cases h
      exact hc.goto hsound rfl rfl rfl (.inr ⟨rfl, rfl, rfl⟩) (Blocked.keep hphase _ _)
    · cases h
      refine hc.goto hsound rfl rfl rfl (.inr ⟨rfl, rfl, by rw [hpc]; rfl⟩) ?_
      rw [hpc]
      exact Blocked.keep hphase _ _

/-- **A step of the call.** -/
theorem doIo_accounts (hc : c.Accounts addr call)
    (h : c.hook.doIo addr ctl call n errno = .ok hook) : Booked addr call c n errno hook := by
  cases hpc : c.hook.pc with
  | enter => exact enter_accounts hc hpc h
  | plain => exact plain_accounts hc hpc h
  | call => exact retry_accounts hc hpc h
  | arm => exact onward_accounts hc (.inl hpc) h
  | insert now => exact insert_accounts hc hpc h
  | add => exact add_accounts hc hpc h
  | failed => exact failed_accounts hc hpc h
  | yielding => exact onward_accounts hc (.inr (.inl hpc)) h
  | suspended => exact onward_accounts hc (.inr (.inr hpc)) h
  | resumed => exact resumed_accounts hc hpc h
  | check => exact check_accounts hc hpc h
  | returned n' errno' =>
    have hsound := doIo_sound hc h
    unfold Booked
    rw [record_keeps (by rw [hpc]; rfl)]
    unfold HookIo.doIo at h
    rw [hpc] at h
    cases h
    exact hc.aside hsound (aside_refl c.hook) fun hr => by rw [hr]; rfl

end Step

/-! ## Runs -/

/-- **The call is transparent**: until it returns, no call of `fun` has come to anything; what it
returns is an outcome of the calls it has made; and then none of its timers is armed. -/
structure Transparent (call : IoCall) (s : HookCalls κ) : Prop where
  waiting : s.hook.pc.done = false → ∀ r ∈ s.results, Again r
  outcome : ∀ n errno, s.hook.pc = .returned n errno → Outcome call s n errno
  disarmed : s.hook.pc.done = true → ∀ t ∈ s.hook.mine, t ∉ s.hook.timers.m_timers

theorem Accounts.transparent (hc : c.Accounts addr call) : c.Transparent call := by
  have hphase := hc.phase
  refine ⟨?_, ?_, ?_⟩
  · intro hdone
    have hnone : c.results = [] → ∀ r ∈ c.results, Again r := by
      intro hnil r hr
      rw [hnil] at hr
      cases hr
    cases hpc : c.hook.pc with
    | returned n errno => rw [hpc] at hdone; cases hdone
    | enter => rw [hpc] at hphase; exact hnone hphase
    | plain => rw [hpc] at hphase; exact hnone hphase.2
    | call => rw [hpc] at hphase; exact hphase.2
    | arm | insert now | failed => rw [hpc] at hphase; exact hphase.1.again
    | add | yielding | suspended | resumed | check => rw [hpc] at hphase; exact hphase.again
  · intro n errno hpc
    rw [hpc] at hphase
    exact hphase
  · intro hdone
    refine hc.none_pending (.inr ?_)
    cases hpc : c.hook.pc with
    | returned n errno => rfl
    | _ => rw [hpc] at hdone; cases hdone

theorem init_accounts (now_ms : UInt64) (k : κ) : (init now_ms k).Accounts addr call :=
  ⟨HookIo.init_sound now_ms k, fun _ ht => absurd ht List.not_mem_nil, fun h => absurd rfl h,
    fun h => absurd rfl h, rfl⟩

/-- **One step.** -/
theorem step_accounts (hc : c.Accounts addr call) {a : HookAct} {c' : HookCalls κ}
    (h : c.stepOk addr ctl call a = .ok c') : c'.Accounts addr call := by
  obtain ⟨hook, hstep, rfl⟩ := map_ok h
  have hsound := HookIo.step_sound hc.sound hstep
  by_cases hother : ∀ n errno, a ≠ .io n errno
  · have haside := aside_of_step hc.sound (fun t ht hmem => (hc.pending t ht hmem).2.2) hother hstep
    have hrecord : c.record a = c.results := by
      cases a with
      | io n errno => exact absurd rfl (hother n errno)
      | _ => rfl
    rw [hrecord]
    exact hc.aside hsound haside fun hr => by rw [hr]; rfl
  · push Not at hother
    obtain ⟨n, errno, rfl⟩ := hother
    exact doIo_accounts hc hstep

/-- **Hooked I/O is transparent**, in every run: whatever other threads do with timers and events,
whenever callbacks run and whoever wakes the fiber up. -/
theorem io_transparent (addr : ℕ ↪ ℕ) (ctl : EpollCtl κ) (call : IoCall) (now_ms : UInt64) (k : κ)
    (as : List HookAct) :
    IfOk (fun s => s.Transparent call) (run (step addr ctl call) (.ok (init now_ms k)) as) := by
  cases h : run (step addr ctl call) (.ok (init now_ms k)) as with
  | error e => exact trivial
  | ok s =>
    have hacc : s.Accounts addr call :=
      run_ok_inv (fun _ _ => rfl) (fun _ _ _ _ hs h => step_accounts hs h) (init_accounts now_ms k) h
    exact hacc.transparent

end HookCalls

end Coroutine
