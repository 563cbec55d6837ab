import Coroutine.Lib.Run
import Coroutine.Proof.EventStore
import Mathlib.Tactic.Tauto

/-!
# Dispatching reported events

`idle` clears the reported events out of the mask it gives back to the kernel, but calls
`triggerEvent` for every reported event, registered or not. On a hang-up both events
count as reported, so a context with one of them registered fails the assertion of
`triggerEvent`.

* `call_does`: what a call does, where it returns.
* `call_keeps_ok`, `events_ok`: every operation keeps the invariant of the event table,
  so every run does.
* `dispatch_exact_iff`: exactly when a turn of the event loop consumes the events that
  are both reported and registered, and nothing else.
-/

namespace Coroutine

open Lib

/-- The event is reported: its own bit, or an error or hang-up, is in the mask that
`epoll_wait` returned. -/
def Reported (events : BitVec 32) : Event → Prop
  | .READ => events &&& (EPOLLIN ||| (EPOLLERR ||| EPOLLHUP)) ≠ 0
  | .WRITE => events &&& (EPOLLOUT ||| (EPOLLERR ||| EPOLLHUP)) ≠ 0
  | .NONE => False

instance (events : BitVec 32) : DecidablePred (Reported events)
  | .READ => inferInstanceAs (Decidable (_ ≠ _))
  | .WRITE => inferInstanceAs (Decidable (_ ≠ _))
  | .NONE => inferInstanceAs (Decidable False)

theorem realEvents_isMask (events : BitVec 32) : IsMask (IOManager.realEvents events) := by
  unfold IOManager.realEvents
  dsimp only
  generalize (if events &&& (EPOLLERR ||| EPOLLHUP) ≠ 0 then events ||| (EPOLLIN ||| EPOLLOUT)
    else events) = ev
  split <;> split <;> unfold IsMask <;> decide

theorem and_or_eq_zero (ev a b : BitVec 32) : ev &&& (a ||| b) = 0 ↔ ev &&& a = 0 ∧ ev &&& b = 0 := by
  rw [BitVec.and_or_distrib_left]; exact BitVec.or_eq_zero_iff

theorem reported_read (events : BitVec 32) : Reported events .READ ↔
    events &&& EPOLLIN ≠ 0 ∨ events &&& (EPOLLERR ||| EPOLLHUP) ≠ 0 := by
  change ¬ _ = _ ↔ _
  rw [and_or_eq_zero]
  tauto

theorem reported_write (events : BitVec 32) : Reported events .WRITE ↔
    events &&& EPOLLOUT ≠ 0 ∨ events &&& (EPOLLERR ||| EPOLLHUP) ≠ 0 := by
  change ¬ _ = _ ↔ _
  rw [and_or_eq_zero]
  tauto

/-- The mask built from two tests has a bit of an event exactly when its test holds. -/
theorem bits_iff (P Q : Prop) [Decidable P] [Decidable Q] (e : Event) :
    ((if P then Event.READ.bits else 0) ||| (if Q then Event.WRITE.bits else 0)) &&& e.bits ≠ 0 ↔
      (e = .READ ∧ P) ∨ (e = .WRITE ∧ Q) := by
  by_cases hp : P <;> by_cases hq : Q <;> simp only [hp, hq, if_true, if_false, and_true, and_false] <;>
    cases e <;> decide

/-- A mask with both low bits added has each of them. -/
theorem or_low_ne_zero (ev : BitVec 32) {m : BitVec 32} (hm : m &&& (EPOLLIN ||| EPOLLOUT) ≠ 0) :
    (ev ||| (EPOLLIN ||| EPOLLOUT)) &&& m ≠ 0 := by
  rw [BitVec.and_comm, BitVec.and_or_distrib_left]
  intro h
  exact hm (BitVec.or_eq_zero_iff.1 h).2

/-- `real_events` holds exactly the reported events. -/
theorem realEvents_iff (events : BitVec 32) (e : Event) :
    IOManager.realEvents events &&& e.bits ≠ 0 ↔ Reported events e := by
  unfold IOManager.realEvents
  dsimp only
  rw [bits_iff]
  have hin : (events ||| (EPOLLIN ||| EPOLLOUT)) &&& EPOLLIN ≠ 0 := or_low_ne_zero _ (by decide)
  have hout : (events ||| (EPOLLIN ||| EPOLLOUT)) &&& EPOLLOUT ≠ 0 := or_low_ne_zero _ (by decide)
  -- on an error or a hang-up both low bits are added
  by_cases hup : events &&& (EPOLLERR ||| EPOLLHUP) ≠ 0
  · rw [if_pos hup]
    cases e with
    | NONE => simp only [reduceCtorEq, false_and, or_self]; exact Iff.rfl
    | READ => rw [reported_read]; tauto
    | WRITE => rw [reported_write]; tauto
  · rw [if_neg hup]
    cases e with
    | NONE => simp only [reduceCtorEq, false_and, or_self]; exact Iff.rfl
    | READ => rw [reported_read]; simp only [reduceCtorEq, false_and, or_false]; tauto
    | WRITE => rw [reported_write]; simp only [reduceCtorEq, false_and, false_or]; tauto

namespace IOManager

variable {κ : Type} {ctl : EpollCtl κ} {s : IOManager κ}

theorem consume_ok (hs : s.OK) {p : ℕ} {e : Event} {s' : IOManager κ} (h : s.consume p e = .ok s') :
    s'.OK := by
  obtain ⟨ctx, sched, t, hc, hh, hsc, ht, rfl⟩ := (consume_eq_ok hs).1 h
  exact dropAt_ok hs hh _

theorem consumeIf_ok (hs : s.OK) {b : Bool} {p : ℕ} {e : Event} {s' : IOManager κ}
    (h : consumeIf b s p e = .ok s') : s'.OK := by
  unfold consumeIf at h
  split at h
  · exact consume_ok hs h
  · cases h; exact hs

/-- The kernel's answer to the request of a turn of the event loop. -/
def turnAnswer (ctl : EpollCtl κ) (s : IOManager κ) (p : ℕ) (events : BitVec 32) : ℤ × κ :=
  dropAnswer ctl s p (s.fdctx p).fd (realEvents events)

/-- The events a turn calls `triggerEvent` for. -/
def turnCalls (events : BitVec 32) : List Event := [.READ, .WRITE].filter fun e => Reported events e

/-- **One turn of the event loop**: nothing registered is reported; or the kernel
refuses; or every reported event is consumed, registered or not. -/
theorem dispatch_cases {p : ℕ} {events : BitVec 32} {calls : List Event} {s' : IOManager κ} :
    s.dispatch ctl p events = .ok (calls, s') ↔
      ((s.fdctx p).m_events &&& realEvents events = 0 ∧ calls = [] ∧ s' = s) ∨
      ((s.fdctx p).m_events &&& realEvents events ≠ 0 ∧ (turnAnswer ctl s p events).1 ≠ 0 ∧
        calls = [] ∧ s' = s.answer (turnAnswer ctl s p events).2) ∨
      ((s.fdctx p).m_events &&& realEvents events ≠ 0 ∧ (turnAnswer ctl s p events).1 = 0 ∧
        calls = turnCalls events ∧ ∃ s₁,
          consumeIf (Reported events .READ) (s.answer (turnAnswer ctl s p events).2) p .READ = .ok s₁ ∧
          consumeIf (Reported events .WRITE) s₁ p .WRITE = .ok s') := by
  have hR : (realEvents events &&& Event.READ.bits ≠ 0) = Reported events .READ :=
    propext (realEvents_iff events .READ)
  have hW : (realEvents events &&& Event.WRITE.bits ≠ 0) = Reported events .WRITE :=
    propext (realEvents_iff events .WRITE)
  have hcalls : (if Reported events .READ then [Event.READ] else []) ++
      (if Reported events .WRITE then [Event.WRITE] else []) = turnCalls events := by
    unfold turnCalls
    by_cases h1 : Reported events .READ <;> by_cases h2 : Reported events .WRITE <;> simp [h1, h2]
  unfold dispatch
  simp only [hR, hW, hcalls]
  change (if _ then _ else if (turnAnswer ctl s p events).1 ≠ 0 then _ else _) = _ ↔ _
  by_cases h0 : (s.fdctx p).m_events &&& realEvents events = 0
  · rw [if_pos h0]
    constructor
    · intro h; cases h; exact Or.inl ⟨h0, rfl, rfl⟩
    · rintro (⟨-, rfl, rfl⟩ | ⟨hne, -⟩ | ⟨hne, -⟩)
      · rfl
      · exact absurd h0 hne
      · exact absurd h0 hne
  rw [if_neg h0]
  by_cases hrt : (turnAnswer ctl s p events).1 ≠ 0
  · rw [if_pos hrt]
    constructor
    · intro h; cases h; exact Or.inr (Or.inl ⟨h0, hrt, rfl, rfl⟩)
    · rintro (⟨hz, -⟩ | ⟨-, -, rfl, rfl⟩ | ⟨-, hz, -⟩)
      · exact absurd hz h0
      · rfl
      · exact absurd hz hrt
  rw [if_neg hrt]
  have hrt' := not_not.1 hrt
  constructor
  · intro h
    split at h
    · cases h
    · rename_i s₁ h1
      split at h
      · cases h
      · rename_i s₂ h2
        cases h
        exact Or.inr (Or.inr ⟨h0, hrt', rfl, s₁, h1, h2⟩)
  · rintro (⟨hz, -⟩ | ⟨-, hne, -⟩ | ⟨-, -, rfl, s₁, h1, h2⟩)
    · exact absurd hz h0
    · exact absurd hne hrt
    · split
      · rename_i e he
        cases he.symm.trans h1
      · rename_i s₃ h3
        cases h3.symm.trans h1
        rw [h2]

/-! ## Every operation keeps the invariant -/

theorem onTable_ok {fd : Int32} {body : ℕ → Except Fault (Bool × IOManager κ)} {b : Bool}
    {s' : IOManager κ} (h : s.onTable fd body = .ok (b, s')) :
    (b = false ∧ s' = s) ∨ ∃ p, s.slot fd = .ok p ∧ body p = .ok (b, s') := by
  unfold onTable at h
  split at h
  · split at h
    · cases h
    · rename_i p hp; exact Or.inr ⟨p, hp, h⟩
  · cases h; exact Or.inl ⟨rfl, rfl⟩

theorem addEvent_ok {caller : Caller} {fd : Int32} {e : Event} {cb : Option Callback}
    {r : ℤ × IOManager κ} (h : s.addEvent ctl caller fd e cb = .ok r) :
    ∃ p s₁, s.lookup fd = .ok (p, s₁) ∧ s₁.addEventAt ctl caller p fd e cb = .ok r := by
  unfold addEvent at h
  split at h
  · cases h
  · rename_i p s₁ hl; exact ⟨p, s₁, hl, h⟩

/-- **`cancelAll` under the mutex**: each registered event is consumed. -/
theorem cancelAllAt_cases {p : ℕ} {fd : Int32} {b : Bool} {s' : IOManager κ}
    (h : s.cancelAllAt ctl p fd = .ok (b, s')) :
    (b = false ∧ (s' = s ∨ ((ctl s.kernel .DEL fd 0).1 ≠ 0 ∧ (s.fdctx p).m_events ≠ 0 ∧
      s' = s.answer (ctl s.kernel .DEL fd 0).2))) ∨
    (b = true ∧ (ctl s.kernel .DEL fd 0).1 = 0 ∧ (s.fdctx p).m_events ≠ 0 ∧
      (s'.fdctx p).m_events = 0 ∧ ∃ s₁,
      consumeIf ((s.fdctx p).Has .READ) (s.answer (ctl s.kernel .DEL fd 0).2) p .READ = .ok s₁ ∧
      consumeIf ((s₁.fdctx p).Has .WRITE) s₁ p .WRITE = .ok s') := by
  simp only [cancelAllAt] at h
  split at h
  · cases h; exact Or.inl ⟨rfl, Or.inl rfl⟩
  · rename_i hne
    split at h
    · rename_i hrt
      cases h; exact Or.inl ⟨rfl, Or.inr ⟨hrt, hne, rfl⟩⟩
    · rename_i hrt
      right
      split at h
      · cases h
      · rename_i s₁ h1
        split at h
        · cases h
        · rename_i s₂ h2
          split at h
          · rename_i hzero
            cases h; exact ⟨rfl, not_not.1 hrt, hne, hzero, s₁, h1, h2⟩
          · cases h

/-- **What a call does**: nothing; the kernel refuses; `addEvent` runs under the mutex; the kernel
accepts and one event is dropped, or up to two events are consumed. -/
inductive Does (ctl : EpollCtl κ) (s : IOManager κ) : EventOp → IOManager κ → Prop
  | nothing (op : EventOp) : Does ctl s op s
  | refused (op : EventOp) (k : κ) : Does ctl s op (s.answer k)
  | adds {caller : Caller} {fd : Int32} {e : Event} {cb : Option Callback} {rt : ℤ} {p : ℕ}
      {s₁ s' : IOManager κ} (hl : s.lookup fd = .ok (p, s₁))
      (ha : s₁.addEventAt ctl caller p fd e cb = .ok (rt, s')) :
      Does ctl s (.addEvent caller fd e cb) s'
  | drops (op : EventOp) (req : CtlOp) (fd : Int32) (events : BitVec 32) (p : ℕ) (e : Event)
      (hacc : (ctl s.kernel req fd events).1 = 0) (hh : (s.fdctx p).Has e) :
      Does ctl s op ((s.answer (ctl s.kernel req fd events).2).dropAt p e none)
  | consumes (op : EventOp) (req : CtlOp) (fd : Int32) (events : BitVec 32) {p : ℕ} {b b' : Bool}
      {e e' : Event} {s₁ s' : IOManager κ} (hacc : (ctl s.kernel req fd events).1 = 0)
      (h : consumeIf b (s.answer (ctl s.kernel req fd events).2) p e = .ok s₁)
      (h' : consumeIf b' s₁ p e' = .ok s') : Does ctl s op s'

theorem call_does {op : EventOp} {s' : IOManager κ} (h : op.call ctl s = .ok s') :
    Does ctl s op s' := by
  cases op with
  | addEvent caller fd e cb =>
    obtain ⟨⟨rt, s₂⟩, ha, rfl⟩ := map_ok h
    obtain ⟨p, s₁, hl, ha⟩ := addEvent_ok ha
    exact .adds hl ha
  | delEvent fd e =>
    obtain ⟨⟨rt, s₁⟩, ha, rfl⟩ := map_ok h
    rcases onTable_ok ha with ⟨-, rfl⟩ | ⟨p, -, hb⟩
    · exact .nothing _
    · rcases delEventAt_cases hb with ⟨-, rfl | ⟨-, -, rfl⟩⟩ | ⟨-, hacc, hh, rfl⟩
      · exact .nothing _
      · exact .refused _ _
      · exact .drops _ _ fd _ p e hacc hh
  | cancelEvent fd e =>
    obtain ⟨⟨rt, s₁⟩, ha, rfl⟩ := map_ok h
    rcases onTable_ok ha with ⟨-, rfl⟩ | ⟨p, -, hb⟩
    · exact .nothing _
    · rcases cancelEventAt_cases hb with ⟨-, rfl | ⟨-, -, rfl⟩⟩ | ⟨-, hacc, -, hc⟩
      · exact .nothing _
      · exact .refused _ _
      · -- one event only
        have hrest : consumeIf false s₁ p e = .ok s₁ := rfl
        exact .consumes (b := true) _ _ _ _ hacc hc hrest
  | cancelAll fd =>
    obtain ⟨⟨rt, s₁⟩, ha, rfl⟩ := map_ok h
    rcases onTable_ok ha with ⟨-, rfl⟩ | ⟨p, -, hb⟩
    · exact .nothing _
    · rcases cancelAllAt_cases hb with ⟨-, rfl | ⟨-, -, rfl⟩⟩ | ⟨-, hacc, -, -, s₂, h1, h2⟩
      · exact .nothing _
      · exact .refused _ _
      · exact .consumes _ _ _ _ hacc h1 h2
  | dispatch p events =>
    obtain ⟨⟨calls, s₁⟩, ha, rfl⟩ := map_ok h
    rcases dispatch_cases.1 ha with ⟨-, -, rfl⟩ | ⟨-, -, -, rfl⟩ | ⟨-, hacc, -, s₂, h1, h2⟩
    · exact .nothing _
    · exact .refused _ _
    · exact .consumes _ _ _ _ hacc h1 h2

/-- **Every operation keeps the invariant of the event table.** -/
theorem call_keeps_ok (hs : s.OK) {op : EventOp} {s' : IOManager κ} (h : op.call ctl s = .ok s') :
    s'.OK := by
  have hanswer : ∀ k, (s.answer k).OK := answer_ok hs
  cases call_does h with
  | nothing => exact hs
  | refused _ k => exact hanswer k
  | @adds caller fd e cb rt p s₁ _ hl ha =>
    obtain ⟨hs₁, -, hp, -, -, -⟩ := lookup_ok hs hl
    rcases addEventAt_cases hs₁ ha with ⟨-, -, rfl⟩ | ⟨-, -, he, hno, rfl⟩
    · exact answer_ok hs₁ _
    · have hctx : (caller.context cb).fiber.isSome = !(caller.context cb).cb.isSome := by
        cases cb <;> rfl
      exact addAt_ok (answer_ok hs₁ (addAnswer ctl s₁ p fd e).2) hp he hno hctx
  | drops _ req fd events p e hacc hh => exact dropAt_ok (hanswer (ctl s.kernel req fd events).2) hh none
  | consumes _ req fd events hacc h1 h2 => exact consumeIf_ok (consumeIf_ok (hanswer _) h1) h2

end IOManager

/-- A call in a run; after a fault nothing more happens. -/
def EventOp.step {κ : Type} (ctl : EpollCtl κ) (s : Except Fault (IOManager κ)) (op : EventOp) :
    Except Fault (IOManager κ) := s.bind fun s => op.call ctl s

/-- **The event table is well formed in every state of every run.** -/
theorem events_ok {κ : Type} (ctl : EpollCtl κ) (k : κ) (ops : List EventOp) {s : IOManager κ}
    (h : run (EventOp.step ctl) (.ok (IOManager.init k)) ops = .ok s) : s.OK := by
  exact run_ok_inv (fun _ _ => rfl) (I := fun s : IOManager κ => s.OK)
    (fun _ _ _ _ hs h => IOManager.call_keeps_ok hs h) (IOManager.init_ok k) h

namespace IOManager

variable {κ : Type} {ctl : EpollCtl κ} {s : IOManager κ}

/-- **A turn of the event loop does what it should**: it returns, calls `triggerEvent`
exactly for the events both reported and registered, and takes that many off the count. -/
def DispatchExact (ctl : EpollCtl κ) (s : IOManager κ) (p : ℕ) (events : BitVec 32) : Prop :=
  ∃ calls s', s.dispatch ctl p events = .ok (calls, s') ∧
    calls = [.READ, .WRITE].filter (fun e => Reported events e ∧ (s.fdctx p).Has e) ∧
    s'.m_pendingEventCount + calls.length = s.m_pendingEventCount

/-- The event is registered, by a thread that has a scheduler. -/
def Manned (s : IOManager κ) (p : ℕ) (e : Event) : Prop :=
  (s.fdctx p).Has e ∧ ∃ ctx sched, (s.fdctx p).getContext e = some ctx ∧ ctx.scheduler = some sched

/-- No reported event is registered, or the kernel accepts the new mask and every
reported event is registered, by a thread that has a scheduler. -/
def DispatchCond (ctl : EpollCtl κ) (s : IOManager κ) (p : ℕ) (events : BitVec 32) : Prop :=
  (∀ e, Reported events e → ¬ (s.fdctx p).Has e) ∨
    ((turnAnswer ctl s p events).1 = 0 ∧ ∀ e, Reported events e → s.Manned p e)

/-- Nothing registered is reported. -/
theorem none_reported_iff (hs : s.OK) {p : ℕ} {events : BitVec 32} :
    (s.fdctx p).m_events &&& realEvents events = 0 ↔
      ∀ e, Reported events e → ¬ (s.fdctx p).Has e := by
  have hreal := realEvents_isMask events
  have hmask := (hs.ctx p).mask
  have hiff := realEvents_iff events
  have hall : (∀ e, Reported events e → ¬ (s.fdctx p).Has e) ↔
      (∀ e : Event, realEvents events &&& e.bits ≠ 0 → ¬ ((s.fdctx p).m_events &&& e.bits ≠ 0)) :=
    forall_congr' fun e => by rw [hiff e]; rfl
  rw [hall]
  generalize realEvents events = r at hreal
  generalize (s.fdctx p).m_events = m at hmask
  have hsplit : (∀ e : Event, r &&& e.bits ≠ 0 → ¬ (m &&& e.bits ≠ 0)) ↔
      (r &&& Event.READ.bits ≠ 0 → ¬ (m &&& Event.READ.bits ≠ 0)) ∧
      (r &&& Event.WRITE.bits ≠ 0 → ¬ (m &&& Event.WRITE.bits ≠ 0)) := by
    constructor
    · exact fun h => ⟨h .READ, h .WRITE⟩
    · rintro ⟨h1, h2⟩ e
      cases e with
      | NONE => intro h; simp [Event.bits] at h
      | READ => exact h1
      | WRITE => exact h2
  rw [hsplit]
  rcases hreal with rfl | rfl | rfl | rfl <;> rcases hmask with rfl | rfl | rfl | rfl <;> decide

/-- A consumption that is called for is defined exactly on a manned event, and then
takes one off the count. -/
theorem consumeIf_iff (hs : s.OK) {b : Bool} {p : ℕ} {e : Event} :
    (∃ s', consumeIf b s p e = .ok s') ↔ (b = true → s.Manned p e) := by
  unfold consumeIf
  cases b with
  | false => simp
  | true =>
    simp only [if_true, forall_const]
    constructor
    · rintro ⟨s', h⟩
      obtain ⟨ctx, sched, t, hc, hh, hsc, ht, -⟩ := (consume_eq_ok hs).1 h
      exact ⟨hh, ctx, sched, hc, hsc⟩
    · rintro ⟨hh, ctx, sched, hc, hsc⟩
      obtain ⟨t, ht⟩ := FdContext.task_isSome (hs.ctx p) hc hh
      exact ⟨_, (consume_eq_ok hs).2 ⟨ctx, sched, t, hc, hh, hsc, ht, rfl⟩⟩

/-- Consuming one event leaves the other as it is. -/
theorem consumeIf_other (hs : s.OK) {b : Bool} {p : ℕ} {e e' : Event} {s' : IOManager κ}
    (h : consumeIf b s p e = .ok s') (hne : e' ≠ e) :
    ((s'.fdctx p).Has e' ↔ (s.fdctx p).Has e') ∧
      (s'.fdctx p).getContext e' = (s.fdctx p).getContext e' := by
  unfold consumeIf at h
  split at h
  · obtain ⟨ctx, sched, t, hc, hh, hsc, ht, rfl⟩ := (consume_eq_ok hs).1 h
    rw [dropAt_fdctx_self, FdContext.has_drop (hs.ctx p).mask, FdContext.getContext_drop_of_ne hne]
    simp [hne]
  · cases h; exact ⟨Iff.rfl, rfl⟩

theorem consumeIf_manned (hs : s.OK) {b : Bool} {p : ℕ} {e e' : Event} {s' : IOManager κ}
    (h : consumeIf b s p e = .ok s') (hne : e' ≠ e) : s'.Manned p e' ↔ s.Manned p e' := by
  obtain ⟨hhas, hctx⟩ := consumeIf_other hs h hne
  unfold Manned
  rw [hhas, hctx]

theorem consumeIf_count (hs : s.OK) {b : Bool} {p : ℕ} {e : Event} {s' : IOManager κ}
    (h : consumeIf b s p e = .ok s') :
    s'.m_pendingEventCount + (if b then 1 else 0) = s.m_pendingEventCount := by
  unfold consumeIf at h
  split at h
  · rename_i hb
    obtain ⟨ctx, sched, t, hc, hh, hsc, ht, rfl⟩ := (consume_eq_ok hs).1 h
    have hpos := hs.count_pos hh
    rw [if_pos hb]
    show s.m_pendingEventCount - 1 + 1 = _
    omega
  · rename_i hb
    cases h; simp [hb]

/-- A turn with nothing to consume. -/
theorem dispatchExact_of_none (hs : s.OK) {p : ℕ} {events : BitVec 32}
    (h0 : (s.fdctx p).m_events &&& realEvents events = 0) : s.DispatchExact ctl p events := by
  refine ⟨[], s, dispatch_cases.2 (Or.inl ⟨h0, rfl, rfl⟩), ?_, rfl⟩
  rw [none_reported_iff hs] at h0
  symm
  rw [List.filter_eq_nil_iff]
  intro e _
  simpa using h0 e

/-- **A turn that the kernel accepts**, where every reported event is registered by a thread with a
scheduler. -/
theorem dispatchExact_of_all (hs : s.OK) {p : ℕ} {events : BitVec 32}
    (hrt : (turnAnswer ctl s p events).1 = 0) (hall : ∀ e, Reported events e → s.Manned p e) :
    s.DispatchExact ctl p events := by
  by_cases h0 : (s.fdctx p).m_events &&& realEvents events = 0
  · exact dispatchExact_of_none hs h0
  have hs₀ := answer_ok hs (turnAnswer ctl s p events).2
  obtain ⟨s₁, h1⟩ := (consumeIf_iff hs₀ (b := Reported events .READ) (p := p) (e := .READ)).2
    fun hb => hall .READ (of_decide_eq_true hb)
  have hs₁ := consumeIf_ok hs₀ h1
  obtain ⟨s₂, h2⟩ := (consumeIf_iff (b := Reported events .WRITE) (p := p) (e := .WRITE) hs₁).2
    fun hb => (consumeIf_manned hs₀ h1 (by decide)).2 (hall .WRITE (of_decide_eq_true hb))
  refine ⟨turnCalls events, s₂, dispatch_cases.2 (Or.inr (Or.inr ⟨h0, hrt, rfl, s₁, h1, h2⟩)), ?_, ?_⟩
  · apply List.filter_congr
    intro e _
    by_cases he : Reported events e
    · simp [he, (hall e he).1]
    · simp [he]
  · have c1 := consumeIf_count hs₀ h1
    have c2 := consumeIf_count hs₁ h2
    have c0 : (s.answer (turnAnswer ctl s p events).2).m_pendingEventCount =
      s.m_pendingEventCount := rfl
    have hlen : (turnCalls events).length =
        (if Reported events .READ then 1 else 0) + (if Reported events .WRITE then 1 else 0) := by
      unfold turnCalls
      by_cases hr : Reported events .READ <;> by_cases hw : Reported events .WRITE <;>
        simp [hr, hw]
    simp only [decide_eq_true_eq] at c1 c2
    rw [hlen]
    omega

/-- **A turn that consumes what it should** had nothing to consume, or was one of those. -/
theorem dispatchCond_of_exact (hs : s.OK) {p : ℕ} {events : BitVec 32}
    (h : s.DispatchExact ctl p events) : s.DispatchCond ctl p events := by
  have hs₀ := answer_ok hs (turnAnswer ctl s p events).2
  obtain ⟨calls, s', hd, hcalls, -⟩ := h
  rcases dispatch_cases.1 hd with ⟨h0, -, -⟩ | ⟨-, -, rfl, -⟩ | ⟨-, hrt, -, s₁, h1, h2⟩
  · exact Or.inl ((none_reported_iff hs).1 h0)
  · -- the kernel refused and nothing was consumed, so nothing registered was reported
    left
    intro e hr hh
    have hmem : e ∈ [Event.READ, .WRITE].filter
        (fun e => Reported events e ∧ (s.fdctx p).Has e) := by
      rw [List.mem_filter]
      refine ⟨?_, by simpa using ⟨hr, hh⟩⟩
      cases e with
      | NONE => exact hr.elim
      | READ => simp
      | WRITE => simp
    rw [← hcalls] at hmem
    simp at hmem
  · right
    refine ⟨hrt, ?_⟩
    have hr := (consumeIf_iff hs₀).1 ⟨_, h1⟩
    have hw := (consumeIf_iff (consumeIf_ok hs₀ h1)).1 ⟨_, h2⟩
    intro e he
    cases e with
    | NONE => exact he.elim
    | READ => exact hr (decide_eq_true he)
    | WRITE => exact (consumeIf_manned hs₀ h1 (by decide)).1 (hw (decide_eq_true he))

/-- **A turn of the event loop consumes exactly the events both reported and registered
if and only if** none is, or the kernel accepts and every reported event is registered
by a thread with a scheduler. -/
theorem dispatch_exact_iff {κ : Type} (ctl : EpollCtl κ) (k : κ) (ops : List EventOp)
    (s : IOManager κ) (h : run (EventOp.step ctl) (.ok (init k)) ops = .ok s) (p : ℕ)
    (events : BitVec 32) : s.DispatchExact ctl p events ↔ s.DispatchCond ctl p events := by
  have hs := events_ok ctl k ops h
  constructor
  · exact dispatchCond_of_exact hs
  · rintro (h0 | ⟨hrt, hall⟩)
    · exact dispatchExact_of_none hs ((none_reported_iff hs).2 h0)
    · exact dispatchExact_of_all hs hrt hall

/-- A kernel that accepts everything. -/
def acceptAll : EpollCtl Unit := fun _ _ _ _ => (0, ())

/-- A read registration of a worker, reported readable. -/
theorem dispatch_exact_iff_read :
    ∃ s : IOManager Unit, run (EventOp.step acceptAll) (.ok (init ()))
        [.addEvent ⟨some 0, 1, true⟩ 5 .READ (some 7)] = .ok s ∧
      (s.DispatchExact acceptAll 5 EPOLLIN ↔ s.DispatchCond acceptAll 5 EPOLLIN) :=
  ⟨_, rfl, dispatch_exact_iff acceptAll () [.addEvent ⟨some 0, 1, true⟩ 5 .READ (some 7)] _ rfl 5
    EPOLLIN⟩

/-- A hang-up on a read registration fails the assertion of `triggerEvent`. -/
theorem hangup_on_read :
    ∃ s : IOManager Unit, run (EventOp.step acceptAll) (.ok (init ()))
        [.addEvent ⟨some 0, 1, true⟩ 5 .READ (some 7)] = .ok s ∧
      (match s.dispatch acceptAll 5 EPOLLHUP with
        | .error .assertion => True
        | _ => False) ∧
      ¬ s.DispatchExact acceptAll 5 EPOLLHUP := by
  refine ⟨_, rfl, trivial, ?_⟩
  rintro ⟨calls, s', hd, -⟩
  cases hd

end IOManager

end Coroutine
