import Coroutine.Proof.EventContext
import Mathlib.Algebra.BigOperators.Group.Finset.Basic

/-!
# The event table of an `IOManager`

`IOManager.OK`: every context is well formed, contexts not made yet have no events, the
table points to contexts that exist, and `m_pendingEventCount` is the number of bits set
in all of them. Each operation is a sequence of a few changes of one event, `addAt` and
`dropAt` (`addEventAt_cases`, `consume_eq_ok`, `delEventAt_cases`), and each change keeps
the invariant.
-/

namespace Coroutine

/-- What the caller of `addEvent` registers. -/
def Caller.context (caller : Caller) (cb : Option Callback) : EventContext :=
  { scheduler := caller.scheduler, fiber := if cb.isSome then none else some caller.fiber, cb := cb }

namespace IOManager

variable {κ : Type} {ctl : EpollCtl κ} {s : IOManager κ}

/-- The number of bits set in the masks of all contexts. -/
def registered (s : IOManager κ) : ℕ := ∑ p ∈ Finset.range s.nctx, bitCount (s.fdctx p).m_events

/-- **The invariant of the event table.** -/
structure OK (s : IOManager κ) : Prop where
  ctx : ∀ p, (s.fdctx p).OK
  unused : ∀ p, s.nctx ≤ p → (s.fdctx p).m_events = 0
  table : ∀ p ∈ s.m_fdContexts, p < s.nctx
  count : s.m_pendingEventCount = s.registered

/-- Event `e` of context `p` is consumed and `t` handed to a scheduler. -/
def dropAt (s : IOManager κ) (p : ℕ) (e : Event) (t : Option (ℕ × FiberOrcb)) : IOManager κ :=
  { s.set p ((s.fdctx p).drop e) with
    tasks := s.tasks ++ t.toList
    m_pendingEventCount := s.m_pendingEventCount - 1 }

/-- Event `e` of context `p` is registered. -/
def addAt (s : IOManager κ) (p : ℕ) (e : Event) (ctx : EventContext) : IOManager κ :=
  { s.set p ((s.fdctx p).add e ctx) with m_pendingEventCount := s.m_pendingEventCount + 1 }

/-- The kernel has answered. -/
def answer (s : IOManager κ) (k : κ) : IOManager κ := { s with kernel := k }

@[simp] theorem set_fdctx_self (p : ℕ) (c : FdContext) : (s.set p c).fdctx p = c := by simp [set]

theorem set_fdctx_of_ne {p q : ℕ} (c : FdContext) (h : q ≠ p) : (s.set p c).fdctx q = s.fdctx q := by
  simp [set, h]

@[simp] theorem dropAt_fdctx_self (p : ℕ) (e : Event) (t : Option (ℕ × FiberOrcb)) :
    (s.dropAt p e t).fdctx p = (s.fdctx p).drop e := set_fdctx_self _ _

theorem dropAt_fdctx_of_ne {p q : ℕ} (e : Event) (t : Option (ℕ × FiberOrcb)) (h : q ≠ p) :
    (s.dropAt p e t).fdctx q = s.fdctx q := set_fdctx_of_ne _ h

@[simp] theorem addAt_fdctx_self (p : ℕ) (e : Event) (ctx : EventContext) :
    (s.addAt p e ctx).fdctx p = (s.fdctx p).add e ctx := set_fdctx_self _ _

theorem addAt_fdctx_of_ne {p q : ℕ} (e : Event) (ctx : EventContext) (h : q ≠ p) :
    (s.addAt p e ctx).fdctx q = s.fdctx q := set_fdctx_of_ne _ h

/-- Changing one context changes the number of registered events by that context's bits. -/
theorem registered_set {p : ℕ} (hp : p < s.nctx) (c : FdContext) :
    (s.set p c).registered + bitCount (s.fdctx p).m_events =
      s.registered + bitCount c.m_events := by
  have hmem : p ∈ Finset.range s.nctx := Finset.mem_range.2 hp
  unfold registered
  rw [show (s.set p c).nctx = s.nctx from rfl]
  rw [← Finset.add_sum_erase _ _ hmem, ← Finset.add_sum_erase _ _ hmem, set_fdctx_self]
  have hrest : ∑ q ∈ (Finset.range s.nctx).erase p, bitCount ((s.set p c).fdctx q).m_events =
      ∑ q ∈ (Finset.range s.nctx).erase p, bitCount (s.fdctx q).m_events := by
    apply Finset.sum_congr rfl
    intro q hq
    rw [set_fdctx_of_ne c (Finset.mem_erase.1 hq).1]
  rw [hrest]
  omega

theorem OK.lt_nctx (hs : s.OK) {p : ℕ} {e : Event} (hh : (s.fdctx p).Has e) : p < s.nctx := by
  by_contra hge
  have h0 := hs.unused p (by omega)
  exact hh (by rw [h0]; simp)

/-- A registered event is counted. -/
theorem OK.count_pos (hs : s.OK) {p : ℕ} {e : Event} (hh : (s.fdctx p).Has e) :
    0 < s.m_pendingEventCount := by
  have hp := hs.lt_nctx hh
  have hb := FdContext.bitCount_pos (hs.ctx p).mask hh
  have hle := registered_set (s := s) hp { s.fdctx p with m_events := 0 }
  have h0 : bitCount 0 = 0 := by decide
  change _ + _ = _ + bitCount 0 at hle
  rw [h0] at hle
  rw [hs.count]
  omega

theorem answer_ok (hs : s.OK) (k : κ) : (s.answer k).OK := ⟨hs.ctx, hs.unused, hs.table, hs.count⟩

/-- **Consuming an event keeps the table well formed.** -/
theorem dropAt_ok (hs : s.OK) {p : ℕ} {e : Event} (hh : (s.fdctx p).Has e)
    (t : Option (ℕ × FiberOrcb)) : (s.dropAt p e t).OK := by
  have hp := hs.lt_nctx hh
  refine ⟨?_, ?_, hs.table, ?_⟩
  · intro q
    by_cases hq : q = p
    · subst hq; rw [dropAt_fdctx_self]; exact FdContext.drop_ok (hs.ctx q)
    · rw [dropAt_fdctx_of_ne e t hq]; exact hs.ctx q
  · intro q hq
    have hqn : s.nctx ≤ q := hq
    rw [dropAt_fdctx_of_ne e t (by omega)]; exact hs.unused q hqn
  · have h1 := registered_set hp ((s.fdctx p).drop e)
    have h2 := FdContext.bitCount_drop (hs.ctx p).mask hh
    have h3 := hs.count_pos hh
    show s.m_pendingEventCount - 1 = (s.set p ((s.fdctx p).drop e)).registered
    rw [hs.count] at h3 ⊢
    omega

/-- **Registering an event keeps the table well formed.** -/
theorem addAt_ok (hs : s.OK) {p : ℕ} (hp : p < s.nctx) {e : Event} (he : e ≠ .NONE)
    (hh : ¬ (s.fdctx p).Has e) {ctx : EventContext} (hctx : ctx.fiber.isSome = !ctx.cb.isSome) :
    (s.addAt p e ctx).OK := by
  refine ⟨?_, ?_, hs.table, ?_⟩
  · intro q
    by_cases hq : q = p
    · subst hq; rw [addAt_fdctx_self]; exact FdContext.add_ok (hs.ctx q) he hctx
    · rw [addAt_fdctx_of_ne e ctx hq]; exact hs.ctx q
  · intro q hq
    have hqn : s.nctx ≤ q := hq
    rw [addAt_fdctx_of_ne e ctx (by omega)]; exact hs.unused q hqn
  · have h1 := registered_set hp ((s.fdctx p).add e ctx)
    have h2 : bitCount ((s.fdctx p).add e ctx).m_events = bitCount (s.fdctx p).m_events + 1 :=
      FdContext.bitCount_add (hs.ctx p).mask he hh
    show s.m_pendingEventCount + 1 = (s.set p ((s.fdctx p).add e ctx)).registered
    rw [hs.count]
    omega

/-! ## The table -/

/-- The same masks and event contexts, whatever the descriptors. -/
def SameEvents (s s' : IOManager κ) : Prop :=
  ∀ p, (s'.fdctx p).m_events = (s.fdctx p).m_events ∧
    ∀ e, (s'.fdctx p).getContext e = (s.fdctx p).getContext e

/-- **Resizing touches no event**: a new context is as empty as one not made yet. -/
theorem contextResize_same (hs : s.OK) (size : ℕ) : s.SameEvents (s.contextResize size) := by
  intro p
  unfold contextResize
  dsimp only
  split
  · rename_i hp
    have h0 := hs.unused p hp.1
    refine ⟨h0.symm, ?_⟩
    intro e
    have hno : ¬ (s.fdctx p).Has e := by simp [FdContext.Has, h0]
    cases e with
    | NONE => rfl
    | READ => exact congrArg some ((hs.ctx p).free .READ _ rfl hno).symm
    | WRITE => exact congrArg some ((hs.ctx p).free .WRITE _ rfl hno).symm
  · exact ⟨rfl, fun _ => rfl⟩

theorem contextResize_ok (hs : s.OK) (size : ℕ) : (s.contextResize size).OK := by
  have hsame := contextResize_same hs size
  refine ⟨?_, ?_, ?_, ?_⟩
  · intro p
    unfold contextResize
    dsimp only
    split
    · exact FdContext.ok_empty
    · exact hs.ctx p
  · intro p hp
    rw [(hsame p).1]
    exact hs.unused p (Nat.le_trans (Nat.le_add_right _ _) hp)
  · intro p hp
    simp only [contextResize, List.mem_append, List.mem_map, List.mem_range] at hp ⊢
    rcases hp with hp | ⟨i, hi, rfl⟩
    · exact Nat.lt_of_lt_of_le (hs.table p (List.mem_of_mem_take hp)) (Nat.le_add_right _ _)
    · omega
  · show s.m_pendingEventCount = (s.contextResize size).registered
    rw [hs.count]
    unfold registered
    show _ = ∑ p ∈ Finset.range (s.nctx + (size - s.size)), _
    have hold : ∑ p ∈ Finset.range s.nctx, bitCount ((s.contextResize size).fdctx p).m_events =
        ∑ p ∈ Finset.range s.nctx, bitCount (s.fdctx p).m_events := by
      apply Finset.sum_congr rfl
      intro p _
      rw [(hsame p).1]
    have hnew : ∀ i ∈ Finset.range (size - s.size),
        bitCount ((s.contextResize size).fdctx (s.nctx + i)).m_events = 0 := by
      intro i _
      rw [(hsame _).1, hs.unused _ (Nat.le_add_right _ _)]; decide
    rw [Finset.sum_range_add, hold, Finset.sum_eq_zero hnew, Nat.add_zero]

theorem init_ok (k : κ) : (init k).OK := by
  apply contextResize_ok
  exact ⟨fun _ => FdContext.ok_empty, fun _ _ => rfl, fun _ h => absurd h (by simp), rfl⟩

theorem slot_mem {fd : Int32} {p : ℕ} (h : s.slot fd = .ok p) : p ∈ s.m_fdContexts := by
  unfold slot at h
  split at h
  · cases h
  · split at h
    · cases h
    · rename_i q hq
      cases h
      exact List.mem_of_getElem? hq

/-- What the lookup of `addEvent` leaves. -/
theorem lookup_ok (hs : s.OK) {fd : Int32} {p : ℕ} {s' : IOManager κ}
    (h : s.lookup fd = .ok (p, s')) : s'.OK ∧ s.SameEvents s' ∧ p < s'.nctx ∧
      s'.slot fd = .ok p ∧ s'.tasks = s.tasks ∧ s'.m_pendingEventCount = s.m_pendingEventCount := by
  unfold lookup at h
  split at h
  · cases hsl : s.slot fd with
    | error e => rw [hsl] at h; cases h
    | ok q =>
      rw [hsl] at h; cases h
      exact ⟨hs, fun _ => ⟨rfl, fun _ => rfl⟩, hs.table _ (slot_mem hsl), hsl, rfl, rfl⟩
  · unfold grow at h
    split at h
    · cases h
    · cases hsl : (s.contextResize (growSize fd)).slot fd with
      | error e => rw [hsl] at h; cases h
      | ok q =>
        rw [hsl] at h; cases h
        have hok := contextResize_ok hs (growSize fd)
        exact ⟨hok, contextResize_same hs _, hok.table _ (slot_mem hsl), hsl, rfl, rfl⟩

theorem lookup_kernel {fd : Int32} {p : ℕ} {s' : IOManager κ} (h : s.lookup fd = .ok (p, s')) :
    s'.kernel = s.kernel := by
  unfold lookup at h
  split at h
  · cases hsl : s.slot fd with
    | error e => rw [hsl] at h; cases h
    | ok q => rw [hsl] at h; cases h; rfl
  · unfold grow at h
    split at h
    · cases h
    · cases hsl : (s.contextResize (growSize fd)).slot fd with
      | error e => rw [hsl] at h; cases h
      | ok q => rw [hsl] at h; cases h; rfl

/-! ## The operations as changes -/

/-- The kernel's answer to the request of `addEvent`. -/
def addAnswer (ctl : EpollCtl κ) (s : IOManager κ) (p : ℕ) (fd : Int32) (e : Event) : ℤ × κ :=
  ctl s.kernel (addRequest (s.fdctx p) e).1 fd (addRequest (s.fdctx p) e).2

/-- The kernel's answer to a request that drops the events of `mask`. -/
def dropAnswer (ctl : EpollCtl κ) (s : IOManager κ) (p : ℕ) (fd : Int32) (mask : BitVec 32) : ℤ × κ :=
  ctl s.kernel (dropRequest (s.fdctx p) mask).1 fd (dropRequest (s.fdctx p) mask).2

/-- **`addEvent` under the mutex**: the kernel refuses and nothing changes, or the event
is registered with the caller's scheduler and its callback or fiber. -/
theorem addEventAt_cases (hs : s.OK) {caller : Caller} {p : ℕ} {fd : Int32} {e : Event}
    {cb : Option Callback} {rt : ℤ} {s' : IOManager κ}
    (h : s.addEventAt ctl caller p fd e cb = .ok (rt, s')) :
    (rt = -1 ∧ (addAnswer ctl s p fd e).1 ≠ 0 ∧ s' = s.answer (addAnswer ctl s p fd e).2) ∨
    (rt = 0 ∧ (addAnswer ctl s p fd e).1 = 0 ∧ e ≠ .NONE ∧ ¬ (s.fdctx p).Has e ∧
      s' = (s.answer (addAnswer ctl s p fd e).2).addAt p e (caller.context cb)) := by
  simp only [addEventAt] at h
  split at h
  · cases h
  rename_i hh
  have hno : ¬ (s.fdctx p).Has e := by simpa [FdContext.Has] using hh
  split at h
  · rename_i hrt
    cases h
    exact Or.inl ⟨rfl, hrt, rfl⟩
  · rename_i hrt
    have hacc := not_not.1 hrt
    split at h
    · cases h
    · rename_i ctx hc
      have he : e ≠ .NONE := by rintro rfl; cases hc
      have hfree := (hs.ctx p).free e ctx hc hno
      subst hfree
      simp only [Option.isSome_none, Bool.false_eq_true, or_self, if_false] at h
      right
      split at h
      · cases h; exact ⟨rfl, hacc, he, hno, rfl⟩
      · split at h
        · cases h; exact ⟨rfl, hacc, he, hno, rfl⟩
        · cases h

/-- Once the event is known not to be registered, `addEvent` returns. -/
theorem addEventAt_defined (hs : s.OK) {caller : Caller} {p : ℕ} {fd : Int32} {e : Event}
    {cb : Option Callback} (he : e ≠ .NONE) (hno : ¬ (s.fdctx p).Has e)
    (hexec : cb = none → caller.exec) : ∃ r, s.addEventAt ctl caller p fd e cb = .ok r := by
  obtain ⟨ctx, hc⟩ := FdContext.getContext_isSome (c := s.fdctx p) he
  have hfree := (hs.ctx p).free e ctx hc hno
  subst hfree
  unfold FdContext.Has at hno
  simp only [addEventAt, if_neg hno]
  split
  · exact ⟨_, rfl⟩
  · rw [hc]
    cases cb with
    | some f => exact ⟨_, rfl⟩
    | none => simp [hexec rfl]

/-- **`triggerEvent` with its decrement** drops a registered event of a non-null
scheduler and hands its task over. -/
theorem consume_eq_ok (hs : s.OK) {p : ℕ} {e : Event} {s' : IOManager κ} :
    s.consume p e = .ok s' ↔ ∃ ctx sched t, (s.fdctx p).getContext e = some ctx ∧
      (s.fdctx p).Has e ∧ ctx.scheduler = some sched ∧ ctx.task = some t ∧
      s' = s.dropAt p e (some (sched, t)) := by
  unfold consume
  constructor
  · intro h
    split at h
    · cases h
    · rename_i c sched task htr
      obtain ⟨ctx, sc, hc, hh, hsc, heq⟩ := (FdContext.trigger_eq_ok (hs.ctx p)).1 htr
      obtain ⟨t, ht⟩ := FdContext.task_isSome (hs.ctx p) hc hh
      rw [ht] at heq
      cases heq
      refine ⟨ctx, _, t, hc, hh, hsc, ht, ?_⟩
      rw [← Except.ok.inj h]; rfl
  · rintro ⟨ctx, sched, t, hc, hh, hsc, ht, rfl⟩
    have htr := (FdContext.trigger_eq_ok (hs.ctx p)).2 ⟨ctx, sched, hc, hh, hsc, rfl⟩
    rw [htr, ht]; rfl

/-- **`delEvent` under the mutex.** -/
theorem delEventAt_cases {p : ℕ} {fd : Int32} {e : Event} {b : Bool} {s' : IOManager κ}
    (h : s.delEventAt ctl p fd e = .ok (b, s')) :
    (b = false ∧ (s' = s ∨ ((dropAnswer ctl s p fd e.bits).1 ≠ 0 ∧ (s.fdctx p).Has e ∧
      s' = s.answer (dropAnswer ctl s p fd e.bits).2))) ∨
    (b = true ∧ (dropAnswer ctl s p fd e.bits).1 = 0 ∧ (s.fdctx p).Has e ∧
      s' = (s.answer (dropAnswer ctl s p fd e.bits).2).dropAt p e none) := by
  simp only [delEventAt] at h
  split at h
  · cases h; exact Or.inl ⟨rfl, Or.inl rfl⟩
  · rename_i hh
    split at h
    · rename_i hrt
      cases h; exact Or.inl ⟨rfl, Or.inr ⟨hrt, hh, rfl⟩⟩
    · rename_i hrt
      split at h
      · cases h
      · cases h
        refine Or.inr ⟨rfl, not_not.1 hrt, hh, ?_⟩
        simp [dropAt, answer, set, FdContext.drop, dropAnswer]

/-- **`cancelEvent` under the mutex.** -/
theorem cancelEventAt_cases {p : ℕ} {fd : Int32} {e : Event} {b : Bool}
    {s' : IOManager κ} (h : s.cancelEventAt ctl p fd e = .ok (b, s')) :
    (b = false ∧ (s' = s ∨ ((dropAnswer ctl s p fd e.bits).1 ≠ 0 ∧ (s.fdctx p).Has e ∧
      s' = s.answer (dropAnswer ctl s p fd e.bits).2))) ∨
    (b = true ∧ (dropAnswer ctl s p fd e.bits).1 = 0 ∧ (s.fdctx p).Has e ∧
      (s.answer (dropAnswer ctl s p fd e.bits).2).consume p e = .ok s') := by
  simp only [cancelEventAt] at h
  split at h
  · cases h; exact Or.inl ⟨rfl, Or.inl rfl⟩
  · rename_i hh
    split at h
    · rename_i hrt
      cases h; exact Or.inl ⟨rfl, Or.inr ⟨hrt, hh, rfl⟩⟩
    · rename_i hrt
      right
      change ((s.answer (dropAnswer ctl s p fd e.bits).2).consume p e).map (true, ·) = _ at h
      cases hc : (s.answer (dropAnswer ctl s p fd e.bits).2).consume p e with
      | error f => rw [hc] at h; cases h
      | ok s₁ => rw [hc] at h; cases h; exact ⟨rfl, not_not.1 hrt, hh, rfl⟩

end IOManager

end Coroutine
