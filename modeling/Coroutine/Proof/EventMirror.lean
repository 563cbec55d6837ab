import Coroutine.Lib.Run
import Coroutine.Proof.EventThreads
import Coroutine.Spec.EventKernel

/-!
# The kernel mirrors the event table

`IOManager.Mirrors`: the kernel's entry of every descriptor is the one that belongs to
`m_events` of its context, and no request ever chose the wrong operation. It is carried
with `Laid`: the context at index `fd` of the table is the one for `fd`, and every context
with registered events is in the table.

* `Changed`, `changed_mirrors`: an operation that the kernel accepted changes one context
  and the entry of its descriptor alike.
* `contextResize_mirrors`: resizing keeps the mirror when it drops no registered event.
* `kernel_mirrors`: so in every run whose calls drop none the kernel mirrors the table.
* `huge_descriptor_unmirrored`: a table of `2^31` contexts and more has a negative size,
  and the next call shrinks it.
-/

namespace Coroutine

open Lib

/-! ## The kernel -/

theorem InterestSet.ctl_fits {κ : Type} {other : EpollCtl κ} {k : InterestSet κ} {op : CtlOp}
    {fd : Int32} (events : BitVec 32) (h : op.misfits (k.mask fd) = false) :
    (ctl other k op fd events).2.mistaken = k.mistaken ∧
      (((ctl other k op fd events).1 ≠ 0 ∧ (ctl other k op fd events).2.mask = k.mask) ∨
      ((ctl other k op fd events).1 = 0 ∧
        (ctl other k op fd events).2.mask = Function.update k.mask fd (op.entry events))) := by
  unfold ctl
  rw [if_neg (by simp [h])]
  dsimp only
  by_cases hrt : (other k.other op fd events).1 ≠ 0
  · rw [if_pos hrt]; exact ⟨rfl, Or.inl ⟨hrt, rfl⟩⟩
  · rw [if_neg hrt]; exact ⟨rfl, Or.inr ⟨rfl, rfl⟩⟩

theorem FdContext.Has.m_events_ne {c : FdContext} {e : Event} (h : c.Has e) : c.m_events ≠ 0 :=
  fun h0 => h (by rw [h0]; simp)

namespace IOManager

variable {κ : Type} {s s' : IOManager κ}

/-! ## The request of an operation fits, and leaves the entry of what is left -/

theorem addRequest_fits (c : FdContext) (e : Event) :
    (addRequest c e).1.misfits (interestOf c.m_events) = false := by
  unfold addRequest interestOf
  by_cases h : c.m_events = 0
  · rw [if_neg (not_not.2 h), if_pos h]; rfl
  · rw [if_pos h, if_neg h]; rfl

theorem addRequest_entry {c : FdContext} {e : Event} (he : e ≠ .NONE) :
    (addRequest c e).1.entry (addRequest c e).2 = interestOf (c.m_events ||| e.bits) := by
  have hne : c.m_events ||| e.bits ≠ 0 := by
    intro h
    have hbits := (BitVec.or_eq_zero_iff.1 h).2
    cases e <;> simp [Event.bits] at hbits he
  have hentry : (addRequest c e).1.entry (addRequest c e).2 = some (addRequest c e).2 := by
    unfold addRequest
    dsimp only
    split <;> rfl
  rw [hentry, interestOf, if_neg hne]
  simp only [addRequest, BitVec.or_assoc]

theorem dropRequest_fits {c : FdContext} (mask : BitVec 32) (h : c.m_events ≠ 0) :
    (dropRequest c mask).1.misfits (interestOf c.m_events) = false := by
  unfold dropRequest interestOf
  rw [if_neg h]
  dsimp only
  split <;> rfl

theorem dropRequest_entry (c : FdContext) (mask : BitVec 32) :
    (dropRequest c mask).1.entry (dropRequest c mask).2 = interestOf (c.m_events &&& ~~~ mask) := by
  unfold dropRequest interestOf
  by_cases h : c.m_events &&& ~~~ mask = 0
  · dsimp only
    rw [if_neg (not_not.2 h), if_pos h]; rfl
  · dsimp only
    rw [if_pos h, if_neg h]; rfl

/-! ## The layout of the table -/

theorem slot_eq_ok {fd : Int32} {p : ℕ} :
    s.slot fd = .ok p ↔ 0 ≤ fd ∧ s.m_fdContexts[fd.toInt.toNat]? = some p := by
  unfold slot
  by_cases hneg : fd < 0
  · simp [hneg, Int32.not_le]
  · rw [if_neg hneg]
    have hnonneg : 0 ≤ fd := Int32.not_lt.1 hneg
    cases hget : s.m_fdContexts[fd.toInt.toNat]? with
    | none => simp
    | some q => simp [hnonneg]

/-- **The table is laid out by descriptor.** -/
structure Laid (s : IOManager κ) : Prop where
  ok : s.OK
  fd : ∀ (i p : ℕ), s.m_fdContexts[i]? = some p → (s.fdctx p).fd = Int32.ofNat i
  nodup : s.m_fdContexts.Nodup
  home : ∀ p, (s.fdctx p).m_events ≠ 0 → ∃ fd, s.slot fd = .ok p

theorem slot_fd (hs : s.Laid) {fd : Int32} {p : ℕ} (h : s.slot fd = .ok p) : (s.fdctx p).fd = fd := by
  obtain ⟨hnonneg, hget⟩ := slot_eq_ok.1 h
  rw [hs.fd _ p hget]
  exact Int32.ofNat_toNatClampNeg fd hnonneg

/-- Two descriptors do not share a context. -/
theorem slot_inj (hs : s.Laid) {fd fd' : Int32} {p : ℕ} (h : s.slot fd = .ok p)
    (h' : s.slot fd' = .ok p) : fd = fd' := (slot_fd hs h).symm.trans (slot_fd hs h')

theorem interest_of_slot {fd : Int32} {p : ℕ} (h : s.slot fd = .ok p) :
    s.interest fd = interestOf (s.fdctx p).m_events := by
  unfold interest
  rw [h]

theorem slot_of_interest {fd : Int32} {m : BitVec 32} (h : s.interest fd = some m) :
    ∃ p, s.slot fd = .ok p := by
  unfold interest at h
  split at h
  · cases h
  · rename_i p hslot; exact ⟨p, hslot⟩

/-- A change of the events of one context. -/
structure Changed (p : ℕ) (s s' : IOManager κ) : Prop where
  table : s'.m_fdContexts = s.m_fdContexts
  fd : ∀ q, (s'.fdctx q).fd = (s.fdctx q).fd
  events : ∀ q, q ≠ p → (s'.fdctx q).m_events = (s.fdctx q).m_events

theorem changed_refl (p : ℕ) (s : IOManager κ) : Changed p s s :=
  ⟨rfl, fun _ => rfl, fun _ _ => rfl⟩

theorem Changed.trans {p : ℕ} {s'' : IOManager κ} (h : Changed p s s') (h' : Changed p s' s'') :
    Changed p s s'' :=
  ⟨h'.table.trans h.table, fun q => (h'.fd q).trans (h.fd q),
    fun q hq => (h'.events q hq).trans (h.events q hq)⟩

theorem changed_answer (p : ℕ) (k : κ) : Changed p s (s.answer k) :=
  ⟨rfl, fun _ => rfl, fun _ _ => rfl⟩

theorem changed_addAt (p : ℕ) (e : Event) (ctx : EventContext) : Changed p s (s.addAt p e ctx) := by
  refine ⟨rfl, ?_, fun q hq => by rw [addAt_fdctx_of_ne e ctx hq]⟩
  intro q
  by_cases hq : q = p
  · subst hq; rw [addAt_fdctx_self]; cases e <;> rfl
  · rw [addAt_fdctx_of_ne e ctx hq]

theorem changed_dropAt (p : ℕ) (e : Event) (t : Option (ℕ × FiberOrcb)) :
    Changed p s (s.dropAt p e t) := by
  refine ⟨rfl, ?_, fun q hq => by rw [dropAt_fdctx_of_ne e t hq]⟩
  intro q
  by_cases hq : q = p
  · subst hq; rw [dropAt_fdctx_self]; cases e <;> rfl
  · rw [dropAt_fdctx_of_ne e t hq]

theorem Changed.slot {p : ℕ} (h : Changed p s s') (fd : Int32) : s'.slot fd = s.slot fd := by
  unfold IOManager.slot
  rw [h.table]

/-- A change of a context in the table keeps the layout. -/
theorem Changed.laid {p : ℕ} (h : Changed p s s') (hs : s.Laid) (hok : s'.OK) {fd : Int32}
    (hslot : s.slot fd = .ok p) : s'.Laid := by
  refine ⟨hok, ?_, by rw [h.table]; exact hs.nodup, ?_⟩
  · intro i q hq
    rw [h.table] at hq
    rw [h.fd q]
    exact hs.fd i q hq
  · intro q hq
    by_cases hqp : q = p
    · subst hqp; exact ⟨fd, by rw [h.slot]; exact hslot⟩
    · rw [h.events q hqp] at hq
      obtain ⟨fd', hfd'⟩ := hs.home q hq
      exact ⟨fd', by rw [h.slot]; exact hfd'⟩

/-! ## Resizing -/

theorem contextResize_get (size i : ℕ) : (s.contextResize size).m_fdContexts[i]? =
    if i < size then
      if i < s.size then s.m_fdContexts[i]? else some (s.nctx + (i - s.size))
    else none := by
  have hlen : (s.contextResize size).m_fdContexts.length = size := size_contextResize size
  by_cases hi : i < size
  · rw [if_pos hi]
    show (s.m_fdContexts.take size ++ (List.range (size - s.size)).map (s.nctx + ·))[i]? = _
    by_cases hold : i < s.size
    · have htake : i < (s.m_fdContexts.take size).length := by
        rw [List.length_take]; exact Nat.lt_min.2 ⟨hi, hold⟩
      rw [if_pos hold, List.getElem?_append_left htake, List.getElem?_take_of_lt hi]
    · have hle : s.m_fdContexts.length ≤ i := Nat.not_lt.1 hold
      have htake : s.m_fdContexts.take size = s.m_fdContexts := List.take_of_length_le (by omega)
      rw [if_neg hold, htake, List.getElem?_append_right hle, List.getElem?_map, List.getElem?_range]
      · rfl
      · have hsize : s.m_fdContexts.length = s.size := rfl
        omega
  · rw [if_neg hi, List.getElem?_eq_none]
    omega

/-- A new context has a pointer of its own. -/
theorem contextResize_nodup (hs : s.OK) (hnodup : s.m_fdContexts.Nodup) (size : ℕ) :
    (s.contextResize size).m_fdContexts.Nodup := by
  show (s.m_fdContexts.take size ++ (List.range (size - s.size)).map (s.nctx + ·)).Nodup
  rw [List.nodup_append]
  refine ⟨hnodup.sublist (List.take_sublist _ _), ?_, ?_⟩
  · exact List.nodup_range.map fun a b h => Nat.add_left_cancel h
  · intro p hp q hq
    have hlt := hs.table p (List.mem_of_mem_take hp)
    obtain ⟨i, -, rfl⟩ := List.mem_map.1 hq
    omega

/-- A context that exists is left alone. -/
theorem contextResize_fdctx {p : ℕ} (hp : p < s.nctx) (size : ℕ) :
    (s.contextResize size).fdctx p = s.fdctx p := by
  simp only [contextResize]
  rw [if_neg (by omega)]

/-- Also the new contexts are those for their index. -/
theorem contextResize_fd (hs : s.OK)
    (hfd : ∀ (i p : ℕ), s.m_fdContexts[i]? = some p → (s.fdctx p).fd = Int32.ofNat i) {size i p : ℕ}
    (hp : (s.contextResize size).m_fdContexts[i]? = some p) :
    ((s.contextResize size).fdctx p).fd = Int32.ofNat i := by
  rw [contextResize_get] at hp
  split at hp
  · rename_i hi
    split at hp
    · -- an old context
      rw [contextResize_fdctx (hs.table p (List.mem_of_getElem? hp))]
      exact hfd i p hp
    · rename_i hge
      cases hp
      simp only [contextResize]
      rw [if_pos (by omega)]
      show Int32.ofNat (s.size + (s.nctx + (i - s.size) - s.nctx)) = _
      congr 1
      omega
  · cases hp

/-- The contexts that `contextResize size` takes out of the table have no events. -/
def SparesAt (s : IOManager κ) (size : ℕ) : Prop :=
  ∀ (i p : ℕ), size ≤ i → s.m_fdContexts[i]? = some p → (s.fdctx p).m_events = 0

theorem contextResize_laid (hs : s.Laid) {size : ℕ} (hspare : s.SparesAt size) :
    (s.contextResize size).Laid := by
  have hok := contextResize_ok hs.ok size
  have hsame := contextResize_same hs.ok size
  refine ⟨hok, fun i p hp => contextResize_fd hs.ok hs.fd hp, ?_, ?_⟩
  · exact contextResize_nodup hs.ok hs.nodup size
  · intro p hp
    rw [(hsame p).1] at hp
    obtain ⟨fd, hfd⟩ := hs.home p hp
    obtain ⟨hnonneg, hget⟩ := slot_eq_ok.1 hfd
    have hkept : fd.toInt.toNat < size := by
      by_contra hge
      exact hp (hspare _ p (Nat.not_lt.1 hge) hget)
    have hlen : fd.toInt.toNat < s.size := (List.getElem?_eq_some_iff.1 hget).1
    refine ⟨fd, slot_eq_ok.2 ⟨hnonneg, ?_⟩⟩
    rw [contextResize_get, if_pos hkept, if_pos hlen]
    exact hget

/-- What a descriptor's entry should be is the same after a resize that spares every event. -/
theorem contextResize_interest (hs : s.Laid) {size : ℕ} (hspare : s.SparesAt size) (fd : Int32) :
    (s.contextResize size).interest fd = s.interest fd := by
  have hsame := contextResize_same hs.ok size
  have hzero : interestOf 0 = none := rfl
  unfold interest IOManager.slot
  by_cases hneg : fd < 0
  · rw [if_pos hneg, if_pos hneg]
  rw [if_neg hneg, if_neg hneg, contextResize_get]
  by_cases hi : fd.toInt.toNat < size
  · rw [if_pos hi]
    by_cases hold : fd.toInt.toNat < s.size
    · rw [if_pos hold]
      cases hget : s.m_fdContexts[fd.toInt.toNat]? with
      | none => rfl
      | some p => dsimp only; rw [(hsame p).1]
    · -- a new context, and none before
      have hnone : s.m_fdContexts[fd.toInt.toNat]? = none :=
        List.getElem?_eq_none (Nat.not_lt.1 hold)
      rw [if_neg hold, hnone]
      dsimp only
      rw [(hsame _).1, hs.ok.unused _ (Nat.le_add_right _ _), hzero]
  · rw [if_neg hi]
    cases hget : s.m_fdContexts[fd.toInt.toNat]? with
    | none => rfl
    | some p =>
      dsimp only
      rw [hspare _ p (Nat.not_lt.1 hi) hget, hzero]

end IOManager

/-! ## The operations -/

namespace IOManager

variable {κ : Type} {other : EpollCtl κ} {s s' : IOManager (InterestSet κ)}

/-- **The kernel mirrors the table**: it has the entry that belongs to each descriptor's
events, and no request chose the wrong operation. -/
structure Mirrors (s : IOManager (InterestSet κ)) : Prop where
  mask : ∀ fd, s.kernel.mask fd = s.interest fd
  mistaken : s.kernel.mistaken = 0

/-- **An accepted change is mirrored**: the events of one context and the entry of its
descriptor change alike. -/
theorem changed_mirrors (hs : s.Laid) (hm : s.Mirrors) {fd : Int32} {p : ℕ}
    (hslot : s.slot fd = .ok p) (h : Changed p s s')
    (hmask : s'.kernel.mask = Function.update s.kernel.mask fd (interestOf (s'.fdctx p).m_events))
    (hmistaken : s'.kernel.mistaken = s.kernel.mistaken) : s'.Mirrors := by
  refine ⟨?_, hmistaken.trans hm.mistaken⟩
  intro fd'
  rw [hmask]
  by_cases hfd : fd' = fd
  · subst hfd
    rw [Function.update_self, interest_of_slot (by rw [h.slot]; exact hslot)]
  · rw [Function.update_of_ne hfd, hm.mask fd']
    unfold interest
    rw [h.slot]
    cases hq : s.slot fd' with
    | error e => rfl
    | ok q =>
      have hne : q ≠ p := by
        rintro rfl
        exact hfd (slot_inj hs hq hslot)
      dsimp only
      rw [h.events q hne]

/-- A refused request changes nothing the kernel mirrors. -/
theorem refused_mirrors (hm : s.Mirrors) {k : InterestSet κ} (hmask : k.mask = s.kernel.mask)
    (hmistaken : k.mistaken = s.kernel.mistaken) : (s.answer k).Mirrors := by
  refine ⟨fun fd => ?_, hmistaken.trans hm.mistaken⟩
  show k.mask fd = s.interest fd
  rw [hmask, hm.mask]

/-- The kernel's answer to a request for a context of the table that fits its events. -/
theorem answer_of_fits (other : EpollCtl κ) (hm : s.Mirrors) {fd : Int32} {p : ℕ} (hslot : s.slot fd = .ok p)
    {op : CtlOp} (events : BitVec 32)
    (hfits : op.misfits (interestOf (s.fdctx p).m_events) = false) :
    (InterestSet.ctl other s.kernel op fd events).2.mistaken = s.kernel.mistaken ∧
      (((InterestSet.ctl other s.kernel op fd events).1 ≠ 0 ∧
        (InterestSet.ctl other s.kernel op fd events).2.mask = s.kernel.mask) ∨
      ((InterestSet.ctl other s.kernel op fd events).1 = 0 ∧
        (InterestSet.ctl other s.kernel op fd events).2.mask =
          Function.update s.kernel.mask fd (op.entry events))) := by
  apply InterestSet.ctl_fits
  rw [hm.mask fd, interest_of_slot hslot]
  exact hfits

/-- **A request that fits and leaves the entry of `m_events`**: refused, it changes nothing;
accepted, a change of the context to `m_events` keeps the mirror. -/
theorem request_mirrors (hs : s.Laid) (hm : s.Mirrors) {p : ℕ} {fd : Int32}
    (hslot : s.slot fd = .ok p) {op : CtlOp} {events m_events : BitVec 32}
    (hfits : op.misfits (interestOf (s.fdctx p).m_events) = false)
    (hentry : op.entry events = interestOf m_events) :
    let r := InterestSet.ctl other s.kernel op fd events
    (r.1 ≠ 0 → (s.answer r.2).Laid ∧ (s.answer r.2).Mirrors) ∧
      (r.1 = 0 → ∀ s', s'.OK → Changed p (s.answer r.2) s' → s'.kernel = r.2 →
        (s'.fdctx p).m_events = m_events → s'.Laid ∧ s'.Mirrors) := by
  intro r
  obtain ⟨hmistaken, hans⟩ := answer_of_fits other hm hslot events hfits
  constructor
  · intro hrt
    obtain ⟨-, hmask⟩ := hans.resolve_right fun hacc => hrt hacc.1
    exact ⟨(changed_answer p r.2).laid hs (answer_ok hs.ok r.2) hslot,
      refused_mirrors hm hmask hmistaken⟩
  · intro hrt s' hok hchanged hkernel hevents
    obtain ⟨-, hmask⟩ := hans.resolve_left fun href => href.1 hrt
    have hchanged' : Changed p s s' := (changed_answer p r.2).trans hchanged
    refine ⟨hchanged'.laid hs hok hslot, changed_mirrors hs hm hslot hchanged' ?_ ?_⟩
    · rw [hkernel, hevents, ← hentry]; exact hmask
    · rw [hkernel]; exact hmistaken

theorem addEventAt_mirrors (hs : s.Laid) (hm : s.Mirrors) {caller : Caller} {p : ℕ} {fd : Int32}
    {e : Event} {cb : Option Callback} {rt : ℤ} (hslot : s.slot fd = .ok p)
    (h : s.addEventAt (InterestSet.ctl other) caller p fd e cb = .ok (rt, s')) :
    s'.Laid ∧ s'.Mirrors := by
  have hfits := addRequest_fits (s.fdctx p) e
  have hp := hs.ok.table p (slot_mem hslot)
  rcases addEventAt_cases hs.ok h with ⟨-, hrt, rfl⟩ | ⟨-, hrt, he, hno, rfl⟩
  · -- even a request for no event fits
    have hans := answer_of_fits other hm hslot (addRequest (s.fdctx p) e).2 hfits
    obtain ⟨-, hmask⟩ := hans.2.resolve_right fun hacc => hrt hacc.1
    exact ⟨(changed_answer p _).laid hs (answer_ok hs.ok _) hslot,
      refused_mirrors hm hmask hans.1⟩
  · have hctx : (caller.context cb).fiber.isSome = !(caller.context cb).cb.isSome := by
      cases cb <;> rfl
    have hok := addAt_ok (answer_ok hs.ok (addAnswer (InterestSet.ctl other) s p fd e).2) hp he hno
      hctx
    refine (request_mirrors hs hm hslot hfits (addRequest_entry he)).2 hrt _ hok
      (changed_addAt p e _) rfl ?_
    rw [addAt_fdctx_self, FdContext.add_m_events]
    rfl

/-- What `consumeIf` changes. -/
theorem consumeIf_changed {κ : Type} {s s' : IOManager κ} (hs : s.OK) {b : Bool} {p : ℕ} {e : Event}
    (h : consumeIf b s p e = .ok s') :
    Changed p s s' ∧ s'.kernel = s.kernel ∧
      (s'.fdctx p).m_events = (s.fdctx p).m_events &&& ~~~ (if b then e.bits else 0) := by
  unfold consumeIf at h
  split at h
  · rename_i hb
    obtain ⟨ctx, sched, t, -, -, -, -, rfl⟩ := (consume_eq_ok hs).1 h
    refine ⟨changed_dropAt p e _, rfl, ?_⟩
    rw [dropAt_fdctx_self, FdContext.drop_m_events, if_pos hb]
  · rename_i hb
    cases h
    refine ⟨changed_refl p _, rfl, ?_⟩
    rw [if_neg hb, show ~~~ (0 : BitVec 32) = BitVec.allOnes 32 from rfl, BitVec.and_allOnes]

/-- Consuming `READ` and then `WRITE` takes the bits of both away. -/
theorem consumeBoth_changed {κ : Type} {s s₁ s' : IOManager κ} (hs : s.OK) {read write : Bool}
    {p : ℕ} (h₁ : consumeIf read s p .READ = .ok s₁) (h₂ : consumeIf write s₁ p .WRITE = .ok s') :
    s'.OK ∧ Changed p s s' ∧ s'.kernel = s.kernel ∧
      (s'.fdctx p).m_events = (s.fdctx p).m_events &&&
        ~~~ ((if read then Event.READ.bits else 0) ||| (if write then Event.WRITE.bits else 0)) := by
  have hok := consumeIf_ok hs h₁
  obtain ⟨hc₁, hk₁, hm₁⟩ := consumeIf_changed hs h₁
  obtain ⟨hc₂, hk₂, hm₂⟩ := consumeIf_changed hok h₂
  refine ⟨consumeIf_ok hok h₂, hc₁.trans hc₂, hk₂.trans hk₁, ?_⟩
  rw [hm₂, hm₁, BitVec.not_or, BitVec.and_assoc]

theorem realEvents_eq (events : BitVec 32) : realEvents events =
    (if decide (Reported events .READ) then Event.READ.bits else 0) |||
      (if decide (Reported events .WRITE) then Event.WRITE.bits else 0) := by
  have hread := realEvents_iff events .READ
  have hwrite := realEvents_iff events .WRITE
  simp only [decide_eq_true_eq, ← hread, ← hwrite]
  rcases realEvents_isMask events with h | h | h | h <;> rw [h] <;> decide

theorem delEventAt_mirrors (hs : s.Laid) (hm : s.Mirrors) {p : ℕ} {fd : Int32} {e : Event}
    {b : Bool} (hslot : s.slot fd = .ok p)
    (h : s.delEventAt (InterestSet.ctl other) p fd e = .ok (b, s')) : s'.Laid ∧ s'.Mirrors := by
  have hentry := dropRequest_entry (s.fdctx p) e.bits
  rcases delEventAt_cases h with ⟨-, rfl | ⟨hrt, hh, rfl⟩⟩ | ⟨-, hrt, hh, rfl⟩
  · exact ⟨hs, hm⟩
  · exact (request_mirrors hs hm hslot (dropRequest_fits _ hh.m_events_ne) hentry).1 hrt
  · have hok := dropAt_ok (answer_ok hs.ok (dropAnswer (InterestSet.ctl other) s p fd e.bits).2) hh none
    refine (request_mirrors hs hm hslot (dropRequest_fits _ hh.m_events_ne) hentry).2 hrt _ hok
      (changed_dropAt p e none) rfl ?_
    rw [dropAt_fdctx_self, FdContext.drop_m_events]
    rfl

theorem cancelEventAt_mirrors (hs : s.Laid) (hm : s.Mirrors) {p : ℕ} {fd : Int32} {e : Event}
    {b : Bool} (hslot : s.slot fd = .ok p)
    (h : s.cancelEventAt (InterestSet.ctl other) p fd e = .ok (b, s')) : s'.Laid ∧ s'.Mirrors := by
  have hentry := dropRequest_entry (s.fdctx p) e.bits
  rcases cancelEventAt_cases h with ⟨-, rfl | ⟨hrt, hh, rfl⟩⟩ | ⟨-, hrt, hh, hc⟩
  · exact ⟨hs, hm⟩
  · exact (request_mirrors hs hm hslot (dropRequest_fits _ hh.m_events_ne) hentry).1 hrt
  · have hs₀ := answer_ok hs.ok (dropAnswer (InterestSet.ctl other) s p fd e.bits).2
    obtain ⟨ctx, sched, t, -, hh', -, -, rfl⟩ := (consume_eq_ok hs₀).1 hc
    refine (request_mirrors hs hm hslot (dropRequest_fits _ hh.m_events_ne) hentry).2 hrt _
      (dropAt_ok hs₀ hh' _) (changed_dropAt p e _) rfl ?_
    rw [dropAt_fdctx_self, FdContext.drop_m_events]
    rfl

theorem cancelAllAt_mirrors (hs : s.Laid) (hm : s.Mirrors) {p : ℕ} {fd : Int32} {b : Bool}
    (hslot : s.slot fd = .ok p)
    (h : s.cancelAllAt (InterestSet.ctl other) p fd = .ok (b, s')) : s'.Laid ∧ s'.Mirrors := by
  have hfits : (s.fdctx p).m_events ≠ 0 →
      CtlOp.DEL.misfits (interestOf (s.fdctx p).m_events) = false := by
    intro hne
    rw [interestOf, if_neg hne]; rfl
  rcases cancelAllAt_cases h with
    ⟨-, rfl | ⟨hrt, hne, rfl⟩⟩ | ⟨-, hrt, hne, hzero, s₁, h₁, h₂⟩
  · exact ⟨hs, hm⟩
  · have hentry : CtlOp.DEL.entry 0 = interestOf 0 := rfl
    exact (request_mirrors hs hm hslot (hfits hne) hentry).1 hrt
  · obtain ⟨hok, hchanged, hkernel, -⟩ := consumeBoth_changed (answer_ok hs.ok _) h₁ h₂
    exact (request_mirrors hs hm hslot (hfits hne) rfl).2 hrt _ hok hchanged hkernel hzero

/-- A turn of the event loop, for any context: one outside the table has no events. -/
theorem dispatch_mirrors (hs : s.Laid) (hm : s.Mirrors) {p : ℕ} {events : BitVec 32}
    {calls : List Event} (h : s.dispatch (InterestSet.ctl other) p events = .ok (calls, s')) :
    s'.Laid ∧ s'.Mirrors := by
  have hentry := dropRequest_entry (s.fdctx p) (realEvents events)
  have hslot : (s.fdctx p).m_events &&& realEvents events ≠ 0 →
      (s.fdctx p).m_events ≠ 0 ∧ s.slot (s.fdctx p).fd = .ok p := by
    intro hand
    have hne : (s.fdctx p).m_events ≠ 0 := fun h0 => hand (by rw [h0]; simp)
    obtain ⟨fd, hfd⟩ := hs.home p hne
    exact ⟨hne, by rw [slot_fd hs hfd]; exact hfd⟩
  rcases dispatch_cases.1 h with ⟨-, -, rfl⟩ | ⟨hand, hrt, -, rfl⟩ | ⟨hand, hrt, -, s₁, h₁, h₂⟩
  · exact ⟨hs, hm⟩
  · obtain ⟨hne, hfd⟩ := hslot hand
    exact (request_mirrors hs hm hfd (dropRequest_fits _ hne) hentry).1 hrt
  · obtain ⟨hne, hfd⟩ := hslot hand
    obtain ⟨hok, hchanged, hkernel, hevents⟩ := consumeBoth_changed (answer_ok hs.ok _) h₁ h₂
    refine (request_mirrors hs hm hfd (dropRequest_fits _ hne) hentry).2 hrt _ hok hchanged hkernel ?_
    rw [hevents, realEvents_eq]
    rfl

/-! ## Runs -/

/-- **The call drops no registered event**: if it resizes the table, the contexts it takes
out have none. -/
def Spares {κ : Type} (s : IOManager κ) : EventOp → Prop
  | .addEvent _ fd _ _ => ¬ s.inTable fd → s.SparesAt (growSize fd)
  | _ => True

theorem lookup_cases {κ : Type} {s s' : IOManager κ} {fd : Int32} {p : ℕ}
    (h : s.lookup fd = .ok (p, s')) :
    (s.inTable fd ∧ s' = s) ∨ (¬ s.inTable fd ∧ s' = s.contextResize (growSize fd)) := by
  unfold lookup at h
  split at h
  · rename_i hin
    obtain ⟨q, -, heq⟩ := map_ok h
    cases heq
    exact Or.inl ⟨hin, rfl⟩
  · rename_i hin
    unfold grow at h
    split at h
    · cases h
    · obtain ⟨q, -, heq⟩ := map_ok h
      cases heq
      exact Or.inr ⟨hin, rfl⟩

/-- **Every call that drops no registered event keeps the mirror.** -/
theorem call_mirrors (hs : s.Laid) (hm : s.Mirrors) {op : EventOp} (hspare : s.Spares op)
    (h : op.call (InterestSet.ctl other) s = .ok s') : s'.Laid ∧ s'.Mirrors := by
  cases op with
  | addEvent caller fd e cb =>
    obtain ⟨⟨rt, s₂⟩, ha, rfl⟩ := map_ok h
    obtain ⟨p, s₁, hl, hat⟩ := addEvent_ok ha
    have hslot := (lookup_ok hs.ok hl).2.2.2.1
    rcases lookup_cases hl with ⟨-, rfl⟩ | ⟨hin, rfl⟩
    · exact addEventAt_mirrors hs hm hslot hat
    · have hspare' := hspare hin
      have hm' : (s.contextResize (growSize fd)).Mirrors :=
        ⟨fun fd' => by rw [contextResize_interest hs hspare']; exact hm.mask fd', hm.mistaken⟩
      exact addEventAt_mirrors (contextResize_laid hs hspare') hm' hslot hat
  | delEvent fd e =>
    obtain ⟨⟨rt, s₁⟩, ha, rfl⟩ := map_ok h
    rcases onTable_ok ha with ⟨-, rfl⟩ | ⟨p, hslot, hb⟩
    · exact ⟨hs, hm⟩
    · exact delEventAt_mirrors hs hm hslot hb
  | cancelEvent fd e =>
    obtain ⟨⟨rt, s₁⟩, ha, rfl⟩ := map_ok h
    rcases onTable_ok ha with ⟨-, rfl⟩ | ⟨p, hslot, hb⟩
    · exact ⟨hs, hm⟩
    · exact cancelEventAt_mirrors hs hm hslot hb
  | cancelAll fd =>
    obtain ⟨⟨rt, s₁⟩, ha, rfl⟩ := map_ok h
    rcases onTable_ok ha with ⟨-, rfl⟩ | ⟨p, hslot, hb⟩
    · exact ⟨hs, hm⟩
    · exact cancelAllAt_mirrors hs hm hslot hb
  | dispatch p events =>
    obtain ⟨⟨calls, s₁⟩, ha, rfl⟩ := map_ok h
    exact dispatch_mirrors hs hm ha

theorem init_laid (k : κ) : (init k).Laid := by
  have hempty : ({ kernel := k, fdctx := fun _ => {}, nctx := 0, m_fdContexts := [],
                   m_pendingEventCount := 0, tasks := [] } : IOManager κ).Laid := by
    refine ⟨⟨fun _ => FdContext.ok_empty, fun _ _ => rfl, fun _ h => absurd h (by simp), rfl⟩, ?_,
      List.nodup_nil, ?_⟩
    · intro i p hp; simp at hp
    · intro p hp; exact absurd rfl hp
  exact contextResize_laid hempty fun i p _ hp => by simp at hp

theorem init_mirrors (o : κ) : (init (InterestSet.empty o)).Mirrors := by
  refine ⟨?_, rfl⟩
  intro fd
  have hinit := init_laid (InterestSet.empty o)
  unfold interest
  cases hslot : (init (InterestSet.empty o)).slot fd with
  | error e => rfl
  | ok p =>
    have hzero : ((init (InterestSet.empty o)).fdctx p).m_events = 0 := by
      unfold init contextResize
      dsimp only
      split <;> rfl
    dsimp only
    rw [hzero]
    rfl

/-- **In every run whose calls drop no registered event the kernel mirrors the table** in all
states up to a failed assertion. -/
theorem kernel_mirrors (other : EpollCtl κ) (o : κ) (ops : List EventOp)
    (hspare : Along (EventOp.step (InterestSet.ctl other)) (fun r op => ∀ s, r = .ok s → s.Spares op)
      (.ok (init (InterestSet.empty o))) ops) :
    ∀ r ∈ trace (EventOp.step (InterestSet.ctl other)) (.ok (init (InterestSet.empty o))) ops,
      ∀ s, r = .ok s → s.Mirrors := by
  have hinv := trace_inv_of
    (I := fun r : Except Fault (IOManager (InterestSet κ)) => ∀ s, r = .ok s → s.Laid ∧ s.Mirrors)
    ?_ ops ?_ hspare
  · intro r hr s hs
    exact (hinv r hr s hs).2
  · intro r op hr hop s' hs'
    cases r with
    | error e => cases hs'
    | ok s => exact call_mirrors (hr s rfl).1 (hr s rfl).2 (hop s rfl) hs'
  · intro s hs
    cases hs
    exact ⟨init_laid _, init_mirrors o⟩

/-! ## When a call drops a registered event -/

theorem sparesAt_of_size_le {κ : Type} {s : IOManager κ} {size : ℕ} (h : s.size ≤ size) :
    s.SparesAt size := by
  intro i p hi hp
  have hlt : i < s.size := (List.getElem?_eq_some_iff.1 hp).1
  omega

/-- A call finds only a table of `2^31` contexts or more smaller than it is. -/
theorem spares_of_size_lt {κ : Type} {s : IOManager κ} (h : s.size < 2 ^ 31) (op : EventOp) :
    s.Spares op := by
  cases op with
  | addEvent caller fd e cb =>
    intro hin
    have hle : (s.size : ℤ) ≤ fd.toInt := by
      have hnot := mt Int32.lt_iff_toInt_lt.2 hin
      rw [Int32.toInt_ofNat_of_lt h] at hnot
      omega
    apply sparesAt_of_size_le
    unfold growSize
    omega
  | delEvent fd e => trivial
  | cancelEvent fd e => trivial
  | cancelAll fd => trivial
  | dispatch p events => trivial

/-- A worker's read event on descriptor `fd`. -/
def addRead (fd : Int32) : EventOp := .addEvent ⟨some 0, 1, true⟩ fd .READ (some 7)

/-- Two descriptors are added, the second beyond the first table, and the first is reported. -/
def twoRead : List EventOp := [addRead 5, addRead 40, .dispatch 5 EPOLLIN]

theorem kernel_mirrors_two_read :
    ∃ s, run (EventOp.step (InterestSet.ctl acceptAll)) (.ok (init (InterestSet.empty ()))) twoRead =
      .ok s ∧ s.Mirrors := by
  refine ⟨_, rfl, kernel_mirrors acceptAll () twoRead ⟨?_, ?_, ?_, trivial⟩ _
    (mem_trace.2 ⟨twoRead, List.prefix_rfl, rfl⟩) _ rfl⟩
  · rintro s h
    cases h
    exact spares_of_size_lt (by decide) _
  · rintro s h
    cases h
    exact spares_of_size_lt (by decide) _
  · rintro s h
    cases h
    exact spares_of_size_lt (by decide) _

/-! ## A table of three thousand million contexts -/

theorem lookup_grow {κ : Type} {s : IOManager κ} {fd : Int32} {p : ℕ} (hfd : 0 ≤ fd)
    (hin : ¬ s.inTable fd)
    (hget : (s.contextResize (growSize fd)).m_fdContexts[fd.toInt.toNat]? = some p) :
    s.lookup fd = .ok (p, s.contextResize (growSize fd)) := by
  unfold lookup grow
  rw [if_neg hin, if_neg (Int32.not_lt.2 hfd), slot_eq_ok.2 ⟨hfd, hget⟩]
  rfl

/-- A read event on a context without events, which the kernel does not have. -/
theorem addRead_accepted {s s₁ : IOManager (InterestSet Unit)} (hs : s.OK) {fd : Int32} {p : ℕ}
    (hl : s.lookup fd = .ok (p, s₁)) (hzero : (s₁.fdctx p).m_events = 0)
    (hnone : s₁.kernel.mask fd = none) :
    ∃ s', (addRead fd).call (InterestSet.ctl acceptAll) s = .ok s' ∧ s'.OK ∧ Changed p s₁ s' ∧
      s'.kernel.mask = Function.update s₁.kernel.mask fd (some (EPOLLET ||| 1)) := by
  obtain ⟨hs₁, -, hp, -, -, -⟩ := lookup_ok hs hl
  have hno : ¬ (s₁.fdctx p).Has .READ := fun h => h.m_events_ne hzero
  have hadd : addRequest (s₁.fdctx p) .READ = (.ADD, EPOLLET ||| 1) := by
    unfold addRequest
    rw [hzero]; rfl
  have hans : addAnswer (InterestSet.ctl acceptAll) s₁ p fd .READ =
      (0, { s₁.kernel with mask := Function.update s₁.kernel.mask fd (some (EPOLLET ||| 1)) }) := by
    unfold addAnswer InterestSet.ctl
    rw [hadd]
    dsimp only [CtlOp.misfits]
    rw [hnone]
    rfl
  have hret : ∃ r, s₁.addEventAt (InterestSet.ctl acceptAll) ⟨some 0, 1, true⟩ p fd .READ (some 7) =
      .ok r := addEventAt_defined hs₁ (by decide) hno (by simp)
  obtain ⟨⟨rt, s'⟩, h⟩ := hret
  rcases addEventAt_cases hs₁ h with ⟨-, hrt, -⟩ | ⟨rfl, -, he, -, rfl⟩
  · rw [hans] at hrt; exact absurd rfl hrt
  · have hctx : (Caller.context ⟨some 0, 1, true⟩ (some 7)).fiber.isSome =
        !(Caller.context ⟨some 0, 1, true⟩ (some 7)).cb.isSome := rfl
    have hok := addAt_ok (answer_ok hs₁ (addAnswer (InterestSet.ctl acceptAll) s₁ p fd .READ).2) hp he
      hno hctx
    refine ⟨_, ?_, hok, (changed_answer p _).trans (changed_addAt p .READ _), ?_⟩
    · show (s.addEvent _ _ _ _ _).map _ = _
      unfold addEvent
      rw [hl]
      dsimp only
      rw [h]
      rfl
    · rw [hans]; rfl

/-- Descriptor 2000000000 makes a table of 3000000000 contexts, whose size is negative as an
`int`. -/
def hugeThenSmall : List EventOp := [addRead 2000000000, addRead 5]

/-- The call on descriptor 5 then shrinks the table to 7, and the kernel keeps an entry that
no context accounts for. -/
theorem huge_descriptor_unmirrored :
    ∃ s, run (EventOp.step (InterestSet.ctl acceptAll)) (.ok (init (InterestSet.empty ())))
        hugeThenSmall = .ok s ∧ s.size = 7 ∧
      s.kernel.mask 2000000000 = some (EPOLLET ||| 1) ∧ ¬ s.Mirrors := by
  have hs₀ : (init (InterestSet.empty ())).Laid := init_laid _
  have hzero₀ : ∀ p, ((init (InterestSet.empty ())).fdctx p).m_events = 0 := by
    intro p
    unfold init contextResize
    dsimp only
    split <;> rfl
  have hbig : growSize 2000000000 = 3000000000 := by decide
  have hsmall : growSize 5 = 7 := by decide
  have hsize₀ : (init (InterestSet.empty ())).size = 32 := by decide
  have hnctx₀ : (init (InterestSet.empty ())).nctx = 32 := by decide
  -- the first call: the context of descriptor 2000000000 is a new one
  have hl₁ : (init (InterestSet.empty ())).lookup 2000000000 =
      .ok (2000000000, (init (InterestSet.empty ())).contextResize 3000000000) := by
    rw [← hbig]
    apply lookup_grow (by decide)
    · unfold inTable; rw [hsize₀]; decide
    · show _[2000000000]? = _
      rw [hbig, contextResize_get, if_pos (by omega), if_neg (by omega), hnctx₀, hsize₀]
  have hok₁ := contextResize_ok hs₀.ok 3000000000
  have hzero₁ : ∀ p, (((init (InterestSet.empty ())).contextResize 3000000000).fdctx p).m_events =
      0 := by
    intro p
    rw [(contextResize_same hs₀.ok 3000000000 p).1, hzero₀]
  obtain ⟨s₁, hcall₁, hs₁, hchanged₁, hmask₁⟩ := addRead_accepted hs₀.ok hl₁ (hzero₁ _) rfl
  have hsize₁ : s₁.size = 3000000000 := by
    unfold size
    rw [hchanged₁.table]
    exact size_contextResize _
  -- the second call: the size is below descriptor 5
  have hl₂ : s₁.lookup 5 = .ok (5, s₁.contextResize 7) := by
    rw [← hsmall]
    apply lookup_grow (by decide)
    · unfold inTable; rw [hsize₁]; decide
    · show _[5]? = _
      rw [hsmall, contextResize_get, if_pos (by omega), if_pos (by omega), hchanged₁.table,
        contextResize_get, if_pos (by omega), if_pos (by omega)]
      decide
  have hzero₂ : ((s₁.contextResize 7).fdctx 5).m_events = 0 := by
    rw [(contextResize_same hs₁ 7 5).1, hchanged₁.events 5 (by omega), hzero₁]
  have hnone₂ : (s₁.contextResize 7).kernel.mask 5 = none := by
    show s₁.kernel.mask 5 = none
    rw [hmask₁, Function.update_of_ne (by decide)]
    rfl
  obtain ⟨s₂, hcall₂, -, hchanged₂, hmask₂⟩ := addRead_accepted hs₁ hl₂ hzero₂ hnone₂
  have hsize₂ : s₂.size = 7 := by
    unfold size
    rw [hchanged₂.table]
    exact size_contextResize _
  have hentry : s₂.kernel.mask 2000000000 = some (EPOLLET ||| 1) := by
    rw [hmask₂, Function.update_of_ne (by decide)]
    show s₁.kernel.mask 2000000000 = _
    rw [hmask₁, Function.update_self]
  refine ⟨s₂, ?_, hsize₂, hentry, ?_⟩
  · have hstep : ∀ (s : IOManager (InterestSet Unit)) (op : EventOp),
        EventOp.step (InterestSet.ctl acceptAll) (.ok s) op = op.call (InterestSet.ctl acceptAll) s :=
      fun _ _ => rfl
    rw [hugeThenSmall, run_cons, run_cons, run_nil, hstep, hcall₁, hstep, hcall₂]
  · intro hm
    rw [hm.mask] at hentry
    obtain ⟨p, hslot⟩ := slot_of_interest hentry
    have hlt := (List.getElem?_eq_some_iff.1 (slot_eq_ok.1 hslot).2).1
    have hindex : (2000000000 : Int32).toInt.toNat = 2000000000 := by decide
    rw [hindex] at hlt
    have hlen : s₂.m_fdContexts.length = 7 := hsize₂
    omega

end IOManager

end Coroutine
