import Coroutine.Proof.EventLedger
import Coroutine.Proof.EventWaiting
import Coroutine.Spec.EventReady

/-!
# No readiness is lost

The descriptors are registered edge-triggered: what `epoll_wait` has reported it does not report
again. So when a worker takes a descriptor off the ready list, the events that are registered
then must be in its report, and what the report leaves registered must be asked for again.

* `Attended`: the kernel has the descriptor on its list if it is ready for what is asked.
* `call_attends`: a call leaves a descriptor's entry and place on the list alone, or the
  descriptor attended.
* `Noticed`: a registered event of a ready descriptor is on the list or in a report.
* `ready_noticed`: in every run whose calls drop no registered event, and in which the kernel
  accepts what the event loop asks for, this holds in every state.
-/

namespace Coroutine

open Lib

/-! ## The ready list -/

namespace ReadyList

variable {κ : Type} {other : EpollCtl κ}

/-- The descriptor is on the list if it is ready for what is asked of it. -/
def Attended (k : InterestSet (ReadyList κ)) (fd : Int32) : Prop :=
  ∀ entry, k.mask fd = some entry → k.other.ready fd &&& askedFor entry ≠ 0 → k.other.listed fd = true

/-- The kernel has for `fd` what it had. -/
structure SameAt (fd : Int32) (k k' : InterestSet (ReadyList κ)) : Prop where
  mask : k'.mask fd = k.mask fd
  listed : k'.other.listed fd = k.other.listed fd

/-- **Requests change no readiness, and attend to each descriptor they change.** -/
structure Attends (k k' : InterestSet (ReadyList κ)) : Prop where
  ready : k'.other.ready = k.other.ready
  each : ∀ fd, SameAt fd k k' ∨ Attended k' fd

theorem attends_refl (k : InterestSet (ReadyList κ)) : Attends k k := ⟨rfl, fun _ => Or.inl ⟨rfl, rfl⟩⟩

/-- What a request does to the descriptor it is about, and to the others. -/
theorem ctl_cases (k : InterestSet (ReadyList κ)) (op : CtlOp) (fd : Int32) (events : BitVec 32) :
    let r := InterestSet.ctl (ReadyList.ctl other) k op fd events
    r.2.other.ready = k.other.ready ∧
      ((r.1 ≠ 0 ∧ ∀ fd', SameAt fd' k r.2) ∨
        (r.1 = 0 ∧ Attended r.2 fd ∧ ∀ fd', fd' ≠ fd → SameAt fd' k r.2)) := by
  intro r
  by_cases hfit : op.misfits (k.mask fd) = true
  · have hr : r = (-1, { k with mistaken := k.mistaken + 1 }) := by
      simp only [r, InterestSet.ctl, if_pos hfit]
    rw [hr]
    exact ⟨rfl, Or.inl ⟨by simp, fun _ => ⟨rfl, rfl⟩⟩⟩
  by_cases hrt : (other k.other.other op fd events).1 ≠ 0
  · have hr : r = ((other k.other.other op fd events).1,
        { k with other := { k.other with other := (other k.other.other op fd events).2 } }) := by
      simp only [r, InterestSet.ctl, if_neg hfit, ReadyList.ctl, if_pos hrt]
    rw [hr]
    exact ⟨rfl, Or.inl ⟨hrt, fun _ => ⟨rfl, rfl⟩⟩⟩
  have hr₁ : r.1 = 0 := by
    simp only [r, InterestSet.ctl, if_neg hfit, ReadyList.ctl, if_neg hrt]
    cases op <;> rfl
  have hmask : r.2.mask = Function.update k.mask fd (op.entry events) := by
    simp only [r, InterestSet.ctl, if_neg hfit, ReadyList.ctl, if_neg hrt]
    cases op <;> rfl
  have hready : r.2.other.ready = k.other.ready := by
    simp only [r, InterestSet.ctl, if_neg hfit, ReadyList.ctl, if_neg hrt]
    cases op <;> rfl
  have hlisted : ∃ b, r.2.other.listed = Function.update k.other.listed fd b ∧
      ∀ entry, op.entry events = some entry → k.other.ready fd &&& askedFor entry ≠ 0 → b = true := by
    cases op with
    | DEL =>
      refine ⟨false, ?_, fun entry hentry => nomatch hentry⟩
      simp only [r, InterestSet.ctl, if_neg hfit, ReadyList.ctl, if_neg hrt]
      rfl
    | _ =>
      refine ⟨k.other.listed fd || k.other.ready fd &&& askedFor events != 0, ?_, ?_⟩
      · simp only [r, InterestSet.ctl, if_neg hfit, ReadyList.ctl, if_neg hrt]
        rfl
      · intro entry hentry hne
        cases hentry
        rw [bne_iff_ne.2 hne, Bool.or_true]
  obtain ⟨b, hlisted, hb⟩ := hlisted
  refine ⟨hready, Or.inr ⟨hr₁, ?_, ?_⟩⟩
  · intro entry hentry hne
    rw [hmask, Function.update_self] at hentry
    rw [hready] at hne
    rw [hlisted, Function.update_self]
    exact hb entry hentry hne
  · intro fd' hfd
    exact ⟨by rw [hmask, Function.update_of_ne hfd], by rw [hlisted, Function.update_of_ne hfd]⟩

theorem ctl_attends (k : InterestSet (ReadyList κ)) (op : CtlOp) (fd : Int32) (events : BitVec 32) :
    Attends k (InterestSet.ctl (ReadyList.ctl other) k op fd events).2 := by
  obtain ⟨hready, hcases⟩ := @ctl_cases κ other k op fd events
  refine ⟨hready, ?_⟩
  intro fd'
  rcases hcases with ⟨-, hsame⟩ | ⟨-, hatt, hsame⟩
  · exact Or.inl (hsame fd')
  · by_cases hfd : fd' = fd
    · subst hfd; exact Or.inr hatt
    · exact Or.inl (hsame fd' hfd)

end ReadyList

/-! ## A call and the kernel -/

namespace IOManager

variable {κ : Type} {ctl : EpollCtl κ} {s s' : IOManager κ}

/-- **A call asks the kernel at most once.** -/
theorem call_kernel (hs : s.OK) {op : EventOp} (h : op.call ctl s = .ok s') :
    s'.kernel = s.kernel ∨ ∃ req fd events, s'.kernel = (ctl s.kernel req fd events).2 := by
  cases op with
  | addEvent caller fd e cb =>
    obtain ⟨⟨rt, s₂⟩, ha, rfl⟩ := map_ok h
    obtain ⟨p, s₁, hl, ha⟩ := addEvent_ok ha
    have hk : s₁.kernel = s.kernel := lookup_kernel hl
    right
    rw [← hk]
    rcases addEventAt_cases (lookup_ok hs hl).1 ha with ⟨-, -, rfl⟩ | ⟨-, -, -, -, rfl⟩
    · exact ⟨_, _, _, rfl⟩
    · exact ⟨_, _, _, rfl⟩
  | delEvent fd e =>
    obtain ⟨⟨rt, s₁⟩, ha, rfl⟩ := map_ok h
    rcases onTable_ok ha with ⟨-, rfl⟩ | ⟨p, -, hb⟩
    · exact Or.inl rfl
    · rcases delEventAt_cases hb with ⟨-, rfl | ⟨-, -, rfl⟩⟩ | ⟨-, -, -, rfl⟩
      · exact Or.inl rfl
      · exact Or.inr ⟨_, _, _, rfl⟩
      · exact Or.inr ⟨_, _, _, rfl⟩
  | cancelEvent fd e =>
    obtain ⟨⟨rt, s₁⟩, ha, rfl⟩ := map_ok h
    rcases onTable_ok ha with ⟨-, rfl⟩ | ⟨p, -, hb⟩
    · exact Or.inl rfl
    · rcases cancelEventAt_cases hb with ⟨-, rfl | ⟨-, -, rfl⟩⟩ | ⟨-, -, -, hc⟩
      · exact Or.inl rfl
      · exact Or.inr ⟨_, _, _, rfl⟩
      · obtain ⟨ctx, sched, t, -, -, -, -, rfl⟩ := (consume_eq_ok (answer_ok hs _)).1 hc
        exact Or.inr ⟨_, _, _, rfl⟩
  | cancelAll fd =>
    obtain ⟨⟨rt, s₁⟩, ha, rfl⟩ := map_ok h
    rcases onTable_ok ha with ⟨-, rfl⟩ | ⟨p, -, hb⟩
    · exact Or.inl rfl
    · rcases cancelAllAt_cases hb with ⟨-, rfl | ⟨-, -, rfl⟩⟩ | ⟨-, -, -, -, s₂, h1, h2⟩
      · exact Or.inl rfl
      · exact Or.inr ⟨_, _, _, rfl⟩
      · have hkernel := (consumeIf_kernel h2).trans (consumeIf_kernel h1)
        exact Or.inr ⟨_, _, _, hkernel⟩
  | dispatch p events =>
    obtain ⟨⟨calls, s₁⟩, ha, rfl⟩ := map_ok h
    rcases dispatch_cases.1 ha with ⟨-, -, rfl⟩ | ⟨-, -, -, rfl⟩ | ⟨-, -, -, s₂, h1, h2⟩
    · exact Or.inl rfl
    · exact Or.inr ⟨_, _, _, rfl⟩
    · have hkernel := (consumeIf_kernel h2).trans (consumeIf_kernel h1)
      exact Or.inr ⟨_, _, _, hkernel⟩

/-- **A registered context keeps its place** in the table. -/
theorem call_slot (hs : s.OK) {op : EventOp} (hspare : s.Spares op) (h : op.call ctl s = .ok s')
    {fd : Int32} {p : ℕ} (hslot : s.slot fd = .ok p) (hne : (s.fdctx p).m_events ≠ 0) :
    s'.slot fd = .ok p := by
  have htable : s'.m_fdContexts = s.m_fdContexts → s'.slot fd = .ok p := by
    intro heq
    rw [← hslot]
    unfold slot
    rw [heq]
  by_cases hadd : ∃ caller fd e cb, op = .addEvent caller fd e cb
  · obtain ⟨caller, fd', e, cb, rfl⟩ := hadd
    obtain ⟨⟨rt, s₂⟩, ha, rfl⟩ := map_ok h
    obtain ⟨q, s₁, hl, hat⟩ := addEvent_ok ha
    have hat' : s₂.m_fdContexts = s₁.m_fdContexts := by
      rcases addEventAt_cases (lookup_ok hs hl).1 hat with ⟨-, -, rfl⟩ | ⟨-, -, -, -, rfl⟩
      · rfl
      · rfl
    rcases lookup_cases hl with ⟨-, rfl⟩ | ⟨hin, rfl⟩
    · exact htable hat'
    · obtain ⟨hnonneg, hget⟩ := slot_eq_ok.1 hslot
      have hkept : fd.toInt.toNat < growSize fd' := by
        by_contra hge
        exact hne (hspare hin _ p (Nat.not_lt.1 hge) hget)
      have hold : fd.toInt.toNat < s.size := (List.getElem?_eq_some_iff.1 hget).1
      refine slot_eq_ok.2 ⟨hnonneg, ?_⟩
      rw [hat', contextResize_get, if_pos hkept, if_pos hold]
      exact hget
  · exact htable (call_shrinks hs h fun caller fd e cb heq => hadd ⟨caller, fd, e, cb, heq⟩).table

end IOManager

/-! ## Noticed events -/

theorem interestOf_inj {m m' : BitVec 32} (hm : IsMask m) (hm' : IsMask m')
    (h : interestOf m = interestOf m') : m = m' := by
  rcases hm with rfl | rfl | rfl | rfl <;> rcases hm' with rfl | rfl | rfl | rfl
  all_goals first | rfl | exact absurd h (by decide)

namespace EventReady

variable {κ : Type} {other : EpollCtl κ} {s s' : EventReady κ}

open IOManager ReadyList

/-- A worker has event `e` of `fd` in a report. -/
def InHand (s : EventReady κ) (fd : Int32) (e : Event) : Prop :=
  ∃ p events, (p, events) ∈ s.reports ∧ s.io.slot fd = .ok p ∧ Reported events e

/-- **A registered event that the descriptor is ready for is noticed**: the descriptor is on the
ready list, or a worker has the event in a report. -/
def Noticed (s : EventReady κ) : Prop :=
  ∀ fd e, s.io.HasEvent fd e → Reported (s.list.ready fd) e → s.list.listed fd = true ∨ s.InHand fd e

/-- **What the run needs**: a call drops no registered event, and the kernel accepts what a turn of
the event loop asks for. -/
def Accepted (other : EpollCtl κ) (s : EventReady κ) : ReadyAct → Prop
  | .call op => s.io.Spares op
  | .turn i => ∀ p events, s.reports[i]? = some (p, events) →
      (s.io.fdctx p).m_events &&& realEvents events ≠ 0 →
      (turnAnswer (InterestSet.ctl (ReadyList.ctl other)) s.io p events).1 = 0
  | _ => True

/-- The invariant of a run. -/
structure Sound (s : EventReady κ) : Prop where
  laid : s.io.Laid
  mirrors : s.io.Mirrors
  noticed : s.Noticed

/-! ## One descriptor -/

/-- The bits that report an event. -/
def wanted : Event → BitVec 32
  | .NONE => 0
  | .READ => EPOLLIN ||| (EPOLLERR ||| EPOLLHUP)
  | .WRITE => EPOLLOUT ||| (EPOLLERR ||| EPOLLHUP)

theorem reported_wanted (events : BitVec 32) (e : Event) : Reported events e ↔ events &&& wanted e ≠ 0 := by
  cases e with
  | NONE => simp [Reported, wanted]
  | READ => exact Iff.rfl
  | WRITE => exact Iff.rfl

theorem reported_ne_zero {events : BitVec 32} {e : Event} (h : Reported events e) : events ≠ 0 := by
  rintro rfl
  exact (reported_wanted 0 e).1 h BitVec.zero_and

/-- A report of what is asked of a descriptor has each registered event. -/
theorem reported_asked {m ready : BitVec 32} {e : Event} (hm : IsMask m) (he : m &&& e.bits ≠ 0)
    (hr : Reported ready e) : Reported (ready &&& askedFor (EPOLLET ||| m)) e := by
  have hall : askedFor (EPOLLET ||| m) &&& wanted e = wanted e := by
    rcases hm with rfl | rfl | rfl | rfl <;> revert he <;> cases e <;> decide
  rw [reported_wanted] at hr ⊢
  rw [BitVec.and_assoc, hall]
  exact hr

/-- What a file has just become ready for is among the bits it was not ready for. -/
theorem reported_new {old bits : BitVec 32} {e : Event} (h : Reported bits e) (hno : ¬ Reported old e) :
    Reported (bits &&& ~~~ old) e := by
  rw [reported_wanted] at h hno ⊢
  have hzero : old &&& wanted e = 0 := not_not.1 hno
  have hrest : bits &&& ~~~ old &&& wanted e = bits &&& wanted e := by
    generalize wanted e = w at hzero
    ext i hi
    have hbit : (old[i] && w[i]) = false := by
      rw [← BitVec.getElem_and, hzero]
      exact BitVec.getElem_zero hi
    rw [BitVec.getElem_and, BitVec.getElem_and, BitVec.getElem_not, BitVec.getElem_and]
    revert hbit
    cases bits[i] <;> cases old[i] <;> cases w[i] <;> decide
  rw [hrest]
  exact h

/-- What the kernel has for a descriptor with a registered event. -/
theorem entry_of_hasEvent (hs : s.Sound) {fd : Int32} {e : Event} (h : s.io.HasEvent fd e) :
    ∃ p, s.io.slot fd = .ok p ∧ (s.io.fdctx p).Has e ∧
      s.io.kernel.mask fd = some (EPOLLET ||| (s.io.fdctx p).m_events) := by
  obtain ⟨p, hslot, hhas⟩ := hasEvent_iff.1 h
  refine ⟨p, hslot, hhas, ?_⟩
  rw [hs.mirrors.mask, interest_of_slot hslot, interestOf, if_neg hhas.m_events_ne]

/-- An attended descriptor with a registered event that it is ready for is on the list. -/
theorem listed_of_attended (hs : s.io.Laid) (hm : s.io.Mirrors) {fd : Int32} {e : Event}
    (ha : Attended s.io.kernel fd) (h : s.io.HasEvent fd e) (hr : Reported (s.list.ready fd) e) :
    s.list.listed fd = true := by
  obtain ⟨p, hslot, hhas⟩ := hasEvent_iff.1 h
  have hentry : s.io.kernel.mask fd = some (EPOLLET ||| (s.io.fdctx p).m_events) := by
    rw [hm.mask, interest_of_slot hslot, interestOf, if_neg hhas.m_events_ne]
  exact ha _ hentry (reported_ne_zero (reported_asked (hs.ok.ctx p).mask hhas hr))

/-- A descriptor with the same entry has the same events registered. -/
theorem hasEvent_of_interest {io io' : IOManager (InterestSet (ReadyList κ))} (hs : io.OK) (hs' : io'.OK)
    {fd : Int32} {e : Event} (hsame : io.interest fd = io'.interest fd) (h : io'.HasEvent fd e) :
    io.HasEvent fd e := by
  obtain ⟨p', hslot', hhas'⟩ := hasEvent_iff.1 h
  have hentry : io.interest fd = some (EPOLLET ||| (io'.fdctx p').m_events) := by
    rw [hsame, interest_of_slot hslot', interestOf, if_neg hhas'.m_events_ne]
  obtain ⟨p, hslot⟩ := slot_of_interest hentry
  have hevents : (io.fdctx p).m_events = (io'.fdctx p').m_events := by
    rw [interest_of_slot hslot, interest_of_slot hslot'] at hsame
    exact interestOf_inj (hs.ctx p).mask (hs'.ctx p').mask hsame
  refine hasEvent_iff.2 ⟨p, hslot, ?_⟩
  unfold FdContext.Has at hhas' ⊢
  rw [hevents]
  exact hhas'

/-- What is left of a mask without the reported events. -/
theorem not_has_of_cleared {m real : BitVec 32} {e : Event} (hm : IsMask m) (hreal : IsMask real)
    (hr : real &&& e.bits ≠ 0) : m &&& ~~~ real &&& e.bits = 0 := by
  rcases hm with rfl | rfl | rfl | rfl <;> rcases hreal with rfl | rfl | rfl | rfl <;> revert hr <;>
    cases e <;> decide

/-- A turn that the kernel accepts leaves no reported event registered. -/
theorem dispatch_clears {ctl : EpollCtl κ} {io io' : IOManager κ} (hs : io.OK) {p : ℕ}
    {events : BitVec 32} {calls : List Event} (h : io.dispatch ctl p events = .ok (calls, io'))
    {e : Event} (hhas : (io.fdctx p).Has e) (hr : Reported events e)
    (hacc : (io.fdctx p).m_events &&& realEvents events ≠ 0 → (turnAnswer ctl io p events).1 = 0) :
    io'.m_fdContexts = io.m_fdContexts ∧ ¬ (io'.fdctx p).Has e := by
  have hreal := (realEvents_iff events e).2 hr
  rcases dispatch_cases.1 h with ⟨h0, -, -⟩ | ⟨h0, hne, -⟩ | ⟨-, -, -, s₁, h₁, h₂⟩
  · exact absurd hhas ((none_reported_iff hs).1 h0 e hr)
  · exact absurd (hacc h0) hne
  · obtain ⟨-, hchanged, -, hevents⟩ := consumeBoth_changed (answer_ok hs _) h₁ h₂
    rw [← realEvents_eq] at hevents
    refine ⟨hchanged.table, not_not.2 ?_⟩
    rw [hevents]
    exact not_has_of_cleared (hs.ctx p).mask (realEvents_isMask events) hreal

/-! ## Steps -/

/-- **A call keeps what is noticed**, if the reports that it takes off were no descriptor's that
it leaves alone. -/
theorem call_noticed (hs : s.Sound) {op : EventOp} {io : IOManager (InterestSet (ReadyList κ))}
    (hspare : s.io.Spares op) (h : op.call (InterestSet.ctl (ReadyList.ctl other)) s.io = .ok io)
    (reports : List (ℕ × BitVec 32))
    (hkept : ∀ fd e, s.io.HasEvent fd e → SameAt fd s.io.kernel io.kernel → ∀ p events,
      s.io.slot fd = .ok p → Reported events e → (p, events) ∈ s.reports → (p, events) ∈ reports) :
    (EventReady.mk io reports).Sound := by
  obtain ⟨hlaid, hmirrors⟩ := call_mirrors hs.laid hs.mirrors hspare h
  refine ⟨hlaid, hmirrors, ?_⟩
  have hattends : Attends s.io.kernel io.kernel := by
    rcases call_kernel hs.laid.ok h with hk | ⟨req, fd, events, hk⟩
    · rw [hk]; exact attends_refl _
    · rw [hk]; exact ctl_attends _ req fd events
  intro fd e hhas hready
  rcases hattends.each fd with hsame | hatt
  · -- the descriptor is left alone: the event was registered and noticed
    have hinterest : s.io.interest fd = io.interest fd := by
      rw [← hs.mirrors.mask, ← hmirrors.mask, hsame.mask]
    have hhas₀ := hasEvent_of_interest hs.laid.ok hlaid.ok hinterest hhas
    have hready₀ : Reported (s.list.ready fd) e := by
      have heq : io.kernel.other.ready = s.io.kernel.other.ready := hattends.ready
      show Reported (s.io.kernel.other.ready fd) e
      rw [← heq]
      exact hready
    rcases hs.noticed fd e hhas₀ hready₀ with hlisted | ⟨q, events, hmem, hq, hrep⟩
    · exact Or.inl (hsame.listed.trans hlisted)
    · have hne : (s.io.fdctx q).m_events ≠ 0 := by
        obtain ⟨p, hslot, hp⟩ := hasEvent_iff.1 hhas₀
        rw [hslot] at hq
        cases hq
        exact hp.m_events_ne
      exact Or.inr ⟨q, events, hkept fd e hhas₀ hsame q events hq hrep hmem,
        call_slot hs.laid.ok hspare h hq hne, hrep⟩
  · exact Or.inl (listed_of_attended (s := ⟨io, reports⟩) hlaid hmirrors hatt hhas hready)

/-- **A turn keeps what is noticed**: a report of a registered event makes the worker ask for what
it leaves. -/
theorem turn_noticed (hs : s.Sound) {i p : ℕ} {events : BitVec 32} {calls : List Event}
    {io : IOManager (InterestSet (ReadyList κ))} (hacc : s.Accepted other (.turn i))
    (hget : s.reports[i]? = some (p, events))
    (h : s.io.dispatch (InterestSet.ctl (ReadyList.ctl other)) p events = .ok (calls, io)) :
    (EventReady.mk io (s.reports.eraseIdx i)).Sound := by
  have hcall : (EventOp.dispatch p events).call (InterestSet.ctl (ReadyList.ctl other)) s.io =
      .ok io := by
    simp only [EventOp.call, h]
    rfl
  have hspare : s.io.Spares (.dispatch p events) := trivial
  refine call_noticed hs hspare hcall _ ?_
  intro fd e hhas hsame q events' hslot hrep hmem
  obtain ⟨j, hj⟩ := List.mem_iff_getElem?.1 hmem
  by_cases hji : j = i
  · -- the report of this turn: its descriptor is not left alone
    subst hji
    rw [hget] at hj
    cases hj
    obtain ⟨q, hq, hhasq⟩ := hasEvent_iff.1 hhas
    rw [hslot] at hq
    cases hq
    obtain ⟨htable, hno⟩ := dispatch_clears hs.laid.ok h hhasq hrep (hacc p events hget)
    obtain ⟨hlaid, hmirrors⟩ := call_mirrors hs.laid hs.mirrors hspare hcall
    have hinterest : io.interest fd = s.io.interest fd := by
      rw [← hs.mirrors.mask, ← hmirrors.mask, hsame.mask]
    obtain ⟨q, hq, hhas'⟩ := hasEvent_iff.1 (hasEvent_of_interest hlaid.ok hs.laid.ok hinterest hhas)
    have hslot' : io.slot fd = .ok p := by
      rw [← hslot]
      unfold slot
      rw [htable]
    rw [hslot'] at hq
    cases hq
    exact absurd hhas' hno
  · refine List.mem_eraseIdx_iff_getElem?.2 ⟨j, hji, hj⟩

/-- Only the ready list is another one. -/
theorem setList_sound (hs : s.Sound) (k : ReadyList κ) (reports : List (ℕ × BitVec 32))
    (h : Noticed { s.setList k with reports := reports }) :
    Sound { s.setList k with reports := reports } :=
  ⟨⟨answer_ok hs.laid.ok _, hs.laid.fd, hs.laid.nodup, hs.laid.home⟩,
    ⟨hs.mirrors.mask, hs.mirrors.mistaken⟩, h⟩

/-- **A change of an open file is noticed**: what it was not ready for puts it on the list. -/
theorem change_noticed (hs : s.Sound) (fd : Int32) (bits : BitVec 32) (again : Bool) :
    (s.setList (s.list.change (s.io.kernel.mask fd) fd bits again)).Sound := by
  refine setList_sound hs _ s.reports ?_
  intro fd' e hhas hready
  have hhas₀ : s.io.HasEvent fd' e := hhas
  obtain ⟨p, hslot, hp, hentry⟩ := entry_of_hasEvent hs hhas₀
  by_cases hfd : fd' = fd
  · subst hfd
    have hlisted : (s.list.change (s.io.kernel.mask fd') fd' bits again).listed fd' =
        (s.list.listed fd' || again ||
          bits &&& ~~~ s.list.ready fd' &&& askedFor (EPOLLET ||| (s.io.fdctx p).m_events) != 0) := by
      rw [hentry]
      exact Function.update_self ..
    have hbits : (s.list.change (s.io.kernel.mask fd') fd' bits again).ready fd' = bits := by
      rw [hentry]
      exact Function.update_self ..
    have hready' : Reported bits e := hbits ▸ hready
    by_cases hold : Reported (s.list.ready fd') e
    · rcases hs.noticed fd' e hhas₀ hold with hl | hin
      · exact Or.inl (hlisted.trans (by rw [hl]; rfl))
      · exact Or.inr hin
    · have hnew := reported_asked (hs.laid.ok.ctx p).mask hp (reported_new hready' hold)
      refine Or.inl (hlisted.trans ?_)
      rw [bne_iff_ne.2 (reported_ne_zero hnew), Bool.or_true]
  · have hother : (s.list.change (s.io.kernel.mask fd) fd bits again).ready fd' = s.list.ready fd' ∧
        (s.list.change (s.io.kernel.mask fd) fd bits again).listed fd' = s.list.listed fd' := by
      unfold ReadyList.change ReadyList.list
      split
      · exact ⟨Function.update_of_ne hfd _ _, rfl⟩
      · exact ⟨Function.update_of_ne hfd _ _, Function.update_of_ne hfd _ _⟩
    have hready' : Reported (s.list.ready fd') e := hother.1 ▸ hready
    rcases hs.noticed fd' e hhas₀ hready' with hl | hin
    · exact Or.inl (hother.2.trans hl)
    · exact Or.inr hin

/-- **`epoll_wait` loses nothing**: the descriptor it takes off the list is in the report with each
registered event that it is ready for. -/
theorem wait_noticed (hs : s.Sound) (fd : Int32) : (s.wait fd).Sound := by
  unfold wait
  by_cases hlisted : s.list.listed fd = true
  · rw [if_pos hlisted]
    -- a descriptor with a registered event has an entry and a place in the table
    have hkeep : ∀ reports, (∀ r ∈ s.reports, r ∈ reports) →
        (∀ e p, s.io.slot fd = .ok p → (s.io.fdctx p).Has e → Reported (s.list.ready fd) e →
          ∃ events, (p, events) ∈ reports ∧ Reported events e) →
        Sound { s.setList (s.list.list fd false) with reports := reports } := by
      intro reports hsub hnew
      refine setList_sound hs _ reports ?_
      intro fd' e hhas hready
      have hhas₀ : s.io.HasEvent fd' e := hhas
      have hready₀ : Reported (s.list.ready fd') e := hready
      by_cases hfd : fd' = fd
      · subst hfd
        obtain ⟨p, hslot, hp⟩ := hasEvent_iff.1 hhas₀
        obtain ⟨events, hmem, hrep⟩ := hnew e p hslot hp hready₀
        exact Or.inr ⟨p, events, hmem, hslot, hrep⟩
      · rcases hs.noticed fd' e hhas₀ hready₀ with hl | ⟨p, events, hmem, hslot, hrep⟩
        · exact Or.inl ((Function.update_of_ne hfd _ _).trans hl)
        · exact Or.inr ⟨p, events, hsub _ hmem, hslot, hrep⟩
    have hentry : ∀ p e, s.io.slot fd = .ok p → (s.io.fdctx p).Has e → Reported (s.list.ready fd) e →
        ∃ entry, s.io.kernel.mask fd = some entry ∧ Reported (s.list.ready fd &&& askedFor entry) e := by
      intro p e hslot hp hr
      obtain ⟨q, hq, hhas, hmask⟩ := entry_of_hasEvent hs (hasEvent_iff.2 ⟨p, hslot, hp⟩)
      exact ⟨_, hmask, reported_asked (hs.laid.ok.ctx q).mask hhas hr⟩
    dsimp only
    split
    · rename_i entry p hmask hslot
      split
      · rename_i hzero
        refine hkeep s.reports (fun _ h => h) ?_
        intro e q hq hp hr
        obtain ⟨entry', hmask', hrep⟩ := hentry q e hq hp hr
        cases hmask.symm.trans hmask'
        exact absurd hzero (reported_ne_zero hrep)
      · refine hkeep _ (fun _ h => List.mem_append_left _ h) ?_
        intro e q hq hp hr
        obtain ⟨entry', hmask', hrep⟩ := hentry q e hq hp hr
        cases hmask.symm.trans hmask'
        cases hslot.symm.trans hq
        exact ⟨_, List.mem_append_right _ List.mem_cons_self, hrep⟩
    · rename_i hno
      refine hkeep s.reports (fun _ h => h) ?_
      intro e q hq hp hr
      obtain ⟨entry', hmask', -⟩ := hentry q e hq hp hr
      exact absurd hq (hno entry' q hmask')
  · rw [if_neg hlisted]
    exact hs

/-! ## Runs -/

theorem init_sound (o : κ) : (init o).Sound := by
  refine ⟨init_laid _, init_mirrors _, ?_⟩
  intro fd e _ hready
  exact absurd hready (by cases e <;> simp [Reported, init, list, IOManager.init, contextResize,
    InterestSet.empty, ReadyList.empty])

/-- **A step keeps what is noticed.** -/
theorem step_sound (hs : s.Sound) {a : ReadyAct} (hacc : s.Accepted other a)
    (h : s.stepOk other a = .ok s') : s'.Sound := by
  cases a with
  | call op =>
    have hcall : ∀ io, op.call (InterestSet.ctl (ReadyList.ctl other)) s.io = .ok io →
        Sound { s with io := io } := by
      intro io hio
      exact call_noticed hs hacc hio s.reports fun _ _ _ _ _ _ _ _ hmem => hmem
    cases op with
    | dispatch p events => cases h; exact hs
    | _ =>
      obtain ⟨io, hio, rfl⟩ := map_ok h
      exact hcall io hio
  | change fd bits again => cases h; exact change_noticed hs fd bits again
  | wait fd => cases h; exact wait_noticed hs fd
  | turn i =>
    unfold stepOk at h
    dsimp only at h
    split at h
    · cases h; exact hs
    · rename_i p events hget
      obtain ⟨⟨calls, io⟩, hd, rfl⟩ := map_ok h
      exact turn_noticed hs hacc hget hd

/-- **No readiness is lost.** In every run whose calls drop no registered event, and in which the
kernel accepts what the turns of the event loop ask for, each registered event that its descriptor
is ready for is on the ready list or in a report, in all states up to a failed assertion. -/
theorem ready_noticed (other : EpollCtl κ) (o : κ) (acts : List ReadyAct)
    (hacc : Along (step other) (fun r a => ∀ s, r = .ok s → s.Accepted other a) (.ok (init o)) acts) :
    ∀ r ∈ trace (step other) (.ok (init o)) acts, ∀ s, r = .ok s → s.Noticed := by
  have hinv := trace_inv_of
    (I := fun r : Except Fault (EventReady κ) => ∀ s, r = .ok s → s.Sound) ?_ acts ?_ hacc
  · intro r hr s hs
    exact (hinv r hr s hs).noticed
  · intro r a hr ha s' hs'
    cases r with
    | error e => cases hs'
    | ok s => exact step_sound (hr s rfl) (ha s rfl) hs'
  · intro s hs
    cases hs
    exact init_sound o

/-- A read event on descriptor 5, which becomes readable, is reported and dispatched. -/
def oneReport : List ReadyAct := [.call (addRead 5), .change 5 EPOLLIN false, .wait 5, .turn 0]

theorem ready_noticed_one_report :
    (∀ r ∈ trace (step acceptAll) (.ok (init ())) oneReport, ∀ s, r = .ok s → s.Noticed) ∧
      ∃ s, run (step acceptAll) (.ok (init ())) (oneReport.take 3) = .ok s ∧
        s.io.HasEvent 5 .READ ∧ Reported (s.list.ready 5) .READ ∧ s.list.listed 5 = false ∧
          s.InHand 5 .READ := by
  have hall : ∀ r ∈ trace (step acceptAll) (.ok (init ())) oneReport, ∀ s, r = .ok s → s.Noticed := by
    refine ready_noticed acceptAll () oneReport ⟨?_, ?_, ?_, ?_, trivial⟩
    · rintro s h
      cases h
      have hsize : (IOManager.init (InterestSet.empty (ReadyList.empty ()))).size < 2 ^ 31 := by decide
      exact spares_of_size_lt hsize (addRead 5)
    · rintro s -
      trivial
    · rintro s -
      trivial
    · rintro s h p events hget -
      cases h
      cases hget
      decide
  refine ⟨hall, _, rfl, ⟨_, rfl, by decide⟩, by decide, by decide, ?_⟩
  -- after `wait` the event is in the report only
  have hnoticed := hall _ (mem_trace.2 ⟨oneReport.take 3, List.take_prefix _ _, rfl⟩) _ rfl
  exact (hnoticed 5 .READ ⟨_, rfl, by decide⟩ (by decide)).resolve_left (by decide)

end EventReady

end Coroutine
