import Coroutine.Lib.Ledger
import Coroutine.Proof.EventDispatch

/-!
# The ledger of event registrations

A run is followed by a ledger of its registrations: the results of the calls alone say
what is written into it. A successful `addEvent` enters its scheduler and its callback or
fiber under the event of the context of its descriptor; every consumption takes the entry
of that event out.

* `call_books`: each operation keeps the ledger in agreement with the contexts and with
  what was handed to the schedulers.
* `call_effect`: an operation changes a context, the counter or the tasks only after the
  kernel accepted a request.
* `call_io`: the ledger is a record only; the manager beside it goes through the operations as
  it would without.
* `ledger_balanced`: the ledger of a whole run.
-/

namespace Coroutine

open Lib

/-- How a registration is consumed. -/
inductive Use where
  | dispatch
  | cancelEvent
  | cancelAll
  | delEvent
  deriving DecidableEq, Repr

/-- Registrations by context and event: a scheduler and what it is to run. -/
abbrev EventBook := Ledger (ℕ × Event) (Option ℕ × FiberOrcb) Use

/-- An `IOManager` with the ledger of its registrations. -/
structure EventLedger (κ : Type) where
  io : IOManager κ
  book : EventBook

/-- What a call of `addEvent` is to have run. -/
def Caller.task (caller : Caller) (cb : Option Callback) : FiberOrcb :=
  match cb with
  | some f => .cb f
  | none => .fiber caller.fiber

/-- The identity of the context of `fd`. -/
def IOManager.contextOf {κ : Type} (s : IOManager κ) (fd : Int32) : ℕ :=
  match s.slot fd with
  | .ok p => p
  | .error _ => 0

/-- Take the registrations of several events of one context out. -/
def retireAll (b : EventBook) (p : ℕ) (events : List Event) (u : Use) : EventBook :=
  events.foldl (fun b e => b.retire (p, e) u) b

/-- A call, and what its result writes into the ledger. -/
def EventLedger.call {κ : Type} (ctl : EpollCtl κ) (l : EventLedger κ) :
    EventOp → Except Fault (EventLedger κ)
  | .addEvent caller fd event cb =>
    (l.io.addEvent ctl caller fd event cb).map fun (rt, io) =>
      { io := io
        book := if rt = 0 then
            l.book.register (io.contextOf fd, event) (caller.scheduler, caller.task cb)
          else l.book }
  | .delEvent fd event =>
    (l.io.delEvent ctl fd event).map fun (rt, io) =>
      { io := io
        book := if rt then l.book.retire (l.io.contextOf fd, event) .delEvent else l.book }
  | .cancelEvent fd event =>
    (l.io.cancelEvent ctl fd event).map fun (rt, io) =>
      { io := io
        book := if rt then l.book.retire (l.io.contextOf fd, event) .cancelEvent else l.book }
  | .cancelAll fd =>
    (l.io.cancelAll ctl fd).map fun (rt, io) =>
      let p := l.io.contextOf fd
      { io := io
        book := if rt then
            retireAll l.book p ([.READ, .WRITE].filter fun e => (l.io.fdctx p).Has e) .cancelAll
          else l.book }
  | .dispatch p events =>
    (l.io.dispatch ctl p events).map fun (calls, io) =>
      { io := io, book := retireAll l.book p calls .dispatch }

/-- A call in a run; after a fault nothing more happens. -/
def EventLedger.step {κ : Type} (ctl : EpollCtl κ) (l : Except Fault (EventLedger κ)) (op : EventOp) :
    Except Fault (EventLedger κ) := l.bind fun l => l.call ctl op

/-- A new `IOManager` and an empty ledger. -/
def EventLedger.init {κ : Type} (k : κ) : EventLedger κ :=
  { io := IOManager.init k, book := Ledger.empty }

namespace IOManager

variable {κ : Type} {ctl : EpollCtl κ} {s s' : IOManager κ}

/-! ## What the contexts hold -/

/-- The registration an event of a context holds. -/
def held (s : IOManager κ) (x : ℕ × Event) : Option (Option ℕ × FiberOrcb) :=
  if (s.fdctx x.1).Has x.2 then
    ((s.fdctx x.1).getContext x.2).bind fun ctx => ctx.task.map (ctx.scheduler, ·)
  else none

theorem held_eq_none {p : ℕ} {e : Event} (hh : ¬ (s.fdctx p).Has e) : s.held (p, e) = none :=
  if_neg hh

theorem held_eq_some {p : ℕ} {e : Event} {ctx : EventContext} {t : FiberOrcb}
    (hh : (s.fdctx p).Has e) (hc : (s.fdctx p).getContext e = some ctx) (ht : ctx.task = some t) :
    s.held (p, e) = some (ctx.scheduler, t) := by
  simp [held, hh, hc, ht]

/-- A set bit holds a registration. -/
theorem held_isSome (hs : s.OK) {p : ℕ} {e : Event} (hh : (s.fdctx p).Has e) :
    ∃ r, s.held (p, e) = some r := by
  have he : e ≠ .NONE := by rintro rfl; exact FdContext.not_has_none hh
  obtain ⟨ctx, hc⟩ := FdContext.getContext_isSome (c := s.fdctx p) he
  obtain ⟨t, ht⟩ := FdContext.task_isSome (hs.ctx p) hc hh
  exact ⟨_, held_eq_some hh hc ht⟩

theorem held_same (h : s.SameEvents s') : s'.held = s.held := by
  funext x
  obtain ⟨hm, hc⟩ := h x.1
  have hhas : (s'.fdctx x.1).Has x.2 ↔ (s.fdctx x.1).Has x.2 := by
    unfold FdContext.Has
    rw [hm]
  unfold held
  rw [hc]
  exact if_congr hhas rfl rfl

theorem held_dropAt (hs : s.OK) (p : ℕ) (e : Event) (t : Option (ℕ × FiberOrcb)) :
    (s.dropAt p e t).held = Function.update s.held (p, e) none := by
  funext ⟨q, e'⟩
  by_cases hq : q = p
  · subst hq
    by_cases he : e' = e
    · subst he
      rw [Function.update_self]
      apply held_eq_none
      rw [dropAt_fdctx_self, FdContext.has_drop (hs.ctx q).mask]
      simp
    · rw [Function.update_of_ne (by simp [he])]
      simp only [held, dropAt_fdctx_self, FdContext.getContext_drop_of_ne he,
        FdContext.has_drop (hs.ctx q).mask, ne_eq, he, not_false_eq_true, true_and]
  · rw [Function.update_of_ne (by simp [hq])]
    simp only [held, dropAt_fdctx_of_ne e t hq]

theorem held_addAt (hs : s.OK) (p : ℕ) {e : Event} (he : e ≠ .NONE) {ctx : EventContext}
    {t : FiberOrcb} (ht : ctx.task = some t) :
    (s.addAt p e ctx).held = Function.update s.held (p, e) (some (ctx.scheduler, t)) := by
  funext ⟨q, e'⟩
  by_cases hq : q = p
  · subst hq
    by_cases he' : e' = e
    · subst he'
      rw [Function.update_self]
      apply held_eq_some
      · rw [addAt_fdctx_self, FdContext.has_add (hs.ctx q).mask he]; exact Or.inl rfl
      · rw [addAt_fdctx_self, FdContext.getContext_add_self he]
      · exact ht
    · rw [Function.update_of_ne (by simp [he'])]
      simp only [held, addAt_fdctx_self, FdContext.getContext_add_of_ne he',
        FdContext.has_add (hs.ctx q).mask he, he', false_or]
  · rw [Function.update_of_ne (by simp [hq])]
    simp only [held, addAt_fdctx_of_ne e ctx hq]

theorem answer_same (k : κ) : s.SameEvents (s.answer k) := fun _ => ⟨rfl, fun _ => rfl⟩

/-! ## The books -/

/-- **The ledger agrees with the contexts and with the tasks**: what was handed to the
schedulers are the registrations consumed otherwise than by `delEvent`, in order. -/
structure Books (s : IOManager κ) (b : EventBook) : Prop where
  ok : s.OK
  book : b.OK s.held
  tasks : s.tasks.map (fun t => some (some t.1, t.2)) =
    (b.used.filter (·.2 ≠ .delEvent)).map fun u => b.regs[u.1]?

variable {b : EventBook}

theorem books_init (k : κ) : (init k).Books Ledger.empty := by
  refine ⟨init_ok k, ?_, rfl⟩
  have hnone : (init k).held = fun _ => none := by
    funext x
    refine if_neg ?_
    have h0 : ((init k).fdctx x.1).m_events = 0 := by
      show (FdContext.m_events (if _ then _ else _)) = 0
      split <;> rfl
    simp [FdContext.Has, h0]
  rw [hnone]
  exact Ledger.empty_ok

/-- What touches no event and no task keeps the books. -/
theorem books_same (h : s.Books b) (hok : s'.OK) (hsame : s.SameEvents s') (ht : s'.tasks = s.tasks) :
    s'.Books b :=
  ⟨hok, by rw [held_same hsame]; exact h.book, by rw [ht]; exact h.tasks⟩

theorem books_answer (h : s.Books b) (k : κ) : (s.answer k).Books b :=
  books_same h (answer_ok h.ok k) (answer_same k) rfl

/-- A registration is written into the books. -/
theorem books_register (h : s.Books b) {p : ℕ} (hp : p < s.nctx) {e : Event} (he : e ≠ .NONE)
    (hno : ¬ (s.fdctx p).Has e) (caller : Caller) (cb : Option Callback) :
    (s.addAt p e (caller.context cb)).Books
      (b.register (p, e) (caller.scheduler, caller.task cb)) := by
  have htask : (caller.context cb).task = some (caller.task cb) := by cases cb <;> rfl
  have hctx : (caller.context cb).fiber.isSome = !(caller.context cb).cb.isSome := by
    cases cb <;> rfl
  refine ⟨addAt_ok h.ok hp he hno hctx, ?_, ?_⟩
  · rw [held_addAt h.ok p he htask]
    exact Ledger.register_ok h.book (held_eq_none hno) _
  · show s.tasks.map _ = _
    rw [h.tasks]
    -- the numbers consumed so far are below the new one
    apply List.map_congr_left
    intro u hu
    have hlt := h.book.known u (List.mem_filter.1 hu).1
    exact (List.getElem?_append_left hlt).symm

/-- `delEvent` takes a registration out and hands nothing over. -/
theorem books_delete (h : s.Books b) {p : ℕ} {e : Event} (hh : (s.fdctx p).Has e) :
    (s.dropAt p e none).Books (b.retire (p, e) .delEvent) := by
  obtain ⟨r, hr⟩ := held_isSome h.ok hh
  refine ⟨dropAt_ok h.ok hh none, ?_, ?_⟩
  · rw [held_dropAt h.ok]
    exact Ledger.retire_ok h.book hr _
  · show (s.tasks ++ []).map _ = ((b.used ++ [_]).filter _).map _
    rw [List.append_nil, List.filter_append, h.tasks]
    simp [Ledger.retire]

/-- **`triggerEvent` takes a registration out and hands its task over.** -/
theorem books_consume (h : s.Books b) {p : ℕ} {e : Event} (hc : s.consume p e = .ok s') {u : Use}
    (hu : u ≠ .delEvent) : s'.Books (b.retire (p, e) u) := by
  obtain ⟨ctx, sched, t, hctx, hh, hsc, ht, rfl⟩ := (consume_eq_ok h.ok).1 hc
  have hr : s.held (p, e) = some (some sched, t) := by
    rw [held_eq_some hh hctx ht, hsc]
  refine ⟨dropAt_ok h.ok hh _, ?_, ?_⟩
  · rw [held_dropAt h.ok]
    exact Ledger.retire_ok h.book hr _
  · have hreg := h.book.entry (p, e) _ hr
    show (s.tasks ++ [(sched, t)]).map _ = ((b.used ++ [(b.live (p, e), u)]).filter _).map _
    rw [List.filter_append, List.map_append, List.map_append, h.tasks]
    simp [hu, hreg, Ledger.retire]

theorem books_consumeIf (h : s.Books b) {c : Bool} {p : ℕ} {e : Event}
    (hc : consumeIf c s p e = .ok s') {u : Use} (hu : u ≠ .delEvent) :
    s'.Books (if c then b.retire (p, e) u else b) := by
  unfold consumeIf at hc
  split at hc
  · rename_i hc'
    rw [if_pos hc']; exact books_consume h hc hu
  · rename_i hc'
    rw [if_neg hc']; cases hc; exact h

/-- Reading and then writing, each if it is called for. -/
theorem retireAll_filter (P : Event → Prop) [DecidablePred P] (p : ℕ) (u : Use) :
    retireAll b p ([.READ, .WRITE].filter fun e => P e) u =
      (if decide (P .WRITE) then
        (if decide (P .READ) then b.retire (p, .READ) u else b).retire (p, .WRITE) u
      else if decide (P .READ) then b.retire (p, .READ) u else b) := by
  unfold retireAll
  by_cases hr : P .READ <;> by_cases hw : P .WRITE <;> simp [hr, hw]

theorem contextOf_slot {fd : Int32} {p : ℕ} (h : s.slot fd = .ok p) : s.contextOf fd = p := by
  unfold contextOf
  rw [h]

end IOManager

open IOManager

variable {κ : Type} {ctl : EpollCtl κ}

/-- **Every call keeps the books.** -/
theorem call_books {l l' : EventLedger κ} {op : EventOp} (h : l.io.Books l.book)
    (hcall : l.call ctl op = .ok l') : l'.io.Books l'.book := by
  cases op with
  | addEvent caller fd e cb =>
    obtain ⟨⟨rt, s₂⟩, ha, rfl⟩ := map_ok hcall
    obtain ⟨p, s₁, hl, ha⟩ := addEvent_ok ha
    obtain ⟨hs₁, hsame, hp, hslot, htasks, -⟩ := lookup_ok h.ok hl
    have h₁ : s₁.Books l.book := books_same h hs₁ hsame htasks
    rcases addEventAt_cases hs₁ ha with ⟨rfl, -, rfl⟩ | ⟨rfl, -, he, hno, rfl⟩
    · exact books_answer h₁ _
    · have hctx : ((s₁.answer (addAnswer ctl s₁ p fd e).2).addAt p e
          (caller.context cb)).contextOf fd = p := contextOf_slot hslot
      simp only [if_true, hctx]
      have h₂ := books_answer h₁ (addAnswer ctl s₁ p fd e).2
      exact books_register h₂ hp he hno caller cb
  | delEvent fd e =>
    obtain ⟨⟨rt, s₁⟩, ha, rfl⟩ := map_ok hcall
    rcases onTable_ok ha with ⟨rfl, rfl⟩ | ⟨p, hslot, hb⟩
    · exact h
    · rcases delEventAt_cases hb with ⟨rfl, rfl | ⟨-, -, rfl⟩⟩ | ⟨rfl, -, hh, rfl⟩
      · exact h
      · exact books_answer h _
      · simp only [if_true, contextOf_slot hslot]
        exact books_delete (books_answer h (dropAnswer ctl l.io p fd e.bits).2) hh
  | cancelEvent fd e =>
    obtain ⟨⟨rt, s₁⟩, ha, rfl⟩ := map_ok hcall
    rcases onTable_ok ha with ⟨rfl, rfl⟩ | ⟨p, hslot, hb⟩
    · exact h
    · rcases cancelEventAt_cases hb with ⟨rfl, rfl | ⟨-, -, rfl⟩⟩ | ⟨rfl, -, -, hc⟩
      · exact h
      · exact books_answer h _
      · simp only [if_true, contextOf_slot hslot]
        exact books_consume (books_answer h _) hc (by decide)
  | cancelAll fd =>
    obtain ⟨⟨rt, s₁⟩, ha, rfl⟩ := map_ok hcall
    rcases onTable_ok ha with ⟨rfl, rfl⟩ | ⟨p, hslot, hb⟩
    · exact h
    · rcases cancelAllAt_cases hb with ⟨rfl, rfl | ⟨-, -, rfl⟩⟩ | ⟨rfl, -, -, -, s₂, h1, h2⟩
      · exact h
      · exact books_answer h _
      · -- consuming the read event does not touch the write event
        have h₀ := books_answer h (ctl l.io.kernel .DEL fd 0).2
        have hw : (s₂.fdctx p).Has .WRITE ↔ (l.io.fdctx p).Has .WRITE :=
          (consumeIf_other h₀.ok h1 (by decide)).1
        simp only [if_true, contextOf_slot hslot, retireAll_filter]
        rw [decide_eq_decide.2 hw] at h2
        exact books_consumeIf (books_consumeIf h₀ h1 (by decide)) h2 (by decide)
  | dispatch p events =>
    obtain ⟨⟨calls, s₁⟩, ha, rfl⟩ := map_ok hcall
    rcases dispatch_cases.1 ha with ⟨-, rfl, rfl⟩ | ⟨-, -, rfl, rfl⟩ | ⟨-, -, rfl, s₂, h1, h2⟩
    · exact h
    · exact books_answer h _
    · simp only [turnCalls, retireAll_filter]
      exact books_consumeIf (books_consumeIf (books_answer h _) h1 (by decide)) h2 (by decide)

/-! ## What a refused request leaves -/

namespace IOManager

variable {s s' : IOManager κ}

/-- Masks, event contexts, counter and tasks are as before. -/
structure Unchanged (s s' : IOManager κ) : Prop where
  events : s.SameEvents s'
  count : s'.m_pendingEventCount = s.m_pendingEventCount
  tasks : s'.tasks = s.tasks

/-- The kernel was asked once more and accepted. -/
def Accepted (ctl : EpollCtl κ) (s s' : IOManager κ) : Prop :=
  ∃ op fd events, (ctl s.kernel op fd events).1 = 0 ∧ s'.kernel = (ctl s.kernel op fd events).2

theorem unchanged_refl (s : IOManager κ) : s.Unchanged s := ⟨fun _ => ⟨rfl, fun _ => rfl⟩, rfl, rfl⟩

theorem unchanged_answer (k : κ) : s.Unchanged (s.answer k) := ⟨answer_same k, rfl, rfl⟩

theorem consumeIf_kernel {c : Bool} {p : ℕ} {e : Event} (h : consumeIf c s p e = .ok s') :
    s'.kernel = s.kernel := by
  unfold consumeIf consume at h
  split at h
  · split at h
    · cases h
    · cases h; rfl
  · cases h; rfl

end IOManager

/-- **An operation changes more than the table only after the kernel accepted.** -/
theorem call_effect {s s' : IOManager κ} (hs : s.OK) {op : EventOp} (h : op.call ctl s = .ok s') :
    s.Unchanged s' ∨ s.Accepted ctl s' := by
  cases call_does h with
  | nothing => exact Or.inl (unchanged_refl _)
  | refused _ k => exact Or.inl (unchanged_answer k)
  | @adds caller fd e cb rt p s₁ _ hl ha =>
    obtain ⟨hs₁, hsame, -, -, htasks, hcount⟩ := lookup_ok hs hl
    have hk : s₁.kernel = s.kernel := lookup_kernel hl
    rcases addEventAt_cases hs₁ ha with ⟨-, -, rfl⟩ | ⟨-, hacc, -, -, rfl⟩
    · exact Or.inl ⟨hsame, hcount, htasks⟩
    · right
      unfold addAnswer at hacc
      rw [hk] at hacc
      exact ⟨_, _, _, hacc, by rw [← hk]; rfl⟩
  | drops _ req fd events p e hacc hh => exact Or.inr ⟨_, _, _, hacc, rfl⟩
  | consumes _ req fd events hacc h1 h2 =>
    have hk := (consumeIf_kernel h2).trans (consumeIf_kernel h1)
    exact Or.inr ⟨_, _, _, hacc, hk⟩

/-- **The ledger does what the operations do.** -/
theorem EventLedger.call_io {l l' : EventLedger κ} {op : EventOp} (h : l.call ctl op = .ok l') :
    op.call ctl l.io = .ok l'.io := by
  cases op <;> obtain ⟨r, hr, rfl⟩ := map_ok h <;> simp only [EventOp.call, hr] <;> rfl

/-! ## The ledger of a run -/

/-- The call, if it is `addEvent`, is made on a worker thread. -/
def EventOp.OnWorker : EventOp → Prop
  | .addEvent caller _ _ _ => caller.scheduler.isSome
  | _ => True

/-- A kernel that counts the requests it refuses. -/
def EpollCtl.counting (ctl : EpollCtl κ) : EpollCtl (κ × ℕ) := fun k op fd events =>
  let (rt, k') := ctl k.1 op fd events
  (rt, k', if rt = 0 then k.2 else k.2 + 1)

@[simp] theorem retireAll_regs (b : EventBook) (p : ℕ) (es : List Event) (u : Use) :
    (retireAll b p es u).regs = b.regs := by
  unfold retireAll
  induction es generalizing b with
  | nil => rfl
  | cons e es ih => rw [List.foldl_cons, ih]; rfl

/-- On worker threads every registration gets a scheduler. -/
theorem call_manned {l l' : EventLedger κ} {op : EventOp} (hop : op.OnWorker)
    (hm : ∀ r ∈ l.book.regs, r.1.isSome) (h : l.call ctl op = .ok l') :
    ∀ r ∈ l'.book.regs, r.1.isSome := by
  cases op with
  | addEvent caller fd e cb =>
    obtain ⟨⟨rt, s₁⟩, -, rfl⟩ := map_ok h
    intro r hr
    dsimp only at hr
    split at hr
    · simp only [Ledger.register, List.mem_append, List.mem_singleton] at hr
      rcases hr with hr | rfl
      · exact hm r hr
      · exact hop
    · exact hm r hr
  | delEvent fd e =>
    obtain ⟨⟨rt, s₁⟩, -, rfl⟩ := map_ok h
    cases rt <;> exact hm
  | cancelEvent fd e =>
    obtain ⟨⟨rt, s₁⟩, -, rfl⟩ := map_ok h
    cases rt <;> exact hm
  | cancelAll fd =>
    obtain ⟨⟨rt, s₁⟩, -, rfl⟩ := map_ok h
    cases rt
    · exact hm
    · simpa using hm
  | dispatch p events =>
    obtain ⟨⟨calls, s₁⟩, -, rfl⟩ := map_ok h
    simpa using hm

/-- **What the ledger of a run says** about the state the run reached. -/
structure EventLedger.Balanced (ctl : EpollCtl (κ × ℕ)) (l : EventLedger (κ × ℕ)) : Prop where
  /-- the counter is the number of bits set in all contexts -/
  count : l.io.m_pendingEventCount = l.io.registered
  /-- a set bit has a scheduler and exactly one of fiber and callback -/
  set : ∀ p e ctx, (l.io.fdctx p).getContext e = some ctx →
    ((l.io.fdctx p).Has e ↔ ctx.scheduler.isSome ∧ ctx.fiber.isSome ≠ ctx.cb.isSome)
  /-- a bit that is not set has neither -/
  clear : ∀ p e ctx, (l.io.fdctx p).getContext e = some ctx → ¬ (l.io.fdctx p).Has e →
    ctx.scheduler = none ∧ ctx.fiber = none ∧ ctx.cb = none
  /-- `addEvent` fails no assertion after its duplicate check -/
  fresh : ∀ caller p fd e cb, e ≠ .NONE → ¬ (l.io.fdctx p).Has e → (cb = none → caller.exec) →
    ∃ r, l.io.addEventAt ctl caller p fd e cb = .ok r
  /-- no registration is consumed twice -/
  once : (l.book.used.map (·.1)).Nodup
  /-- a registration is consumed or its bit is still set -/
  total : ∀ i, i < l.book.regs.length →
    i ∈ l.book.used.map (·.1) ∨ ∃ p e, (l.io.fdctx p).Has e ∧ l.book.live (p, e) = i
  /-- the tasks handed over are the registrations consumed otherwise than by `delEvent` -/
  tasks : l.io.tasks.map (fun t => some (some t.1, t.2)) =
    (l.book.used.filter (·.2 ≠ .delEvent)).map fun u => l.book.regs[u.1]?
  /-- an operation that is refused changes no mask, context, count or task -/
  refused : ∀ (op : EventOp) s', op.call ctl l.io = .ok s' → s'.kernel.2 ≠ l.io.kernel.2 → l.io.Unchanged s'

/-- **The ledger of every run is balanced.** -/
theorem ledger_balanced {κ : Type} (ctl : EpollCtl κ) (k : κ) (ops : List EventOp)
    (hops : ∀ op ∈ ops, op.OnWorker) (l : EventLedger (κ × ℕ))
    (h : run (EventLedger.step ctl.counting) (.ok (.init (k, 0))) ops = .ok l) :
    l.Balanced ctl.counting := by
  have hb : l.io.Books l.book := run_ok_inv (fun _ _ => rfl)
    (I := fun l : EventLedger (κ × ℕ) => l.io.Books l.book)
    (fun _ _ _ _ hl hc => call_books hl hc) (books_init (k, 0)) h
  have hm : ∀ r ∈ l.book.regs, r.1.isSome := run_ok_inv (fun _ _ => rfl)
    (I := fun l : EventLedger (κ × ℕ) => ∀ r ∈ l.book.regs, r.1.isSome)
    (fun op hop _ _ hl hc => call_manned (hops op hop) hl hc) (by simp [EventLedger.init,
      Ledger.empty]) h
  have hok := hb.ok
  refine ⟨hok.count, ?_, ?_, ?_, hb.book.once, ?_, hb.tasks, ?_⟩
  · intro p e ctx hc
    constructor
    · intro hh
      obtain ⟨t, ht⟩ := FdContext.task_isSome (hok.ctx p) hc hh
      have hreg := hb.book.entry (p, e) _ (held_eq_some hh hc ht)
      have hone := (hok.ctx p).used e ctx hc hh
      refine ⟨hm _ (List.mem_of_getElem? hreg), ?_⟩
      rw [hone]
      cases ctx.cb <;> simp
    · rintro ⟨hsome, -⟩
      by_contra hno
      rw [(hok.ctx p).free e ctx hc hno] at hsome
      cases hsome
  · intro p e ctx hc hno
    rw [(hok.ctx p).free e ctx hc hno]
    exact ⟨rfl, rfl, rfl⟩
  · intro caller p fd e cb he hno hexec
    exact addEventAt_defined hok he hno hexec
  · intro i hi
    rcases hb.book.total i hi with hu | ⟨⟨p, e⟩, r, hr, hl⟩
    · exact Or.inl hu
    · have hh : (l.io.fdctx p).Has e := by
        by_contra hno
        rw [held_eq_none hno] at hr
        cases hr
      exact Or.inr ⟨p, e, hh, hl⟩
  · intro op s' hc hne
    rcases call_effect hok hc with hun | ⟨cop, fd, events, hacc, hk⟩
    · exact hun
    · -- an accepted request leaves the count of refusals
      exfalso
      apply hne
      rw [hk]
      simp only [EpollCtl.counting] at hacc ⊢
      rw [if_pos hacc]

/-- A worker registers a fiber and a callback; one is dispatched, one deleted. -/
theorem ledger_balanced_run :
    ∃ l : EventLedger (Unit × ℕ),
      run (EventLedger.step acceptAll.counting) (.ok (.init ((), 0)))
        [.addEvent ⟨some 0, 1, true⟩ 5 .READ none, .addEvent ⟨some 0, 1, true⟩ 5 .WRITE (some 7),
          .dispatch 5 EPOLLIN, .delEvent 5 .WRITE] = .ok l ∧
      l.io.tasks = [(0, .fiber 1)] ∧ l.book.used = [(0, .dispatch), (1, .delEvent)] ∧
      l.Balanced acceptAll.counting := by
  refine ⟨_, rfl, by decide, by decide, ?_⟩
  refine ledger_balanced acceptAll () [.addEvent ⟨some 0, 1, true⟩ 5 .READ none,
    .addEvent ⟨some 0, 1, true⟩ 5 .WRITE (some 7), .dispatch 5 EPOLLIN, .delEvent 5 .WRITE] ?_ _ rfl
  intro op hop
  simp only [List.mem_cons, List.not_mem_nil, or_false] at hop
  rcases hop with rfl | rfl | rfl | rfl <;> trivial

end Coroutine
