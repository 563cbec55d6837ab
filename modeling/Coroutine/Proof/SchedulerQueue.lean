import Coroutine.Lib.Run
import Coroutine.Proof.SchedulerMoves

/-!
# The order of the queue

An unpinned callback is an entry every scan takes, so no scan passes one by.

* `find_split`: what the section under the mutex takes, and what it passes by.
* `queue_inv`: in every run the unpinned callbacks popped so far, followed by those in the
  queue, are those that were pushed, in the order of the pushes.
-/

namespace Coroutine

open Lib

/-- An unpinned callback. -/
def FiberAndThread.free {W : Type} (ft : FiberAndThread W) : Bool :=
  ft.thread = -1 && ft.task matches .cb _

theorem FiberAndThread.free_iff {W : Type} (ft : FiberAndThread W) :
    ft.free = true ↔ ft.thread = -1 ∧ ∃ cb, ft.task = .cb cb := by
  unfold free
  cases ft.task <;> simp

namespace Scheduler

variable {W : Type} {pool : Pool W} {s s' : Scheduler W} {a : SchedAct W}

/-- Every scan takes an unpinned callback. -/
theorem takes_free (tid : ℤ) {ft : FiberAndThread W} (h : ft.free = true) : s.takes tid ft = true := by
  obtain ⟨hthread, cb, htask⟩ := ft.free_iff.1 h
  simp [takes, hthread, htask]

/-- A scan that takes nothing saw no unpinned callback. -/
theorem not_free_of_find_none {tid : ℤ} (h : s.m_fibers.find? (s.takes tid) = none)
    {ft : FiberAndThread W} (hft : ft ∈ s.m_fibers) : ft.free = false := by
  by_contra hfree
  have htrue : ft.free = true := by simpa using hfree
  exact List.find?_eq_none.1 h ft hft (takes_free tid htrue)

/-- **What a scan takes**: the first entry that it may, with no unpinned callback before it. -/
theorem find_split {tid : ℤ} {ft : FiberAndThread W}
    (h : s.m_fibers.find? (s.takes tid) = some ft) :
    ∃ l r, s.m_fibers = l ++ ft :: r ∧ s.m_fibers.eraseP (s.takes tid) = l ++ r ∧
      ∀ x ∈ l, x.free = false := by
  obtain ⟨htakes, l, r, hsplit, hskip⟩ := List.find?_eq_some_iff_append.1 h
  refine ⟨l, r, hsplit, ?_, ?_⟩
  · have hno : ∀ x ∈ l, ¬ s.takes tid x = true := by
      intro x hx
      simpa using hskip x hx
    rw [hsplit, List.eraseP_append_right _ hno, List.eraseP_cons_of_pos htakes]
  · intro x hx
    by_contra hfree
    have htrue : x.free = true := by simpa using hfree
    have hskipx := hskip x hx
    rw [takes_free tid htrue] at hskipx
    cases hskipx

/-- **The invariant of the queue.** -/
structure Queue (s : Scheduler W) : Prop where
  /-- the entries are numbered in the order of the pushes -/
  serial : s.pushed.map (·.serial) = List.range s.pushed.length
  /-- every entry pushed was popped or is still queued -/
  all : (s.popped ++ s.m_fibers).Perm s.pushed
  /-- of the unpinned callbacks, those popped come before those queued -/
  order : (s.popped ++ s.m_fibers).filter (·.free) = s.pushed.filter (·.free)

/-- No two entries have the same number. -/
theorem Queue.nodup (hs : s.Queue) : ((s.popped ++ s.m_fibers).map (·.serial)).Nodup := by
  rw [(hs.all.map _).nodup_iff, hs.serial]
  exact List.nodup_range

/-- What touches none of the three lists. -/
theorem queue_congr (hs : s.Queue) (hq : s'.m_fibers = s.m_fibers) (hpush : s'.pushed = s.pushed)
    (hpop : s'.popped = s.popped) : s'.Queue := by
  refine ⟨?_, ?_, ?_⟩
  · rw [hpush]; exact hs.serial
  · rw [hq, hpush, hpop]; exact hs.all
  · rw [hq, hpush, hpop]; exact hs.order

theorem push_queue (hs : s.Queue) (task : FiberOrcb) (thread : ℤ) (pusher : Option W) :
    (s.push task thread pusher).Queue := by
  refine ⟨?_, ?_, ?_⟩
  · simp only [push, List.map_append, List.map_cons, List.map_nil, List.length_append,
      List.length_singleton, List.range_succ, hs.serial]
  · simp only [push]
    rw [← List.append_assoc]
    exact hs.all.append_right _
  · simp only [push]
    have horder := hs.order
    rw [List.filter_append] at horder
    rw [List.filter_append, List.filter_append, List.filter_append, ← List.append_assoc, horder]

theorem call_queue (hs : s.Queue) (pusher : Option W) (c : SchedCall) : (s.call pusher c).Queue :=
  call_inv (I := Queue) (fun _ task thread ht _ => push_queue ht task thread pusher)
    (fun _ _ ht => queue_congr ht rfl rfl rfl) hs c

variable [DecidableEq W]

theorem init_queue (pool : Pool W) : (init pool).Queue := ⟨rfl, List.Perm.refl _, rfl⟩

variable [Fintype W]

/-- **Every move keeps the invariant of the queue.** -/
theorem move_queue (hs : s.Queue) (h : Move pool s a s') : s'.Queue := by
  cases h with
  | stay => exact hs
  | callOut c => exact call_queue hs none c
  | callIn w f b c hpc => exact call_queue hs (some w) c
  | stop =>
    have hf := stopStep_frame pool s
    exact queue_congr hs hf.fibers hf.pushed hf.popped
  | pop w ft hpc hfind =>
    obtain ⟨l, r, hsplit, herase, hskip⟩ := find_split hfind
    have hall := hs.all
    have horder := hs.order
    rw [hsplit] at hall horder
    have hl : l.filter (·.free) = [] := by
      rw [List.filter_eq_nil_iff]
      intro x hx
      simp [hskip x hx]
    refine ⟨hs.serial, ?_, ?_⟩
    · show ((s.popped ++ [ft]) ++ s.m_fibers.eraseP _).Perm s.pushed
      rw [herase]
      have hmid : (ft :: (l ++ r)).Perm (l ++ ft :: r) := List.perm_middle.symm
      rw [List.append_assoc, List.singleton_append]
      exact (hmid.append_left s.popped).trans hall
    · show ((s.popped ++ [ft]) ++ s.m_fibers.eraseP _).filter _ = s.pushed.filter _
      rw [herase, ← horder]
      simp [List.filter_append, List.filter_cons, hl]
  | requeue w f hpc => exact queue_congr (push_queue hs (.fiber f) (-1) none) rfl rfl rfl
  | requeueCb w f hpc => exact queue_congr (push_queue hs (.fiber f) (-1) none) rfl rfl rfl
  | _ => exact queue_congr hs rfl rfl rfl

/-- **The queue keeps its order in every run.** -/
theorem queue_inv (pool : Pool W) (acts : List (SchedAct W)) :
    (run (step pool) (init pool) acts).Queue :=
  run_inv (fun s a hs => move_queue hs (step_move pool s a)) acts _ (init_queue pool)

end Scheduler

end Coroutine
