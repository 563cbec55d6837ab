import Coroutine.Lib.Run
import Coroutine.Spec.LogLocks

/-!
# The log module does not deadlock

A thread that logs has a logger's mutex while it takes those of its appenders, and the mutex of the
root logger while it falls back on that; a thread that prints the configuration has the manager's
before the loggers'. The order is: manager, logger, root logger, appender.

* `exec_sound`: each part of each function keeps to it.
* `log_no_deadlock`: so in every interleaving of any calls some thread can move while one is not
  done, and a mutex is released only by the thread that has it.
-/

namespace Coroutine

open Lib Lib.Discipline LogWorld

namespace LogMutex

/-- The order of the mutexes; the root logger is logger 0. -/
def rank : LogMutex → ℕ
  | manager => 0
  | logger l => if l = 0 then 2 else 1
  | appender _ => 3

theorem rank_le (m : LogMutex) : m.rank ≤ 3 := by
  cases m with
  | manager => exact Nat.zero_le 3
  | logger l =>
    show (if l = 0 then 2 else 1) ≤ 3
    split <;> omega
  | appender a => exact Nat.le_refl 3

theorem rank_logger (l : ℕ) : 1 ≤ (logger l).rank ∧ (logger l).rank ≤ 2 := by
  show 1 ≤ (if l = 0 then 2 else 1) ∧ (if l = 0 then 2 else 1) ≤ 2
  split <;> omega

end LogMutex

/-- What is held has a rank below `n`. -/
def Below (n : ℕ) (H : Set LogMutex) : Prop := ∀ h ∈ H, h.rank < n

theorem Below.mono {m n : ℕ} {H : Set LogMutex} (h : Below m H) (hmn : m ≤ n) : Below n H :=
  fun l hl => Nat.lt_of_lt_of_le (h l hl) hmn

theorem Below.insert {n : ℕ} {H : Set LogMutex} {m : LogMutex} (h : Below n H) (hm : m.rank < n) :
    Below n (insert m H) := by
  rintro l (rfl | hl)
  · exact hm
  · exact h l hl

namespace LogInstr

/-- What an instruction may find held is below its floor. -/
def floor : LogInstr → ℕ
  | log l .. => (LogMutex.logger l).rank
  | parseFormatter l _ => (LogMutex.logger l).rank
  | logEach l .. => (LogMutex.logger l).rank + 1
  | appenderLog .. => 3
  | setFormatter .. => 3
  | yaml _ => 3
  | newAppender .. => 3
  | yamlAll => 1
  | _ => 4

/-- `checkFormatter` finds the appender's mutex held and releases it. -/
def pre : LogInstr → Set LogMutex → Prop
  | checkFormatter _ a, H => .appender a ∈ H ∧ Below 3 (H \ {.appender a})
  | i, H => Below i.floor H

def after : LogInstr → Set LogMutex → Set LogMutex
  | checkFormatter _ a, H => H \ {.appender a}
  | _, H => H

end LogInstr

/-- The discipline of the module. -/
def logOrder : Discipline LogMutex LogInstr where
  rank := LogMutex.rank
  top := 3
  rank_le := LogMutex.rank_le
  pre := LogInstr.pre
  after := LogInstr.after

/-- **The root logger has no root**, and every other logger none or this one. -/
structure Rooted (w : LogWorld) : Prop where
  root : (w.loggers.logger 0).m_root = none
  m_root : w.loggers.m_root = 0
  others : ∀ l r, (w.loggers.logger l).m_root = some r → r = 0
  some_logger : 0 < w.loggers.nlogger

namespace Rooted

variable {w w' : LogWorld}

theorem init (content : ℕ → String) : Rooted (LogWorld.init content) := by
  have hlogger : ∀ l, ((LogWorld.init content).loggers.logger l).m_root = none := by
    intro l
    unfold LogWorld.init LoggerManager.init LoggerManager.addAppender LoggerManager.setLogger
    dsimp only
    rw [Function.update_apply]
    split <;> rfl
  exact ⟨hlogger 0, rfl, fun l r h => absurd (hlogger l ▸ h) (by simp), Nat.one_pos⟩

/-- No logger gets another root. -/
theorem congr (h : Rooted w) (hroot : ∀ l, (w'.loggers.logger l).m_root = (w.loggers.logger l).m_root)
    (hmanager : w'.loggers.m_root = w.loggers.m_root) (hn : w'.loggers.nlogger = w.loggers.nlogger) :
    Rooted w' :=
  ⟨(hroot 0).trans h.root, hmanager.trans h.m_root, fun l r hl => h.others l r (hroot l ▸ hl),
    hn ▸ h.some_logger⟩

/-- Writing to a logger, its root kept. -/
theorem setLogger (h : Rooted w) (l : ℕ) {x : Logger} (hx : x.m_root = (w.loggers.logger l).m_root) :
    Rooted (w.setLoggers (w.loggers.setLogger l x)) := by
  refine h.congr ?_ rfl rfl
  intro k
  show (Function.update w.loggers.logger l x k).m_root = _
  rw [Function.update_apply]
  split
  · rename_i hk; rw [hk]; exact hx
  · rfl

theorem setAppender (h : Rooted w) (a : ℕ) (ap : LogAppender) :
    Rooted (w.setLoggers (w.loggers.setAppender a ap)) := h.congr (fun _ => rfl) rfl rfl

/-- A new logger, with the manager's root or none. -/
theorem newLogger (h : Rooted w) {x : Logger} (hx : x.m_root = none ∨ x.m_root = some w.loggers.m_root)
    {s : LoggerManager} (hlogger : s.logger = (w.loggers.newLogger x).logger)
    (hroot : s.m_root = w.loggers.m_root) (hn : s.nlogger = w.loggers.nlogger + 1) :
    Rooted (w.setLoggers s) := by
  have hsome := h.some_logger
  have hat : ∀ l, (s.logger l).m_root =
      if l = w.loggers.nlogger then x.m_root else (w.loggers.logger l).m_root := by
    intro l
    rw [hlogger]
    show (Function.update w.loggers.logger w.loggers.nlogger x l).m_root = _
    rw [Function.update_apply]
    split <;> rfl
  refine ⟨?_, hroot.trans h.m_root, ?_, ?_⟩
  · have hne : 0 ≠ w.loggers.nlogger := by omega
    show (s.logger 0).m_root = none
    rw [hat, if_neg hne]
    exact h.root
  · intro l r hl
    have hl' : (s.logger l).m_root = some r := hl
    rw [hat] at hl'
    split at hl'
    · rcases hx with hx | hx
      · rw [hx] at hl'; cases hl'
      · rw [hx, h.m_root] at hl'
        cases hl'; rfl
    · exact h.others l r hl'
  · show 0 < s.nlogger
    omega

end Rooted

/-! ## Sections -/

theorem fits_section {H : Set LogMutex} {m : LogMutex} {body : List LogCmd} (h : Below m.rank H)
    (hbody : logOrder.Fits (insert m H) body) : logOrder.Fits H (LogCmd.locked m body) :=
  fits_locked h hbody

/-- An instruction that keeps what is held. -/
theorem fits_instr {H : Set LogMutex} {i : LogInstr} (hkeeps : ∀ l a, i ≠ .checkFormatter l a)
    (h : Below i.floor H) : logOrder.Fits H [.run i] := by
  apply fits_run
  · cases i <;> first | exact h | exact absurd rfl (hkeeps _ _)
  · cases i <;> first | rfl | exact absurd rfl (hkeeps _ _)

/-- One instruction under an appender's mutex, the last in the order. -/
theorem fits_appender {H : Set LogMutex} (a : ℕ) {i : LogInstr}
    (hkeeps : ∀ l a, i ≠ .checkFormatter l a) (hfloor : i.floor = 4) (h : Below 3 H) :
    logOrder.Fits H (LogCmd.locked (.appender a) [.run i]) := by
  refine fits_section h (fits_instr hkeeps ?_)
  rw [hfloor]
  exact (h.mono (by omega)).insert (show (3 : ℕ) < 4 by omega)

/-- One instruction under a logger's mutex. -/
theorem fits_logger {H : Set LogMutex} (l : ℕ) {i : LogInstr}
    (hkeeps : ∀ l a, i ≠ .checkFormatter l a) (hfloor : (LogMutex.logger l).rank < i.floor)
    (h : Below (LogMutex.logger l).rank H) : logOrder.Fits H (LogCmd.locked (.logger l) [.run i]) :=
  fits_section h (fits_instr hkeeps ((h.mono (Nat.le_of_lt hfloor)).insert hfloor))

/-- **No instruction gives a logger another root.** -/
theorem exec_rooted (strftime : String → UInt64 → String) {w : LogWorld} (hw : Rooted w) (i : LogInstr) :
    Rooted (exec strftime i w).1 := by
  have hstream : ∀ f t c, Rooted { w with m_filestream := f, m_lastTime := t, cout := c } :=
    fun f t c => hw.congr (fun _ => rfl) rfl rfl
  cases i with
  | log l level event now os => dsimp only [exec]; split <;> exact hw
  | logEach l level event now os =>
    dsimp only [exec]
    split
    · exact hw
    · split <;> exact hw
  | appenderLog a level event now os =>
    dsimp only [exec]
    split
    · split
      · exact hw
      · split <;> exact hw
    · exact hw
  | reopen a os => exact hstream _ _ _
  | setLastTime a now => exact hstream _ _ _
  | print a level event os => dsimp only [exec]; split <;> exact hstream _ _ _
  | checkFormatter l a => exact hw
  | giveFormatter l a => exact hw.setAppender a _
  | pushAppender l a => exact hw.setLogger l rfl
  | eraseAppender l a => exact hw.setLogger l rfl
  | clear l => exact hw.setLogger l rfl
  | setFormatter l val => exact hw.setLogger l rfl
  | inherit a val =>
    dsimp only [exec, LoggerManager.inherit]
    split
    · exact hw
    · exact hw.setAppender a _
  | parseFormatter l val =>
    dsimp only [exec]
    split
    · exact hstream _ _ _
    · exact hw
  | setAppenderFormatter a val => exact hw.setAppender a _
  | setLevel l val => exact hw.setLogger l rfl
  | setAppenderLevel a val => exact hw.setAppender a _
  | yaml l => exact hw
  | yamlAll => exact hw
  | getLogger name =>
    dsimp only [exec, LoggerManager.getLogger]
    split
    · exact hw
    · exact hw.newLogger (x := { m_name := name, m_root := some w.loggers.m_root }) (Or.inr rfl) rfl rfl
        rfl
  | newLogger name => exact hw.newLogger (x := { m_name := name }) (Or.inl rfl) rfl rfl rfl
  | newAppender kind os => cases kind <;> exact hw.congr (fun _ => rfl) rfl rfl

/-- **What an instruction goes on with fits** into what its thread does. -/
theorem exec_fits (strftime : String → UInt64 → String) {w : LogWorld} (hw : Rooted w) {i : LogInstr}
    (hkeeps : ∀ l a, i ≠ .checkFormatter l a) {H : Set LogMutex} (hH : Below i.floor H) :
    logOrder.Fits H (exec strftime i w).2 := by
  cases i with
  | log l level event now os =>
    dsimp only [exec]
    split
    · exact fits_logger l (fun _ _ => LogInstr.noConfusion) (Nat.lt_succ_self _) hH
    · exact fits_nil H
  | logEach l level event now os =>
    have hrank := LogMutex.rank_logger l
    dsimp only [exec]
    split
    · -- each appender in turn
      rw [List.map_eq_flatMap]
      refine fits_flatMap fun a _ => fits_instr (fun _ _ => LogInstr.noConfusion) ?_
      have hle : (LogMutex.logger l).rank + 1 ≤ 3 := by omega
      exact hH.mono hle
    · split
      · rename_i root hroot
        -- the root logger comes after this one
        have hzero : root = 0 := hw.others l root hroot
        have hl : l ≠ 0 := by
          rintro rfl
          rw [hw.root] at hroot
          cases hroot
        subst hzero
        have hfloor : (LogMutex.logger l).rank + 1 = 2 := by
          show (if l = 0 then 2 else 1) + 1 = 2
          rw [if_neg hl]
        have htwo : Below 2 H := hfloor ▸ hH
        exact fits_instr (fun _ _ => LogInstr.noConfusion) htwo
      · exact fits_nil H
  | appenderLog a level event now os =>
    have hprint : logOrder.Fits H (LogCmd.locked (.appender a) [.run (.print a level event os)]) :=
      fits_appender a (fun _ _ => LogInstr.noConfusion) rfl hH
    dsimp only [exec]
    split
    · split
      · exact hprint
      · split
        · have hopen : logOrder.Fits H (LogCmd.locked (.appender a) [.run (.reopen a os)]) :=
            fits_appender a (fun _ _ => LogInstr.noConfusion) rfl hH
          have htime : logOrder.Fits H [.run (.setLastTime a now)] :=
            fits_instr (fun _ _ => LogInstr.noConfusion) (hH.mono (show (3 : ℕ) ≤ 4 by omega))
          exact hopen.append (htime.append hprint)
        · exact hprint
    · exact fits_nil H
  | print a level event os => dsimp only [exec]; split <;> exact fits_nil H
  | checkFormatter l a => exact absurd rfl (hkeeps l a)
  | setFormatter l val =>
    exact fits_flatMap fun a _ => fits_appender a (fun _ _ => LogInstr.noConfusion) rfl hH
  | parseFormatter l val =>
    have hrank := LogMutex.rank_logger l
    dsimp only [exec]
    split
    · exact fits_nil H
    · have hlt : (LogMutex.logger l).rank < 3 := by omega
      exact fits_logger l (fun _ _ => LogInstr.noConfusion) hlt hH
  | yaml l => exact fits_flatMap fun a _ => fits_section hH (fits_nil _)
  | yamlAll =>
    refine fits_flatMap fun l _ => ?_
    have hrank := LogMutex.rank_logger l
    have hlt : (LogMutex.logger l).rank < 3 := by omega
    exact fits_logger l (fun _ _ => LogInstr.noConfusion) hlt (hH.mono hrank.1)
  | newAppender kind os =>
    cases kind with
    | StdoutLogAppender => exact fits_nil H
    | FileLogAppender name => exact fits_appender _ (fun _ _ => LogInstr.noConfusion) rfl hH
  | inherit a val => exact fits_nil H
  | getLogger name => exact fits_nil H
  | _ => exact fits_nil H

/-- `getFormatter` in `addAppender`: the appender's mutex is released, and perhaps taken again. -/
theorem checkFormatter_ordered (strftime : String → UInt64 → String) (w : LogWorld) (l a : ℕ)
    {H : Set LogMutex} {cs : List LogCmd} (hpre : logOrder.pre (.checkFormatter l a) H)
    (hcs : logOrder.Ordered (logOrder.after (.checkFormatter l a) H) cs) :
    logOrder.Ordered H ((exec strftime (.checkFormatter l a) w).2 ++ cs) := by
  obtain ⟨hmem, hbelow⟩ := hpre
  refine ⟨hmem, ?_⟩
  split
  · exact fits_appender a (fun _ _ => LogInstr.noConfusion) rfl hbelow cs hcs
  · exact hcs

/-- **Each part of a function keeps to the order.** -/
theorem exec_sound (strftime : String → UInt64 → String) : logOrder.Sound (exec strftime) Rooted := by
  intro i w hw
  refine ⟨exec_rooted strftime hw i, ?_⟩
  intro H cs hpre hcs
  by_cases hkeeps : ∀ l a, i ≠ .checkFormatter l a
  · have hafter : logOrder.after i H = H := by
      cases i <;> first | rfl | exact absurd rfl (hkeeps _ _)
    have hbelow : Below i.floor H := by
      cases i <;> first | exact hpre | exact absurd rfl (hkeeps _ _)
    rw [hafter] at hcs
    exact exec_fits strftime hw hkeeps hbelow cs hcs
  · push Not at hkeeps
    obtain ⟨l, a, rfl⟩ := hkeeps
    exact checkFormatter_ordered strftime w l a hpre hcs

/-- **Each call takes and releases its mutexes in order.** -/
theorem code_fits (f : LogFn) : logOrder.Fits ∅ f.code := by
  have hnone : ∀ n, Below n ∅ := fun n h hh => absurd hh (Set.notMem_empty h)
  have hfour : ∀ l, (LogMutex.logger l).rank < 4 := fun l => by
    have hrank := LogMutex.rank_logger l
    omega
  have hthree : ∀ l, (LogMutex.logger l).rank < 3 := fun l => by
    have hrank := LogMutex.rank_logger l
    omega
  cases f with
  | log l level event now os => exact fits_instr (fun _ _ => LogInstr.noConfusion) (hnone _)
  | addAppender l a =>
    refine fits_section (hnone _) ?_
    have hlogger : Below 3 (insert (LogMutex.logger l) ∅) := (hnone 3).insert (hthree l)
    have hnot : LogMutex.appender a ∉ insert (LogMutex.logger l) (∅ : Set LogMutex) := by simp
    have hback := Set.insert_sdiff_self_of_notMem hnot
    have hpush : logOrder.Fits (insert (LogMutex.logger l) ∅) [.run (.pushAppender l a)] :=
      fits_instr (fun _ _ => LogInstr.noConfusion) (hlogger.mono (show (3 : ℕ) ≤ 4 by omega))
    intro cs hcs
    refine ⟨hlogger, ⟨Set.mem_insert _ _, ?_⟩, ?_⟩
    · rw [hback]; exact hlogger
    · show logOrder.Ordered (insert _ _ \ {_}) ([.run (.pushAppender l a)] ++ cs)
      rw [hback]
      exact hpush cs hcs
  | delAppender l a => exact fits_logger l (fun _ _ => LogInstr.noConfusion) (hfour l) (hnone _)
  | clearAppenders l => exact fits_logger l (fun _ _ => LogInstr.noConfusion) (hfour l) (hnone _)
  | setFormatterPtr l val => exact fits_logger l (fun _ _ => LogInstr.noConfusion) (hthree l) (hnone _)
  | getFormatter l => exact fits_section (hnone _) (fits_nil _)
  | toYamlString l => exact fits_logger l (fun _ _ => LogInstr.noConfusion) (hthree l) (hnone _)
  | setAppenderFormatter a val => exact fits_appender a (fun _ _ => LogInstr.noConfusion) rfl (hnone _)
  | getAppenderFormatter a => exact fits_section (hnone _) (fits_nil _)
  | appenderToYamlString a => exact fits_section (hnone _) (fits_nil _)
  | reopen a os => exact fits_appender a (fun _ _ => LogInstr.noConfusion) rfl (hnone _)
  | getLogger name =>
    refine fits_section (hnone _) (fits_instr (fun _ _ => LogInstr.noConfusion) ?_)
    exact (hnone 4).insert (show (0 : ℕ) < 4 by omega)
  | managerToYamlString =>
    refine fits_section (hnone _) (fits_instr (fun _ _ => LogInstr.noConfusion) ?_)
    exact (hnone 1).insert Nat.one_pos
  | _ => exact fits_instr (fun _ _ => LogInstr.noConfusion) (hnone _)

/-- Threads that make any calls, one after another. -/
def logThreads (content : ℕ → String) (calls : ℕ → List LogFn) : Threads LogMutex LogInstr LogWorld ℕ :=
  .start (LogWorld.init content) fun t => (calls t).flatMap LogFn.code

/-- **The log module does not deadlock.** In every interleaving of the steps of any number of
threads that make any calls of its functions, some thread can move while one is not done; a mutex is
taken only by a thread that does not have it, and released only by one that does. -/
theorem log_no_deadlock (strftime : String → UInt64 → String) (content : ℕ → String)
    (calls : ℕ → List LogFn) (schedule : List ℕ) :
    let s := run (Threads.step (exec strftime)) (logThreads content calls) schedule
    ((∃ t, s.code t ≠ []) → ∃ t, s.code t ≠ [] ∧ ¬ s.Waits t) ∧
      (∀ t m cs, s.code t = .lock m :: cs → ¬ s.Has t m) ∧
      ∀ t m cs, s.code t = .unlock m :: cs → s.Has t m := by
  intro s
  have hinv : logOrder.Inv Rooted s := by
    refine run_inv (I := logOrder.Inv Rooted) (fun s t hs => step_inv (exec_sound strftime) hs t) schedule
      _ ?_
    exact start_inv (Rooted.init content) fun t => (fits_flatMap fun f _ => code_fits f).ordered
  exact ⟨hinv.can_move, fun t m cs h => hinv.not_mine (Or.inl h), fun t m cs h => hinv.mine h⟩

end Coroutine
