import Coroutine.Proof.LogReload

/-!
# What the listener of `logs` leaves alone

The first loop of the listener has a pointer for a definition that is new and for one that is
different, and none for one that is in both sets. `Spares`: a registered logger under another
name is not written to.

* `logIniter_spares`: the listener writes to loggers named in one of the sets only.
* `leavesAlone_iff`: it runs to its end, and leaves equal definitions alone, exactly when there
  are none.
-/

namespace Coroutine

open Lib

namespace LoggerManager

variable {s s' : LoggerManager} {old new : LogDefines} {l : ℕ} {name : String}

/-! ## Operations on another logger -/

/-- **No logger but `l` is written to**, and the registry is left alone. -/
structure Writes (l : ℕ) (s s' : LoggerManager) : Prop where
  registry : s'.m_loggers = s.m_loggers
  other : ∀ k, k ≠ l → s'.logger k = s.logger k

theorem Writes.refl (l : ℕ) (s : LoggerManager) : Writes l s s := ⟨rfl, fun _ _ => rfl⟩

theorem Writes.trans {s'' : LoggerManager} (h : Writes l s s') (h' : Writes l s' s'') :
    Writes l s s'' :=
  ⟨h'.registry.trans h.registry, fun k hk => (h'.other k hk).trans (h.other k hk)⟩

theorem setLogger_writes (s : LoggerManager) (l : ℕ) (x : Logger) : Writes l s (s.setLogger l x) :=
  ⟨rfl, fun _ hk => Function.update_of_ne hk ..⟩

theorem SetLevel_writes (s : LoggerManager) (l : ℕ) (val : LogLevel) : Writes l s (s.SetLevel l val) :=
  setLogger_writes s l _

theorem clearAppenders_writes (s : LoggerManager) (l : ℕ) : Writes l s (s.clearAppenders l) :=
  setLogger_writes s l _

theorem setFormatterPtr_writes (s : LoggerManager) (l : ℕ) (val : Option LogFormatter) :
    Writes l s (s.setFormatterPtr l val) := by
  obtain ⟨hlogger, -, -, hreg, -⟩ := inherit_foldl val (s.logger l).m_appenders
    (s.setLogger l { s.logger l with m_formatter := val })
  refine (setLogger_writes s l { s.logger l with m_formatter := val }).trans ⟨hreg, ?_⟩
  intro k _
  rw [setFormatterPtr, hlogger]

theorem setFormatter_writes (s : LoggerManager) (l : ℕ) (val : String) :
    Writes l s (s.setFormatter l val) := by
  unfold setFormatter
  dsimp only
  split
  · exact .refl l s
  · exact setFormatterPtr_writes s l _

theorem addDefined_writes {a : LogAppenderDfine} (h : addDefined l s a = .ok s') : Writes l s s' := by
  unfold addDefined at h
  split at h
  · cases h
  · cases h
    refine ⟨rfl, fun k hk => ?_⟩
    simp only [addAppender, newAppender, setAppender, setLogger, Function.update_of_ne hk]

theorem configure_writes {i : LogDefine} (h : s.configure l i = .ok s') : Writes l s s' := by
  unfold configure at h
  have hlevel := SetLevel_writes s l i.level
  have hformatter : Writes l (s.SetLevel l i.level)
      (if i.formatter = "" then s.SetLevel l i.level
        else (s.SetLevel l i.level).setFormatter l i.formatter) := by
    split
    · exact .refl l _
    · exact setFormatter_writes _ l _
  have hclear := (hlevel.trans hformatter).trans (clearAppenders_writes _ l)
  have hstep : ∀ (t : LoggerManager) (a : LogAppenderDfine) (t' : LoggerManager), Writes l s t →
      True → addDefined l t a = .ok t' → Writes l s t' :=
    fun _ _ _ ht _ h => ht.trans (addDefined_writes h)
  exact foldlM_inv hstep (fun _ _ => trivial) hclear h

/-! ## The two loops -/

/-- **The logger registered under `name` is still `x`**, a registered logger of a well-formed
manager. -/
structure Spares (name : String) (l : ℕ) (x : Logger) (s : LoggerManager) : Prop where
  wf : s.WF
  registered : s.m_loggers name = some l
  same : s.logger l = x

/-- A logger found under another name is another logger. -/
theorem Spares.ne {x : Logger} (h : Spares name l x s) {k : ℕ} {other : String}
    (hk : s.m_loggers other = some k) (hne : other ≠ name) : l ≠ k := by
  rintro rfl
  exact hne ((h.wf.found _ _ hk).2.symm.trans (h.wf.found _ _ h.registered).2)

theorem Spares.writes {x : Logger} (h : Spares name l x s) {k : ℕ} (hw : Writes k s s') (hne : l ≠ k)
    (hwf : s'.WF) : Spares name l x s' :=
  ⟨hwf, by rw [hw.registry]; exact h.registered, by rw [hw.other l hne]; exact h.same⟩

theorem newLogger_spares {x : Logger} (h : Spares name l x s) {y : Logger} (hy : y.m_appenders = []) :
    Spares name l x (s.newLogger y) := by
  refine ⟨(newLogger_wf h.wf hy).1, h.registered, ?_⟩
  have hne : l ≠ s.nlogger := Nat.ne_of_lt (h.wf.found _ _ h.registered).1
  have hold : (s.newLogger y).logger l = s.logger l := by
    simp only [newLogger, setLogger, Function.update_of_ne hne]
  exact hold.trans h.same

theorem getLogger_spares {x : Logger} (h : Spares name l x s) {other : String} (hne : other ≠ name) :
    Spares name l x (s.getLogger other).2 := by
  have hwf := (getLogger_viewAt h.wf other).1
  cases hother : s.m_loggers other with
  | some k =>
    have hget : s.getLogger other = (k, s) := by unfold getLogger; rw [hother]
    rw [hget]
    exact h
  | none =>
    have hnew := newLogger_spares h (y := { m_name := other, m_root := some s.m_root }) rfl
    have hget : s.getLogger other = (s.nlogger,
        { s.newLogger { m_name := other, m_root := some s.m_root } with
          m_loggers := Function.update s.m_loggers other (some s.nlogger) }) := by
      unfold getLogger; rw [hother]
    rw [hget] at hwf ⊢
    refine ⟨hwf, ?_, hnew.same⟩
    exact (Function.update_of_ne (Ne.symm hne) ..).trans h.registered

/-- **The step for a definition of another name.** -/
theorem define_spares {x : Logger} (h : Spares name l x s) {i : LogDefine} (hne : i.name ≠ name)
    (hok : define old s i = .ok s') : Spares name l x s' := by
  have hwf := (define_view h.wf hok).1
  unfold define at hok
  split at hok
  · -- an added definition, applied to a logger of its own
    have hnew := newLogger_spares h (y := { m_name := i.name }) rfl
    have hlt : l ≠ s.nlogger := Nat.ne_of_lt (h.wf.found _ _ h.registered).1
    exact hnew.writes (configure_writes hok) hlt hwf
  · split at hok
    · cases hok
    · have hget := getLogger_spares h hne
      have hreg := (getLogger_viewAt h.wf i.name).2.1
      exact hget.writes (configure_writes hok) (hget.ne hreg hne) hwf

theorem remove_spares {x : Logger} (h : Spares name l x s) {i : LogDefine} (hne : i.name ≠ name) :
    Spares name l x (remove new s i) := by
  have hwf : (remove new s i).WF := (remove_view h.wf).1
  unfold remove at hwf ⊢
  split
  · exact h
  · rename_i hfind
    rw [hfind] at hwf
    have hget := getLogger_spares h hne
    have hreg := (getLogger_viewAt h.wf i.name).2.1
    have hwrites : Writes (s.getLogger i.name).1 (s.getLogger i.name).2
        (((s.getLogger i.name).2.SetLevel (s.getLogger i.name).1 100).clearAppenders
          (s.getLogger i.name).1) :=
      (SetLevel_writes _ _ _).trans (clearAppenders_writes _ _)
    exact hget.writes hwrites (hget.ne hreg hne) hwf

/-- **The listener writes to no logger whose name is in neither set.** -/
theorem logIniter_spares (hs : s.WF) (h : s.logIniter old new = .ok s')
    (hname : s.m_loggers name = some l) (hold : old.Lacks name) (hnew : new.Lacks name) :
    s'.m_loggers name = some l ∧ s'.logger l = s.logger l := by
  obtain ⟨t, ht, rfl⟩ := map_ok h
  have hstart : Spares name l (s.logger l) s := ⟨hs, hname, rfl⟩
  have hdefine : ∀ (t : LoggerManager) (i : LogDefine) t', Spares name l (s.logger l) t →
      i.name ≠ name → define old t i = .ok t' → Spares name l (s.logger l) t' :=
    fun _ _ _ hspares hne hok => define_spares hspares hne hok
  have hfirst := foldlM_inv hdefine hnew hstart ht
  have hremove : ∀ (t : LoggerManager) (i : LogDefine) t', Spares name l (s.logger l) t →
      i.name ≠ name → (.ok (remove new t i) : Except Fault LoggerManager) = .ok t' →
      Spares name l (s.logger l) t' := by
    intro t i t' hspares hne hok
    cases hok
    exact remove_spares hspares hne
  have hpure : old.defs.foldlM (fun s i => (.ok (remove new s i) : Except Fault LoggerManager)) t =
      .ok (old.defs.foldl (remove new) t) := List.foldlM_pure
  have hsecond := foldlM_inv hremove hold hfirst hpure
  exact ⟨hsecond.registered, hsecond.same⟩

/-! ## Unchanged definitions -/

/-- The definition under this name is the same in both sets, or there is none in either. -/
def Unchanged (old new : LogDefines) (name : String) : Prop :=
  (∃ i ∈ new.defs, i ∈ old.defs ∧ i.name = name) ∨ old.Lacks name ∧ new.Lacks name

/-- **The listener is total and leaves unchanged definitions alone**: it dereferences no null
pointer, and a registered logger whose definition does not change keeps its level, its
formatter and its appenders. -/
def LeavesAlone (s : LoggerManager) (old new : LogDefines) : Prop :=
  ∃ s', s.logIniter old new = .ok s' ∧ ∀ name l, s.m_loggers name = some l → Unchanged old new name →
    s'.m_loggers name = some l ∧ (s'.logger l).m_level = (s.logger l).m_level ∧
      (s'.logger l).m_formatter = (s.logger l).m_formatter ∧
      (s'.logger l).m_appenders = (s.logger l).m_appenders

/-- **When the listener is total and leaves unchanged definitions alone.** -/
theorem leavesAlone_iff (hs : s.WF) (old new : LogDefines) : s.LeavesAlone old new ↔
    ∀ i ∈ new.defs, i ∉ old.defs ∧ ∀ a ∈ i.appenders, a.kind.isSome := by
  constructor
  · rintro ⟨s', hok, -⟩
    exact (logIniter_ok_iff hs).1 ⟨s', hok⟩
  · intro hall
    obtain ⟨s', hok⟩ := (logIniter_ok_iff hs).2 hall
    refine ⟨s', hok, ?_⟩
    intro name l hname hunchanged
    rcases hunchanged with ⟨i, hinew, hiold, -⟩ | ⟨hold, hnew⟩
    · exact absurd hiold (hall i hinew).1
    · obtain ⟨hreg, hsame⟩ := logIniter_spares hs hok hname hold hnew
      rw [hsame]
      exact ⟨hreg, rfl, rfl, rfl⟩

/-- The root logger is left alone when a first logger is defined. -/
theorem leavesAlone_iff_first : LoggerManager.init.LeavesAlone { defs := [], ordered := .nil }
    (LogConfig.one { name := "system", appenders := [{ type := 2 }] }) := by
  refine (leavesAlone_iff LogConfig.init_wf _ _).2 ?_
  intro i hi
  obtain rfl := List.mem_singleton.1 hi
  exact ⟨List.not_mem_nil, by decide⟩

/-- A logger is added to a configuration of one logger. -/
theorem added_next_to_unchanged : ¬ LoggerManager.init.LeavesAlone
    (LogConfig.one { name := "a" })
    { defs := [{ name := "a" }, { name := "b" }], ordered := by decide } := by
  rintro ⟨s', hok, -⟩
  cases hok

end LoggerManager

end Coroutine
