import Coroutine.Lib.Refine
import Coroutine.Proof.LogPrint

/-!
# The loggers refine the log service

* `edit_tracks`: a call on the logger of a name changes the setting under that name.
* `setValue_tracks`: an assignment to `logs` that returns leaves the settings that the service has,
  and it returns when the service accepts it.
* `log_refines`: so over every sequence of calls the loggers write what the service writes.
-/

namespace Coroutine

open Lib LoggerManager

variable {strftime : String → UInt64 → String} {c : LogConfig} {t : LogService} {s s' : LoggerManager}

/-- **Loggers that the settings describe.** -/
structure LogConfig.Tracks (c : LogConfig) (t : LogService) : Prop where
  printable : c.loggers.Printable
  defs : c.m_val = t.defs
  view : ∀ k, c.loggers.viewAt k = (t.setting k).view

/-! ## Calls on one logger -/

/-- `getLogger` changes no setting. -/
theorem LogConfig.Tracks.getLogger (h : c.Tracks t) (name : String) :
    (c.setLoggers (c.loggers.getLogger name).2).Tracks t ∧
      (c.loggers.getLogger name).2.m_loggers name = some (c.loggers.getLogger name).1 := by
  obtain ⟨-, hreg, hview⟩ := getLogger_viewAt h.printable.wf name
  exact ⟨⟨getLogger_printable h.printable name, h.defs, fun k => (hview k).trans (h.view k)⟩, hreg⟩

/-- **An operation on the logger of a name** changes the setting under that name. -/
theorem edit_tracks (h : c.Tracks t) {name : String} {g : LoggerView → LoggerView}
    {f : LogSetting → LogSetting} (hprint : s'.Printable)
    (hedit : Edit (c.loggers.getLogger name).1 g (c.loggers.getLogger name).2 s')
    (hfg : ∀ x : LogSetting, g x.view = (f x).view) :
    (c.setLoggers s').Tracks (t.edit name f) := by
  obtain ⟨hget, hreg⟩ := h.getLogger name
  refine ⟨hprint, h.defs, fun k => ?_⟩
  have hview : s'.viewAt k = _ := hedit.viewAt hget.printable.wf hreg k
  have hold : (c.loggers.getLogger name).2.viewAt k = (t.setting k).view := hget.view k
  show s'.viewAt k = ((t.edit name f).setting k).view
  rw [hview, hold]
  unfold LogService.edit
  dsimp only
  split
  · exact hfg _
  · rfl

theorem setFormatter_same_edit (hs : s.WF) {l : ℕ} (hl : l < s.nlogger) (val : String) :
    Edit l (fun v => { v with formatter := (LogFormatter.valid val).or v.formatter }) s
      (s.setFormatter l val) := by
  unfold setFormatter LogFormatter.valid
  dsimp only
  by_cases herror : (LogFormatter.init val).m_error
  · have hsame : Edit l (fun v => v) s s := ⟨hs, rfl, rfl, rfl, fun _ _ _ => rfl⟩
    simpa [herror] using hsame
  · simpa [herror] using setFormatterPtr_edit hs hl (some (.init val))

/-! ## Assignments -/

theorem LogAppenderDfine.setting_view (a : LogAppenderDfine) :
    a.setting.map AppenderSetting.view = a.kind.map a.view := by
  unfold LogAppenderDfine.setting
  cases a.kind with
  | none => rfl
  | some kind =>
    unfold LogAppenderDfine.view AppenderSetting.view LogFormatter.configured LogFormatter.valid
    by_cases hempty : a.formatter = ""
    · simp [hempty]
    · by_cases herror : (LogFormatter.init a.formatter).m_error
      · simp [hempty, herror]
      · simp [hempty, herror]

/-- A definition does to a view what it does to a setting. -/
theorem LogDefine.setting_view (i : LogDefine) (x : LogSetting) :
    i.applied x.view = (i.setting x).view := by
  have happ : appenderViews i.appenders =
      (i.appenders.filterMap LogAppenderDfine.setting).map AppenderSetting.view := by
    unfold appenderViews
    rw [List.map_filterMap]
    simp only [LogAppenderDfine.setting_view]
  have hfmt : formatterOr i.formatter (some x.formatter) =
      some ((LogFormatter.configured i.formatter).getD x.formatter) := by
    unfold formatterOr LogFormatter.configured LogFormatter.valid
    by_cases hempty : i.formatter = ""
    · simp [hempty]
    · by_cases herror : (LogFormatter.init i.formatter).m_error
      · simp [hempty, herror]
      · simp [hempty, herror]
  unfold LogDefine.applied LogDefine.setting LogSetting.view
  rw [happ]
  dsimp only
  rw [hfmt]

/-- **The settings after an assignment.** -/
theorem reload_view (h : c.Tracks t) {v : LogDefines}
    (hinit : c.loggers.logIniter c.m_val v = .ok s) (k : String) :
    s.viewAt k = (t.reload v k).view := by
  obtain ⟨-, hview⟩ := logIniter_view h.printable.wf hinit
  rw [hview k, h.view k, h.defs]
  unfold LogService.reload
  cases hold : t.defs.defs.find? (·.name = k) with
  | none =>
    cases hnew : v.defs.find? (·.name = k) with
    | none => rfl
    | some i =>
      -- an added definition is applied to a logger of its own
      have hname : i.name = k := by simpa using List.find?_some hnew
      have hnone : t.defs.find i = none := by
        unfold LogDefines.find
        rw [hname]
        exact hold
      show defined t.defs i (t.setting k).view = (t.setting k).view
      rw [defined, hnone]
      rfl
  | some d =>
    have hdname : d.name = k := by simpa using List.find?_some hold
    have hfind : v.find d = v.defs.find? (·.name = k) := by
      unfold LogDefines.find
      rw [hdname]
    cases hnew : v.defs.find? (·.name = k) with
    | none =>
      show removed v d (t.setting k).view = _
      rw [removed, hfind, hnew]
      rfl
    | some i =>
      have hname : i.name = k := by simpa using List.find?_some hnew
      have hsome : t.defs.find i = some d := by
        unfold LogDefines.find
        rw [hname]
        exact hold
      show removed v d (defined t.defs i (t.setting k).view) = _
      rw [removed, hfind, hnew, defined, hsome]
      exact LogDefine.setting_view i (t.setting k)

/-- The listener fails in one way. -/
theorem logIniter_error {old new : LogDefines} {e : Fault} (h : s.logIniter old new = .error e) :
    e = .undefined := by
  have hadd : ∀ (l : ℕ) (as : List LogAppenderDfine) (s : LoggerManager) (e : Fault),
      as.foldlM (addDefined l) s = .error e → e = .undefined := by
    intro l as
    induction as with
    | nil => intro s e h; cases h
    | cons a as ih =>
      intro s e h
      rw [List.foldlM_cons] at h
      cases hone : addDefined l s a with
      | ok t => rw [hone] at h; exact ih t e h
      | error e' =>
        rw [hone] at h
        cases h
        unfold addDefined at hone
        split at hone <;> cases hone
        rfl
  have hdefine : ∀ (s : LoggerManager) (i : LogDefine) (e : Fault), define old s i = .error e →
      e = .undefined := by
    intro s i e h
    unfold define at h
    split at h
    · exact hadd _ _ _ _ h
    · split at h
      · cases h
        rfl
      · exact hadd _ _ _ _ h
  have hfold : ∀ (ds : List LogDefine) (s : LoggerManager) (e : Fault),
      ds.foldlM (define old) s = .error e → e = .undefined := by
    intro ds
    induction ds with
    | nil => intro s e h; cases h
    | cons d ds ih =>
      intro s e h
      rw [List.foldlM_cons] at h
      cases hone : define old s d with
      | ok t => rw [hone] at h; exact ih t e h
      | error e' =>
        rw [hone] at h
        cases h
        exact hdefine s d e hone
  unfold logIniter at h
  cases hdefs : new.defs.foldlM (define old) s with
  | ok t => rw [hdefs] at h; cases h
  | error e' =>
    rw [hdefs] at h
    cases h
    exact hfold _ _ _ hdefs

/-- **An assignment** of another value: what the service accepts, and nothing else, returns. -/
theorem setValue_tracks (h : c.Tracks t) {v : LogDefines} (hv : v ≠ t.defs) :
    (t.Accepts v ∧ ∃ c', c.setValue v = .ok c' ∧ c'.Tracks { setting := t.reload v, defs := v }) ∨
      (¬ t.Accepts v ∧ c.setValue v = .error .undefined) := by
  have hv' : v ≠ c.m_val := by rw [h.defs]; exact hv
  have haccepts : (∃ c', c.setValue v = .ok c') ↔ t.Accepts v := by
    rw [LogConfig.setValue_ok_iff h.printable.wf hv', h.defs]
    rfl
  by_cases hacc : t.Accepts v
  · obtain ⟨c', hc'⟩ := haccepts.2 hacc
    refine .inl ⟨hacc, c', hc', ?_⟩
    unfold LogConfig.setValue at hc'
    rw [if_neg hv'] at hc'
    cases hinit : c.loggers.logIniter c.m_val v with
    | error e => rw [hinit] at hc'; cases hc'
    | ok s =>
      rw [hinit] at hc'
      cases hc'
      exact ⟨logIniter_printable h.printable hinit, rfl, reload_view h hinit⟩
  · refine .inr ⟨hacc, ?_⟩
    cases hset : c.setValue v with
    | ok c' => exact absurd (haccepts.1 ⟨c', hset⟩) hacc
    | error e =>
      unfold LogConfig.setValue at hset
      rw [if_neg hv'] at hset
      cases hinit : c.loggers.logIniter c.m_val v with
      | ok s => rw [hinit] at hset; cases hset
      | error e' =>
        rw [hinit] at hset
        cases hset
        rw [logIniter_error hinit]

/-! ## The refinement -/

/-- A statement on a registered logger. -/
theorem LogConfig.Tracks.log (h : c.Tracks t) {name : String} {l : ℕ}
    (hname : c.loggers.m_loggers name = some l) (depth : ℕ) (level : LogLevel) (event : LogEvent) :
    c.loggers.logLevel strftime (depth + 2) l level event = .ok (t.log strftime name level event) :=
  log_lines strftime h.printable hname (h.view name) (h.view "root") depth level event

theorem answer_agrees (depth : ℕ) : Agrees (LoggerCall.answer strftime (depth + 2))
    (LogService.answer strftime) LogConfig.Tracks := by
  intro c t h call
  -- an operation on one logger, which writes nothing
  have hedit : ∀ (name : String) {g : LoggerView → LoggerView} {f : LogSetting → LogSetting}
      {s' : LoggerManager}, s'.Printable →
      Edit (c.loggers.getLogger name).1 g (c.loggers.getLogger name).2 s' →
      (∀ x : LogSetting, g x.view = (f x).view) →
      LoggerCall.answer strftime (depth + 2) c call = .ok ([], c.setLoggers s') →
      LogService.answer strftime t call = .ok ([], t.edit name f) →
      ∃ b c' t', LoggerCall.answer strftime (depth + 2) c call = .ok (b, c') ∧
        LogService.answer strftime t call = .ok (b, t') ∧ c'.Tracks t' :=
    fun name _ _ _ hprint hed hfg hcall hserv =>
      ⟨[], _, _, hcall, hserv, edit_tracks h hprint hed hfg⟩
  have hprint : ∀ name, (c.loggers.getLogger name).2.Printable :=
    fun name => getLogger_printable h.printable name
  have hlt : ∀ name, (c.loggers.getLogger name).1 < (c.loggers.getLogger name).2.nlogger :=
    fun name => ((hprint name).wf.found _ _ (h.getLogger name).2).1
  cases call with
  | log name level event =>
    obtain ⟨hget, hreg⟩ := h.getLogger name
    refine .inr ⟨_, _, t, ?_, rfl, hget⟩
    have hlog : (c.loggers.getLogger name).2.logLevel strftime (depth + 2)
        (c.loggers.getLogger name).1 level event = .ok (t.log strftime name level event) :=
      hget.log hreg depth level event
    simp only [LoggerCall.answer, hlog]
    rfl
  | SetLevel name val =>
    exact .inr (hedit name (SetLevel_printable (hprint name) _ val)
      (SetLevel_edit (hprint name).wf (hlt name) val) (fun _ => rfl) rfl rfl)
  | setFormatter name val =>
    refine .inr (hedit name (setFormatter_printable (hprint name) (hlt name) val)
      (setFormatter_same_edit (hprint name).wf (hlt name) val) (fun x => ?_) rfl rfl)
    unfold LogSetting.view
    cases LogFormatter.valid val <;> rfl
  | clearAppenders name =>
    exact .inr (hedit name (clearAppenders_printable (hprint name) _)
      (clearAppenders_edit (hprint name).wf _) (fun _ => rfl) rfl rfl)
  | addAppender name kind level own =>
    refine .inr (hedit name (addNew_printable (hprint name) (hlt name) rfl)
      (addNew_edit (hprint name).wf (hlt name) rfl) (fun x => ?_) rfl rfl)
    unfold LogSetting.view LogAppender.view LogAppender.setFormatter AppenderSetting.view
    cases own <;> simp
  | setValue v event =>
    unfold LoggerCall.answer LogService.answer
    dsimp only
    by_cases hv : v = t.defs
    · rw [if_pos (hv.trans h.defs.symm), if_pos hv]
      exact .inr ⟨[], c, t, rfl, rfl, h⟩
    rw [if_neg fun heq => hv (heq.trans h.defs), if_neg hv, h.log h.printable.root]
    rcases setValue_tracks h hv with ⟨hacc, c', hset, htracks⟩ | ⟨hacc, hset⟩
    · rw [if_pos hacc]
      refine .inr ⟨_, c', _, ?_, rfl, htracks⟩
      simp only [Except.bind, hset]
      rfl
    · rw [if_neg hacc]
      refine .inl ⟨.undefined, ?_, rfl⟩
      simp only [Except.bind, hset]
      rfl

theorem init_printable : LogConfig.init.loggers.Printable := by
  have hlogger : ∀ l < LogConfig.init.loggers.nlogger, l = 0 := fun l hl => Nat.lt_one_iff.1 hl
  refine ⟨LogConfig.init_wf, ?_, ?_, ?_, ?_, ?_, rfl, ?_⟩
  · intro l hl
    rw [hlogger l hl]
    exact Option.some_ne_none _
  · intro l hl a ha _
    rw [hlogger l hl] at ha ⊢
    have ha0 : a = 0 := by simpa [LogConfig.init, LoggerManager.init, addAppender, setLogger] using ha
    rw [ha0]
    simp [LogConfig.init, LoggerManager.init, addAppender, setLogger, setAppender]
  · intro a ha htrue
    have ha0 : a = 0 := Nat.lt_one_iff.1 ha
    rw [ha0] at htrue
    simp [LogConfig.init, LoggerManager.init, addAppender, setLogger, setAppender] at htrue
  · intro l hl k hk _ _ _
    rw [hlogger l hl, hlogger k hk]
  · show Function.update (fun _ => none) "root" (some 0) "root" = some 0
    exact Function.update_self ..
  · intro name l hl hne
    have hlt := (LogConfig.init_wf.found name l hl).1
    exact absurd (hlogger l hlt) hne

theorem init_tracks : LogConfig.init.Tracks .init := by
  refine ⟨init_printable, rfl, fun k => ?_⟩
  by_cases hk : k = "root"
  · subst hk
    rw [viewAt_some init_printable.root]
    simp [LoggerManager.view, LogService.init, LogSetting.view, AppenderSetting.view, LogAppender.view,
      LogConfig.init, LoggerManager.init, addAppender, setLogger, setAppender]
  · have hnone : LogConfig.init.loggers.m_loggers k = none := by
      simp [LogConfig.init, LoggerManager.init, Function.update_of_ne hk]
    rw [viewAt_none hnone]
    simp [LoggerManager.view, LogService.init, LogSetting.view, hk]

/-- **The loggers refine the log service**: over every sequence of statements, changes to loggers and
assignments to `logs`, they write the lines that the service writes, and a sequence that the service
does not accept ends the process. -/
theorem log_refines (strftime : String → UInt64 → String) (depth : ℕ) (calls : List LoggerCall) :
    (answers (LoggerCall.answer strftime (depth + 2)) .init calls).map Prod.fst =
      (answers (LogService.answer strftime) .init calls).map Prod.fst :=
  (answer_agrees depth).answers calls init_tracks

end Coroutine
