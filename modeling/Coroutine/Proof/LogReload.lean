import Coroutine.Lib.Fold
import Coroutine.Lib.Run
import Coroutine.Spec.Log

/-!
# Reloading the `logs` variable

A logger is seen by its level, its formatter, and the class, level and own formatter of each of
its appenders (`LoggerView`). `viewAt s name` is what `getLogger(name)` returns, seen so.

* `Edit`: an operation on one logger, as a change of its view.
* `configure_edit`: the listener makes a logger's view that of the definition.
* `logIniter_view`: the listener does so for the definitions that are new and different under a
  name the old set has; a definition without one is applied to a logger that nobody has.
* `reload_iff`: so a run of assignments takes effect exactly when none brings an equal or, unless
  it is in force already, an added definition.
-/

namespace Coroutine

open Lib

/-- An appender, as far as a definition says. -/
structure AppenderView where
  kind : AppenderKind
  level : LogLevel
  own : Option LogFormatter
  deriving DecidableEq

/-- A logger, as far as a definition says. -/
structure LoggerView where
  level : LogLevel
  formatter : Option LogFormatter
  appenders : List AppenderView
  deriving DecidableEq

def LogAppender.view (ap : LogAppender) : AppenderView :=
  { kind := ap.kind, level := ap.m_level, own := if ap.m_hasFormatter then ap.m_formatter else none }

namespace LogAppenderDfine

/-- The view of the appender that definition `a` is for. -/
def view (a : LogAppenderDfine) (kind : AppenderKind) : AppenderView :=
  { kind := kind, level := a.level
    own := if a.formatter = "" ∨ (LogFormatter.init a.formatter).m_error then none
      else some (.init a.formatter) }

/-- Whatever the logger's formatter is, it does not show. -/
theorem appender_view (a : LogAppenderDfine) (kind : AppenderKind) (val : Option LogFormatter) :
    LogAppender.view (if (a.appender kind).m_formatter.isNone then
        { a.appender kind with m_formatter := val } else a.appender kind) = a.view kind := by
  unfold appender view
  dsimp only
  by_cases hempty : a.formatter = ""
  · simp [hempty, LogAppender.view]
  · by_cases herror : (LogFormatter.init a.formatter).m_error
    · simp [hempty, herror, LogAppender.view]
    · simp [hempty, herror, LogAppender.view, LogAppender.setFormatter]

end LogAppenderDfine

namespace LoggerManager

variable {s s' s'' : LoggerManager}

def view (s : LoggerManager) (x : Logger) : LoggerView :=
  { level := x.m_level, formatter := x.m_formatter
    appenders := x.m_appenders.map fun a => (s.appender a).view }

/-- The view of the logger that `getLogger(name)` returns. -/
def viewAt (s : LoggerManager) (name : String) : LoggerView :=
  (s.getLogger name).2.view ((s.getLogger name).2.logger (s.getLogger name).1)

/-- **A well-formed manager**: a registered logger exists and has the name it is registered
under, and appenders in use exist. -/
structure WF (s : LoggerManager) : Prop where
  found : ∀ name l, s.m_loggers name = some l → l < s.nlogger ∧ (s.logger l).m_name = name
  attached : ∀ l < s.nlogger, ∀ a ∈ (s.logger l).m_appenders, a < s.nappender

/-- **An operation on logger `l`** that changes its view by `g`, and no other logger's. -/
structure Edit (l : ℕ) (g : LoggerView → LoggerView) (s s' : LoggerManager) : Prop where
  wf : s'.WF
  registry : s'.m_loggers = s.m_loggers
  nlogger : s'.nlogger = s.nlogger
  self : s'.view (s'.logger l) = g (s.view (s.logger l))
  other : ∀ k < s.nlogger, k ≠ l → s'.view (s'.logger k) = s.view (s.logger k)

theorem Edit.trans {l : ℕ} {g g' : LoggerView → LoggerView} (h : Edit l g s s')
    (h' : Edit l g' s' s'') : Edit l (g' ∘ g) s s'' := by
  refine ⟨h'.wf, h'.registry.trans h.registry, h'.nlogger.trans h.nlogger, ?_, ?_⟩
  · rw [h'.self, h.self]; rfl
  · intro k hk hne
    rw [h'.other k (by rw [h.nlogger]; exact hk) hne, h.other k hk hne]

/-- Loggers and appenders that are not touched look the same. -/
theorem view_congr {x : Logger} (h : ∀ a ∈ x.m_appenders, (s'.appender a).view = (s.appender a).view) :
    s'.view x = s.view x := by
  unfold view
  rw [List.map_congr_left h]

/-- Writing to a logger, its name kept. -/
theorem setLogger_edit (hs : s.WF) {l : ℕ} (x : Logger) (g : LoggerView → LoggerView)
    (hname : x.m_name = (s.logger l).m_name) (happ : ∀ a ∈ x.m_appenders, a < s.nappender)
    (hview : s.view x = g (s.view (s.logger l))) : Edit l g s (s.setLogger l x) := by
  refine ⟨⟨?_, ?_⟩, rfl, rfl, ?_, ?_⟩
  · intro name k hk
    obtain ⟨hlt, hkname⟩ := hs.found name k hk
    refine ⟨hlt, ?_⟩
    by_cases hkl : k = l
    · subst hkl
      simp only [setLogger, Function.update_self]
      exact hname.trans hkname
    · simp only [setLogger, Function.update_of_ne hkl]
      exact hkname
  · intro k hk a ha
    by_cases hkl : k = l
    · subst hkl
      simp only [setLogger, Function.update_self] at ha
      exact happ a ha
    · simp only [setLogger, Function.update_of_ne hkl] at ha
      exact hs.attached k hk a ha
  · simp only [setLogger, Function.update_self]
    exact hview
  · intro k _ hkl
    simp only [setLogger, Function.update_of_ne hkl]
    rfl

theorem SetLevel_edit (hs : s.WF) {l : ℕ} (hl : l < s.nlogger) (val : LogLevel) :
    Edit l (fun v => { v with level := val }) s (s.SetLevel l val) :=
  setLogger_edit hs { s.logger l with m_level := val } _ rfl (hs.attached l hl) rfl

theorem clearAppenders_edit (hs : s.WF) (l : ℕ) :
    Edit l (fun v => { v with appenders := [] }) s (s.clearAppenders l) :=
  setLogger_edit hs { s.logger l with m_appenders := [] } _ rfl
    (fun _ ha => absurd ha List.not_mem_nil) rfl

/-- What appenders without a formatter of their own inherit does not show. -/
theorem inherit_foldl (val : Option LogFormatter) (as : List ℕ) (s : LoggerManager) :
    (as.foldl (inherit val) s).logger = s.logger ∧ (as.foldl (inherit val) s).nlogger = s.nlogger ∧
      (as.foldl (inherit val) s).nappender = s.nappender ∧
      (as.foldl (inherit val) s).m_loggers = s.m_loggers ∧
      ∀ a, ((as.foldl (inherit val) s).appender a).view = (s.appender a).view := by
  induction as generalizing s with
  | nil => exact ⟨rfl, rfl, rfl, rfl, fun _ => rfl⟩
  | cons a as ih =>
    obtain ⟨hlogger, hn, hna, hreg, hview⟩ := ih (inherit val s a)
    have hone : (inherit val s a).logger = s.logger ∧ (inherit val s a).nlogger = s.nlogger ∧
        (inherit val s a).nappender = s.nappender ∧ (inherit val s a).m_loggers = s.m_loggers ∧
        ∀ b, ((inherit val s a).appender b).view = (s.appender b).view := by
      unfold inherit
      split
      · exact ⟨rfl, rfl, rfl, rfl, fun _ => rfl⟩
      · rename_i hown
        refine ⟨rfl, rfl, rfl, rfl, fun b => ?_⟩
        by_cases hb : b = a
        · subst hb
          simp [setAppender, LogAppender.view, hown]
        · simp only [setAppender, Function.update_of_ne hb]
    exact ⟨hlogger.trans hone.1, hn.trans hone.2.1, hna.trans hone.2.2.1, hreg.trans hone.2.2.2.1,
      fun b => (hview b).trans (hone.2.2.2.2 b)⟩

theorem setFormatterPtr_edit (hs : s.WF) {l : ℕ} (hl : l < s.nlogger) (val : Option LogFormatter) :
    Edit l (fun v => { v with formatter := val }) s (s.setFormatterPtr l val) := by
  have hfirst := setLogger_edit hs { s.logger l with m_formatter := val }
    (fun v => { v with formatter := val }) rfl (hs.attached l hl) rfl
  obtain ⟨hlogger, hn, hna, hreg, hview⟩ := inherit_foldl val (s.logger l).m_appenders
    (s.setLogger l { s.logger l with m_formatter := val })
  refine ⟨⟨?_, ?_⟩, hreg, hn, ?_, ?_⟩
  · intro name k hk
    rw [setFormatterPtr, hreg] at hk
    rw [setFormatterPtr, hlogger, hn]
    exact hfirst.wf.found name k hk
  · intro k hk a ha
    rw [setFormatterPtr, hn] at hk
    rw [setFormatterPtr, hlogger] at ha
    rw [setFormatterPtr, hna]
    exact hfirst.wf.attached k hk a ha
  · rw [setFormatterPtr, hlogger, view_congr fun a _ => hview a]
    exact hfirst.self
  · intro k hk hne
    rw [setFormatterPtr, hlogger, view_congr fun a _ => hview a]
    exact hfirst.other k hk hne

/-- The formatter that `setFormatter(pattern)` leaves. -/
def formatterOr (pattern : String) (old : Option LogFormatter) : Option LogFormatter :=
  if pattern = "" ∨ (LogFormatter.init pattern).m_error then old else some (.init pattern)

/-- The listener's step for the formatter. -/
theorem setFormatter_edit (hs : s.WF) {l : ℕ} (hl : l < s.nlogger) (pattern : String) :
    Edit l (fun v => { v with formatter := formatterOr pattern v.formatter }) s
      (if pattern = "" then s else s.setFormatter l pattern) := by
  have hsame : Edit l (fun v => v) s s := ⟨hs, rfl, rfl, rfl, fun _ _ _ => rfl⟩
  unfold formatterOr
  by_cases hempty : pattern = ""
  · simpa [hempty] using hsame
  · rw [if_neg hempty]
    unfold setFormatter
    dsimp only
    by_cases herror : (LogFormatter.init pattern).m_error
    · simpa [herror] using hsame
    · simpa [hempty, herror] using setFormatterPtr_edit hs hl (some (.init pattern))

/-- **One appender of a definition.** -/
theorem addDefined_edit (hs : s.WF) {l : ℕ} (hl : l < s.nlogger) {a : LogAppenderDfine}
    {kind : AppenderKind} (hkind : a.kind = some kind) : ∃ s', addDefined l s a = .ok s' ∧
      Edit l (fun v => { v with appenders := v.appenders ++ [a.view kind] }) s s' := by
  refine ⟨_, by rw [addDefined, hkind], ?_⟩
  have hview := a.appender_view kind (s.logger l).m_formatter
  -- the new appender is nobody else's
  have hold : ∀ b < s.nappender, ((s.newAppender (a.appender kind)).addAppender l s.nappender).appender b =
      s.appender b := by
    intro b hb
    have hne : b ≠ s.nappender := Nat.ne_of_lt hb
    simp only [addAppender, newAppender, setAppender, setLogger, Function.update_of_ne hne]
  have hnew : (((s.newAppender (a.appender kind)).addAppender l s.nappender).appender
      s.nappender).view = a.view kind := by
    rw [← hview]
    simp only [addAppender, newAppender, setAppender, setLogger, Function.update_self]
  refine ⟨⟨?_, ?_⟩, rfl, rfl, ?_, ?_⟩
  · intro name k hk
    obtain ⟨hlt, hname⟩ := hs.found name k hk
    refine ⟨hlt, ?_⟩
    by_cases hkl : k = l
    · subst hkl
      simpa only [addAppender, newAppender, setAppender, setLogger, Function.update_self] using hname
    · simpa only [addAppender, newAppender, setAppender, setLogger, Function.update_of_ne hkl] using
        hname
  · intro k hk b hb
    show b < s.nappender + 1
    by_cases hkl : k = l
    · subst hkl
      simp only [addAppender, newAppender, setAppender, setLogger, Function.update_self,
        List.mem_append, List.mem_singleton] at hb
      rcases hb with hb | rfl
      · exact Nat.lt_succ_of_lt (hs.attached k hk b hb)
      · exact Nat.lt_succ_self _
    · simp only [addAppender, newAppender, setAppender, setLogger, Function.update_of_ne hkl] at hb
      exact Nat.lt_succ_of_lt (hs.attached k hk b hb)
  · have hlogger : ((s.newAppender (a.appender kind)).addAppender l s.nappender).logger l =
        { s.logger l with m_appenders := (s.logger l).m_appenders ++ [s.nappender] } := by
      simp only [addAppender, newAppender, setAppender, setLogger, Function.update_self]
    rw [hlogger]
    simp only [view, List.map_append, List.map_cons, List.map_nil, hnew]
    rw [List.map_congr_left fun b hb => by rw [hold b (hs.attached l hl b hb)]]
  · intro k hk hkl
    have hlogger : ((s.newAppender (a.appender kind)).addAppender l s.nappender).logger k =
        s.logger k := by
      simp only [addAppender, newAppender, setAppender, setLogger, Function.update_of_ne hkl]
    rw [hlogger]
    exact view_congr fun b hb => by rw [hold b (hs.attached k hk b hb)]

/-- The views of the appenders that the definitions `as` are for. -/
def appenderViews (as : List LogAppenderDfine) : List AppenderView :=
  as.filterMap fun a => a.kind.map a.view

/-- **The appenders of a definition**: one of no class is a null pointer. -/
theorem addDefined_foldlM {l : ℕ} (as : List LogAppenderDfine) (hs : s.WF) (hl : l < s.nlogger)
    (hkinds : ∀ a ∈ as, a.kind.isSome) : ∃ s', as.foldlM (addDefined l) s = .ok s' ∧
      Edit l (fun v => { v with appenders := v.appenders ++ appenderViews as }) s s' := by
  induction as generalizing s with
  | nil =>
    refine ⟨s, rfl, hs, rfl, rfl, ?_, fun _ _ _ => rfl⟩
    simp [appenderViews]
  | cons a as ih =>
    obtain ⟨kind, hkind⟩ := Option.isSome_iff_exists.1 (hkinds a List.mem_cons_self)
    obtain ⟨t, ht, hedit⟩ := addDefined_edit hs hl hkind
    obtain ⟨s', hs', hrest⟩ := ih hedit.wf (by rw [hedit.nlogger]; exact hl)
      fun b hb => hkinds b (List.mem_cons_of_mem a hb)
    refine ⟨s', by rw [List.foldlM_cons, ht]; exact hs', ?_⟩
    have hviews : appenderViews (a :: as) = a.view kind :: appenderViews as := by
      simp [appenderViews, hkind]
    have hboth := hedit.trans hrest
    rw [hviews]
    simpa [Function.comp_def] using hboth

theorem addDefined_foldlM_kinds {l : ℕ} {as : List LogAppenderDfine}
    (h : as.foldlM (addDefined l) s = .ok s') : ∀ a ∈ as, a.kind.isSome := by
  induction as generalizing s with
  | nil => exact fun a ha => absurd ha List.not_mem_nil
  | cons a as ih =>
    rw [List.foldlM_cons] at h
    cases hkind : a.kind with
    | none => rw [addDefined, hkind] at h; cases h
    | some kind =>
      rw [addDefined, hkind] at h
      exact List.forall_mem_cons.2 ⟨by rw [hkind]; rfl, ih h⟩

end LoggerManager

/-- A definition applied to a logger. -/
def LogDefine.applied (i : LogDefine) (v : LoggerView) : LoggerView :=
  { level := i.level, formatter := LoggerManager.formatterOr i.formatter v.formatter
    appenders := LoggerManager.appenderViews i.appenders }

namespace LoggerManager

variable {s s' : LoggerManager} {l : ℕ} {g : LoggerView → LoggerView} {name : String}

/-- **The listener's work on one logger** makes it what the definition says. -/
theorem configure_edit (hs : s.WF) (hl : l < s.nlogger) {i : LogDefine}
    (hkinds : ∀ a ∈ i.appenders, a.kind.isSome) :
    ∃ s', s.configure l i = .ok s' ∧ Edit l i.applied s s' := by
  have hlevel := SetLevel_edit hs hl i.level
  have hl' : l < (s.SetLevel l i.level).nlogger := by rw [hlevel.nlogger]; exact hl
  have hformatter := hlevel.trans (setFormatter_edit hlevel.wf hl' i.formatter)
  have hclear := hformatter.trans (clearAppenders_edit hformatter.wf l)
  obtain ⟨s', hs', hedit⟩ := addDefined_foldlM i.appenders hclear.wf
    (by rw [hclear.nlogger]; exact hl) hkinds
  refine ⟨s', hs', ?_⟩
  have hall := hclear.trans hedit
  have happlied : i.applied = fun v => { level := i.level
                                         formatter := formatterOr i.formatter v.formatter
                                         appenders := appenderViews i.appenders } := rfl
  rw [happlied]
  simpa [Function.comp_def] using hall

theorem configure_ok_iff (hs : s.WF) (hl : l < s.nlogger) {i : LogDefine} :
    (∃ s', s.configure l i = .ok s') ↔ ∀ a ∈ i.appenders, a.kind.isSome := by
  constructor
  · rintro ⟨s', h⟩
    exact addDefined_foldlM_kinds h
  · intro hkinds
    obtain ⟨s', hs', -⟩ := configure_edit hs hl hkinds
    exact ⟨s', hs'⟩

/-! ## Through the registry -/

theorem viewAt_some (h : s.m_loggers name = some l) : s.viewAt name = s.view (s.logger l) := by
  unfold viewAt getLogger
  rw [h]

/-- A logger created on demand looks the same under each name. -/
theorem viewAt_none (h : s.m_loggers name = none) :
    s.viewAt name = view .init { m_name := "" } := by
  unfold viewAt getLogger
  rw [h]
  simp [view, newLogger, setLogger]

/-- **A registered logger's name is the one whose view changes.** -/
theorem Edit.viewAt (h : Edit l g s s') (hs : s.WF) (hname : s.m_loggers name = some l) (k : String) :
    s'.viewAt k = if k = name then g (s.viewAt k) else s.viewAt k := by
  cases hk : s.m_loggers k with
  | none =>
    have hne : k ≠ name := by rintro rfl; rw [hname] at hk; cases hk
    rw [if_neg hne, viewAt_none hk, viewAt_none (by rw [h.registry]; exact hk)]
  | some j =>
    rw [viewAt_some hk, viewAt_some (by rw [h.registry]; exact hk)]
    by_cases hkn : k = name
    · subst hkn
      obtain rfl : j = l := Option.some.inj (hk.symm.trans hname)
      rw [if_pos rfl, h.self]
    · have hjl : j ≠ l := by
        rintro rfl
        exact hkn ((hs.found k j hk).2.symm.trans (hs.found name j hname).2)
      rw [if_neg hkn, h.other j (hs.found k j hk).1 hjl]

/-- A logger nobody has registered is nobody's view. -/
theorem Edit.viewAt_detached (h : Edit l g s s') (hs : s.WF) (hl : ∀ k, s.m_loggers k ≠ some l)
    (k : String) : s'.viewAt k = s.viewAt k := by
  cases hk : s.m_loggers k with
  | none => rw [viewAt_none hk, viewAt_none (by rw [h.registry]; exact hk)]
  | some j =>
    have hjl : j ≠ l := by rintro rfl; exact hl k hk
    rw [viewAt_some hk, viewAt_some (by rw [h.registry]; exact hk),
      h.other j (hs.found k j hk).1 hjl]

/-- A new logger has no appenders; the others are as they were. -/
theorem newLogger_wf (hs : s.WF) {x : Logger} (hx : x.m_appenders = []) : (s.newLogger x).WF ∧
    ∀ k < s.nlogger, (s.newLogger x).view ((s.newLogger x).logger k) = s.view (s.logger k) := by
  have hold : ∀ k < s.nlogger, (s.newLogger x).logger k = s.logger k := by
    intro k hk
    simp only [newLogger, setLogger, Function.update_of_ne (Nat.ne_of_lt hk)]
  refine ⟨⟨?_, ?_⟩, ?_⟩
  · intro name k hk
    obtain ⟨hlt, hname⟩ := hs.found name k hk
    exact ⟨Nat.lt_succ_of_lt hlt, by rw [hold k hlt]; exact hname⟩
  · intro k hk a ha
    rcases Nat.lt_succ_iff_lt_or_eq.1 hk with hlt | rfl
    · rw [hold k hlt] at ha
      exact hs.attached k hlt a ha
    · simp only [newLogger, setLogger, Function.update_self, hx] at ha
      exact absurd ha List.not_mem_nil
  · intro k hk
    rw [hold k hk]
    rfl

theorem newLogger_viewAt (hs : s.WF) {x : Logger} (hx : x.m_appenders = []) (k : String) :
    (s.newLogger x).viewAt k = s.viewAt k := by
  cases hk : s.m_loggers k with
  | none => exact (viewAt_none (s := s.newLogger x) hk).trans (viewAt_none hk).symm
  | some j =>
    rw [viewAt_some hk, viewAt_some (s := s.newLogger x) hk,
      (newLogger_wf hs hx).2 j (hs.found k j hk).1]

/-- **`getLogger` changes no view**, and what it returns is registered. -/
theorem getLogger_viewAt (hs : s.WF) (name : String) : (s.getLogger name).2.WF ∧
    (s.getLogger name).2.m_loggers name = some (s.getLogger name).1 ∧
    ∀ k, (s.getLogger name).2.viewAt k = s.viewAt k := by
  cases hname : s.m_loggers name with
  | some l =>
    have hget : s.getLogger name = (l, s) := by unfold getLogger; rw [hname]
    rw [hget]
    exact ⟨hs, hname, fun _ => rfl⟩
  | none =>
    have hget : s.getLogger name = (s.nlogger, { s.newLogger { m_name := name, m_root := some s.m_root } with
        m_loggers := Function.update s.m_loggers name (some s.nlogger) }) := by
      unfold getLogger; rw [hname]
    obtain ⟨hwf, hview⟩ := newLogger_wf hs (x := { m_name := name, m_root := some s.m_root }) rfl
    rw [hget]
    refine ⟨⟨?_, hwf.attached⟩, Function.update_self .., ?_⟩
    · intro k j hk
      by_cases hkn : k = name
      · subst hkn
        simp only [Function.update_self, Option.some.injEq] at hk
        subst hk
        exact ⟨Nat.lt_succ_self _, by simp [newLogger, setLogger]⟩
      · simp only [Function.update_of_ne hkn] at hk
        exact hwf.found k j hk
    · intro k
      by_cases hkn : k = name
      · subst hkn
        rw [viewAt_some (Function.update_self ..), viewAt_none hname]
        simp [view, newLogger, setLogger]
      · have hsame : Function.update s.m_loggers name (some s.nlogger) k = s.m_loggers k :=
          Function.update_of_ne hkn ..
        cases hk : s.m_loggers k with
        | none => rw [viewAt_none hk, viewAt_none (hsame.trans hk)]
        | some j =>
          rw [viewAt_some hk, viewAt_some (hsame.trans hk)]
          exact hview j (hs.found k j hk).1

end LoggerManager

namespace LogDefines

variable {v : LogDefines} {i it : LogDefine}

theorem names_nodup (v : LogDefines) : (v.defs.map (·.name)).Nodup := by
  refine v.ordered.imp fun hlt heq => ?_
  subst heq
  exact String.lt_irrefl _ hlt

theorem find_eq_some (hit : it ∈ v.defs) (hname : it.name = i.name) : v.find i = some it := by
  unfold find
  cases h : v.defs.find? (·.name = i.name) with
  | none =>
    have hnone := List.find?_eq_none.1 h it hit
    exact absurd hname (by simpa using hnone)
  | some e =>
    have he : e.name = i.name := by simpa using List.find?_some h
    rw [List.inj_on_of_nodup_map v.names_nodup (List.mem_of_find?_eq_some h) hit (he.trans hname.symm)]

theorem mem_of_find (h : v.find i = some it) : it ∈ v.defs ∧ it.name = i.name :=
  ⟨List.mem_of_find?_eq_some h, by simpa using List.find?_some h⟩

theorem find_eq_none : v.find i = none ↔ ∀ e ∈ v.defs, e.name ≠ i.name := by
  unfold find
  simp [List.find?_eq_none]

end LogDefines

namespace LoggerManager

variable {s s' : LoggerManager} {old new : LogDefines}

/-! ## The listener -/

/-- What the first loop does to the view under a definition's name: nothing, if the old set has
no such name. -/
def defined (old : LogDefines) (i : LogDefine) (v : LoggerView) : LoggerView :=
  if (old.find i).isSome then i.applied v else v

/-- What the second loop does. -/
def removed (new : LogDefines) (i : LogDefine) (v : LoggerView) : LoggerView :=
  if (new.find i).isSome then v else { v with level := 100, appenders := [] }

theorem define_view {i : LogDefine} (hs : s.WF) (h : define old s i = .ok s') :
    s'.WF ∧ ∀ k, s'.viewAt k = if k = i.name then defined old i (s.viewAt k) else s.viewAt k := by
  unfold define at h
  unfold defined
  split at h
  · -- an added definition: the logger it is applied to is in no registry
    rename_i hfind
    obtain ⟨hwf, -⟩ := newLogger_wf hs (x := { m_name := i.name }) rfl
    obtain ⟨t, ht, hedit⟩ := configure_edit hwf (Nat.lt_succ_self _) (addDefined_foldlM_kinds h)
    obtain rfl : t = s' := Except.ok.inj (ht.symm.trans h)
    have hfresh : ∀ k, (s.newLogger { m_name := i.name }).m_loggers k ≠ some s.nlogger :=
      fun k hk => absurd (hs.found k _ hk).1 (Nat.lt_irrefl _)
    refine ⟨hedit.wf, fun k => ?_⟩
    rw [hedit.viewAt_detached hwf hfresh, newLogger_viewAt hs rfl, hfind]
    simp
  · rename_i it hfind
    split at h
    · cases h
    obtain ⟨hwf, hreg, hview⟩ := getLogger_viewAt hs i.name
    obtain ⟨t, ht, hedit⟩ := configure_edit hwf (hwf.found _ _ hreg).1 (addDefined_foldlM_kinds h)
    obtain rfl : t = s' := Except.ok.inj (ht.symm.trans h)
    refine ⟨hedit.wf, fun k => ?_⟩
    rw [hedit.viewAt hwf hreg, hview, hfind]
    simp

/-- **When the step for a definition returns**: it is not an equal one, and each of its appenders
is of some class. -/
theorem define_ok_iff {i : LogDefine} (hs : s.WF) : (∃ s', define old s i = .ok s') ↔
    i ∉ old.defs ∧ ∀ a ∈ i.appenders, a.kind.isSome := by
  unfold define
  split
  · rename_i hfind
    have hnot : i ∉ old.defs := fun hi => LogDefines.find_eq_none.1 hfind i hi rfl
    obtain ⟨hwf, -⟩ := newLogger_wf hs (x := { m_name := i.name }) rfl
    rw [configure_ok_iff hwf (Nat.lt_succ_self _)]
    exact ⟨fun h => ⟨hnot, h⟩, fun h => h.2⟩
  · rename_i it hfind
    split
    · rename_i heq
      subst heq
      constructor
      · rintro ⟨s', hs'⟩; cases hs'
      · rintro ⟨hnot, -⟩; exact absurd (LogDefines.mem_of_find hfind).1 hnot
    · rename_i hne
      have hnot : i ∉ old.defs := by
        intro hi
        rw [LogDefines.find_eq_some hi rfl] at hfind
        exact hne (Option.some.inj hfind)
      obtain ⟨hwf, hreg, -⟩ := getLogger_viewAt hs i.name
      rw [configure_ok_iff hwf (hwf.found _ _ hreg).1]
      exact ⟨fun h => ⟨hnot, h⟩, fun h => h.2⟩

theorem remove_view {i : LogDefine} (hs : s.WF) : (remove new s i).WF ∧
    ∀ k, (remove new s i).viewAt k = if k = i.name then removed new i (s.viewAt k) else s.viewAt k := by
  unfold remove removed
  split
  · rename_i it hfind
    refine ⟨hs, fun k => ?_⟩
    simp [hfind]
  · rename_i hfind
    obtain ⟨hwf, hreg, hview⟩ := getLogger_viewAt hs i.name
    have hlevel := SetLevel_edit hwf (hwf.found _ _ hreg).1 100
    have hedit := hlevel.trans (clearAppenders_edit hlevel.wf (s.getLogger i.name).1)
    refine ⟨hedit.wf, fun k => ?_⟩
    rw [hedit.viewAt hwf hreg, hview, hfind]
    rfl

/-- **When the listener returns.** -/
theorem logIniter_ok_iff (hs : s.WF) : (∃ s', s.logIniter old new = .ok s') ↔
    ∀ i ∈ new.defs, i ∉ old.defs ∧ ∀ a ∈ i.appenders, a.kind.isSome := by
  have hwf : ∀ (t : LoggerManager) i t', t.WF → define old t i = .ok t' → t'.WF :=
    fun _ _ _ ht htt' => (define_view ht htt').1
  have hok : ∀ (t : LoggerManager) i, t.WF → ((∃ t', define old t i = .ok t') ↔
      i ∉ old.defs ∧ ∀ a ∈ i.appenders, a.kind.isSome) := fun _ _ ht => define_ok_iff ht
  rw [← foldlM_ok_iff hwf hok hs]
  unfold logIniter
  constructor
  · rintro ⟨s', h⟩
    cases hfold : new.defs.foldlM (define old) s with
    | error e => rw [hfold] at h; cases h
    | ok t => exact ⟨t, rfl⟩
  · rintro ⟨t, ht⟩
    rw [ht]
    exact ⟨_, rfl⟩

/-- **What the listener does** to the view under each name. -/
theorem logIniter_view (hs : s.WF) (h : s.logIniter old new = .ok s') : s'.WF ∧ ∀ k, s'.viewAt k =
    (old.defs.find? (·.name = k)).elim
      ((new.defs.find? (·.name = k)).elim (s.viewAt k) fun i => defined old i (s.viewAt k))
      fun i => removed new i
        ((new.defs.find? (·.name = k)).elim (s.viewAt k) fun i => defined old i (s.viewAt k)) := by
  unfold logIniter at h
  cases hfold : new.defs.foldlM (define old) s with
  | error e => rw [hfold] at h; cases h
  | ok t =>
    rw [hfold] at h
    cases h
    have hdefine : ∀ (s : LoggerManager) i s', s.WF → define old s i = .ok s' → s'.WF ∧
        ∀ k, s'.viewAt k = if k = i.name then defined old i (s.viewAt k) else s.viewAt k :=
      fun _ _ _ hs h => define_view hs h
    have hremove : ∀ (s : LoggerManager) i, s.WF → (remove new s i).WF ∧ ∀ k,
        (remove new s i).viewAt k = if k = i.name then removed new i (s.viewAt k) else s.viewAt k :=
      fun _ _ hs => remove_view hs
    obtain ⟨ht, hviewt⟩ := foldlM_keyed hdefine new.names_nodup hs hfold
    obtain ⟨hs', hview⟩ := foldl_keyed hremove old.names_nodup ht
    refine ⟨hs', fun k => ?_⟩
    rw [hview k, hviewt k]

end LoggerManager

/-! ## Taking effect -/

/-- An appender as its definition says; its own formatter, when that pattern is valid. -/
structure LogAppenderDfine.InForce (a : LogAppenderDfine) (ap : AppenderView) : Prop where
  kind : a.kind = some ap.kind
  level : ap.level = a.level
  own : a.formatter ≠ "" → (LogFormatter.init a.formatter).m_error = false →
    ap.own = some (.init a.formatter)

/-- **A definition is in force** on a logger: the level, the appenders one to one and in order,
and the formatter when the pattern is not empty and valid. -/
structure LogDefine.InForce (d : LogDefine) (v : LoggerView) : Prop where
  level : v.level = d.level
  appenders : List.Forall₂ LogAppenderDfine.InForce d.appenders v.appenders
  formatter : d.formatter ≠ "" → (LogFormatter.init d.formatter).m_error = false →
    v.formatter = some (.init d.formatter)

namespace LogDefines

/-- No definition of `v` has this name. -/
def Lacks (v : LogDefines) (name : String) : Prop := ∀ e ∈ v.defs, e.name ≠ name

end LogDefines

namespace LogConfig

/-- **The assignment of `v` takes effect**: it returns, and when it changed the variable, every
definition that is new or different is in force on the registered logger of its name, and the
logger of a name no longer there has no appenders and a level above `FATAL`. -/
def TakesEffect (c : Except Fault LogConfig) (v : LogDefines) : Prop :=
  ∃ c₀ c₁, c = .ok c₀ ∧ c₀.setValue v = .ok c₁ ∧ (v ≠ c₀.m_val →
    (∀ d ∈ v.defs, d ∉ c₀.m_val.defs → d.InForce (c₁.loggers.viewAt d.name)) ∧
    ∀ d ∈ c₀.m_val.defs, v.Lacks d.name →
      (c₁.loggers.viewAt d.name).appenders = [] ∧ .FATAL < (c₁.loggers.viewAt d.name).level)

/-- **What the listener can put in force**: `v` repeats no definition of the old set, each of its
appenders is a file or the standard output, and a definition under a name that the old set
does not have is in force already. -/
def Reloadable (c : Except Fault LogConfig) (v : LogDefines) : Prop :=
  ∃ c₀, c = .ok c₀ ∧ (v = c₀.m_val ∨ ∀ d ∈ v.defs, d ∉ c₀.m_val.defs ∧
    (∀ a ∈ d.appenders, a.kind.isSome) ∧
    (c₀.m_val.Lacks d.name → d.InForce (c₀.loggers.viewAt d.name)))

end LogConfig

theorem LogAppenderDfine.view_inForce {a : LogAppenderDfine} {kind : AppenderKind}
    (h : a.kind = some kind) : a.InForce (a.view kind) := by
  refine ⟨h, rfl, fun hne herror => ?_⟩
  simp [LogAppenderDfine.view, hne, herror]

theorem LoggerManager.appenderViews_inForce {as : List LogAppenderDfine}
    (h : ∀ a ∈ as, a.kind.isSome) :
    List.Forall₂ LogAppenderDfine.InForce as (LoggerManager.appenderViews as) := by
  induction as with
  | nil => exact .nil
  | cons a as ih =>
    obtain ⟨kind, hkind⟩ := Option.isSome_iff_exists.1 (h a List.mem_cons_self)
    have hviews : appenderViews (a :: as) = a.view kind :: appenderViews as := by
      simp [appenderViews, hkind]
    rw [hviews]
    exact .cons (LogAppenderDfine.view_inForce hkind) (ih fun b hb => h b (List.mem_cons_of_mem a hb))

/-- **A definition that is applied is in force**, whatever the logger was. -/
theorem LogDefine.applied_inForce {d : LogDefine} (h : ∀ a ∈ d.appenders, a.kind.isSome)
    (v : LoggerView) : d.InForce (d.applied v) := by
  refine ⟨rfl, LoggerManager.appenderViews_inForce h, fun hne herror => ?_⟩
  simp [LogDefine.applied, LoggerManager.formatterOr, hne, herror]

namespace LogConfig

open LoggerManager

variable {c c' : LogConfig} {v : LogDefines}

/-- **What an assignment that returns does.** -/
theorem setValue_view (hc : c.loggers.WF) (hv : v ≠ c.m_val) (h : c.setValue v = .ok c') :
    c'.loggers.WF ∧ c'.m_val = v ∧
    (∀ d ∈ v.defs, c'.loggers.viewAt d.name = defined c.m_val d (c.loggers.viewAt d.name)) ∧
    ∀ d ∈ c.m_val.defs, v.Lacks d.name →
      c'.loggers.viewAt d.name = { c.loggers.viewAt d.name with level := 100, appenders := [] } := by
  unfold setValue at h
  rw [if_neg hv] at h
  cases hinit : c.loggers.logIniter c.m_val v with
  | error e => rw [hinit] at h; cases h
  | ok s =>
    rw [hinit] at h
    cases h
    obtain ⟨hs, hview⟩ := logIniter_view hc hinit
    refine ⟨hs, rfl, ?_, ?_⟩
    · intro d hd
      have hnew : v.defs.find? (·.name = d.name) = some d := LogDefines.find_eq_some hd rfl
      rw [hview d.name, hnew]
      cases hold : c.m_val.defs.find? (·.name = d.name) with
      | none => rfl
      | some e =>
        -- the second loop finds `d` in the new set
        have he : e.name = d.name := (LogDefines.mem_of_find (i := d) hold).2
        simp [removed, LogDefines.find_eq_some hd he.symm]
    · intro d hd hlacks
      have hnew : v.defs.find? (·.name = d.name) = none := LogDefines.find_eq_none.2 hlacks
      have hold : c.m_val.defs.find? (·.name = d.name) = some d := LogDefines.find_eq_some hd rfl
      rw [hview d.name, hnew, hold]
      simp [removed, LogDefines.find_eq_none.2 hlacks]

theorem setValue_ok_iff (hc : c.loggers.WF) (hv : v ≠ c.m_val) : (∃ c', c.setValue v = .ok c') ↔
    ∀ d ∈ v.defs, d ∉ c.m_val.defs ∧ ∀ a ∈ d.appenders, a.kind.isSome := by
  rw [← logIniter_ok_iff hc]
  unfold setValue
  rw [if_neg hv]
  constructor
  · rintro ⟨c', h⟩
    cases hinit : c.loggers.logIniter c.m_val v with
    | error e => rw [hinit] at h; cases h
    | ok s => exact ⟨s, rfl⟩
  · rintro ⟨s, hs⟩
    rw [hs]
    exact ⟨_, rfl⟩

/-- The manager stays well formed. -/
theorem setValue_wf (hc : c.loggers.WF) (h : c.setValue v = .ok c') : c'.loggers.WF := by
  by_cases hv : v = c.m_val
  · rw [setValue, if_pos hv] at h
    cases h
    exact hc
  · exact (setValue_view hc hv h).1

/-- **One assignment.** -/
theorem takesEffect_iff (hc : c.loggers.WF) : TakesEffect (.ok c) v ↔ Reloadable (.ok c) v := by
  unfold TakesEffect Reloadable
  by_cases hv : v = c.m_val
  · have hset : c.setValue v = .ok c := by rw [setValue, if_pos hv]
    exact ⟨fun _ => ⟨c, rfl, .inl hv⟩, fun _ => ⟨c, c, rfl, hset, fun hne => absurd hv hne⟩⟩
  constructor
  · rintro ⟨c₀, c₁, hc₀, hset, heffect⟩
    obtain rfl := Except.ok.inj hc₀
    have hok := (setValue_ok_iff hc hv).1 ⟨c₁, hset⟩
    obtain ⟨-, -, hview, -⟩ := setValue_view hc hv hset
    refine ⟨c, rfl, .inr fun d hd => ⟨(hok d hd).1, (hok d hd).2, fun hlacks => ?_⟩⟩
    -- an added definition is applied to a logger that is not the registered one
    have hforce := (heffect hv).1 d hd (hok d hd).1
    have hnone : c.m_val.find d = none := LogDefines.find_eq_none.2 hlacks
    rw [hview d hd, defined, hnone] at hforce
    exact hforce
  · rintro ⟨c₀, hc₀, hcond⟩
    obtain rfl := Except.ok.inj hc₀
    have hcond := hcond.resolve_left hv
    obtain ⟨c₁, hset⟩ := (setValue_ok_iff hc hv).2 fun d hd => ⟨(hcond d hd).1, (hcond d hd).2.1⟩
    obtain ⟨-, -, hview, hgone⟩ := setValue_view hc hv hset
    refine ⟨c, c₁, rfl, hset, fun _ => ⟨fun d hd _ => ?_, fun d hd hlacks => ?_⟩⟩
    · rw [hview d hd, defined]
      cases hfind : c.m_val.find d with
      | none => exact (hcond d hd).2.2 (LogDefines.find_eq_none.1 hfind)
      | some it => exact LogDefine.applied_inForce (hcond d hd).2.1 _
    · have habove : LogLevel.FATAL < 100 := by decide
      rw [hgone d hd hlacks]
      exact ⟨rfl, habove⟩

/-- **Reloads that take effect.** A run of assignments, from any manager, takes effect
throughout exactly when each of them brings only what the listener can put in force. -/
theorem reload_iff (hc : c.loggers.WF) (vs : List LogDefines) :
    Along step TakesEffect (.ok c) vs ↔ Along step Reloadable (.ok c) vs := by
  have hwf : ∀ (c : Except Fault LogConfig) v, (∀ c₀, c = .ok c₀ → c₀.loggers.WF) →
      ∀ c₁, step c v = .ok c₁ → c₁.loggers.WF := by
    intro c v hc c₁ h
    cases c with
    | error e => cases h
    | ok c₀ => exact setValue_wf (hc c₀ rfl) h
  refine along_congr hwf (fun c v hc => ?_) vs fun c₀ hc₀ => ?_
  · cases c with
    | error e =>
      constructor
      · rintro ⟨c₀, -, hc₀, -⟩; cases hc₀
      · rintro ⟨c₀, hc₀, -⟩; cases hc₀
    | ok c₀ => exact takesEffect_iff (hc c₀ rfl)
  · cases hc₀
    exact hc

/-- The manager as constructed has a root logger. -/
theorem init_wf : LogConfig.init.loggers.WF := by
  refine ⟨?_, ?_⟩
  · intro name l h
    by_cases hname : name = "root"
    · subst hname
      have hl : l = 0 := by simpa [LogConfig.init, LoggerManager.init, eq_comm] using h
      subst hl
      exact ⟨by decide, by decide⟩
    · simp [LogConfig.init, LoggerManager.init, Function.update_of_ne hname] at h
  · intro l hl a ha
    have hl : l = 0 := Nat.lt_one_iff.1 hl
    subst hl
    simpa [LogConfig.init, LoggerManager.init, addAppender, setLogger, setAppender] using ha

/-- A set of one definition. -/
def one (d : LogDefine) : LogDefines := { defs := [d], ordered := List.pairwise_singleton .. }

/-- A logger named as it is, then given a level, a format and an appender, then removed. -/
theorem reload_system : Along step TakesEffect (.ok .init)
    [one { name := "system", level := .DEBUG },
      one { name := "system", level := .ERROR, formatter := "%d%T%m%n",
            appenders := [{ type := 2, level := .WARN }] },
      { defs := [], ordered := .nil }] := by
  refine (reload_iff init_wf _).2 ⟨⟨_, rfl, .inr ?_⟩, ⟨_, rfl, .inr ?_⟩, ⟨_, rfl, .inr ?_⟩, trivial⟩
  · intro d hd
    obtain rfl := List.mem_singleton.1 hd
    refine ⟨List.not_mem_nil, fun a ha => absurd ha List.not_mem_nil, fun _ => ⟨by decide, .nil, ?_⟩⟩
    exact fun hne => absurd rfl hne
  · intro d hd
    obtain rfl := List.mem_singleton.1 hd
    refine ⟨by decide, by decide, fun hlacks => ?_⟩
    exact absurd rfl (hlacks { name := "system", level := .DEBUG } List.mem_cons_self)
  · exact fun d hd => absurd hd List.not_mem_nil

/-- The definition of the root logger in the first value of the variable is applied to a logger of
its own, and the root logger stays at `DEBUG`. -/
theorem added_definition_ignored : ¬ Along step TakesEffect (.ok .init)
    [one { name := "root", level := .INFO, formatter := "%d%T%m%n",
           appenders := [{ type := 2, level := .DEBUG }] }] := by
  rintro ⟨⟨c₀, c₁, hc₀, hset, heffect⟩, -⟩
  cases hc₀
  cases hset
  have hforce := (heffect (by decide)).1 _ (List.mem_singleton.2 rfl) List.not_mem_nil
  exact absurd hforce.level (by decide)

end LogConfig

end Coroutine
