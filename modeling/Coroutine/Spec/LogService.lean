import Coroutine.Spec.LogPrint

/-!
# What the loggers are for

`LogService` says it without loggers, appenders and the registry: under each name there is a
`LogSetting`, and a statement prints by the setting of the name it is made for, or by the root's.

`LoggerCall.answer` is a call on the loggers themselves, by name, with the lines that it writes. The
appenders that a program adds are its own, and their formatters are set before they are added; the
messages about an invalid pattern are left out.
-/

namespace Coroutine

/-- What a program does with loggers. `event` is what `LogEvent` is made of. -/
inductive LoggerCall where
  /-- `DUAN_LOG_LEVEL(DUAN_LOG_NAME(name), level)` -/
  | log (name : String) (level : LogLevel) (event : LogEvent)
  /-- `DUAN_LOG_NAME(name)->SetLevel(val)`, and so on -/
  | SetLevel (name : String) (val : LogLevel)
  | setFormatter (name val : String)
  | clearAppenders (name : String)
  | addAppender (name : String) (kind : AppenderKind) (level : LogLevel) (own : Option LogFormatter)
  /-- An assignment to the `logs` variable, whose listener makes `event`. -/
  | setValue (v : LogDefines) (event : LogEvent)

/-! ## The service -/

/-- An appender, with its own formatter if it has one. -/
structure AppenderSetting where
  kind : AppenderKind
  level : LogLevel
  formatter : Option LogFormatter
  deriving DecidableEq

/-- A logger. -/
structure LogSetting where
  level : LogLevel := .DEBUG
  formatter : LogFormatter := .init "%d\x7b%Y-%m-%d %H:%M:%S\x7d%T%t%T%N%T%F%T[%p]%T[%c]%T%f:%l%T%m%n"
  appenders : List AppenderSetting := []

/-- The settings by name, and the definitions last assigned. -/
structure LogService where
  setting : String → LogSetting
  defs : LogDefines

/-- A pattern that is not in error. -/
def LogFormatter.valid (pattern : String) : Option LogFormatter :=
  if (init pattern).m_error then none else some (init pattern)

/-- The pattern of a definition; an empty one sets nothing. -/
def LogFormatter.configured (pattern : String) : Option LogFormatter :=
  if pattern = "" then none else valid pattern

/-- The appender of a definition. -/
def LogAppenderDfine.setting (a : LogAppenderDfine) : Option AppenderSetting :=
  a.kind.map fun kind => ⟨kind, a.level, LogFormatter.configured a.formatter⟩

/-- A setting that a definition is applied to. -/
def LogDefine.setting (i : LogDefine) (x : LogSetting) : LogSetting where
  level := i.level
  formatter := (LogFormatter.configured i.formatter).getD x.formatter
  appenders := i.appenders.filterMap LogAppenderDfine.setting

variable (strftime : String → UInt64 → String)

/-- What a logger's appenders write of an event that was made under `name`. -/
def LogSetting.lines (x : LogSetting) (name : String) (level : LogLevel) (event : LogEvent) :
    List LogLine :=
  x.appenders.flatMap fun ap =>
    if ap.level ≤ level then
      [⟨ap.kind, (ap.formatter.getD x.formatter).format strftime name level event⟩]
    else []

namespace LogService

/-- **What a statement writes.** -/
def log (t : LogService) (name : String) (level : LogLevel) (event : LogEvent) : List LogLine :=
  let x := t.setting name
  if level < x.level then []
  else if x.appenders ≠ [] then x.lines strftime name level event
  else if level < (t.setting "root").level then []
  else (t.setting "root").lines strftime name level event

/-- The setting under `name` changes. -/
def edit (t : LogService) (name : String) (f : LogSetting → LogSetting) : LogService :=
  { t with setting := fun k => if k = name then f (t.setting k) else t.setting k }

/-- The settings after an assignment: a definition counts where the old set has its name, and a name
that is gone falls silent. -/
def reload (t : LogService) (v : LogDefines) (k : String) : LogSetting :=
  match t.defs.defs.find? (·.name = k), v.defs.find? (·.name = k) with
  | some _, some i => i.setting (t.setting k)
  | some _, none => { t.setting k with level := 100, appenders := [] }
  | none, _ => t.setting k

/-- An assignment that the listener gets through: no definition was there before, and each appender is
of some class. -/
def Accepts (t : LogService) (v : LogDefines) : Prop :=
  ∀ i ∈ v.defs, i ∉ t.defs.defs ∧ ∀ a ∈ i.appenders, a.kind.isSome

instance (t : LogService) (v : LogDefines) : Decidable (t.Accepts v) :=
  inferInstanceAs (Decidable (∀ i ∈ v.defs, _ ∧ _))

/-- **A call.** -/
def answer (t : LogService) : LoggerCall → Except Fault (List LogLine × LogService)
  | .log name level event => .ok (t.log strftime name level event, t)
  | .SetLevel name val => .ok ([], t.edit name fun x => { x with level := val })
  | .setFormatter name val =>
    .ok ([], t.edit name fun x => { x with formatter := (LogFormatter.valid val).getD x.formatter })
  | .clearAppenders name => .ok ([], t.edit name fun x => { x with appenders := [] })
  | .addAppender name kind level own =>
    .ok ([], t.edit name fun x => { x with appenders := x.appenders ++ [⟨kind, level, own⟩] })
  | .setValue v event =>
    if v = t.defs then .ok ([], t)
    else if t.Accepts v then
      .ok (t.log strftime "root" .INFO { event with m_ss := "on_logger_conf_changed" },
        { setting := t.reload v, defs := v })
    else .error .undefined

/-- As constructed, only the root logger has an appender. -/
def init : LogService where
  setting := fun name =>
    if name = "root" then { appenders := [⟨.StdoutLogAppender, .DEBUG, none⟩] } else {}
  defs := LogConfig.init.m_val

end LogService

/-! ## The loggers -/

/-- Other loggers, the variable kept. -/
def LogConfig.setLoggers (c : LogConfig) (s : LoggerManager) : LogConfig := { c with loggers := s }

/-- A call on the loggers, `m_root` followed as often as `depth` says. -/
def LoggerCall.answer (depth : ℕ) (c : LogConfig) : LoggerCall → Except Fault (List LogLine × LogConfig)
  | .log name level event =>
    let (l, s) := c.loggers.getLogger name
    (s.logLevel strftime depth l level event).map fun lines => (lines, c.setLoggers s)
  | .SetLevel name val =>
    let (l, s) := c.loggers.getLogger name
    .ok ([], c.setLoggers (s.SetLevel l val))
  | .setFormatter name val =>
    let (l, s) := c.loggers.getLogger name
    .ok ([], c.setLoggers (s.setFormatter l val))
  | .clearAppenders name =>
    let (l, s) := c.loggers.getLogger name
    .ok ([], c.setLoggers (s.clearAppenders l))
  | .addAppender name kind level own =>
    let (l, s) := c.loggers.getLogger name
    let ap := LogAppender.setFormatter { kind := kind, m_level := level } own
    .ok ([], c.setLoggers ((s.newAppender ap).addAppender l s.nappender))
  | .setValue v event =>
    if v = c.m_val then .ok ([], c)
    else
      -- the listener begins with a line on the root logger
      (c.loggers.logLevel strftime depth c.loggers.m_root .INFO
        { event with m_ss := "on_logger_conf_changed" }).bind fun lines =>
          (c.setValue v).map fun c' => (lines, c')

end Coroutine
