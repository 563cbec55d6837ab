import Coroutine.Spec.Base
import Coroutine.Spec.LogFormat
import Mathlib.Logic.Function.Basic

/-!
# Loggers and the `logs` variable (`log.h`, `log.cc`, `config.h`)

`Logger` and `LogAppender` objects live in two heaps indexed by identity; a `LoggerManager`
is the heaps with its registry. The listener of the `logs` variable is run by `setValue`; a
null pointer it dereferences ends the process. What a file appender writes is left out.
-/

namespace Coroutine

/-- `LogLevel::Level`; the listener also casts 100 to it. -/
abbrev LogLevel := ℕ

namespace LogLevel

def UNKNOW : LogLevel := 0
def DEBUG : LogLevel := 1
def INFO : LogLevel := 2
def WARN : LogLevel := 3
def ERROR : LogLevel := 4
def FATAL : LogLevel := 5

end LogLevel

/-- The class of an appender, with its `m_filename`. -/
inductive AppenderKind where
  | StdoutLogAppender
  | FileLogAppender (m_filename : String)
  deriving DecidableEq, Repr

/-- `LogAppender`. -/
structure LogAppender where
  kind : AppenderKind
  m_level : LogLevel := .DEBUG
  m_hasFormatter : Bool := false
  m_formatter : Option LogFormatter := none
  deriving DecidableEq, Repr

/-- `LogAppender::setFormatter`. -/
def LogAppender.setFormatter (ap : LogAppender) (val : Option LogFormatter) : LogAppender :=
  { ap with m_formatter := val, m_hasFormatter := val.isSome }

/-- `Logger`. -/
structure Logger where
  m_name : String
  m_level : LogLevel := .DEBUG
  m_appenders : List ℕ := []
  m_formatter : Option LogFormatter :=
    some (.init "%d\x7b%Y-%m-%d %H:%M:%S\x7d%T%t%T%N%T%F%T[%p]%T[%c]%T%f:%l%T%m%n")
  m_root : Option ℕ := none
  deriving DecidableEq, Repr

/-- `LoggerManager`, with the loggers and appenders there are. -/
structure LoggerManager where
  logger : ℕ → Logger
  nlogger : ℕ
  appender : ℕ → LogAppender
  nappender : ℕ
  m_loggers : String → Option ℕ
  m_root : ℕ

namespace LoggerManager

/-- Write to a logger. -/
def setLogger (s : LoggerManager) (l : ℕ) (x : Logger) : LoggerManager :=
  { s with logger := Function.update s.logger l x }

/-- Write to an appender. -/
def setAppender (s : LoggerManager) (a : ℕ) (ap : LogAppender) : LoggerManager :=
  { s with appender := Function.update s.appender a ap }

/-- `new Logger`; its name is `s.nlogger`. -/
def newLogger (s : LoggerManager) (x : Logger) : LoggerManager :=
  { s.setLogger s.nlogger x with nlogger := s.nlogger + 1 }

/-- A new appender; its name is `s.nappender`. -/
def newAppender (s : LoggerManager) (ap : LogAppender) : LoggerManager :=
  { s.setAppender s.nappender ap with nappender := s.nappender + 1 }

/-! ## `Logger` -/

/-- `Logger::SetLevel`. -/
def SetLevel (s : LoggerManager) (l : ℕ) (val : LogLevel) : LoggerManager :=
  s.setLogger l { s.logger l with m_level := val }

/-- `Logger::clearAppenders`. -/
def clearAppenders (s : LoggerManager) (l : ℕ) : LoggerManager :=
  s.setLogger l { s.logger l with m_appenders := [] }

/-- `Logger::addAppender`. -/
def addAppender (s : LoggerManager) (l a : ℕ) : LoggerManager :=
  let ap := s.appender a
  let ap := if ap.m_formatter.isNone then { ap with m_formatter := (s.logger l).m_formatter } else ap
  (s.setAppender a ap).setLogger l
    { s.logger l with m_appenders := (s.logger l).m_appenders ++ [a] }

/-- An appender without a formatter of its own takes `val`. -/
def inherit (val : Option LogFormatter) (s : LoggerManager) (a : ℕ) : LoggerManager :=
  if (s.appender a).m_hasFormatter then s
  else s.setAppender a { s.appender a with m_formatter := val }

/-- `Logger::setFormatter(LogFormatter::ptr)`. -/
def setFormatterPtr (s : LoggerManager) (l : ℕ) (val : Option LogFormatter) : LoggerManager :=
  (s.logger l).m_appenders.foldl (inherit val) (s.setLogger l { s.logger l with m_formatter := val })

/-- `Logger::setFormatter(const std::string&)`. -/
def setFormatter (s : LoggerManager) (l : ℕ) (val : String) : LoggerManager :=
  let new_val := LogFormatter.init val
  if new_val.m_error then s else s.setFormatterPtr l (some new_val)

/-! ## The registry -/

/-- `LoggerManager::LoggerManager`. -/
def init : LoggerManager :=
  let s : LoggerManager :=
    { logger := fun _ => { m_name := "root" }, nlogger := 1
      appender := fun _ => { kind := .StdoutLogAppender }, nappender := 1
      m_loggers := fun _ => none, m_root := 0 }
  { s.addAppender 0 0 with m_loggers := Function.update s.m_loggers "root" (some 0) }

/-- `LoggerManager::getLogger`. -/
def getLogger (s : LoggerManager) (name : String) : ℕ × LoggerManager :=
  match s.m_loggers name with
  | some l => (l, s)
  | none =>
    (s.nlogger, { s.newLogger { m_name := name, m_root := some s.m_root } with
      m_loggers := Function.update s.m_loggers name (some s.nlogger) })

end LoggerManager

/-! ## Definitions -/

/-- `LogAppenderDfine`. -/
structure LogAppenderDfine where
  type : ℤ := 0
  level : LogLevel := .UNKNOW
  formatter : String := ""
  file : String := ""
  deriving DecidableEq, Repr

namespace LogAppenderDfine

/-- The class of an appender of type `type`; for another type the pointer stays null. -/
def kind (a : LogAppenderDfine) : Option AppenderKind :=
  if a.type = 1 then some (.FileLogAppender a.file)
  else if a.type = 2 then some .StdoutLogAppender
  else none

/-- The appender of a definition, before it is added. -/
def appender (a : LogAppenderDfine) (kind : AppenderKind) : LogAppender :=
  let ap : LogAppender := { kind := kind, m_level := a.level }
  if a.formatter = "" then ap
  else
    let fmt := LogFormatter.init a.formatter
    if fmt.m_error then ap else ap.setFormatter (some fmt)

end LogAppenderDfine

/-- `LogDefine`. -/
structure LogDefine where
  name : String
  level : LogLevel := .UNKNOW
  formatter : String := ""
  appenders : List LogAppenderDfine := []
  deriving DecidableEq, Repr

/-- `std::set<LogDefine>`: ordered by name, so that no two share one. -/
structure LogDefines where
  defs : List LogDefine
  ordered : (defs.map (·.name)).Pairwise (· < ·)
  deriving DecidableEq

namespace LogDefines

/-- `find`, which goes by the name. -/
def find (v : LogDefines) (i : LogDefine) : Option LogDefine := v.defs.find? (·.name = i.name)

end LogDefines

/-! ## The listener -/

namespace LoggerManager

/-- The loop over the appenders of a definition. -/
def addDefined (l : ℕ) (s : LoggerManager) (a : LogAppenderDfine) : Except Fault LoggerManager :=
  match a.kind with
  | none => .error .undefined
  | some kind => .ok ((s.newAppender (a.appender kind)).addAppender l s.nappender)

/-- What the listener does with a logger for definition `i`. -/
def configure (s : LoggerManager) (l : ℕ) (i : LogDefine) : Except Fault LoggerManager :=
  let s := s.SetLevel l i.level
  let s := if i.formatter = "" then s else s.setFormatter l i.formatter
  i.appenders.foldlM (addDefined l) (s.clearAppenders l)

/-- The first loop of the listener. -/
def define (old_value : LogDefines) (s : LoggerManager) (i : LogDefine) :
    Except Fault LoggerManager :=
  match old_value.find i with
  | none => (s.newLogger { m_name := i.name }).configure s.nlogger i
  | some it =>
    -- an equal definition leaves the pointer null
    if i = it then .error .undefined
    else (s.getLogger i.name).2.configure (s.getLogger i.name).1 i

/-- The second loop of the listener. -/
def remove (new_value : LogDefines) (s : LoggerManager) (i : LogDefine) : LoggerManager :=
  match new_value.find i with
  | some _ => s
  | none =>
    ((s.getLogger i.name).2.SetLevel (s.getLogger i.name).1 100).clearAppenders
      (s.getLogger i.name).1

/-- The listener of `LogIniter`. -/
def logIniter (s : LoggerManager) (old_value new_value : LogDefines) : Except Fault LoggerManager :=
  (new_value.defs.foldlM (define old_value) s).map fun s =>
    old_value.defs.foldl (remove new_value) s

end LoggerManager

/-- The `logs` variable with its listener, and the loggers. -/
structure LogConfig where
  loggers : LoggerManager
  m_val : LogDefines

/-- `ConfigVar::setValue`. -/
def LogConfig.setValue (c : LogConfig) (v : LogDefines) : Except Fault LogConfig :=
  if v = c.m_val then .ok c
  else (c.loggers.logIniter c.m_val v).map fun s => { loggers := s, m_val := v }

/-- The variable as looked up first, with the manager as constructed. -/
def LogConfig.init : LogConfig := { loggers := .init, m_val := { defs := [], ordered := .nil } }

/-- An assignment in a run; after a fault nothing more happens. -/
def LogConfig.step (c : Except Fault LogConfig) (v : LogDefines) : Except Fault LogConfig :=
  c.bind fun c => c.setValue v

end Coroutine
