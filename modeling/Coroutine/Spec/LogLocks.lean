import Coroutine.Lib.Locks
import Coroutine.Spec.LogFormatters
import Coroutine.Spec.LogPrint
import Coroutine.Spec.LogRecover

/-!
# The mutexes of the log module (`log.h`, `log.cc`)

Threads call the functions of loggers, appenders and the `LoggerManager`, each of which takes its
mutexes where the source does. The constructor of a `ScopedLockImpl` is a `lock`, its destructor an
`unlock`; what lies between two of these is one instruction. An instruction puts the commands of
what it calls in its place.

What `toYamlString` prints is left out, and so are results nobody locks for.
-/

namespace Coroutine

open Lib

/-- A `Mutex` of the module: the manager's, a logger's or an appender's. -/
inductive LogMutex where
  | manager
  | logger (l : ℕ)
  | appender (a : ℕ)
  deriving DecidableEq, Repr

/-- The loggers with the streams of the file appenders and what was printed. -/
structure LogWorld where
  loggers : LoggerManager
  m_filestream : ℕ → BufferedStream
  m_lastTime : ℕ → ℕ
  cout : List String

/-- A part of a function, between its locks. `now` is `time(0)` as each appender reads it, and `os`
how the operating system answers it. -/
inductive LogInstr where
  | log (l : ℕ) (level : LogLevel) (event : LogEvent) (now : ℕ → ℕ) (os : ℕ → OsAnswer)
  | logEach (l : ℕ) (level : LogLevel) (event : LogEvent) (now : ℕ → ℕ) (os : ℕ → OsAnswer)
  | appenderLog (a : ℕ) (level : LogLevel) (event : LogEvent) (now : ℕ) (os : OsAnswer)
  | reopen (a : ℕ) (os : OsAnswer)
  | setLastTime (a now : ℕ)
  | print (a : ℕ) (level : LogLevel) (event : LogEvent) (os : OsAnswer)
  | checkFormatter (l a : ℕ)
  | giveFormatter (l a : ℕ)
  | pushAppender (l a : ℕ)
  | eraseAppender (l a : ℕ)
  | clear (l : ℕ)
  | setFormatter (l : ℕ) (val : Option LogFormatter)
  | inherit (a : ℕ) (val : Option LogFormatter)
  | parseFormatter (l : ℕ) (val : String)
  | setAppenderFormatter (a : ℕ) (val : Option LogFormatter)
  | setLevel (l : ℕ) (val : LogLevel)
  | setAppenderLevel (a : ℕ) (val : LogLevel)
  | yaml (l : ℕ)
  | yamlAll
  | getLogger (name : String)
  | newLogger (name : String)
  | newAppender (kind : AppenderKind) (os : OsAnswer)

/-- A command of the module. -/
abbrev LogCmd := Cmd LogMutex LogInstr

/-- `MutexType::Lock lock(mutex)` around `body`. -/
def LogCmd.locked (mutex : LogMutex) (body : List LogCmd) : List LogCmd :=
  .lock mutex :: body ++ [.unlock mutex]

namespace LogWorld

/-- New loggers and appenders. -/
def setLoggers (w : LogWorld) (s : LoggerManager) : LogWorld := { w with loggers := s }

/-- `Logger::setFormatter(LogFormatter::ptr)`. -/
def setFormatterPtr (l : ℕ) (val : Option LogFormatter) : List LogCmd :=
  LogCmd.locked (.logger l) [.run (.setFormatter l val)]

/-- `Logger::toYamlString`. -/
def toYamlString (l : ℕ) : List LogCmd := LogCmd.locked (.logger l) [.run (.yaml l)]

/-- The loggers of `m_loggers`, in the order of their names. -/
def registered (s : LoggerManager) : List ℕ :=
  ((List.range s.nlogger).filter fun l => s.m_loggers (s.logger l).m_name = some l).mergeSort
    fun l l' => (s.logger l).m_name ≤ (s.logger l').m_name

variable (strftime : String → UInt64 → String)

/-- What an instruction does, and the commands it goes on with. -/
def exec : LogInstr → LogWorld → LogWorld × List LogCmd
  | .log l level event now os, w =>
    if (w.loggers.logger l).m_level ≤ level then
      (w, LogCmd.locked (.logger l) [.run (.logEach l level event now os)])
    else (w, [])
  | .logEach l level event now os, w =>
    let x := w.loggers.logger l
    if x.m_appenders ≠ [] then
      (w, x.m_appenders.map fun a => .run (.appenderLog a level event (now a) (os a)))
    else
      match x.m_root with
      | some root => (w, [.run (.log root level event now os)])
      | none => (w, [])
  | .appenderLog a level event now os, w =>
    let ap := w.loggers.appender a
    if ap.m_level ≤ level then
      let print := LogCmd.locked (.appender a) [.run (.print a level event os)]
      match ap.kind with
      | .StdoutLogAppender => (w, print)
      | .FileLogAppender _ =>
        if now ≠ w.m_lastTime a then
          (w, LogCmd.locked (.appender a) [.run (.reopen a os)] ++ .run (.setLastTime a now) :: print)
        else (w, print)
    else (w, [])
  | .reopen a os, w =>
    let f := w.m_filestream a
    let f := if ¬ f.fail then f.close os else f
    ({ w with m_filestream := Function.update w.m_filestream a (f.openFile os) }, [])
  | .setLastTime a now, w => ({ w with m_lastTime := Function.update w.m_lastTime a now }, [])
  | .print a level event os, w =>
    let ap := w.loggers.appender a
    let name := (w.loggers.logger event.m_logger).m_name
    -- a null formatter, which the source dereferences, prints nothing here
    let text := (ap.m_formatter.map fun fmt => fmt.format strftime name level event).getD ""
    match ap.kind with
    | .StdoutLogAppender => ({ w with cout := w.cout ++ [text] }, [])
    | .FileLogAppender _ =>
      let f := (w.m_filestream a).write filebufSpills os text
      ({ w with
        m_filestream := Function.update w.m_filestream a f
        cout := if f.fail then w.cout ++ ["error\n"] else w.cout }, [])
  | .checkFormatter l a, w =>
    -- `getFormatter` releases the appender before the test of what it returned
    (w, .unlock (.appender a) ::
      if (w.loggers.appender a).m_formatter.isNone then
        LogCmd.locked (.appender a) [.run (.giveFormatter l a)]
      else [])
  | .giveFormatter l a, w =>
    (w.setLoggers (w.loggers.setAppender a
      { w.loggers.appender a with m_formatter := (w.loggers.logger l).m_formatter }), [])
  | .pushAppender l a, w =>
    let x := w.loggers.logger l
    (w.setLoggers (w.loggers.setLogger l { x with m_appenders := x.m_appenders ++ [a] }), [])
  | .eraseAppender l a, w => (w.setLoggers (w.loggers.delAppender l a), [])
  | .clear l, w => (w.setLoggers (w.loggers.clearAppenders l), [])
  | .setFormatter l val, w =>
    let x := w.loggers.logger l
    (w.setLoggers (w.loggers.setLogger l { x with m_formatter := val }),
      x.m_appenders.flatMap fun a => LogCmd.locked (.appender a) [.run (.inherit a val)])
  | .inherit a val, w => (w.setLoggers (LoggerManager.inherit val w.loggers a), [])
  | .parseFormatter l val, w =>
    let new_val := LogFormatter.init val
    if new_val.m_error then
      ({ w with cout := w.cout ++ ["Logger setFormatter name=" ++ (w.loggers.logger l).m_name ++
        " value=" ++ val ++ " invalid formatter\n"] }, [])
    else (w, setFormatterPtr l (some new_val))
  | .setAppenderFormatter a val, w =>
    (w.setLoggers (w.loggers.setAppender a ((w.loggers.appender a).setFormatter val)), [])
  | .setLevel l val, w => (w.setLoggers (w.loggers.SetLevel l val), [])
  | .setAppenderLevel a val, w =>
    (w.setLoggers (w.loggers.setAppender a { w.loggers.appender a with m_level := val }), [])
  | .yaml l, w =>
    (w, (w.loggers.logger l).m_appenders.flatMap fun a => LogCmd.locked (.appender a) [])
  | .yamlAll, w => (w, (registered w.loggers).flatMap toYamlString)
  | .getLogger name, w => (w.setLoggers (w.loggers.getLogger name).2, [])
  | .newLogger name, w => (w.setLoggers (w.loggers.newLogger { m_name := name }), [])
  | .newAppender kind os, w =>
    let a := w.loggers.nappender
    let w := w.setLoggers (w.loggers.newAppender { kind := kind })
    match kind with
    | .StdoutLogAppender => (w, [])
    | .FileLogAppender _ => (w, LogCmd.locked (.appender a) [.run (.reopen a os)])

/-- The manager as constructed; the files hold what they hold. -/
def init (content : ℕ → String) : LogWorld where
  loggers := .init
  m_filestream := fun a => { content := content a }
  m_lastTime := fun _ => 0
  cout := []

end LogWorld

/-- A call of a public function. -/
inductive LogFn where
  | log (l : ℕ) (level : LogLevel) (event : LogEvent) (now : ℕ → ℕ) (os : ℕ → OsAnswer)
  | addAppender (l a : ℕ)
  | delAppender (l a : ℕ)
  | clearAppenders (l : ℕ)
  | SetLevel (l : ℕ) (val : LogLevel)
  | setFormatterPtr (l : ℕ) (val : Option LogFormatter)
  | setFormatter (l : ℕ) (val : String)
  | getFormatter (l : ℕ)
  | toYamlString (l : ℕ)
  | setAppenderFormatter (a : ℕ) (val : Option LogFormatter)
  | getAppenderFormatter (a : ℕ)
  | setAppenderLevel (a : ℕ) (val : LogLevel)
  | appenderToYamlString (a : ℕ)
  | reopen (a : ℕ) (os : OsAnswer)
  | getLogger (name : String)
  | managerToYamlString
  | newLogger (name : String)
  | newAppender (kind : AppenderKind) (os : OsAnswer)

/-- The commands of a call. -/
def LogFn.code : LogFn → List LogCmd
  | .log l level event now os => [.run (.log l level event now os)]
  | .addAppender l a =>
    LogCmd.locked (.logger l) [.lock (.appender a), .run (.checkFormatter l a), .run (.pushAppender l a)]
  | .delAppender l a => LogCmd.locked (.logger l) [.run (.eraseAppender l a)]
  | .clearAppenders l => LogCmd.locked (.logger l) [.run (.clear l)]
  | .SetLevel l val => [.run (.setLevel l val)]
  | .setFormatterPtr l val => LogWorld.setFormatterPtr l val
  | .setFormatter l val => [.run (.parseFormatter l val)]
  | .getFormatter l => LogCmd.locked (.logger l) []
  | .toYamlString l => LogWorld.toYamlString l
  | .setAppenderFormatter a val => LogCmd.locked (.appender a) [.run (.setAppenderFormatter a val)]
  | .getAppenderFormatter a => LogCmd.locked (.appender a) []
  | .setAppenderLevel a val => [.run (.setAppenderLevel a val)]
  | .appenderToYamlString a => LogCmd.locked (.appender a) []
  | .reopen a os => LogCmd.locked (.appender a) [.run (.reopen a os)]
  | .getLogger name => LogCmd.locked .manager [.run (.getLogger name)]
  | .managerToYamlString => LogCmd.locked .manager [.run .yamlAll]
  | .newLogger name => [.run (.newLogger name)]
  | .newAppender kind os => [.run (.newAppender kind os)]

end Coroutine
