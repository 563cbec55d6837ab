import Coroutine.Spec.Log

/-!
# Formatters of loggers and appenders

Runs of the operations that attach appenders and set formatters, on loggers and appenders
that all exist from the start, as many as there are numbers. Beside them stands the formatter
last set on each appender itself, which is not in the source.
-/

namespace Coroutine

namespace LoggerManager

/-- `Logger::delAppender`. -/
def delAppender (s : LoggerManager) (l a : ℕ) : LoggerManager :=
  s.setLogger l { s.logger l with m_appenders := (s.logger l).m_appenders.erase a }

/-- Loggers and appenders as they are constructed. -/
def constructed (name : ℕ → String) (kind : ℕ → AppenderKind) : LoggerManager where
  logger := fun l => { m_name := name l }
  nlogger := 0
  appender := fun a => { kind := kind a }
  nappender := 0
  m_loggers := fun _ => none
  m_root := 0

end LoggerManager

/-- An operation on a logger or an appender. -/
inductive FormatterOp where
  | addAppender (l a : ℕ)
  | delAppender (l a : ℕ)
  | clearAppenders (l : ℕ)
  | setFormatterPtr (l : ℕ) (val : Option LogFormatter)
  | setFormatter (l : ℕ) (val : String)
  | setAppenderFormatter (a : ℕ) (val : Option LogFormatter)

/-- The loggers and appenders, and the formatter set last on each appender. -/
structure Formatters where
  loggers : LoggerManager
  own : ℕ → Option LogFormatter

namespace Formatters

/-- The loggers and appenders after an operation. -/
def call (s : LoggerManager) : FormatterOp → LoggerManager
  | .addAppender l a => s.addAppender l a
  | .delAppender l a => s.delAppender l a
  | .clearAppenders l => s.clearAppenders l
  | .setFormatterPtr l val => s.setFormatterPtr l val
  | .setFormatter l val => s.setFormatter l val
  | .setAppenderFormatter a val => s.setAppender a ((s.appender a).setFormatter val)

/-- One operation. -/
def step (s : Formatters) (op : FormatterOp) : Formatters :=
  { loggers := call s.loggers op
    own :=
      match op with
      | .setAppenderFormatter a val => Function.update s.own a val
      | _ => s.own }

/-- Loggers and appenders as they are constructed. -/
def init (name : ℕ → String) (kind : ℕ → AppenderKind) : Formatters :=
  { loggers := .constructed name kind, own := fun _ => none }

end Formatters

end Coroutine
