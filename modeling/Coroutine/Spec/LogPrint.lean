import Coroutine.Spec.LogYaml

/-!
# Printing a log line (`log.h`, `log.cc`)

`Logger::log` hands an event to each appender of the logger, and without appenders to the root
logger; an appender has its formatter print the event item by item. A line is what an appender
writes, to the standard output or to its file. `strftime` is the C library's, on the local time of
a number of seconds.

`log` follows `m_root` as often as `depth` says.
-/

namespace Coroutine

/-- `LogEvent`; `m_ss` is what was streamed into it. -/
structure LogEvent where
  m_file : String
  m_line : Int32
  m_elapse : UInt32
  m_threadId : UInt32
  m_fiberId : UInt32
  m_time : UInt64
  m_threadName : String
  m_ss : String
  m_logger : ℕ
  m_level : LogLevel

/-- A text that appender `ap` writes. -/
structure LogLine where
  kind : AppenderKind
  text : String
  deriving DecidableEq, Repr

variable (strftime : String → UInt64 → String)

/-- `FormatItem::format` of each class; `name` is the name of the event's logger. -/
def FormatItem.format (name : String) (level : LogLevel) (event : LogEvent) : FormatItem → String
  | .MessageFormatItem _ => event.m_ss
  | .LevelFormatItem _ => LogLevel.toString level
  | .ElapseFormatItem _ => toString event.m_elapse.toNat
  | .NameFormatItem _ => name
  | .ThreadIdFormatItem _ => toString event.m_threadId.toNat
  | .NewLineFormatItem _ => "\n"
  | .DateTimeFormatItem format =>
    strftime (if format = "" then "%Y-%m-%d %H:%M:%S" else format) event.m_time
  | .FilenameFormatItem _ => event.m_file
  | .LineFormatItem _ => toString event.m_line.toInt
  | .TabFormatItem _ => "\t"
  | .FiberIdFormatItem _ => toString event.m_fiberId.toNat
  | .ThreadNameFormatItem _ => event.m_threadName
  | .StringFormatItem str => str

/-- `LogFormatter::format`. -/
def LogFormatter.format (name : String) (level : LogLevel) (event : LogEvent) (fmt : LogFormatter) :
    String :=
  fmt.m_items.foldl (fun ss i => ss ++ i.format strftime name level event) ""

namespace LoggerManager

variable (s : LoggerManager)

/-- `LogAppender::log`, of both classes; a null formatter is dereferenced. -/
def appenderLog (level : LogLevel) (event : LogEvent) (a : ℕ) : Except Fault (List LogLine) :=
  let ap := s.appender a
  if ap.m_level ≤ level then
    match ap.m_formatter with
    | none => .error .undefined
    | some fmt => .ok [⟨ap.kind, fmt.format strftime (s.logger event.m_logger).m_name level event⟩]
  else .ok []

/-- `Logger::log`: the lines written. -/
def log : (depth : ℕ) → (l : ℕ) → LogLevel → LogEvent → Except Fault (List LogLine)
  | 0, _, _, _ => .ok []
  | depth + 1, l, level, event =>
    let x := s.logger l
    if x.m_level ≤ level then
      if x.m_appenders ≠ [] then
        (x.m_appenders.mapM (s.appenderLog strftime level event)).map List.flatten
      else
        match x.m_root with
        | some root => log depth root level event
        | none => .ok []
    else .ok []

/-- `DUAN_LOG_LEVEL(logger, level)`: `event` is made for the logger, and logged by the destructor of
`LogEventWrap`. -/
def logLevel (depth l : ℕ) (level : LogLevel) (event : LogEvent) : Except Fault (List LogLine) :=
  if (s.logger l).m_level ≤ level then
    s.log strftime depth l level { event with m_logger := l, m_level := level }
  else .ok []

end LoggerManager

end Coroutine
