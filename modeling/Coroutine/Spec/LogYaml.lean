import Coroutine.Spec.Log
import Coroutine.Spec.Yaml

/-!
# Log definitions and loggers as YAML (`log.cc`)

The decoder reads a node, the encoders write one: `LexicalCast` between `LogDefine` and strings,
and the three `toYamlString`. `emit` is `<<` on a node and `Load` is `YAML::Load`.
-/

namespace Coroutine

namespace LogLevel

/-- `LogLevel::toString`. -/
def toString : LogLevel → String
  | 1 => "DEBUG"
  | 2 => "INFO"
  | 3 => "WARN"
  | 4 => "ERROR"
  | 5 => "FATAL"
  | _ => "UNKNOW"

/-- `LogLevel::FromString`. -/
def FromString : String → LogLevel
  | "debug" | "DEBUG" => DEBUG
  | "info" | "INFO" => INFO
  | "warn" | "WARN" => WARN
  | "error" | "ERROR" => ERROR
  | "fatal" | "FATAL" => FATAL
  | _ => UNKNOW

end LogLevel

namespace YamlNode

/-- `n[key].as<std::string>()` if it is defined. -/
def getString (n : YamlNode) (key : String) (default : String) : Except YamlException String := do
  match ← n.get key with
  | none => .ok default
  | some value => asString (some value)

/-- `n[0]`, `n[1]` and so on. -/
def items (n : YamlNode) : List (Except YamlException (Option YamlNode)) :=
  (List.range n.size).map n.item

/-- The key with a scalar, if `cond` says so. -/
def field (cond : Bool) (key text : String) : List (String × YamlNode) :=
  if cond then [(key, .scalar text)] else []

/-- The items after as many `push_back`. -/
def pushed (key : String) (items : List YamlNode) : List (String × YamlNode) :=
  if items.isEmpty then [] else [(key, .sequence items)]

end YamlNode

open YamlNode

/-! ## `LexicalCast<std::string, LogDefine>` -/

/-- The body of the loop over `n["appenders"]`; `none` goes on with the next. -/
def LogAppenderDfine.ofNode (a : Option YamlNode) : Except YamlException (Option LogAppenderDfine) := do
  let some a := a | .error .invalidNode
  let some type ← a.get "type" | .ok none
  let type ← asString (some type)
  if type = "FileLogAppender" then
    let some file ← a.get "file" | .ok none
    let file ← asString (some file)
    let formatter ← a.getString "formatter" ""
    .ok (some { type := 1, file := file, formatter := formatter })
  else if type = "StdoutLogAppender" then
    let formatter ← a.getString "formatter" ""
    .ok (some { type := 2, formatter := formatter })
  else .ok none

/-- The decoder, on the node that is loaded. -/
def LogDefine.ofNode (n : YamlNode) : Except YamlException LogDefine := do
  let some name ← n.get "name" | .error (.logic_error "log config name is null")
  let name ← asString (some name)
  let level ← if (← n.get "levle").isSome then asString (← n.get "level") else .ok ""
  let formatter ← n.getString "formatter" ""
  let appenders ←
    match ← n.get "appenders" with
    | none => .ok []
    | some as => as.items.mapM fun a => do LogAppenderDfine.ofNode (← a)
  .ok { name := name, level := LogLevel.FromString level, formatter := formatter,
        appenders := appenders.filterMap id }

/-- `LexicalCast<std::string, LogDefine>`. -/
def LogDefine.fromYaml (Load : String → Except YamlException YamlNode) (v : String) :
    Except YamlException LogDefine := do LogDefine.ofNode (← Load v)

/-! ## `LexicalCast<LogDefine, std::string>` -/

/-- `na`. -/
def LogAppenderDfine.toNode (a : LogAppenderDfine) : YamlNode :=
  .ofPairs <|
    (if a.type = 1 then [("type", .scalar "FileLogAppender"), ("file", .scalar a.file)]
      else if a.type = 2 then [("type", .scalar "StdoutLogAppender")] else []) ++
    field (a.level ≠ .UNKNOW) "level" (LogLevel.toString a.level) ++
    field (a.formatter ≠ "") "formatter" a.formatter

/-- `n`. -/
def LogDefine.toNode (i : LogDefine) : YamlNode :=
  .ofPairs <|
    [("name", .scalar i.name)] ++
    field (i.level ≠ .UNKNOW) "level" (LogLevel.toString i.level) ++
    field (i.formatter ≠ "") "formatter" i.formatter ++
    pushed "appenders" (i.appenders.map (·.toNode))

/-- `LexicalCast<LogDefine, std::string>`. -/
def LogDefine.toYaml (emit : YamlNode → String) (i : LogDefine) : String := emit i.toNode

/-! ## `toYamlString` -/

/-- What `m_formatter->getPattern()` adds to a node, under `key`. -/
def patternField (formatter : Option LogFormatter) (key : String) : List (String × YamlNode) :=
  match formatter with
  | some f => [(key, .scalar f.m_pattern)]
  | none => []

/-- `FileLogAppender::toYamlString` and `StdoutLogAppender::toYamlString`, up to the node. -/
def LogAppender.toNode (ap : LogAppender) : YamlNode :=
  match ap.kind with
  | .FileLogAppender m_filename =>
    .ofPairs <|
      [("type", .scalar "FileLogAppender"), ("file", .scalar m_filename)] ++
      field (ap.m_level ≠ .UNKNOW) "level" (LogLevel.toString ap.m_level) ++
      if ap.m_hasFormatter then patternField ap.m_formatter "fomatter" else []
  | .StdoutLogAppender =>
    .ofPairs <|
      [("type", .scalar "StdoutLogAppender")] ++
      field (ap.m_level ≠ .UNKNOW) "level" (LogLevel.toString ap.m_level) ++
      if ap.m_hasFormatter then patternField ap.m_formatter "formatter" else []

/-- `toYamlString` of an appender. -/
def LogAppender.toYamlString (emit : YamlNode → String) (ap : LogAppender) : String := emit ap.toNode

namespace LoggerManager

/-- The node of `Logger::toYamlString`, with what was loaded of each appender. -/
def loggerNode (s : LoggerManager) (l : ℕ) (appenders : List YamlNode) : YamlNode :=
  .ofPairs <|
    [("name", .scalar (s.logger l).m_name),
      ("level", .scalar (LogLevel.toString (s.logger l).m_level))] ++
    patternField (s.logger l).m_formatter "formatter" ++
    pushed "appenders" appenders

/-- `Logger::toYamlString`. -/
def toYamlString (emit : YamlNode → String) (Load : String → Except YamlException YamlNode)
    (s : LoggerManager) (l : ℕ) : Except YamlException String := do
  let appenders ← (s.logger l).m_appenders.mapM fun a => Load ((s.appender a).toYamlString emit)
  .ok (emit (s.loggerNode l appenders))

end LoggerManager

end Coroutine
