import Coroutine.Spec.Log

/-!
# `FileLogAppender::log` (`log.cc`)

An appender with its stream and the file the stream writes to, which nobody else touches. An
`open` finds the file and a write finds room; what is left in the state of the stream is what
`close` and `open` do on a stream that is not open, or is. What is written counts as in the file.

An event comes with the second at which it is logged. `format` is `m_formatter->format`.
-/

namespace Coroutine

/-- `std::ofstream`, with the content of its file. -/
structure Ofstream where
  is_open : Bool := false
  fail : Bool := false
  content : String
  deriving DecidableEq, Repr

namespace Ofstream

/-- `close()`, which fails on a stream that is not open. -/
def close (f : Ofstream) : Ofstream :=
  if f.is_open then { f with is_open := false } else { f with fail := true }

/-- `open(name)`, which truncates the file, and fails on a stream that is open. -/
def openFile (f : Ofstream) : Ofstream :=
  if f.is_open then { f with fail := true } else { is_open := true, fail := false, content := "" }

/-- `<<`. -/
def write (f : Ofstream) (str : String) : Ofstream :=
  if f.fail then f else { f with content := f.content ++ str }

end Ofstream

/-- An event with its level, logged at second `now`. -/
structure TimedEvent (ε : Type) where
  now : ℕ
  level : LogLevel
  event : ε

/-- `FileLogAppender`. -/
structure FileLogAppender where
  m_level : LogLevel := .DEBUG
  m_filestream : Ofstream
  m_lastTime : ℕ := 0
  deriving DecidableEq, Repr

namespace FileLogAppender

/-- `reopen`. -/
def reopen (ap : FileLogAppender) : FileLogAppender :=
  let f := if ¬ ap.m_filestream.fail then ap.m_filestream.close else ap.m_filestream
  { ap with m_filestream := f.openFile }

/-- The constructor, on a file that holds `content`; `m_level` is set before the first event. -/
def init (m_level : LogLevel) (content : String) : FileLogAppender :=
  reopen { m_level := m_level, m_filestream := { content := content } }

/-- `log`. -/
def log {ε : Type} (format : LogLevel → ε → String) (ap : FileLogAppender) (e : TimedEvent ε) :
    FileLogAppender :=
  if e.level ≥ ap.m_level then
    let ap := if e.now ≠ ap.m_lastTime then { ap.reopen with m_lastTime := e.now } else ap
    { ap with m_filestream := ap.m_filestream.write (format e.level e.event) }
  else ap

end FileLogAppender

end Coroutine
