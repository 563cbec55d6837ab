import Coroutine.Spec.LogFile

/-!
# `FileLogAppender` when the operating system fails (`log.cc`)

`reopen` and `log` as in `Spec.LogFile`, with the `std::filebuf` the stream writes through and with
what the operating system answers to each thing it is asked for. `<<` puts a line into the buffer of
the `filebuf`, which asks the operating system for nothing, until a line does not fit any more: what
is buffered and that line are then written at once. `close` writes what is still in the buffer.

A write that is refused adds nothing to the file. In `<<` it leaves the stream in the state `fail`,
in which nothing is written and which a successful `open` alone clears.
-/

namespace Coroutine

/-- What the operating system lets a call do: `flushes` is the write of `close`, `writes` that of
`<<`. -/
structure OsAnswer where
  flushes : Bool
  closes : Bool
  opens : Bool
  writes : Bool
  deriving DecidableEq, Repr

/-- A call of `log`: what is logged, when, and how the operating system answers. -/
structure LogCall (ε : Type) extends TimedEvent ε where
  os : OsAnswer

/-- `filebuf::xsputn`: whether a line of `n` bytes goes to the file at once when `pending` bytes are
buffered. The buffer has 8192 bytes, the last of which is not used. -/
def filebufSpills (pending n : ℕ) : Bool :=
  8191 ≤ pending + n

/-- `std::ofstream`, with the content of its file and the buffer of its `filebuf`. -/
structure BufferedStream extends Ofstream where
  buffer : String := ""
  deriving DecidableEq, Repr

namespace BufferedStream

variable (spills : ℕ → ℕ → Bool) (os : OsAnswer) (f : BufferedStream)

/-- What has been written: it is in the file, or will be once the buffer is flushed. -/
def text : String :=
  f.content ++ f.buffer

/-- `filebuf::close`'s flush: what is buffered goes to the file, or is lost. -/
def flush : BufferedStream × Bool :=
  if f.buffer = "" then (f, true)
  else if os.flushes then ({ f with content := f.text, buffer := "" }, true)
  else ({ f with buffer := "" }, false)

/-- `close()`, which closes the file also where what it buffers cannot be written. -/
def close : BufferedStream :=
  if f.is_open then
    { (f.flush os).1 with is_open := false, fail := f.fail || !((f.flush os).2 && os.closes) }
  else { f with fail := true }

/-- `open(name)`, which truncates the file, and fails on a stream that is open whatever the operating
system says. -/
def openFile : BufferedStream :=
  if f.is_open then { f with fail := true }
  else if os.opens then { is_open := true, fail := false, content := "", buffer := "" }
  else { f with fail := true }

/-- `<<`, which does nothing on a stream that has failed. -/
def write (str : String) : BufferedStream :=
  if f.fail then f
  else if ¬ f.is_open then { f with fail := true }
  else if spills f.buffer.utf8ByteSize str.utf8ByteSize then
    if os.writes then { f with content := f.text ++ str, buffer := "" }
    else { f with fail := true }
  else { f with buffer := f.buffer ++ str }

end BufferedStream

/-- `FileLogAppender`, with its stream's buffer. -/
structure BufferedAppender where
  m_level : LogLevel := .DEBUG
  m_filestream : BufferedStream
  m_lastTime : ℕ := 0
  deriving DecidableEq, Repr

namespace BufferedAppender

/-- `FileLogAppender::reopen`, with what it returns. -/
def reopen (os : OsAnswer) (ap : BufferedAppender) : BufferedAppender × Bool :=
  let f := if ¬ ap.m_filestream.fail then ap.m_filestream.close os else ap.m_filestream
  let f := f.openFile os
  ({ ap with m_filestream := f }, !f.fail)

/-- The constructor, on a file that holds `content`. -/
def init (os : OsAnswer) (m_level : LogLevel) (content : String) : BufferedAppender :=
  (reopen os { m_level := m_level, m_filestream := { content := content } }).1

/-- `FileLogAppender::log`, with what it prints to `std::cout`. -/
def log {ε : Type} (spills : ℕ → ℕ → Bool) (format : LogLevel → ε → String)
    (ap : BufferedAppender) (c : LogCall ε) : BufferedAppender × String :=
  if c.level ≥ ap.m_level then
    let ap := if c.now ≠ ap.m_lastTime then { (ap.reopen c.os).1 with m_lastTime := c.now } else ap
    let f := ap.m_filestream.write spills c.os (format c.level c.event)
    ({ ap with m_filestream := f }, if f.fail then "error\n" else "")
  else (ap, "")

/-- The calls of a run, one after another. -/
def logStep {ε : Type} (spills : ℕ → ℕ → Bool) (format : LogLevel → ε → String)
    (ap : BufferedAppender) (c : LogCall ε) : BufferedAppender :=
  (ap.log spills format c).1

end BufferedAppender

end Coroutine
