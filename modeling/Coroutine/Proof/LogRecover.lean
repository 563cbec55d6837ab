import Coroutine.Lib.Run
import Coroutine.Proof.LogFile
import Coroutine.Spec.LogRecover

/-!
# What a file appender recovers from

`reopen` closes the file only if the stream has not failed, and an `open` of a stream that is open
fails. So a stream that a write has failed stays open, and every later `reopen` fails.

* `log_ok`: where the operating system does all it is asked for, this is `FileLogAppender::log`, what
  is buffered counted as in the file.
* `logStep_dead_iff`: the calls that leave the stream open and failed.
* `run_dead`: such an appender writes nothing any more.
* `recovers_iff`: a call in a new second writes its line, and `reopen` is successful, as far as
  the operating system lets them, if and only if no earlier write to the open file was refused.
* `close_text`: what is written is in the file itself once it is closed, if the flush is let through.
-/

namespace Coroutine

open Lib

namespace BufferedAppender

variable {ε : Type} {spills : ℕ → ℕ → Bool} {format : LogLevel → ε → String} {ap : BufferedAppender}
  {os : OsAnswer} {c : LogCall ε}

/-- The stream is open, and it has failed. -/
def Dead (ap : BufferedAppender) : Prop :=
  ap.m_filestream.is_open = true ∧ ap.m_filestream.fail = true

/-- The stream is open or has failed, as it is from the constructor on. -/
def Opened (ap : BufferedAppender) : Prop :=
  ap.m_filestream.is_open = true ∨ ap.m_filestream.fail = true

/-- The file is open when the call writes: in a new second the call opens it, and before it was left
open. -/
def opened (ap : BufferedAppender) (c : LogCall ε) : Bool :=
  if c.now ≠ ap.m_lastTime then c.os.opens else ap.m_filestream.is_open

/-- What is buffered when the call writes: nothing in a file that the call has opened. -/
def pending (ap : BufferedAppender) (c : LogCall ε) : String :=
  if c.now ≠ ap.m_lastTime then "" else ap.m_filestream.buffer

/-- The call's line goes to the file at once. -/
def spilling (spills : ℕ → ℕ → Bool) (format : LogLevel → ε → String) (ap : BufferedAppender)
    (c : LogCall ε) : Bool :=
  spills (ap.pending c).utf8ByteSize (format c.level c.event).utf8ByteSize

/-- The call's line is written: the file is open, and if the line goes to it at once it is
not refused. -/
def writes (spills : ℕ → ℕ → Bool) (format : LogLevel → ε → String) (ap : BufferedAppender)
    (c : LogCall ε) : Bool :=
  ap.opened c && !(ap.spilling spills format c && !c.os.writes)

/-- The call's line goes at once to the open file, and the operating system refuses it. -/
def WriteFails (spills : ℕ → ℕ → Bool) (format : LogLevel → ε → String) (ap : BufferedAppender)
    (c : LogCall ε) : Prop :=
  ap.m_level ≤ c.level ∧ ap.opened c = true ∧ ap.spilling spills format c = true ∧
    c.os.writes = false

instance (ap : BufferedAppender) (c : LogCall ε) : Decidable (ap.WriteFails spills format c) :=
  inferInstanceAs (Decidable (_ ∧ _ ∧ _ ∧ _))

/-- The file holds the line and nothing else: in it at once if the line spills out of an empty
buffer, in it or in its buffer otherwise. -/
def Holds (spills : ℕ → ℕ → Bool) (ap : BufferedAppender) (line : String) : Prop :=
  ap.m_filestream.text = line ∧
    (spills 0 line.utf8ByteSize = true → ap.m_filestream.content = line)

theorem good_iff (h : ap.Opened) (hdead : ¬ ap.Dead) :
    ap.m_filestream.fail = false ↔ ap.m_filestream.is_open = true := by
  unfold Opened Dead at *
  grind

/-- **What is written is in the file** once the stream is closed, if what is buffered may be
written. -/
theorem close_text {f : BufferedStream} (hopen : f.is_open = true) (hos : os.flushes = true) :
    (f.close os).content = f.text ∧ (f.close os).buffer = "" := by
  unfold BufferedStream.close BufferedStream.flush BufferedStream.text
  by_cases hbuffer : f.buffer = ""
  · simp [hopen, hbuffer]
  · simp [hopen, hbuffer, hos]

/-- `close` closes an open file whatever is refused. -/
theorem close_is_open {f : BufferedStream} (hopen : f.is_open = true) (os : OsAnswer) :
    (f.close os).is_open = false := by
  unfold BufferedStream.close
  rw [if_pos hopen]

/-- `open` on a stream that is not open. -/
theorem openFile_eq {f : BufferedStream} (hopen : f.is_open = false) (os : OsAnswer) :
    (f.openFile os).is_open = os.opens ∧ (f.openFile os).fail = !os.opens ∧
      (os.opens = true → (f.openFile os).content = "" ∧ (f.openFile os).buffer = "") := by
  unfold BufferedStream.openFile
  cases hos : os.opens <;> simp [hopen]

/-- **`reopen`**, by the state of the stream. -/
theorem reopen_eq (h : ap.Opened) (os : OsAnswer) :
    (ap.Dead → ap.reopen os = (ap, false)) ∧
      (¬ ap.Dead → (ap.reopen os).2 = os.opens ∧ (ap.reopen os).1.m_level = ap.m_level ∧
        (ap.reopen os).1.m_filestream.is_open = os.opens ∧
        (ap.reopen os).1.m_filestream.fail = !os.opens ∧
        (os.opens = true → (ap.reopen os).1.m_filestream.content = "" ∧
          (ap.reopen os).1.m_filestream.buffer = "")) := by
  constructor
  · rintro ⟨hopen, hfail⟩
    obtain ⟨m_level, ⟨⟨is_open, fail, text⟩, buffer⟩, m_lastTime⟩ := ap
    simp only at hopen hfail
    subst hopen hfail
    rfl
  · intro hdead
    have hiff := good_iff h hdead
    unfold reopen
    cases hfail : ap.m_filestream.fail with
    | false =>
      have hclosed := close_is_open (hiff.1 hfail) os
      obtain ⟨hopen', hfail', hempty⟩ := openFile_eq hclosed os
      simp only [Bool.false_eq_true, not_false_eq_true, if_true]
      refine ⟨?_, trivial, hopen', hfail', hempty⟩
      rw [hfail', Bool.not_not]
    | true =>
      -- a failed stream is not closed, but this one is not open either, so `open` is free to go on
      have hclosed : ap.m_filestream.is_open = false := by
        rw [hfail] at hiff
        simpa using hiff
      obtain ⟨hopen', hfail', hempty⟩ := openFile_eq hclosed os
      simp only [not_true_eq_false, if_false]
      refine ⟨?_, trivial, hopen', hfail', hempty⟩
      rw [hfail', Bool.not_not]

/-- `<<` on a stream that is good exactly when it is open: it fails if the line spills and is
refused. -/
theorem write_eq {f : BufferedStream} (h : f.fail = !f.is_open) (spills : ℕ → ℕ → Bool)
    (os : OsAnswer) (str : String) :
    (f.write spills os str).is_open = f.is_open ∧
      (f.write spills os str).fail = !(f.is_open &&
        !(spills f.buffer.utf8ByteSize str.utf8ByteSize && !os.writes)) ∧
      ((f.write spills os str).fail = false → (f.write spills os str).text = f.text ++ str ∧
        (spills f.buffer.utf8ByteSize str.utf8ByteSize = true →
          (f.write spills os str).content = f.text ++ str)) := by
  unfold BufferedStream.write BufferedStream.text
  cases hopen : f.is_open with
  | false => simp [h, hopen]
  | true =>
    cases hspills : spills f.buffer.utf8ByteSize str.utf8ByteSize with
    | false => simp [h, hopen, String.append_assoc]
    | true => cases hos : os.writes <;> simp [h, hopen]

/-- The appender as a call that counts finds it after its `reopen`, if there is one. -/
def ready (ap : BufferedAppender) (c : LogCall ε) : BufferedAppender :=
  if c.now ≠ ap.m_lastTime then { (ap.reopen c.os).1 with m_lastTime := c.now } else ap

theorem ready_eq (h : ap.Opened) (hdead : ¬ ap.Dead) (c : LogCall ε) :
    (ap.ready c).m_level = ap.m_level ∧ (ap.ready c).m_lastTime = c.now ∧
      (ap.ready c).m_filestream.is_open = ap.opened c ∧
      (ap.ready c).m_filestream.fail = !ap.opened c ∧
      (ap.opened c = true → (ap.ready c).m_filestream.buffer = ap.pending c ∧
        (ap.ready c).m_filestream.content =
          if c.now ≠ ap.m_lastTime then "" else ap.m_filestream.content) := by
  obtain ⟨-, hlevel, hopen, hfail, hempty⟩ := (reopen_eq h c.os).2 hdead
  unfold ready opened pending
  by_cases hnow : c.now = ap.m_lastTime
  · have hiff := good_iff h hdead
    rw [if_neg (not_not.2 hnow), if_neg (not_not.2 hnow), if_neg (not_not.2 hnow),
      if_neg (not_not.2 hnow)]
    refine ⟨rfl, hnow.symm, rfl, ?_, fun _ => ⟨rfl, rfl⟩⟩
    cases hgood : ap.m_filestream.is_open <;> simp_all
  · rw [if_pos hnow, if_pos hnow, if_pos hnow, if_pos hnow]
    exact ⟨hlevel, rfl, hopen, hfail, fun hos => (hempty hos).symm⟩

/-- **One call**, of an appender that is not dead. -/
theorem log_eq (h : ap.Opened) (hdead : ¬ ap.Dead) (spills : ℕ → ℕ → Bool)
    (format : LogLevel → ε → String) (hle : ap.m_level ≤ c.level) :
    (ap.log spills format c).1.m_level = ap.m_level ∧
      (ap.log spills format c).1.m_lastTime = c.now ∧
      (ap.log spills format c).1.m_filestream.is_open = ap.opened c ∧
      (ap.log spills format c).1.m_filestream.fail = !ap.writes spills format c ∧
      ((ap.log spills format c).2 = "" ↔ ap.writes spills format c = true) := by
  obtain ⟨hlevel, htime, hopen, hfail, hbuffer⟩ := ready_eq h hdead c
  have hgood : (ap.ready c).m_filestream.fail = !(ap.ready c).m_filestream.is_open := by
    rw [hfail, hopen]
  obtain ⟨hopen', hfail', -⟩ := write_eq hgood spills c.os (format c.level c.event)
  have hwrites : (((ap.ready c).m_filestream.write spills c.os (format c.level c.event))).fail =
      !ap.writes spills format c := by
    rw [hfail', hopen]
    unfold writes spilling
    cases hop : ap.opened c with
    | false => rfl
    | true => rw [(hbuffer hop).1]
  unfold log
  rw [if_pos hle]
  refine ⟨hlevel, htime, hopen'.trans hopen, hwrites, ?_⟩
  show (if ((ap.ready c).m_filestream.write spills c.os (format c.level c.event)).fail = true
    then "error\n" else "") = "" ↔ _
  rw [hwrites]
  cases ap.writes spills format c <;> simp

/-- **A call that writes**, on a file that is empty or that it opens, leaves its line in it. -/
theorem log_holds (h : ap.Opened) (hdead : ¬ ap.Dead) (hle : ap.m_level ≤ c.level)
    (hwrites : ap.writes spills format c = true)
    (hnew : c.now ≠ ap.m_lastTime ∨ ap.m_filestream.text = "") :
    (ap.log spills format c).1.Holds spills (format c.level c.event) := by
  obtain ⟨-, -, hopen, hfail, hbuffer⟩ := ready_eq h hdead c
  have hop : ap.opened c = true := (Bool.and_eq_true_iff.1 hwrites).1
  have hnot : (ap.log spills format c).1.m_filestream.fail = false := by
    rw [(log_eq h hdead spills format hle).2.2.2.1, hwrites]
    rfl
  have hempty : (ap.ready c).m_filestream.text = "" := by
    obtain ⟨hpending, hcontent⟩ := hbuffer hop
    unfold BufferedStream.text at *
    rw [hpending, hcontent]
    unfold pending
    by_cases hnow : c.now = ap.m_lastTime
    · rw [if_neg (not_not.2 hnow), if_neg (not_not.2 hnow)]
      exact hnew.resolve_left (not_not.2 hnow)
    · rw [if_pos hnow, if_pos hnow]
      rfl
  have hgood : (ap.ready c).m_filestream.fail = !(ap.ready c).m_filestream.is_open := by
    rw [hfail, hopen]
  obtain ⟨-, -, hwritten⟩ := write_eq hgood spills c.os (format c.level c.event)
  unfold log at hnot ⊢
  rw [if_pos hle] at hnot ⊢
  obtain ⟨htext, hcontent⟩ := hwritten hnot
  rw [hempty, String.empty_append] at htext hcontent
  rw [(String.append_eq_empty_iff.1 hempty).2] at hcontent
  exact ⟨htext, hcontent⟩

theorem log_skip (spills : ℕ → ℕ → Bool) (format : LogLevel → ε → String)
    (hlt : c.level < ap.m_level) : ap.log spills format c = (ap, "") :=
  if_neg (Nat.not_le.2 hlt)

theorem log_dead (hdead : ap.Dead) (spills : ℕ → ℕ → Bool) (format : LogLevel → ε → String)
    (hle : ap.m_level ≤ c.level) :
    ap.log spills format c = ({ ap with m_lastTime := c.now }, "error\n") := by
  have hreopen := (reopen_eq (.inr hdead.2) c.os).1 hdead
  unfold log
  rw [if_pos hle]
  obtain ⟨m_level, ⟨⟨is_open, fail, text⟩, buffer⟩, m_lastTime⟩ := ap
  obtain ⟨hopen, hfail⟩ := hdead
  simp only at hopen hfail
  subst hopen hfail
  by_cases hnow : c.now = m_lastTime
  · simp [hnow, BufferedStream.write]
  · simp [hnow, hreopen, BufferedStream.write]

/-- **A dead appender stays dead**, and its file and its buffer are left as they are. -/
theorem logStep_dead (hdead : ap.Dead) (spills : ℕ → ℕ → Bool) (format : LogLevel → ε → String)
    (c : LogCall ε) :
    (ap.logStep spills format c).Dead ∧
      (ap.logStep spills format c).m_filestream = ap.m_filestream := by
  unfold logStep
  rcases Nat.lt_or_ge c.level ap.m_level with hlt | hle
  · rw [log_skip spills format hlt]
    exact ⟨hdead, rfl⟩
  · rw [log_dead hdead spills format hle]
    exact ⟨hdead, rfl⟩

theorem logStep_opened (h : ap.Opened) (spills : ℕ → ℕ → Bool) (format : LogLevel → ε → String)
    (c : LogCall ε) :
    (ap.logStep spills format c).Opened ∧ (ap.logStep spills format c).m_level = ap.m_level := by
  unfold logStep
  rcases Nat.lt_or_ge c.level ap.m_level with hlt | hle
  · rw [log_skip spills format hlt]
    exact ⟨h, rfl⟩
  by_cases hdead : ap.Dead
  · rw [log_dead hdead spills format hle]
    exact ⟨h, rfl⟩
  · obtain ⟨hlevel, -, hopen, hfail, -⟩ := log_eq h hdead spills format hle
    refine ⟨?_, hlevel⟩
    unfold Opened
    rw [hopen, hfail]
    unfold writes
    cases ap.opened c <;> simp

/-- **The call that kills an appender.** -/
theorem logStep_dead_iff (h : ap.Opened) (hdead : ¬ ap.Dead) (spills : ℕ → ℕ → Bool)
    (format : LogLevel → ε → String) (c : LogCall ε) :
    (ap.logStep spills format c).Dead ↔ ap.WriteFails spills format c := by
  unfold WriteFails logStep
  rcases Nat.lt_or_ge c.level ap.m_level with hlt | hle
  · rw [log_skip spills format hlt]
    exact ⟨fun hd => absurd hd hdead, fun hw => absurd hw.1 (Nat.not_le.2 hlt)⟩
  · obtain ⟨-, -, hopen, hfail, -⟩ := log_eq h hdead spills format hle
    unfold Dead
    rw [hopen, hfail]
    unfold writes
    cases ap.opened c <;> cases ap.spilling spills format c <;> cases c.os.writes <;> simp [hle]

/-! ## Where the operating system refuses nothing -/

/-- The stream of `Spec.LogFile`, which has in its file what is buffered here. -/
def unbufferedStream (f : BufferedStream) : Ofstream :=
  { is_open := f.is_open, fail := f.fail, content := f.text }

/-- The appender of `Spec.LogFile`. -/
def unbuffered (ap : BufferedAppender) : FileLogAppender :=
  { m_level := ap.m_level
    m_filestream := unbufferedStream ap.m_filestream
    m_lastTime := ap.m_lastTime }

theorem write_ok {f : BufferedStream} (hf : f.is_open = true ∨ f.fail = true)
    (spills : ℕ → ℕ → Bool) (str : String) :
    unbufferedStream (f.write spills ⟨true, true, true, true⟩ str) =
      (unbufferedStream f).write str := by
  unfold BufferedStream.write unbufferedStream Ofstream.write BufferedStream.text
  cases hfail : f.fail with
  | true => simp [hfail]
  | false =>
    have hopen : f.is_open = true := by simpa [hfail] using hf
    cases spills f.buffer.utf8ByteSize str.utf8ByteSize <;>
      simp [hfail, hopen, String.append_assoc]

theorem reopen_ok (ap : BufferedAppender) :
    (ap.reopen ⟨true, true, true, true⟩).1.unbuffered = ap.unbuffered.reopen ∧
      (ap.reopen ⟨true, true, true, true⟩).1.Opened := by
  obtain ⟨m_level, ⟨⟨is_open, fail, text⟩, buffer⟩, m_lastTime⟩ := ap
  unfold unbuffered unbufferedStream reopen FileLogAppender.reopen Opened BufferedStream.text
  cases is_open <;> cases fail <;>
    simp [BufferedStream.close, BufferedStream.openFile, Ofstream.close, Ofstream.openFile]

/-- **This is `log`** where the operating system refuses nothing. -/
theorem log_ok (h : ap.Opened) (spills : ℕ → ℕ → Bool) (format : LogLevel → ε → String)
    (hos : c.os = ⟨true, true, true, true⟩) :
    (ap.logStep spills format c).unbuffered = ap.unbuffered.log format c.toTimedEvent := by
  obtain ⟨hreopen, hopened⟩ := reopen_ok ap
  unfold logStep log FileLogAppender.log
  rw [hos, ← hreopen]
  by_cases hle : c.level ≥ ap.m_level
  · rw [if_pos hle, if_pos (show c.level ≥ ap.unbuffered.m_level from hle)]
    by_cases hnow : c.now = ap.m_lastTime
    · have hwrite := write_ok h spills (format c.level c.event)
      simp only [hnow, ne_eq, not_true_eq_false, if_false, unbuffered, hwrite]
    · have hwrite := write_ok hopened spills (format c.level c.event)
      have hnow' : c.now ≠ ap.unbuffered.m_lastTime := hnow
      simp only [hnow, ne_eq, not_false_eq_true, if_true, unbuffered, hwrite]
  · rw [if_neg hle, if_neg (show ¬ c.level ≥ ap.unbuffered.m_level from hle)]

theorem logStep_lastTime (spills : ℕ → ℕ → Bool) (format : LogLevel → ε → String)
    (ap : BufferedAppender) (c : LogCall ε) :
    (ap.logStep spills format c).m_lastTime =
      if ap.m_level ≤ c.level then c.now else ap.m_lastTime := by
  unfold logStep log
  by_cases hle : ap.m_level ≤ c.level
  · by_cases hnow : c.now = ap.m_lastTime <;> simp [hle, hnow]
  · simp [hle]

/-! ## Runs -/

/-- The second of the last call that was not below the level, if there was one. -/
def lastLogged (m_level : LogLevel) (cs : List (LogCall ε)) : Option ℕ :=
  ((cs.filter fun c => m_level ≤ c.level).map fun c => c.now).getLast?

theorem lastLogged_cons (m_level : LogLevel) (c : LogCall ε) (cs : List (LogCall ε)) :
    lastLogged m_level (c :: cs) =
      if m_level ≤ c.level then some ((lastLogged m_level cs).getD c.now)
      else lastLogged m_level cs := by
  unfold lastLogged
  by_cases hle : m_level ≤ c.level
  · rw [List.filter_cons_of_pos (by simpa using hle), List.map_cons, List.getLast?_cons, if_pos hle]
  · rw [List.filter_cons_of_neg (by simpa using hle), if_neg hle]

variable (spills format) in
theorem run_opened (cs : List (LogCall ε)) (h : ap.Opened) :
    (run (logStep spills format) ap cs).Opened ∧
      (run (logStep spills format) ap cs).m_level = ap.m_level := by
  have hI : ∀ (a : BufferedAppender) (c : LogCall ε), (a.Opened ∧ a.m_level = ap.m_level) →
      ((a.logStep spills format c).Opened ∧ (a.logStep spills format c).m_level = ap.m_level) := by
    rintro a c ⟨ha, hlevel⟩
    obtain ⟨hnext, hsame⟩ := logStep_opened ha spills format c
    exact ⟨hnext, hsame.trans hlevel⟩
  exact run_inv (I := fun a => a.Opened ∧ a.m_level = ap.m_level) hI cs ap ⟨h, rfl⟩

variable (spills format) in
/-- `m_lastTime` is the second of the last call that counts. -/
theorem run_lastTime (cs : List (LogCall ε)) (h : ap.Opened) :
    (run (logStep spills format) ap cs).m_lastTime =
      (lastLogged ap.m_level cs).getD ap.m_lastTime := by
  induction cs generalizing ap with
  | nil => rfl
  | cons c cs ih =>
    obtain ⟨hnext, hlevel⟩ := logStep_opened h spills format c
    have hrest := ih hnext
    rw [hlevel, logStep_lastTime] at hrest
    rw [run_cons, hrest, lastLogged_cons]
    split <;> rfl

variable (spills format) in
theorem run_none (cs : List (LogCall ε)) (hnone : lastLogged ap.m_level cs = none) :
    run (logStep spills format) ap cs = ap := by
  induction cs with
  | nil => rfl
  | cons c cs ih =>
    rw [lastLogged_cons] at hnone
    by_cases hle : ap.m_level ≤ c.level
    · rw [if_pos hle] at hnone
      cases hnone
    · rw [if_neg hle] at hnone
      have hskip : ap.logStep spills format c = ap := by
        unfold logStep
        rw [log_skip spills format (Nat.not_le.1 hle)]
      rw [run_cons, hskip]
      exact ih hnone

variable (spills format) in
/-- **After one write that was refused, nothing is written any more**, whatever the operating system
would let later calls do. -/
theorem run_dead (cs : List (LogCall ε)) (hdead : ap.Dead) :
    (run (logStep spills format) ap cs).Dead ∧
      (run (logStep spills format) ap cs).m_filestream = ap.m_filestream := by
  refine run_inv (I := fun a => a.Dead ∧ a.m_filestream = ap.m_filestream) ?_ cs ap ⟨hdead, rfl⟩
  rintro a c ⟨ha, hstream⟩
  obtain ⟨hnext, hsame⟩ := logStep_dead ha spills format c
  exact ⟨hnext, hsame.trans hstream⟩

variable (spills format) in
/-- **An appender is alive at the end of a run exactly when no write to the open file was refused.** -/
theorem run_alive_iff (cs : List (LogCall ε)) (h : ap.Opened) (hdead : ¬ ap.Dead) :
    ¬ (run (logStep spills format) ap cs).Dead ↔
      Along (logStep spills format) (fun a c => ¬ a.WriteFails spills format c) ap cs := by
  refine run_iff_along (I := Opened) (P := fun a => ¬ a.Dead) ?_ ?_ ?_ cs h hdead
  · exact fun a c ha => (logStep_opened ha spills format c).1
  · exact fun a c ha hnot => not_congr (logStep_dead_iff ha hnot spills format c)
  · intro a c _ hnot hnext
    exact hnext (logStep_dead (not_not.1 hnot) spills format c).1

/-- **A `reopen` that may open the file** does so unless a write has been refused. -/
theorem reopen_true_iff (h : ap.Opened) {os : OsAnswer} (hos : os.opens = true) :
    (reopen os ap).2 = true ↔ ¬ ap.Dead := by
  obtain ⟨hd, hnd⟩ := reopen_eq h os
  by_cases hap : ap.Dead
  · rw [hd hap]
    exact ⟨fun h => Bool.noConfusion h, fun h => absurd hap h⟩
  · rw [(hnd hap).1, hos]
    exact ⟨fun _ => hap, fun _ => rfl⟩

/-- A call that may write writes if the file is open. -/
theorem writes_eq (hwrites : c.os.writes = true) : ap.writes spills format c = ap.opened c := by
  unfold writes
  simp [hwrites]

/-- **A call in a new second** that may open and write the file writes its line. -/
theorem log_new_second (h : ap.Opened) (hdead : ¬ ap.Dead) (spills : ℕ → ℕ → Bool)
    (format : LogLevel → ε → String) (hle : ap.m_level ≤ c.level) (hnow : c.now ≠ ap.m_lastTime)
    (hopens : c.os.opens = true) (hwrites : c.os.writes = true) :
    (ap.log spills format c).2 = "" ∧
      (ap.log spills format c).1.Holds spills (format c.level c.event) := by
  have hwrote : ap.writes spills format c = true := by
    rw [writes_eq hwrites]
    unfold opened
    rw [if_pos hnow, hopens]
  exact ⟨(log_eq h hdead spills format hle).2.2.2.2.2 hwrote,
    log_holds h hdead hle hwrote (.inl hnow)⟩

/-- **A call in the same second** that may write the file writes its line to it if it is open. -/
theorem log_same_second (h : ap.Opened) (hdead : ¬ ap.Dead) (spills : ℕ → ℕ → Bool)
    (format : LogLevel → ε → String) (hle : ap.m_level ≤ c.level) (hnow : c.now = ap.m_lastTime)
    (hwrites : c.os.writes = true)
    (hempty : ap.m_filestream.is_open = true → ap.m_filestream.text = "") :
    (ap.log spills format c).2 = "" ∧
        (ap.log spills format c).1.Holds spills (format c.level c.event) ↔
      ap.m_filestream.is_open = true := by
  have hprint := (log_eq h hdead spills format hle).2.2.2.2
  have hwrote : ap.writes spills format c = ap.m_filestream.is_open := by
    rw [writes_eq hwrites]
    unfold opened
    rw [if_neg (not_not.2 hnow)]
  rw [hwrote] at hprint
  constructor
  · exact fun hline => hprint.1 hline.1
  · intro hopen
    exact ⟨hprint.2 hopen, log_holds h hdead hle (hwrote.trans hopen) (.inr (hempty hopen))⟩

theorem init_eq (os : OsAnswer) (m_level : LogLevel) (content : String) :
    (init os m_level content).Opened ∧ ¬ (init os m_level content).Dead ∧
      (init os m_level content).m_level = m_level ∧
      (init os m_level content).m_lastTime = 0 ∧
      (init os m_level content).m_filestream.is_open = os.opens ∧
      (os.opens = true → (init os m_level content).m_filestream.text = "") := by
  unfold init reopen Opened Dead BufferedStream.text
  cases hos : os.opens <;> simp [BufferedStream.close, BufferedStream.openFile, hos]

/-- **What a file appender recovers from.** After any calls since the constructor, a `reopen` that the
operating system lets open the file returns true if and only if no write to the open file was
refused; and a call in a new second, in which the operating system lets the file be opened and
written, writes its line to the file if and only if in addition, should it be the first and its
second be 0, the constructor opened the file. -/
theorem recovers_iff {ε : Type} (spills : ℕ → ℕ → Bool) (format : LogLevel → ε → String)
    (m_level : LogLevel) (content : String) (os : OsAnswer) (cs : List (LogCall ε)) :
    (∀ os' : OsAnswer, os'.opens = true →
      ((reopen os' (run (logStep spills format) (init os m_level content) cs)).2 = true ↔
        Along (logStep spills format) (fun ap c => ¬ ap.WriteFails spills format c)
          (init os m_level content) cs)) ∧
    ∀ c : LogCall ε, m_level ≤ c.level → lastLogged m_level cs ≠ some c.now →
      c.os.opens = true → c.os.writes = true →
      ((((run (logStep spills format) (init os m_level content) cs).log spills format c).2 = "" ∧
          ((run (logStep spills format) (init os m_level content) cs).log spills format c).1.Holds
            spills (format c.level c.event)) ↔
        Along (logStep spills format) (fun ap c => ¬ ap.WriteFails spills format c)
            (init os m_level content) cs ∧
          (lastLogged m_level cs = none → c.now = 0 → os.opens = true)) := by
  obtain ⟨hopened, hdead, hlevel, htime, hopen, hempty⟩ := init_eq os m_level content
  have halive := run_alive_iff spills format cs hopened hdead
  obtain ⟨hend, hsame⟩ := run_opened spills format cs hopened
  have hlast := run_lastTime spills format cs hopened
  have hnone : lastLogged (init os m_level content).m_level cs = none →
      run (logStep spills format) (init os m_level content) cs = init os m_level content :=
    run_none spills format cs
  rw [hlevel] at hsame hlast hnone
  rw [htime] at hlast
  rw [← halive]
  set ap := run (logStep spills format) (init os m_level content) cs
  refine ⟨fun os' hos' => reopen_true_iff hend hos', fun c hle hnew hopens hwrites => ?_⟩
  rw [← hsame] at hle
  by_cases hap : ap.Dead
  · rw [log_dead hap spills format hle]
    have herror : "error\n" ≠ "" := by decide
    exact ⟨fun h => absurd h.1 herror, fun h => absurd hap h.1⟩
  rw [and_iff_right hap]
  by_cases hnow : c.now = ap.m_lastTime
  · -- no call has counted, and the second is the one the constructor starts from
    cases hlogged : lastLogged m_level cs with
    | some now =>
      rw [hlogged, Option.getD_some] at hlast
      rw [hlogged, hnow, hlast] at hnew
      exact absurd rfl hnew
    | none =>
      have hinit : ap = init os m_level content := hnone hlogged
      have hopen' : ap.m_filestream.is_open = os.opens := by rw [hinit, hopen]
      have hempty' : ap.m_filestream.is_open = true → ap.m_filestream.text = "" := by
        rw [hopen', hinit]
        exact hempty
      have hzero : c.now = 0 := by rw [hnow, hinit, htime]
      rw [log_same_second hend hap spills format hle hnow hwrites hempty', hopen']
      exact ⟨fun hos _ _ => hos, fun hos => hos rfl hzero⟩
  · refine ⟨fun _ hlogged hzero => ?_, fun _ => ?_⟩
    · rw [hlogged, Option.getD_none] at hlast
      exact absurd (hzero.trans hlast.symm) hnow
    · exact log_new_second hend hap spills format hle hnow hopens hwrites

/-- A line of `n` bytes. -/
def longLine (n : ℕ) : String :=
  String.ofList (List.replicate n 'a')

theorem longLine_size (n : ℕ) : (longLine n).utf8ByteSize = n := by
  unfold longLine
  induction n with
  | zero => rfl
  | succ n ih =>
    rw [List.replicate_succ', String.ofList_append, String.utf8ByteSize_append, ih]
    rfl

/-- A line of 8192 bytes is refused at second 1, and the line of second 2 is not written. -/
theorem silent_after_write :
    ¬ ∀ (os : OsAnswer) (cs : List (LogCall String)) (c : LogCall String),
      lastLogged .DEBUG cs ≠ some c.now → LogLevel.DEBUG ≤ c.level →
      c.os.opens = true → c.os.writes = true →
        ((run (logStep filebufSpills fun _ str => str) (init os .DEBUG "") cs).log filebufSpills
          (fun _ str => str) c).1.m_filestream.text = c.event := by
  intro h
  have hle : LogLevel.DEBUG ≤ LogLevel.INFO := by decide
  have hlost := h ⟨true, true, true, true⟩
    [⟨⟨1, .INFO, longLine 8192⟩, ⟨true, true, true, false⟩⟩]
    ⟨⟨2, .INFO, "b"⟩, ⟨true, true, true, true⟩⟩ (by simp [lastLogged, hle]) hle rfl rfl
  have hrefused : run (logStep filebufSpills fun _ str => str)
      (init ⟨true, true, true, true⟩ .DEBUG "")
      [⟨⟨1, .INFO, longLine 8192⟩, ⟨true, true, true, false⟩⟩] =
      { m_level := .DEBUG, m_lastTime := 1
        m_filestream := { is_open := true, fail := true, content := "", buffer := "" } } := by
    simp [run, logStep, log, init, reopen, BufferedStream.close, BufferedStream.openFile,
      BufferedStream.flush, BufferedStream.write, filebufSpills, longLine_size, hle]
  rw [hrefused, log_dead ⟨rfl, rfl⟩ _ _ hle] at hlost
  revert hlost
  decide

end BufferedAppender

end Coroutine
