import Coroutine.Lib.Run
import Coroutine.Spec.LogFile

/-!
# What a log file keeps

A change of the second reopens the file, and an `open` truncates it.

* `log_eq`: what one event does to an appender whose stream is good.
* `run_content_iff`: a run keeps what the file holds and all it writes, if and only if nothing that
  is not empty is followed by an event of another second.
* `file_keeps_iff`: so from the constructor on.
-/

namespace Coroutine

open Lib

namespace FileLogAppender

variable {ε : Type} {format : LogLevel → ε → String} {ap : FileLogAppender}

/-- The stream is open and has not failed. -/
def Good (ap : FileLogAppender) : Prop :=
  ap.m_filestream.is_open = true ∧ ap.m_filestream.fail = false

/-- What the file holds. -/
def content (ap : FileLogAppender) : String := ap.m_filestream.content

/-- The events of the run that are written, as the appender formats them. -/
def texts (format : LogLevel → ε → String) (m_level : LogLevel) (es : List (TimedEvent ε)) : String :=
  String.join ((es.filter fun e => e.level ≥ m_level).map fun e => format e.level e.event)

/-- No text is followed by an event of another second. -/
def OneSecond (format : LogLevel → ε → String) (m_level : LogLevel) (es : List (TimedEvent ε)) : Prop :=
  (es.filter fun e => e.level ≥ m_level).Pairwise fun e e' =>
    format e.level e.event = "" ∨ e.now = e'.now

theorem reopen_good (h : ap.Good) :
    ap.reopen.Good ∧ ap.reopen.content = "" ∧ ap.reopen.m_level = ap.m_level := by
  obtain ⟨hopen, hfail⟩ := h
  unfold reopen Good content
  simp [hopen, hfail, Ofstream.close, Ofstream.openFile]

theorem init_good (m_level : LogLevel) (content : String) :
    (init m_level content).Good ∧ (init m_level content).content = "" :=
  ⟨⟨rfl, rfl⟩, rfl⟩

/-- **One event.** -/
theorem log_eq (h : ap.Good) (e : TimedEvent ε) :
    (ap.log format e).Good ∧ (ap.log format e).m_level = ap.m_level ∧
      (e.level < ap.m_level → ap.log format e = ap) ∧
      (ap.m_level ≤ e.level → (ap.log format e).m_lastTime = e.now ∧
        (ap.log format e).content =
          (if e.now = ap.m_lastTime then ap.content else "") ++ format e.level e.event) := by
  obtain ⟨hgood, hempty, hlevel⟩ := reopen_good h
  unfold log
  split
  · rename_i hle
    have hnot : ¬ e.level < ap.m_level := Nat.not_lt.2 hle
    by_cases hnow : e.now = ap.m_lastTime
    · obtain ⟨hopen, hfail⟩ := h
      simp [hnow, hnot, Good, content, Ofstream.write, hopen, hfail]
    · obtain ⟨hopen, hfail⟩ := hgood
      unfold content at hempty
      simp [hnow, hnot, Good, content, Ofstream.write, hopen, hfail, hempty, hlevel]
  · rename_i hlt
    exact ⟨h, rfl, fun _ => rfl, fun hle => absurd hle hlt⟩

theorem texts_pass {e : TimedEvent ε} {m_level : LogLevel} (he : m_level ≤ e.level)
    (es : List (TimedEvent ε)) :
    texts format m_level (e :: es) = format e.level e.event ++ texts format m_level es := by
  unfold texts
  rw [List.filter_cons_of_pos (by simpa using he), List.map_cons, String.join_cons]

theorem texts_skip {e : TimedEvent ε} {m_level : LogLevel} (he : e.level < m_level)
    (es : List (TimedEvent ε)) : texts format m_level (e :: es) = texts format m_level es := by
  unfold texts
  rw [List.filter_cons_of_neg (by simpa using he)]

theorem oneSecond_pass {e : TimedEvent ε} {m_level : LogLevel} (he : m_level ≤ e.level)
    (es : List (TimedEvent ε)) :
    OneSecond format m_level (e :: es) ↔
      (format e.level e.event = "" ∨ ∀ e' ∈ es, m_level ≤ e'.level → e.now = e'.now) ∧
        OneSecond format m_level es := by
  unfold OneSecond
  rw [List.filter_cons_of_pos (by simpa using he), List.pairwise_cons]
  simp only [List.mem_filter, decide_eq_true_eq, and_imp, forall_or_left]

theorem oneSecond_skip {e : TimedEvent ε} {m_level : LogLevel} (he : e.level < m_level)
    (es : List (TimedEvent ε)) :
    OneSecond format m_level (e :: es) ↔ OneSecond format m_level es := by
  unfold OneSecond
  rw [List.filter_cons_of_neg (by simpa using he)]

variable (format) in
/-- A run never leaves more in the file than it was to keep. -/
theorem run_length_le (es : List (TimedEvent ε)) (h : ap.Good) :
    (run (log format) ap es).content.length ≤
      ap.content.length + (texts format ap.m_level es).length := by
  induction es generalizing ap with
  | nil => exact Nat.le_add_right _ _
  | cons e es ih =>
    obtain ⟨hgood, hlevel, hskip, hpass⟩ := log_eq h e
    rw [run_cons]
    rcases Nat.lt_or_ge e.level ap.m_level with hlt | hle
    · rw [hskip hlt, texts_skip hlt]
      exact ih h
    · obtain ⟨-, hcontent⟩ := hpass hle
      have hrest := ih hgood
      rw [hlevel, hcontent, String.length_append] at hrest
      rw [texts_pass hle, String.length_append]
      split at hrest
      · omega
      · rw [String.length_empty] at hrest
        omega

variable (format) in
/-- **What a run keeps**, from an appender that has written at second `m_lastTime`. -/
theorem run_content_iff (es : List (TimedEvent ε)) (h : ap.Good) :
    (run (log format) ap es).content = ap.content ++ texts format ap.m_level es ↔
      OneSecond format ap.m_level es ∧
        (ap.content = "" ∨ ∀ e ∈ es, ap.m_level ≤ e.level → e.now = ap.m_lastTime) := by
  induction es generalizing ap with
  | nil => simp [texts, OneSecond]
  | cons e es ih =>
    obtain ⟨hgood, hlevel, hskip, hpass⟩ := log_eq h e
    rw [run_cons]
    rcases Nat.lt_or_ge e.level ap.m_level with hlt | hle
    · rw [hskip hlt, texts_skip hlt, oneSecond_skip hlt, ih h, List.forall_mem_cons]
      have hnot : ap.m_level ≤ e.level → e.now = ap.m_lastTime :=
        fun hle => absurd hle (Nat.not_le.2 hlt)
      refine and_congr_right fun _ => or_congr_right ?_
      exact ⟨fun hall => ⟨hnot, hall⟩, fun hall => hall.2⟩
    obtain ⟨htime, hcontent⟩ := hpass hle
    have hih := ih hgood
    rw [hlevel, hcontent, htime] at hih
    rw [texts_pass hle, oneSecond_pass hle, List.forall_mem_cons]
    by_cases hnow : e.now = ap.m_lastTime
    · -- the file is not reopened
      rw [if_pos hnow, String.append_assoc] at hih
      rw [hih, String.append_eq_empty_iff]
      grind
    · rw [if_neg hnow, String.empty_append] at hih
      by_cases hempty : ap.content = ""
      · rw [hempty, String.empty_append, hih]
        grind
      · -- what the file held is gone, and the run writes too little to make up for it
        have hpos : 0 < ap.content.length := by
          rw [Nat.pos_iff_ne_zero]
          exact fun hzero => hempty (String.length_eq_zero_iff.1 hzero)
        have hle' := run_length_le format es hgood
        rw [hlevel, hcontent, if_neg hnow, String.empty_append] at hle'
        constructor
        · intro heq
          rw [heq] at hle'
          simp only [String.length_append] at hle'
          omega
        · rintro ⟨-, habsurd | ⟨hsame, -⟩⟩
          · exact absurd habsurd hempty
          · exact absurd (hsame hle) hnow

/-- **The file holds what the constructor left and every text that was written, in order, if and
only if no text that is not empty is followed by a written event of another second.** -/
theorem file_keeps_iff {ε : Type} (format : LogLevel → ε → String) (m_level : LogLevel)
    (content : String) (es : List (TimedEvent ε)) :
    (run (log format) (init m_level content) es).content =
        (init m_level content).content ++ texts format m_level es ↔
      OneSecond format m_level es := by
  obtain ⟨hgood, hempty⟩ := init_good m_level content
  have hlevel : (init m_level content).m_level = m_level := rfl
  have h := run_content_iff format es hgood
  rw [hlevel] at h
  rw [h]
  exact and_iff_left (.inl hempty)

/-- Two events of one second and one of the next; the file ends with the last alone. -/
theorem reopen_loses :
    ¬ ∀ es : List (TimedEvent String), es.Pairwise (fun e e' => e.now ≤ e'.now) →
      (run (log fun _ str => str) (init .DEBUG "") es).content =
        (init .DEBUG "").content ++ texts (fun _ str => str) .DEBUG es := by
  intro h
  have hrun := h [⟨1, .INFO, "a"⟩, ⟨1, .INFO, "b"⟩, ⟨2, .INFO, "c"⟩] (by decide)
  revert hrun
  decide

end FileLogAppender

end Coroutine
