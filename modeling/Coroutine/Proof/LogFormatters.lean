import Coroutine.Proof.LogReload
import Coroutine.Spec.LogFormatters

/-!
# Appenders that inherit their formatter

A logger's formatter is copied into an appender when the appender is added and has none, and
when the logger's formatter is set. `Owned`: the flag `m_hasFormatter` tells the formatters
that were set on the appender itself.

* `step_inherits_iff`: when an operation leaves every attached appender with the formatter it
  should have.
* `inherits_iff`: so does a run, in which an appender is attached to one logger at a time.
-/

namespace Coroutine

open Lib

namespace LoggerManager

/-- **What setting a logger's formatter does to appenders.** -/
theorem inherit_foldl_appender (val : Option LogFormatter) (as : List ℕ) (s : LoggerManager) (b : ℕ) :
    (as.foldl (inherit val) s).appender b =
      if b ∈ as ∧ (s.appender b).m_hasFormatter = false then { s.appender b with m_formatter := val }
      else s.appender b := by
  induction as generalizing s with
  | nil => simp
  | cons a as ih =>
    have hone : (inherit val s a).appender b =
        if b = a ∧ (s.appender b).m_hasFormatter = false then { s.appender b with m_formatter := val }
        else s.appender b := by
      unfold inherit
      by_cases hba : b = a
      · subst hba
        cases hown : (s.appender b).m_hasFormatter <;> simp [setAppender, hown]
      · split
        · simp [hba]
        · simp [setAppender, hba]
    rw [List.foldl_cons, ih, hone]
    by_cases hba : b = a
    · subst hba
      cases hown : (s.appender b).m_hasFormatter <;> simp [hown]
    · simp [hba]

theorem setFormatterPtr_logger (s : LoggerManager) (l : ℕ) (val : Option LogFormatter) (k : ℕ) :
    (s.setFormatterPtr l val).logger k =
      if k = l then { s.logger l with m_formatter := val } else s.logger k := by
  rw [setFormatterPtr, (inherit_foldl val _ _).1]
  by_cases hk : k = l
  · subst hk; simp [setLogger]
  · simp [setLogger, hk]

theorem setFormatterPtr_appender (s : LoggerManager) (l : ℕ) (val : Option LogFormatter) (a : ℕ) :
    (s.setFormatterPtr l val).appender a =
      if a ∈ (s.logger l).m_appenders ∧ (s.appender a).m_hasFormatter = false then
        { s.appender a with m_formatter := val }
      else s.appender a := by
  rw [setFormatterPtr, inherit_foldl_appender]
  rfl

theorem addAppender_logger (s : LoggerManager) (l a k : ℕ) : (s.addAppender l a).logger k =
    if k = l then { s.logger l with m_appenders := (s.logger l).m_appenders ++ [a] }
    else s.logger k := by
  by_cases hk : k = l
  · subst hk; simp [addAppender, setLogger]
  · simp [addAppender, setLogger, setAppender, hk]

theorem addAppender_appender (s : LoggerManager) (l a b : ℕ) : (s.addAppender l a).appender b =
    if b = a ∧ (s.appender a).m_formatter = none then
      { s.appender a with m_formatter := (s.logger l).m_formatter }
    else s.appender b := by
  by_cases hb : b = a
  · subst hb
    cases hnone : (s.appender b).m_formatter <;> simp [addAppender, setLogger, setAppender, hnone]
  · simp [addAppender, setLogger, setAppender, hb]

theorem delAppender_logger (s : LoggerManager) (l a k : ℕ) : (s.delAppender l a).logger k =
    if k = l then { s.logger l with m_appenders := (s.logger l).m_appenders.erase a }
    else s.logger k := by
  by_cases hk : k = l
  · subst hk; simp [delAppender, setLogger]
  · simp [delAppender, setLogger, hk]

theorem clearAppenders_logger (s : LoggerManager) (l k : ℕ) : (s.clearAppenders l).logger k =
    if k = l then { s.logger l with m_appenders := [] } else s.logger k := by
  by_cases hk : k = l
  · subst hk; simp [clearAppenders, setLogger]
  · simp [clearAppenders, setLogger, hk]

/-- An invalid pattern is refused, a valid one is a formatter. -/
theorem setFormatter_cases (s : LoggerManager) (l : ℕ) (val : String) :
    s.setFormatter l val = s ∨ ∃ f, s.setFormatter l val = s.setFormatterPtr l (some f) := by
  unfold setFormatter
  dsimp only
  split
  · exact Or.inl rfl
  · exact Or.inr ⟨_, rfl⟩

end LoggerManager

namespace Formatters

variable {s : Formatters}

/-- `a` is attached to logger `l`. -/
def Attached (s : Formatters) (l a : ℕ) : Prop := a ∈ (s.loggers.logger l).m_appenders

instance (s : Formatters) (l a : ℕ) : Decidable (s.Attached l a) :=
  inferInstanceAs (Decidable (_ ∈ _))

/-- **Formatters are inherited**: an attached appender without a formatter of its own has its
logger's, one with a formatter of its own keeps it, and none has a null formatter. -/
structure Inherits (s : Formatters) : Prop where
  inherited : ∀ l a, s.Attached l a → (s.loggers.appender a).m_hasFormatter = false →
    (s.loggers.appender a).m_formatter = (s.loggers.logger l).m_formatter
  kept : ∀ l a, s.Attached l a → (s.loggers.appender a).m_hasFormatter = true →
    (s.loggers.appender a).m_formatter = s.own a
  nonnull : ∀ l a, s.Attached l a → (s.loggers.appender a).m_formatter ≠ none

/-- An appender is added only where it is attached to no other logger. -/
def Placed (s : Formatters) : FormatterOp → Prop
  | .addAppender l a => ∀ k, k ≠ l → ¬ s.Attached k a
  | _ => True

/-- **When the operation leaves formatters inherited**: an appender is added with a formatter of
its own, or with none or the logger's to a logger that has one; a logger's formatter is set
to null only where each of its appenders has one of its own; and an appender's formatter is
set to null only while it is attached to no logger. -/
def Passes (s : Formatters) : FormatterOp → Prop
  | .addAppender l a => (s.loggers.appender a).m_hasFormatter = true ∨
    ((s.loggers.appender a).m_formatter = none ∨
      (s.loggers.appender a).m_formatter = (s.loggers.logger l).m_formatter) ∧
      (s.loggers.logger l).m_formatter ≠ none
  | .setFormatterPtr l val => val = none → ∀ a, s.Attached l a →
    (s.loggers.appender a).m_hasFormatter = true
  | .setAppenderFormatter a val => val = none → ∀ l, ¬ s.Attached l a
  | _ => True

/-! ## The flag -/

/-- **The flag tells the formatters set on the appender itself**, and no appender is attached to
two loggers. -/
structure Owned (s : Formatters) : Prop where
  flag : ∀ a, (s.loggers.appender a).m_hasFormatter = (s.own a).isSome
  own : ∀ a f, s.own a = some f → (s.loggers.appender a).m_formatter = some f
  alone : ∀ l k a, s.Attached l a → s.Attached k a → l = k

/-- What is left to see to: the appenders without a formatter of their own. -/
theorem Owned.inherits_bare_iff (hs : s.Owned) : s.Inherits ↔
    ∀ l a, s.Attached l a → (s.loggers.appender a).m_hasFormatter = false →
      (s.loggers.appender a).m_formatter = (s.loggers.logger l).m_formatter ∧
        (s.loggers.logger l).m_formatter ≠ none := by
  constructor
  · intro h l a hatt hnone
    have heq := h.inherited l a hatt hnone
    exact ⟨heq, heq ▸ h.nonnull l a hatt⟩
  · intro h
    have hown : ∀ a, (s.loggers.appender a).m_hasFormatter = true →
        (s.loggers.appender a).m_formatter = s.own a ∧ s.own a ≠ none := by
      intro a htrue
      rw [hs.flag] at htrue
      obtain ⟨f, hf⟩ := Option.isSome_iff_exists.1 htrue
      rw [hs.own a f hf, hf]
      exact ⟨rfl, Option.some_ne_none f⟩
    refine ⟨fun l a hatt hnone => (h l a hatt hnone).1, fun l a _ htrue => (hown a htrue).1, ?_⟩
    intro l a hatt
    cases hflag : (s.loggers.appender a).m_hasFormatter with
    | true =>
      obtain ⟨heq, hne⟩ := hown a hflag
      rw [heq]
      exact hne
    | false =>
      obtain ⟨heq, hne⟩ := h l a hatt hflag
      rw [heq]
      exact hne

/-! ## One operation -/

/-- **A logger loses appenders**, and nothing else changes. -/
theorem detach_inherits (hs : s.Owned) (hinh : s.Inherits) {m : LoggerManager} {l : ℕ} {as : List ℕ}
    (happ : m.appender = s.loggers.appender)
    (hlogger : ∀ k, m.logger k =
      if k = l then { s.loggers.logger l with m_appenders := as } else s.loggers.logger k)
    (hsub : as ⊆ (s.loggers.logger l).m_appenders) :
    Owned { s with loggers := m } ∧ Inherits { s with loggers := m } := by
  have hatt : ∀ k b, b ∈ (m.logger k).m_appenders → s.Attached k b := by
    intro k b hb
    rw [hlogger] at hb
    by_cases hk : k = l
    · subst hk
      rw [if_pos rfl] at hb
      exact hsub hb
    · rw [if_neg hk] at hb
      exact hb
  have hfmt : ∀ k, (m.logger k).m_formatter = (s.loggers.logger k).m_formatter := by
    intro k
    rw [hlogger]
    split
    · rename_i hk; rw [hk]
    · rfl
  have howned : Owned { s with loggers := m } := by
    refine ⟨?_, ?_, ?_⟩
    · intro b
      show (m.appender b).m_hasFormatter = _
      rw [happ]
      exact hs.flag b
    · intro b f hf
      show (m.appender b).m_formatter = _
      rw [happ]
      exact hs.own b f hf
    · exact fun j k b hj hk => hs.alone j k b (hatt j b hj) (hatt k b hk)
  refine ⟨howned, howned.inherits_bare_iff.2 ?_⟩
  intro k b hb hnone
  have hflag : (s.loggers.appender b).m_hasFormatter = false := by rw [← happ]; exact hnone
  show (m.appender b).m_formatter = (m.logger k).m_formatter ∧ (m.logger k).m_formatter ≠ none
  rw [happ, hfmt]
  exact hs.inherits_bare_iff.1 hinh k b (hatt k b hb) hflag

theorem attached_setFormatterPtr (l : ℕ) (val : Option LogFormatter) (k b : ℕ) :
    Attached { s with loggers := s.loggers.setFormatterPtr l val } k b ↔ s.Attached k b := by
  unfold Attached
  dsimp only
  rw [LoggerManager.setFormatterPtr_logger]
  by_cases hk : k = l
  · subst hk; simp
  · simp [hk]

theorem flag_setFormatterPtr (m : LoggerManager) (l : ℕ) (val : Option LogFormatter) (b : ℕ) :
    ((m.setFormatterPtr l val).appender b).m_hasFormatter = (m.appender b).m_hasFormatter := by
  rw [LoggerManager.setFormatterPtr_appender]
  split <;> rfl

/-- Only appenders without a formatter of their own are written to. -/
theorem owned_setFormatterPtr (hs : s.Owned) (l : ℕ) (val : Option LogFormatter) :
    Owned { s with loggers := s.loggers.setFormatterPtr l val } := by
  refine ⟨?_, ?_, ?_⟩
  · intro b
    rw [flag_setFormatterPtr]
    exact hs.flag b
  · intro b f hf
    have hown : (s.loggers.appender b).m_hasFormatter = true := by
      have hf' : s.own b = some f := hf
      rw [hs.flag, hf']
      rfl
    show ((s.loggers.setFormatterPtr l val).appender b).m_formatter = _
    rw [LoggerManager.setFormatterPtr_appender, if_neg (by simp [hown])]
    exact hs.own b f hf
  · intro j k b hj hk
    exact hs.alone j k b ((attached_setFormatterPtr l val j b).1 hj)
      ((attached_setFormatterPtr l val k b).1 hk)

/-- **A logger's formatter is set.** -/
theorem setFormatterPtr_inherits (hs : s.Owned) (hinh : s.Inherits) (l : ℕ) (val : Option LogFormatter) :
    Owned { s with loggers := s.loggers.setFormatterPtr l val } ∧
      (Inherits { s with loggers := s.loggers.setFormatterPtr l val } ↔
        s.Passes (.setFormatterPtr l val)) := by
  have howned := owned_setFormatterPtr hs l val
  refine ⟨howned, howned.inherits_bare_iff.trans ?_⟩
  constructor
  · intro h hval b hb
    by_contra hnone
    have hnone' : (s.loggers.appender b).m_hasFormatter = false := by simpa using hnone
    have hne := (h l b ((attached_setFormatterPtr l val l b).2 hb)
      ((flag_setFormatterPtr s.loggers l val b).trans hnone')).2
    rw [LoggerManager.setFormatterPtr_logger, if_pos rfl] at hne
    exact hne hval
  · intro hpass k b hb hnone
    have hb' := (attached_setFormatterPtr l val k b).1 hb
    have hnone' : (s.loggers.appender b).m_hasFormatter = false :=
      (flag_setFormatterPtr s.loggers l val b).symm.trans hnone
    show ((s.loggers.setFormatterPtr l val).appender b).m_formatter =
        ((s.loggers.setFormatterPtr l val).logger k).m_formatter ∧
      ((s.loggers.setFormatterPtr l val).logger k).m_formatter ≠ none
    rw [LoggerManager.setFormatterPtr_appender, LoggerManager.setFormatterPtr_logger]
    by_cases hk : k = l
    · subst hk
      have hval : val ≠ none := by
        intro hval
        have htrue := hpass hval b hb'
        rw [hnone'] at htrue
        cases htrue
      rw [if_pos ⟨hb', hnone'⟩, if_pos rfl]
      exact ⟨rfl, hval⟩
    · -- an appender of another logger is not reached
      have hout : b ∉ (s.loggers.logger l).m_appenders := fun h => hk (hs.alone k l b hb' h)
      rw [if_neg (fun h => hout h.1), if_neg hk]
      exact hs.inherits_bare_iff.1 hinh k b hb' hnone'

theorem attached_addAppender (l a k b : ℕ) :
    Attached { s with loggers := s.loggers.addAppender l a } k b ↔
      s.Attached k b ∨ k = l ∧ b = a := by
  unfold Attached
  dsimp only
  rw [LoggerManager.addAppender_logger]
  by_cases hk : k = l
  · subst hk; simp
  · simp [hk]

theorem flag_addAppender (m : LoggerManager) (l a b : ℕ) :
    ((m.addAppender l a).appender b).m_hasFormatter = (m.appender b).m_hasFormatter := by
  rw [LoggerManager.addAppender_appender]
  split
  · rename_i hb; rw [hb.1]
  · rfl

theorem formatter_addAppender (m : LoggerManager) (l a k : ℕ) :
    ((m.addAppender l a).logger k).m_formatter = (m.logger k).m_formatter := by
  rw [LoggerManager.addAppender_logger]
  split
  · rename_i hk; rw [hk]
  · rfl

/-- Only an appender with a null formatter is written to. -/
theorem owned_addAppender (hs : s.Owned) {l a : ℕ} (hplaced : ∀ k, k ≠ l → ¬ s.Attached k a) :
    Owned { s with loggers := s.loggers.addAppender l a } := by
  refine ⟨?_, ?_, ?_⟩
  · intro b
    rw [flag_addAppender]
    exact hs.flag b
  · intro b f hf
    have hown := hs.own b f hf
    show ((s.loggers.addAppender l a).appender b).m_formatter = _
    rw [LoggerManager.addAppender_appender, if_neg]
    · exact hown
    · rintro ⟨rfl, hnone⟩
      rw [hown] at hnone
      cases hnone
  · intro j k b hj hk
    rcases (attached_addAppender l a j b).1 hj with hjold | ⟨rfl, rfl⟩
    · rcases (attached_addAppender l a k b).1 hk with hkold | ⟨rfl, rfl⟩
      · exact hs.alone j k b hjold hkold
      · by_contra hne
        exact hplaced j hne hjold
    · rcases (attached_addAppender _ _ k _).1 hk with hkold | ⟨rfl, -⟩
      · by_contra hne
        exact hplaced k (Ne.symm hne) hkold
      · rfl

/-- **An appender is added.** -/
theorem addAppender_inherits (hs : s.Owned) (hinh : s.Inherits) {l a : ℕ}
    (hplaced : s.Placed (.addAppender l a)) :
    Owned { s with loggers := s.loggers.addAppender l a } ∧
      (Inherits { s with loggers := s.loggers.addAppender l a } ↔ s.Passes (.addAppender l a)) := by
  have howned := owned_addAppender hs hplaced
  refine ⟨howned, howned.inherits_bare_iff.trans ?_⟩
  constructor
  · intro h
    cases hown : (s.loggers.appender a).m_hasFormatter with
    | true => exact Or.inl hown
    | false =>
      obtain ⟨heq, hne⟩ := h l a ((attached_addAppender l a l a).2 (Or.inr ⟨rfl, rfl⟩))
        ((flag_addAppender s.loggers l a a).trans hown)
      have heq' : ((s.loggers.addAppender l a).appender a).m_formatter =
          (s.loggers.logger l).m_formatter := heq.trans (formatter_addAppender s.loggers l a l)
      have hne' : (s.loggers.logger l).m_formatter ≠ none :=
        fun h => hne ((formatter_addAppender s.loggers l a l).trans h)
      refine Or.inr ⟨?_, hne'⟩
      rw [LoggerManager.addAppender_appender] at heq'
      by_cases hnone : (s.loggers.appender a).m_formatter = none
      · exact Or.inl hnone
      · rw [if_neg (fun h => hnone h.2)] at heq'
        exact Or.inr heq'
  · intro hpass k b hb hnone
    have hnone' : (s.loggers.appender b).m_hasFormatter = false :=
      (flag_addAppender s.loggers l a b).symm.trans hnone
    show ((s.loggers.addAppender l a).appender b).m_formatter =
        ((s.loggers.addAppender l a).logger k).m_formatter ∧
      ((s.loggers.addAppender l a).logger k).m_formatter ≠ none
    rw [formatter_addAppender, LoggerManager.addAppender_appender]
    rcases (attached_addAppender l a k b).1 hb with hold | ⟨rfl, rfl⟩
    · -- an appender attached before has a formatter, so it is not written to
      obtain ⟨heq, hne⟩ := hs.inherits_bare_iff.1 hinh k b hold hnone'
      rw [if_neg]
      · exact ⟨heq, hne⟩
      · rintro ⟨rfl, hnull⟩
        rw [hnull] at heq
        exact hne heq.symm
    · have hcase := hpass.resolve_left (by rw [hnone']; decide)
      refine ⟨?_, hcase.2⟩
      by_cases hnull : (s.loggers.appender b).m_formatter = none
      · rw [if_pos ⟨rfl, hnull⟩]
      · rw [if_neg (fun h => hnull h.2)]
        exact hcase.1.resolve_left hnull

/-- **An appender's formatter is set.** -/
theorem setAppenderFormatter_inherits (hs : s.Owned) (hinh : s.Inherits) (a : ℕ)
    (val : Option LogFormatter) :
    Owned (step s (.setAppenderFormatter a val)) ∧
      (Inherits (step s (.setAppenderFormatter a val)) ↔ s.Passes (.setAppenderFormatter a val)) := by
  have happ : ∀ b, (step s (.setAppenderFormatter a val)).loggers.appender b =
      if b = a then (s.loggers.appender a).setFormatter val else s.loggers.appender b := by
    intro b
    by_cases hb : b = a
    · subst hb; simp [step, call, LoggerManager.setAppender]
    · simp [step, call, LoggerManager.setAppender, hb]
  have hown : ∀ b, (step s (.setAppenderFormatter a val)).own b = if b = a then val else s.own b := by
    intro b
    by_cases hb : b = a
    · subst hb; simp [step]
    · simp [step, hb]
  have hatt : ∀ k b, (step s (.setAppenderFormatter a val)).Attached k b ↔ s.Attached k b :=
    fun _ _ => Iff.rfl
  have howned : Owned (step s (.setAppenderFormatter a val)) := by
    refine ⟨?_, ?_, hs.alone⟩
    · intro b
      rw [happ, hown]
      by_cases hb : b = a
      · rw [if_pos hb, if_pos hb]; rfl
      · rw [if_neg hb, if_neg hb]; exact hs.flag b
    · intro b f hf
      rw [hown] at hf
      rw [happ]
      by_cases hb : b = a
      · rw [if_pos hb] at hf ⊢
        exact hf
      · rw [if_neg hb] at hf ⊢
        exact hs.own b f hf
  refine ⟨howned, howned.inherits_bare_iff.trans ?_⟩
  constructor
  · intro h hval l hl
    have hset := h l a ((hatt l a).2 hl)
    rw [happ, if_pos rfl, hval] at hset
    obtain ⟨heq, hne⟩ := hset rfl
    exact hne heq.symm
  · intro hpass k b hb hnone
    rw [happ] at hnone ⊢
    by_cases hba : b = a
    · subst hba
      rw [if_pos rfl] at hnone
      -- it has no formatter of its own, so it was set to null, but it is attached
      have hval : val = none := by simpa [LogAppender.setFormatter] using hnone
      exact absurd hb (hpass hval k)
    · rw [if_neg hba] at hnone ⊢
      exact hs.inherits_bare_iff.1 hinh k b hb hnone

/-- **When an operation leaves formatters inherited.** -/
theorem step_inherits_iff (hs : s.Owned) (hinh : s.Inherits) (op : FormatterOp)
    (hplaced : s.Placed op) : (step s op).Owned ∧ ((step s op).Inherits ↔ s.Passes op) := by
  cases op with
  | addAppender l a => exact addAppender_inherits hs hinh hplaced
  | setFormatterPtr l val => exact setFormatterPtr_inherits hs hinh l val
  | setAppenderFormatter a val => exact setAppenderFormatter_inherits hs hinh a val
  | delAppender l a =>
    have hafter : Owned { s with loggers := s.loggers.delAppender l a } ∧
        Inherits { s with loggers := s.loggers.delAppender l a } :=
      detach_inherits hs hinh rfl (LoggerManager.delAppender_logger s.loggers l a) List.erase_subset
    exact ⟨hafter.1, fun _ => trivial, fun _ => hafter.2⟩
  | clearAppenders l =>
    have hafter : Owned { s with loggers := s.loggers.clearAppenders l } ∧
        Inherits { s with loggers := s.loggers.clearAppenders l } :=
      detach_inherits hs hinh rfl (LoggerManager.clearAppenders_logger s.loggers l)
        (List.nil_subset _)
    exact ⟨hafter.1, fun _ => trivial, fun _ => hafter.2⟩
  | setFormatter l val =>
    have hstep : step s (.setFormatter l val) = { s with loggers := s.loggers.setFormatter l val } := rfl
    rw [hstep]
    rcases s.loggers.setFormatter_cases l val with hsame | ⟨f, hf⟩
    · rw [hsame]
      exact ⟨hs, fun _ => trivial, fun _ => hinh⟩
    · rw [hf]
      have hset := setFormatterPtr_inherits hs hinh l (some f)
      refine ⟨hset.1, fun _ => trivial, fun _ => hset.2.2 ?_⟩
      intro hnone
      cases hnone

/-! ## Runs -/

theorem init_owned (name : ℕ → String) (kind : ℕ → AppenderKind) : (init name kind).Owned := by
  refine ⟨fun _ => rfl, ?_, ?_⟩
  · intro a f hf; cases hf
  · intro l k a hl; cases hl

theorem init_inherits (name : ℕ → String) (kind : ℕ → AppenderKind) : (init name kind).Inherits := by
  refine ⟨?_, ?_, ?_⟩
  · intro l a hatt; cases hatt
  · intro l a hatt; cases hatt
  · intro l a hatt; cases hatt

/-- **When formatters are inherited** in all states of a run. -/
theorem inherits_iff (name : ℕ → String) (kind : ℕ → AppenderKind) (ops : List FormatterOp)
    (hplaced : Along step Placed (init name kind) ops) :
    (∀ s ∈ trace step (init name kind) ops, s.Inherits) ↔ Along step Passes (init name kind) ops :=
  forall_trace_iff_along (fun _ op hs hinh hplaced _ => (step_inherits_iff hs hinh op hplaced).1)
    (fun _ op hs hinh hplaced => (step_inherits_iff hs hinh op hplaced).2) ops (init_owned name kind)
    (init_inherits name kind) hplaced

/-- Two formatters, of the message and of the level. -/
def message : LogFormatter := { m_pattern := "%m", m_items := [.MessageFormatItem ""], m_error := false }
def level : LogFormatter := { m_pattern := "%p", m_items := [.LevelFormatItem ""], m_error := false }

/-- An appender is added to a logger, whose formatter is then set, and given one of its own. -/
def added : List FormatterOp :=
  [.addAppender 0 0, .setFormatterPtr 0 (some message), .setAppenderFormatter 0 (some level)]

theorem inherits_iff_added :
    (run step (init (fun _ => "") fun _ => .StdoutLogAppender) added).Inherits := by
  refine (inherits_iff (fun _ => "") (fun _ => .StdoutLogAppender) added
    ⟨fun _ _ => List.not_mem_nil, trivial, trivial, trivial⟩).2
    ⟨Or.inr ⟨Or.inl rfl, ?_⟩, ?_, ?_, trivial⟩ _ (run_mem_trace _ _)
  · exact Option.some_ne_none _
  · intro hnone; cases hnone
  · intro hnone; cases hnone

/-- An appender is moved from one logger to another. -/
def moved : List FormatterOp :=
  [.setFormatterPtr 0 (some message), .setFormatterPtr 1 (some level), .addAppender 0 0,
    .delAppender 0 0, .addAppender 1 0]

/-- It keeps the formatter of the first. -/
theorem moved_keeps_old :
    Along step Placed (init (fun _ => "") fun _ => .StdoutLogAppender) moved ∧
      ¬ ∀ s ∈ trace step (init (fun _ => "") fun _ => .StdoutLogAppender) moved, s.Inherits := by
  refine ⟨⟨trivial, trivial, fun _ _ => ?_, trivial, fun k hk => ?_, trivial⟩, ?_⟩
  · simp only [Attached, step, call, LoggerManager.setFormatterPtr_logger]
    split_ifs <;> exact List.not_mem_nil
  · simp only [Attached, step, call, LoggerManager.delAppender_logger,
      LoggerManager.addAppender_logger, LoggerManager.setFormatterPtr_logger]
    split_ifs <;> exact List.not_mem_nil
  · intro h
    have hlast := h _ (List.mem_of_getLast? rfl)
    have heq : some message = some level := hlast.inherited 1 0 (by decide) (by decide)
    exact absurd heq (by decide)

end Formatters

end Coroutine
