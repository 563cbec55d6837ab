import Coroutine.Spec.LogYaml

/-!
# Reading back what was written

The decoder tests the key `levle` before it reads `level`, never reads the level of an appender,
and finds no `formatter` where `FileLogAppender::toYamlString` writes `fomatter`.

* `get_ofPairs`, `lookup_field`: reading a key of a node that was written key by key.
* `appender_ofNode`, `define_ofNode`: what the decoder makes of an encoded definition.
* `define_round_trip_iff`: when that is the definition itself.
* `logger_ofNode`, `dumped_not_loaded`: the same for `Logger::toYamlString`, which never is.
-/

namespace Coroutine

open YamlNode

namespace YamlNode

@[simp] theorem get_ofPairs (pairs : List (String × YamlNode)) (key : String) :
    (ofPairs pairs).get key = .ok (pairs.lookup key) := by
  cases pairs <;> rfl

theorem lookup_one (key key' : String) (n : YamlNode) :
    [(key, n)].lookup key' = if key' = key then some n else none := by
  by_cases h : key' = key
  · simp [h]
  · have hbeq : (key' == key) = false := by simpa using h
    simp [List.lookup_cons, hbeq, h]

@[simp] theorem lookup_field (cond : Bool) (key key' text : String) :
    (field cond key text).lookup key' =
      if cond = true ∧ key' = key then some (.scalar text) else none := by
  unfold field
  cases cond
  · simp
  · simp [lookup_one]

@[simp] theorem lookup_pushed (key key' : String) (items : List YamlNode) :
    (pushed key items).lookup key' =
      if items ≠ [] ∧ key' = key then some (.sequence items) else none := by
  unfold pushed
  cases items
  · simp
  · simp [lookup_one]

@[simp] theorem items_sequence (as : List YamlNode) :
    (YamlNode.sequence as).items = as.map fun a => .ok (some a) := by
  refine List.ext_getElem (by simp [items, size]) fun i h _ => ?_
  have hi : i < as.length := by simpa [items, size] using h
  simp [items, item, hi]

end YamlNode

theorem ok_bind {ε β γ : Type} (b : β) (f : β → Except ε γ) : (Except.ok b >>= f) = f b := rfl

/-- A loop whose body throws nowhere. -/
theorem mapM_ok {ε β γ : Type} {f : β → Except ε γ} {g : β → γ} {bs : List β}
    (h : ∀ b ∈ bs, f b = .ok (g b)) : bs.mapM f = .ok (bs.map g) := by
  induction bs with
  | nil => rfl
  | cons b bs ih =>
    obtain ⟨hone, hrest⟩ := List.forall_mem_cons.1 h
    rw [List.mapM_cons, hone, ih hrest]
    rfl

/-! ## Definitions -/

/-- An appender of type 1 with a file, or of type 2 without. -/
def LogAppenderDfine.Encodable (a : LogAppenderDfine) : Prop := a.type = 1 ∨ a.type = 2 ∧ a.file = ""

/-- **An encoded appender** loses its level. -/
theorem appender_ofNode {a : LogAppenderDfine} (h : a.Encodable) :
    LogAppenderDfine.ofNode (some a.toNode) = .ok (some { a with level := .UNKNOW }) := by
  obtain ⟨type, level, formatter, file⟩ := a
  unfold LogAppenderDfine.ofNode LogAppenderDfine.toNode getString
  rcases h with rfl | ⟨rfl, rfl⟩
  · by_cases hf : formatter = "" <;>
      simp [hf, List.lookup_append, List.lookup_cons, bind, Except.bind, asString]
  · by_cases hf : formatter = "" <;>
      simp [hf, List.lookup_append, List.lookup_cons, bind, Except.bind, asString]

/-- **A node with these fields**, whatever level it has. -/
theorem ofNode_fields {α : Type} {pairs : List (String × YamlNode)} {name formatter : String}
    {as : List α} {node : α → YamlNode} {g : α → LogAppenderDfine}
    (hname : pairs.lookup "name" = some (.scalar name)) (hlevle : pairs.lookup "levle" = none)
    (hformatter : (ofPairs pairs).getString "formatter" "" = .ok formatter)
    (happenders : pairs.lookup "appenders" =
      if as.map node ≠ [] then some (.sequence (as.map node)) else none)
    (h : ∀ a ∈ as, LogAppenderDfine.ofNode (some (node a)) = .ok (some (g a))) :
    LogDefine.ofNode (ofPairs pairs) =
      .ok { name := name, level := .UNKNOW, formatter := formatter, appenders := as.map g } := by
  have hloop : ((YamlNode.sequence (as.map node)).items.mapM fun a => do
      LogAppenderDfine.ofNode (← a)) = .ok ((as.map g).map some) := by
    rw [items_sequence, List.map_map, List.mapM_map, List.map_map]
    exact mapM_ok fun a ha => h a ha
  have hsome : ((as.map g).map some).filterMap id = as.map g := by
    rw [List.filterMap_map, Function.id_comp]
    exact List.filterMap_some
  unfold LogDefine.ofNode
  simp only [get_ofPairs, hname, hlevle, hformatter, happenders, ok_bind, asString,
    Option.isSome_none, Bool.false_eq_true, if_false]
  by_cases ha : as = []
  · subst ha
    rfl
  · rw [if_pos (by simpa using ha)]
    simp only [hloop, ok_bind, hsome]
    rfl

/-- **An encoded definition** loses its level and those of its appenders. -/
theorem define_ofNode {d : LogDefine} (h : ∀ a ∈ d.appenders, a.Encodable) :
    LogDefine.ofNode d.toNode =
      .ok { d with
        level := .UNKNOW, appenders := d.appenders.map fun a => { a with level := .UNKNOW } } := by
  refine ofNode_fields ?_ ?_ ?_ ?_ fun a ha => appender_ofNode (h a ha)
  · simp
  · simp [List.lookup_append, List.lookup_cons]
  · unfold getString
    by_cases hf : d.formatter = "" <;> simp [hf, List.lookup_append, List.lookup_cons, ok_bind, asString]
  · simp [List.lookup_append, List.lookup_cons]

/-- **The round trip of a definition**: it comes back, if and only if it has no level and none of
its appenders has. -/
theorem define_round_trip_iff (emit : YamlNode → String)
    (Load : String → Except YamlException YamlNode) (d : LogDefine)
    (happenders : ∀ a ∈ d.appenders, a.Encodable) (hload : Load (emit d.toNode) = .ok d.toNode) :
    LogDefine.fromYaml Load (d.toYaml emit) = .ok d ↔
      d.level = .UNKNOW ∧ ∀ a ∈ d.appenders, a.level = .UNKNOW := by
  unfold LogDefine.fromYaml LogDefine.toYaml
  rw [hload, ok_bind, define_ofNode happenders]
  obtain ⟨name, level, formatter, appenders⟩ := d
  have hmap : appenders.map (fun a => { a with level := .UNKNOW }) = appenders ↔
      ∀ a ∈ appenders, a.level = LogLevel.UNKNOW := by
    nth_rewrite 2 [← List.map_id appenders]
    rw [List.map_inj_left]
    refine forall₂_congr fun a _ => ?_
    obtain ⟨type, level, formatter, file⟩ := a
    simp [eq_comm]
  simp only [Except.ok.injEq, LogDefine.mk.injEq, true_and, hmap]
  exact and_congr_left' eq_comm

/-- A definition with a level, of a logger with two appenders, one of which has a level. -/
def rootDefine : LogDefine where
  name := "root"
  level := .INFO
  appenders := [{ type := 1, level := .DEBUG, file := "root.txt" }, { type := 2, formatter := "%m%n" }]

/-- What it is written as. -/
def rootDefineText : String :=
  "name: root\nlevel: INFO\nappenders:\n  - type: FileLogAppender\n    file: root.txt\n" ++
    "    level: DEBUG\n  - type: StdoutLogAppender\n    formatter: \"%m%n\""

theorem define_round_trip_root :
    LogDefine.fromYaml (fun _ => .ok rootDefine.toNode) (rootDefine.toYaml fun _ => rootDefineText) =
        .ok rootDefine ↔
      rootDefine.level = .UNKNOW ∧ ∀ a ∈ rootDefine.appenders, a.level = .UNKNOW :=
  define_round_trip_iff (fun _ => rootDefineText) (fun _ => .ok rootDefine.toNode) rootDefine
    (List.forall_mem_cons.2 ⟨.inl rfl, List.forall_mem_cons.2 ⟨.inr ⟨rfl, rfl⟩, by simp⟩⟩) rfl

/-- A definition with a level: it is written and not read back. -/
def infoDefine : LogDefine := { name := "root", level := .INFO }

theorem level_not_read_back :
    ¬ ∀ (emit : YamlNode → String) (Load : String → Except YamlException YamlNode) (d : LogDefine),
      (∀ a ∈ d.appenders, a.Encodable) → Load (emit d.toNode) = .ok d.toNode →
        LogDefine.fromYaml Load (d.toYaml emit) = .ok d := by
  intro h
  have hback := h (fun _ => "name: root\nlevel: INFO") (fun _ => .ok infoDefine.toNode) infoDefine
    (fun _ ha => absurd ha List.not_mem_nil) rfl
  cases hback

/-! ## Loggers -/

/-- The pattern of an appender's own formatter, if it has one. -/
def LogAppender.ownPattern (ap : LogAppender) : String :=
  if ap.m_hasFormatter then ap.m_formatter.elim "" (·.m_pattern) else ""

/-- **The definition of an appender**: its kind, file, level and own pattern. -/
def LogAppender.define (ap : LogAppender) : LogAppenderDfine :=
  match ap.kind with
  | .FileLogAppender m_filename =>
    { type := 1, level := ap.m_level, formatter := ap.ownPattern, file := m_filename }
  | .StdoutLogAppender => { type := 2, level := ap.m_level, formatter := ap.ownPattern }

/-- What the decoder makes of an appender. -/
def LogAppender.readBack (ap : LogAppender) : LogAppenderDfine :=
  match ap.kind with
  | .FileLogAppender _ => { ap.define with level := .UNKNOW, formatter := "" }
  | .StdoutLogAppender => { ap.define with level := .UNKNOW }

@[simp] theorem lookup_patternField (formatter : Option LogFormatter) (key key' : String) :
    (patternField formatter key).lookup key' =
      if key' = key then formatter.map fun f => .scalar f.m_pattern else none := by
  cases formatter
  · simp [patternField]
  · simp [patternField, lookup_one]

/-- A written appender. -/
theorem toNode_readBack (ap : LogAppender) :
    LogAppenderDfine.ofNode (some ap.toNode) = .ok (some ap.readBack) := by
  obtain ⟨kind, level, hasFormatter, formatter⟩ := ap
  unfold LogAppenderDfine.ofNode LogAppender.toNode LogAppender.readBack getString
  cases kind <;> cases hasFormatter <;> cases formatter <;>
    simp [LogAppender.define, LogAppender.ownPattern, List.lookup_append, List.lookup_cons, ok_bind,
      asString]

namespace LoggerManager

variable {s : LoggerManager} {l : ℕ} {emit : YamlNode → String}
  {Load : String → Except YamlException YamlNode}

/-- **The definition of a logger.** -/
def loggerDefine (s : LoggerManager) (l : ℕ) : LogDefine where
  name := (s.logger l).m_name
  level := (s.logger l).m_level
  formatter := (s.logger l).m_formatter.elim "" (·.m_pattern)
  appenders := (s.logger l).m_appenders.map fun a => (s.appender a).define

/-- The nodes that a dump emits. -/
def dumpedNodes (s : LoggerManager) (l : ℕ) : List YamlNode :=
  let nodes := (s.logger l).m_appenders.map fun a => (s.appender a).toNode
  s.loggerNode l nodes :: nodes

/-- **A dump can be loaded back**: it decodes to the definition of the logger. -/
def LoadsBack (emit : YamlNode → String) (Load : String → Except YamlException YamlNode)
    (s : LoggerManager) (l : ℕ) : Prop :=
  (do LogDefine.fromYaml Load (← s.toYamlString emit Load l)) = .ok (s.loggerDefine l)

/-- **What a dump decodes to.** -/
theorem toYamlString_readBack (hload : ∀ n ∈ s.dumpedNodes l, Load (emit n) = .ok n) :
    (do LogDefine.fromYaml Load (← s.toYamlString emit Load l)) =
      .ok { s.loggerDefine l with
        level := .UNKNOW
        appenders := (s.logger l).m_appenders.map fun a => (s.appender a).readBack } := by
  obtain ⟨hlogger, happenders⟩ := List.forall_mem_cons.1 hload
  have hnodes : ((s.logger l).m_appenders.mapM fun a => Load ((s.appender a).toYamlString emit)) =
      .ok ((s.logger l).m_appenders.map fun a => (s.appender a).toNode) :=
    mapM_ok fun a ha => happenders _ (List.mem_map_of_mem ha)
  unfold toYamlString LogDefine.fromYaml
  rw [hnodes, ok_bind, ok_bind, hlogger, ok_bind]
  refine ofNode_fields ?_ ?_ ?_ ?_ fun a _ => toNode_readBack (s.appender a)
  · simp [loggerDefine]
  · simp [List.lookup_append, List.lookup_cons]
  · unfold getString loggerDefine
    cases (s.logger l).m_formatter <;>
      simp [List.lookup_append, List.lookup_cons, ok_bind, asString]
  · simp [List.lookup_append, List.lookup_cons]

/-- **No dump of a logger with a level can be loaded back.** -/
theorem dumped_not_loaded (emit : YamlNode → String)
    (Load : String → Except YamlException YamlNode) (s : LoggerManager) (l : ℕ)
    (hlevel : (s.logger l).m_level ≠ .UNKNOW)
    (hload : ∀ n ∈ s.dumpedNodes l, Load (emit n) = .ok n) : ¬ s.LoadsBack emit Load l := by
  unfold LoadsBack
  rw [toYamlString_readBack hload]
  intro h
  have hdefine := Except.ok.inj h
  exact hlevel (congrArg LogDefine.level hdefine).symm

/-- A logger with a level, a formatter and an appender of each kind. -/
def rootLogger : LoggerManager :=
  { LoggerManager.init with
    logger := fun _ =>
      { m_name := "root", m_level := .INFO, m_formatter := some (.init "%m%n"), m_appenders := [0, 1] }
    appender := fun a => { kind := if a = 0 then .FileLogAppender "root.txt" else .StdoutLogAppender } }

/-- What it is dumped as, and its appenders: their nodes have two, three and four keys. -/
def rootEmit (n : YamlNode) : String :=
  match n.size with
  | 2 => "type: StdoutLogAppender\nlevel: DEBUG"
  | 3 => "type: FileLogAppender\nfile: root.txt\nlevel: DEBUG"
  | _ => "name: root\nlevel: INFO\nformatter: \"%m%n\"\nappenders:\n  - type: FileLogAppender\n" ++
      "    file: root.txt\n    level: DEBUG\n  - type: StdoutLogAppender\n    level: DEBUG"

/-- `YAML::Load` of these texts. -/
def rootLoad (v : String) : Except YamlException YamlNode :=
  if v = "type: StdoutLogAppender\nlevel: DEBUG" then .ok (rootLogger.appender 1).toNode
  else if v = "type: FileLogAppender\nfile: root.txt\nlevel: DEBUG" then
    .ok (rootLogger.appender 0).toNode
  else .ok (rootLogger.loggerNode 0 [(rootLogger.appender 0).toNode, (rootLogger.appender 1).toNode])

theorem dumped_not_loaded_root : ¬ rootLogger.LoadsBack rootEmit rootLoad 0 := by
  refine dumped_not_loaded rootEmit rootLoad rootLogger 0 (by decide) ?_
  refine List.forall_mem_cons.2 ⟨?_, List.forall_mem_cons.2 ⟨?_, List.forall_mem_cons.2 ⟨?_, by simp⟩⟩⟩
  · rfl
  · rfl
  · rfl

/-- A logger with a level, a formatter and no appender. -/
def infoLogger : LoggerManager :=
  { LoggerManager.init with
    logger := fun _ => { m_name := "root", m_level := .INFO, m_formatter := some (.init "%m%n") } }

/-- What it is dumped as. -/
def infoText : String := "name: root\nlevel: INFO\nformatter: \"%m%n\""

theorem logger_level_lost :
    ¬ ∀ (emit : YamlNode → String) (Load : String → Except YamlException YamlNode)
      (s : LoggerManager) (l : ℕ),
        (s.logger l).m_level ∈ [LogLevel.DEBUG, .INFO, .WARN, .ERROR, .FATAL] →
        (∃ f, (s.logger l).m_formatter = some f ∧ f.m_error = false) →
        (∀ n ∈ s.dumpedNodes l, Load (emit n) = .ok n) → s.LoadsBack emit Load l := by
  intro h
  have hback := h (fun _ => infoText) (fun _ => .ok (infoLogger.loggerNode 0 [])) infoLogger 0
    (by decide) ⟨_, rfl, by decide⟩ fun n hn => by rw [List.mem_singleton.1 hn]; rfl
  cases hback

end LoggerManager

end Coroutine
