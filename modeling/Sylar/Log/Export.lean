import Sylar.Log.Cast
import Sylar.Log.Logger

/-! `toYamlString` of the appenders, of `Logger` and of `LoggerManager` in `log.cc`, and what
`config_log.cc` reads from it.

The loggers of a manager come in the order of its map, which is that of their names. A nested
object is emitted and loaded again before it is put into the node around it. -/
namespace Sylar

namespace LogAppender

def ownPattern (a : LogAppender) : Option String :=
  if a.hasFormat then a.formatter.map LogFormatter.pattern else none

/-- The node that `StdoutLogAppender::toYamlString` and `FileLogAppender::toYamlString` write. -/
def toNode (a : LogAppender) : Yaml :=
  .ofPairs
    ((match a.kind with
      | .stdout => [("type", .scalar "StdoutAppender")]
      | .file filename => [("type", .scalar "FileLogAppender"), ("file", .scalar filename)]) ++
     (if a.level ≠ .unknow then [("level", .scalar a.level.toString)] else []) ++
     (match a.ownPattern with
      | none => []
      | some pattern => [("formatter", .scalar pattern)]))

def toYamlString (emit : Yaml → String) (a : LogAppender) : String :=
  emit a.toNode

def define (a : LogAppender) : LogAppenderDefine :=
  match a.kind with
  | .file filename =>
    { type := 1, level := a.level, formatter := a.ownPattern.getD "", file := filename }
  | .stdout => { type := 2, level := a.level, formatter := a.ownPattern.getD "" }

def decoded (a : LogAppender) : Option LogAppenderDefine :=
  match a.kind with
  | .file filename => some { type := 1, formatter := a.ownPattern.getD "", file := filename }
  | .stdout => none

def Exportable (a : LogAppender) : Prop :=
  a.kind ≠ .stdout ∧ a.level = .unknow

instance Exportable.decidable (a : LogAppender) : Decidable a.Exportable :=
  inferInstanceAs (Decidable (a.kind ≠ .stdout ∧ a.level = .unknow))

end LogAppender

namespace Logger

/-- The node of `Logger::toYamlString` around the nodes of its appenders. -/
def nodeAround (logger : Logger) (appenders : List Yaml) : Yaml :=
  .ofPairs
    ([("name", .scalar logger.name)] ++
     (if logger.level ≠ .unknow then [("level", .scalar logger.level.toString)] else []) ++
     [("formatter", .scalar logger.formatter.pattern)] ++
     (if appenders ≠ [] then [("appenders", .sequence appenders)] else []))

def toYamlString (emit : Yaml → String) (load : String → Yaml) (logger : Logger) : String :=
  emit (logger.nodeAround (logger.appenders.map fun i => load (i.toYamlString emit)))

def toNode (logger : Logger) : Yaml :=
  logger.nodeAround (logger.appenders.map LogAppender.toNode)

def define (logger : Logger) : LogDefine where
  name := logger.name
  level := logger.level
  formatter := logger.formatter.pattern
  appenders := logger.appenders.map LogAppender.define

def decoded (logger : Logger) : LogDefine :=
  { logger.define with appenders := logger.appenders.filterMap LogAppender.decoded }

end Logger

/-- `m_loggers` in iteration order. -/
structure LoggerMap where
  loggers : List Logger
  sorted : loggers.Pairwise fun x y => x.name < y.name

namespace LoggerMap

def toYamlString (emit : Yaml → String) (load : String → Yaml) (m : LoggerMap) : String :=
  emit (.ofItems (m.loggers.map fun i => load (i.toYamlString emit load)))

def toNode (m : LoggerMap) : Yaml :=
  .ofItems (m.loggers.map Logger.toNode)

def emitted (m : LoggerMap) : List Yaml :=
  m.loggers.flatMap (fun i => i.appenders.map LogAppender.toNode) ++
    m.loggers.map Logger.toNode ++ [m.toNode]

section
variable (emit : Yaml → String) (load : String → Yaml) (m : LoggerMap)
  (hyaml : ∀ node ∈ m.emitted, load (emit node) = node)
include hyaml

theorem load_appender (logger : Logger) (hlogger : logger ∈ m.loggers) :
    (logger.appenders.map fun i => load (i.toYamlString emit)) =
      logger.appenders.map LogAppender.toNode := by
  apply List.map_congr_left
  intro a ha
  apply hyaml
  exact List.mem_append_left _ (List.mem_append_left _
    (List.mem_flatMap.mpr ⟨logger, hlogger, List.mem_map_of_mem ha⟩))

theorem load_logger :
    (m.loggers.map fun i => load (i.toYamlString emit load)) = m.loggers.map Logger.toNode := by
  apply List.map_congr_left
  intro logger hlogger
  rw [Logger.toYamlString, load_appender emit load m hyaml logger hlogger]
  apply hyaml
  exact List.mem_append_left _ (List.mem_append_right _ (List.mem_map_of_mem hlogger))

theorem load_toYamlString : load (m.toYamlString emit load) = m.toNode := by
  rw [toYamlString, load_logger emit load m hyaml]
  exact hyaml _ (List.mem_append_right _ (List.mem_singleton_self _))

end

end LoggerMap

namespace LogDefineSet

theorem fromAppender_stdout (emit : Yaml → String) (a : LogAppender) (hkind : a.kind = .stdout) :
    fromAppender emit (some a.toNode) =
      .ok (.error (report emit " log config error: appender type is invalid, " (some a.toNode))) := by
  have htype : Yaml.get (some a.toNode) "type" = .ok (some (.scalar "StdoutAppender")) := by
    simp [LogAppender.toNode, hkind, Yaml.ofPairs, Yaml.get]
  simp [fromAppender, htype, Yaml.asString, bind, Except.bind, pure, Except.pure]

theorem fromAppender_file (emit : Yaml → String) (a : LogAppender) (filename : String)
    (hkind : a.kind = .file filename) :
    fromAppender emit (some a.toNode) =
      .ok (.ok { type := 1, formatter := a.ownPattern.getD "", file := filename }) := by
  cases hpattern : a.ownPattern with
  | none =>
    by_cases hlevel : a.level = .unknow <;>
      simp [fromAppender, LogAppender.toNode, hkind, hpattern, hlevel, Yaml.ofPairs, Yaml.get,
        Yaml.asString, Yaml.textOr, List.lookup_cons, bind, Except.bind, pure, Except.pure]
  | some pattern =>
    by_cases hlevel : a.level = .unknow <;>
      simp [fromAppender, LogAppender.toNode, hkind, hpattern, hlevel, Yaml.ofPairs, Yaml.get,
        Yaml.asString, Yaml.textOr, List.lookup_cons, bind, Except.bind, pure, Except.pure]

theorem fromAppenders_toNode (emit : Yaml → String) (appenders : List LogAppender) :
    ∃ lines, fromAppenders emit (appenders.map fun a => some a.toNode) =
      .ok (lines, appenders.filterMap LogAppender.decoded) := by
  induction appenders with
  | nil => exact ⟨[], rfl⟩
  | cons a rest ih =>
    obtain ⟨lines, hrest⟩ := ih
    cases hkind : a.kind with
    | stdout =>
      have hhead := fromAppender_stdout emit a hkind
      refine ⟨report emit " log config error: appender type is invalid, " (some a.toNode) :: lines, ?_⟩
      simp [fromAppenders, hhead, hrest, LogAppender.decoded, hkind, bind, Except.bind, pure,
        Except.pure]
    | file filename =>
      have hhead := fromAppender_file emit a filename hkind
      refine ⟨lines, ?_⟩
      simp [fromAppenders, hhead, hrest, LogAppender.decoded, hkind, bind, Except.bind, pure,
        Except.pure]

section
variable (logger : Logger) (appenders : List Yaml)

theorem nodeAround_name :
    Yaml.get (some (logger.nodeAround appenders)) "name" = .ok (some (.scalar logger.name)) :=
  rfl

theorem nodeAround_level :
    Yaml.textOr (some (logger.nodeAround appenders)) "level" "" =
      .ok (if logger.level = .unknow then "" else logger.level.toString) := by
  by_cases hlevel : logger.level = .unknow <;> by_cases hempty : appenders = [] <;>
    simp [Logger.nodeAround, Yaml.ofPairs, Yaml.textOr, Yaml.get, Yaml.asString, List.lookup_cons,
      hlevel, hempty, bind, Except.bind, pure, Except.pure]

theorem nodeAround_formatter :
    Yaml.textOr (some (logger.nodeAround appenders)) "formatter" "" =
      .ok logger.formatter.pattern := by
  by_cases hlevel : logger.level = .unknow <;> by_cases hempty : appenders = [] <;>
    simp [Logger.nodeAround, Yaml.ofPairs, Yaml.textOr, Yaml.get, Yaml.asString, List.lookup_cons,
      hlevel, hempty, bind, Except.bind]

theorem nodeAround_appenders :
    Yaml.get (some (logger.nodeAround appenders)) "appenders" =
      .ok (if appenders = [] then none else some (.sequence appenders)) := by
  by_cases hlevel : logger.level = .unknow <;> by_cases hempty : appenders = [] <;>
    simp [Logger.nodeAround, Yaml.ofPairs, Yaml.get, List.lookup_cons, hlevel, hempty]

end

theorem fromDefine_toNode (emit : Yaml → String) (logger : Logger)
    (hlevel : logger.level ≠ .level100) :
    ∃ lines, fromDefine emit (some logger.toNode) = .ok (.ok (lines, logger.decoded)) := by
  obtain ⟨lines, happenders⟩ := fromAppenders_toNode emit logger.appenders
  have hitems : (Yaml.sequence (logger.appenders.map LogAppender.toNode)).items =
      logger.appenders.map fun a => some a.toNode := by
    simp [Yaml.items]
  simp only [fromDefine, Logger.toNode, nodeAround_name, nodeAround_level, nodeAround_formatter,
    nodeAround_appenders, Yaml.asString, fromString_level, if_neg hlevel, bind, Except.bind, pure,
    Except.pure]
  by_cases hempty : logger.appenders = []
  · exact ⟨[], by simp [hempty, Logger.decoded, Logger.define]⟩
  · refine ⟨lines, ?_⟩
    simp [hempty, hitems, happenders, Logger.decoded, Logger.define]

theorem lexicalCast_toYamlString (emit : Yaml → String) (load : String → Yaml) (m : LoggerMap)
    (hlevels : ∀ logger ∈ m.loggers, logger.level ≠ .level100)
    (hyaml : ∀ node ∈ m.emitted, load (emit node) = node) :
    ∃ lines, lexicalCastFromString emit load (m.toYamlString emit load) =
      .ok (lines, m.loggers.map Logger.decoded) := by
  have hchoice : ∀ logger : Logger, ∃ lines, logger ∈ m.loggers →
      fromDefine emit (some logger.toNode) = .ok (.ok (lines, logger.decoded)) := by
    intro logger
    by_cases hlogger : logger ∈ m.loggers
    · obtain ⟨lines, hlines⟩ := fromDefine_toNode emit logger (hlevels logger hlogger)
      exact ⟨lines, fun _ => hlines⟩
    · exact ⟨[], fun hmem => absurd hmem hlogger⟩
  choose printed hprinted using hchoice
  have hfound : List.Forall₂ (fun n ld => fromDefine emit n = .ok (.ok ld))
      (m.loggers.map fun logger => some logger.toNode)
      (m.loggers.map fun logger => (printed logger, logger.decoded)) := by
    rw [List.forall₂_map_left_iff, List.forall₂_map_right_iff, List.forall₂_same]
    intro logger hlogger
    exact hprinted logger hlogger
  have hmap : (m.loggers.map fun logger => (printed logger, logger.decoded)).map Prod.snd =
      m.loggers.map Logger.decoded := by
    simp
  have hsorted : Lib.Sorted LogDefine.lt (m.loggers.map Logger.decoded) := by
    apply List.pairwise_map.mpr
    exact m.sorted.imp fun hlt => decide_eq_true hlt
  have hcast := fromItems_sorted emit [] _ _ hfound (by rw [hmap]; exact hsorted)
  rw [hmap] at hcast
  rw [lexicalCastFromString, LoggerMap.load_toYamlString emit load m hyaml, LoggerMap.toNode,
    items_ofItems, List.map_map]
  exact ⟨_, hcast⟩

theorem decoded_eq_define_iff (a : LogAppender) :
    a.decoded = some a.define ↔ a.Exportable := by
  cases hkind : a.kind with
  | stdout => simp [LogAppender.decoded, LogAppender.Exportable, hkind]
  | file filename =>
    simp [LogAppender.decoded, LogAppender.define, LogAppender.Exportable, hkind, eq_comm]

theorem filterMap_decoded_iff (appenders : List LogAppender) :
    appenders.filterMap LogAppender.decoded = appenders.map LogAppender.define ↔
      ∀ a ∈ appenders, a.Exportable := by
  induction appenders with
  | nil => simp
  | cons a rest ih =>
    rw [List.forall_mem_cons, ← decoded_eq_define_iff, ← ih]
    cases hdecoded : a.decoded with
    | none =>
      rw [List.filterMap_cons_none hdecoded]
      have hlength := List.length_filterMap_le LogAppender.decoded rest
      constructor
      · intro heq
        have hsame := congrArg List.length heq
        rw [List.length_map, List.length_cons] at hsame
        omega
      · rintro ⟨hsome, -⟩
        cases hsome
    | some found =>
      rw [List.filterMap_cons_some hdecoded, List.map_cons, List.cons.injEq, Option.some.injEq]

/-- The exported configuration says the same as the loggers exactly when all appenders write to
files and have no level. -/
theorem export_loadable_iff (emit : Yaml → String) (load : String → Yaml) (m : LoggerMap)
    (hlevels : ∀ logger ∈ m.loggers, logger.level ≠ .level100)
    (hyaml : ∀ node ∈ m.emitted, load (emit node) = node) :
    (∃ lines, lexicalCastFromString emit load (m.toYamlString emit load) =
      .ok (lines, m.loggers.map Logger.define)) ↔
      ∀ logger ∈ m.loggers, ∀ a ∈ logger.appenders, a.Exportable := by
  obtain ⟨lines, hcast⟩ := lexicalCast_toYamlString emit load m hlevels hyaml
  have hsame : m.loggers.map Logger.decoded = m.loggers.map Logger.define ↔
      ∀ logger ∈ m.loggers, ∀ a ∈ logger.appenders, a.Exportable := by
    rw [List.map_inj_left]
    apply forall₂_congr
    intro logger hlogger
    rw [← filterMap_decoded_iff]
    constructor
    · intro heq
      exact congrArg LogDefine.appenders heq
    · intro heq
      rw [Logger.decoded, heq]
      rfl
  rw [hcast, ← hsame]
  constructor
  · rintro ⟨others, heq⟩
    exact congrArg Prod.snd (Except.ok.inj heq)
  · intro heq
    rw [heq]
    exact ⟨lines, rfl⟩

def emitOne (appender logger manager : String) : Yaml → String
  | .sequence _ => manager
  | .map pairs => if (pairs.lookup "name").isSome then logger else appender
  | _ => ""

def loadOne (appender logger manager : String) (a : LogAppender) (l : Logger) (m : LoggerMap)
    (text : String) : Yaml :=
  if text = appender then a.toNode
  else if text = logger then l.toNode
  else if text = manager then m.toNode
  else .null

def fileAppender : LogAppender where
  kind := .file "log.txt"
  level := .unknow
  hasFormat := true
  formatter := some (.new "%m")

def fileLogger : Logger where
  name := "system"
  formatter := .new "%m%n"
  appenders := [fileAppender]

def fileLoggers : LoggerMap where
  loggers := [fileLogger]
  sorted := List.pairwise_singleton _ _

def fileAppenderText : String :=
  "type: FileLogAppender\nfile: log.txt\nformatter: \"%m\""

def fileLoggerText : String :=
  "name: system\nlevel: DEBUG\nformatter: \"%m%n\"\nappenders:\n  - type: FileLogAppender\n" ++
  "    file: log.txt\n    formatter: \"%m\""

def fileLoggersText : String :=
  "- name: system\n  level: DEBUG\n  formatter: \"%m%n\"\n  appenders:\n" ++
  "    - type: FileLogAppender\n      file: log.txt\n      formatter: \"%m\""

theorem export_loadable_iff_file :
    let emit := emitOne fileAppenderText fileLoggerText fileLoggersText
    let load := loadOne fileAppenderText fileLoggerText fileLoggersText fileAppender fileLogger
      fileLoggers
    ∃ lines, lexicalCastFromString emit load (fileLoggers.toYamlString emit load) =
      .ok (lines, fileLoggers.loggers.map Logger.define) := by
  intro emit load
  apply (export_loadable_iff emit load fileLoggers _ _).mpr
  · intro logger hlogger a ha
    rw [List.mem_singleton.mp hlogger] at ha
    rw [List.mem_singleton.mp ha]
    decide
  · intro logger hlogger
    rw [List.mem_singleton.mp hlogger]
    decide
  · intro node hnode
    have hthree : node = fileAppender.toNode ∨ node = fileLogger.toNode ∨
        node = fileLoggers.toNode := by
      simpa [LoggerMap.emitted, fileLoggers, fileLogger] using hnode
    rcases hthree with rfl | rfl | rfl
    · rfl
    · rfl
    · rfl

def stdoutAppender : LogAppender where
  kind := .stdout
  formatter := some (.new "%m%n")

def stdoutLogger : Logger where
  name := "root"
  formatter := .new "%m%n"
  appenders := [stdoutAppender]

def stdoutLoggers : LoggerMap where
  loggers := [stdoutLogger]
  sorted := List.pairwise_singleton _ _

def stdoutAppenderText : String :=
  "type: StdoutAppender\nlevel: DEBUG"

def stdoutLoggerText : String :=
  "name: root\nlevel: DEBUG\nformatter: \"%m%n\"\nappenders:\n  - type: StdoutAppender\n" ++
  "    level: DEBUG"

def stdoutLoggersText : String :=
  "- name: root\n  level: DEBUG\n  formatter: \"%m%n\"\n  appenders:\n" ++
  "    - type: StdoutAppender\n      level: DEBUG"

/-- The appender that every manager starts with is not read back. -/
theorem stdout_appender_dropped :
    let emit := emitOne stdoutAppenderText stdoutLoggerText stdoutLoggersText
    let load := loadOne stdoutAppenderText stdoutLoggerText stdoutLoggersText stdoutAppender
      stdoutLogger stdoutLoggers
    (∀ node ∈ stdoutLoggers.emitted, load (emit node) = node) ∧
    lexicalCastFromString emit load (stdoutLoggers.toYamlString emit load) =
      .ok ([" log config error: appender type is invalid, " ++ stdoutAppenderText],
        [{ name := "root", level := .debug, formatter := "%m%n", appenders := [] }]) ∧
    stdoutLoggers.loggers.map Logger.define =
      [{ name := "root", level := .debug, formatter := "%m%n",
         appenders := [{ type := 2, level := .debug }] }] := by
  intro emit load
  refine ⟨?_, rfl, rfl⟩
  intro node hnode
  have hthree : node = stdoutAppender.toNode ∨ node = stdoutLogger.toNode ∨
      node = stdoutLoggers.toNode := by
    simpa [LoggerMap.emitted, stdoutLoggers, stdoutLogger] using hnode
  rcases hthree with rfl | rfl | rfl
  · rfl
  · rfl
  · rfl

end LogDefineSet
end Sylar
