import Mathlib.Data.List.Forall2
import Sylar.Log.Define

/-! The two `LexicalCast` specialisations of `config_log.cc`.

A `YAML::Node` is a tree, `YAML::Load` and the output operator of a node are parameters,
and a node that is not defined is `none`. The lines that go to `std::cout` are returned
beside the result. -/
namespace Sylar

inductive Yaml where
  | null
  | scalar (text : String)
  | sequence (items : List Yaml)
  | map (pairs : List (String × Yaml))

inductive YamlException where
  | badSubscript
  | badConversion
deriving DecidableEq, Repr

namespace Yaml

/-- A node that pairs or items were added to; it stays null when there were none. -/
def ofPairs : List (String × Yaml) → Yaml
  | [] => .null
  | pairs => .map pairs

def ofItems : List Yaml → Yaml
  | [] => .null
  | items => .sequence items

def items : Yaml → List (Option Yaml)
  | .sequence items => items.map some
  | .map pairs => (List.range pairs.length).map fun i => pairs.lookup i.repr
  | _ => []

def get (node : Option Yaml) (key : String) : Except YamlException (Option Yaml) :=
  match node with
  | some (.map pairs) => .ok (pairs.lookup key)
  | some (.scalar _) => .error .badSubscript
  | _ => .ok none

def asString : Yaml → Except YamlException String
  | .scalar text => .ok text
  | _ => .error .badConversion

/-- The text under `key`, when it is defined. -/
def textOr (node : Option Yaml) (key default : String) : Except YamlException String := do
  match ← get node key with
  | none => pure default
  | some value => value.asString

end Yaml

namespace LogDefineSet

def toAppender (a : LogAppenderDefine) : Yaml :=
  .ofPairs
    ((if a.type = 1 then [("type", .scalar "FileLogAppender"), ("file", .scalar a.file)]
      else if a.type = 2 then [("type", .scalar "StdoutLogAppender")]
      else []) ++
     (if a.level ≠ .unknow then [("level", .scalar a.level.toString)] else []) ++
     (if a.formatter ≠ "" then [("formatter", .scalar a.formatter)] else []))

def toDefine (i : LogDefine) : Yaml :=
  .ofPairs
    ([("name", .scalar i.name)] ++
     (if i.level ≠ .unknow then [("level", .scalar i.level.toString)] else []) ++
     (if i.formatter ≠ "" then [("formatter", .scalar i.formatter)] else []) ++
     (if i.appenders ≠ [] then [("appenders", .sequence (i.appenders.map toAppender))] else []))

def toNode (v : LogDefineSet) : Yaml :=
  .ofItems (v.defs.map toDefine)

section
variable (emit : Yaml → String)

def report (message : String) (node : Option Yaml) : String :=
  message ++ (node.map emit).getD ""

def fromAppender (a : Option Yaml) : Except YamlException (Except String LogAppenderDefine) := do
  match ← Yaml.get a "type" with
  | none => pure (.error (report emit " log config error: appender type is null, " a))
  | some node =>
    let type ← node.asString
    if type = "FileLogAppender" then
      match ← Yaml.get a "file" with
      | none => pure (.error (report emit " log config error: fileappender file is null, " a))
      | some file =>
        let file ← file.asString
        let formatter ← Yaml.textOr a "formatter" ""
        pure (.ok { type := 1, file := file, formatter := formatter })
    else if type = "StdoutLogAppender" then
      pure (.ok { type := 2 })
    else
      pure (.error (report emit " log config error: appender type is invalid, " a))

def fromAppenders : List (Option Yaml) →
    Except YamlException (List String × List LogAppenderDefine)
  | [] => pure ([], [])
  | a :: rest => do
    let lad ← fromAppender emit a
    let (lines, appenders) ← fromAppenders rest
    match lad with
    | .error line => pure (line :: lines, appenders)
    | .ok lad => pure (lines, lad :: appenders)

def fromDefine (n : Option Yaml) :
    Except YamlException (Except String (List String × LogDefine)) := do
  match ← Yaml.get n "name" with
  | none => pure (.error (report emit " log config error: name is null, " n))
  | some node =>
    let name ← node.asString
    let level ← Yaml.textOr n "level" ""
    let formatter ← Yaml.textOr n "formatter" ""
    let (lines, appenders) ←
      match ← Yaml.get n "appenders" with
      | none => pure ([], [])
      | some list => fromAppenders emit list.items
    pure (.ok (lines,
      { name := name
        level := LogLevel.fromString level
        formatter := formatter
        appenders := appenders }))

def fromItems : List LogDefine → List (Option Yaml) →
    Except YamlException (List String × List LogDefine)
  | vec, [] => pure ([], vec)
  | vec, n :: rest => do
    match ← fromDefine emit n with
    | .error line =>
      let (lines, vec) ← fromItems vec rest
      pure (line :: lines, vec)
    | .ok (before, ld) =>
      let (lines, vec) ← fromItems (Lib.setInsert LogDefine.lt ld vec) rest
      pure (before ++ lines, vec)

/-- `LexicalCast<std::string, std::set<LogDefine> >`: the lines printed and the set. -/
def lexicalCastFromString (load : String → Yaml) (v : String) :
    Except YamlException (List String × List LogDefine) :=
  fromItems emit [] (load v).items

/-- `LexicalCast<std::set<LogDefine>, std::string>`. -/
def lexicalCastToString (v : LogDefineSet) : String :=
  emit (toNode v)

end

def restoredAppender (a : LogAppenderDefine) : LogAppenderDefine :=
  if a.type = 1 then { type := 1, formatter := a.formatter, file := a.file } else { type := 2 }

def restored (d : LogDefine) : LogDefine :=
  { d with
    level := if d.level = .level100 then .unknow else d.level
    appenders := d.appenders.map restoredAppender }

/-- The levels of all appenders are unset, and a standard output appender has nothing but its
type. -/
def Plain (v : LogDefineSet) : Prop :=
  ∀ d ∈ v.defs, d.level ≠ .level100 ∧
    ∀ a ∈ d.appenders, a.level = .unknow ∧ (a.type = 2 → a.formatter = "" ∧ a.file = "")

theorem fromAppender_toAppender (emit : Yaml → String) (a : LogAppenderDefine)
    (htype : a.type = 1 ∨ a.type = 2) :
    fromAppender emit (some (toAppender a)) = .ok (.ok (restoredAppender a)) := by
  by_cases hfile : a.type = 1
  · by_cases hlevel : a.level = .unknow <;> by_cases hformatter : a.formatter = "" <;>
      simp [fromAppender, toAppender, restoredAppender, Yaml.ofPairs, Yaml.get, Yaml.asString,
        Yaml.textOr, List.lookup_cons, hfile, hlevel, hformatter, bind, Except.bind, pure, Except.pure]
  · have hout : a.type = 2 := htype.resolve_left hfile
    simp [fromAppender, toAppender, restoredAppender, Yaml.ofPairs, Yaml.get, Yaml.asString,
        hout, bind, Except.bind, pure, Except.pure]

theorem fromAppenders_toAppender (emit : Yaml → String) (appenders : List LogAppenderDefine)
    (htyped : ∀ a ∈ appenders, a.type = 1 ∨ a.type = 2) :
    fromAppenders emit (appenders.map (some ∘ toAppender)) =
      .ok ([], appenders.map restoredAppender) := by
  induction appenders with
  | nil => rfl
  | cons a rest ih =>
    have hhead := fromAppender_toAppender emit a (htyped a List.mem_cons_self)
    have hrest := ih fun other hother => htyped other (List.mem_cons_of_mem a hother)
    simp [fromAppenders, hhead, hrest, bind, Except.bind, pure, Except.pure]

theorem toDefine_name (d : LogDefine) :
    Yaml.get (some (toDefine d)) "name" = .ok (some (.scalar d.name)) := rfl

theorem toDefine_level (d : LogDefine) :
    Yaml.textOr (some (toDefine d)) "level" "" =
      .ok (if d.level = .unknow then "" else d.level.toString) := by
  by_cases hlevel : d.level = .unknow <;> by_cases hformatter : d.formatter = "" <;>
    by_cases hempty : d.appenders = [] <;>
    simp [toDefine, Yaml.ofPairs, Yaml.textOr, Yaml.get, Yaml.asString, List.lookup_cons, hlevel,
      hformatter, hempty, bind, Except.bind, pure, Except.pure]

theorem toDefine_formatter (d : LogDefine) :
    Yaml.textOr (some (toDefine d)) "formatter" "" = .ok d.formatter := by
  by_cases hlevel : d.level = .unknow <;> by_cases hformatter : d.formatter = "" <;>
    by_cases hempty : d.appenders = [] <;>
    simp [toDefine, Yaml.ofPairs, Yaml.textOr, Yaml.get, Yaml.asString, List.lookup_cons, hlevel,
      hformatter, hempty, bind, Except.bind, pure, Except.pure]

theorem toDefine_appenders (d : LogDefine) :
    Yaml.get (some (toDefine d)) "appenders" =
      .ok (if d.appenders = [] then none
        else some (.sequence (d.appenders.map toAppender))) := by
  by_cases hlevel : d.level = .unknow <;> by_cases hformatter : d.formatter = "" <;>
    by_cases hempty : d.appenders = [] <;>
    simp [toDefine, Yaml.ofPairs, Yaml.get, List.lookup_cons, hlevel, hformatter, hempty]

theorem fromString_level (level : LogLevel) :
    LogLevel.fromString (if level = .unknow then "" else level.toString) =
      if level = .level100 then .unknow else level := by
  cases level <;> rfl

theorem fromDefine_toDefine (emit : Yaml → String) (d : LogDefine)
    (htyped : ∀ a ∈ d.appenders, a.type = 1 ∨ a.type = 2) :
    fromDefine emit (some (toDefine d)) = .ok (.ok ([], restored d)) := by
  have happenders := fromAppenders_toAppender emit d.appenders htyped
  simp only [fromDefine, toDefine_name, toDefine_level, toDefine_formatter, toDefine_appenders,
    Yaml.asString, fromString_level, bind, Except.bind, pure, Except.pure]
  by_cases hempty : d.appenders = []
  · simp [hempty, restored]
  · simp [hempty, restored, Yaml.items, happenders]

theorem fromItems_sorted (emit : Yaml → String) (vec : List LogDefine) (items : List (Option Yaml))
    (found : List (List String × LogDefine))
    (hfound : List.Forall₂ (fun n ld => fromDefine emit n = .ok (.ok ld)) items found)
    (hsorted : Lib.Sorted LogDefine.lt (vec ++ found.map Prod.snd)) :
    fromItems emit vec items = .ok (found.flatMap Prod.fst, vec ++ found.map Prod.snd) := by
  induction hfound generalizing vec with
  | nil =>
    simp only [List.flatMap_nil, List.map_nil, List.append_nil]
    rfl
  | @cons n ld items found hhead htail ih =>
    have hinsert : Lib.setInsert LogDefine.lt ld.2 vec = vec ++ [ld.2] := by
      apply Lib.setInsert_last
      intro other hother
      exact (List.pairwise_append.mp hsorted).2.2 other hother ld.2 List.mem_cons_self
    have hshift : vec ++ ld.2 :: found.map Prod.snd = (vec ++ [ld.2]) ++ found.map Prod.snd := by
      rw [List.append_assoc, List.singleton_append]
    rw [List.map_cons, hshift] at hsorted
    have hrest := ih (vec ++ [ld.2]) hsorted
    simp [fromItems, hhead, hinsert, hrest, bind, Except.bind, pure, Except.pure]

theorem fromItems_toDefine (emit : Yaml → String) (vec defs : List LogDefine)
    (htyped : ∀ d ∈ defs, ∀ a ∈ d.appenders, a.type = 1 ∨ a.type = 2)
    (hsorted : Lib.Sorted LogDefine.lt (vec ++ defs.map restored)) :
    fromItems emit vec (defs.map (some ∘ toDefine)) = .ok ([], vec ++ defs.map restored) := by
  have hfound : List.Forall₂ (fun n ld => fromDefine emit n = .ok (.ok ld))
      (defs.map (some ∘ toDefine)) (defs.map fun d => ([], restored d)) := by
    rw [List.forall₂_map_left_iff, List.forall₂_map_right_iff, List.forall₂_same]
    intro d hd
    exact fromDefine_toDefine emit d (htyped d hd)
  have hmap : (defs.map fun d => (([] : List String), restored d)).map Prod.snd =
      defs.map restored := by
    simp
  have hlines : (defs.map fun d => (([] : List String), restored d)).flatMap Prod.fst = [] := by
    simp [List.flatMap_eq_nil_iff]
  have hcast := fromItems_sorted emit vec _ _ hfound (by rw [hmap]; exact hsorted)
  rw [hmap, hlines] at hcast
  exact hcast

theorem sorted_restored (defs : List LogDefine) (hsorted : Lib.Sorted LogDefine.lt defs) :
    Lib.Sorted LogDefine.lt (defs.map restored) :=
  List.pairwise_map.mpr hsorted

theorem items_ofItems (items : List Yaml) : (Yaml.ofItems items).items = items.map some := by
  cases items <;> rfl

theorem restoredAppender_eq_iff (a : LogAppenderDefine) (htype : a.type = 1 ∨ a.type = 2) :
    restoredAppender a = a ↔
      a.level = .unknow ∧ (a.type = 2 → a.formatter = "" ∧ a.file = "") := by
  obtain ⟨type, level, formatter, file⟩ := a
  rcases htype with hfile | hout
  · dsimp only at hfile
    subst hfile
    simp [restoredAppender, eq_comm]
  · dsimp only at hout
    subst hout
    simp [restoredAppender, eq_comm]

theorem map_eq_self_iff {α : Type} (f : α → α) (xs : List α) :
    xs.map f = xs ↔ ∀ x ∈ xs, f x = x := by
  have hsame := List.map_inj_left (l := xs) (f := f) (g := id)
  rw [List.map_id] at hsame
  exact hsame

theorem restored_eq_iff (d : LogDefine) (htyped : ∀ a ∈ d.appenders, a.type = 1 ∨ a.type = 2) :
    restored d = d ↔ d.level ≠ .level100 ∧
      ∀ a ∈ d.appenders, a.level = .unknow ∧ (a.type = 2 → a.formatter = "" ∧ a.file = "") := by
  have hlevel : (if d.level = .level100 then .unknow else d.level) = d.level ↔
      d.level ≠ .level100 := by
    cases d.level <;> decide
  have happenders : d.appenders.map restoredAppender = d.appenders ↔
      ∀ a ∈ d.appenders, a.level = .unknow ∧ (a.type = 2 → a.formatter = "" ∧ a.file = "") := by
    rw [map_eq_self_iff]
    exact forall₂_congr fun a ha => restoredAppender_eq_iff a (htyped a ha)
  rw [← hlevel, ← happenders]
  constructor
  · intro heq
    exact ⟨congrArg LogDefine.level heq, congrArg LogDefine.appenders heq⟩
  · rintro ⟨hsame, hlist⟩
    rw [restored, hsame, hlist]

instance Plain.decidable (v : LogDefineSet) : Decidable v.Plain :=
  inferInstanceAs (Decidable (∀ d ∈ v.defs, d.level ≠ .level100 ∧
    ∀ a ∈ d.appenders, a.level = .unknow ∧ (a.type = 2 → a.formatter = "" ∧ a.file = "")))

/-- A set of definitions comes back from its text exactly when it is plain. -/
theorem round_trip_iff_plain (emit : Yaml → String) (load : String → Yaml) (v : LogDefineSet)
    (htyped : v.Typed) (hyaml : load (emit v.toNode) = v.toNode) :
    (∃ lines, lexicalCastFromString emit load (lexicalCastToString emit v) =
      .ok (lines, v.defs)) ↔ v.Plain := by
  have hcast : lexicalCastFromString emit load (lexicalCastToString emit v) =
      .ok ([], v.defs.map restored) := by
    rw [lexicalCastFromString, lexicalCastToString, hyaml, toNode, items_ofItems, List.map_map]
    exact fromItems_toDefine emit [] v.defs htyped (sorted_restored v.defs v.sorted)
  have hsame : v.defs.map restored = v.defs ↔ v.Plain := by
    rw [map_eq_self_iff]
    exact forall₂_congr fun d hd => restored_eq_iff d (htyped d hd)
  rw [hcast, ← hsame]
  constructor
  · rintro ⟨lines, heq⟩
    exact congrArg Prod.snd (Except.ok.inj heq)
  · intro heq
    rw [heq]
    exact ⟨[], rfl⟩

def fileLog : LogDefineSet where
  defs := [{ name := "root", level := .info,
             appenders := [{ type := 1, formatter := "%m%n", file := "/logs/root.log" }] }]
  sorted := List.pairwise_singleton _ _

def fileLogText : String :=
  "- name: root\n  level: INFO\n  appenders:\n    - type: FileLogAppender\n" ++
  "      file: /logs/root.log\n      formatter: \"%m%n\""

theorem round_trip_iff_plain_file :
    ∃ lines, lexicalCastFromString (fun _ => fileLogText) (fun _ => fileLog.toNode)
      (lexicalCastToString (fun _ => fileLogText) fileLog) = .ok (lines, fileLog.defs) :=
  (round_trip_iff_plain _ _ fileLog (by decide) rfl).mpr (by decide)

/-- The format in the comment of the source, with the level of an appender. -/
def leveledLog : LogDefineSet where
  defs := [{ name := "root", level := .info, appenders := [{ type := 2, level := .error }] }]
  sorted := List.pairwise_singleton _ _

def leveledLogText : String :=
  "- name: root\n  level: INFO\n  appenders:\n    - type: StdoutLogAppender\n      level: ERROR"

/-- The decoder never reads the level of an appender. -/
theorem appender_level_lost :
    lexicalCastFromString (fun _ => leveledLogText) (fun _ => leveledLog.toNode)
        (lexicalCastToString (fun _ => leveledLogText) leveledLog) =
      .ok ([], [{ name := "root", level := .info, appenders := [{ type := 2 }] }]) ∧
    [{ name := "root", level := .info, appenders := [{ type := 2 }] }] ≠ leveledLog.defs :=
  ⟨rfl, by decide⟩

end LogDefineSet
end Sylar
