import Sylar.Lib.Preorder
import Sylar.Log.Cast

/-! `ListAllMember` and `Config::LoadFromYaml` of `config.cc`.

A key of a map stands for its `Scalar()`, which is empty when the key is no scalar. The
output operator of a node is a parameter. The result of a load is the registry together with
the calls of `fromString` in the order in which they were made. -/
namespace Sylar
namespace Config

/-- A registered `ConfigVar<T>`. `fromStr` is `none` where the cast throws, and a listener is
`false` where it throws; listeners leave the other variables alone. -/
structure Var where
  Value : Type
  decEq : DecidableEq Value
  val : Value
  fromStr : String → Option Value
  cbs : List (Value → Value → Bool)

namespace Var

def setValue (var : Var) (v : var.Value) : Var :=
  let _ := var.decEq
  if v = var.val then var
  else if var.cbs.all fun cb => cb var.val v then { var with val := v }
  else var

/-- The exception of the cast or of a listener is caught, and the value stays. -/
def fromString (var : Var) (val : String) : Var :=
  match var.fromStr val with
  | none => var
  | some v => var.setValue v

end Var

abbrev VarMap := String → Option Var

def VarMap.lookupBase (datas : VarMap) (name : String) : Option Var :=
  datas name

def validName (name : String) : Bool :=
  name.toList.all fun c => c ∈ "abcdefghijklmnopqrstuvwxyz._0123456789".toList

/-- The path of a map entry below a node with path `path`. -/
def join (path key : String) : String :=
  if path = "" then key else path ++ "." ++ key

mutual

def listAllMember (path : String) (node : Yaml) : List (String × Yaml) :=
  if validName path then
    (path, node) ::
      match node with
      | .map pairs => listPairs path pairs
      | _ => []
  else []

def listPairs (path : String) : List (String × Yaml) → List (String × Yaml)
  | [] => []
  | (key, value) :: rest => listAllMember (join path key) value ++ listPairs path rest

end

structure Loaded where
  datas : VarMap
  calls : List (String × String)

section
variable (emit : Yaml → String)

def argument : Yaml → String
  | .scalar text => text
  | node => emit node

/-- The body of the loop over `all_nodes`. -/
def loadNode (s : Loaded) (i : String × Yaml) : Loaded :=
  if i.1 = "" then s
  else
    let key := String.ofList (i.1.toList.map Char.toLower)
    match s.datas.lookupBase key with
    | none => s
    | some var =>
      { datas := Function.update s.datas key (some (var.fromString (argument emit i.2)))
        calls := s.calls ++ [(key, argument emit i.2)] }

def loadFromYaml (datas : VarMap) (root : Yaml) : Loaded :=
  (listAllMember "" root).foldl (loadNode emit) { datas := datas, calls := [] }

end

def members (entry : String × Yaml) : List (String × Yaml) :=
  match entry.2 with
  | .map pairs => pairs.map fun pair => (join entry.1 pair.1, pair.2)
  | _ => []

def listedTexts (emit : Yaml → String) (entries : List (String × Yaml)) (key : String) :
    List String :=
  (entries.filter fun e => e.1 = key).map fun e => argument emit e.2

def Loaded.callsOn (s : Loaded) (key : String) : List String :=
  (s.calls.filter fun call => call.1 = key).map Prod.snd

theorem listPairs_eq_flatMap (path : String) (pairs : List (String × Yaml)) :
    listPairs path pairs = (pairs.map fun pair => (join path pair.1, pair.2)).flatMap
      fun e => listAllMember e.1 e.2 := by
  induction pairs with
  | nil => rw [listPairs, List.map_nil, List.flatMap_nil]
  | cons pair rest ih =>
    obtain ⟨key, value⟩ := pair
    rw [listPairs, List.map_cons, List.flatMap_cons, ih]

theorem listAllMember_eq (e : String × Yaml) :
    listAllMember e.1 e.2 =
      if validName e.1 then e :: (members e).flatMap fun child => listAllMember child.1 child.2
      else [] := by
  obtain ⟨path, node⟩ := e
  cases node with
  | map pairs =>
    rw [listAllMember, listPairs_eq_flatMap]
    rfl
  | null => simp [listAllMember, members]
  | scalar text => simp [listAllMember, members]
  | sequence items => simp [listAllMember, members]

theorem sizeOf_members (e child : String × Yaml) (hchild : child ∈ members e) :
    sizeOf child.2 < sizeOf e.2 := by
  obtain ⟨path, node⟩ := e
  cases node with
  | map pairs =>
    obtain ⟨pair, hpair, rfl⟩ := List.mem_map.mp hchild
    have hlist : sizeOf pair < sizeOf pairs := List.sizeOf_lt_of_mem hpair
    have hpairSize : sizeOf pair = 1 + sizeOf pair.1 + sizeOf pair.2 := rfl
    simp only [Yaml.map.sizeOf_spec]
    omega
  | null => cases hchild
  | scalar text => cases hchild
  | sequence items => cases hchild

theorem listAllMember_traverses (path : String) (root : Yaml) :
    Lib.Traverses members (fun e => validName e.1) (path, root) (listAllMember path root) :=
  Lib.traverses_of_recursion members (fun e => validName e.1) (fun e => sizeOf e.2)
    (fun e child hchild => sizeOf_members e child hchild) (fun e => listAllMember e.1 e.2)
    listAllMember_eq (path, root)

theorem lower_of_validName (name : String) (hvalid : validName name = true) :
    String.ofList (name.toList.map Char.toLower) = name := by
  have hletters : ("abcdefghijklmnopqrstuvwxyz._0123456789".toList.all
      fun c => c.toLower = c) = true := by decide
  have hsame : name.toList.map Char.toLower = name.toList.map id := by
    apply List.map_congr_left
    intro c hc
    have hletter := List.all_eq_true.mp hvalid c hc
    exact of_decide_eq_true (List.all_eq_true.mp hletters c (of_decide_eq_true hletter))
  rw [hsame, List.map_id, String.ofList_toList]

section
variable (emit : Yaml → String)

theorem loadNode_eq (s : Loaded) (i : String × Yaml) (hvalid : validName i.1 = true) :
    loadNode emit s i =
      if i.1 ≠ "" ∧ (s.datas i.1).isSome then
        { datas := Function.update s.datas i.1
            ((s.datas i.1).map fun var => var.fromString (argument emit i.2))
          calls := s.calls ++ [(i.1, argument emit i.2)] }
      else s := by
  unfold loadNode
  rw [lower_of_validName i.1 hvalid]
  by_cases hempty : i.1 = ""
  · simp [hempty]
  · cases hvar : s.datas i.1 with
    | none => simp [hempty, VarMap.lookupBase, hvar]
    | some var => simp [hempty, VarMap.lookupBase, hvar]

theorem isSome_loadNode (s : Loaded) (i : String × Yaml) (hvalid : validName i.1 = true)
    (key : String) : ((loadNode emit s i).datas key).isSome = (s.datas key).isSome := by
  rw [loadNode_eq emit s i hvalid]
  split
  · by_cases heq : key = i.1
    · simp [heq]
    · simp [heq]
  · rfl

theorem foldl_calls (entries : List (String × Yaml)) (s : Loaded)
    (hvalid : ∀ e ∈ entries, validName e.1 = true) :
    (entries.foldl (loadNode emit) s).calls = s.calls ++
      (entries.filter fun e => e.1 ≠ "" ∧ (s.datas e.1).isSome).map
        fun e => (e.1, argument emit e.2) := by
  induction entries generalizing s with
  | nil => simp
  | cons i rest ih =>
    have hi := hvalid i List.mem_cons_self
    rw [List.foldl_cons, ih _ fun e he => hvalid e (List.mem_cons_of_mem i he)]
    simp only [isSome_loadNode emit s i hi]
    rw [loadNode_eq emit s i hi, List.filter_cons]
    by_cases hcall : i.1 ≠ "" ∧ (s.datas i.1).isSome
    · simp [hcall]
    · rw [if_neg hcall, if_neg (by simpa using hcall)]

theorem loadNode_datas (s : Loaded) (i : String × Yaml) (hvalid : validName i.1 = true)
    (key : String) (hkey : key ≠ "") :
    (loadNode emit s i).datas key = (s.datas key).map fun var =>
      (listedTexts emit [i] key).foldl Var.fromString var := by
  rw [loadNode_eq emit s i hvalid]
  by_cases heq : i.1 = key
  · subst heq
    cases hvar : s.datas i.1 with
    | none => simp [hvar]
    | some var => simp [hkey, listedTexts]
  · have htexts : listedTexts emit [i] key = [] := by simp [listedTexts, heq]
    rw [htexts]
    simp only [List.foldl_nil, Option.map_id']
    split
    · exact Function.update_of_ne (Ne.symm heq) _ _
    · rfl

theorem listedTexts_cons (i : String × Yaml) (rest : List (String × Yaml)) (key : String) :
    listedTexts emit (i :: rest) key = listedTexts emit [i] key ++ listedTexts emit rest key := by
  rw [listedTexts, listedTexts, listedTexts, ← List.map_append, ← List.filter_append,
    List.singleton_append]

theorem foldl_datas (entries : List (String × Yaml)) (s : Loaded)
    (hvalid : ∀ e ∈ entries, validName e.1 = true) (key : String) (hkey : key ≠ "") :
    (entries.foldl (loadNode emit) s).datas key = (s.datas key).map fun var =>
      (listedTexts emit entries key).foldl Var.fromString var := by
  induction entries generalizing s with
  | nil => simp [listedTexts]
  | cons i rest ih =>
    have hi := hvalid i List.mem_cons_self
    rw [List.foldl_cons, ih _ fun e he => hvalid e (List.mem_cons_of_mem i he),
      loadNode_datas emit s i hi key hkey, Option.map_map, listedTexts_cons emit i rest]
    congr 1
    funext var
    simp only [Function.comp_apply, List.foldl_append]

theorem foldl_datas_empty (entries : List (String × Yaml)) (s : Loaded)
    (hvalid : ∀ e ∈ entries, validName e.1 = true) :
    (entries.foldl (loadNode emit) s).datas "" = s.datas "" := by
  induction entries generalizing s with
  | nil => rfl
  | cons i rest ih =>
    rw [List.foldl_cons, ih _ fun e he => hvalid e (List.mem_cons_of_mem i he),
      loadNode_eq emit s i (hvalid i List.mem_cons_self)]
    split
    · rename_i hcall
      exact Function.update_of_ne (Ne.symm hcall.1) _ _
    · rfl

theorem callsOn_eq (datas : VarMap) (entries : List (String × Yaml)) (s : Loaded) (key : String)
    (hkey : key ≠ "") (hsome : (datas key).isSome)
    (hcalls : s.calls = (entries.filter fun e => e.1 ≠ "" ∧ (datas e.1).isSome).map
      fun e => (e.1, argument emit e.2)) : s.callsOn key = listedTexts emit entries key := by
  rw [Loaded.callsOn, hcalls, List.filter_map, List.map_map, List.filter_filter, listedTexts]
  have hsame : ∀ e ∈ entries, (decide (e.1 = key) && decide (e.1 ≠ "" ∧ (datas e.1).isSome)) =
      decide (e.1 = key) := by
    intro e _
    by_cases heq : e.1 = key
    · simp [heq, hkey, hsome]
    · simp [heq]
  exact congrArg _ (List.filter_congr hsame)

theorem validName_of_listed (root : Yaml) (e : String × Yaml)
    (he : e ∈ listAllMember "" root) : validName e.1 = true :=
  (listAllMember_traverses "" root).keep_of_mem members _ _ _ e he

/-- A load calls `fromString` for the listed nodes with a non-empty path that is the name of
a variable, in list order, and every other variable keeps its value. -/
theorem loadFromYaml_listed (emit : Yaml → String) (datas : VarMap) (root : Yaml) :
    Lib.Traverses members (fun e => validName e.1) ("", root) (listAllMember "" root) ∧
    (loadFromYaml emit datas root).calls =
      ((listAllMember "" root).filter fun e => e.1 ≠ "" ∧ (datas e.1).isSome).map
        (fun e => (e.1, argument emit e.2)) ∧
    (∀ key, key ≠ "" → (datas key).isSome →
      (loadFromYaml emit datas root).callsOn key =
        listedTexts emit (listAllMember "" root) key) ∧
    (∀ key, key ≠ "" → (loadFromYaml emit datas root).datas key =
      (datas key).map fun var =>
        (listedTexts emit (listAllMember "" root) key).foldl Var.fromString var) ∧
    (∀ key, (∀ e ∈ listAllMember "" root, e.1 ≠ key) ∨ key = "" →
      (loadFromYaml emit datas root).datas key = datas key) := by
  have hvalid := validName_of_listed root
  have hcalls := foldl_calls emit (listAllMember "" root) ⟨datas, []⟩ hvalid
  have hdatas := foldl_datas emit (listAllMember "" root) ⟨datas, []⟩ hvalid
  refine ⟨listAllMember_traverses "" root, hcalls, ?_, hdatas, ?_⟩
  · intro key hkey hsome
    exact callsOn_eq emit datas _ _ key hkey hsome hcalls
  · intro key hother
    by_cases hkey : key = ""
    · subst hkey
      exact foldl_datas_empty emit (listAllMember "" root) ⟨datas, []⟩ hvalid
    · have hunlisted := hother.resolve_right hkey
      have hnone : listedTexts emit (listAllMember "" root) key = [] := by
        rw [listedTexts, List.filter_eq_nil_iff.mpr, List.map_nil]
        simpa using hunlisted
      have hkept := hdatas key hkey
      rw [hnone] at hkept
      simpa [loadFromYaml] using hkept

/-- The root is listed under the empty path, but a variable with that name is not loaded. -/
theorem loadFromYaml_skips_empty_name :
    let datas : VarMap := fun name =>
      if name = "" then some ⟨String, inferInstance, "", some, []⟩ else none
    (datas "").isSome ∧
    listedTexts (fun _ => "") (listAllMember "" (.scalar "5")) "" = ["5"] ∧
    (loadFromYaml (fun _ => "") datas (.scalar "5")).callsOn "" = [] := by
  refine ⟨rfl, ?_, ?_⟩
  · decide
  · decide

end

end Config
end Sylar
