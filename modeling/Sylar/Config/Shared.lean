import Sylar.Config.Load
import Sylar.Log.Initer
import Sylar.Log.Shared

/-! The calls of `config.h` and `config.cc` in several threads, beside those of `log.cc`.

Variables are numbered, and so are their types; `none` is where a cast throws. What a listener or
a visitor does is a program, and the listener of `config_log.cc` is one. -/
namespace Sylar
open Lib (Mode Prog)

/-- `κ` are the listeners and the visitors, `ν` the values of all types. -/
structure ConfigShared (ν κ : Type) where
  datas : List (String × Nat)
  created : Nat
  types : Nat → Nat
  vals : Nat → ν
  cbs : Nat → List (Nat × κ)
  funIds : Nat → Nat

abbrev ConfigProg (ε ν κ α : Type) := LogProg ε (ConfigShared ν κ) α

structure ConfigEnv (ε ν κ : Type) where
  toStr : Nat → ν → Option String
  fromStr : Nat → String → Option ν
  listener : κ → ν → ν → ConfigProg ε ν κ Unit
  visitor : κ → Nat → ConfigProg ε ν κ Unit
  emit : Yaml → String
  event : String → ε
  now : Nat → Nat

namespace Config

mutual

/-- What `ListAllMember` logs: the names that it does not go on from. -/
def invalidNames (path : String) (node : Yaml) : List String :=
  if validName path then
    match node with
    | .map pairs => invalidPairs path pairs
    | _ => []
  else [path]

def invalidPairs (path : String) : List (String × Yaml) → List String
  | [] => []
  | (key, value) :: rest => invalidNames (join path key) value ++ invalidPairs path rest

end

end Config

namespace ConfigShared
variable {ν κ : Type}

def setVal (s : ConfigShared ν κ) (v : Nat) (val : ν) : ConfigShared ν κ :=
  { s with vals := Function.update s.vals v val }

def nextFunId (s : ConfigShared ν κ) (v : Nat) : ConfigShared ν κ :=
  { s with funIds := Function.update s.funIds (s.types v) (s.funIds (s.types v) + 1) }

def setCbs (s : ConfigShared ν κ) (v : Nat) (cbs : List (Nat × κ)) : ConfigShared ν κ :=
  { s with cbs := Function.update s.cbs v cbs }

def create (s : ConfigShared ν κ) (name : String) (type : Nat) (val : ν) : ConfigShared ν κ :=
  { s with
    datas := (name, s.created) :: s.datas
    created := s.created + 1
    types := Function.update s.types s.created type
    vals := Function.update s.vals s.created val
    cbs := Function.update s.cbs s.created [] }

end ConfigShared

namespace ConfigProg
variable {ε ν κ α : Type} [DecidableEq ν] (env : ConfigEnv ε ν κ)
open LogProg

def readLocked (lock : SharedLock) (body : ConfigProg ε ν κ α) : ConfigProg ε ν κ α :=
  Prog.locked lock .shared body

def modifyConfig (f : ConfigShared ν κ → ConfigShared ν κ) : ConfigProg ε ν κ Unit :=
  Prog.modify fun w => { w with config := f w.config }

def rootLog (level : LogLevel) (text : String) : ConfigProg ε ν κ Unit :=
  logLevel 0 level (env.event text) env.now

/-- The exception is logged when the lock is given back. -/
def toString (v : Nat) : ConfigProg ε ν κ String := do
  let w ← readLocked (.var v) (Prog.read id)
  match env.toStr (w.config.types v) (w.config.vals v) with
  | some text => .pure text
  | none => do
    rootLog env .error "ConfigVar::toString exception"
    .pure ""

def getValue (v : Nat) : ConfigProg ε ν κ ν :=
  readLocked (.var v) (Prog.read fun w => w.config.vals v)

/-- The listeners run under the read lock; the write lock is taken when it is given back. -/
def setValue (v : Nat) (val : ν) : ConfigProg ε ν κ Unit := do
  let same ← readLocked (.var v) do
    let w ← Prog.read id
    if val = w.config.vals v then .pure true
    else do
      Prog.forEach (w.config.cbs v) fun cb => do
        let old ← Prog.read fun w => w.config.vals v
        env.listener cb.2 old val
      .pure false
  if same = false then
    guarded (.var v) (modifyConfig fun s => s.setVal v val)

/-- Both ways the result is `false`. -/
def fromString (v : Nat) (text : String) : ConfigProg ε ν κ Bool := do
  let type ← Prog.read fun w => w.config.types v
  match env.fromStr type text with
  | some val => setValue env v val
  | none => rootLog env .error "ConfigVar::fromString exception"
  .pure false

/-- `s_fun_id` belongs to the type, and the lock to the variable. -/
def addListener (v : Nat) (cb : κ) : ConfigProg ε ν κ Nat :=
  guarded (.var v) do
    modifyConfig fun s => s.nextFunId v
    modifyConfig fun s => s.setCbs v
      (Lib.mapAssign (fun a b => decide (a < b)) (s.funIds (s.types v)) cb (s.cbs v))
    Prog.read fun w => w.config.funIds (w.config.types v)

def delListener (v key : Nat) : ConfigProg ε ν κ Unit :=
  guarded (.var v) (modifyConfig fun s => s.setCbs v ((s.cbs v).eraseP fun cb => cb.1 = key))

def clearListener (v : Nat) : ConfigProg ε ν κ Unit :=
  guarded (.var v) (modifyConfig fun s => s.setCbs v [])

def getListener (v key : Nat) : ConfigProg ε ν κ (Option κ) :=
  readLocked (.var v) (Prog.read fun w => (w.config.cbs v).lookup key)

def lookupBase (name : String) : ConfigProg ε ν κ (Option Nat) :=
  readLocked .config (Prog.read fun w => w.config.datas.lookup name)

def find (name : String) (type : Nat) : ConfigProg ε ν κ (Option Nat) :=
  readLocked .config <| Prog.read fun w =>
    (w.config.datas.lookup name).filter fun v => w.config.types v = type

/-- `Lookup<T>(name, default_value)`. An error is the exception; the text of the line is put together
only if the level of the root logger lets it through. -/
def lookup (name : String) (type : Nat) (defaultValue : ν) :
    ConfigProg ε ν κ (Except String (Option Nat)) :=
  guarded .config do
    let w ← Prog.read id
    match w.config.datas.lookup name with
    | some v =>
      if w.config.types v = type then do
        rootLog env .info ("Lookup name=" ++ name ++ " exists")
        .pure (.ok (some v))
      else do
        let least ← Prog.read fun w => w.levels 0
        if least.value ≤ LogLevel.error.value then do
          let text ← toString env v
          log 0 .error (env.event ("Lookup name=" ++ name ++ " exists but type not " ++ text)) env.now
        .pure (.ok none)
    | none =>
      if Config.validName name = false then do
        rootLog env .error ("Lookup name invalid " ++ name)
        .pure (.error name)
      else do
        modifyConfig fun s => s.create name type defaultValue
        .pure (.ok (some w.config.created))

def loadNode (i : String × Yaml) : ConfigProg ε ν κ Unit :=
  if i.1 = "" then .pure ()
  else do
    let found ← lookupBase (String.ofList (i.1.toList.map Char.toLower))
    match found with
    | none => .pure ()
    | some v => do
      let _ ← fromString env v (Config.argument env.emit i.2)
      .pure ()

def loadFromYaml (root : Yaml) : ConfigProg ε ν κ Unit := do
  Prog.forEach (Config.invalidNames "" root) fun path =>
    rootLog env .error ("Config invalid name: " ++ path)
  Prog.forEach (Config.listAllMember "" root) (loadNode env)

def visit (cb : κ) : ConfigProg ε ν κ Unit :=
  readLocked .config do
    let w ← Prog.read id
    Prog.forEach (w.config.datas.map Prod.snd) (env.visitor cb)

end ConfigProg

namespace LogIniter
variable {ε γ : Type} (event : String → ε) (now : Nat → Nat)
open LogProg

/-- The appender of a definition of type 1 or 2; another one is a null pointer, and left out. -/
def addDefined (l : Nat) (a : LogAppenderDefine) : LogProg ε γ Unit :=
  if a.type = 1 ∨ a.type = 2 then do
    let ap ← newAppender (if a.type = 1 then .file a.file else .stdout)
    Prog.modify fun w => w.setAppenderLevel ap a.level
    if a.formatter ≠ "" then do
      let address ← allocate
      if (LogFormatter.new a.formatter).error = false then
        appenderSetFormatter ap (some ⟨address, .new a.formatter⟩)
    addAppender l ap
  else .pure ()

/-- The body of the first loop. An entry that stays as it is has no logger: a null pointer, which is
left out. -/
def applyShared (old : LogDefineSet) (i : LogDefine) : LogProg ε γ Unit :=
  if Lib.setFind LogDefine.lt i old.defs = some i then .pure ()
  else do
    let l ← getLogger i.name
    Prog.modify fun w => w.setLevel l i.level
    if i.formatter ≠ "" then setFormatterText l i.formatter
    clearAppenders l
    Prog.forEach i.appenders (addDefined l)

def removeShared (new : LogDefineSet) (i : LogDefine) : LogProg ε γ Unit :=
  if (Lib.setFind LogDefine.lt i new.defs).isNone then do
    let l ← getLogger i.name
    Prog.modify fun w => w.setLevel l .level100
    clearAppenders l
  else .pure ()

def onChangeShared (old new : LogDefineSet) : LogProg ε γ Unit := do
  logLevel 0 .info (event " on_logger_conf_changed") now
  Prog.forEach new.defs (applyShared old)
  Prog.forEach old.defs (removeShared new)

theorem ordered_addDefined (l : Nat) (a : LogAppenderDefine) :
    Ordered 3 (addDefined l a : LogProg ε γ Unit) := by
  have happender {α : Type} (p : LogProg ε γ α) (hp : Ordered 1 p) : Ordered 3 p :=
    Lib.Below.mono 1 p hp (by decide)
  unfold addDefined
  split
  · refine ordered_bind _ _ (happender _ (ordered_newAppender _)) fun ap => ?_
    refine ordered_bind _ _ (ordered_modify _) fun _ => ?_
    have hadd : Ordered 3 (addAppender l ap : LogProg ε γ Unit) := ordered_addAppender ap l
    dsimp only
    split
    · refine ordered_bind _ _ ordered_allocate fun address => ?_
      split
      · refine ordered_bind _ _ (happender _ ?_) fun _ => hadd
        exact ordered_appender ap _ (ordered_modify _)
      · exact hadd
    · exact hadd
  · exact Lib.Below.pure ()

theorem ordered_onChangeShared (old new : LogDefineSet) :
    Ordered 4 (onChangeShared event now old new : LogProg ε γ Unit) := by
  have hlogger {α : Type} (p : LogProg ε γ α) (hp : Ordered 3 p) : Ordered 4 p :=
    Lib.Below.mono 3 p hp (by decide)
  have hclear (l : Nat) : Ordered 4 (clearAppenders l : LogProg ε γ Unit) :=
    hlogger _ (ordered_logger l _ (ordered_modify _))
  refine ordered_bind _ _ (hlogger _ (ordered_logLevel 0 _ _ _)) fun _ => ?_
  refine ordered_bind _ _ (Lib.Below.forEach _ _ fun i _ => ?_) fun _ =>
    Lib.Below.forEach _ _ fun i _ => ?_
  · unfold applyShared
    split
    · exact Lib.Below.pure ()
    · refine ordered_bind _ _ (ordered_getLogger i.name) fun l => ?_
      refine ordered_bind _ _ (ordered_modify _) fun _ => ?_
      have hrest : Ordered 4 (clearAppenders l >>= fun _ =>
          Prog.forEach i.appenders (addDefined l) : LogProg ε γ Unit) :=
        ordered_bind _ _ (hclear l) fun _ =>
          Lib.Below.forEach _ _ fun a _ => hlogger _ (ordered_addDefined l a)
      dsimp only
      split
      · exact ordered_bind _ _ (hlogger _ (ordered_setFormatterText l _)) fun _ => hrest
      · exact hrest
  · unfold removeShared
    split
    · refine ordered_bind _ _ (ordered_getLogger i.name) fun l => ?_
      exact ordered_bind _ _ (ordered_modify _) fun _ => hclear l
    · exact Lib.Below.pure ()

end LogIniter

/-- A listener, which runs under the lock of its variable, takes no lock of the configuration, and a
visitor, which runs under the lock of the registry, does not take that one. -/
structure ConfigEnv.Ordered {ε ν κ : Type} (env : ConfigEnv ε ν κ) : Prop where
  listener : ∀ cb old new, LogProg.Ordered 4 (env.listener cb old new)
  visitor : ∀ cb v, LogProg.Ordered 5 (env.visitor cb v)

theorem SharedLock.rank_var (v : Nat) : (SharedLock.var v).rank < 5 := Nat.lt_succ_self 4

namespace ConfigProg
variable {ε ν κ α : Type} [DecidableEq ν] (env : ConfigEnv ε ν κ) {bound : Nat}
open LogProg

omit [DecidableEq ν] in
theorem ordered_readLocked (lock : SharedLock) (body : ConfigProg ε ν κ α)
    (hlt : lock.rank < bound) (hbody : Ordered lock.rank body) :
    Ordered bound (readLocked lock body) :=
  Lib.Below.locked lock .shared body hlt hbody

omit [DecidableEq ν] in
theorem ordered_rootLog (level : LogLevel) (text : String) (hbound : 3 ≤ bound) :
    Ordered bound (rootLog env level text) :=
  Lib.Below.mono 3 _ (ordered_logLevel 0 level _ env.now) hbound

omit [DecidableEq ν] in
theorem ordered_toString (v : Nat) : Ordered 5 (toString env v) := by
  refine ordered_bind _ _ (ordered_readLocked _ _ (SharedLock.rank_var v) (ordered_read _)) fun w => ?_
  split
  · exact Lib.Below.pure _
  · exact ordered_bind _ _ (ordered_rootLog env _ _ (by decide)) fun _ => Lib.Below.pure _

theorem ordered_setValue (henv : env.Ordered) (v : Nat) (val : ν) :
    Ordered 5 (setValue env v val) := by
  refine ordered_bind _ _ (ordered_readLocked _ _ (SharedLock.rank_var v) ?_) fun same => ?_
  · refine ordered_bind _ _ (ordered_read _) fun w => ?_
    split
    · exact Lib.Below.pure true
    · refine ordered_bind _ _ (Lib.Below.forEach _ _ fun cb _ => ?_) fun _ => Lib.Below.pure false
      exact ordered_bind _ _ (ordered_read _) fun old => henv.listener cb.2 old val
  · refine ordered_when _ _ fun _ => ?_
    exact ordered_guarded _ _ (SharedLock.rank_var v) (ordered_modify _)

theorem ordered_fromString (henv : env.Ordered) (v : Nat) (text : String) :
    Ordered 5 (fromString env v text) := by
  refine ordered_bind _ _ (ordered_read _) fun type => ?_
  dsimp only
  split
  · exact ordered_bind _ _ (ordered_setValue env henv v _) fun _ => Lib.Below.pure false
  · exact ordered_bind _ _ (ordered_rootLog env _ _ (by decide)) fun _ => Lib.Below.pure false

omit [DecidableEq ν] in
theorem ordered_lookupBase (name : String) :
    Ordered 6 (lookupBase name : ConfigProg ε ν κ (Option Nat)) :=
  ordered_readLocked _ _ (by decide) (ordered_read _)

omit [DecidableEq ν] in
theorem ordered_lookup (name : String) (type : Nat) (defaultValue : ν) :
    Ordered 6 (lookup env name type defaultValue) := by
  refine ordered_guarded _ _ (by decide) (ordered_bind _ _ (ordered_read _) fun w => ?_)
  split
  · split
    · exact ordered_bind _ _ (ordered_rootLog env _ _ (by decide)) fun _ => Lib.Below.pure _
    · refine ordered_bind _ _ (ordered_read _) fun least => ?_
      dsimp only
      split
      · refine ordered_bind _ _ (ordered_toString env _) fun text => ?_
        refine ordered_bind _ _ ?_ fun _ => Lib.Below.pure _
        exact Lib.Below.mono 3 _ (ordered_log 0 _ _ _) (by decide)
      · exact Lib.Below.pure _
  · split
    · exact ordered_bind _ _ (ordered_rootLog env _ _ (by decide)) fun _ => Lib.Below.pure _
    · exact ordered_bind _ _ (ordered_modify _) fun _ => Lib.Below.pure _

theorem ordered_loadFromYaml (henv : env.Ordered) (root : Yaml) :
    Ordered 6 (loadFromYaml env root) := by
  refine ordered_bind _ _ ?_ fun _ => ?_
  · exact Lib.Below.forEach _ _ fun path _ => ordered_rootLog env _ _ (by decide)
  · refine Lib.Below.forEach _ _ fun i _ => ?_
    unfold loadNode
    split
    · exact Lib.Below.pure ()
    · refine ordered_bind _ _ (ordered_lookupBase _) fun found => ?_
      split
      · exact Lib.Below.pure ()
      · refine ordered_bind _ _ ?_ fun _ => Lib.Below.pure ()
        exact Lib.Below.mono 5 _ (ordered_fromString env henv _ _) (by decide)

omit [DecidableEq ν] in
theorem ordered_visit (henv : env.Ordered) (cb : κ) : Ordered 6 (visit env cb) := by
  refine ordered_readLocked _ _ (by decide) (ordered_bind _ _ (ordered_read _) fun w => ?_)
  exact Lib.Below.forEach _ _ fun v _ => henv.visitor cb v

end ConfigProg

/-- A call of either interface, with the type of what it returns. -/
inductive ConfigCall (ε ν κ : Type) : Type → Type 1 where
  | lookup (name : String) (type : Nat) (defaultValue : ν) :
    ConfigCall ε ν κ (Except String (Option Nat))
  | find (name : String) (type : Nat) : ConfigCall ε ν κ (Option Nat)
  | lookupBase (name : String) : ConfigCall ε ν κ (Option Nat)
  | loadFromYaml (root : Yaml) : ConfigCall ε ν κ Unit
  | visit (cb : κ) : ConfigCall ε ν κ Unit
  | toString (v : Nat) : ConfigCall ε ν κ String
  | fromString (v : Nat) (text : String) : ConfigCall ε ν κ Bool
  | getValue (v : Nat) : ConfigCall ε ν κ ν
  | setValue (v : Nat) (val : ν) : ConfigCall ε ν κ Unit
  | addListener (v : Nat) (cb : κ) : ConfigCall ε ν κ Nat
  | delListener (v key : Nat) : ConfigCall ε ν κ Unit
  | clearListener (v : Nat) : ConfigCall ε ν κ Unit
  | getListener (v key : Nat) : ConfigCall ε ν κ (Option κ)
  | log {α : Type} (call : LoggerCall ε α) : ConfigCall ε ν κ α

inductive Caller (ε ν κ : Type) : Type 1 where
  | done
  | call {α : Type} (request : ConfigCall ε ν κ α) (next : α → Caller ε ν κ)

inductive Found where
  | logger (name : String) (l : Nat)
  | var (name : String) (type v : Nat)
deriving DecidableEq

def ConfigCall.found {ε ν κ α : Type} : ConfigCall ε ν κ α → α → List Found
  | .lookup name type _, .ok (some v) => [.var name type v]
  | .find name type, some v => [.var name type v]
  | .log (.getLogger name), l => [.logger name l]
  | _, _ => []

section
variable {ε ν κ : Type} [DecidableEq ν] (env : ConfigEnv ε ν κ)
open LogProg

def ConfigCall.prog {α : Type} : ConfigCall ε ν κ α → ConfigProg ε ν κ α
  | .lookup name type defaultValue => ConfigProg.lookup env name type defaultValue
  | .find name type => ConfigProg.find name type
  | .lookupBase name => ConfigProg.lookupBase name
  | .loadFromYaml root => ConfigProg.loadFromYaml env root
  | .visit cb => ConfigProg.visit env cb
  | .toString v => ConfigProg.toString env v
  | .fromString v text => ConfigProg.fromString env v text
  | .getValue v => ConfigProg.getValue v
  | .setValue v val => ConfigProg.setValue env v val
  | .addListener v cb => ConfigProg.addListener v cb
  | .delListener v key => ConfigProg.delListener v key
  | .clearListener v => ConfigProg.clearListener v
  | .getListener v key => ConfigProg.getListener v key
  | .log call => call.prog

def Caller.prog : Caller ε ν κ → ConfigProg ε ν κ (List Found)
  | .done => .pure []
  | .call request next => do
    let a ← request.prog env
    let found ← (next a).prog
    .pure (request.found a ++ found)

theorem ConfigCall.ordered_prog (henv : env.Ordered) {α : Type} (call : ConfigCall ε ν κ α) :
    Ordered 6 (call.prog env) := by
  have hvar {β : Type} (p : ConfigProg ε ν κ β) (hp : Ordered 5 p) : Ordered 6 p :=
    Lib.Below.mono 5 p hp (by decide)
  have hmodify (v : Nat) (f : LogShared ε (ConfigShared ν κ) → LogShared ε (ConfigShared ν κ)) :
      Ordered 6 (guarded (.var v) (Prog.modify f)) :=
    ordered_guarded _ _ (Nat.lt_succ_of_lt (SharedLock.rank_var v)) (ordered_modify f)
  have hread {β : Type} (v : Nat) (f : LogShared ε (ConfigShared ν κ) → β) :
      Ordered 6 (ConfigProg.readLocked (.var v) (Prog.read f)) :=
    ConfigProg.ordered_readLocked _ _ (Nat.lt_succ_of_lt (SharedLock.rank_var v)) (ordered_read f)
  cases call with
  | lookup name type defaultValue => exact ConfigProg.ordered_lookup env name type defaultValue
  | find name type => exact ConfigProg.ordered_readLocked _ _ (by decide) (ordered_read _)
  | lookupBase name => exact ConfigProg.ordered_lookupBase name
  | loadFromYaml root => exact ConfigProg.ordered_loadFromYaml env henv root
  | visit cb => exact ConfigProg.ordered_visit env henv cb
  | toString v => exact hvar _ (ConfigProg.ordered_toString env v)
  | fromString v text => exact hvar _ (ConfigProg.ordered_fromString env henv v text)
  | getValue v => exact hread v _
  | setValue v val => exact hvar _ (ConfigProg.ordered_setValue env henv v val)
  | addListener v cb =>
    refine ordered_guarded _ _ (Nat.lt_succ_of_lt (SharedLock.rank_var v)) ?_
    exact ordered_bind _ _ (ordered_modify _) fun _ =>
      ordered_bind _ _ (ordered_modify _) fun _ => ordered_read _
  | delListener v key => exact hmodify v _
  | clearListener v => exact hmodify v _
  | getListener v key => exact hread v _
  | log call => exact Lib.Below.mono 4 _ call.ordered_prog (by decide)

theorem Caller.ordered_prog (henv : env.Ordered) (caller : Caller ε ν κ) :
    Ordered 6 (caller.prog env) := by
  induction caller with
  | done => exact Lib.Below.pure []
  | call request next ih =>
    refine ordered_bind _ _ (request.ordered_prog env henv) fun a => ?_
    exact ordered_bind _ _ (ih a) fun found => Lib.Below.pure _

/-- Threads that use the logging and the configuration, in any number and with any calls, cannot
block one another: a run that cannot go on is one in which all threads have ended, and no run goes
on for ever. -/
theorem callers_complete (henv : env.Ordered) (world : LogShared ε (ConfigShared ν κ))
    (callers : List (Caller ε ν κ)) :
    let start : Lib.Pool SharedLock (LogShared ε (ConfigShared ν κ)) (List Found) :=
      ⟨world, callers.map fun caller => ⟨[], caller.prog env⟩⟩
    (∀ schedule after, Lib.run Lib.Pool.step start schedule = some after →
      (∀ i, after.step i = none) → ∀ t ∈ after.threads, t.prog.Done ∧ t.held = []) ∧
    ∀ states : Nat → Lib.Pool SharedLock (LogShared ε (ConfigShared ν κ)) (List Found),
      states 0 = start → ∃ n, ∀ i, (states n).step i ≠ some (states (n + 1)) := by
  intro start
  apply Lib.run_completes SharedLock.rank (fun _ => True)
  have hsound := Lib.sound_start SharedLock.rank (fun _ => True) 6 world
    (callers.map (Caller.prog env)) trivial (by
      intro p hp
      obtain ⟨caller, -, rfl⟩ := List.mem_map.mp hp
      exact caller.ordered_prog env henv)
  rwa [List.map_map] at hsound

end

theorem LogDefineSet.defs_injective (v v' : LogDefineSet) : v.defs = v'.defs ↔ v = v' := by
  cases v
  cases v'
  simp

instance LogDefineSet.decidableEq : DecidableEq LogDefineSet := fun v v' =>
  decidable_of_iff _ (LogDefineSet.defs_injective v v')

/-- The listener of `LogIniter`, and a visitor that reads the variables. -/
def logsEnv : ConfigEnv String LogDefineSet Unit where
  toStr := fun _ _ => none
  fromStr := fun _ _ => none
  listener := fun _ old new => LogIniter.onChangeShared id (fun _ => 0) old new
  visitor := fun _ v => ConfigProg.getValue v >>= fun _ => .pure ()
  emit := fun _ => ""
  event := id
  now := fun _ => 0

theorem logsEnv_ordered : logsEnv.Ordered where
  listener := fun _ _ _ => LogIniter.ordered_onChangeShared _ _ _ _
  visitor := fun _ v => LogProg.ordered_bind _ _
    (ConfigProg.ordered_readLocked _ _ (SharedLock.rank_var v) (LogProg.ordered_read _))
    fun _ => Lib.Below.pure ()

/-- The root logger with an appender, and the variable `logs` with its listener. -/
def initialShared : LogShared String (ConfigShared LogDefineSet Unit) where
  objects :=
    { loggers := fun _ => { name := "root", formatter := some ⟨0, .standard⟩, appenders := [0] }
      appenders := fun _ => { formatter := some ⟨0, .standard⟩ } }
  levels := fun _ => .debug
  hasRoot := fun _ => false
  rooted := rfl
  kinds := fun _ => .stdout
  appenderLevels := fun _ => .debug
  lastTimes := fun _ => 0
  streams := fun _ => []
  loggers := [("root", 0)]
  created := 0
  allocated := 1
  config :=
    { datas := [("logs", 0)]
      created := 1
      types := fun _ => 0
      vals := fun _ => ⟨[], .nil⟩
      cbs := fun _ => [(1, ())]
      funIds := fun _ => 1 }

/-- One thread sets `logs`, so that its listener runs, while another asks for it under a wrong type
and then visits the variables. -/
theorem callers_complete_two :
    let setter : Caller String LogDefineSet Unit :=
      .call (.setValue 0 ⟨[{ name := "system" }], List.pairwise_singleton _ _⟩) fun _ => .done
    let visitor : Caller String LogDefineSet Unit :=
      .call (.lookup "logs" 1 ⟨[], .nil⟩) fun _ => .call (.visit ()) fun _ => .done
    let start : Lib.Pool SharedLock (LogShared String (ConfigShared LogDefineSet Unit))
        (List Found) := ⟨initialShared, [setter, visitor].map fun caller => ⟨[], caller.prog logsEnv⟩⟩
    (∀ schedule after, Lib.run Lib.Pool.step start schedule = some after →
      (∀ i, after.step i = none) → ∀ t ∈ after.threads, t.prog.Done ∧ t.held = []) ∧
    ∀ states : Nat → Lib.Pool SharedLock (LogShared String (ConfigShared LogDefineSet Unit))
        (List Found), states 0 = start → ∃ n, ∀ i, (states n).step i ≠ some (states (n + 1)) :=
  callers_complete logsEnv logsEnv_ordered initialShared _

end Sylar
