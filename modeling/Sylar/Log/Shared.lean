import Sylar.Lib.KeyedMap
import Sylar.Lib.Locks
import Sylar.Log.FileAppender
import Sylar.Log.Formatters

/-! The calls of `log.cc` as programs of threads, with the locks that they take.

Object 0 is the root logger of the manager; `m_root` of another logger is that one or null, and
its own is null. A time is what `time(0)` returns to the call. -/
namespace Sylar
open Lib (Mode Prog)

/-- The mutexes of `Config`, of a variable, of `LoggerManager`, of a logger and of an appender. -/
inductive SharedLock where
  | config
  | var (v : Nat)
  | manager
  | logger (l : Nat)
  | appender (a : Nat)
deriving DecidableEq

/-- What an appender has been given. Its formatter is read when it writes. -/
structure LogRecord (ε : Type) where
  logger : Nat
  level : LogLevel
  event : ε
  formatter : Option FormatterPtr

/-- The objects of `log.cc`, and what else the threads share. `streams` is what an appender has
written since its stream was opened. -/
structure LogShared (ε γ : Type) where
  objects : LogObjects
  levels : Nat → LogLevel
  hasRoot : Nat → Bool
  rooted : hasRoot 0 = false
  kinds : Nat → AppenderKind
  appenderLevels : Nat → LogLevel
  lastTimes : Nat → Nat
  streams : Nat → List (LogRecord ε)
  loggers : List (String × Nat)
  created : Nat
  allocated : Nat
  config : γ

namespace LogShared
variable {ε γ : Type}

def setLevel (w : LogShared ε γ) (l : Nat) (level : LogLevel) : LogShared ε γ :=
  { w with levels := Function.update w.levels l level }

def setAppenderLevel (w : LogShared ε γ) (a : Nat) (level : LogLevel) : LogShared ε γ :=
  { w with appenderLevels := Function.update w.appenderLevels a level }

def setLastTime (w : LogShared ε γ) (a now : Nat) : LogShared ε γ :=
  { w with lastTimes := Function.update w.lastTimes a now }

def openStream (w : LogShared ε γ) (a : Nat) : LogShared ε γ :=
  { w with streams := Function.update w.streams a [] }

def write (w : LogShared ε γ) (a l : Nat) (level : LogLevel) (event : ε) : LogShared ε γ :=
  { w with
    streams := Function.update w.streams a
      (w.streams a ++ [⟨l, level, event, (w.objects.appenders a).formatter⟩]) }

def giveFormatter (w : LogShared ε γ) (a l : Nat) : LogShared ε γ :=
  { w with
    objects := w.objects.setAppender a
      { w.objects.appenders a with formatter := (w.objects.loggers l).formatter } }

def attach (w : LogShared ε γ) (l a : Nat) : LogShared ε γ :=
  { w with
    objects := w.objects.setLogger l
      { w.objects.loggers l with appenders := (w.objects.loggers l).appenders ++ [a] } }

def createLogger (w : LogShared ε γ) (name : String) : LogShared ε γ :=
  { w with
    objects := w.objects.setLogger (w.created + 1)
      { name := name, formatter := some ⟨w.allocated, .standard⟩ }
    levels := Function.update w.levels (w.created + 1) .debug
    hasRoot := Function.update w.hasRoot (w.created + 1) true
    rooted := by rw [Function.update_of_ne (Nat.succ_ne_zero w.created).symm, w.rooted]
    loggers := Lib.mapAssign (fun a b => decide (a < b)) name (w.created + 1) w.loggers
    created := w.created + 1
    allocated := w.allocated + 1 }

def createAppender (w : LogShared ε γ) (kind : AppenderKind) : LogShared ε γ :=
  { w with
    objects := w.objects.setAppender w.allocated {}
    kinds := Function.update w.kinds w.allocated kind
    appenderLevels := Function.update w.appenderLevels w.allocated .debug
    lastTimes := Function.update w.lastTimes w.allocated 0
    streams := Function.update w.streams w.allocated []
    allocated := w.allocated + 1 }

end LogShared

structure LoggerYaml where
  name : String
  level : LogLevel
  formatter : Option LogFormatter
  appenders : List LogAppender

abbrev LogProg (ε γ α : Type) := Prog SharedLock (LogShared ε γ) α

namespace LogProg
variable {ε γ : Type}

def guarded {α : Type} (lock : SharedLock) (body : LogProg ε γ α) : LogProg ε γ α :=
  Prog.locked lock .exclusive body

def appenderSetFormatter (a : Nat) (val : Option FormatterPtr) : LogProg ε γ Unit :=
  guarded (.appender a) <| Prog.modify fun w =>
    { w with objects := w.objects.appenderSetFormatter a val }

def appenderGetFormatter (a : Nat) : LogProg ε γ (Option FormatterPtr) :=
  guarded (.appender a) <| Prog.read fun w => (w.objects.appenders a).formatter

def allocate : LogProg ε γ Nat :=
  .act (fun w => { w with allocated := w.allocated + 1 }) fun w => .pure w.allocated

def reopen (a : Nat) : LogProg ε γ Unit :=
  guarded (.appender a) <| Prog.modify fun w => w.openStream a

/-- The constructors; that of a file opens it. -/
def newAppender (kind : AppenderKind) : LogProg ε γ Nat := do
  let a ← Prog.act (fun w => w.createAppender kind) fun w => .pure w.allocated
  if kind ≠ .stdout then reopen a
  .pure a

def appenderLog (a l : Nat) (level : LogLevel) (event : ε) (now : Nat) : LogProg ε γ Unit := do
  let least ← Prog.read fun w => w.appenderLevels a
  if least.value ≤ level.value then do
    let kind ← Prog.read fun w => w.kinds a
    let last ← Prog.read fun w => w.lastTimes a
    if kind ≠ .stdout ∧ now ≠ last then do
      reopen a
      Prog.modify fun w => w.setLastTime a now
    guarded (.appender a) <| Prog.modify fun w => w.write a l level event

/-- `toYamlString` of both appenders, as what it is written from. -/
def appenderToYaml (a : Nat) : LogProg ε γ LogAppender :=
  guarded (.appender a) <| Prog.read fun w =>
    { kind := w.kinds a
      level := w.appenderLevels a
      hasFormat := (w.objects.appenders a).hasFormat
      formatter := (w.objects.appenders a).formatter.map FormatterPtr.object }

/-- `Logger::log`; `rootLog` is the call through `m_root`. -/
def logThrough (rootLog : LogProg ε γ Unit) (l : Nat) (level : LogLevel) (event : ε)
    (now : Nat → Nat) : LogProg ε γ Unit := do
  let least ← Prog.read fun w => w.levels l
  if least.value ≤ level.value then
    guarded (.logger l) do
      let w ← Prog.read id
      if (w.objects.loggers l).appenders ≠ [] then
        Prog.forEach (w.objects.loggers l).appenders fun a => appenderLog a l level event (now a)
      else if w.hasRoot l then rootLog

/-- Behind the root there is no other. -/
def log (l : Nat) (level : LogLevel) (event : ε) (now : Nat → Nat) : LogProg ε γ Unit :=
  logThrough (logThrough (.pure ()) 0 level event now) l level event now

def logLevel (l : Nat) (level : LogLevel) (event : ε) (now : Nat → Nat) : LogProg ε γ Unit := do
  let least ← Prog.read fun w => w.levels l
  if least.value ≤ level.value then log l level event now

def inheritFormatter (l a : Nat) : LogProg ε γ Unit :=
  guarded (.appender a) <| Prog.modify fun w =>
    { w with objects := { w.objects with
        appenders := LogObjects.inherit (w.objects.loggers l).formatter w.objects.appenders a } }

def setFormatter (l : Nat) (val : Option FormatterPtr) : LogProg ε γ Unit :=
  guarded (.logger l) do
    Prog.modify fun w =>
      { w with objects := w.objects.setLogger l { w.objects.loggers l with formatter := val } }
    let appenders ← Prog.read fun w => (w.objects.loggers l).appenders
    Prog.forEach appenders (inheritFormatter l)

def setFormatterText (l : Nat) (val : String) : LogProg ε γ Unit := do
  let address ← allocate
  if (LogFormatter.new val).error = false then
    setFormatter l (some ⟨address, LogFormatter.new val⟩)

def getFormatter (l : Nat) : LogProg ε γ (Option FormatterPtr) :=
  guarded (.logger l) <| Prog.read fun w => (w.objects.loggers l).formatter

def addAppender (l a : Nat) : LogProg ε γ Unit :=
  guarded (.logger l) do
    let found ← appenderGetFormatter a
    if found.isNone then
      guarded (.appender a) <| Prog.modify fun w => w.giveFormatter a l
    Prog.modify fun w => w.attach l a

def delAppender (l a : Nat) : LogProg ε γ Unit :=
  guarded (.logger l) <| Prog.modify fun w => { w with objects := w.objects.delAppender l a }

def clearAppenders (l : Nat) : LogProg ε γ Unit :=
  guarded (.logger l) <| Prog.modify fun w => { w with objects := w.objects.clearAppenders l }

def toYaml (l : Nat) : LogProg ε γ LoggerYaml :=
  guarded (.logger l) do
    let w ← Prog.read id
    let appenders ← Prog.mapEach (w.objects.loggers l).appenders appenderToYaml
    .pure
      { name := (w.objects.loggers l).name
        level := w.levels l
        formatter := (w.objects.loggers l).formatter.map FormatterPtr.object
        appenders := appenders }

def getLogger (name : String) : LogProg ε γ Nat :=
  guarded .manager do
    let w ← Prog.read id
    match w.loggers.lookup name with
    | some l => .pure l
    | none => do
      Prog.modify fun w => w.createLogger name
      .pure (w.created + 1)

def managerToYaml : LogProg ε γ (List LoggerYaml) :=
  guarded .manager do
    let w ← Prog.read id
    Prog.mapEach (w.loggers.map Prod.snd) toYaml

end LogProg

/-- The locks that are taken later have the lower ranks. -/
def SharedLock.rank : SharedLock → Nat
  | .config => 5
  | .var _ => 4
  | .manager => 3
  | .logger 0 => 1
  | .logger (_ + 1) => 2
  | .appender _ => 0

theorem SharedLock.rank_logger (l : Nat) : 0 < (SharedLock.logger l).rank ∧
    (SharedLock.logger l).rank < 3 := by
  cases l <;> simp [rank]

namespace LogProg
variable {ε γ α β : Type} {bound : Nat}

abbrev Ordered (bound : Nat) (p : LogProg ε γ α) : Prop :=
  Lib.Below SharedLock.rank (fun _ => True) bound p

theorem ordered_bind (p : LogProg ε γ α) (f : α → LogProg ε γ β) (hp : Ordered bound p)
    (hf : ∀ a, Ordered bound (f a)) : Ordered bound (p >>= f) :=
  Lib.Below.bind p f hp hf

theorem ordered_when (c : Prop) [Decidable c] (p : LogProg ε γ Unit) (hp : c → Ordered bound p) :
    Ordered bound (if c then p else pure ()) := by
  by_cases hc : c
  · rw [if_pos hc]
    exact hp hc
  · rw [if_neg hc]
    exact Lib.Below.pure ()

theorem ordered_read (f : LogShared ε γ → α) : Ordered bound (Prog.read f : LogProg ε γ α) :=
  Lib.Below.read f

theorem ordered_modify (f : LogShared ε γ → LogShared ε γ) :
    Ordered bound (Prog.modify f : LogProg ε γ Unit) :=
  Lib.Below.modify f fun _ _ => trivial

theorem ordered_allocate : Ordered bound (allocate : LogProg ε γ Nat) :=
  Lib.Below.act _ _ (fun _ _ => trivial) fun _ _ => Lib.Below.pure _

theorem ordered_guarded (lock : SharedLock) (body : LogProg ε γ α) (hlt : lock.rank < bound)
    (hbody : Ordered lock.rank body) : Ordered bound (guarded lock body) :=
  Lib.Below.locked lock .exclusive body hlt hbody

section
variable (a l : Nat)

theorem ordered_appender (body : LogProg ε γ α) (hbody : Ordered 0 body) :
    Ordered 1 (guarded (.appender a) body) :=
  ordered_guarded _ body Nat.one_pos hbody

theorem ordered_newAppender (kind : AppenderKind) :
    Ordered 1 (newAppender kind : LogProg ε γ Nat) := by
  refine ordered_bind _ _ (Lib.Below.act _ _ (fun _ _ => trivial) fun _ _ => Lib.Below.pure _)
    fun a => ?_
  dsimp only
  split
  · exact ordered_bind _ _ (ordered_appender a _ (ordered_modify _)) fun _ => Lib.Below.pure a
  · exact Lib.Below.pure a

theorem ordered_appenderLog (level : LogLevel) (event : ε) (now : Nat) :
    Ordered 1 (appenderLog a l level event now : LogProg ε γ Unit) := by
  refine ordered_bind _ _ (ordered_read _) fun least => ordered_when _ _ fun _ => ?_
  refine ordered_bind _ _ (ordered_read _) fun kind => ordered_bind _ _ (ordered_read _) fun last => ?_
  have hwrite : Ordered 1 (guarded (.appender a)
      (Prog.modify fun w => w.write a l level event) : LogProg ε γ Unit) :=
    ordered_appender a _ (ordered_modify _)
  dsimp only
  split
  · refine ordered_bind _ _ (ordered_appender a _ (ordered_modify _)) fun _ => ?_
    exact ordered_bind _ _ (ordered_modify _) fun _ => hwrite
  · exact hwrite

theorem below_logger (p : LogProg ε γ α) (hp : Ordered 1 p) : Ordered (SharedLock.logger l).rank p :=
  Lib.Below.mono 1 p hp (SharedLock.rank_logger l).1

theorem ordered_logger (body : LogProg ε γ α) (hbody : Ordered 1 body) :
    Ordered 3 (guarded (.logger l) body) :=
  ordered_guarded _ body (SharedLock.rank_logger l).2 (below_logger l body hbody)

/-- The root has no root, so the lock of another logger is taken behind no logger but the root. -/
theorem ordered_logThrough (rootLog : LogProg ε γ Unit) (level : LogLevel) (event : ε)
    (now : Nat → Nat) (hlt : (SharedLock.logger l).rank < bound)
    (hroot : l ≠ 0 → Ordered (SharedLock.logger l).rank rootLog) :
    Ordered bound (logThrough rootLog l level event now) := by
  refine ordered_bind _ _ (ordered_read _) fun least => ordered_when _ _ fun _ => ?_
  refine ordered_guarded _ _ hlt (ordered_bind _ _ (ordered_read _) fun w => ?_)
  split
  · apply below_logger
    exact Lib.Below.forEach _ _ fun a _ => ordered_appenderLog a l level event (now a)
  · refine ordered_when _ _ fun hrooted => hroot ?_
    rintro rfl
    rw [w.rooted] at hrooted
    cases hrooted

theorem ordered_log (level : LogLevel) (event : ε) (now : Nat → Nat) :
    Ordered 3 (log l level event now : LogProg ε γ Unit) := by
  apply ordered_logThrough l _ level event now (SharedLock.rank_logger l).2
  intro hother
  apply ordered_logThrough 0 _ level event now
  · obtain ⟨n, rfl⟩ := Nat.exists_eq_succ_of_ne_zero hother
    exact Nat.lt_succ_self 1
  · exact fun hzero => absurd rfl hzero

theorem ordered_logLevel (level : LogLevel) (event : ε) (now : Nat → Nat) :
    Ordered 3 (logLevel l level event now : LogProg ε γ Unit) :=
  ordered_bind _ _ (ordered_read _) fun _ => ordered_when _ _ fun _ => ordered_log l level event now

theorem ordered_setFormatter (val : Option FormatterPtr) :
    Ordered 3 (setFormatter l val : LogProg ε γ Unit) := by
  apply ordered_logger
  refine ordered_bind _ _ (ordered_modify _) fun _ => ordered_bind _ _ (ordered_read _) fun _ => ?_
  exact Lib.Below.forEach _ _ fun a _ => ordered_appender a _ (ordered_modify _)

theorem ordered_setFormatterText (val : String) :
    Ordered 3 (setFormatterText l val : LogProg ε γ Unit) :=
  ordered_bind _ _ ordered_allocate fun _ => ordered_when _ _ fun _ => ordered_setFormatter l _

theorem ordered_addAppender : Ordered 3 (addAppender l a : LogProg ε γ Unit) := by
  apply ordered_logger
  refine ordered_bind _ _ (ordered_appender a _ (ordered_read _)) fun found => ?_
  dsimp only
  split
  · exact ordered_bind _ _ (ordered_appender a _ (ordered_modify _)) fun _ => ordered_modify _
  · exact ordered_modify _

theorem ordered_toYaml : Ordered 3 (toYaml l : LogProg ε γ _) := by
  apply ordered_logger
  refine ordered_bind _ _ (ordered_read _) fun w => ?_
  refine ordered_bind _ _ (Lib.Below.mapEach _ _ fun a _ => ordered_appender a _ (ordered_read _)) ?_
  exact fun _ => Lib.Below.pure _

end

theorem ordered_getLogger (name : String) :
    Ordered 4 (getLogger name : LogProg ε γ Nat) := by
  refine ordered_guarded _ _ (by decide) (ordered_bind _ _ (ordered_read _) fun w => ?_)
  split
  · exact Lib.Below.pure _
  · exact ordered_bind _ _ (ordered_modify _) fun _ => Lib.Below.pure _

theorem ordered_managerToYaml : Ordered 4 (managerToYaml : LogProg ε γ _) := by
  refine ordered_guarded _ _ (by decide) (ordered_bind _ _ (ordered_read _) fun w => ?_)
  exact Lib.Below.mapEach _ _ fun l _ => ordered_toYaml l

end LogProg

inductive LoggerCall (ε : Type) : Type → Type where
  | log (l : Nat) (level : LogLevel) (event : ε) (now : Nat → Nat) : LoggerCall ε Unit
  | setLevel (l : Nat) (level : LogLevel) : LoggerCall ε Unit
  | setFormatter (l : Nat) (val : Option FormatterPtr) : LoggerCall ε Unit
  | setFormatterText (l : Nat) (val : String) : LoggerCall ε Unit
  | newAppender (kind : AppenderKind) : LoggerCall ε Nat
  | getFormatter (l : Nat) : LoggerCall ε (Option FormatterPtr)
  | addAppender (l a : Nat) : LoggerCall ε Unit
  | delAppender (l a : Nat) : LoggerCall ε Unit
  | clearAppenders (l : Nat) : LoggerCall ε Unit
  | toYamlString (l : Nat) : LoggerCall ε LoggerYaml
  | appenderSetLevel (a : Nat) (level : LogLevel) : LoggerCall ε Unit
  | appenderSetFormatter (a : Nat) (val : Option FormatterPtr) : LoggerCall ε Unit
  | appenderGetFormatter (a : Nat) : LoggerCall ε (Option FormatterPtr)
  | reopen (a : Nat) : LoggerCall ε Unit
  | getLogger (name : String) : LoggerCall ε Nat
  | managerToYamlString : LoggerCall ε (List LoggerYaml)

namespace LoggerCall
variable {ε γ α : Type}
open LogProg

def prog : LoggerCall ε α → LogProg ε γ α
  | .log l level event now => LogProg.logLevel l level event now
  | .setLevel l level => Prog.modify fun w => w.setLevel l level
  | .setFormatter l val => LogProg.setFormatter l val
  | .setFormatterText l val => LogProg.setFormatterText l val
  | .newAppender kind => LogProg.newAppender kind
  | .getFormatter l => LogProg.getFormatter l
  | .addAppender l a => LogProg.addAppender l a
  | .delAppender l a => LogProg.delAppender l a
  | .clearAppenders l => LogProg.clearAppenders l
  | .toYamlString l => LogProg.toYaml l
  | .appenderSetLevel a level => Prog.modify fun w => w.setAppenderLevel a level
  | .appenderSetFormatter a val => LogProg.appenderSetFormatter a val
  | .appenderGetFormatter a => LogProg.appenderGetFormatter a
  | .reopen a => LogProg.reopen a
  | .getLogger name => LogProg.getLogger name
  | .managerToYamlString => LogProg.managerToYaml

theorem ordered_prog (call : LoggerCall ε α) : Ordered 4 (call.prog : LogProg ε γ α) := by
  have hlogger {β : Type} (p : LogProg ε γ β) (hp : Ordered 3 p) : Ordered 4 p :=
    Lib.Below.mono 3 p hp (by decide)
  have happender {β : Type} (p : LogProg ε γ β) (hp : Ordered 1 p) : Ordered 4 p :=
    Lib.Below.mono 1 p hp (by decide)
  cases call with
  | log l level event now => exact hlogger _ (ordered_logLevel l level event now)
  | setLevel l level => exact ordered_modify _
  | setFormatter l val => exact hlogger _ (ordered_setFormatter l val)
  | setFormatterText l val => exact hlogger _ (ordered_setFormatterText l val)
  | newAppender kind => exact happender _ (ordered_newAppender kind)
  | getFormatter l => exact hlogger _ (ordered_logger l _ (ordered_read _))
  | addAppender l a => exact hlogger _ (ordered_addAppender a l)
  | delAppender l a => exact hlogger _ (ordered_logger l _ (ordered_modify _))
  | clearAppenders l => exact hlogger _ (ordered_logger l _ (ordered_modify _))
  | toYamlString l => exact hlogger _ (ordered_toYaml l)
  | appenderSetLevel a level => exact ordered_modify _
  | appenderSetFormatter a val => exact happender _ (ordered_appender a _ (ordered_modify _))
  | appenderGetFormatter a => exact happender _ (ordered_appender a _ (ordered_read _))
  | reopen a => exact happender _ (ordered_appender a _ (ordered_modify _))
  | getLogger name => exact ordered_getLogger name
  | managerToYamlString => exact ordered_managerToYaml

def ofOp : LogObjects.Op → LoggerCall ε Unit
  | .addAppender l a => .addAppender l a
  | .delAppender l a => .delAppender l a
  | .clearAppenders l => .clearAppenders l
  | .setFormatter l val => .setFormatter l val
  | .setFormatterText l _ val => .setFormatterText l val
  | .appenderSetFormatter a val => .appenderSetFormatter a val

theorem alone_inheritFormatter (l : Nat) (w : LogShared ε γ) (list : List Nat) :
    ((Prog.forEach list (inheritFormatter l)).alone w).1.objects =
      { w.objects with
        appenders :=
          list.foldl (LogObjects.inherit (w.objects.loggers l).formatter) w.objects.appenders } := by
  induction list generalizing w with
  | nil => rfl
  | cons a rest ih =>
    rw [Prog.forEach, Prog.alone_bind, ih]
    rfl

theorem alone_setFormatter (l : Nat) (val : Option FormatterPtr) (w : LogShared ε γ) :
    ((LogProg.setFormatter l val : LogProg ε γ Unit).alone w).1.objects =
      w.objects.setFormatter l val := by
  have hset := LogObjects.setLogger_loggers w.objects l l { w.objects.loggers l with formatter := val }
  rw [if_pos rfl] at hset
  rw [LogProg.setFormatter, guarded, Prog.alone_locked]
  refine (alone_inheritFormatter l _ _).trans ?_
  simp only [id, hset]
  rfl

/-- A call that nothing interrupts does what the operation does; the new formatter is at the next
address. -/
theorem alone_ofOp (w : LogShared ε γ) (op : LogObjects.Op)
    (haddress : ∀ l address val, op = .setFormatterText l address val → address = w.allocated) :
    (((ofOp op).prog : LogProg ε γ Unit).alone w).1.objects = w.objects.apply op := by
  cases op with
  | addAppender l a =>
    rw [ofOp, prog, LogProg.addAppender, guarded, Prog.alone_locked]
    rw [Prog.bind_eq, Prog.alone_bind, LogProg.appenderGetFormatter, guarded, Prog.alone_locked]
    dsimp only [Prog.read, Prog.alone, id, LogObjects.apply, LogObjects.addAppender]
    by_cases hnone : (w.objects.appenders a).formatter.isNone = true
    · simp only [hnone, if_true]
      rfl
    · simp only [hnone]
      rfl
  | delAppender l a => rfl
  | clearAppenders l => rfl
  | setFormatter l val => exact alone_setFormatter l val w
  | setFormatterText l address val =>
    rw [haddress l address val rfl, ofOp, prog, LogProg.setFormatterText, Prog.bind_eq, Prog.alone_bind]
    dsimp only [allocate, Prog.alone, LogObjects.apply, LogObjects.setFormatterText]
    by_cases herror : (LogFormatter.new val).error = false
    · rw [if_pos herror, if_neg (by simp [herror])]
      exact alone_setFormatter l _ _
    · rw [if_neg herror, if_pos (by simpa using herror)]
      rfl
  | appenderSetFormatter a val => rfl

end LoggerCall
end Sylar
