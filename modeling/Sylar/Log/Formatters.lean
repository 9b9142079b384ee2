import Sylar.Lib.Run
import Sylar.Log.Logger

/-! The formatter pointers of `LogAppender` and `Logger` of `log.cc`.

Loggers and appenders are shared objects, so they live in two stores and an appender can hang
below several loggers. A formatter is told apart by its address. -/
namespace Sylar

structure FormatterPtr where
  address : Nat
  object : LogFormatter
deriving DecidableEq

structure AppenderObject where
  hasFormat : Bool := false
  formatter : Option FormatterPtr := none

structure LoggerObject where
  name : String
  formatter : Option FormatterPtr
  appenders : List Nat := []

structure LogObjects where
  loggers : Nat → LoggerObject
  appenders : Nat → AppenderObject

namespace LogObjects

/-- Newly constructed objects; the constructors put the standard formatters at `addresses`. -/
def start (names : Nat → String) (addresses : Nat → Nat) : LogObjects where
  loggers l := { name := names l, formatter := some ⟨addresses l, .standard⟩ }
  appenders _ := {}

def setLogger (s : LogObjects) (l : Nat) (object : LoggerObject) : LogObjects :=
  { s with loggers := Function.update s.loggers l object }

def setAppender (s : LogObjects) (a : Nat) (object : AppenderObject) : LogObjects :=
  { s with appenders := Function.update s.appenders a object }

def appenderSetFormatter (s : LogObjects) (a : Nat) (val : Option FormatterPtr) : LogObjects :=
  s.setAppender a { hasFormat := val.isSome, formatter := val }

def inherit (val : Option FormatterPtr) (appenders : Nat → AppenderObject) (a : Nat) :
    Nat → AppenderObject :=
  if (appenders a).hasFormat then appenders
  else Function.update appenders a { appenders a with formatter := val }

def setFormatter (s : LogObjects) (l : Nat) (val : Option FormatterPtr) : LogObjects :=
  { s.setLogger l { s.loggers l with formatter := val } with
    appenders := (s.loggers l).appenders.foldl (inherit val) s.appenders }

/-- The overload for a pattern, whose new formatter is at `address`, with what it prints. -/
def setFormatterText (s : LogObjects) (l address : Nat) (val : String) :
    LogObjects × List String :=
  let newVal := LogFormatter.new val
  if newVal.error then
    (s, newVal.lines ++ [" Logger set Formatter name= " ++ (s.loggers l).name ++ " value=" ++ val ++
      " invalid formatter"])
  else (s.setFormatter l (some ⟨address, newVal⟩), newVal.lines)

def addAppender (s : LogObjects) (l a : Nat) : LogObjects :=
  let s := if (s.appenders a).formatter.isNone then
      s.setAppender a { s.appenders a with formatter := (s.loggers l).formatter }
    else s
  s.setLogger l { s.loggers l with appenders := (s.loggers l).appenders ++ [a] }

def delAppender (s : LogObjects) (l a : Nat) : LogObjects :=
  s.setLogger l { s.loggers l with appenders := (s.loggers l).appenders.erase a }

def clearAppenders (s : LogObjects) (l : Nat) : LogObjects :=
  s.setLogger l { s.loggers l with appenders := [] }

inductive Op where
  | addAppender (l a : Nat)
  | delAppender (l a : Nat)
  | clearAppenders (l : Nat)
  | setFormatter (l : Nat) (val : Option FormatterPtr)
  | setFormatterText (l address : Nat) (val : String)
  | appenderSetFormatter (a : Nat) (val : Option FormatterPtr)

def apply (s : LogObjects) : Op → LogObjects
  | .addAppender l a => s.addAppender l a
  | .delAppender l a => s.delAppender l a
  | .clearAppenders l => s.clearAppenders l
  | .setFormatter l val => s.setFormatter l val
  | .setFormatterText l address val => (s.setFormatterText l address val).1
  | .appenderSetFormatter a val => s.appenderSetFormatter a val

def step (s : LogObjects) (op : Op) : Option LogObjects :=
  some (s.apply op)

/-- An attached appender has a formatter, and it is the logger's unless it is its own. -/
def Formatted (s : LogObjects) : Prop :=
  ∀ l, ∀ a ∈ (s.loggers l).appenders, (s.appenders a).formatter ≠ none ∧
    ((s.appenders a).hasFormat = false → (s.appenders a).formatter = (s.loggers l).formatter)

def OwnFormat (s : LogObjects) : Prop :=
  ∀ a, (s.appenders a).hasFormat = true → (s.appenders a).formatter ≠ none

/-- The appenders that inherit from the logger can take `val`: it is not null, and it is the
formatter of every other logger that they are attached to. -/
def Inheritable (s : LogObjects) (l : Nat) (val : Option FormatterPtr) : Prop :=
  ∀ a ∈ (s.loggers l).appenders, (s.appenders a).hasFormat = false →
    val ≠ none ∧ ∀ other, other ≠ l → a ∈ (s.loggers other).appenders →
      (s.loggers other).formatter = val

def Allowed (s : LogObjects) : Op → Prop
  | .addAppender l a => (s.appenders a).hasFormat = false → (s.loggers l).formatter ≠ none ∧
      ((s.appenders a).formatter = none ∨ (s.appenders a).formatter = (s.loggers l).formatter)
  | .delAppender _ _ => True
  | .clearAppenders _ => True
  | .setFormatter l val => s.Inheritable l val
  | .setFormatterText l address val =>
    (LogFormatter.new val).error = false → s.Inheritable l (some ⟨address, .new val⟩)
  | .appenderSetFormatter a val => val = none → ∀ l, a ∉ (s.loggers l).appenders

theorem foldl_inherit (val : Option FormatterPtr) (list : List Nat)
    (appenders : Nat → AppenderObject) (a : Nat) :
    list.foldl (inherit val) appenders a =
      if a ∈ list ∧ (appenders a).hasFormat = false then { appenders a with formatter := val }
      else appenders a := by
  induction list generalizing appenders with
  | nil => simp
  | cons head rest ih =>
    rw [List.foldl_cons, ih]
    by_cases hown : (appenders head).hasFormat = true
    · have hsame : inherit val appenders head = appenders := if_pos hown
      rw [hsame]
      by_cases heq : a = head
      · subst heq
        simp [hown]
      · simp [heq]
    · rw [inherit, if_neg hown]
      by_cases heq : a = head
      · subst heq
        simp [hown]
      · simp [heq]

theorem setLogger_loggers (s : LogObjects) (l other : Nat) (object : LoggerObject) :
    (s.setLogger l object).loggers other = if other = l then object else s.loggers other :=
  Function.update_apply s.loggers l object other

theorem setAppender_appenders (s : LogObjects) (a other : Nat) (object : AppenderObject) :
    (s.setAppender a object).appenders other =
      if other = a then object else s.appenders other :=
  Function.update_apply s.appenders a object other

theorem setFormatter_loggers (s : LogObjects) (l other : Nat) (val : Option FormatterPtr) :
    (s.setFormatter l val).loggers other =
      if other = l then { s.loggers l with formatter := val } else s.loggers other :=
  setLogger_loggers s l other _

theorem setFormatter_attached (s : LogObjects) (l other : Nat) (val : Option FormatterPtr) :
    ((s.setFormatter l val).loggers other).appenders = (s.loggers other).appenders := by
  rw [setFormatter_loggers]
  split
  · rename_i heq
    rw [heq]
  · rfl

theorem setFormatter_appenders (s : LogObjects) (l a : Nat) (val : Option FormatterPtr) :
    (s.setFormatter l val).appenders a =
      if a ∈ (s.loggers l).appenders ∧ (s.appenders a).hasFormat = false then
        { s.appenders a with formatter := val }
      else s.appenders a :=
  foldl_inherit val (s.loggers l).appenders s.appenders a

theorem formatted_setFormatter (s : LogObjects) (l : Nat) (val : Option FormatterPtr)
    (hformatted : s.Formatted) : (s.setFormatter l val).Formatted ↔ s.Inheritable l val := by
  constructor
  · intro hafter a ha hinherits
    have hobject : (s.setFormatter l val).appenders a = { s.appenders a with formatter := val } := by
      rw [setFormatter_appenders, if_pos ⟨ha, hinherits⟩]
    have hlogger := hafter l a (by rw [setFormatter_attached]; exact ha)
    rw [hobject] at hlogger
    refine ⟨hlogger.1, ?_⟩
    intro other hother hattached
    have hshared := hafter other a (by rw [setFormatter_attached]; exact hattached)
    rw [hobject, setFormatter_loggers, if_neg hother] at hshared
    exact (hshared.2 hinherits).symm
  · intro hinheritable other a hattached
    rw [setFormatter_attached] at hattached
    rw [setFormatter_appenders, setFormatter_loggers]
    split
    · rename_i hinherits
      obtain ⟨hval, hothers⟩ := hinheritable a hinherits.1 hinherits.2
      refine ⟨hval, ?_⟩
      intro _
      split
      · rfl
      · rename_i hother
        exact (hothers other hother hattached).symm
    · rename_i hkept
      obtain ⟨hsome, hsame⟩ := hformatted other a hattached
      refine ⟨hsome, ?_⟩
      intro hinherits
      have hother : other ≠ l := by
        intro heq
        exact hkept ⟨heq ▸ hattached, hinherits⟩
      rw [if_neg hother]
      exact hsame hinherits

theorem addAppender_appenders (s : LogObjects) (l a other : Nat) :
    (s.addAppender l a).appenders other =
      if other = a ∧ (s.appenders a).formatter = none then
        { s.appenders a with formatter := (s.loggers l).formatter }
      else s.appenders other := by
  unfold addAppender
  cases hformatter : (s.appenders a).formatter with
  | none => simp [setLogger, setAppender_appenders]
  | some f => simp [setLogger]

theorem addAppender_loggers (s : LogObjects) (l a other : Nat) :
    (s.addAppender l a).loggers other =
      if other = l then { s.loggers l with appenders := (s.loggers l).appenders ++ [a] }
      else s.loggers other := by
  unfold addAppender
  cases hformatter : (s.appenders a).formatter with
  | none => simp [setLogger_loggers, setAppender]
  | some f => simp [setLogger_loggers]

theorem addAppender_formatter (s : LogObjects) (l a other : Nat) :
    ((s.addAppender l a).loggers other).formatter = (s.loggers other).formatter := by
  rw [addAppender_loggers]
  split
  · rename_i heq
    rw [heq]
  · rfl

theorem mem_addAppender (s : LogObjects) (l a other b : Nat) :
    b ∈ ((s.addAppender l a).loggers other).appenders ↔
      b ∈ (s.loggers other).appenders ∨ (other = l ∧ b = a) := by
  rw [addAppender_loggers]
  split
  · rename_i heq
    simp [heq]
  · rename_i hother
    simp [hother]

theorem formatted_addAppender (s : LogObjects) (l a : Nat) (hformatted : s.Formatted)
    (hown : s.OwnFormat) : (s.addAppender l a).Formatted ↔ s.Allowed (.addAppender l a) := by
  constructor
  · intro hafter hinherits
    have hadded := hafter l a ((mem_addAppender s l a l a).mpr (.inr ⟨rfl, rfl⟩))
    rw [addAppender_appenders, addAppender_formatter] at hadded
    by_cases hnone : (s.appenders a).formatter = none
    · rw [if_pos ⟨rfl, hnone⟩] at hadded
      exact ⟨hadded.1, .inl hnone⟩
    · rw [if_neg fun h => hnone h.2] at hadded
      have hsame := hadded.2 hinherits
      exact ⟨hsame ▸ hadded.1, .inr hsame⟩
  · intro hallowed other b hattached
    rw [mem_addAppender] at hattached
    rw [addAppender_appenders, addAppender_formatter]
    split
    · rename_i hfilled
      obtain ⟨rfl, hnone⟩ := hfilled
      have hinherits : (s.appenders b).hasFormat = false := by
        by_contra htrue
        exact hown b (by simpa using htrue) hnone
      -- An appender without a formatter was not attached, so this is the new place.
      have hlogger : other = l := by
        rcases hattached with hbefore | ⟨hnew, -⟩
        · exact absurd hnone (hformatted other b hbefore).1
        · exact hnew
      refine ⟨(hallowed hinherits).1, ?_⟩
      intro _
      rw [hlogger]
    · rename_i hkept
      rcases hattached with hbefore | ⟨rfl, rfl⟩
      · exact hformatted other b hbefore
      · have hsome : (s.appenders b).formatter ≠ none := fun hnone => hkept ⟨rfl, hnone⟩
        exact ⟨hsome, fun hinherits => (hallowed hinherits).2.resolve_left hsome⟩

theorem formatted_appenderSetFormatter (s : LogObjects) (a : Nat) (val : Option FormatterPtr)
    (hformatted : s.Formatted) :
    (s.appenderSetFormatter a val).Formatted ↔ s.Allowed (.appenderSetFormatter a val) := by
  constructor
  · intro hafter hnull l hattached
    have hset := (hafter l a hattached).1
    rw [appenderSetFormatter, setAppender_appenders, if_pos rfl] at hset
    exact hset hnull
  · intro hallowed l b hattached
    rw [appenderSetFormatter, setAppender_appenders]
    split
    · rename_i heq
      subst heq
      cases val with
      | none => exact absurd hattached (hallowed rfl l)
      | some f => exact ⟨Option.some_ne_none f, fun h => nomatch h⟩
    · exact hformatted l b hattached

theorem Formatted.detach (s : LogObjects) (l : Nat) (kept : List Nat)
    (hkept : kept ⊆ (s.loggers l).appenders) (hformatted : s.Formatted) :
    (s.setLogger l { s.loggers l with appenders := kept }).Formatted := by
  intro other a hattached
  rw [setLogger_loggers] at hattached ⊢
  split at hattached
  · rename_i heq
    rw [if_pos heq]
    exact hformatted l a (hkept hattached)
  · rename_i hother
    rw [if_neg hother]
    exact hformatted other a hattached

theorem OwnFormat.apply (s : LogObjects) (op : Op) (hown : s.OwnFormat) :
    (s.apply op).OwnFormat := by
  have hset : ∀ l val, (s.setFormatter l val).OwnFormat := by
    intro l val a hformat
    rw [setFormatter_appenders] at hformat ⊢
    split at hformat
    · rename_i hinherits
      rw [hinherits.2] at hformat
      cases hformat
    · rename_i hkept
      rw [if_neg hkept]
      exact hown a hformat
  cases op with
  | addAppender l b =>
    intro a hformat
    rw [LogObjects.apply, addAppender_appenders] at hformat ⊢
    split at hformat
    · rename_i hfilled
      exact absurd hfilled.2 (hown b hformat)
    · rename_i hkept
      rw [if_neg hkept]
      exact hown a hformat
  | delAppender l a => exact hown
  | clearAppenders l => exact hown
  | setFormatter l val => exact hset l val
  | setFormatterText l address val =>
    simp only [LogObjects.apply, setFormatterText]
    split
    · exact hown
    · exact hset l _
  | appenderSetFormatter b val =>
    intro a hformat
    rw [LogObjects.apply, appenderSetFormatter, setAppender_appenders] at hformat ⊢
    split at hformat
    · rename_i heq
      rw [if_pos heq]
      exact Option.isSome_iff_ne_none.mp hformat
    · rename_i hother
      rw [if_neg hother]
      exact hown a hformat

theorem formatted_apply (s : LogObjects) (op : Op) (hformatted : s.Formatted)
    (hown : s.OwnFormat) : (s.apply op).Formatted ↔ s.Allowed op := by
  cases op with
  | addAppender l a => exact formatted_addAppender s l a hformatted hown
  | delAppender l a =>
    exact iff_of_true (hformatted.detach s l _ List.erase_subset) trivial
  | clearAppenders l =>
    exact iff_of_true (hformatted.detach s l [] (List.nil_subset _)) trivial
  | setFormatter l val => exact formatted_setFormatter s l val hformatted
  | setFormatterText l address val =>
    simp only [apply, setFormatterText, Allowed]
    split
    · rename_i herror
      simp [hformatted, herror]
    · rename_i hvalid
      rw [formatted_setFormatter s l _ hformatted]
      simp [hvalid]
  | appenderSetFormatter a val => exact formatted_appenderSetFormatter s a val hformatted

theorem start_formatted (names : Nat → String) (addresses : Nat → Nat) :
    (start names addresses).Formatted ∧ (start names addresses).OwnFormat := by
  constructor
  · intro l a hattached
    cases hattached
  · intro a hformat
    cases hformat

/-- The attached appenders are formatted in every state of a run exactly when every step of
the run is allowed. -/
theorem formatted_iff_allowed (names : Nat → String) (addresses : Nat → Nat) (ops : List Op) :
    (∀ before s, before <+: ops → Lib.run step (start names addresses) before = some s →
      s.Formatted) ↔ Lib.Meets step Allowed (start names addresses) ops := by
  have htotal : ∀ s op, ∃ s', step s op = some s' := fun s op => ⟨s.apply op, rfl⟩
  have hkept : ∀ s op s', s.Formatted ∧ s.OwnFormat → step s op = some s' →
      (s'.Formatted ∧ s'.OwnFormat ↔ s.Allowed op) := by
    intro s op s' hinv hstep
    cases hstep
    rw [formatted_apply s op hinv.1 hinv.2]
    exact and_iff_left (hinv.2.apply s op)
  rw [← Lib.invariant_iff_meets Allowed _ htotal hkept ops _ (start_formatted names addresses)]
  constructor
  · intro hformatted before s hbefore hrun
    refine ⟨hformatted before s hbefore hrun, ?_⟩
    exact Lib.run_invariant OwnFormat (fun s op s' hown hstep =>
      Option.some.inj hstep ▸ hown.apply s op) before _ s (start_formatted names addresses).2 hrun
  · intro hinv before s hbefore hrun
    exact (hinv before s hbefore hrun).1

/-- A null formatter given to an attached appender. -/
theorem formatted_fails_on_null :
    ∃ s, Lib.run step (start (fun _ => "root") id)
        [.addAppender 0 0, .appenderSetFormatter 0 none] = some s ∧
      0 ∈ (s.loggers 0).appenders ∧ (s.appenders 0).formatter = none ∧ ¬ s.Formatted := by
  refine ⟨_, rfl, ?_, rfl, ?_⟩
  · decide
  · intro hformatted
    exact (hformatted 0 0 (by decide)).1 rfl

end LogObjects
end Sylar
