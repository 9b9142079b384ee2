import Mathlib.Logic.Function.Basic
import Sylar.Log.Define

/-! `LogFormatter`, `LogAppender`, `Logger` and `LoggerManager` of `log.cc`, as far as the
configuration writes them.

A formatter is shared and never changed, so it is a value. What goes to `std::cout` is
returned beside the result. -/
namespace Sylar

inductive FormatItemKind where
  | message
  | level
  | elapse
  | name
  | threadId
  | fiberId
  | newLine
  | dateTime
  | fileName
  | line
  | tab
  | threadName
deriving DecidableEq, Repr

def FormatItemKind.find (str : String) : Option FormatItemKind :=
  [("m", .message), ("p", .level), ("r", .elapse), ("c", .name), ("t", .threadId),
   ("F", .fiberId), ("n", .newLine), ("d", .dateTime), ("f", .fileName), ("l", .line),
   ("T", .tab), ("N", .threadName)].lookup str

inductive FormatItem where
  | string (text : String)
  | item (kind : FormatItemKind) (fmt : String)
deriving DecidableEq, Repr

inductive PatternPart where
  | text (str : String)
  | item (str fmt : String)
deriving DecidableEq, Repr

structure LogFormatter where
  pattern : String
  items : List FormatItem
  error : Bool
  lines : List String
deriving DecidableEq

namespace LogFormatter

/-- The inner loop once `fmt_status` is 1: the format up to the closing brace and how far the
loop has come. -/
def scanFormat (str : String) (fmt : List Char) (n : Nat) :
    List Char → Option (String × String × Nat)
  | [] => none
  | c :: rest =>
    if c = '\x7d' then some (str, String.ofList fmt, n + 1)
    else scanFormat str (fmt ++ [c]) (n + 1) rest

/-- The inner loop of `init()` over the characters behind a percent sign: the name, the
format, and how many characters they take. `none` is a brace that is not closed. -/
def scanName (str : List Char) (n : Nat) : List Char → Option (String × String × Nat)
  | [] => some (String.ofList str, "", n)
  | c :: rest =>
    if c.isAlpha = false ∧ c ≠ '\x7b' ∧ c ≠ '\x7d' then some (String.ofList str, "", n)
    else if c = '\x7b' then scanFormat (String.ofList str) [] (n + 1) rest
    else scanName (str ++ [c]) (n + 1) rest

def flush (nstr : List Char) : List PatternPart :=
  if nstr = [] then [] else [.text (String.ofList nstr)]

/-- The outer loop of `init()`: `skip` is how far `i = n - 1` has put the index ahead. A
second percent sign is looked at again, as the first of the next pair. -/
def scan (pattern : String) (nstr : List Char) :
    (skip : Nat) → List Char → List PatternPart × List String
  | _, [] => (flush nstr, [])
  | skip + 1, _ :: rest => scan pattern nstr skip rest
  | 0, c :: rest =>
    if c ≠ '%' then scan pattern (nstr ++ [c]) 0 rest
    else if rest.head? = some '%' then scan pattern (nstr ++ ['%']) 0 rest
    else
      match scanName [] 0 rest with
      | some (str, fmt, n) =>
        let (parts, lines) := scan pattern [] n rest
        (flush nstr ++ .item str fmt :: parts, lines)
      | none =>
        let (parts, lines) := scan pattern nstr 0 rest
        (.text "<<pattern_error>>" :: parts,
          ("pattern parse error: " ++ pattern ++ " - " ++ String.ofList (c :: rest)) :: lines)

def toItem : PatternPart → FormatItem
  | .text str => .string str
  | .item str fmt =>
    match FormatItemKind.find str with
    | none => .string ("<<error_format %" ++ str ++ ">>")
    | some kind => .item kind fmt

def unknown : PatternPart → Bool
  | .text _ => false
  | .item str _ => (FormatItemKind.find str).isNone

/-- `LogFormatter(pattern)` with its call of `init()`. -/
def new (pattern : String) : LogFormatter :=
  let (vec, lines) := scan pattern [] 0 pattern.toList
  { pattern := pattern
    items := vec.map toItem
    error := lines ≠ [] ∨ vec.any unknown
    lines := lines }

/-- The pattern that the constructor of `Logger` uses. -/
def standard : LogFormatter :=
  .new "%d\x7b%Y-%m-%d %H:%M:%S\x7d%T%t%T%N%T%F%T[%p]%T[%c]%T%f:%l%T%m%n"

end LogFormatter

inductive AppenderKind where
  | file (filename : String)
  | stdout
deriving DecidableEq

structure LogAppender where
  kind : AppenderKind
  level : LogLevel := .debug
  hasFormat : Bool := false
  formatter : Option LogFormatter := none
deriving DecidableEq

def LogAppender.setFormatter (a : LogAppender) (val : Option LogFormatter) : LogAppender :=
  { a with formatter := val, hasFormat := val.isSome }

structure Logger where
  name : String
  level : LogLevel := .debug
  formatter : LogFormatter := .standard
  appenders : List LogAppender := []

namespace Logger

def setLevel (logger : Logger) (level : LogLevel) : Logger :=
  { logger with level := level }

def setFormatter (logger : Logger) (val : LogFormatter) : Logger :=
  { logger with
    formatter := val
    appenders := logger.appenders.map fun a =>
      if a.hasFormat then a else { a with formatter := some val } }

def setFormatterText (logger : Logger) (val : String) : Logger × List String :=
  let newVal := LogFormatter.new val
  if newVal.error then
    (logger, newVal.lines ++ [" Logger set Formatter name= " ++ logger.name ++ " value=" ++ val ++
      " invalid formatter"])
  else (logger.setFormatter newVal, newVal.lines)

def addAppender (logger : Logger) (appender : LogAppender) : Logger :=
  let appender := if appender.formatter.isSome then appender
    else { appender with formatter := some logger.formatter }
  { logger with appenders := logger.appenders ++ [appender] }

def clearAppenders (logger : Logger) : Logger :=
  { logger with appenders := [] }

end Logger

/-- `m_loggers`; the root logger is the entry of its name. -/
structure LoggerManager where
  loggers : String → Option Logger

namespace LoggerManager

def new : LoggerManager where
  loggers := Function.update (fun _ => none) "root"
    (some (({ name := "root" } : Logger).addAppender { kind := .stdout }))

def getLogger (m : LoggerManager) (name : String) : Logger × LoggerManager :=
  match m.loggers name with
  | some logger => (logger, m)
  | none =>
    let logger : Logger := { name := name }
    (logger, { loggers := Function.update m.loggers name (some logger) })

def store (m : LoggerManager) (name : String) (logger : Logger) : LoggerManager where
  loggers := Function.update m.loggers name (some logger)

end LoggerManager
end Sylar
