import Mathlib.Algebra.Order.Ring.Int
import Mathlib.Data.List.Find
import Mathlib.Tactic.Common
import Sylar.Lib.KeyedMap

/-! `HttpRequest` of `http.h` and `http.cc`. A `std::string` is the list of its bytes, and a
`std::map` is the list of its entries in iteration order. -/
namespace Sylar

def octets (s : String) : List UInt8 :=
  s.toUTF8.data.toList

inductive HttpMethod where
  | DELETE | GET | HEAD | POST | PUT | CONNECT | OPTIONS | TRACE | COPY | LOCK | MKCOL | MOVE
  | PROPFIND | PROPPATCH | SEARCH | UNLOCK | BIND | REBIND | UNBIND | ACL | REPORT | MKACTIVITY
  | CHECKOUT | MERGE | MSEARCH | NOTIFY | SUBSCRIBE | UNSUBSCRIBE | PATCH | PURGE | MKCALENDAR
  | LINK | UNLINK | SOURCE | INVALID_METHOD
deriving DecidableEq

def httpMethodMap : List (HttpMethod × String) :=
  [(.DELETE, "DELETE"), (.GET, "GET"), (.HEAD, "HEAD"), (.POST, "POST"), (.PUT, "PUT"),
   (.CONNECT, "CONNECT"), (.OPTIONS, "OPTIONS"), (.TRACE, "TRACE"), (.COPY, "COPY"),
   (.LOCK, "LOCK"), (.MKCOL, "MKCOL"), (.MOVE, "MOVE"), (.PROPFIND, "PROPFIND"),
   (.PROPPATCH, "PROPPATCH"), (.SEARCH, "SEARCH"), (.UNLOCK, "UNLOCK"), (.BIND, "BIND"),
   (.REBIND, "REBIND"), (.UNBIND, "UNBIND"), (.ACL, "ACL"), (.REPORT, "REPORT"),
   (.MKACTIVITY, "MKACTIVITY"), (.CHECKOUT, "CHECKOUT"), (.MERGE, "MERGE"),
   (.MSEARCH, "M-SEARCH"), (.NOTIFY, "NOTIFY"), (.SUBSCRIBE, "SUBSCRIBE"),
   (.UNSUBSCRIBE, "UNSUBSCRIBE"), (.PATCH, "PATCH"), (.PURGE, "PURGE"),
   (.MKCALENDAR, "MKCALENDAR"), (.LINK, "LINK"), (.UNLINK, "UNLINK"), (.SOURCE, "SOURCE")]

/-- `strncmp` of at most `n` bytes finds no difference. Beyond its end a list reads as the
terminator of the string. -/
def strncmpEq : Nat → List UInt8 → List UInt8 → Bool
  | 0, _, _ => true
  | n + 1, lhs, rhs =>
    lhs.headD 0 == rhs.headD 0 && (lhs.headD 0 == 0 || strncmpEq n lhs.tail rhs.tail)

/-- `m` points into the buffer: the bytes from there on. -/
def charsToHttpMethod (m : List UInt8) : HttpMethod :=
  match httpMethodMap.find? fun entry =>
      strncmpEq (octets entry.2).length (octets entry.2) m with
  | some entry => entry.1
  | none => .INVALID_METHOD

def toLower (c : UInt8) : UInt8 :=
  if 65 ≤ c ∧ c ≤ 90 then c + 32 else c

/-- `strcasecmp(lhs, rhs) < 0`, on strings without their terminators. -/
def strcasecmpLt : List UInt8 → List UInt8 → Bool
  | _, [] => false
  | [], _ :: _ => true
  | l :: lhs, r :: rhs =>
    if toLower l < toLower r then true
    else if toLower r < toLower l then false
    else strcasecmpLt lhs rhs

/-- `c_str()`, up to the first terminator. -/
def cStr (s : List UInt8) : List UInt8 :=
  s.takeWhile (· ≠ 0)

def caseInsensitiveLess (lhs rhs : List UInt8) : Bool :=
  strcasecmpLt (cStr lhs) (cStr rhs)

abbrev HttpMap := List (List UInt8 × List UInt8)

namespace HttpMap

/-- `m[key] = val`: the key of an equivalent entry stays. -/
def assign (key val : List UInt8) (m : HttpMap) : HttpMap :=
  Lib.mapAssign caseInsensitiveLess key val m

def find (m : HttpMap) (key : List UInt8) : Option (List UInt8) :=
  Lib.mapFind caseInsensitiveLess m key

/-- `getAs<uint64_t>`; `lexicalCast` is `boost::lexical_cast`, which may throw. -/
def getAs (lexicalCast : List UInt8 → Option UInt64) (m : HttpMap) (key : List UInt8)
    (default : UInt64) : UInt64 :=
  match m.find key with
  | none => default
  | some value => (lexicalCast value).getD default

end HttpMap

structure HttpRequest where
  method : HttpMethod
  version : UInt8
  close : Bool
  path : List UInt8
  query : List UInt8
  fragment : List UInt8
  body : List UInt8
  headers : HttpMap
deriving DecidableEq

namespace HttpRequest

/-- `HttpRequest(uint8_t version = 0x11, bool close = true)`. -/
def new : HttpRequest where
  method := .GET
  version := 0x11
  close := true
  path := octets "/"
  query := []
  fragment := []
  body := []
  headers := []

def setMethod (request : HttpRequest) (v : HttpMethod) : HttpRequest := { request with method := v }

def setVersion (request : HttpRequest) (v : UInt8) : HttpRequest := { request with version := v }

def setPath (request : HttpRequest) (v : List UInt8) : HttpRequest := { request with path := v }

def setQuery (request : HttpRequest) (v : List UInt8) : HttpRequest := { request with query := v }

def setFragment (request : HttpRequest) (v : List UInt8) : HttpRequest :=
  { request with fragment := v }

def setBody (request : HttpRequest) (v : List UInt8) : HttpRequest := { request with body := v }

def setHeader (request : HttpRequest) (key val : List UInt8) : HttpRequest :=
  { request with headers := request.headers.assign key val }

end HttpRequest

theorem httpMethodMap_names :
    ∀ entry ∈ httpMethodMap, ∀ c ∈ octets entry.2, c ≠ 0 ∧ c ≠ 32 := by
  have hall : (httpMethodMap.all fun entry => (octets entry.2).all fun c => c != 0 && c != 32) =
      true := by
    decide
  simpa only [List.all_eq_true, Bool.and_eq_true, bne_iff_ne] using hall

theorem strncmpEq_of_space (name token first second : List UInt8)
    (hname : ∀ c ∈ name, c ≠ 0 ∧ c ≠ 32) :
    strncmpEq name.length name (token ++ 32 :: first) =
      strncmpEq name.length name (token ++ 32 :: second) := by
  induction name generalizing token with
  | nil => rfl
  | cons c name ih =>
    have hc := hname c List.mem_cons_self
    have htail := ih token.tail (fun d hd => hname d (List.mem_cons_of_mem c hd))
    cases token with
    | nil =>
      have hspace : (c == 32) = false := beq_eq_false_iff_ne.mpr hc.2
      simp [strncmpEq, hspace]
    | cons d token =>
      rw [List.tail_cons] at htail
      simp only [List.length_cons, strncmpEq, List.headD_cons, List.cons_append, List.tail_cons,
        htail]

theorem charsToHttpMethod_of_space (token first second : List UInt8) :
    charsToHttpMethod (token ++ 32 :: first) = charsToHttpMethod (token ++ 32 :: second) := by
  unfold charsToHttpMethod
  have hfind : httpMethodMap.find? (fun entry =>
        strncmpEq (octets entry.2).length (octets entry.2) (token ++ 32 :: first)) =
      httpMethodMap.find? (fun entry =>
        strncmpEq (octets entry.2).length (octets entry.2) (token ++ 32 :: second)) := by
    apply List.find?_congr
    intro entry hentry
    exact strncmpEq_of_space _ token first second (httpMethodMap_names entry hentry)
  rw [hfind]

end Sylar
