import Sylar.Http.ClientMachine
import Sylar.Http.HeaderMap

/-! `HttpResponseParser` with the response that its callbacks write.

Under the response there is the parser of `httpclient_parser_execute`, which goes its way whatever
the callbacks do. -/
namespace Sylar

def isSpace (c : UInt8) : Bool := (decide (9 ≤ c) && decide (c ≤ 13)) || c == 32

/-- What a character stands for as a digit, if it is one in some base. -/
def digitValue (c : UInt8) : Nat :=
  if 48 ≤ c ∧ c ≤ 57 then c.toNat - 48
  else if 65 ≤ c ∧ c ≤ 90 then c.toNat - 55
  else if 97 ≤ c ∧ c ≤ 122 then c.toNat - 87
  else 36

/-- The number that the digits at the start of a string are. -/
def leadingNumber (base : Nat) (s : List UInt8) : Nat :=
  (s.takeWhile fun c => digitValue c < base).foldl (fun n c => base * n + digitValue c) 0

/-- `0x` in front of a hexadecimal number. -/
def dropHexPrefix (base : Nat) : List UInt8 → List UInt8
  | 48 :: x :: c :: rest =>
    if base = 16 ∧ (x = 120 ∨ x = 88) ∧ digitValue c < 16 then c :: rest else 48 :: x :: c :: rest
  | s => s

/-- `strtol(s, NULL, base)`. -/
def strtol (base : Nat) (s : List UInt8) : Int :=
  match s.dropWhile isSpace with
  | 45 :: rest => max (-(leadingNumber base (dropHexPrefix base rest))) (-(2 ^ 63))
  | 43 :: rest => min (leadingNumber base (dropHexPrefix base rest)) (2 ^ 63 - 1)
  | rest => min (leadingNumber base (dropHexPrefix base rest)) (2 ^ 63 - 1)

/-- The conversion of a `long` to `int`. -/
def longToInt (n : Int) : Int := Int.bmod n (2 ^ 32)

def atoi (s : List UInt8) : Int := longToInt (strtol 10 s)

/-- `parser` is what the loop looks at. `content_len` and `status` are of type `int`. -/
structure HttpResponseParser (σ : Type) where
  parser : HttpclientParser σ
  contentLen : Int
  status : Int
  chunked : Bool
  chunksDone : Bool
  close : Bool
  data : HttpResponse
  error : Nat
deriving DecidableEq

namespace HttpResponseParser
variable {σ : Type}
open HttpRequestParser (stringAt tokenFrom lengthFrom)

/-- `httpclient_parser_init` leaves `status` as it is. -/
def new (machine : ClientMachine σ) (status : Int) : HttpResponseParser σ where
  parser := .new machine
  contentLen := -1
  status := status
  chunked := false
  chunksDone := false
  close := false
  data := .new 0x11 true
  error := 0

def setError (p : HttpResponseParser σ) (v : Nat) : HttpResponseParser σ := { p with error := v }

def onResponseReason (p : HttpResponseParser σ) (token : List UInt8) : HttpResponseParser σ :=
  { p with data.reason := token }

/-- A status is what it is printed as, a `uint32_t`. -/
def onResponseStatus (p : HttpResponseParser σ) (chars : List UInt8) : HttpResponseParser σ :=
  { p with data.status := (atoi chars % 2 ^ 32).toNat }

def onResponseVersion (p : HttpResponseParser σ) (chars : List UInt8) (length : Nat) :
    HttpResponseParser σ :=
  if strncmpEq length chars (octets "HTTP/1.1") then { p with data.version := 0x11 }
  else if strncmpEq length chars (octets "HTTP/1.0") then { p with data.version := 0x10 }
  else p.setError 1001

def onResponseHttpField (p : HttpResponseParser σ) (field value : List UInt8) :
    HttpResponseParser σ :=
  { p with data := p.data.setHeader field value }

/-- One action, at the byte with offset `fpc`. The callbacks for chunks are empty. -/
def act (buffer : List UInt8) (fpc : Nat) (p : HttpResponseParser σ) :
    ClientAction → Except HttpFault (HttpResponseParser σ)
  | .writeContentLen =>
    .ok { p with contentLen := longToInt (strtol 10 (buffer.drop p.parser.mark)) }
  | .writeConnectionClose => .ok { p with close := true }
  | .writeValue =>
    if p.parser.fieldLen = 0 then .ok (p.setError 1002)
    else do
      let field ← stringAt buffer p.parser.fieldStart p.parser.fieldLen
      let value ← tokenFrom buffer p.parser.mark fpc
      return p.onResponseHttpField field value
  | .reasonPhrase => do
    let token ← tokenFrom buffer p.parser.mark fpc
    return p.onResponseReason token
  | .statusCode =>
    let chars := buffer.drop p.parser.mark
    .ok ({ p with status := longToInt (strtol 10 chars) }.onResponseStatus chars)
  | .httpVersion => do
    let length ← lengthFrom p.parser.mark fpc
    return p.onResponseVersion (buffer.drop p.parser.mark) length
  | .chunkSize =>
    let contentLen := longToInt (strtol 16 (buffer.drop p.parser.mark))
    .ok { p with chunked := true, contentLen := contentLen, chunksDone := decide (contentLen ≤ 0) }
  | .transChunked => .ok { p with chunked := true }
  | action => .ok { p with parser := HttpclientParser.act fpc p.parser action }

def acts (buffer : List UInt8) (fpc : Nat) (p : HttpResponseParser σ)
    (actions : List ClientAction) : Except HttpFault (HttpResponseParser σ) :=
  actions.foldlM (act buffer fpc) p

def exec (machine : ClientMachine σ) (buffer : List UInt8) :
    Nat → List UInt8 → HttpResponseParser σ → Except HttpFault (HttpResponseParser σ × Nat)
  | fpc, [], p => .ok (p, fpc)
  | fpc, c :: rest, p =>
    match p.parser.cs with
    | none => .ok ({ p with parser.cs := some machine.behindSwitch }, fpc)
    | some s =>
      match machine.next s c with
      | none => .ok ({ p with parser.cs := none }, fpc)
      | some (s', actions) => do
        let p' ← acts buffer fpc { p with parser.cs := some s' } actions
        if machine.final s' then return ({ p' with parser.bodyStart := fpc + 1 }, fpc + 1)
        else exec machine buffer (fpc + 1) rest p'

/-- `httpclient_parser_execute` with `off` 0. -/
def httpclientParserExecute (machine : ClientMachine σ) (p : HttpResponseParser σ)
    (buffer : List UInt8) : Except HttpFault (HttpResponseParser σ × Int) := do
  let len := buffer.length
  if (len : Int) ≠ HttpclientParser.toInt len then throw .assertion
  let (p', fpc) ← exec machine buffer 0 buffer p
  let p' := { p' with parser.nread := (p'.parser.nread + fpc) % 2 ^ 64 }
  if fpc ≤ len ∧ p'.parser.nread ≤ len ∧ p'.parser.bodyStart ≤ len then
    if p'.parser.mark < len ∧ p'.parser.fieldLen ≤ len ∧ p'.parser.fieldStart < len then
      return (p', HttpclientParser.toInt p'.parser.nread)
    else return (p', -1)
  else throw .assertion

/-- The parser, what the call returns, and the bytes at `data`. -/
def execute (machine : ClientMachine σ) (p : HttpResponseParser σ) (data : List UInt8) :
    Except HttpFault (HttpResponseParser σ × Nat × List UInt8) := do
  let (p', result) ← httpclientParserExecute machine p data
  let offset := HttpclientParser.toSize result
  match HttpclientParser.memmove data offset (HttpclientParser.subSize data.length offset) with
  | none => throw .range
  | some moved => return (p', offset, moved)

/-- Whether `httpclient_parser_finish` is 1: in the first of the final states only, which `first`
is. In the error state it is -1, and `hasError` tells it. -/
def isFinished [DecidableEq σ] (first : σ) (p : HttpResponseParser σ) : Bool :=
  decide (p.parser.cs = some first)

def hasError (p : HttpResponseParser σ) : Bool :=
  decide (p.error ≠ 0) || p.parser.cs.isNone

def getContentLength (lexicalCast : List UInt8 → Option UInt64) (p : HttpResponseParser σ) :
    UInt64 :=
  p.data.headers.getAs lexicalCast (octets "content-length") 0

theorem act_below (buffer : List UInt8) (fpc : Nat) (p p' : HttpResponseParser σ)
    (action : ClientAction) (hact : act buffer fpc p action = .ok p') :
    p'.parser = HttpclientParser.act fpc p.parser action := by
  cases action with
  | writeValue =>
    rw [act] at hact
    split at hact
    · cases hact
      rfl
    · obtain ⟨field, -, hrest⟩ := Lib.of_bind_ok _ _ _ hact
      obtain ⟨value, -, hpure⟩ := Lib.of_bind_ok _ _ _ hrest
      cases hpure
      rfl
  | reasonPhrase =>
    obtain ⟨token, -, hpure⟩ := Lib.of_bind_ok _ _ _ hact
    cases hpure
    rfl
  | httpVersion =>
    obtain ⟨length, -, hpure⟩ := Lib.of_bind_ok _ _ _ hact
    cases hpure
    unfold onResponseVersion
    split
    · rfl
    · split <;> rfl
  | _ =>
    cases hact
    rfl

theorem acts_below (buffer : List UInt8) (fpc : Nat) (p p' : HttpResponseParser σ)
    (actions : List ClientAction) (hacts : acts buffer fpc p actions = .ok p') :
    p'.parser = HttpclientParser.acts fpc p.parser actions := by
  induction actions generalizing p with
  | nil =>
    cases hacts
    rfl
  | cons action actions ih =>
    rw [acts, List.foldlM_cons] at hacts
    obtain ⟨mid, hmid, hrest⟩ := Lib.of_bind_ok _ _ _ hacts
    rw [ih mid hrest, act_below buffer fpc p mid action hmid]
    rfl

theorem exec_below (machine : ClientMachine σ) (buffer rest : List UInt8) (fpc nread : Nat)
    (p p' : HttpResponseParser σ) (hexec : exec machine buffer fpc rest p = .ok (p', nread)) :
    HttpclientParser.exec machine fpc rest p.parser = (p'.parser, nread) := by
  induction rest generalizing fpc p with
  | nil =>
    cases hexec
    rfl
  | cons c rest ih =>
    rw [exec] at hexec
    rw [HttpclientParser.exec]
    cases hcs : p.parser.cs with
    | none =>
      rw [hcs] at hexec
      cases hexec
      rfl
    | some s =>
      rw [hcs] at hexec
      dsimp only at hexec ⊢
      cases hnext : machine.next s c with
      | none =>
        rw [hnext] at hexec
        cases hexec
        rfl
      | some found =>
        obtain ⟨s', actions⟩ := found
        rw [hnext] at hexec
        obtain ⟨q, hacts, hloop⟩ := Lib.of_bind_ok _ _ _ hexec
        have hq := acts_below buffer fpc _ q actions hacts
        dsimp only at hq hloop ⊢
        rw [← hq]
        cases hfinal : machine.final s' with
        | true =>
          rw [hfinal] at hloop
          cases hloop
          rfl
        | false =>
          rw [hfinal] at hloop
          exact ih (fpc + 1) q hloop

theorem execute_of_returned (machine : ClientMachine σ) (p p' : HttpResponseParser σ)
    (data moved : List UInt8) (result : Int) (offset : Nat)
    (hreturned : p.httpclientParserExecute machine data = .ok (p', result))
    (hoffset : HttpclientParser.toSize result = offset)
    (hmoved : HttpclientParser.memmove data offset (HttpclientParser.subSize data.length offset) =
      some moved) : p.execute machine data = .ok (p', offset, moved) := by
  subst hoffset
  rw [execute, hreturned]
  dsimp only [bind, Except.bind]
  rw [hmoved]
  rfl

theorem execute_of_exec (machine : ClientMachine σ) (status : Int) (q : HttpResponseParser σ)
    (data : List UInt8) (offset : Nat) (hpos : 0 < data.length) (hshort : data.length < 2 ^ 31)
    (hexec : exec machine data 0 data (new machine status) = .ok (q, offset)) :
    ∃ moved, (new machine status).execute machine data =
        .ok ({ q with parser.nread := offset }, offset, moved) ∧
      moved.take (data.length - offset) = data.drop offset := by
  have hparser := exec_below machine data data 0 offset _ q hexec
  have hbounds := HttpclientParser.exec_bounds machine 0 data (HttpclientParser.new machine)
  have hnread := HttpclientParser.exec_nread machine 0 data (HttpclientParser.new machine)
  have hfits := HttpclientParser.exec_fits machine data.length 0 data (HttpclientParser.new machine)
    (Nat.zero_add _) (HttpclientParser.Intact.fits _ _ (HttpclientParser.new_intact machine) rfl hpos)
  rw [show (new machine status).parser = HttpclientParser.new machine from rfl] at hparser
  rw [hparser] at hbounds hnread hfits
  have hle : offset ≤ data.length := by
    have hhigh := hbounds.2
    dsimp only at hhigh
    omega
  have hcount : (q.parser.nread + offset) % 2 ^ 64 = offset := by
    rw [show q.parser.nread = 0 from hnread]
    omega
  obtain ⟨hmark, hstart, hlength, hbody⟩ := hfits
  have hreturned : (new machine status).httpclientParserExecute machine data =
      .ok ({ q with parser.nread := offset }, HttpclientParser.toInt offset) := by
    unfold httpclientParserExecute
    dsimp only
    rw [if_neg fun hne => hne ((HttpclientParser.toInt_eq_iff _).mpr hshort), hexec]
    dsimp only [bind, Except.bind]
    rw [hcount, if_pos ⟨hle, hle, hbody⟩, if_pos ⟨hmark, hlength, hstart.2⟩]
    rfl
  refine ⟨data.drop offset ++ data.drop (data.length - offset), ?_, ?_⟩
  · exact execute_of_returned machine _ _ data _ _ _ hreturned
      (HttpclientParser.toSize_toInt offset (by omega))
      (HttpclientParser.memmove_of_le data offset hle)
  · rw [← List.length_drop, List.take_left]

end HttpResponseParser
end Sylar
