import Sylar.Http.Request
import Sylar.Lib.Run

/-! `HttpRequestParser` of `http_parser.cc`, over the machine that is generated from
`http11_parser.rl`.

The machine is a parameter: its states, and for every state and byte the next state and the
actions of the transition. The registers of `http_parser` hold offsets into the buffer of the
call, and every call of `http_parser_execute` starts by resetting three of them. -/
namespace Sylar

/-- The actions of `http11_parser.rl`, apart from `done`. -/
inductive ParserAction where
  | mark | startField | writeField | startValue | writeValue | requestMethod | requestUri
  | fragment | startQuery | queryString | httpVersion | requestPath | xml | json
deriving DecidableEq

/-- `next` is `none` for a transition into the error state. The finishing action `done` is on
the transitions into a final state, and breaks. A method is followed by a space. -/
structure Machine (σ : Type) where
  start : σ
  next : σ → UInt8 → Option (σ × List ParserAction)
  final : σ → Bool
  method_at_space : ∀ s c s' actions, next s c = some (s', actions) →
    ParserAction.requestMethod ∈ actions → c = 32

/-- `cs` is `none` in the error state. `http_parser_init` does not write `query_start`, which is
then indeterminate. -/
structure HttpParser (σ : Type) where
  cs : Option σ
  bodyStart : Nat
  mark : Nat
  fieldStart : Nat
  fieldLen : Nat
  queryStart : Option Nat
  xmlSent : Bool
  jsonSent : Bool
deriving DecidableEq

/-- What a call may end in besides returning: a string is made of bytes outside the buffer or
of a negative length, an indeterminate register is read, an assertion fails, `std::length_error`
is thrown. -/
inductive HttpFault where
  | range
  | indeterminate
  | assertion
  | length
deriving DecidableEq

structure HttpRequestParser (σ : Type) where
  parser : HttpParser σ
  data : HttpRequest
  error : Nat
deriving DecidableEq

namespace HttpRequestParser
variable {σ : Type}

def new (machine : Machine σ) : HttpRequestParser σ where
  parser :=
    { cs := some machine.start
      bodyStart := 0
      mark := 0
      fieldStart := 0
      fieldLen := 0
      queryStart := none
      xmlSent := false
      jsonSent := false }
  data := .new
  error := 0

def setError (p : HttpRequestParser σ) (v : Nat) : HttpRequestParser σ := { p with error := v }

def onRequestMethod (p : HttpRequestParser σ) (chars : List UInt8) : HttpRequestParser σ :=
  let m := charsToHttpMethod chars
  if m = .INVALID_METHOD then p.setError 1000 else { p with data := p.data.setMethod m }

def onRequestFragment (p : HttpRequestParser σ) (token : List UInt8) : HttpRequestParser σ :=
  { p with data := p.data.setFragment token }

def onRequestPath (p : HttpRequestParser σ) (token : List UInt8) : HttpRequestParser σ :=
  { p with data := p.data.setPath token }

def onRequestQuery (p : HttpRequestParser σ) (token : List UInt8) : HttpRequestParser σ :=
  { p with data := p.data.setQuery token }

def onRequestVersion (p : HttpRequestParser σ) (chars : List UInt8) (length : Nat) :
    HttpRequestParser σ :=
  if strncmpEq length chars (octets "HTTP/1.1") then { p with data := p.data.setVersion 0x11 }
  else if strncmpEq length chars (octets "HTTP/1.0") then { p with data := p.data.setVersion 0x10 }
  else p.setError 1001

def onRequestHttpField (p : HttpRequestParser σ) (field value : List UInt8) :
    HttpRequestParser σ :=
  if field.length = 0 then p.setError 1002 else { p with data := p.data.setHeader field value }

/-- `LEN(at, fpc)`. A negative one is a `size_t` that no buffer has room for. -/
def lengthFrom (start fpc : Nat) : Except HttpFault Nat :=
  if start ≤ fpc then .ok (fpc - start) else .error .range

/-- `std::string(at, length)`, with `at` an offset into the buffer. -/
def stringAt (buffer : List UInt8) (start length : Nat) : Except HttpFault (List UInt8) :=
  if start + length ≤ buffer.length then .ok ((buffer.drop start).take length)
  else .error .range

def tokenFrom (buffer : List UInt8) (start fpc : Nat) : Except HttpFault (List UInt8) := do
  let length ← lengthFrom start fpc
  stringAt buffer start length

def act (buffer : List UInt8) (fpc : Nat) (p : HttpRequestParser σ) :
    ParserAction → Except HttpFault (HttpRequestParser σ)
  | .mark => .ok { p with parser.mark := fpc }
  | .startField => .ok { p with parser.fieldStart := fpc }
  | .writeField => do
    let length ← lengthFrom p.parser.fieldStart fpc
    return { p with parser.fieldLen := length }
  | .startValue => .ok { p with parser.mark := fpc }
  | .writeValue => do
    let field ← stringAt buffer p.parser.fieldStart p.parser.fieldLen
    let value ← tokenFrom buffer p.parser.mark fpc
    return p.onRequestHttpField field value
  | .requestMethod => .ok (p.onRequestMethod (buffer.drop p.parser.mark))
  | .requestUri => .ok p
  | .fragment => do
    let token ← tokenFrom buffer p.parser.mark fpc
    return p.onRequestFragment token
  | .startQuery => .ok { p with parser.queryStart := some fpc }
  | .queryString =>
    match p.parser.queryStart with
    | none => .error .indeterminate
    | some queryStart => do
      let token ← tokenFrom buffer queryStart fpc
      return p.onRequestQuery token
  | .httpVersion => do
    let length ← lengthFrom p.parser.mark fpc
    return p.onRequestVersion (buffer.drop p.parser.mark) length
  | .requestPath => do
    let token ← tokenFrom buffer p.parser.mark fpc
    return p.onRequestPath token
  | .xml => .ok { p with parser.xmlSent := true }
  | .json => .ok { p with parser.jsonSent := true }

def acts (buffer : List UInt8) (fpc : Nat) (p : HttpRequestParser σ)
    (actions : List ParserAction) : Except HttpFault (HttpRequestParser σ) :=
  actions.foldlM (act buffer fpc) p

/-- The action `done`; `header_done` is empty, and nobody reads `content_len`. -/
def done (fpc : Nat) (p : HttpRequestParser σ) : HttpRequestParser σ :=
  if p.parser.xmlSent ∨ p.parser.jsonSent then { p with parser.bodyStart := p.parser.mark }
  else { p with parser.bodyStart := fpc + 1 }

/-- The generated loop over the bytes from offset `fpc` on. With the parser comes the offset
that it stops at. -/
def exec (machine : Machine σ) (buffer : List UInt8) :
    Nat → List UInt8 → HttpRequestParser σ → Except HttpFault (HttpRequestParser σ × Nat)
  | fpc, [], p => .ok (p, fpc)
  | fpc, c :: rest, p =>
    match p.parser.cs with
    | none => .ok (p, fpc)
    | some s =>
      match machine.next s c with
      | none => .ok ({ p with parser.cs := none }, fpc)
      | some (s', actions) => do
        let p' ← acts buffer fpc p actions
        if machine.final s' then return (done fpc { p' with parser.cs := some s' }, fpc + 1)
        else exec machine buffer (fpc + 1) rest { p' with parser.cs := some s' }

/-- The assertions at the end of `http_parser_execute`. -/
def asserts (p : HttpRequestParser σ) (len nread : Nat) : Prop :=
  nread ≤ len ∧ p.parser.bodyStart ≤ len ∧ p.parser.mark < len ∧ p.parser.fieldLen ≤ len ∧
    p.parser.fieldStart < len

instance asserts.decidable (p : HttpRequestParser σ) (len nread : Nat) :
    Decidable (p.asserts len nread) :=
  inferInstanceAs (Decidable (_ ∧ _ ∧ _ ∧ _ ∧ _))

/-- What `http_parser_execute` does to the registers before the loop. -/
def reset (p : HttpRequestParser σ) (len : Nat) : HttpRequestParser σ :=
  { p with parser.mark := 0, parser.fieldLen := len, parser.fieldStart := 0 }

/-- For buffers below 2^31 bytes: the assertion before the loop, that the distance of the pointers
is `(int)len - (int)off`, fails for longer ones and is left out. -/
def httpParserExecute (machine : Machine σ) (p : HttpRequestParser σ) (buffer : List UInt8) :
    Except HttpFault (HttpRequestParser σ × Nat) :=
  if buffer.length = 0 then .ok (p, 0)
  else do
    let (p', nread) ← exec machine buffer 0 buffer (p.reset buffer.length)
    if p'.asserts buffer.length nread then return (p', nread) else throw .assertion

/-- The parser, the number of bytes that it has taken, and what `memmove` leaves at the front of
the buffer. -/
def execute (machine : Machine σ) (p : HttpRequestParser σ) (buffer : List UInt8) :
    Except HttpFault (HttpRequestParser σ × Nat × List UInt8) := do
  let (p', offset) ← httpParserExecute machine p buffer
  return (p', offset, buffer.drop offset)

def hasError (p : HttpRequestParser σ) : Bool :=
  p.error ≠ 0 || p.parser.cs.isNone

/-- `http_parser_finish` is -1 in the error state, which is also true. -/
def isFinished (machine : Machine σ) (p : HttpRequestParser σ) : Bool :=
  match p.parser.cs with
  | none => true
  | some s => machine.final s

def getContentLength (lexicalCast : List UInt8 → Option UInt64) (p : HttpRequestParser σ) : UInt64 :=
  p.data.headers.getAs lexicalCast (octets "content-length") 0

/-- What the callbacks have in common: they write the request or the error, look at nothing
else, and never take an error back. -/
structure Reports (f : HttpRequestParser σ → HttpRequestParser σ) : Prop where
  parser : ∀ p, (f p).parser = p.parser
  body : ∀ p, (f p).data.body = p.data.body
  data : ∀ p q, p.data = q.data → (f p).data = (f q).data
  error : ∀ p q, p.error = q.error → (f p).error = (f q).error
  failed : ∀ p, p.error ≠ 0 → (f p).error ≠ 0

theorem Reports.setError (v : Nat) (hv : v ≠ 0) :
    Reports fun p : HttpRequestParser σ => p.setError v :=
  ⟨fun _ => rfl, fun _ => rfl, fun _ _ hdata => hdata, fun _ _ _ => rfl, fun _ _ => hv⟩

theorem Reports.setData (f : HttpRequest → HttpRequest) (hbody : ∀ data, (f data).body = data.body) :
    Reports fun p : HttpRequestParser σ => { p with data := f p.data } :=
  ⟨fun _ => rfl, fun p => hbody p.data, fun _ _ hdata => congrArg f hdata,
    fun _ _ herror => herror, fun _ hfailed => hfailed⟩

theorem onRequestMethod_reports (chars : List UInt8) :
    Reports fun p : HttpRequestParser σ => p.onRequestMethod chars := by
  unfold onRequestMethod
  by_cases hinvalid : charsToHttpMethod chars = .INVALID_METHOD
  · simp only [if_pos hinvalid]
    exact .setError 1000 (by decide)
  · simp only [if_neg hinvalid]
    exact .setData (fun data => data.setMethod (charsToHttpMethod chars)) fun _ => rfl

theorem onRequestFragment_reports (token : List UInt8) :
    Reports fun p : HttpRequestParser σ => p.onRequestFragment token :=
  .setData (fun data => data.setFragment token) fun _ => rfl

theorem onRequestPath_reports (token : List UInt8) :
    Reports fun p : HttpRequestParser σ => p.onRequestPath token :=
  .setData (fun data => data.setPath token) fun _ => rfl

theorem onRequestQuery_reports (token : List UInt8) :
    Reports fun p : HttpRequestParser σ => p.onRequestQuery token :=
  .setData (fun data => data.setQuery token) fun _ => rfl

theorem onRequestVersion_reports (chars : List UInt8) (length : Nat) :
    Reports fun p : HttpRequestParser σ => p.onRequestVersion chars length := by
  unfold onRequestVersion
  cases strncmpEq length chars (octets "HTTP/1.1") with
  | true => exact .setData (fun data => data.setVersion 0x11) fun _ => rfl
  | false =>
    cases strncmpEq length chars (octets "HTTP/1.0") with
    | true => exact .setData (fun data => data.setVersion 0x10) fun _ => rfl
    | false => exact .setError 1001 (by decide)

theorem onRequestHttpField_reports (field value : List UInt8) :
    Reports fun p : HttpRequestParser σ => p.onRequestHttpField field value := by
  unfold onRequestHttpField
  by_cases hnone : field.length = 0
  · simp only [if_pos hnone]
    exact .setError 1002 (by decide)
  · simp only [if_neg hnone]
    exact .setData (fun data => data.setHeader field value) fun _ => rfl

/-- What the actions at offset `fpc` may do besides reporting. -/
structure Kept (fpc : Nat) (p p' : HttpRequestParser σ) : Prop where
  cs : p'.parser.cs = p.parser.cs
  bodyStart : p'.parser.bodyStart = p.parser.bodyStart
  mark : p'.parser.mark = p.parser.mark ∨ p'.parser.mark = fpc
  fieldStart : p'.parser.fieldStart = p.parser.fieldStart ∨ p'.parser.fieldStart = fpc
  fieldLen : p'.parser.fieldLen = p.parser.fieldLen ∨ p'.parser.fieldLen ≤ fpc
  body : p'.data.body = p.data.body
  failed : p.error ≠ 0 → p'.error ≠ 0

theorem Kept.refl (fpc : Nat) (p : HttpRequestParser σ) : Kept fpc p p :=
  ⟨rfl, rfl, .inl rfl, .inl rfl, .inl rfl, rfl, id⟩

theorem Kept.trans (fpc : Nat) (p q r : HttpRequestParser σ) (hpq : Kept fpc p q)
    (hqr : Kept fpc q r) : Kept fpc p r where
  cs := hqr.cs.trans hpq.cs
  bodyStart := hqr.bodyStart.trans hpq.bodyStart
  mark := hqr.mark.elim (fun heq => heq ▸ hpq.mark) .inr
  fieldStart := hqr.fieldStart.elim (fun heq => heq ▸ hpq.fieldStart) .inr
  fieldLen := hqr.fieldLen.elim (fun heq => heq ▸ hpq.fieldLen) .inr
  body := hqr.body.trans hpq.body
  failed := fun hfailed => hqr.failed (hpq.failed hfailed)

theorem Reports.kept (fpc : Nat) (p : HttpRequestParser σ)
    (f : HttpRequestParser σ → HttpRequestParser σ) (hf : Reports f) : Kept fpc p (f p) := by
  refine ⟨?_, ?_, .inl ?_, .inl ?_, .inl ?_, hf.body p, hf.failed p⟩ <;> rw [hf.parser]

theorem act_kept (buffer : List UInt8) (fpc : Nat) (p p' : HttpRequestParser σ)
    (action : ParserAction) (hok : act buffer fpc p action = .ok p') : Kept fpc p p' := by
  cases action with
  | mark | startValue =>
    cases hok
    exact { Kept.refl fpc p with mark := .inr rfl }
  | startField =>
    cases hok
    exact { Kept.refl fpc p with fieldStart := .inr rfl }
  | writeField =>
    obtain ⟨length, hlength, hok⟩ := Lib.of_bind_ok _ _ _ hok
    cases hok
    unfold lengthFrom at hlength
    split at hlength
    · cases hlength
      exact { Kept.refl fpc p with fieldLen := .inr (Nat.sub_le _ _) }
    · cases hlength
  | writeValue =>
    obtain ⟨field, -, hok⟩ := Lib.of_bind_ok _ _ _ hok
    obtain ⟨value, -, hok⟩ := Lib.of_bind_ok _ _ _ hok
    cases hok
    exact (onRequestHttpField_reports field value).kept fpc p
  | requestMethod =>
    cases hok
    exact (onRequestMethod_reports _).kept fpc p
  | fragment =>
    obtain ⟨token, -, hok⟩ := Lib.of_bind_ok _ _ _ hok
    cases hok
    exact (onRequestFragment_reports token).kept fpc p
  | queryString =>
    simp only [act] at hok
    split at hok
    · cases hok
    · obtain ⟨token, -, hok⟩ := Lib.of_bind_ok _ _ _ hok
      cases hok
      exact (onRequestQuery_reports token).kept fpc p
  | httpVersion =>
    obtain ⟨length, -, hok⟩ := Lib.of_bind_ok _ _ _ hok
    cases hok
    exact (onRequestVersion_reports _ length).kept fpc p
  | requestPath =>
    obtain ⟨token, -, hok⟩ := Lib.of_bind_ok _ _ _ hok
    cases hok
    exact (onRequestPath_reports token).kept fpc p
  | requestUri =>
    cases hok
    exact .refl fpc _
  | startQuery | xml | json =>
    cases hok
    exact { Kept.refl fpc p with }

theorem acts_kept (buffer : List UInt8) (fpc : Nat) (p p' : HttpRequestParser σ)
    (actions : List ParserAction) (hok : acts buffer fpc p actions = .ok p') : Kept fpc p p' := by
  induction actions generalizing p with
  | nil =>
    cases hok
    exact .refl fpc _
  | cons action actions ih =>
    obtain ⟨next, hnext, hrest⟩ := Lib.of_bind_ok _ _ _ hok
    exact .trans fpc p next p' (act_kept buffer fpc p next action hnext) (ih next hrest)

/-- The registers of a call with a buffer of `len` bytes, before `done`. -/
structure InRange (len : Nat) (p : HttpRequestParser σ) : Prop where
  mark : p.parser.mark < len
  fieldStart : p.parser.fieldStart < len
  fieldLen : p.parser.fieldLen ≤ len
  bodyStart : p.parser.bodyStart = 0

theorem InRange.kept (len fpc : Nat) (p p' : HttpRequestParser σ) (hrange : InRange len p)
    (hfpc : fpc < len) (hkept : Kept fpc p p') : InRange len p' where
  mark := by
    rcases hkept.mark with heq | heq
    · rw [heq]
      exact hrange.mark
    · rw [heq]
      exact hfpc
  fieldStart := by
    rcases hkept.fieldStart with heq | heq
    · rw [heq]
      exact hrange.fieldStart
    · rw [heq]
      exact hfpc
  fieldLen := by
    rcases hkept.fieldLen with heq | hle
    · rw [heq]
      exact hrange.fieldLen
    · omega
  bodyStart := by
    rw [hkept.bodyStart]
    exact hrange.bodyStart

theorem InRange.asserts (len nread : Nat) (p : HttpRequestParser σ) (hrange : InRange len p)
    (hnread : nread ≤ len) : p.asserts len nread :=
  ⟨hnread, by rw [hrange.bodyStart]; exact Nat.zero_le len, hrange.mark, hrange.fieldLen,
    hrange.fieldStart⟩

theorem InRange.asserts_done (len fpc : Nat) (p : HttpRequestParser σ) (hrange : InRange len p)
    (hfpc : fpc < len) : (done fpc p).asserts len (fpc + 1) := by
  unfold done
  split
  · exact ⟨hfpc, Nat.le_of_lt hrange.mark, hrange.mark, hrange.fieldLen, hrange.fieldStart⟩
  · exact ⟨hfpc, hfpc, hrange.mark, hrange.fieldLen, hrange.fieldStart⟩

@[simp] theorem done_data (fpc : Nat) (p : HttpRequestParser σ) : (done fpc p).data = p.data := by
  unfold done
  split <;> rfl

@[simp] theorem done_error (fpc : Nat) (p : HttpRequestParser σ) :
    (done fpc p).error = p.error := by
  unfold done
  split <;> rfl

@[simp] theorem done_cs (fpc : Nat) (p : HttpRequestParser σ) :
    (done fpc p).parser.cs = p.parser.cs := by
  unfold done
  split <;> rfl

theorem exec_failed (machine : Machine σ) (buffer rest : List UInt8) (fpc nread : Nat)
    (p p' : HttpRequestParser σ) (hok : exec machine buffer fpc rest p = .ok (p', nread))
    (hfailed : p.error ≠ 0) : p'.error ≠ 0 := by
  induction rest generalizing fpc p with
  | nil =>
    cases hok
    exact hfailed
  | cons c rest ih =>
    simp only [exec] at hok
    split at hok
    · cases hok
      exact hfailed
    · split at hok
      · cases hok
        exact hfailed
      · obtain ⟨next, hnext, hok⟩ := Lib.of_bind_ok _ _ _ hok
        have hstill := (acts_kept buffer fpc p next _ hnext).failed hfailed
        split at hok
        · cases hok
          rw [done_error]
          exact hstill
        · exact ih _ _ hok hstill

/-- What a call of `http_parser_execute` keeps: the assertions hold at its end, and it does not
touch the body. -/
structure Executed (machine : Machine σ) (len nread : Nat) (p p' : HttpRequestParser σ) : Prop where
  asserts : p'.asserts len nread
  body : p'.data.body = p.data.body
  bodyStart : p'.isFinished machine = false → p'.parser.bodyStart = 0

theorem exec_executed (machine : Machine σ) (buffer rest : List UInt8) (len fpc nread : Nat)
    (p p' : HttpRequestParser σ) (hlen : fpc + rest.length = len) (hrange : InRange len p)
    (hok : exec machine buffer fpc rest p = .ok (p', nread)) : Executed machine len nread p p' := by
  have hstop : fpc ≤ len := by omega
  induction rest generalizing fpc p with
  | nil =>
    cases hok
    exact ⟨hrange.asserts len _ _ hstop, rfl, fun _ => hrange.bodyStart⟩
  | cons c rest ih =>
    rw [List.length_cons] at hlen
    simp only [exec] at hok
    split at hok
    · cases hok
      exact ⟨hrange.asserts len _ _ hstop, rfl, fun _ => hrange.bodyStart⟩
    · split at hok
      · cases hok
        exact ⟨hrange.asserts len _ _ hstop, rfl, fun _ => hrange.bodyStart⟩
      · rename_i state' actions hnext
        obtain ⟨next, hacts, hok⟩ := Lib.of_bind_ok _ _ _ hok
        have hkept := acts_kept buffer fpc p next _ hacts
        have hrange' := hrange.kept len fpc p next (by omega) hkept
        split at hok
        · rename_i hfinal
          cases hok
          refine ⟨?_, ?_, ?_⟩
          · exact InRange.asserts_done len fpc _ { hrange' with } (by omega)
          · rw [done_data]
            exact hkept.body
          · intro hunfinished
            rw [isFinished, done_cs] at hunfinished
            exact absurd hfinal (Bool.eq_false_iff.mp hunfinished)
        · have hrest := ih (fpc + 1) { next with parser.cs := some state' } (by omega)
            { hrange' with } hok (by omega)
          exact ⟨hrest.asserts, hrest.body.trans hkept.body, hrest.bodyStart⟩

theorem reset_inRange (p : HttpRequestParser σ) (len : Nat) (hlen : 0 < len)
    (hbody : p.parser.bodyStart = 0) : InRange len (p.reset len) :=
  ⟨hlen, hlen, Nat.le_refl len, hbody⟩

theorem exec_of_execute (machine : Machine σ) (p p' : HttpRequestParser σ)
    (buffer kept : List UInt8) (nread : Nat) (hsome : buffer ≠ [])
    (hexecute : p.execute machine buffer = .ok (p', nread, kept)) :
    exec machine buffer 0 buffer (p.reset buffer.length) = .ok (p', nread) ∧
      kept = buffer.drop nread := by
  have hlen : buffer.length ≠ 0 := fun hzero => hsome (List.eq_nil_of_length_eq_zero hzero)
  obtain ⟨⟨p₁, offset⟩, hparse, hmove⟩ := Lib.of_bind_ok _ _ _ hexecute
  cases hmove
  rw [httpParserExecute, if_neg hlen] at hparse
  obtain ⟨⟨p₂, offset₂⟩, hexec, hchecked⟩ := Lib.of_bind_ok _ _ _ hparse
  dsimp only at hchecked
  split at hchecked
  · cases hchecked
    exact ⟨hexec, rfl⟩
  · cases hchecked

theorem execute_of_exec (machine : Machine σ) (p p' : HttpRequestParser σ) (buffer : List UInt8)
    (nread : Nat) (hsome : buffer ≠ []) (hbody : p.parser.bodyStart = 0)
    (hexec : exec machine buffer 0 buffer (p.reset buffer.length) = .ok (p', nread)) :
    p.execute machine buffer = .ok (p', nread, buffer.drop nread) := by
  have hpos := List.length_pos_iff.mpr hsome
  have hasserts := (exec_executed machine buffer buffer buffer.length 0 nread _ p'
    (Nat.zero_add _) (reset_inRange p _ hpos hbody) hexec).asserts
  simp only [execute, httpParserExecute, if_neg (Nat.ne_of_gt hpos), hexec]
  show (((if p'.asserts buffer.length nread then .ok (p', nread) else .error .assertion :
    Except HttpFault _)) >>= fun found => .ok (found.1, found.2, buffer.drop found.2)) = _
  rw [if_pos hasserts]
  rfl

theorem lengthFrom_ok (start fpc : Nat) (hstart : start ≤ fpc) :
    lengthFrom start fpc = .ok (fpc - start) := by
  rw [lengthFrom, if_pos hstart]

theorem stringAt_ok (buffer : List UInt8) (start length : Nat)
    (hend : start + length ≤ buffer.length) :
    stringAt buffer start length = .ok ((buffer.drop start).take length) := by
  rw [stringAt, if_pos hend]

theorem tokenFrom_ok (buffer : List UInt8) (start fpc : Nat) (hstart : start ≤ fpc)
    (hfpc : fpc ≤ buffer.length) :
    tokenFrom buffer start fpc = .ok ((buffer.drop start).take (fpc - start)) := by
  rw [tokenFrom, lengthFrom_ok start fpc hstart]
  exact stringAt_ok buffer start (fpc - start) (by omega)

theorem stringAt_between (before word after : List UInt8) :
    stringAt (before ++ (word ++ after)) before.length word.length = .ok word := by
  rw [stringAt_ok _ _ _ (by simp), List.drop_left, List.take_left]

theorem tokenFrom_between (before word after : List UInt8) :
    tokenFrom (before ++ (word ++ after)) before.length (before ++ word).length = .ok word := by
  rw [tokenFrom, lengthFrom_ok _ _ (by simp), List.length_append, Nat.add_sub_cancel_left]
  exact stringAt_between before word after

end HttpRequestParser
end Sylar
