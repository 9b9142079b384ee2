import Sylar.Http.Split

/-! `HttpServer::handleClient`, with `HttpResponse` of `http.h` and `http.cc`.

The loop is a machine that takes one step for each call that can be seen from outside. What
`m_dispatch->handle` does is a parameter: servlets have a state of their own, write to the
response and may use the session. -/
namespace Sylar

def httpStatusMap : List (Nat × String) :=
  [(100, "Continue"), (101, "Switching Protocols"), (102, "Processing"), (200, "OK"),
   (201, "Created"), (202, "Accepted"), (203, "Non-Authoritative Information"),
   (204, "No Content"), (205, "Reset Content"), (206, "Partial Content"), (207, "Multi-Status"),
   (208, "Already Reported"), (226, "IM Used"), (300, "Multiple Choices"),
   (301, "Moved Permanently"), (302, "Found"), (303, "See Other"), (304, "Not Modified"),
   (305, "Use Proxy"), (307, "Temporary Redirect"), (308, "Permanent Redirect"),
   (400, "Bad Request"), (401, "Unauthorized"), (402, "Payment Required"), (403, "Forbidden"),
   (404, "Not Found"), (405, "Method Not Allowed"), (406, "Not Acceptable"),
   (407, "Proxy Authentication Required"), (408, "Request Timeout"), (409, "Conflict"),
   (410, "Gone"), (411, "Length Required"), (412, "Precondition Failed"),
   (413, "Payload Too Large"), (414, "URI Too Long"), (415, "Unsupported Media Type"),
   (416, "Range Not Satisfiable"), (417, "Expectation Failed"), (421, "Misdirected Request"),
   (422, "Unprocessable Entity"), (423, "Locked"), (424, "Failed Dependency"),
   (426, "Upgrade Required"), (428, "Precondition Required"), (429, "Too Many Requests"),
   (431, "Request Header Fields Too Large"), (451, "Unavailable For Legal Reasons"),
   (500, "Internal Server Error"), (501, "Not Implemented"), (502, "Bad Gateway"),
   (503, "Service Unavailable"), (504, "Gateway Timeout"), (505, "HTTP Version Not Supported"),
   (506, "Variant Also Negotiates"), (507, "Insufficient Storage"), (508, "Loop Detected"),
   (510, "Not Extended"), (511, "Network Authentication Required")]

def httpStatusToString (s : Nat) : String :=
  (httpStatusMap.lookup s).getD "<unknown>"

structure HttpResponse where
  status : Nat
  version : UInt8
  close : Bool
  body : List UInt8
  reason : List UInt8
  headers : HttpMap
deriving DecidableEq

namespace HttpResponse

def new (version : UInt8) (close : Bool) : HttpResponse where
  status := 200
  version := version
  close := close
  body := []
  reason := []
  headers := []

def setHeader (rsp : HttpResponse) (key val : List UInt8) : HttpResponse :=
  { rsp with headers := rsp.headers.assign key val }

/-- `strcasecmp(key.c_str(), "connection") == 0`. -/
def isConnection (key : List UInt8) : Bool :=
  (cStr key).map toLower == octets "connection"

def dumpHeaders (rsp : HttpResponse) : List (List UInt8 × List UInt8) :=
  rsp.headers.filter (fun i => !isConnection i.1) ++
    [(octets "connection", octets (if rsp.close then "close" else "keep-alive"))] ++
    (if rsp.body = [] then []
      else [(octets "content-length", octets (toString rsp.body.length))])

def dump (rsp : HttpResponse) : List UInt8 :=
  octets ("HTTP/" ++ toString (rsp.version >>> 4).toNat ++ "." ++
      toString (rsp.version &&& 0x0F).toNat ++ " " ++ toString rsp.status ++ " ") ++
    (if rsp.reason = [] then octets (httpStatusToString rsp.status) else rsp.reason) ++
    octets "\r\n" ++
    rsp.dumpHeaders.flatMap (fun i => i.1 ++ octets ": " ++ i.2 ++ octets "\r\n") ++
    octets "\r\n" ++ rsp.body

def connection (rsp : HttpResponse) : List (List UInt8) :=
  (rsp.dumpHeaders.filter fun i => isConnection i.1).map Prod.snd

/-- A connection header of the servlet is left out, so there is one, and it is the flag. -/
theorem connection_eq (rsp : HttpResponse) :
    rsp.connection = [octets (if rsp.close then "close" else "keep-alive")] := by
  have hother : rsp.headers.filter (fun i => isConnection i.1 && !isConnection i.1) = [] := by
    simp
  have hname : isConnection (octets "connection") = true := by decide
  have hlength : isConnection (octets "content-length") = false := by decide
  unfold connection dumpHeaders
  rw [List.filter_append, List.filter_append, List.filter_filter, hother]
  by_cases hbody : rsp.body = []
  · simp [hbody, hname]
  · simp [hbody, hname, hlength]

def SaysClose (rsp : HttpResponse) : Prop :=
  rsp.connection = [octets "close"]

def SaysKeepAlive (rsp : HttpResponse) : Prop :=
  rsp.connection = [octets "keep-alive"]

theorem saysClose_iff (rsp : HttpResponse) : rsp.SaysClose ↔ rsp.close = true := by
  rw [SaysClose, connection_eq]
  cases rsp.close <;> decide

theorem saysKeepAlive_iff (rsp : HttpResponse) : rsp.SaysKeepAlive ↔ rsp.close = false := by
  rw [SaysKeepAlive, connection_eq]
  cases rsp.close <;> decide

end HttpResponse

namespace HttpRequestParser
variable {σ : Type}

theorem act_close (buffer : List UInt8) (fpc : Nat) (p p' : HttpRequestParser σ)
    (action : ParserAction) (hok : act buffer fpc p action = .ok p') :
    p'.data.close = p.data.close := by
  cases action with
  | mark | startField | startValue | requestUri | startQuery | xml | json =>
    cases hok
    rfl
  | writeField =>
    obtain ⟨length, -, hok⟩ := Lib.of_bind_ok _ _ _ hok
    cases hok
    rfl
  | writeValue =>
    obtain ⟨field, -, hok⟩ := Lib.of_bind_ok _ _ _ hok
    obtain ⟨value, -, hok⟩ := Lib.of_bind_ok _ _ _ hok
    cases hok
    unfold onRequestHttpField
    split <;> rfl
  | requestMethod =>
    cases hok
    unfold onRequestMethod
    dsimp only
    split <;> rfl
  | fragment | requestPath =>
    obtain ⟨token, -, hok⟩ := Lib.of_bind_ok _ _ _ hok
    cases hok
    rfl
  | queryString =>
    simp only [act] at hok
    split at hok
    · cases hok
    · obtain ⟨token, -, hok⟩ := Lib.of_bind_ok _ _ _ hok
      cases hok
      rfl
  | httpVersion =>
    obtain ⟨length, -, hok⟩ := Lib.of_bind_ok _ _ _ hok
    cases hok
    unfold onRequestVersion
    split
    · rfl
    · split <;> rfl

theorem acts_close (buffer : List UInt8) (fpc : Nat) (p p' : HttpRequestParser σ)
    (actions : List ParserAction) (hok : acts buffer fpc p actions = .ok p') :
    p'.data.close = p.data.close := by
  induction actions generalizing p with
  | nil =>
    cases hok
    rfl
  | cons action actions ih =>
    obtain ⟨next, hnext, hrest⟩ := Lib.of_bind_ok _ _ _ hok
    exact (ih next hrest).trans (act_close buffer fpc p next action hnext)

theorem exec_close (machine : Machine σ) (buffer rest : List UInt8) (fpc nread : Nat)
    (p p' : HttpRequestParser σ) (hok : exec machine buffer fpc rest p = .ok (p', nread)) :
    p'.data.close = p.data.close := by
  induction rest generalizing fpc p with
  | nil =>
    cases hok
    rfl
  | cons c rest ih =>
    simp only [exec] at hok
    split at hok
    · cases hok
      rfl
    · split at hok
      · cases hok
        rfl
      · obtain ⟨next, hnext, hok⟩ := Lib.of_bind_ok _ _ _ hok
        have hsame := acts_close buffer fpc p next _ hnext
        split at hok
        · cases hok
          rw [done_data]
          exact hsame
        · exact (ih _ _ hok).trans hsame

theorem execute_close (machine : Machine σ) (p p' : HttpRequestParser σ)
    (buffer kept : List UInt8) (nread : Nat) (hsome : buffer ≠ [])
    (hok : p.execute machine buffer = .ok (p', nread, kept)) :
    p'.data.close = p.data.close :=
  exec_close machine buffer buffer 0 nread (p.reset buffer.length) p'
    (exec_of_execute machine p p' buffer kept nread hsome hok).1

end HttpRequestParser

namespace HttpSession
variable {σ : Type} (machine : Machine σ) (lexicalCast : List UInt8 → Option UInt64)
  (buffSize : Nat)

theorem recvHead_close (p p' : HttpRequestParser σ) (kept kept' : List UInt8)
    (conn rest : List Arrival)
    (hok : recvHead machine buffSize p kept conn = .ok (some (p', kept'), rest)) :
    p'.data.close = p.data.close := by
  fun_induction recvHead machine buffSize p kept conn with
  | case1 => cases hok
  | case2 => cases hok
  | case3 p kept conn data others hread hsome ih =>
    obtain ⟨⟨next, nparse, left⟩, hexecute, hok⟩ := Lib.of_bind_ok _ _ _ hok
    have hbuffer : kept ++ data ≠ [] := by simp [hsome]
    have hsame := HttpRequestParser.execute_close machine p next (kept ++ data) left nparse hbuffer hexecute
    dsimp only at hok
    split_ifs at hok
    · cases hok
    · cases hok
    · cases hok
      exact hsame
    · exact (ih next left hok).trans hsame

theorem recvBody_close (p : HttpRequestParser σ) (kept : List UInt8) (conn rest : List Arrival)
    (req : HttpRequest) (hok : recvBody lexicalCast p kept conn = .ok (some req, rest)) :
    req.close = p.data.close := by
  simp only [recvBody] at hok
  split at hok
  · cases hok
    rfl
  · split at hok
    · cases hok
    split at hok
    · cases hok
      rfl
    · obtain ⟨⟨found, others⟩, -, hmap⟩ := Lib.of_bind_ok _ _ _ hok
      cases found with
      | none => cases hmap
      | some found =>
        cases hmap
        rfl

theorem recvRequest_close (conn rest : List Arrival) (req : HttpRequest)
    (hok : recvRequest machine lexicalCast buffSize conn = .ok (some req, rest)) :
    req.close = true := by
  obtain ⟨⟨head, others⟩, hhead, hbody⟩ := Lib.of_bind_ok _ _ _ hok
  cases head with
  | none => cases hbody
  | some found =>
    obtain ⟨p, kept⟩ := found
    rw [recvBody_close lexicalCast p kept others rest req hbody,
      recvHead_close machine buffSize _ p _ kept conn others hhead]
    rfl

end HttpSession

/-- What `handleClient` does that can be seen: a call of `recvRequest` with its result, a
response that is sent, the end of the session. -/
inductive ServerEvent where
  | recv (result : Except HttpFault (Option HttpRequest))
  | send (rsp : HttpResponse)
  | close

/-- Where `handleClient` is; `world` is the state of the servlets. -/
inductive ServerState (τ : Type) where
  | reading (world : τ) (conn : List Arrival)
  | answering (req : HttpRequest) (world : τ) (conn : List Arrival)
  | closing
  | done

structure HttpServer where
  isKeepalive : Bool
  name : List UInt8

namespace HttpServer
variable {σ τ : Type} (machine : Machine σ) (lexicalCast : List UInt8 → Option UInt64)
  (buffSize : Nat) (server : HttpServer)
  (handle : τ → HttpRequest → HttpResponse → List Arrival → τ × HttpResponse × List Arrival)

def response (req : HttpRequest) : HttpResponse :=
  (HttpResponse.new req.version (req.close || !server.isKeepalive)).setHeader (octets "Server")
    server.name

def next : ServerState τ → Option (ServerEvent × ServerState τ)
  | .reading world conn =>
    match HttpSession.recvRequest machine lexicalCast buffSize conn with
    | .error fault => some (.recv (.error fault), .done)
    | .ok (none, _) => some (.recv (.ok none), .closing)
    | .ok (some req, rest) => some (.recv (.ok (some req)), .answering req world rest)
  | .answering req world conn =>
    let (world', rsp, conn') := handle world req (server.response req) conn
    some (.send rsp, if server.isKeepalive then .reading world' conn' else .closing)
  | .closing => some (.close, .done)
  | .done => none

def stateAt : Nat → ServerState τ → Option (ServerState τ)
  | 0, s => some s
  | i + 1, s =>
    (next machine lexicalCast buffSize server handle s).bind fun found => stateAt i found.2

def eventAt (i : Nat) (s : ServerState τ) : Option ServerEvent :=
  ((stateAt machine lexicalCast buffSize server handle i s).bind
    (next machine lexicalCast buffSize server handle)).map Prod.fst

/-- What is sent as the last response is followed by the end of the session and by no read,
and what is sent as another one by the next read. -/
def Persistent (s : ServerState τ) : Prop :=
  ∀ i rsp, eventAt machine lexicalCast buffSize server handle i s = some (.send rsp) →
    (rsp.SaysClose →
      eventAt machine lexicalCast buffSize server handle (i + 1) s = some .close ∧
      ∀ j, i < j → ∀ result,
        eventAt machine lexicalCast buffSize server handle j s ≠ some (.recv result)) ∧
    (rsp.SaysKeepAlive → ∃ result,
      eventAt machine lexicalCast buffSize server handle (i + 1) s = some (.recv result))

/-- The servlets leave the flag of a response as the loop needs it. -/
def ServletsAgree (s : ServerState τ) : Prop :=
  ∀ i req world conn,
    stateAt machine lexicalCast buffSize server handle i s = some (.answering req world conn) →
    (handle world req (server.response req) conn).2.1.close = !server.isKeepalive

theorem stateAt_succ (i : Nat) (s : ServerState τ) :
    stateAt machine lexicalCast buffSize server handle (i + 1) s =
      (stateAt machine lexicalCast buffSize server handle i s).bind fun mid =>
        (next machine lexicalCast buffSize server handle mid).map Prod.snd := by
  induction i generalizing s with
  | zero =>
    simp only [stateAt, Option.bind_some]
    cases next machine lexicalCast buffSize server handle s <;> rfl
  | succ i ih =>
    rw [stateAt]
    cases hnext : next machine lexicalCast buffSize server handle s with
    | none => simp [stateAt, hnext]
    | some found =>
      rw [Option.bind_some, ih]
      simp [stateAt, hnext]

theorem eventAt_of_state (i : Nat) (s mid : ServerState τ)
    (hstate : stateAt machine lexicalCast buffSize server handle i s = some mid) :
    eventAt machine lexicalCast buffSize server handle i s =
      (next machine lexicalCast buffSize server handle mid).map Prod.fst := by
  rw [eventAt, hstate, Option.bind_some]

theorem stateAt_step (i : Nat) (s mid after : ServerState τ) (event : ServerEvent)
    (hstate : stateAt machine lexicalCast buffSize server handle i s = some mid)
    (hnext : next machine lexicalCast buffSize server handle mid = some (event, after)) :
    stateAt machine lexicalCast buffSize server handle (i + 1) s = some after := by
  rw [stateAt_succ, hstate, Option.bind_some, hnext]
  rfl

theorem eventAt_send (i : Nat) (s : ServerState τ) (rsp : HttpResponse)
    (hevent : eventAt machine lexicalCast buffSize server handle i s = some (.send rsp)) :
    ∃ req world conn,
      stateAt machine lexicalCast buffSize server handle i s =
        some (.answering req world conn) ∧
      rsp = (handle world req (server.response req) conn).2.1 := by
  rw [eventAt] at hevent
  cases hstate : stateAt machine lexicalCast buffSize server handle i s with
  | none =>
    rw [hstate] at hevent
    cases hevent
  | some mid =>
    rw [hstate, Option.bind_some] at hevent
    cases mid with
    | reading world conn =>
      simp only [next] at hevent
      split at hevent <;> cases hevent
    | answering req world conn =>
      cases hevent
      exact ⟨req, world, conn, rfl, rfl⟩
    | closing => cases hevent
    | done => cases hevent

theorem eventAt_closing (i j : Nat) (s : ServerState τ)
    (hstate : stateAt machine lexicalCast buffSize server handle i s = some .closing)
    (hle : i ≤ j) (result : Except HttpFault (Option HttpRequest)) :
    eventAt machine lexicalCast buffSize server handle j s ≠ some (.recv result) := by
  have hdone : stateAt machine lexicalCast buffSize server handle (i + 1) s = some .done :=
    stateAt_step machine lexicalCast buffSize server handle i s .closing .done .close hstate rfl
  have hlater : ∀ k, stateAt machine lexicalCast buffSize server handle (i + 2 + k) s = none := by
    intro k
    induction k with
    | zero =>
      rw [stateAt_succ, hdone]
      rfl
    | succ k ih =>
      rw [← Nat.add_assoc, stateAt_succ, ih]
      rfl
  intro hevent
  obtain hnow | hnext | ⟨k, hk⟩ : j = i ∨ j = i + 1 ∨ ∃ k, j = i + 2 + k := by
    by_cases hfar : i + 2 ≤ j
    · exact .inr (.inr ⟨j - (i + 2), by omega⟩)
    · omega
  · rw [hnow, eventAt_of_state _ _ _ _ _ i s _ hstate] at hevent
    cases hevent
  · rw [hnext, eventAt_of_state _ _ _ _ _ (i + 1) s _ hdone] at hevent
    cases hevent
  · rw [hk, eventAt, hlater k] at hevent
    cases hevent

theorem stateAt_answered (i : Nat) (s : ServerState τ) (req : HttpRequest) (world : τ)
    (conn : List Arrival)
    (hstate : stateAt machine lexicalCast buffSize server handle i s =
      some (.answering req world conn)) :
    stateAt machine lexicalCast buffSize server handle (i + 1) s =
      some (if server.isKeepalive then
        .reading (handle world req (server.response req) conn).1
          (handle world req (server.response req) conn).2.2
      else .closing) :=
  stateAt_step machine lexicalCast buffSize server handle i s _ _ _ hstate rfl

theorem next_reading (world : τ) (conn : List Arrival) :
    ∃ result after, next machine lexicalCast buffSize server handle (.reading world conn) =
      some (.recv result, after) := by
  simp only [next]
  split
  · exact ⟨_, _, rfl⟩
  · exact ⟨_, _, rfl⟩
  · exact ⟨_, _, rfl⟩

theorem eventAt_answering (i : Nat) (s : ServerState τ) (req : HttpRequest) (world : τ)
    (conn : List Arrival)
    (hstate : stateAt machine lexicalCast buffSize server handle i s =
      some (.answering req world conn)) :
    eventAt machine lexicalCast buffSize server handle i s =
      some (.send (handle world req (server.response req) conn).2.1) :=
  eventAt_of_state machine lexicalCast buffSize server handle i s _ hstate

theorem eventAt_answered (i : Nat) (s : ServerState τ) (req : HttpRequest) (world : τ)
    (conn : List Arrival)
    (hstate : stateAt machine lexicalCast buffSize server handle i s =
      some (.answering req world conn)) :
    (server.isKeepalive = true → ∃ result,
      eventAt machine lexicalCast buffSize server handle (i + 1) s = some (.recv result)) ∧
    (server.isKeepalive = false →
      eventAt machine lexicalCast buffSize server handle (i + 1) s = some .close) := by
  have hafter := stateAt_answered machine lexicalCast buffSize server handle i s req world conn hstate
  constructor
  · intro hkeep
    rw [if_pos hkeep] at hafter
    obtain ⟨result, after, hnext⟩ := next_reading machine lexicalCast buffSize server handle
      (handle world req (server.response req) conn).1
      (handle world req (server.response req) conn).2.2
    refine ⟨result, ?_⟩
    rw [eventAt_of_state _ _ _ _ _ (i + 1) s _ hafter, hnext]
    rfl
  · intro hkeep
    rw [hkeep, if_neg Bool.false_ne_true] at hafter
    rw [eventAt_of_state _ _ _ _ _ (i + 1) s _ hafter]
    rfl

theorem persistent_iff (s : ServerState τ) :
    Persistent machine lexicalCast buffSize server handle s ↔
      ServletsAgree machine lexicalCast buffSize server handle s := by
  constructor
  · intro hpersistent i req world conn hstate
    obtain ⟨hreads, hcloses⟩ :=
      eventAt_answered machine lexicalCast buffSize server handle i s req world conn hstate
    obtain ⟨hlast, hmore⟩ := hpersistent i _
      (eventAt_answering machine lexicalCast buffSize server handle i s req world conn hstate)
    rw [HttpResponse.saysClose_iff] at hlast
    rw [HttpResponse.saysKeepAlive_iff] at hmore
    cases hkeep : server.isKeepalive with
    | true =>
      obtain ⟨result, hread⟩ := hreads hkeep
      by_contra hflag
      have hclose := (hlast (Bool.eq_true_of_not_eq_false hflag)).1
      rw [hread] at hclose
      cases hclose
    | false =>
      by_contra hflag
      obtain ⟨result, hread⟩ := hmore (Bool.eq_false_of_not_eq_true hflag)
      rw [hcloses hkeep] at hread
      cases hread
  · intro hagree i rsp hevent
    obtain ⟨req, world, conn, hstate, rfl⟩ :=
      eventAt_send machine lexicalCast buffSize server handle i s rsp hevent
    obtain ⟨hreads, hcloses⟩ :=
      eventAt_answered machine lexicalCast buffSize server handle i s req world conn hstate
    have hflag := hagree i req world conn hstate
    rw [HttpResponse.saysClose_iff, HttpResponse.saysKeepAlive_iff, hflag]
    cases hkeep : server.isKeepalive with
    | true =>
      refine ⟨fun h => (nomatch h), fun _ => hreads hkeep⟩
    | false =>
      refine ⟨fun _ => ⟨hcloses hkeep, ?_⟩, fun h => (nomatch h)⟩
      intro j hj result
      have hafter :=
        stateAt_answered machine lexicalCast buffSize server handle i s req world conn hstate
      rw [hkeep, if_neg Bool.false_ne_true] at hafter
      exact eventAt_closing machine lexicalCast buffSize server handle (i + 1) j s hafter hj result

theorem stateAt_done (i : Nat) (mid : ServerState τ)
    (hstate : stateAt machine lexicalCast buffSize server handle i .done = some mid) :
    mid = .done := by
  cases i with
  | zero =>
    cases hstate
    rfl
  | succ i => cases hstate

theorem not_answering (i : Nat) (world : τ) (conn : List Arrival)
    (hnone : ∀ req rest, HttpSession.recvRequest machine lexicalCast buffSize conn ≠
      .ok (some req, rest)) (req : HttpRequest) (world' : τ) (conn' : List Arrival) :
    stateAt machine lexicalCast buffSize server handle i (.reading world conn) ≠
      some (.answering req world' conn') := by
  intro hstate
  cases i with
  | zero => cases hstate
  | succ i =>
    simp only [stateAt, next] at hstate
    split at hstate
    · cases stateAt_done machine lexicalCast buffSize server handle i _ hstate
    · cases i with
      | zero => cases hstate
      | succ i => cases stateAt_done machine lexicalCast buffSize server handle i _ hstate
    · rename_i found rest hrecv
      exact hnone found rest hrecv

/-- The header of a response and the loop agree on every response of a connection exactly when
the servlets set the flag to what the loop does. Servlets that leave it alone do so only without
keep-alive, because the flag that they are given is always set. -/
theorem persistent_iff_servletsAgree (world : τ) (conn : List Arrival) :
    (Persistent machine lexicalCast buffSize server handle (.reading world conn) ↔
      ServletsAgree machine lexicalCast buffSize server handle (.reading world conn)) ∧
    ((∀ world req rsp conn, (handle world req rsp conn).2.1.close = rsp.close) →
      (Persistent machine lexicalCast buffSize server handle (.reading world conn) ↔
        server.isKeepalive = false ∨
        ∀ req rest, HttpSession.recvRequest machine lexicalCast buffSize conn ≠
          .ok (some req, rest))) := by
  refine ⟨persistent_iff machine lexicalCast buffSize server handle _, ?_⟩
  intro hleaves
  rw [persistent_iff]
  constructor
  · intro hagree
    by_cases hsome : ∃ req rest, HttpSession.recvRequest machine lexicalCast buffSize conn =
        .ok (some req, rest)
    · left
      obtain ⟨req, rest, hrecv⟩ := hsome
      have hstate : stateAt machine lexicalCast buffSize server handle 1 (.reading world conn) =
          some (.answering req world rest) := by
        simp only [stateAt, next, hrecv, Option.bind_some]
      have hflag := hagree 1 req world rest hstate
      have hset := HttpSession.recvRequest_close machine lexicalCast buffSize conn rest req hrecv
      rw [hleaves] at hflag
      simpa [response, HttpResponse.setHeader, HttpResponse.new, hset] using hflag
    · right
      intro req rest hrecv
      exact hsome ⟨req, rest, hrecv⟩
  · rintro (hkeep | hnone) i req world' conn' hstate
    · rw [hleaves, hkeep]
      simp [response, HttpResponse.setHeader, HttpResponse.new, hkeep]
    · exact absurd hstate
        (not_answering machine lexicalCast buffSize server handle i world conn hnone req world' conn')

/-- Two requests on a keep-alive connection: the first response says that it is the last, and
the server reads on. -/
theorem reads_after_saying_close :
    let request := octets "GET /b HTTP/1.1\r\nConnection: close\r\n\r\n"
    let conn := [Arrival.bytes request, .bytes request]
    let server : HttpServer := { isKeepalive := true, name := octets "sylar/1.0.0" }
    let handle := fun (world : Unit) (_ : HttpRequest) (rsp : HttpResponse) (conn : List Arrival) =>
      (world, rsp, conn)
    ∃ rsp result,
      eventAt plainMachine lexicalCastDigits 4096 server handle 1 (.reading () conn) =
        some (.send rsp) ∧ rsp.SaysClose ∧
      eventAt plainMachine lexicalCastDigits 4096 server handle 2 (.reading () conn) =
        some (.recv result) ∧
      ¬ Persistent plainMachine lexicalCastDigits 4096 server handle (.reading () conn) := by
  intro request conn server handle
  let req : HttpRequest := { HttpRequest.new with
    path := octets "/b"
    headers := [(octets "Connection", octets "close")] }
  have hrecv : HttpSession.recvRequest plainMachine lexicalCastDigits 4096 conn =
      .ok (some req, [.bytes request]) := by
    rw [HttpSession.recvRequest_read plainMachine lexicalCastDigits 4096 _ _ [.bytes request] rfl
      (by decide) _ _ _ rfl rfl]
    rfl
  have hstate : stateAt plainMachine lexicalCastDigits 4096 server handle 1 (.reading () conn) =
      some (.answering req () [.bytes request]) := by
    simp only [stateAt, next, hrecv, Option.bind_some]
  have hsend := eventAt_answering plainMachine lexicalCastDigits 4096 server handle 1 _ _ _ _ hstate
  obtain ⟨result, hread⟩ := (eventAt_answered plainMachine lexicalCastDigits 4096 server handle 1 _
    _ _ _ hstate).1 rfl
  have hclose := (HttpResponse.saysClose_iff (server.response req)).mpr rfl
  refine ⟨_, result, hsend, hclose, hread, ?_⟩
  intro hpersistent
  have hend := ((hpersistent 1 _ hsend).1 hclose).1
  rw [hread] at hend
  cases hend

end HttpServer
end Sylar
