import Sylar.Http.Exchange
import Sylar.Http.ResponseRoundTrip
import Sylar.Http.Servlet

/-! A client on one connection with `HttpServer::handleClient`, its dispatcher and its servlets:
requests are dumped, received, dispatched and answered, and the responses are dumped and parsed.

A servlet here has a state of its own and leaves the session alone. The strings of the dispatcher
have one character for each byte. -/
namespace Sylar
open HttpServer (next eventAt)

def NotFoundServlet.handle (response : HttpResponse) : HttpResponse :=
  let response := { response with status := 404 }
  let response := response.setHeader (octets "Server") (octets "sylar/1.0.0")
  let response := response.setHeader (octets "Content-Type") (octets "text/html")
  { response with
    body := octets ("<html><head><title>404 Not Found" ++
      "</title></head><body><center><h1>404 Not Found</h1></center>" ++
      "<hr><center>sylar/1.0.0</center></body></html>") }

structure Handlers (σ κ τ : Type) where
  servlet : σ → τ → HttpRequest → HttpResponse → τ × HttpResponse
  callback : κ → τ → HttpRequest → HttpResponse → τ × HttpResponse

def Servlet.handle {σ κ τ : Type} (handlers : Handlers σ κ τ) :
    Servlet σ κ → τ → HttpRequest → HttpResponse → τ × HttpResponse
  | .user servlet => handlers.servlet servlet
  | .function cb => handlers.callback cb
  | .notFound => fun world _ response => (world, NotFoundServlet.handle response)

def uriOf (path : List UInt8) : String := .ofList (path.map fun c => .ofNat c.toNat)

def ServletDispatch.handle {σ κ τ : Type} (fnmatch : String → String → Bool)
    (handlers : Handlers σ κ τ) (d : ServletDispatch σ κ) (world : τ) (request : HttpRequest)
    (response : HttpResponse) : τ × HttpResponse :=
  match d.getMatchedServlet fnmatch (uriOf request.path) with
  | some slt => slt.handle handlers world request response
  | none => (world, response)

section
variable {τ : Type} (server : HttpServer)
  (serve : τ → HttpRequest → HttpResponse → τ × HttpResponse)

def withSession (world : τ) (req : HttpRequest) (rsp : HttpResponse) (conn : List Arrival) :
    τ × HttpResponse × List Arrival :=
  ((serve world req rsp).1, (serve world req rsp).2, conn)

/-- Every request that is read is answered before the next one is; without keep-alive there is one,
and with it the end of the requests ends the session. -/
def transcript : τ → List HttpRequest → List ServerEvent
  | _, [] => [.recv (.ok none), .close]
  | world, req :: reqs =>
    let (world', rsp) := serve world req (server.response req)
    .recv (.ok (some req)) :: .send rsp ::
      if server.isKeepalive then transcript world' reqs else [.close]

variable {σ : Type} (machine : Machine σ) (lexicalCast : List UInt8 → Option UInt64)
  (buffSize : Nat)

theorem eventAt_cons (s s' : ServerState τ) (event : ServerEvent) (events : List ServerEvent)
    (handle : τ → HttpRequest → HttpResponse → List Arrival → τ × HttpResponse × List Arrival)
    (hnext : next machine lexicalCast buffSize server handle s = some (event, s'))
    (hrest : ∀ i, eventAt machine lexicalCast buffSize server handle i s' = events[i]?) (i : Nat) :
    eventAt machine lexicalCast buffSize server handle i s = (event :: events)[i]? := by
  cases i with
  | zero =>
    rw [eventAt, HttpServer.stateAt, Option.bind_some, hnext]
    rfl
  | succ i =>
    rw [List.getElem?_cons_succ, ← hrest i, eventAt, eventAt, HttpServer.stateAt, hnext,
      Option.bind_some]

theorem eventAt_done
    (handle : τ → HttpRequest → HttpResponse → List Arrival → τ × HttpResponse × List Arrival)
    (i : Nat) : eventAt machine lexicalCast buffSize server handle i .done = [][i]? := by
  cases i <;> rfl

theorem eventAt_closed
    (handle : τ → HttpRequest → HttpResponse → List Arrival → τ × HttpResponse × List Arrival)
    (i : Nat) : eventAt machine lexicalCast buffSize server handle i .closing =
      [ServerEvent.close][i]? :=
  eventAt_cons server machine lexicalCast buffSize .closing .done .close [] handle rfl
    (eventAt_done server machine lexicalCast buffSize handle) i

theorem next_read (world : τ) (conn rest : List Arrival) (req : HttpRequest)
    (handle : τ → HttpRequest → HttpResponse → List Arrival → τ × HttpResponse × List Arrival)
    (hrecv : HttpSession.recvRequest machine lexicalCast buffSize conn = .ok (some req, rest)) :
    next machine lexicalCast buffSize server handle (.reading world conn) =
      some (.recv (.ok (some req)), .answering req world rest) := by
  rw [next, hrecv]

theorem next_closed (world : τ)
    (handle : τ → HttpRequest → HttpResponse → List Arrival → τ × HttpResponse × List Arrival) :
    next machine lexicalCast buffSize server handle (.reading world []) =
      some (.recv (.ok none), .closing) := by
  have hhead : HttpSession.recvHead machine buffSize (.new machine) [] [] = .ok (none, []) := by
    rw [HttpSession.recvHead]
    rfl
  have hrecv : HttpSession.recvRequest machine lexicalCast buffSize [] = .ok (none, []) := by
    rw [HttpSession.recvRequest, hhead]
    rfl
  rw [next, hrecv]

end

structure Returnable (rsp : HttpResponse) : Prop where
  dumpable : Httpclient.Dumpable rsp
  ordered : Lib.Ordered foldKey rsp.headers

theorem Returnable.setHeader (rsp : HttpResponse) (key val : List UInt8) (hrsp : Returnable rsp)
    (hkey : Httpclient.IsName key) (hval : Httpclient.IsValue val) :
    Returnable (rsp.setHeader key val) := by
  obtain ⟨⟨hversion, hstatus, hreason, hheaders⟩, hordered⟩ := hrsp
  refine ⟨⟨hversion, hstatus, hreason, ?_⟩, ?_⟩
  · intro entry hentry
    obtain ⟨hmem, hkept⟩ := List.mem_filter.mp hentry
    rw [HttpResponse.setHeader, HttpMap.assign] at hmem
    rcases Lib.mem_mapAssign caseInsensitiveLess key val rsp.headers entry hmem with
      hold | ⟨hvalue, hname | ⟨old, hold, hname⟩⟩
    · exact hheaders entry (List.mem_filter.mpr ⟨hold, hkept⟩)
    · rw [Httpclient.IsLine, hname, hvalue]
      exact ⟨hkey, hval⟩
    · rw [Httpclient.IsLine, ← hname, hvalue]
      rw [← hname] at hkept
      exact ⟨(hheaders old (List.mem_filter.mpr ⟨hold, hkept⟩)).1, hval⟩
  · rw [HttpResponse.setHeader, HttpMap.assign]
    exact caseInsensitiveLess_folds.ordered_mapAssign key val _ hordered

theorem Returnable.setStatus (rsp : HttpResponse) (status : Nat) (hrsp : Returnable rsp)
    (hstatus : status < 2 ^ 31) : Returnable { rsp with status := status } :=
  ⟨{ hrsp.dumpable with status := hstatus }, hrsp.ordered⟩

theorem Returnable.setBody (rsp : HttpResponse) (body : List UInt8) (hrsp : Returnable rsp) :
    Returnable { rsp with body := body } :=
  ⟨{ hrsp.dumpable with }, hrsp.ordered⟩

theorem fixed_ok : (∀ name ∈ ["Server", "Content-Type"], Httpclient.IsName (octets name)) ∧
    ∀ value ∈ ["sylar/1.0.0", "text/html"], Httpclient.IsValue (octets value) := by
  constructor
  · intro name hname
    rcases List.mem_pair.mp hname with rfl | rfl <;> exact ⟨by decide, by decide +kernel⟩
  · have hvalues : ∀ value ∈ ["sylar/1.0.0", "text/html"],
        (∀ c ∈ octets value, Httpclient.valueByte.has c = true) ∧
          ∀ c ∈ (octets value).head?, Httpclient.leadByte.has c = true := by
      decide +kernel
    exact fun value hvalue => hvalues value hvalue

theorem returnable_response (server : HttpServer) (hname : Httpclient.IsValue server.name)
    (req : HttpRequest) (hversion : req.version = 0x11 ∨ req.version = 0x10) :
    Returnable (server.response req) := by
  refine Returnable.setHeader _ _ _ ⟨⟨hversion, ?_, ?_, ?_⟩, List.Pairwise.nil⟩
    (fixed_ok.1 _ List.mem_cons_self) hname
  · show 200 < 2 ^ 31
    decide
  · exact fun c hc => absurd hc List.not_mem_nil
  · exact fun entry hentry => absurd hentry List.not_mem_nil

theorem NotFoundServlet.returnable (rsp : HttpResponse) (hrsp : Returnable rsp) :
    Returnable (NotFoundServlet.handle rsp) := by
  obtain ⟨hnames, hvalues⟩ := fixed_ok
  apply Returnable.setBody
  refine Returnable.setHeader _ _ _ ?_ (hnames _ (by simp)) (hvalues _ (by simp))
  refine Returnable.setHeader _ _ _ ?_ (hnames _ (by simp)) (hvalues _ (by simp))
  exact hrsp.setStatus rsp 404 (by decide)

structure Handlers.Polite {σ κ τ : Type} (handlers : Handlers σ κ τ) : Prop where
  servlet : ∀ servlet world req rsp, Returnable rsp →
    Returnable (handlers.servlet servlet world req rsp).2
  callback : ∀ cb world req rsp, Returnable rsp → Returnable (handlers.callback cb world req rsp).2

theorem ServletDispatch.returnable {σ κ τ : Type} (fnmatch : String → String → Bool)
    (handlers : Handlers σ κ τ) (hpolite : handlers.Polite) (d : ServletDispatch σ κ) (world : τ)
    (req : HttpRequest) (rsp : HttpResponse) (hrsp : Returnable rsp) :
    Returnable (d.handle fnmatch handlers world req rsp).2 := by
  rw [ServletDispatch.handle]
  split
  · rename_i slt _
    cases slt with
    | user servlet => exact hpolite.servlet servlet world req rsp hrsp
    | function cb => exact hpolite.callback cb world req rsp hrsp
    | notFound => exact NotFoundServlet.returnable rsp hrsp
  · exact hrsp

theorem sent_of_transcript {τ : Type} (server : HttpServer)
    (serve : τ → HttpRequest → HttpResponse → τ × HttpResponse) (world : τ)
    (found : List HttpRequest) (rsp : HttpResponse)
    (hsend : ServerEvent.send rsp ∈ transcript server serve world found) :
    ∃ req ∈ found, ∃ world', rsp = (serve world' req (server.response req)).2 := by
  induction found generalizing world with
  | nil => simp [transcript] at hsend
  | cons req found ih =>
    rw [transcript, List.mem_cons, List.mem_cons] at hsend
    rcases hsend with hrecv | hnow | hlater
    · cases hrecv
    · cases hnow
      exact ⟨req, List.mem_cons_self, world, rfl⟩
    · split at hlater
      · obtain ⟨other, hmem, hother⟩ := ih _ hlater
        exact ⟨other, List.mem_cons_of_mem req hmem, hother⟩
      · simp at hlater

namespace Http11

/-- What the server sees of dumped requests that each come in a read of their own, and the order in
which it answers them. -/
theorem eventAt_dumps {τ : Type} (server : HttpServer)
    (serve : τ → HttpRequest → HttpResponse → τ × HttpResponse) (relaxed : Bool)
    (lexicalCast : List UInt8 → Option UInt64) (hcast : Reads64 lexicalCast) (buffSize : Nat)
    (hbuff : buffSize < 2 ^ 31) (reqs : List HttpRequest)
    (hreqs : ∀ req ∈ reqs, Sendable relaxed lexicalCast req)
    (hfits : ∀ req ∈ reqs, req.dump.length ≤ min buffSize maxRead) (world : τ) :
    ∃ found, List.Forall₂ (fun req other => Received req other ∧ other.body = req.body) reqs found ∧
      ∀ i, eventAt (machine relaxed) lexicalCast buffSize server (withSession serve) i
          (.reading world (reqs.map fun req => .bytes req.dump)) =
        (transcript server serve world found)[i]? := by
  induction reqs generalizing world with
  | nil =>
    exact ⟨[], .nil, eventAt_cons server _ _ _ _ .closing _ _ _ (next_closed server _ _ _ world _)
      (eventAt_closed server _ _ _ _)⟩
  | cons req reqs ih =>
    have hothers : ∀ seg ∈ reqs.map HttpRequest.dump, seg ≠ [] := by
      intro seg hseg
      obtain ⟨other, -, rfl⟩ := List.mem_map.mp hseg
      exact dump_ne_nil other
    obtain ⟨first, hrecv, hfirst⟩ := recvRequest_dump relaxed lexicalCast hcast buffSize hbuff req
      (hreqs req List.mem_cons_self) (hfits req List.mem_cons_self) (reqs.map HttpRequest.dump) hothers
    rw [List.map_cons, List.map_map] at hrecv
    obtain ⟨found, hfound, hevents⟩ := ih
      (fun other hother => hreqs other (List.mem_cons_of_mem req hother))
      (fun other hother => hfits other (List.mem_cons_of_mem req hother))
      (serve world first (server.response first)).1
    refine ⟨first :: found, .cons hfirst hfound, ?_⟩
    refine eventAt_cons server _ _ _ _ _ _ _ _
      (next_read server (machine relaxed) lexicalCast buffSize world _ _ first _ hrecv) ?_
    refine eventAt_cons server _ _ _ _ _ _ _ _ rfl ?_
    intro i
    cases server.isKeepalive with
    | true => exact hevents i
    | false => exact eventAt_closed server _ _ _ _ i

theorem source_of_received (reqs found : List HttpRequest)
    (hfound : List.Forall₂ (fun req other => Received req other ∧ other.body = req.body) reqs found)
    (other : HttpRequest) (hother : other ∈ found) : ∃ req ∈ reqs, Received req other := by
  induction hfound with
  | nil => cases hother
  | cons hfirst hrest ih =>
    rcases List.mem_cons.mp hother with rfl | hlater
    · exact ⟨_, List.mem_cons_self, hfirst.1⟩
    · obtain ⟨req, hreq, hreceived⟩ := ih hlater
      exact ⟨req, List.mem_cons_of_mem _ hreq, hreceived⟩

/-- Requests that a client dumps one by one are received in their order, dispatched by their path
and answered, and what the client parses of an answer is what the servlet has made of it. -/
theorem requests_answered {σ κ τ : Type} (fnmatch : String → String → Bool)
    (handlers : Handlers σ κ τ) (hpolite : handlers.Polite) (d : ServletDispatch σ κ)
    (server : HttpServer) (hname : Httpclient.IsValue server.name) (relaxed : Bool)
    (lexicalCast : List UInt8 → Option UInt64) (hcast : Reads64 lexicalCast) (buffSize : Nat)
    (hbuff : buffSize < 2 ^ 31) (reqs : List HttpRequest)
    (hreqs : ∀ req ∈ reqs, Sendable relaxed lexicalCast req)
    (hfits : ∀ req ∈ reqs, req.dump.length ≤ min buffSize maxRead) (world : τ) :
    ∃ found, List.Forall₂ (fun req other => Received req other ∧ other.body = req.body) reqs found ∧
      (∀ i, eventAt (machine relaxed) lexicalCast buffSize server
          (withSession (d.handle fnmatch handlers)) i
          (.reading world (reqs.map fun req => .bytes req.dump)) =
        (transcript server (d.handle fnmatch handlers) world found)[i]?) ∧
      ∀ rsp, .send rsp ∈ transcript server (d.handle fnmatch handlers) world found →
        rsp.dump.length < 2 ^ 31 → ∀ status, ∃ p offset moved,
          (HttpResponseParser.new Httpclient.machine status).execute Httpclient.machine rsp.dump =
            .ok (p, offset, moved) ∧
          offset + rsp.body.length = rsp.dump.length ∧
          moved.take (rsp.dump.length - offset) = rsp.body ∧
          p.isFinished 120 = true ∧ p.hasError = false ∧ Httpclient.Received rsp p.data := by
  obtain ⟨found, hfound, hevents⟩ := eventAt_dumps server (d.handle fnmatch handlers) relaxed
    lexicalCast hcast buffSize hbuff reqs hreqs hfits world
  refine ⟨found, hfound, hevents, ?_⟩
  intro rsp hsend hshort status
  obtain ⟨other, hother, world', rfl⟩ := sent_of_transcript server _ world found rsp hsend
  obtain ⟨req, hreq, hreceived⟩ := source_of_received reqs found hfound other hother
  have hversion : other.version = 0x11 ∨ other.version = 0x10 := by
    rw [hreceived.version]
    exact (hreqs req hreq).dumpable.version
  have hreturnable := d.returnable fnmatch handlers hpolite world' other _
    (returnable_response server hname other hversion)
  obtain ⟨p, offset, moved, hexecute, hhead, hbody, hfinished, herror, hdata⟩ :=
    Httpclient.execute_dump status _ hreturnable.dumpable hshort
  refine ⟨p, offset, moved, hexecute, hhead, hbody, hfinished, herror, ?_⟩
  rw [hdata]
  exact Httpclient.parsed_received _ hreturnable.ordered

def greeters : Handlers Unit Unit Nat where
  servlet := fun _ world _ rsp => (world + 1, { rsp with body := octets "hello" })
  callback := fun _ world req rsp => (world, { rsp with body := req.body })

theorem greeters_polite : greeters.Polite where
  servlet := fun _ _ _ rsp hrsp => hrsp.setBody rsp _
  callback := fun _ _ _ rsp hrsp => hrsp.setBody rsp _

/-- The first request is for the servlet, and no servlet matches the second. -/
theorem requests_answered_two :
    let server : HttpServer := { isKeepalive := true, name := octets "sylar/1.0.0" }
    let d : ServletDispatch Unit Unit := ServletDispatch.new.addServlet "/a%20b/c" (some (.user ()))
    let serve := d.handle (fun _ _ => false) greeters
    ∃ found, List.Forall₂ (fun req other => Received req other ∧ other.body = req.body)
        [putRequest, HttpRequest.new] found ∧
      (∀ i, eventAt (machine false) lexicalCastDigits 4096 server (withSession serve) i
          (.reading 0 [.bytes putRequest.dump, .bytes HttpRequest.new.dump]) =
        (transcript server serve 0 found)[i]?) ∧
      ∀ rsp, .send rsp ∈ transcript server serve 0 found → rsp.dump.length < 2 ^ 31 →
        ∀ status, ∃ p offset moved,
          (HttpResponseParser.new Httpclient.machine status).execute Httpclient.machine rsp.dump =
            .ok (p, offset, moved) ∧
          offset + rsp.body.length = rsp.dump.length ∧
          moved.take (rsp.dump.length - offset) = rsp.body ∧
          p.isFinished 120 = true ∧ p.hasError = false ∧ Httpclient.Received rsp p.data :=
  requests_answered (fun _ _ => false) greeters greeters_polite _ _
    (fixed_ok.2 _ List.mem_cons_self) false lexicalCastDigits reads64_lexicalCastDigits 4096
    (by decide) [putRequest, HttpRequest.new] sendable_two (by decide +kernel) 0

end Http11
end Sylar
