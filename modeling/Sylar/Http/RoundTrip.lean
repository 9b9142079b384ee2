import Sylar.Http.Head
import Sylar.Http.Pipeline
import Sylar.Http.Printed

/-! A request that is dumped and parsed again, alone and on a connection with others. -/
namespace Sylar
namespace Http11
open HttpRequestParser

def connectionValue (req : HttpRequest) : List UInt8 :=
  octets (if req.close then "close" else "keep-alive")

def headLines (req : HttpRequest) : List HeaderLine :=
  ⟨octets "connection", [32], connectionValue req⟩ ::
    (printed req.headers).map (fun i => ⟨i.1, [], i.2⟩) ++
    (if req.body = [] then [] else [⟨octets "content-length", [32], octets (toString req.body.length)⟩])

theorem connection_bytes (req : HttpRequest) :
    octets ("connection: " ++ if req.close then "close" else "keep-alive") =
      HeaderLine.bytes ⟨octets "connection", [32], connectionValue req⟩ := by
  rw [connectionValue]
  cases req.close <;> decide

theorem dumpLines_headLines (req : HttpRequest) :
    req.dumpLines = (headLines req).map HeaderLine.bytes := by
  have hprinted : (req.headers.filter fun i => !HttpResponse.isConnection i.1).map
      (fun i => i.1 ++ octets ":" ++ i.2) =
      ((printed req.headers).map fun i => (⟨i.1, [], i.2⟩ : HeaderLine)).map HeaderLine.bytes := by
    rw [List.map_map]
    apply List.map_congr_left
    intro i _
    have hcolon : octets ":" = [58] := by decide
    rw [hcolon, List.append_assoc]
    rfl
  rw [HttpRequest.dumpLines, headLines, List.map_append, List.map_cons, hprinted, connection_bytes]
  split
  · rfl
  · rw [length_line_eq]
    rfl

/-- A request that the grammar of the parser has: its method is one of the map but `M-SEARCH`, its
target is in the origin form, and its headers are header lines. -/
structure Dumpable (relaxed : Bool) (req : HttpRequest) : Prop where
  method : req.method ≠ .INVALID_METHOD ∧ req.method ≠ .MSEARCH
  version : req.version = 0x11 ∨ req.version = 0x10
  path : ∃ rest, req.path = 47 :: rest ∧ rest.head? ≠ some 47 ∧
    escaped (pathByte relaxed) 0 rest = true
  query : escaped (queryByte relaxed) 0 req.query = true
  fragment : escaped (queryByte relaxed) 0 req.fragment = true
  headers : ∀ i ∈ printed req.headers, IsName i.1 ∧ IsValue i.2

theorem generated_names : IsName (octets "connection") ∧ IsName (octets "content-length") := by
  decide +kernel

theorem Dumpable.valid (relaxed : Bool) (req : HttpRequest) (hreq : Dumpable relaxed req) :
    ∀ line ∈ headLines req, line.Valid := by
  obtain ⟨hconnection, hlength⟩ := generated_names
  intro line hline
  rw [headLines, List.mem_append, List.mem_cons, List.mem_map] at hline
  rcases hline with (rfl | ⟨i, hi, rfl⟩) | hlast
  · refine ⟨hconnection, .inr rfl, ?_⟩
    dsimp only [connectionValue]
    cases req.close <;> decide +kernel
  · obtain ⟨hname, hvalue⟩ := hreq.headers i hi
    exact ⟨hname, .inl rfl, hvalue⟩
  · split at hlast
    · cases hlast
    · cases List.mem_singleton.mp hlast
      exact ⟨hlength, .inr rfl, toString_spells _ _ (by decide) (by decide) req.body.length⟩

def started (req : HttpRequest) : HttpRequest :=
  { HttpRequest.new with
    method := req.method
    version := req.version
    path := req.path
    query := req.query
    fragment := req.fragment }

def parsed (req : HttpRequest) : HttpRequest :=
  (headLines req).foldl HeaderLine.set (started req)

def head (req : HttpRequest) : List UInt8 :=
  req.requestLine ++ octets "\r\n" ++ req.dumpLines.flatMap (· ++ octets "\r\n") ++ octets "\r\n"

theorem methodEntry (m : HttpMethod) (hm : m ≠ .INVALID_METHOD) :
    (m, httpMethodToString m) ∈ httpMethodMap := by
  cases m <;> first | decide | exact absurd rfl hm

theorem version_text (version : UInt8) (hversion : version = 0x11 ∨ version = 0x10) :
    ∃ text, octets (" HTTP/" ++ toString (version >>> 4).toNat ++ "." ++
        toString (version &&& 0x0F).toNat) = 32 :: text ∧
      (version = 0x11 ∧ text = octets "HTTP/1.1" ∨ version = 0x10 ∧ text = octets "HTTP/1.0") := by
  rcases hversion with rfl | rfl
  · exact ⟨octets "HTTP/1.1", by decide, .inl ⟨rfl, rfl⟩⟩
  · exact ⟨octets "HTTP/1.0", by decide, .inr ⟨rfl, rfl⟩⟩

theorem break_octets : octets "\r\n" = [13, 10] := by decide

section
variable (relaxed : Bool) (req : HttpRequest) (hreq : Dumpable relaxed req)
  (p : HttpRequestParser Nat) (hp : Stands 1 .new p)
include hreq hp

theorem reads_requestLine : ∃ q, Reads relaxed [] (req.requestLine ++ octets "\r\n") p q ∧
    Stands 13 (started req) q := by
  obtain ⟨rest, hpath, hslash, hword⟩ := hreq.path
  obtain ⟨text, htext, hversion⟩ := version_text req.version hreq.version
  obtain ⟨p₁, hmethod, hp₁⟩ := reads_method relaxed _ (methodEntry req.method hreq.method.1)
    hreq.method.2 .new p hp
  obtain ⟨p₂, htarget, hp₂⟩ := reads_target relaxed _ rest _ p₁ req.query req.fragment hp₁ hslash hword
    hreq.query hreq.fragment rfl rfl
  obtain ⟨p₃, hlast, hp₃⟩ := reads_version relaxed _ _ p₂ req.version text hversion hp₂
  refine ⟨p₃, ?_, ?_⟩
  · have hstart := Lib.Reads.trans _ [] _ _ p p₁ p₃ hmethod
      (Lib.Reads.trans _ _ _ _ p₁ p₂ p₃ htarget hlast)
    have hspace : octets " " = [32] := by decide
    rw [HttpRequest.requestLine, octets_append _ " ", hspace, break_octets, htext, hpath]
    simpa only [List.append_assoc, List.cons_append, List.nil_append] using hstart
  · rw [started, hpath]
    exact hp₃

theorem exec_head (after : List UInt8) :
    ∃ q, exec (machine relaxed) (head req ++ after) 0 (head req ++ after) p =
        .ok (q, (head req).length) ∧ Stands 348 (parsed req) q := by
  obtain ⟨p₁, hstart, hp₁⟩ := reads_requestLine relaxed req hreq p hp
  obtain ⟨p₂, hlines, hp₂⟩ := reads_lines relaxed (req.requestLine ++ octets "\r\n") (headLines req) _
    p₁ hp₁ (hreq.valid relaxed req)
  obtain ⟨q, hend, hq⟩ := exec_end relaxed (req.requestLine ++ octets "\r\n" ++
    (headLines req).flatMap fun line => line.bytes ++ [13, 10]) after _ p₂ hp₂
  refine ⟨q, ?_, hq⟩
  have hall := Lib.Reads.trans _ [] _ _ p p₁ p₂ hstart hlines ([13, 10] ++ after)
  have hhead : head req = req.requestLine ++ octets "\r\n" ++
      ((headLines req).flatMap fun line => line.bytes ++ [13, 10]) ++ [13, 10] := by
    rw [head, dumpLines_headLines, List.flatMap_map, break_octets]
  rw [hhead, List.append_assoc _ [13, 10] after]
  exact hall.trans hend

end

/-- `found` has what `req` was dumped with: its own fields, the generated headers, and under every
other name what the map of `req` has there. -/
structure Received (req found : HttpRequest) : Prop where
  method : found.method = req.method
  version : found.version = req.version
  path : found.path = req.path
  query : found.query = req.query
  fragment : found.fragment = req.fragment
  connection : found.headers.find (octets "connection") = some (connectionValue req)
  length : req.body ≠ [] →
    found.headers.find (octets "content-length") = some (octets (toString req.body.length))
  headers : ∀ key, foldKey key ≠ foldKey (octets "connection") →
    (foldKey key = foldKey (octets "content-length") → req.body = []) →
    found.headers.find key = req.headers.find key

theorem foldl_set (lines : List HeaderLine) (data : HttpRequest) :
    lines.foldl HeaderLine.set data = { data with
      headers := (lines.map fun line => (line.name, line.value)).foldl
        (fun found entry => Lib.mapAssign caseInsensitiveLess entry.1 entry.2 found)
        data.headers } := by
  induction lines generalizing data with
  | nil => rfl
  | cons line lines ih =>
    rw [List.foldl_cons, ih, HeaderLine.set, HttpRequest.setHeader, List.map_cons, List.foldl_cons,
      HttpMap.assign]

def beforeLength (req : HttpRequest) : HttpMap :=
  (printed req.headers).foldl
    (fun found entry => Lib.mapAssign caseInsensitiveLess entry.1 entry.2 found)
    (Lib.mapAssign caseInsensitiveLess (octets "connection") (connectionValue req) [])

theorem parsed_headers (req : HttpRequest) : (parsed req).headers =
    if req.body = [] then beforeLength req
    else Lib.mapAssign caseInsensitiveLess (octets "content-length")
      (octets (toString req.body.length)) (beforeLength req) := by
  have hlines : ((printed req.headers).map fun i => (⟨i.1, [], i.2⟩ : HeaderLine)).map
      (fun line => (line.name, line.value)) = printed req.headers := by
    rw [List.map_map]
    exact List.map_id _
  rw [parsed, foldl_set, headLines, List.map_append, List.map_cons, hlines]
  split
  · rw [List.map_nil, List.append_nil]
    rfl
  · rw [List.foldl_append]
    rfl

section
variable (req : HttpRequest) (hordered : Lib.Ordered foldKey req.headers)
include hordered

theorem find_beforeLength :
    (beforeLength req).find (octets "connection") = some (connectionValue req) ∧
    ∀ key, foldKey key ≠ foldKey (octets "connection") →
      (beforeLength req).find key = req.headers.find key := by
  have hprinted : Lib.Ordered foldKey (printed req.headers) := hordered.sublist List.filter_sublist
  constructor
  · rw [HttpMap.find_eq, beforeLength, caseInsensitiveLess_folds.contents_foldl _ _ hprinted,
      contents_printed_connection, caseInsensitiveLess_folds.contents_mapAssign_same]
    rfl
  · intro key hother
    rw [HttpMap.find_eq, HttpMap.find_eq, beforeLength,
      caseInsensitiveLess_folds.contents_foldl _ _ hprinted, contents_printed _ _ hother,
      caseInsensitiveLess_folds.contents_mapAssign_other _ _ _ _ hother]
    exact Option.or_none

theorem parsed_received : Received req (parsed req) := by
  obtain ⟨hconnection, hother⟩ := find_beforeLength req hordered
  have hlonger (key : List UInt8) (hkey : foldKey key ≠ foldKey (octets "content-length")) :
      (parsed req).headers.find key = (beforeLength req).find key := by
    rw [parsed_headers]
    split
    · rfl
    · rw [HttpMap.find_eq, HttpMap.find_eq,
        caseInsensitiveLess_folds.contents_mapAssign_other _ _ _ _ hkey]
  have hfields : { parsed req with headers := [] } = { started req with headers := [] } := by
    rw [parsed, foldl_set]
  refine ⟨congrArg (·.method) hfields, congrArg (·.version) hfields, congrArg (·.path) hfields,
    congrArg (·.query) hfields, congrArg (·.fragment) hfields, ?_, ?_, ?_⟩
  · rw [hlonger _ (by decide)]
    exact hconnection
  · intro hbody
    rw [parsed_headers, if_neg hbody, HttpMap.find_eq,
      caseInsensitiveLess_folds.contents_mapAssign_same]
  · intro key hkey hlength
    by_cases hsame : foldKey key = foldKey (octets "content-length")
    · rw [parsed_headers, if_pos (hlength hsame)]
      exact hother key hkey
    · rw [hlonger key hsame]
      exact hother key hkey

end

/-- A new parser takes a dump for a whole request, of which the body is left, and has what the
request was dumped with. -/
theorem dump_parsed (relaxed : Bool) (req : HttpRequest) (hreq : Dumpable relaxed req)
    (hordered : Lib.Ordered foldKey req.headers) :
    ∃ p nread, (new (machine relaxed)).execute (machine relaxed) req.dump =
        .ok (p, nread, req.body) ∧
      p.isFinished (machine relaxed) = true ∧ p.hasError = false ∧ Received req p.data := by
  have hdump : req.dump = head req ++ req.body := rfl
  have hsome : req.dump ≠ [] := by
    rw [hdump, head, break_octets]
    simp
  obtain ⟨p, hexec, hp⟩ := exec_head relaxed req hreq
    ((new (machine relaxed)).reset (head req ++ req.body).length) ⟨rfl, rfl, rfl⟩ req.body
  have hexecute := execute_of_exec (machine relaxed) (new (machine relaxed)) p req.dump
    (head req).length hsome rfl hexec
  rw [hdump, List.drop_left, ← hdump] at hexecute
  refine ⟨p, _, hexecute, ?_, ?_, ?_⟩
  · rw [isFinished, hp.cs]
    rfl
  · rw [hasError, hp.cs, hp.error]
    rfl
  · rw [hp.data]
    exact parsed_received req hordered

def putRequest : HttpRequest :=
  { HttpRequest.new with
    method := .PUT
    path := octets "/a%20b/c"
    query := octets "x=1&y=?"
    fragment := octets "top"
    headers := [(octets "Host", octets "localhost"), (octets "X-Note", octets "a: b")]
    body := octets "abc" }

theorem putRequest_dumpable : Dumpable false putRequest where
  method := by decide
  version := .inl rfl
  path := ⟨octets "a%20b/c", rfl, by decide, by decide +kernel⟩
  query := by decide +kernel
  fragment := by decide +kernel
  headers := by decide +kernel

theorem putRequest_ordered : Lib.Ordered foldKey putRequest.headers := by
  refine List.pairwise_pair.mpr ?_
  decide +kernel

theorem dump_parsed_put : ∃ p nread,
    (new (machine false)).execute (machine false) putRequest.dump = .ok (p, nread, octets "abc") ∧
      p.isFinished (machine false) = true ∧ p.hasError = false ∧ Received putRequest p.data :=
  dump_parsed false putRequest putRequest_dumpable putRequest_ordered

end Http11
end Sylar
