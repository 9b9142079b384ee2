import Sylar.Http.ResponseHead

/-! A response that is dumped and parsed again. -/
namespace Sylar
namespace Httpclient
open HttpResponseParser

def reasonText (rsp : HttpResponse) : List UInt8 :=
  if rsp.reason = [] then octets (httpStatusToString rsp.status) else rsp.reason

structure Dumpable (rsp : HttpResponse) : Prop where
  version : rsp.version = 0x11 ∨ rsp.version = 0x10
  status : rsp.status < 2 ^ 31
  reason : ∀ c ∈ rsp.reason, valueByte.has c = true
  headers : ∀ entry ∈ printed rsp.headers, IsLine entry

/-- `found` has what `rsp` was dumped with: its own fields, the generated headers, and under every
other name what the map of `rsp` has there. -/
structure Received (rsp found : HttpResponse) : Prop where
  version : found.version = rsp.version
  status : found.status = rsp.status
  reason : found.reason = reasonText rsp
  connection : found.headers.find (octets "connection") =
    some (octets (if rsp.close then "close" else "keep-alive"))
  length : rsp.body ≠ [] →
    found.headers.find (octets "content-length") = some (octets (toString rsp.body.length))
  headers : ∀ key, foldKey key ≠ foldKey (octets "connection") →
    (foldKey key = foldKey (octets "content-length") → rsp.body = []) →
    found.headers.find key = rsp.headers.find key

theorem reasonText_ok (rsp : HttpResponse) (hrsp : Dumpable rsp) :
    reasonText rsp ≠ [] ∧ ∀ c ∈ reasonText rsp, valueByte.has c = true := by
  rw [reasonText]
  split
  · have htable : ∀ entry ∈ httpStatusMap, octets entry.2 ≠ [] ∧
        ∀ c ∈ octets entry.2, valueByte.has c = true := by
      decide +kernel
    rw [httpStatusToString]
    cases hfound : httpStatusMap.lookup rsp.status with
    | none => decide +kernel
    | some text =>
      obtain ⟨before, after, hmap, -⟩ := List.lookup_eq_some_iff.mp hfound
      apply htable (rsp.status, text)
      rw [hmap]
      exact List.mem_append_right before List.mem_cons_self
  · exact ⟨‹_›, hrsp.reason⟩

def generated (rsp : HttpResponse) : List (List UInt8 × List UInt8) :=
  (octets "connection", octets (if rsp.close then "close" else "keep-alive")) ::
    (if rsp.body = [] then [] else [(octets "content-length", octets (toString rsp.body.length))])

theorem dumpHeaders_eq (rsp : HttpResponse) :
    rsp.dumpHeaders = printed rsp.headers ++ generated rsp := by
  rw [HttpResponse.dumpHeaders, List.append_assoc, generated]
  rfl

theorem generated_ok (rsp : HttpResponse) :
    ∀ entry ∈ generated rsp, IsLine entry ∧ entry.2 ≠ [] := by
  have hnames : IsName (octets "connection") ∧ IsName (octets "content-length") := by
    refine ⟨⟨by decide, ?_⟩, by decide, ?_⟩ <;> decide +kernel
  have hvalues : ∀ text ∈ ["close", "keep-alive"], octets text ≠ [] ∧
      (∀ c ∈ octets text, valueByte.has c = true) ∧
      ∀ c ∈ (octets text).head?, leadByte.has c = true := by
    decide +kernel
  intro entry hentry
  rw [generated, List.mem_cons] at hentry
  rcases hentry with rfl | hlast
  · obtain ⟨hsome, hbytes, hlead⟩ := hvalues (if rsp.close then "close" else "keep-alive")
      (by split <;> simp)
    exact ⟨⟨hnames.1, hbytes, hlead⟩, hsome⟩
  · split at hlast
    · cases hlast
    · cases List.mem_singleton.mp hlast
      exact ⟨⟨hnames.2, toString_spells _ _ (by decide) (by decide) _⟩, (octets_toString _).1⟩

theorem dumpHeaders_last (rsp : HttpResponse) (hrsp : Dumpable rsp) :
    ∃ others last, rsp.dumpHeaders = others ++ [last] ∧ (∀ entry ∈ others, IsLine entry) ∧
      IsLine last ∧ last.2 ≠ [] := by
  have hsome : generated rsp ≠ [] := List.cons_ne_nil _ _
  have hgenerated := generated_ok rsp
  refine ⟨printed rsp.headers ++ (generated rsp).dropLast, (generated rsp).getLast hsome, ?_, ?_,
    ?_⟩
  · rw [dumpHeaders_eq, List.append_assoc, List.dropLast_append_getLast]
  · intro entry hentry
    rcases List.mem_append.mp hentry with hprinted | hdropped
    · exact hrsp.headers entry hprinted
    · exact (hgenerated entry (List.dropLast_subset _ hdropped)).1
  · exact hgenerated _ (List.getLast_mem hsome)

def head (rsp : HttpResponse) : List UInt8 :=
  rsp.statusLine ++ [13, 10] ++ rsp.dumpHeaders.flatMap lineOf ++ [13, 10]

theorem dump_head (rsp : HttpResponse) : rsp.dump = head rsp ++ rsp.body := by
  have hbreak : octets "\r\n" = [13, 10] := by decide
  have hcolon : octets ": " = [58, 32] := by decide
  rw [rsp.dump_eq, List.flatMap_map, hbreak, hcolon]
  rfl

def started (rsp : HttpResponse) : HttpResponse :=
  { HttpResponse.new 0x11 true with
    version := rsp.version
    status := rsp.status
    reason := reasonText rsp }

def parsed (rsp : HttpResponse) : HttpResponse :=
  rsp.dumpHeaders.foldl setEntry (started rsp)

theorem statusLine_text (rsp : HttpResponse) (hrsp : Dumpable rsp) :
    ∃ text, (rsp.version = 0x11 ∧ text = octets "HTTP/1.1" ∨
        rsp.version = 0x10 ∧ text = octets "HTTP/1.0") ∧
      rsp.statusLine =
        text ++ [32] ++ (octets (toString rsp.status) ++ [32]) ++ reasonText rsp := by
  have hspace : octets " " = [32] := by decide
  have hnew : octets ("HTTP/" ++ toString ((0x11 : UInt8) >>> 4).toNat ++ "." ++
      toString ((0x11 : UInt8) &&& 0x0F).toNat) = octets "HTTP/1.1" := by
    decide +kernel
  have hold : octets ("HTTP/" ++ toString ((0x10 : UInt8) >>> 4).toNat ++ "." ++
      toString ((0x10 : UInt8) &&& 0x0F).toNat) = octets "HTTP/1.0" := by
    decide +kernel
  rw [HttpResponse.statusLine, octets_append, octets_append, octets_append, hspace]
  rcases hrsp.version with hversion | hversion
  · refine ⟨octets "HTTP/1.1", .inl ⟨hversion, rfl⟩, ?_⟩
    rw [hversion, hnew, List.append_assoc (octets "HTTP/1.1" ++ [32])]
    rfl
  · refine ⟨octets "HTTP/1.0", .inr ⟨hversion, rfl⟩, ?_⟩
    rw [hversion, hold, List.append_assoc (octets "HTTP/1.0" ++ [32])]
    rfl

theorem reads_statusLine (rsp : HttpResponse) (hrsp : Dumpable rsp) (p : HttpResponseParser Nat)
    (hp : Stands [1] (.new 0x11 true) p) :
    ∃ q, Reads [] (rsp.statusLine ++ [13, 10]) p q ∧ Stands headStates (started rsp) q := by
  obtain ⟨text, hversion, hline⟩ := statusLine_text rsp hrsp
  obtain ⟨hsome, hbytes⟩ := reasonText_ok rsp hrsp
  obtain ⟨p₁, hfirst, hp₁⟩ := reads_version [] _ p rsp.version text hversion hp
  obtain ⟨p₂, hsecond, hp₂⟩ := reads_status ([] ++ (text ++ [32])) _ p₁ rsp.status hrsp.status hp₁
  obtain ⟨q, hthird, hq⟩ := reads_reason
    ([] ++ (text ++ [32]) ++ (octets (toString rsp.status) ++ [32])) _ p₂ (reasonText rsp) hsome
    hbytes hp₂
  refine ⟨q, ?_, hq⟩
  have hall := Lib.Reads.trans _ [] _ _ p p₁ q hfirst (Lib.Reads.trans _ _ _ _ p₁ p₂ q hsecond hthird)
  rw [hline]
  simpa only [List.append_assoc] using hall

theorem exec_head (rsp : HttpResponse) (hrsp : Dumpable rsp) (p : HttpResponseParser Nat)
    (hp : Stands [1] (.new 0x11 true) p) (after : List UInt8) :
    ∃ q, exec machine (head rsp ++ after) 0 (head rsp ++ after) p =
        .ok (q, (head rsp).length) ∧
      q.parser.cs = some 120 ∧ q.data = parsed rsp ∧ q.error = 0 := by
  obtain ⟨others, last, hlines, hothers, hlast, hsome⟩ := dumpHeaders_last rsp hrsp
  obtain ⟨p₁, hstart, hp₁⟩ := reads_statusLine rsp hrsp p hp
  obtain ⟨p₂, hmiddle, hp₂⟩ := Lib.Reads.flatMap (exec machine) lineOf (Stands lineStates) setEntry
    others (fun entry hentry before data p hp => reads_line before entry data p
      (hothers entry hentry) hp)
    ([] ++ (rsp.statusLine ++ [13, 10])) (started rsp) p₁ hp₁.line
  obtain ⟨p₃, hend, hp₃⟩ := reads_whole_line _ last _ p₂ hlast hp₂ hsome
  have hall := Lib.Reads.trans _ [] _ _ p p₁ p₃ hstart (Lib.Reads.trans _ _ _ _ p₁ p₂ p₃ hmiddle hend)
  have hhead : head rsp = rsp.statusLine ++ [13, 10] ++ (others.flatMap lineOf ++ lineOf last) ++
      [13, 10] := by
    rw [head, hlines, List.flatMap_append, List.flatMap_singleton]
  have hdata : setEntry (others.foldl setEntry (started rsp)) last = parsed rsp := by
    rw [parsed, hlines, List.foldl_append]
    rfl
  rw [hdata] at hp₃
  obtain ⟨q, hexec, hcs, hparsed, herror⟩ := exec_end
    ([] ++ (rsp.statusLine ++ [13, 10] ++ (others.flatMap lineOf ++ lineOf last))) after _ p₃ hp₃
  refine ⟨q, ?_, hcs, hparsed, herror⟩
  rw [hhead, List.append_assoc _ [13, 10] after]
  exact (hall ([13, 10] ++ after)).trans hexec

theorem foldl_setEntry (entries : List (List UInt8 × List UInt8)) (data : HttpResponse) :
    entries.foldl setEntry data = { data with
      headers := entries.foldl
        (fun found entry => Lib.mapAssign caseInsensitiveLess entry.1 entry.2 found)
        data.headers } := by
  induction entries generalizing data with
  | nil => rfl
  | cons entry entries ih =>
    rw [List.foldl_cons, ih, setEntry, HttpResponse.setHeader, List.foldl_cons, HttpMap.assign]

theorem contents_generated (rsp : HttpResponse) (found : HttpMap) (key : List UInt8)
    (hlength : foldKey key = foldKey (octets "content-length") → rsp.body = []) :
    Lib.contents foldKey ((generated rsp).foldl
        (fun found entry => Lib.mapAssign caseInsensitiveLess entry.1 entry.2 found) found)
        (foldKey key) =
      if foldKey key = foldKey (octets "connection") then
        some (octets (if rsp.close then "close" else "keep-alive"))
      else Lib.contents foldKey found (foldKey key) := by
  have hfirst : Lib.contents foldKey (Lib.mapAssign caseInsensitiveLess (octets "connection")
      (octets (if rsp.close then "close" else "keep-alive")) found) (foldKey key) =
      if foldKey key = foldKey (octets "connection") then
        some (octets (if rsp.close then "close" else "keep-alive"))
      else Lib.contents foldKey found (foldKey key) := by
    by_cases hsame : foldKey key = foldKey (octets "connection")
    · rw [if_pos hsame, hsame, caseInsensitiveLess_folds.contents_mapAssign_same]
    · rw [if_neg hsame, caseInsensitiveLess_folds.contents_mapAssign_other _ _ _ _ hsame]
  rw [generated, List.foldl_cons]
  by_cases hbody : rsp.body = []
  · rw [if_pos hbody]
    exact hfirst
  · rw [if_neg hbody, List.foldl_cons, List.foldl_nil,
      caseInsensitiveLess_folds.contents_mapAssign_other _ _ _ _ fun heq => hbody (hlength heq)]
    exact hfirst

theorem parsed_received (rsp : HttpResponse) (hordered : Lib.Ordered foldKey rsp.headers) :
    Received rsp (parsed rsp) := by
  have hprinted : Lib.Ordered foldKey (printed rsp.headers) := hordered.sublist List.filter_sublist
  have hfields : parsed rsp = { started rsp with headers := (parsed rsp).headers } := by
    rw [parsed, foldl_setEntry]
  have hheaders : (parsed rsp).headers = (generated rsp).foldl
      (fun found entry => Lib.mapAssign caseInsensitiveLess entry.1 entry.2 found)
      ((printed rsp.headers).foldl
        (fun found entry => Lib.mapAssign caseInsensitiveLess entry.1 entry.2 found) []) := by
    rw [parsed, foldl_setEntry, dumpHeaders_eq, List.foldl_append]
    rfl
  constructor
  · rw [hfields]
    rfl
  · rw [hfields]
    rfl
  · rw [hfields]
    rfl
  · rw [HttpMap.find_eq, hheaders, contents_generated _ _ _ (fun heq => absurd heq (by decide)),
      if_pos rfl]
  · intro hbody
    rw [HttpMap.find_eq, hheaders, generated, if_neg hbody]
    exact caseInsensitiveLess_folds.contents_mapAssign_same _ _ _
  · intro key hother hlength
    rw [HttpMap.find_eq, HttpMap.find_eq, hheaders, contents_generated _ _ _ hlength, if_neg hother,
      caseInsensitiveLess_folds.contents_foldl _ _ hprinted, contents_printed _ _ hother]
    exact Option.or_none

theorem execute_dump (status : Int) (rsp : HttpResponse) (hrsp : Dumpable rsp)
    (hshort : rsp.dump.length < 2 ^ 31) :
    ∃ p offset moved, (new machine status).execute machine rsp.dump = .ok (p, offset, moved) ∧
      offset + rsp.body.length = rsp.dump.length ∧
      moved.take (rsp.dump.length - offset) = rsp.body ∧
      p.isFinished 120 = true ∧ p.hasError = false ∧ p.data = parsed rsp := by
  obtain ⟨q, hexec, hcs, hdata, herror⟩ := exec_head rsp hrsp (new machine status)
    ⟨⟨1, List.mem_cons_self, rfl⟩, rfl, rfl⟩ rsp.body
  rw [← dump_head] at hexec
  have hpos : 0 < rsp.dump.length := by
    simp only [dump_head, head, List.length_append, List.length_cons]
    omega
  obtain ⟨moved, hexecute, hmoved⟩ :=
    execute_of_exec machine status q rsp.dump _ hpos hshort hexec
  refine ⟨{ q with parser.nread := (head rsp).length }, (head rsp).length, moved, hexecute, ?_, ?_,
    ?_, ?_, hdata⟩
  · rw [dump_head, List.length_append]
  · rw [hmoved, dump_head, List.drop_left]
  · rw [isFinished, hcs]
    rfl
  · rw [hasError, hcs, herror]
    rfl

/-- A new client parser takes a dump for a whole response: it stops behind the head, moves the body
to the front, and has what the response was dumped with. -/
theorem response_dump_parsed (status : Int) (rsp : HttpResponse) (hrsp : Dumpable rsp)
    (hordered : Lib.Ordered foldKey rsp.headers) (hshort : rsp.dump.length < 2 ^ 31) :
    ∃ p offset moved, (new machine status).execute machine rsp.dump = .ok (p, offset, moved) ∧
      offset + rsp.body.length = rsp.dump.length ∧
      moved.take (rsp.dump.length - offset) = rsp.body ∧
      p.isFinished 120 = true ∧ p.hasError = false ∧ Received rsp p.data := by
  obtain ⟨p, offset, moved, hexecute, hhead, hbody, hfinished, herror, hdata⟩ :=
    execute_dump status rsp hrsp hshort
  refine ⟨p, offset, moved, hexecute, hhead, hbody, hfinished, herror, ?_⟩
  rw [hdata]
  exact parsed_received rsp hordered

def notFoundResponse : HttpResponse :=
  { HttpResponse.new 0x11 false with
    status := 404
    headers := [(octets "Empty", []), (octets "Server", octets "sylar/1.0.0")]
    body := octets "<html></html>" }

theorem notFoundResponse_dumpable : Dumpable notFoundResponse where
  version := .inl rfl
  status := by decide
  reason := fun c hc => absurd hc List.not_mem_nil
  headers := by
    intro entry hentry
    have hentries : printed notFoundResponse.headers =
        [(octets "Empty", []), (octets "Server", octets "sylar/1.0.0")] := by
      decide +kernel
    rw [hentries] at hentry
    rcases List.mem_cons.mp hentry with rfl | hlast
    · exact ⟨⟨by decide, by decide +kernel⟩, fun _ hc => absurd hc List.not_mem_nil, by simp⟩
    · cases List.mem_singleton.mp hlast
      refine ⟨⟨by decide, by decide +kernel⟩, by decide +kernel, ?_⟩
      intro c hc
      cases hc
      decide

theorem response_dump_parsed_not_found :
    ∃ p offset moved, (new machine 0).execute machine notFoundResponse.dump =
        .ok (p, offset, moved) ∧
      offset + (octets "<html></html>").length = notFoundResponse.dump.length ∧
      moved.take (notFoundResponse.dump.length - offset) = octets "<html></html>" ∧
      p.isFinished 120 = true ∧ p.hasError = false ∧ Received notFoundResponse p.data :=
  response_dump_parsed 0 notFoundResponse notFoundResponse_dumpable
    (List.pairwise_pair.mpr (by decide +kernel)) (by decide +kernel)

end Httpclient
end Sylar
