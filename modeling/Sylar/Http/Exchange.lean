import Sylar.Http.Printed
import Sylar.Http.RoundTrip

/-! Dumped requests on a keep-alive connection: the head of a dump is one that the session can read,
and the requests come out as they went in. -/
namespace Sylar
namespace Http11
open HttpRequestParser HttpSession

def fieldCovers : FieldSeen → FieldSeen → Bool
  | .closed, _ => true
  | .opened, known => known != .closed
  | .unseen, known => known == .unseen

def covers (seen known : Seen) : Bool :=
  (seen.mark || !known.mark) && fieldCovers seen.field known.field && (seen.query || !known.query)

def seenAt (cs : Nat) : Seen where
  mark := cs != 1
  field := if cs = 14 ∨ cs = 18 ∨ cs = 348 then .opened
    else if cs = 15 ∨ cs = 16 then .closed
    else .unseen
  query := inQuery cs

theorem step_covers : ∀ (action : ParserAction) (seen known known' : Seen),
    covers seen known = true → known.step action = some known' →
      ∃ seen', seen.step action = some seen' ∧ covers seen' known' = true := by
  rintro action ⟨mark, field, query⟩ ⟨mark', field', query'⟩ known' hcovers hstep
  cases action <;> cases field <;> cases field' <;> cases mark <;> cases mark' <;> cases query <;>
    cases query' <;>
    first
    | (cases hcovers; done)
    | (cases hstep; done)
    | (cases hstep; exact ⟨_, rfl, rfl⟩)

theorem steps_covers (actions : List ParserAction) (seen known known' : Seen)
    (hcovers : covers seen known = true) (hsteps : known.steps actions = some known') :
    ∃ seen', seen.steps actions = some seen' ∧ covers seen' known' = true := by
  induction actions generalizing seen known with
  | nil =>
    cases hsteps
    exact ⟨seen, rfl, hcovers⟩
  | cons action actions ih =>
    rw [Seen.steps, List.foldlM_cons] at hsteps
    obtain ⟨mid, hmid, hrest⟩ := Option.bind_eq_some_iff.mp hsteps
    obtain ⟨seen₁, hseen₁, hcovers₁⟩ := step_covers action seen known mid hcovers hmid
    obtain ⟨seen', hseen', hcovers'⟩ := ih seen₁ mid hcovers₁ hrest
    refine ⟨seen', ?_, hcovers'⟩
    rw [Seen.steps, List.foldlM_cons, hseen₁]
    exact hseen'

def jumpSeen (cs : Nat) (label : Label) : Bool :=
  match (seenAt cs).steps label.actions with
  | none => false
  | some seen => covers seen (seenAt label.target)

theorem jumps_seen (relaxed : Bool) :
    ((cases relaxed).zipIdx.all fun entry => entry.1.all fun jump =>
      jumpSeen entry.2 jump.2) = true := by
  cases relaxed <;> decide +kernel

theorem covers_trans (seen mid known : Seen) (hone : covers seen mid = true)
    (htwo : covers mid known = true) : covers seen known = true := by
  obtain ⟨mark, field, query⟩ := seen
  obtain ⟨mark₁, field₁, query₁⟩ := mid
  obtain ⟨mark₂, field₂, query₂⟩ := known
  revert hone htwo
  cases mark <;> cases field <;> cases query <;> cases mark₁ <;> cases field₁ <;> cases query₁ <;>
    cases mark₂ <;> cases field₂ <;> cases query₂ <;> decide

theorem wholeIn_of_finishes (relaxed : Bool) (cs : Nat) (seen : Seen) (bytes : List UInt8)
    (hseen : covers seen (seenAt cs) = true)
    (hends : (machine relaxed).finishesAtEnd cs bytes = true) :
    ∃ last, (machine relaxed).wholeIn cs seen bytes = some last := by
  induction bytes generalizing cs seen with
  | nil => exact ⟨cs, rfl⟩
  | cons c rest ih =>
    rw [Machine.finishesAtEnd] at hends
    split at hends
    · cases hends
    · rename_i target actions hnext
      obtain ⟨label, hgoto, heq⟩ := Option.map_eq_some_iff.mp hnext
      cases heq
      obtain ⟨-, -, htest⟩ := Lib.of_jump (cases relaxed) (fun cs _ label => jumpSeen cs label)
        (jumps_seen relaxed) cs c label hgoto
      dsimp only [jumpSeen] at htest
      split at htest
      · cases htest
      · rename_i known hknown
        obtain ⟨seen', hsteps, hcovers⟩ := steps_covers label.actions seen _ known hseen hknown
        rw [Machine.wholeIn, hnext]
        dsimp only
        rw [hsteps]
        dsimp only
        split at hends
        · cases List.isEmpty_iff.mp hends
          exact ⟨label.target, rfl⟩
        · exact ih label.target seen' (covers_trans _ _ _ hcovers htest) hends

theorem finishesAtEnd_of_exec (relaxed : Bool) (buffer rest : List UInt8) (fpc cs last : Nat)
    (p q : HttpRequestParser Nat) (hcs : p.parser.cs = some cs) (hlive : cs < 348)
    (hexec : exec (machine relaxed) buffer fpc rest p = .ok (q, fpc + rest.length))
    (hlast : q.parser.cs = some last) (hfinal : (machine relaxed).final last = true) :
    (machine relaxed).finishesAtEnd cs rest = true := by
  induction rest generalizing fpc cs p with
  | nil =>
    cases hexec
    rw [hcs] at hlast
    cases hlast
    exact absurd (Nat.ble_eq.mp hfinal) (Nat.not_le_of_lt hlive)
  | cons c rest ih =>
    simp only [exec, hcs] at hexec
    cases hnext : (machine relaxed).next cs c with
    | none =>
      rw [hnext] at hexec
      cases hexec
    | some found =>
      obtain ⟨target, actions⟩ := found
      rw [hnext] at hexec
      obtain ⟨p', -, hloop⟩ := Lib.of_bind_ok _ _ _ hexec
      simp only [Machine.finishesAtEnd, hnext]
      split at hloop
      · rename_i hstop
        rw [if_pos hstop]
        cases rest with
        | nil => rfl
        | cons d rest =>
          have hends := congrArg Prod.snd (Except.ok.inj hloop)
          simp only [List.length_cons] at hends
          omega
      · rename_i hgoes
        rw [if_neg hgoes]
        have hlive' : target < 348 := Nat.lt_of_not_le fun hle => hgoes (Nat.ble_eq.mpr hle)
        refine ih (fpc + 1) target { p' with parser.cs := some target } rfl hlive' ?_
        rw [hloop, List.length_cons, Nat.add_assoc, Nat.add_comm 1]

/-- `boost::lexical_cast` reads a number that was written in decimal. -/
def Reads64 (lexicalCast : List UInt8 → Option UInt64) : Prop :=
  ∀ n < 2 ^ 64, lexicalCast (octets (toString n)) = some (.ofNat n)

/-- A dump with its own content length, or none, or one that says zero. -/
structure Sendable (relaxed : Bool) (lexicalCast : List UInt8 → Option UInt64) (req : HttpRequest) :
    Prop where
  dumpable : Dumpable relaxed req
  ordered : Lib.Ordered foldKey req.headers
  announced : req.body = [] → req.headers.getAs lexicalCast (octets "content-length") 0 = 0

def message (req : HttpRequest) : Message where
  head := head req
  body := req.body
  request := (parsed req).setBody req.body

theorem wellFormed_message (relaxed : Bool) (lexicalCast : List UInt8 → Option UInt64)
    (hcast : Reads64 lexicalCast) (req : HttpRequest) (hreq : Sendable relaxed lexicalCast req)
    (hshort : req.body.length < 2 ^ 64) :
    (message req).WellFormed (machine relaxed) lexicalCast := by
  have hsome : head req ≠ [] := by
    rw [head, break_octets]
    simp
  obtain ⟨p, hexec, hp⟩ := exec_head relaxed req hreq.dumpable
    ((new (machine relaxed)).reset (head req).length) ⟨rfl, rfl, rfl⟩ []
  rw [List.append_nil] at hexec
  have hends : (machine relaxed).IsHead (head req) := by
    refine finishesAtEnd_of_exec relaxed (head req) (head req) 0 1 348
      ((new (machine relaxed)).reset (head req).length) p rfl (by decide) ?_ hp.cs rfl
    rw [hexec, Nat.zero_add]
  refine ⟨hends, ?_, p, ?_, ?_, ?_, ?_⟩
  · obtain ⟨last, hlast⟩ := wholeIn_of_finishes relaxed 1 .nothing (head req) (by decide) hends
    show (machine relaxed).wholeFrom 1 [head req] = true
    rw [Machine.wholeFrom, hlast]
    rfl
  · rw [message, execute_of_exec (machine relaxed) _ p (head req) _ hsome rfl hexec, List.drop_length]
  · rw [hasError, hp.cs, hp.error]
    rfl
  · have hreceived := parsed_received req hreq.ordered
    rw [getContentLength, HttpMap.getAs, hp.data]
    by_cases hbody : req.body = []
    · have hannounced := hreq.announced hbody
      rw [HttpMap.getAs, ← hreceived.headers _ (by decide) fun _ => hbody] at hannounced
      rw [hannounced, message, hbody]
      rfl
    · rw [hreceived.length hbody]
      dsimp only
      rw [hcast _ hshort]
      exact Nat.mod_eq_of_lt hshort
  · rw [hp.data]
    rfl

theorem dump_ne_nil (req : HttpRequest) : req.dump ≠ [] := by
  rw [HttpRequest.dump, break_octets]
  simp

theorem recvRequest_dump (relaxed : Bool) (lexicalCast : List UInt8 → Option UInt64)
    (hcast : Reads64 lexicalCast) (buffSize : Nat) (hbuff : buffSize < 2 ^ 31) (req : HttpRequest)
    (hreq : Sendable relaxed lexicalCast req) (hlength : req.dump.length ≤ min buffSize maxRead)
    (others : List (List UInt8)) (hothers : ∀ seg ∈ others, seg ≠ []) :
    ∃ found, recvRequest (machine relaxed) lexicalCast buffSize
        ((req.dump :: others).map .bytes) = .ok (some found, others.map .bytes) ∧
      Received req found ∧ found.body = req.body := by
  have hwhole : req.dump.length = (head req).length + req.body.length :=
    List.length_append
  have hpos : 0 < (head req).length := by
    rw [head, break_octets, List.length_append]
    exact Nat.add_pos_right _ (by decide)
  have hwell := wellFormed_message relaxed lexicalCast hcast req hreq (by omega)
  have hsegs : ∀ seg ∈ req.dump :: others, seg ≠ [] :=
    List.forall_mem_cons.mpr ⟨dump_ne_nil req, hothers⟩
  have hsize : ((message req).body.length : Int) ≠ toInt32 buffSize := by
    rw [toInt32, BitVec.toInt_ofNat', Int.bmod_eq_of_le (by omega) (by omega)]
    show (req.body.length : Int) ≠ buffSize
    omega
  have hrecv := recvRequest_own (machine relaxed) lexicalCast buffSize (message req) hwell
    (req.dump :: others) hsegs (List.take_of_length_le hlength) hsize
  have hskip : skip (message req).bytes.length (req.dump :: others) = others := by
    show skip req.dump.length (req.dump :: others) = _
    rw [skip, if_neg (Nat.lt_irrefl _), Nat.sub_self, skip_zero others hothers]
  rw [hskip] at hrecv
  refine ⟨(parsed req).setBody req.body, hrecv, ?_, rfl⟩
  obtain ⟨hmethod, hversion, hpath, hquery, hfragment, hconnection, hlen, hheaders⟩ :=
    parsed_received req hreq.ordered
  exact ⟨hmethod, hversion, hpath, hquery, hfragment, hconnection, hlen, hheaders⟩

/-- Dumped requests that each come in a read of their own are received in their order with every
part that they were dumped with, and the connection is empty then. -/
theorem dumps_received (relaxed : Bool) (lexicalCast : List UInt8 → Option UInt64)
    (hcast : Reads64 lexicalCast) (buffSize : Nat) (hbuff : buffSize < 2 ^ 31)
    (reqs : List HttpRequest) (hreqs : ∀ req ∈ reqs, Sendable relaxed lexicalCast req)
    (hfits : ∀ req ∈ reqs, req.dump.length ≤ min buffSize maxRead) :
    ∃ found, handleClient (machine relaxed) lexicalCast buffSize reqs.length
        (reqs.map fun req => .bytes req.dump) = .ok (found, []) ∧
      List.Forall₂ (fun req other => Received req other ∧ other.body = req.body) reqs found := by
  induction reqs with
  | nil => exact ⟨[], rfl, .nil⟩
  | cons req reqs ih =>
    obtain ⟨found, hclient, hfound⟩ := ih
      (fun other hother => hreqs other (List.mem_cons_of_mem req hother))
      (fun other hother => hfits other (List.mem_cons_of_mem req hother))
    have hothers : ∀ seg ∈ reqs.map HttpRequest.dump, seg ≠ [] := by
      intro seg hseg
      obtain ⟨other, -, rfl⟩ := List.mem_map.mp hseg
      exact dump_ne_nil other
    obtain ⟨first, hrecv, hfirst⟩ := recvRequest_dump relaxed lexicalCast hcast buffSize hbuff req
      (hreqs req List.mem_cons_self) (hfits req List.mem_cons_self) (reqs.map HttpRequest.dump) hothers
    rw [List.map_cons, List.map_map] at hrecv
    refine ⟨first :: found, ?_, .cons hfirst hfound⟩
    have hall := handleClient_succ (machine relaxed) lexicalCast buffSize reqs.length _ _ _ hrecv
    refine hall.trans ?_
    show Except.map _ (handleClient (machine relaxed) lexicalCast buffSize reqs.length
      (reqs.map fun req => .bytes req.dump)) = _
    rw [hclient]
    rfl

theorem reads64_lexicalCastDigits : Reads64 lexicalCastDigits := by
  intro n hn
  obtain ⟨hsome, hrange⟩ := octets_toString n
  have hall : ((octets (toString n)).all fun c => decide (48 ≤ c) && decide (c ≤ 57)) = true := by
    rw [List.all_eq_true]
    intro c hc
    simpa using hrange c hc
  have hvalue : (octets (toString n)).foldl (fun n c => 10 * n + (c.toNat - 48)) 0 = n := by
    exact foldl_toString n
  rw [lexicalCastDigits, if_pos ⟨hsome, hall⟩]
  dsimp only
  rw [hvalue, if_pos hn]

theorem sendable_two : ∀ req ∈ [putRequest, HttpRequest.new], Sendable false lexicalCastDigits req := by
  intro req hreq
  rcases List.mem_pair.mp hreq with rfl | rfl
  · exact ⟨putRequest_dumpable, putRequest_ordered, fun hnone => absurd hnone (by decide)⟩
  · refine ⟨⟨by decide, .inl rfl, ⟨[], by decide, by decide, rfl⟩, rfl, rfl, ?_⟩, .nil, fun _ => rfl⟩
    intro i hi
    cases hi

theorem dumps_received_two : ∃ found,
    handleClient (machine false) lexicalCastDigits 4096 2 [.bytes putRequest.dump,
        .bytes HttpRequest.new.dump] = .ok (found, []) ∧
      List.Forall₂ (fun req other => Received req other ∧ other.body = req.body)
        [putRequest, HttpRequest.new] found :=
  dumps_received false lexicalCastDigits reads64_lexicalCastDigits 4096 (by decide)
    [putRequest, HttpRequest.new] sendable_two (by decide +kernel)

end Http11
end Sylar
