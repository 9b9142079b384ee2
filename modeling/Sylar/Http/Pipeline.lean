import Sylar.Http.Split

/-! Requests that follow each other on a keep-alive connection.

A call of `recvRequest` reads as much as the socket has into a buffer of its own. What it has
read past the end of the request is gone with the buffer, and what it reads of the body by
`readFixSize` goes behind the end of the string. A request is received, and nothing of the
next one lost, when the read that starts with it ends with it. -/
namespace Sylar

structure Message where
  head : List UInt8
  body : List UInt8
  request : HttpRequest
deriving DecidableEq

namespace Message
variable {σ : Type}

def bytes (m : Message) : List UInt8 :=
  m.head ++ m.body

/-- The parser accepts the head, in which every token begins before it ends, and the
content-length is that of the body. -/
structure WellFormed (machine : Machine σ) (lexicalCast : List UInt8 → Option UInt64)
    (m : Message) : Prop where
  isHead : machine.IsHead m.head
  whole : machine.WholeTokens [m.head]
  accepted : ∃ p, (HttpRequestParser.new machine).execute machine m.head =
      .ok (p, m.head.length, []) ∧ p.hasError = false ∧
    (p.getContentLength lexicalCast).toNat = m.body.length ∧ m.request = p.data.setBody m.body

theorem WellFormed.append_ne_nil {machine : Machine σ} {lexicalCast : List UInt8 → Option UInt64}
    {m : Message} (hm : m.WellFormed machine lexicalCast) (more : List UInt8) :
    m.head ++ more ≠ [] := by
  intro hnil
  have hhead := hm.isHead
  rw [(List.append_eq_nil_iff.mp hnil).1] at hhead
  cases hhead

end Message

namespace HttpSession
variable {σ : Type}
open HttpRequestParser

def unread (conn : List Arrival) : List UInt8 :=
  conn.flatMap fun arrival =>
    match arrival with
    | .bytes data => data
    | .error => []

def skip : Nat → List (List UInt8) → List (List UInt8)
  | _, [] => []
  | n, seg :: segs => if n < seg.length then seg.drop n :: segs else skip (n - seg.length) segs

def firstRead (buffSize : Nat) (segs : List (List UInt8)) : List UInt8 :=
  (segs.headD []).take (min buffSize maxRead)

def HeadsInside (buffSize : Nat) : List Message → List (List UInt8) → Prop
  | [], _ => True
  | m :: ms, segs =>
    m.head <+: firstRead buffSize segs ∧ HeadsInside buffSize ms (skip m.bytes.length segs)

/-- Every request is the read that starts with its head; the last condition is about buffers of
2 GiB and more, whose size does not survive the conversion to `int`. -/
def OwnReads (buffSize : Nat) : List Message → List (List UInt8) → Prop
  | [], _ => True
  | m :: ms, segs =>
    firstRead buffSize segs = m.bytes ∧ (m.body.length : Int) ≠ toInt32 buffSize ∧
      OwnReads buffSize ms (skip m.bytes.length segs)

theorem skip_zero (segs : List (List UInt8)) (hsegs : ∀ seg ∈ segs, seg ≠ []) :
    skip 0 segs = segs := by
  cases segs with
  | nil => rfl
  | cons seg segs =>
    have hpos := List.length_pos_iff.mpr (hsegs seg List.mem_cons_self)
    rw [skip, if_pos hpos, List.drop_zero]

theorem flatten_skip (n : Nat) (segs : List (List UInt8)) :
    (skip n segs).flatten = segs.flatten.drop n := by
  induction segs generalizing n with
  | nil => simp [skip]
  | cons seg segs ih =>
    rw [skip, List.flatten_cons]
    split
    · rename_i hlt
      rw [List.flatten_cons, List.drop_append_of_le_length (Nat.le_of_lt hlt)]
    · rename_i hge
      rw [ih, List.drop_append, List.drop_of_length_le (Nat.le_of_not_lt hge), List.nil_append]

theorem skip_ne_nil (n : Nat) (segs : List (List UInt8)) (hsegs : ∀ seg ∈ segs, seg ≠ []) :
    ∀ seg ∈ skip n segs, seg ≠ [] := by
  induction segs generalizing n with
  | nil =>
    intro seg hseg
    cases hseg
  | cons first segs ih =>
    have hrest : ∀ seg ∈ segs, seg ≠ [] := fun seg hseg => hsegs seg (List.mem_cons_of_mem first hseg)
    rw [skip]
    split
    · rename_i hlt
      intro seg hseg
      rcases List.mem_cons.mp hseg with rfl | hmem
      · intro hnil
        have hzero := congrArg List.length hnil
        rw [List.length_drop, List.length_nil] at hzero
        omega
      · exact hrest seg hmem
    · exact ih _ hrest

theorem unread_bytes (segs : List (List UInt8)) : unread (segs.map .bytes) = segs.flatten := by
  induction segs with
  | nil => rfl
  | cons seg segs ih =>
    rw [List.flatten_cons, ← ih]
    rfl

theorem read_firstRead (buffSize : Nat) (segs : List (List UInt8))
    (hsegs : ∀ seg ∈ segs, seg ≠ []) (hsome : firstRead buffSize segs ≠ []) :
    read buffSize (segs.map .bytes) = (some (firstRead buffSize segs),
      (skip (firstRead buffSize segs).length segs).map .bytes) := by
  cases segs with
  | nil => exact absurd List.take_nil hsome
  | cons seg segs =>
    have hrest : ∀ other ∈ segs, other ≠ [] :=
      fun other hother => hsegs other (List.mem_cons_of_mem seg hother)
    by_cases hfits : seg.length ≤ min buffSize maxRead
    · have hfirst : firstRead buffSize (seg :: segs) = seg := List.take_of_length_le hfits
      rw [hfirst, List.map_cons, read, if_pos hfits, skip, if_neg (Nat.lt_irrefl _), Nat.sub_self,
        skip_zero segs hrest]
    · have hfirst : firstRead buffSize (seg :: segs) = seg.take (min buffSize maxRead) := rfl
      have hlength : (seg.take (min buffSize maxRead)).length = min buffSize maxRead :=
        List.length_take_of_le (Nat.le_of_not_le hfits)
      rw [hfirst, hlength, List.map_cons, read, if_neg hfits, skip,
        if_pos (Nat.lt_of_not_le hfits)]
      rfl

theorem firstRead_append (buffSize : Nat) (segs : List (List UInt8)) :
    firstRead buffSize segs ++ (skip (firstRead buffSize segs).length segs).flatten =
      segs.flatten := by
  have htake : firstRead buffSize segs = segs.flatten.take (firstRead buffSize segs).length := by
    cases segs with
    | nil => simp [firstRead]
    | cons seg segs =>
      simp only [firstRead, List.headD_cons, List.length_take, List.flatten_cons]
      rw [List.take_append_of_le_length (Nat.min_le_right _ _), List.take_eq_take_min]
  rw [flatten_skip]
  nth_rewrite 1 [htake]
  exact List.take_append_drop _ _

theorem length_store (body body' data : List UInt8) (offset : Int)
    (hstore : store body offset data = .ok body') : body'.length = body.length := by
  simp only [store] at hstore
  split at hstore
  · cases hstore
  · cases hstore
    simp only [List.length_take, List.length_append, List.length_drop]
    omega

theorem length_readFixLoop (body : List UInt8) (offset : Int) (length : Nat)
    (conn rest : List Arrival) (found : List UInt8)
    (hfound : readFixLoop body offset length conn = .ok (some found, rest)) :
    found.length = body.length := by
  fun_induction readFixLoop body offset length conn with
  | case1 body offset conn =>
    cases hfound
    rfl
  | case2 body offset length conn hlength others hread ih => exact ih hfound
  | case3 => cases hfound
  | case4 body offset length conn hlength data others hread hsome ih =>
    obtain ⟨body', hstore, hrest⟩ := Lib.of_bind_ok _ _ _ hfound
    rw [ih body' hrest]
    exact length_store body body' data offset hstore

theorem length_readFixSize (kept found : List UInt8) (length : Nat) (conn rest : List Arrival)
    (hcall : readFixSize kept length conn = .ok (some found, rest)) :
    found.length = kept.length := by
  obtain ⟨⟨looped, others⟩, hloop, hchecked⟩ := Lib.of_bind_ok _ _ _ hcall
  have hlooped : (if toInt32 length ≤ 0 then none else looped) = some found :=
    congrArg Prod.fst (Except.ok.inj hchecked)
  split at hlooped
  · cases hlooped
  · subst hlooped
    exact length_readFixLoop kept 0 length conn others found hloop

section
variable (machine : Machine σ) (lexicalCast : List UInt8 → Option UInt64) (buffSize : Nat)

theorem execute_head (m : Message) (hm : m.WellFormed machine lexicalCast) (more : List UInt8) :
    ∃ p, (HttpRequestParser.new machine).execute machine (m.head ++ more) =
        .ok (p, m.head.length, more) ∧
      p.hasError = false ∧ p.isFinished machine = true ∧ p.data.body = [] ∧
      (p.getContentLength lexicalCast).toNat = m.body.length ∧
      m.request = p.data.setBody m.body := by
  obtain ⟨p, hexecute, hfine, hlength, hrequest⟩ := hm.accepted
  have hsome : m.head ≠ [] := by simpa using hm.append_ne_nil []
  have hsome' := hm.append_ne_nil more
  obtain ⟨state', hwhole⟩ : ∃ state', machine.wholeIn machine.start .nothing m.head = some state' := by
    have hall := hm.whole
    simp only [Machine.WholeTokens, Machine.wholeFrom] at hall
    split at hall
    · cases hall
    · exact ⟨_, ‹_›⟩
  obtain ⟨hexec, -⟩ := exec_of_execute machine _ p m.head [] _ hsome hexecute
  obtain ⟨u, s, hs, hsame, hu⟩ := exec_last machine [] [] m.head more .nothing
    ((HttpRequestParser.new machine).reset (m.head ++ more).length)
    ((HttpRequestParser.new machine).reset m.head.length) machine.start state' hwhole hm.isHead rfl
    (Agree.start 0 m.head.length _ (.new machine) rfl rfl rfl)
  simp only [List.nil_append, List.length_nil, Nat.zero_add] at hs hu
  rw [hexec] at hs
  cases hs
  obtain ⟨-, last, hlast, hfinal⟩ := exec_finishes machine m.head m.head 0 _ _ p machine.start rfl
    hm.isHead hexec
  have hbody := (exec_executed machine (m.head ++ more) (m.head ++ more) _ 0 _ _ u (Nat.zero_add _)
    (reset_inRange (.new machine) _ (List.length_pos_iff.mpr hsome') rfl) hu).body
  refine ⟨u, ?_, ?_, ?_, hbody, ?_, ?_⟩
  · rw [execute_of_exec machine _ u _ _ hsome' rfl hu, List.drop_left]
  · rw [hasError, hsame.error, hsame.cs]
    exact hfine
  · rw [isFinished, hsame.cs, hlast]
    exact hfinal
  · rw [getContentLength, hsame.data]
    exact hlength
  · rw [hsame.data]
    exact hrequest

theorem recvRequest_message (m : Message) (hm : m.WellFormed machine lexicalCast)
    (segs : List (List UInt8)) (more : List UInt8) (hsegs : ∀ seg ∈ segs, seg ≠ [])
    (hfirst : firstRead buffSize segs = m.head ++ more) :
    ∃ p : HttpRequestParser σ, p.data.body = [] ∧
      (p.getContentLength lexicalCast).toNat = m.body.length ∧
      m.request = p.data.setBody m.body ∧
      recvRequest machine lexicalCast buffSize (segs.map .bytes) =
        if (more.length : Int) = toInt32 buffSize then
          .ok (none, (skip (m.head ++ more).length segs).map .bytes)
        else recvBody lexicalCast p more ((skip (m.head ++ more).length segs).map .bytes) := by
  obtain ⟨p, hexecute, hfine, hfinished, hbody, hlength, hrequest⟩ :=
    execute_head machine lexicalCast m hm more
  have hsome := hm.append_ne_nil more
  have hread := read_firstRead buffSize segs hsegs (by rw [hfirst]; exact hsome)
  rw [hfirst] at hread
  refine ⟨p, hbody, hlength, hrequest, ?_⟩
  rw [recvRequest_read machine lexicalCast buffSize _ _ _ hread hsome p more _ hexecute hfinished]
  simp [hfine]

theorem toInt_of_pos (x : UInt64) (hpos : 0 < x.toBitVec.toInt) : x.toBitVec.toInt = x.toNat := by
  rw [BitVec.toInt_eq_toNat_cond] at hpos ⊢
  have hlt := x.toBitVec.isLt
  split at hpos
  · rw [if_pos ‹_›]
    rfl
  · omega

theorem toInt_of_lt (x : UInt64) (hlt : x.toNat < 2 ^ 63) : x.toBitVec.toInt = x.toNat := by
  have hhalf : 2 * x.toBitVec.toNat < 2 ^ 64 := by
    have htoNat : x.toBitVec.toNat = x.toNat := rfl
    omega
  exact BitVec.toInt_eq_toNat_of_lt hhalf

theorem recvBody_exact (p : HttpRequestParser σ) (body : List UInt8) (rest : List Arrival)
    (hnone : p.data.body = []) (hlength : (p.getContentLength lexicalCast).toNat = body.length)
    (hshort : body.length ≤ maxSize) :
    recvBody lexicalCast p body rest = .ok (some (p.data.setBody body), rest) := by
  rw [maxSize] at hshort
  have hint := toInt_of_lt (p.getContentLength lexicalCast) (by omega)
  rw [hlength] at hint
  simp only [recvBody, hint, maxSize]
  by_cases hempty : body = []
  · subst hempty
    rw [if_pos (by simp), HttpRequest.setBody, ← hnone]
  · have hpos := List.length_pos_iff.mpr hempty
    rw [if_neg (by omega), if_neg (by omega), if_pos (by omega), if_pos (Int.le_refl _)]

theorem recvBody_only (p : HttpRequestParser σ) (kept body more : List UInt8)
    (rest after : List Arrival)
    (hlength : (p.getContentLength lexicalCast).toNat = body.length)
    (hbytes : kept ++ unread rest = body ++ more)
    (hrecv : recvBody lexicalCast p kept rest = .ok (some (p.data.setBody body), after))
    (hmore : unread after = more) : kept = body := by
  have hsame : after = rest → kept = body := by
    rintro rfl
    rw [hmore] at hbytes
    exact List.append_cancel_right hbytes
  simp only [recvBody] at hrecv
  split at hrecv
  · exact hsame (congrArg Prod.snd (Except.ok.inj hrecv)).symm
  · rename_i hpos
    have hint := toInt_of_pos _ (Int.lt_of_not_ge hpos)
    rw [hlength] at hint
    rw [hint] at hrecv
    split at hrecv
    · cases hrecv
    split at hrecv
    · exact hsame (congrArg Prod.snd (Except.ok.inj hrecv)).symm
    · rename_i hmissing
      obtain ⟨⟨found, others⟩, hread, hmap⟩ := Lib.of_bind_ok _ _ _ hrecv
      cases found with
      | none => cases hmap
      | some found =>
        have hfound : found = body := congrArg HttpRequest.body
          (Option.some.inj (congrArg Prod.fst (Except.ok.inj hmap)))
        -- The string is no longer than what was in the buffer, and the body is.
        have hlen := length_readFixSize _ _ _ _ _ hread
        rw [if_pos (by omega), hfound] at hlen
        omega

theorem recvRequest_own (m : Message) (hm : m.WellFormed machine lexicalCast)
    (segs : List (List UInt8)) (hsegs : ∀ seg ∈ segs, seg ≠ [])
    (hexact : firstRead buffSize segs = m.bytes)
    (hsize : (m.body.length : Int) ≠ toInt32 buffSize) :
    recvRequest machine lexicalCast buffSize (segs.map .bytes) =
      .ok (some m.request, (skip m.bytes.length segs).map .bytes) := by
  obtain ⟨p, hbody, hlength, hrequest, hcall⟩ := recvRequest_message machine lexicalCast buffSize m hm
    segs m.body hsegs hexact
  have hshort : m.body.length ≤ maxSize := by
    have hread := congrArg List.length hexact
    rw [firstRead, List.length_take, Message.bytes, List.length_append, maxRead] at hread
    rw [maxSize]
    omega
  rw [hcall, if_neg hsize, hrequest]
  exact recvBody_exact lexicalCast p m.body _ hbody hlength hshort

theorem recvRequest_only (m : Message) (hm : m.WellFormed machine lexicalCast)
    (segs : List (List UInt8)) (more : List UInt8) (after : List Arrival)
    (hsegs : ∀ seg ∈ segs, seg ≠ []) (hbytes : segs.flatten = m.bytes ++ more)
    (hhead : m.head <+: firstRead buffSize segs)
    (hrecv : recvRequest machine lexicalCast buffSize (segs.map .bytes) =
      .ok (some m.request, after))
    (hafter : unread after = more) :
    firstRead buffSize segs = m.bytes ∧ (m.body.length : Int) ≠ toInt32 buffSize := by
  obtain ⟨kept, hkept⟩ := hhead
  obtain ⟨p, hbody, hlength, hrequest, hcall⟩ := recvRequest_message machine lexicalCast buffSize m hm
    segs kept hsegs hkept.symm
  have hrest := firstRead_append buffSize segs
  rw [← hkept, hbytes, Message.bytes, List.append_assoc, List.append_assoc] at hrest
  have hrest' := List.append_cancel_left hrest
  rw [← unread_bytes] at hrest'
  rw [hcall] at hrecv
  split at hrecv
  · cases hrecv
  · rename_i hsize
    rw [hrequest] at hrecv
    have heq := recvBody_only lexicalCast p kept m.body more _ after hlength hrest' hrecv hafter
    subst heq
    exact ⟨hkept.symm, hsize⟩

/-- The requests of the first `k` turns of the loop of `HttpServer::handleClient` on a keep-alive
connection, and the connection after them. A null request ends the loop. -/
def handleClient : Nat → List Arrival → Except HttpFault (List HttpRequest × List Arrival)
  | 0, conn => .ok ([], conn)
  | k + 1, conn => do
    let (req, rest) ← recvRequest machine lexicalCast buffSize conn
    match req with
    | none => return ([], rest)
    | some req =>
      let (reqs, after) ← handleClient k rest
      return (req :: reqs, after)

/-- The calls return the requests in order, and after each of them the bytes still to be read are
those of the requests that follow. -/
def Pipelined (ms : List Message) (conn : List Arrival) : Prop :=
  ∀ k ≤ ms.length, ∃ rest, handleClient machine lexicalCast buffSize k conn =
      .ok ((ms.take k).map Message.request, rest) ∧
    unread rest = (ms.drop k).flatMap Message.bytes

theorem handleClient_succ (k : Nat) (conn rest : List Arrival) (request : HttpRequest)
    (hrecv : recvRequest machine lexicalCast buffSize conn = .ok (some request, rest)) :
    handleClient machine lexicalCast buffSize (k + 1) conn =
      (handleClient machine lexicalCast buffSize k rest).map fun found =>
        (request :: found.1, found.2) := by
  rw [handleClient, hrecv]
  show (handleClient machine lexicalCast buffSize k rest >>= _) = _
  cases handleClient machine lexicalCast buffSize k rest <;> rfl

theorem recvRequest_of_handleClient (k : Nat) (conn rest : List Arrival) (request : HttpRequest)
    (requests : List HttpRequest)
    (hclient : handleClient machine lexicalCast buffSize (k + 1) conn =
      .ok (request :: requests, rest)) :
    ∃ after, recvRequest machine lexicalCast buffSize conn = .ok (some request, after) ∧
      handleClient machine lexicalCast buffSize k after = .ok (requests, rest) := by
  rw [handleClient] at hclient
  obtain ⟨⟨found, after⟩, hrecv, hmatch⟩ := Lib.of_bind_ok _ _ _ hclient
  cases found with
  | none => cases hmatch
  | some found =>
    obtain ⟨⟨others, last⟩, hothers, hpure⟩ := Lib.of_bind_ok _ _ _ hmatch
    cases hpure
    exact ⟨after, hrecv, hothers⟩

theorem pipelined_cons (m : Message) (ms : List Message) (conn : List Arrival) :
    Pipelined machine lexicalCast buffSize (m :: ms) conn ↔
      unread conn = m.bytes ++ ms.flatMap Message.bytes ∧
      ∃ rest, recvRequest machine lexicalCast buffSize conn = .ok (some m.request, rest) ∧
        Pipelined machine lexicalCast buffSize ms rest := by
  constructor
  · intro hall
    obtain ⟨conn', hzero, hunread⟩ := hall 0 (Nat.zero_le _)
    cases hzero
    refine ⟨hunread, ?_⟩
    obtain ⟨last, hone, -⟩ := hall 1 (Nat.succ_le_succ (Nat.zero_le _))
    obtain ⟨rest, hrecv, -⟩ := recvRequest_of_handleClient machine lexicalCast buffSize 0 _ _ _ _ hone
    refine ⟨rest, hrecv, ?_⟩
    intro k hk
    obtain ⟨after, hclient, hunread⟩ := hall (k + 1) (Nat.succ_le_succ hk)
    obtain ⟨rest', hrecv', hothers⟩ :=
      recvRequest_of_handleClient machine lexicalCast buffSize k _ _ _ _ hclient
    rw [hrecv] at hrecv'
    cases hrecv'
    exact ⟨after, hothers, hunread⟩
  · rintro ⟨hunread, rest, hrecv, hrest⟩ k hk
    cases k with
    | zero => exact ⟨conn, rfl, hunread⟩
    | succ k =>
      obtain ⟨after, hothers, hafter⟩ := hrest k (Nat.le_of_succ_le_succ hk)
      refine ⟨after, ?_, hafter⟩
      rw [handleClient_succ machine lexicalCast buffSize k conn rest m.request hrecv, hothers]
      rfl

/-- On a connection in which every head is inside one read, the requests are received one after
the other with no byte lost exactly when every request is a read of its own. -/
theorem pipelined_iff_ownReads (ms : List Message) (segs : List (List UInt8))
    (hms : ∀ m ∈ ms, m.WellFormed machine lexicalCast) (hsegs : ∀ seg ∈ segs, seg ≠ [])
    (hbytes : segs.flatten = ms.flatMap Message.bytes) (hheads : HeadsInside buffSize ms segs) :
    Pipelined machine lexicalCast buffSize ms (segs.map .bytes) ↔ OwnReads buffSize ms segs := by
  induction ms generalizing segs with
  | nil =>
    refine ⟨fun _ => trivial, ?_⟩
    intro _ k hk
    cases Nat.le_zero.mp hk
    refine ⟨segs.map .bytes, rfl, ?_⟩
    rw [unread_bytes]
    exact hbytes
  | cons m ms ih =>
    have hm := hms m List.mem_cons_self
    rw [List.flatMap_cons] at hbytes
    have hrest : (skip m.bytes.length segs).flatten = ms.flatMap Message.bytes := by
      rw [flatten_skip, hbytes, List.drop_left]
    have hnext := ih (skip m.bytes.length segs)
      (fun other hother => hms other (List.mem_cons_of_mem m hother))
      (skip_ne_nil _ segs hsegs) hrest hheads.2
    rw [pipelined_cons, OwnReads, ← hnext]
    constructor
    · rintro ⟨-, after, hrecv, hafter⟩
      obtain ⟨start, hstart, hunread⟩ := hafter 0 (Nat.zero_le _)
      cases hstart
      obtain ⟨hexact, hsize⟩ := recvRequest_only machine lexicalCast buffSize m hm segs _ after hsegs
        hbytes hheads.1 hrecv hunread
      rw [recvRequest_own machine lexicalCast buffSize m hm segs hsegs hexact hsize] at hrecv
      cases hrecv
      exact ⟨hexact, hsize, hafter⟩
    · rintro ⟨hexact, hsize, hafter⟩
      refine ⟨?_, _, recvRequest_own machine lexicalCast buffSize m hm segs hsegs hexact hsize,
        hafter⟩
      rw [unread_bytes]
      exact hbytes

end

def postMessage : Message where
  head := octets "POST /a HTTP/1.1\r\ncontent-length: 3\r\n\r\n"
  body := octets "abc"
  request :=
    { HttpRequest.new with
      method := .POST
      path := octets "/a"
      body := octets "abc"
      headers := [(octets "content-length", octets "3")] }

def getMessage : Message where
  head := octets "GET /b HTTP/1.1\r\n\r\n"
  body := []
  request := { HttpRequest.new with path := octets "/b" }

theorem postMessage_wellFormed : postMessage.WellFormed plainMachine lexicalCastDigits :=
  ⟨by decide, by decide, _, rfl, rfl, by decide, rfl⟩

theorem getMessage_wellFormed : getMessage.WellFormed plainMachine lexicalCastDigits :=
  ⟨by decide, by decide, _, rfl, rfl, by decide, rfl⟩

theorem pipelined_iff_ownReads_two_reads :
    Pipelined plainMachine lexicalCastDigits 4096 [postMessage, getMessage]
      [.bytes postMessage.bytes, .bytes getMessage.bytes] := by
  apply (pipelined_iff_ownReads plainMachine lexicalCastDigits 4096 [postMessage, getMessage]
    [postMessage.bytes, getMessage.bytes] _ (by decide) (by decide) _).mpr
  · exact ⟨by decide, by decide, by decide, by decide, trivial⟩
  · intro m hm
    simp only [List.mem_cons, List.not_mem_nil, or_false] at hm
    rcases hm with rfl | rfl
    · exact postMessage_wellFormed
    · exact getMessage_wellFormed
  · exact ⟨by decide, by decide, trivial⟩

/-- Two requests in one read: the second is gone with the buffer of the first call. -/
theorem second_request_dropped :
    (∀ m ∈ [getMessage, getMessage], m.WellFormed plainMachine lexicalCastDigits) ∧
      [getMessage.bytes ++ getMessage.bytes].flatten =
        [getMessage, getMessage].flatMap Message.bytes ∧
      HeadsInside 4096 [getMessage, getMessage] [getMessage.bytes ++ getMessage.bytes] ∧
      handleClient plainMachine lexicalCastDigits 4096 2
          [.bytes (getMessage.bytes ++ getMessage.bytes)] = .ok ([getMessage.request], []) ∧
      ¬ Pipelined plainMachine lexicalCastDigits 4096 [getMessage, getMessage]
        [.bytes (getMessage.bytes ++ getMessage.bytes)] := by
  have hclient : handleClient plainMachine lexicalCastDigits 4096 2
      [.bytes (getMessage.bytes ++ getMessage.bytes)] = .ok ([getMessage.request], []) := by
    have hfirst : recvRequest plainMachine lexicalCastDigits 4096
        [.bytes (getMessage.bytes ++ getMessage.bytes)] = .ok (some getMessage.request, []) := by
      rw [recvRequest_read plainMachine lexicalCastDigits 4096 _ _ [] rfl (by decide) _ _ _ rfl rfl]
      rfl
    have hsecond : recvRequest plainMachine lexicalCastDigits 4096 [] = .ok (none, []) := by
      rw [recvRequest, recvHead]
      rfl
    rw [handleClient_succ _ _ _ 1 _ _ _ hfirst, handleClient, hsecond]
    rfl
  refine ⟨?_, by decide, ⟨by decide, by decide, trivial⟩, hclient, ?_⟩
  · intro m hm
    simp only [List.mem_cons, List.not_mem_nil, or_false, or_self] at hm
    rw [hm]
    exact getMessage_wellFormed
  · intro hall
    obtain ⟨rest, hboth, -⟩ := hall 2 (Nat.le_refl 2)
    rw [hclient] at hboth
    cases hboth

end HttpSession
end Sylar
