import Sylar.Http.Pipeline

/-! The body that `HttpSession::recvRequest` returns.

Bytes that `readFixSize` reads go to the room that `reserve` made behind the end of the string,
so only a body that came with the head is in the request. A failed read is taken for a large
one: it moves the region back by one byte and makes one more byte missing. -/
namespace Sylar
namespace HttpSession
variable {σ : Type}

def delivered : List Arrival → List UInt8
  | .bytes data :: rest => data ++ delivered rest
  | _ => []

/-- The loop of `readFixSize` sees the end of the stream with `left` bytes still missing. -/
def Starves : Nat → List Arrival → Prop
  | left, [] => 0 < left
  | left, .error :: rest => Starves (left + 1) rest
  | left, .bytes data :: rest => data.length < left ∧ Starves (left - data.length) rest

/-- No bytes are stored before the start of the string, `start` being the offset of the region
from there. -/
def InString : Int → Nat → List Arrival → Prop
  | _, _, [] => True
  | start, left, .error :: rest => InString (start - 1) (left + 1) rest
  | start, left, .bytes data :: rest =>
    0 ≤ start ∧ (data.length < left → InString (start + data.length) (left - data.length) rest)

def NonEmptyChunks (conn : List Arrival) : Prop :=
  ∀ data, .bytes data ∈ conn → data ≠ []

/-- The result is the request with the first `length` bytes of the stream as its body, or null
when there are fewer. -/
def ReceivesBody (data : HttpRequest) (length : Nat) (kept : List UInt8) (conn : List Arrival)
    (result : Except HttpFault (Option HttpRequest × List Arrival)) : Prop :=
  if length ≤ (kept ++ delivered conn).length then
    ∃ rest, result = .ok (some (data.setBody ((kept ++ delivered conn).take length)), rest)
  else ∃ rest, result = .ok (none, rest)

theorem store_fault (body data : List UInt8) (offset : Int) (hstart : (body.length : Int) + offset < 0) :
    store body offset data = .error .range := by
  simp only [store, if_pos hstart]

theorem store_ok (body data : List UInt8) (offset : Int) (hstart : 0 ≤ (body.length : Int) + offset) :
    ∃ body', store body offset data = .ok body' ∧ body'.length = body.length := by
  have hok : ∃ body', store body offset data = .ok body' := by
    simp only [store, if_neg (Int.not_lt.mpr hstart)]
    exact ⟨_, rfl⟩
  obtain ⟨body', hbody⟩ := hok
  exact ⟨body', hbody, length_store body body' data offset hbody⟩

theorem read_chunk (length : Nat) (conn rest : List Arrival) (data : List UInt8)
    (hread : read length conn = (some data, rest)) (hsome : data ≠ []) (start : Int) :
    data.length ≤ length ∧
    (InString start length conn ↔ 0 ≤ start ∧ (data.length < length →
      InString (start + data.length) (length - data.length) rest)) ∧
    (Starves length conn ↔ data.length < length ∧ Starves (length - data.length) rest) := by
  rcases read_cases length conn rest (some data) hread with
    ⟨-, hnone, -⟩ | ⟨-, hnone⟩ | ⟨whole, rfl, hfits, hwhole⟩ | ⟨whole, others, rfl, hlong, htake, rfl⟩
  · cases hnone
    contradiction
  · cases hnone
  · cases hwhole
    exact ⟨hfits.trans (Nat.min_le_left _ _), Iff.rfl, Iff.rfl⟩
  · cases htake
    have htake : (whole.take (min length maxRead)).length = min length maxRead :=
      List.length_take_of_le (Nat.le_of_lt hlong)
    have hleft : length - min length maxRead - (whole.length - min length maxRead) =
        length - whole.length := by omega
    simp only [InString, Starves, htake, List.length_drop, hleft]
    refine ⟨Nat.min_le_left _ _, ?_, ?_⟩
    · have hstart : start + (min length maxRead : Nat) + (whole.length - min length maxRead : Nat) =
          start + whole.length := by omega
      rw [hstart]
      constructor
      · rintro ⟨hpos, hmore⟩
        refine ⟨hpos, fun hlt => ⟨by omega, fun hpart => hmore (by omega)⟩⟩
      · rintro ⟨hpos, hmore⟩
        refine ⟨hpos, fun hlt => (hmore (by omega)).2 (by omega)⟩
    · constructor
      · rintro ⟨hlt, hstarves⟩
        exact ⟨by omega, by omega, hstarves⟩
      · rintro ⟨hlt, hpart, hstarves⟩
        exact ⟨by omega, hstarves⟩

theorem read_end (length : Nat) (conn rest : List Arrival) (hlength : 0 < length)
    (hconn : NonEmptyChunks conn) (hread : read length conn = (some [], rest)) : conn = [] := by
  rcases read_cases length conn rest (some []) hread with
    ⟨hnil, -, -⟩ | ⟨-, hnone⟩ | ⟨whole, rfl, -, hwhole⟩ | ⟨whole, others, rfl, hlong, htake, -⟩
  · exact hnil
  · cases hnone
  · cases hwhole
    exact absurd rfl (hconn [] List.mem_cons_self)
  · have hnone := congrArg List.length (Option.some.inj htake)
    rw [List.length_take, List.length_nil] at hnone
    rw [maxRead] at hlong hnone
    omega

theorem nonEmptyChunks_read (length : Nat) (conn rest : List Arrival) (found : Option (List UInt8))
    (hconn : NonEmptyChunks conn) (hread : read length conn = (found, rest)) :
    NonEmptyChunks rest := by
  rcases read_cases length conn rest found hread with
    ⟨rfl, -, rfl⟩ | ⟨rfl, -⟩ | ⟨whole, rfl, -, -⟩ | ⟨whole, others, rfl, hlong, -, rfl⟩
  · exact hconn
  · exact fun data hdata => hconn data (List.mem_cons_of_mem _ hdata)
  · exact fun data hdata => hconn data (List.mem_cons_of_mem _ hdata)
  · intro data hdata
    rcases List.mem_cons.mp hdata with heq | hmem
    · cases heq
      intro hnil
      have hzero := congrArg List.length hnil
      rw [List.length_drop, List.length_nil] at hzero
      omega
    · exact hconn data (List.mem_cons_of_mem _ hmem)

/-- How the loop of `readFixSize` ends: with a fault unless every byte is stored in the string or
behind it, and else at the end of the stream or with the last of the bytes. -/
theorem readFixLoop_outcome (body : List UInt8) (offset : Int) (length : Nat) (conn : List Arrival)
    (hlength : 0 < length) (hconn : NonEmptyChunks conn) :
    (InString (body.length + offset) length conn →
      ∃ found rest, readFixLoop body offset length conn = .ok (found, rest) ∧
        (found = none ↔ Starves length conn)) ∧
    (¬ InString (body.length + offset) length conn →
      readFixLoop body offset length conn = .error .range) := by
  fun_induction readFixLoop body offset length conn with
  | case1 body offset conn => exact absurd hlength (Nat.lt_irrefl 0)
  | case2 body offset length conn hpos rest hread ih =>
    have hrest := nonEmptyChunks_read length conn rest none hconn hread
    have hcases := ih (Nat.succ_pos length) hrest
    rw [← Int.add_sub_assoc] at hcases
    rw [read_error length conn rest hread]
    exact hcases
  | case3 body offset length conn hpos rest hread =>
    rw [read_end length conn rest hlength hconn hread]
    refine ⟨fun _ => ⟨none, rest, rfl, ?_⟩, fun hout => absurd trivial hout⟩
    exact ⟨fun _ => hlength, fun _ => rfl⟩
  | case4 body offset length conn hpos data rest hread hsome ih =>
    have hrest := nonEmptyChunks_read length conn rest _ hconn hread
    obtain ⟨hle, hinside, hstarves⟩ := read_chunk length conn rest data hread hsome (body.length + offset)
    rw [hinside, hstarves]
    by_cases hstart : 0 ≤ (body.length : Int) + offset
    · obtain ⟨body', hstore, hsame⟩ := store_ok body data offset hstart
      rw [hstore]
      show (_ → ∃ found rest', readFixLoop body' _ _ rest = _ ∧ _) ∧
        (_ → readFixLoop body' _ _ rest = _)
      by_cases hmore : data.length < length
      · have hcases := ih body' (by omega) hrest
        rw [hsame, ← Int.add_assoc] at hcases
        simpa only [hstart, hmore, true_and, forall_const] using hcases
      · have hzero : length - data.length = 0 := by omega
        simp only [hstart, hmore, false_and, false_imp_iff, not_true_eq_false,
          forall_const, and_true]
        rw [hzero, readFixLoop, if_pos rfl]
        exact ⟨some body', rest, rfl, by simp⟩
    · rw [store_fault body data offset (by omega)]
      exact ⟨fun hin => absurd hin.1 hstart, fun _ => rfl⟩

/-- The call of `readFixSize` for the bytes that are missing ends with null, and with a string that
is too short otherwise. -/
theorem readFixSize_none_iff (kept : List UInt8) (length : Nat) (conn : List Arrival)
    (hlength : 0 < length) (hconn : NonEmptyChunks conn) :
    (∃ rest, readFixSize kept length conn = .ok (none, rest)) ↔
      InString kept.length length conn ∧ (Starves length conn ∨ toInt32 length ≤ 0) := by
  obtain ⟨hin, hout⟩ := readFixLoop_outcome kept 0 length conn hlength hconn
  rw [Int.add_zero] at hin hout
  by_cases hinside : InString kept.length length conn
  · obtain ⟨found, rest, hloop, hfound⟩ := hin hinside
    have hcall : readFixSize kept length conn =
        .ok (if toInt32 length ≤ 0 then none else found, rest) := by
      rw [readFixSize, hloop]
      rfl
    rw [hcall, ← hfound]
    by_cases hint : toInt32 length ≤ 0
    · simp [hint, hinside]
    · simp [hint, hinside]
  · have hcall : readFixSize kept length conn = .error .range := by
      rw [readFixSize, hout hinside]
      rfl
    rw [hcall]
    simp [hinside]

section
variable (lexicalCast : List UInt8 → Option UInt64) (p : HttpRequestParser σ) (kept : List UInt8)
  (conn : List Arrival)

theorem receivesBody_kept (hpos : 0 < (p.getContentLength lexicalCast).toNat)
    (hmax : (p.getContentLength lexicalCast).toNat ≤ maxSize)
    (hkept : (p.getContentLength lexicalCast).toNat ≤ kept.length) :
    ReceivesBody p.data (p.getContentLength lexicalCast).toNat kept conn
      (recvBody lexicalCast p kept conn) := by
  rw [maxSize] at hmax
  have hint := toInt_of_lt (p.getContentLength lexicalCast) (by omega)
  generalize (p.getContentLength lexicalCast).toNat = length at hint hpos hkept hmax ⊢
  rw [ReceivesBody, if_pos (by rw [List.length_append]; omega)]
  refine ⟨conn, ?_⟩
  rw [List.take_append_of_le_length hkept]
  simp only [recvBody, hint, maxSize]
  rw [if_neg (by omega), if_neg (by omega), if_pos (by omega)]
  by_cases hexact : kept.length = length
  · rw [if_pos (by omega), ← hexact, List.take_length]
  · rw [if_neg (by omega), Int.toNat_natCast]

theorem receivesBody_missing (hmax : (p.getContentLength lexicalCast).toNat ≤ maxSize)
    (hkept : kept.length < (p.getContentLength lexicalCast).toNat) (hconn : NonEmptyChunks conn) :
    let missing := (p.getContentLength lexicalCast).toNat - kept.length
    ReceivesBody p.data (p.getContentLength lexicalCast).toNat kept conn
        (recvBody lexicalCast p kept conn) ↔
      (delivered conn).length < missing ∧ InString kept.length missing conn ∧
        (Starves missing conn ∨ toInt32 missing ≤ 0) := by
  rw [maxSize] at hmax
  have hint := toInt_of_lt (p.getContentLength lexicalCast) (by omega)
  generalize hlength : (p.getContentLength lexicalCast).toNat = length at hint hkept hmax ⊢
  intro missing
  have hcall : recvBody lexicalCast p kept conn =
      (readFixSize kept missing conn).map fun found => (found.1.map p.data.setBody, found.2) := by
    have hmissing : ((length : Int) - kept.length).toNat = missing := by omega
    simp only [recvBody, hint, maxSize]
    rw [if_neg (by omega), if_neg (by omega), if_neg (by omega), if_pos (by omega), hmissing]
    cases readFixSize kept missing conn <;> rfl
  rw [hcall, ← readFixSize_none_iff kept missing conn (by omega) hconn, ReceivesBody, List.length_append]
  by_cases henough : length ≤ kept.length + (delivered conn).length
  · -- The string that `readFixSize` leaves has the length it had before.
    rw [if_pos henough]
    constructor
    · rintro ⟨rest, hfound⟩
      cases hread : readFixSize kept missing conn with
      | error fault =>
        rw [hread] at hfound
        cases hfound
      | ok found =>
        obtain ⟨found, others⟩ := found
        rw [hread] at hfound
        have hbody := congrArg Prod.fst (Except.ok.inj hfound)
        obtain ⟨body, rfl, hset⟩ := Option.map_eq_some_iff.mp hbody
        have hsame := length_readFixSize kept body missing conn others hread
        have htake := congrArg (fun request => request.body.length) hset
        simp only [HttpRequest.setBody, List.length_take, List.length_append] at htake
        omega
    · intro hshort
      omega
  · rw [if_neg henough]
    have hshort : (delivered conn).length < missing := by omega
    simp only [hshort, true_and]
    cases readFixSize kept missing conn with
    | error fault => simp [Except.map]
    | ok found =>
      obtain ⟨found, others⟩ := found
      simp [Except.map]

theorem recvBody_too_long (hlt : (p.getContentLength lexicalCast).toNat < 2 ^ 63)
    (hmax : maxSize < (p.getContentLength lexicalCast).toNat) :
    recvBody lexicalCast p kept conn = .error .length := by
  have hint := toInt_of_lt (p.getContentLength lexicalCast) hlt
  simp only [recvBody, hint]
  rw [if_neg (by omega), if_pos (by omega)]

/-- After a head with a content-length, the body is received, or null when the stream ends or fails
before its end, exactly when a string can have it, and it came with the head, or the stream ends too
early and the loop of `readFixSize` takes note of that. -/
theorem receivesBody_iff (machine : Machine σ) (buffSize : Nat) (conn₀ : List Arrival)
    (hhead : recvHead machine buffSize (.new machine) [] conn₀ = .ok (some (p, kept), conn))
    (hpos : 0 < (p.getContentLength lexicalCast).toNat)
    (hlt : (p.getContentLength lexicalCast).toNat < 2 ^ 63) (hconn : NonEmptyChunks conn) :
    let length := (p.getContentLength lexicalCast).toNat
    let missing := length - kept.length
    ReceivesBody p.data length kept conn (recvRequest machine lexicalCast buffSize conn₀) ↔
      length ≤ maxSize ∧
        (length ≤ kept.length ∨
          (delivered conn).length < missing ∧ InString kept.length missing conn ∧
            (Starves missing conn ∨ toInt32 missing ≤ 0)) := by
  intro length missing
  have hcall : recvRequest machine lexicalCast buffSize conn₀ = recvBody lexicalCast p kept conn := by
    rw [recvRequest, hhead]
    rfl
  rw [hcall]
  by_cases hmax : length ≤ maxSize
  · rw [and_iff_right hmax]
    by_cases hkept : length ≤ kept.length
    · have hreceived := receivesBody_kept lexicalCast p kept conn hpos hmax hkept
      exact ⟨fun _ => .inl hkept, fun _ => hreceived⟩
    · have hmissing :=
        receivesBody_missing lexicalCast p kept conn hmax (Nat.lt_of_not_le hkept) hconn
      exact hmissing.trans ⟨.inr, fun hcase => hcase.resolve_left hkept⟩
  · -- An exception is neither a request nor null.
    rw [recvBody_too_long lexicalCast p kept conn hlt (Nat.lt_of_not_le hmax), ReceivesBody]
    refine ⟨fun hreceived => ?_, fun hcase => absurd hcase.1 hmax⟩
    split at hreceived <;> obtain ⟨_, hfault⟩ := hreceived <;> cases hfault

end

theorem recvHead_message (machine : Machine σ) (lexicalCast : List UInt8 → Option UInt64)
    (buffSize : Nat) (m : Message) (hm : m.WellFormed machine lexicalCast) (more : List UInt8)
    (rest : List Arrival) (hfits : (m.head ++ more).length ≤ min buffSize maxRead)
    (hsize : (more.length : Int) ≠ toInt32 buffSize) :
    ∃ p, recvHead machine buffSize (.new machine) [] (.bytes (m.head ++ more) :: rest) =
        .ok (some (p, more), rest) ∧
      (p.getContentLength lexicalCast).toNat = m.body.length ∧ m.request = p.data.setBody m.body := by
  obtain ⟨p, hexecute, hfine, hfinished, -, hlength, hrequest⟩ :=
    execute_head machine lexicalCast m hm more
  refine ⟨p, ?_, hlength, hrequest⟩
  exact recvHead_finished machine buffSize _ p [] more _ _ rest m.head.length
    (read_whole buffSize _ rest hfits) (hm.append_ne_nil more) hexecute hfine hsize hfinished

theorem receivesBody_iff_same_read :
    ∃ p, recvHead plainMachine 4096 (.new plainMachine) []
        [.bytes (postMessage.head ++ postMessage.body)] = .ok (some (p, postMessage.body), []) ∧
      ReceivesBody p.data 3 postMessage.body [] (recvRequest plainMachine lexicalCastDigits 4096
        [.bytes (postMessage.head ++ postMessage.body)]) := by
  obtain ⟨p, hhead, hlength, -⟩ := recvHead_message plainMachine lexicalCastDigits 4096 postMessage
    postMessage_wellFormed postMessage.body [] (by decide) (by decide)
  have hthree : (p.getContentLength lexicalCastDigits).toNat = 3 := hlength
  have hiff := receivesBody_iff lexicalCastDigits p postMessage.body [] plainMachine 4096 _ hhead
    (by omega) (by omega) (fun data hdata => nomatch hdata)
  dsimp only at hiff
  rw [hthree] at hiff
  exact ⟨p, hhead, hiff.mpr ⟨by decide, .inl (by decide)⟩⟩

/-- The body in a read of its own: the request that is returned has none. -/
theorem body_of_later_read_lost :
    ∃ p, recvHead plainMachine 4096 (.new plainMachine) []
        [.bytes postMessage.head, .bytes postMessage.body] =
          .ok (some (p, []), [.bytes postMessage.body]) ∧
      (p.getContentLength lexicalCastDigits).toNat = 3 ∧
      NonEmptyChunks [.bytes postMessage.body] ∧
      recvRequest plainMachine lexicalCastDigits 4096
        [.bytes postMessage.head, .bytes postMessage.body] = .ok (some (p.data.setBody []), []) ∧
      ¬ ReceivesBody p.data 3 [] [.bytes postMessage.body]
        (recvRequest plainMachine lexicalCastDigits 4096
          [.bytes postMessage.head, .bytes postMessage.body]) := by
  obtain ⟨p, hhead, hlength, -⟩ := recvHead_message plainMachine lexicalCastDigits 4096 postMessage
    postMessage_wellFormed [] [.bytes postMessage.body] (by decide) (by decide)
  rw [List.append_nil] at hhead
  have hthree : (p.getContentLength lexicalCastDigits).toNat = 3 := hlength
  have hint := toInt_of_lt (p.getContentLength lexicalCastDigits) (by omega)
  rw [hthree] at hint
  have hloop : readFixSize [] 3 [.bytes postMessage.body] = .ok (some [], []) := by
    rw [readFixSize, readFixLoop]
    show (readFixLoop [] _ 0 [] >>= _) = _
    rw [readFixLoop, if_pos rfl]
    rfl
  have hcall : recvRequest plainMachine lexicalCastDigits 4096
      [.bytes postMessage.head, .bytes postMessage.body] = .ok (some (p.data.setBody []), []) := by
    rw [recvRequest, hhead]
    show recvBody lexicalCastDigits p [] [.bytes postMessage.body] = _
    simp only [recvBody, hint]
    show (readFixSize [] 3 [.bytes postMessage.body] >>= _) = _
    rw [hloop]
    rfl
  refine ⟨p, hhead, hthree, ?_, hcall, ?_⟩
  · intro data hdata
    cases List.mem_singleton.mp hdata
    decide
  · rw [hcall]
    rintro ⟨rest, hfound⟩
    have hbody := congrArg (fun found => HttpRequest.body <$> found.1) (Except.ok.inj hfound)
    exact absurd hbody (by simp [HttpRequest.setBody]; decide)

end HttpSession
end Sylar
