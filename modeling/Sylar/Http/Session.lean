import Sylar.Http.Parser

/-! `HttpSession::recvRequest`, with `Stream::readFixSize` and the reads of the socket below it.

A connection is the list of what the socket still has: the segments that arrive, each of
which a read empties or leaves the rest of, and the errors. When nothing is left the peer has
closed. The buffer and the parser are local to a call. -/
namespace Sylar

inductive Arrival where
  | bytes (data : List UInt8)
  | error
deriving DecidableEq

def Arrival.size : Arrival → Nat
  | .bytes data => data.length + 1
  | .error => 1

/-- One read transfers at most this much; see `read(2)`. -/
def maxRead : Nat := 0x7ffff000

/-- `std::string::max_size()`. -/
def maxSize : Nat := 2 ^ 62 - 1

def toInt32 (n : Nat) : Int :=
  (BitVec.ofNat 32 n).toInt

namespace HttpSession
variable {σ : Type}

def left (conn : List Arrival) : Nat :=
  (conn.map Arrival.size).sum

/-- `SocketStream::read`: no bytes when the peer has closed, `none` for -1. -/
def read (length : Nat) : List Arrival → Option (List UInt8) × List Arrival
  | [] => (some [], [])
  | .error :: rest => (none, rest)
  | .bytes data :: rest =>
    if data.length ≤ min length maxRead then (some data, rest)
    else (some (data.take (min length maxRead)), .bytes (data.drop (min length maxRead)) :: rest)

theorem read_cases (length : Nat) (conn rest : List Arrival) (found : Option (List UInt8))
    (hread : read length conn = (found, rest)) :
    (conn = [] ∧ found = some [] ∧ rest = []) ∨
      (conn = .error :: rest ∧ found = none) ∨
      (∃ data, conn = .bytes data :: rest ∧ data.length ≤ min length maxRead ∧ found = some data) ∨
      ∃ data others, conn = .bytes data :: others ∧ min length maxRead < data.length ∧
        found = some (data.take (min length maxRead)) ∧
        rest = .bytes (data.drop (min length maxRead)) :: others := by
  cases conn with
  | nil =>
    cases hread
    exact .inl ⟨rfl, rfl, rfl⟩
  | cons arrival others =>
    cases arrival with
    | error =>
      cases hread
      exact .inr (.inl ⟨rfl, rfl⟩)
    | bytes data =>
      simp only [read] at hread
      split at hread
      · cases hread
        exact .inr (.inr (.inl ⟨data, rfl, ‹_›, rfl⟩))
      · cases hread
        exact .inr (.inr (.inr ⟨data, others, rfl, Nat.lt_of_not_le ‹_›, rfl, rfl⟩))

theorem read_error (length : Nat) (conn rest : List Arrival)
    (hread : read length conn = (none, rest)) : conn = .error :: rest := by
  rcases read_cases length conn rest none hread with
    ⟨-, hnone, -⟩ | ⟨hconn, -⟩ | ⟨data, -, -, hnone⟩ | ⟨data, others, -, -, hnone, -⟩
  · cases hnone
  · exact hconn
  · cases hnone
  · cases hnone

theorem read_error_left (length : Nat) (conn rest : List Arrival)
    (hread : read length conn = (none, rest)) : left rest < left conn := by
  rw [read_error length conn rest hread]
  simp [left, Arrival.size]

theorem read_bytes_left (length : Nat) (conn rest : List Arrival) (data : List UInt8)
    (hread : read length conn = (some data, rest)) (hsome : data ≠ []) : left rest < left conn := by
  rcases read_cases length conn rest (some data) hread with
    ⟨-, hnone, -⟩ | ⟨-, hnone⟩ | ⟨whole, rfl, -, -⟩ | ⟨whole, others, rfl, -, htake, rfl⟩
  · cases hnone
    contradiction
  · cases hnone
  · simp [left, Arrival.size]
  · cases htake
    have hpos := List.length_pos_iff.mpr hsome
    rw [List.length_take] at hpos
    simp only [left, List.map_cons, List.sum_cons, Arrival.size, List.length_drop]
    omega

/-- Bytes stored at an offset from the end of `body`. What goes past the end is in the reserved
room, and not in the string. -/
def store (body : List UInt8) (offset : Int) (data : List UInt8) :
    Except HttpFault (List UInt8) :=
  let start : Int := body.length + offset
  if start < 0 then .error .range
  else .ok ((body.take start.toNat ++ data ++ body.drop (start.toNat + data.length)).take
    body.length)

/-- The loop of `Stream::readFixSize` into the room behind `body`. The result of `read` is made
a `size_t`: only 0 ends the loop, and -1 moves the region back by one byte. -/
def readFixLoop (body : List UInt8) (offset : Int) (length : Nat) (conn : List Arrival) :
    Except HttpFault (Option (List UInt8) × List Arrival) :=
  if length = 0 then .ok (some body, conn)
  else
    match hread : read length conn with
    | (none, rest) => readFixLoop body (offset - 1) (length + 1) rest
    | (some data, rest) =>
      if _hnone : data = [] then .ok (none, rest)
      else do
        let body' ← store body offset data
        readFixLoop body' (offset + data.length) (length - data.length) rest
termination_by left conn
decreasing_by
  · exact read_error_left length conn rest hread
  · exact read_bytes_left length conn rest data hread _hnone

/-- `readFixSize(&body[body.size()], length) <= 0` is `none`; on success the result is `length` as
an `int`. -/
def readFixSize (body : List UInt8) (length : Nat) (conn : List Arrival) :
    Except HttpFault (Option (List UInt8) × List Arrival) := do
  let (body', rest) ← readFixLoop body 0 length conn
  return (if toInt32 length ≤ 0 then none else body', rest)

section
variable (machine : Machine σ) (lexicalCast : List UInt8 → Option UInt64) (buffSize : Nat)

/-- The loop of `recvRequest`; `kept` is what the buffer has at its front. -/
def recvHead (p : HttpRequestParser σ) (kept : List UInt8) (conn : List Arrival) :
    Except HttpFault (Option (HttpRequestParser σ × List UInt8) × List Arrival) :=
  match _hread : read (buffSize - kept.length) conn with
  | (none, rest) => .ok (none, rest)
  | (some data, rest) =>
    if _hnone : data = [] then .ok (none, rest)
    else do
      let (p', _, kept') ← p.execute machine (kept ++ data)
      if p'.hasError then return (none, rest)
      else if (kept'.length : Int) = toInt32 buffSize then return (none, rest)
      else if p'.isFinished machine then return (some (p', kept'), rest)
      else recvHead p' kept' rest
termination_by left conn
decreasing_by exact read_bytes_left _ conn rest data _hread _hnone

def recvBody (p : HttpRequestParser σ) (kept : List UInt8) (conn : List Arrival) :
    Except HttpFault (Option HttpRequest × List Arrival) :=
  let length : Int := (p.getContentLength lexicalCast).toBitVec.toInt
  if length ≤ 0 then .ok (some p.data, conn)
  -- `body.reserve(length)`
  else if (maxSize : Int) < length then .error .length
  else
    let body := if (kept.length : Int) ≤ length then kept else kept.take length.toNat
    let missing := length - kept.length
    if missing ≤ 0 then .ok (some (p.data.setBody body), conn)
    else do
      let (found, rest) ← readFixSize body missing.toNat conn
      return (found.map p.data.setBody, rest)

/-- `none` is the null pointer. With the request comes what the connection still has. -/
def recvRequest (conn : List Arrival) : Except HttpFault (Option HttpRequest × List Arrival) := do
  let (head, rest) ← recvHead machine buffSize (.new machine) [] conn
  match head with
  | none => return (none, rest)
  | some (p, kept) => recvBody lexicalCast p kept rest

theorem recvHead_read (p : HttpRequestParser σ) (kept data : List UInt8) (conn rest : List Arrival)
    (hread : read (buffSize - kept.length) conn = (some data, rest)) (hsome : data ≠ []) :
    recvHead machine buffSize p kept conn = (do
      let (p', _, kept') ← p.execute machine (kept ++ data)
      if p'.hasError then return (none, rest)
      else if (kept'.length : Int) = toInt32 buffSize then return (none, rest)
      else if p'.isFinished machine then return (some (p', kept'), rest)
      else recvHead machine buffSize p' kept' rest) := by
  rw [recvHead]
  split
  · rename_i others hother
    rw [hread] at hother
    cases hother
  · rename_i found others hother
    rw [hread] at hother
    cases hother
    rw [dif_neg hsome]

section
variable (p p' : HttpRequestParser σ) (kept kept' data : List UInt8) (conn rest : List Arrival)
  (nparse : Nat) (hread : read (buffSize - kept.length) conn = (some data, rest))
  (hsome : data ≠ []) (hexecute : p.execute machine (kept ++ data) = .ok (p', nparse, kept'))
  (hfine : p'.hasError = false) (hsize : (kept'.length : Int) ≠ toInt32 buffSize)
include hread hsome hexecute hfine hsize

theorem recvHead_finished (hfinished : p'.isFinished machine = true) :
    recvHead machine buffSize p kept conn = .ok (some (p', kept'), rest) := by
  rw [recvHead_read machine buffSize p kept data conn rest hread hsome, hexecute]
  show (if p'.hasError then _ else _) = _
  rw [hfine, if_neg Bool.false_ne_true, if_neg hsize, if_pos hfinished]
  rfl

theorem recvHead_unfinished (hunfinished : p'.isFinished machine = false) :
    recvHead machine buffSize p kept conn = recvHead machine buffSize p' kept' rest := by
  rw [recvHead_read machine buffSize p kept data conn rest hread hsome, hexecute]
  show (if p'.hasError then _ else _) = _
  rw [hfine, if_neg Bool.false_ne_true, if_neg hsize, hunfinished, if_neg Bool.false_ne_true]

end

section
variable (data : List UInt8) (conn rest : List Arrival)
  (hread : read buffSize conn = (some data, rest)) (hsome : data ≠ [])
include hread hsome

theorem recvRequest_read (p : HttpRequestParser σ) (kept : List UInt8) (nparse : Nat)
    (hexecute : (HttpRequestParser.new machine).execute machine data = .ok (p, nparse, kept))
    (hfinished : p.isFinished machine = true) :
    recvRequest machine lexicalCast buffSize conn =
      if p.hasError = true ∨ (kept.length : Int) = toInt32 buffSize then .ok (none, rest)
      else recvBody lexicalCast p kept rest := by
  rw [recvRequest, recvHead_read machine buffSize _ [] data conn rest hread hsome,
    List.nil_append, hexecute]
  by_cases hfailed : p.hasError = true
  · rw [if_pos (.inl hfailed)]
    show ((if p.hasError then _ else _ : Except HttpFault _) >>= _) = _
    rw [if_pos hfailed]
    rfl
  · show ((if p.hasError then _ else _ : Except HttpFault _) >>= _) = _
    rw [if_neg hfailed]
    by_cases hsize : (kept.length : Int) = toInt32 buffSize
    · rw [if_pos hsize, if_pos (.inr hsize)]
      rfl
    · rw [if_neg hsize, if_pos hfinished, if_neg (by simp [hfailed, hsize])]
      rfl

theorem recvRequest_fault (fault : HttpFault)
    (hexecute : (HttpRequestParser.new machine).execute machine data = .error fault) :
    recvRequest machine lexicalCast buffSize conn = .error fault := by
  rw [recvRequest, recvHead_read machine buffSize _ [] data conn rest hread hsome,
    List.nil_append, hexecute]
  rfl

end

theorem recvBody_data (p q : HttpRequestParser σ) (kept : List UInt8) (conn : List Arrival)
    (hdata : p.data = q.data) :
    recvBody lexicalCast p kept conn = recvBody lexicalCast q kept conn := by
  obtain ⟨parser, data, error⟩ := p
  obtain ⟨other, data', error'⟩ := q
  dsimp only at hdata
  subst hdata
  rfl

end

theorem read_whole (length : Nat) (data : List UInt8) (rest : List Arrival)
    (hlength : data.length ≤ min length maxRead) :
    read length (.bytes data :: rest) = (some data, rest) := by
  simp only [read, if_pos hlength]

end HttpSession
end Sylar
