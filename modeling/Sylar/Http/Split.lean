import Sylar.Http.Session
import Sylar.Http.Tokens

/-! A request head that arrives in several reads. When the reads cut no token it is received as
if it had come in one. -/
namespace Sylar

namespace HttpSession
variable {σ : Type}
open HttpRequestParser

section
variable (machine : Machine σ) (lexicalCast : List UInt8 → Option UInt64) (buffSize : Nat)

section
variable (part before more : List UInt8) (others : List Arrival) (u s uEnd : HttpRequestParser σ)
  (state state' : σ) (nread : Nat) (hsome : part ≠ []) (hfits : part.length ≤ min buffSize maxRead)
  (hwhole : machine.wholeIn state .nothing part = some state')
  (hends : machine.finishesAtEnd state (part ++ more) = true)
  (hcs : s.parser.cs = some state) (hbody : s.parser.bodyStart = 0) (hsame : Same u s)
  (hexec : exec machine (before ++ (part ++ more)) before.length (part ++ more) u = .ok (uEnd, nread))
  (hfine : uEnd.error = 0) (hsize : toInt32 buffSize ≠ 0)
include hsome hfits hwhole hends hcs hbody hsame hexec hfine hsize

theorem recvHead_last_part (hmore : more = []) :
    ∃ sEnd, recvHead machine buffSize s [] (.bytes part :: others) =
        .ok (some (sEnd, []), others) ∧ sEnd.data = uEnd.data := by
  subst hmore
  have hagree := Agree.start before.length part.length u s hsame.cs hsame.data hsame.error
  rw [List.append_nil] at hends hexec
  obtain ⟨u', s', hs', hsame', hu'⟩ := exec_last machine before [] part [] .nothing u
    (s.reset part.length) state state' hwhole hends hcs hagree
  rw [List.nil_append] at hs' hu'
  rw [List.length_nil, Nat.add_zero, List.nil_append, List.append_nil] at hu'
  rw [hu'] at hexec
  cases hexec
  obtain ⟨-, last, hlast, hfinal⟩ := exec_finishes machine part part 0 part.length
    (s.reset part.length) s' state hcs hends hs'
  refine ⟨s', ?_, hsame'.data.symm⟩
  apply recvHead_finished machine buffSize s s' [] [] part _ _ part.length
    (read_whole _ part _ hfits) hsome _ _ (fun heq => hsize heq.symm) _
  · rw [List.nil_append, execute_of_exec machine s s' part part.length hsome hbody hs',
      List.drop_length]
  · simp [hasError, ← hsame'.error, hfine, hlast]
  · rw [isFinished, hlast]
    exact hfinal

theorem recvHead_next_part (hmore : more ≠ []) :
    ∃ u' s', recvHead machine buffSize s [] (.bytes part :: others) =
        recvHead machine buffSize s' [] others ∧
      s'.parser.cs = some state' ∧ s'.parser.bodyStart = 0 ∧ Same u' s' ∧
      machine.finishesAtEnd state' more = true ∧
      exec machine (before ++ part ++ more) (before ++ part).length more u' = .ok (uEnd, nread) := by
  have hrange := reset_inRange s part.length (List.length_pos_iff.mpr hsome) hbody
  have hagree := Agree.start before.length part.length u s hsame.cs hsame.data hsame.error
  obtain ⟨u', s', hs', hcs', hsame', hu', hends', hlive⟩ := exec_more machine before
    [] part more .nothing u (s.reset part.length) state state' hmore hwhole hends hcs hagree
  rw [List.nil_append] at hs' hu'
  rw [List.length_nil, Nat.add_zero, List.nil_append] at hu'
  rw [hu', ← List.append_assoc, ← List.length_append] at hexec
  have hgood : u'.error = 0 := by
    by_contra hfailed
    exact exec_failed machine _ _ _ _ u' uEnd hexec hfailed hfine
  have hunfinished : s'.isFinished machine = false := by
    rw [isFinished, hcs']
    exact hlive.resolve_left hsome
  have hstart := (exec_executed machine part part part.length 0 part.length _ s'
    (Nat.zero_add _) hrange hs').bodyStart hunfinished
  refine ⟨u', s', ?_, hcs', hstart, hsame', hends', hexec⟩
  apply recvHead_unfinished machine buffSize s s' [] [] part _ _ part.length
    (read_whole _ part _ hfits) hsome _ _ (fun heq => hsize heq.symm) hunfinished
  · rw [List.nil_append, execute_of_exec machine s s' part part.length hsome hbody hs',
      List.drop_length]
  · simp [hasError, ← hsame'.error, hgood, hcs']

end

theorem recvHead_parts (parts : List (List UInt8)) (before : List UInt8) (rest : List Arrival)
    (u s uEnd : HttpRequestParser σ) (state : σ) (nread : Nat)
    (hparts : ∀ part ∈ parts, part ≠ [] ∧ part.length ≤ min buffSize maxRead)
    (hwhole : machine.wholeFrom state parts = true)
    (hends : machine.finishesAtEnd state parts.flatten = true)
    (hcs : s.parser.cs = some state) (hbody : s.parser.bodyStart = 0) (hsame : Same u s)
    (hexec : exec machine (before ++ parts.flatten) before.length parts.flatten u =
      .ok (uEnd, nread))
    (hfine : uEnd.error = 0) (hsize : toInt32 buffSize ≠ 0) :
    ∃ sEnd, recvHead machine buffSize s [] (parts.map .bytes ++ rest) =
        .ok (some (sEnd, []), rest) ∧ sEnd.data = uEnd.data := by
  induction parts generalizing before u s state with
  | nil => cases hends
  | cons part parts ih =>
    obtain ⟨hsome, hfits⟩ := hparts part List.mem_cons_self
    have hothers : ∀ other ∈ parts, other ≠ [] ∧ other.length ≤ min buffSize maxRead :=
      fun other hother => hparts other (List.mem_cons_of_mem part hother)
    rw [List.flatten_cons] at hends hexec
    simp only [Machine.wholeFrom] at hwhole
    split at hwhole
    · cases hwhole
    · rename_i state' hwholeIn
      cases parts with
      | nil =>
        exact recvHead_last_part machine buffSize part before _ rest u s uEnd state state' nread hsome
          hfits hwholeIn hends hcs hbody hsame hexec hfine hsize rfl
      | cons next parts =>
        have hmore : (next :: parts).flatten ≠ [] := by
          intro hnil
          exact (hothers next List.mem_cons_self).1
            (List.flatten_eq_nil_iff.mp hnil next List.mem_cons_self)
        obtain ⟨u', s', hturn, hcs', hstart, hsame', hends', hexec'⟩ := recvHead_next_part machine
          buffSize part before _ ((next :: parts).map .bytes ++ rest) u s uEnd state state' nread hsome
          hfits hwholeIn hends hcs hbody hsame hexec hfine hsize hmore
        obtain ⟨sEnd, hend, hdata⟩ := ih (before ++ part) u' s' state' hothers hwhole hends' hcs'
          hstart hsame' hexec'
        exact ⟨sEnd, hturn.trans hend, hdata⟩

/-- A head of which no read cuts a token gives the request that it gives in one read. -/
theorem recvRequest_of_wholeTokens (head : List UInt8) (parts : List (List UInt8))
    (rest after : List Arrival) (request : HttpRequest) (hhead : machine.IsHead head)
    (hshort : head.length < buffSize) (hone : head.length ≤ maxRead)
    (haccept : recvRequest machine lexicalCast buffSize (.bytes head :: rest) =
      .ok (some request, after))
    (hsplit : parts.flatten = head) (hparts : ∀ part ∈ parts, part ≠ [])
    (hwhole : machine.WholeTokens parts) :
    recvRequest machine lexicalCast buffSize (parts.map .bytes ++ rest) =
      .ok (some request, after) := by
  have hfits : head.length ≤ min buffSize maxRead := by omega
  have hsome : head ≠ [] := by
    rintro rfl
    cases hhead
  have hread : read buffSize (.bytes head :: rest) = (some head, rest) :=
    read_whole buffSize head rest hfits
  cases hexecute : (HttpRequestParser.new machine).execute machine head with
  | error fault =>
    rw [recvRequest_fault machine lexicalCast buffSize head _ rest hread hsome fault hexecute]
      at haccept
    cases haccept
  | ok found =>
    obtain ⟨uEnd, nread, kept⟩ := found
    obtain ⟨hexec, hkept⟩ := exec_of_execute machine _ uEnd head kept nread hsome hexecute
    obtain ⟨hnread, last, hlast, hfinal⟩ := exec_finishes machine head head 0 nread _ uEnd
      machine.start rfl hhead hexec
    have hnone : kept = [] := by
      rw [hkept, hnread, Nat.zero_add, List.drop_length]
    subst hnone
    rw [recvRequest_read machine lexicalCast buffSize head _ rest hread hsome uEnd [] nread hexecute
      (by rw [isFinished, hlast]; exact hfinal)] at haccept
    split at haccept
    · cases haccept
    · rename_i hgood
      simp only [hasError, hlast, List.length_nil, Option.isNone_some, Bool.or_false,
        decide_eq_true_eq, not_or, not_not] at hgood
      have hbound : ∀ part ∈ parts, part ≠ [] ∧ part.length ≤ min buffSize maxRead := by
        intro part hpart
        refine ⟨hparts part hpart, Nat.le_trans ?_ hfits⟩
        rw [← hsplit]
        exact (List.sublist_flatten_of_mem hpart).length_le
      obtain ⟨sEnd, hend, hdata⟩ := recvHead_parts machine buffSize parts [] rest
        ((HttpRequestParser.new machine).reset head.length) (.new machine) uEnd machine.start nread
        hbound hwhole (by rw [hsplit]; exact hhead) rfl rfl ⟨rfl, rfl, rfl⟩
        (by rw [hsplit]; exact hexec) hgood.1 (Ne.symm hgood.2)
      rw [recvRequest, hend]
      show recvBody lexicalCast sEnd [] rest = _
      rw [recvBody_data lexicalCast sEnd uEnd [] rest hdata]
      exact haccept

end

end HttpSession

inductive Phase where
  | start | method | target | path | beforeVersion | version | lineEnd | header | name | colon
  | value | headEnd | finished
deriving DecidableEq

/-- The transitions of the generated machine that a request with a method of capitals, a path
without a query, and plain headers goes through. -/
def plainNext : Phase → UInt8 → Option (Phase × List ParserAction)
  | .start, c => if 65 ≤ c ∧ c ≤ 90 then some (.method, [.mark]) else none
  | .method, c =>
    if c = 32 then some (.target, [.requestMethod])
    else if 65 ≤ c ∧ c ≤ 90 then some (.method, []) else none
  | .target, c => if c = 47 then some (.path, [.mark]) else none
  | .path, c =>
    if c = 32 then some (.beforeVersion, [.requestPath, .requestUri])
    else if 97 ≤ c ∧ c ≤ 122 then some (.path, []) else none
  | .beforeVersion, c => if c = 72 then some (.version, [.mark]) else none
  | .version, c => if c = 13 then some (.lineEnd, [.httpVersion]) else some (.version, [])
  | .lineEnd, c => if c = 10 then some (.header, []) else none
  | .header, c => if c = 13 then some (.headEnd, [.startField]) else some (.name, [.startField])
  | .name, c => if c = 58 then some (.colon, [.writeField]) else some (.name, [])
  | .colon, c =>
    if c = 13 then some (.lineEnd, [.startValue, .writeValue])
    else if c = 32 then some (.colon, [.startValue]) else some (.value, [.startValue])
  | .value, c => if c = 13 then some (.lineEnd, [.writeValue]) else some (.value, [])
  | .headEnd, c => if c = 10 then some (.finished, []) else none
  | .finished, _ => none

def plainMachine : Machine Phase where
  start := .start
  next := plainNext
  final := fun s => decide (s = .finished)
  method_at_space := by
    intro s c s' actions hnext hmethod
    cases s <;> simp only [plainNext] at hnext <;> (repeat' split at hnext) <;> cases hnext <;>
      simp_all

/-- `boost::lexical_cast<uint64_t>` on digits. -/
def lexicalCastDigits (value : List UInt8) : Option UInt64 :=
  if value ≠ [] ∧ value.all (fun c => 48 ≤ c && c ≤ 57) then
    let number := value.foldl (fun n c => 10 * n + (c.toNat - 48)) 0
    if number < 2 ^ 64 then some (.ofNat number) else none
  else none

namespace HttpSession

/-- A read that ends inside the path loses what was there. -/
theorem path_cut_between_reads :
    plainMachine.IsHead (octets "GET /index HTTP/1.1\r\n\r\n") ∧
      recvRequest plainMachine lexicalCastDigits 4096
          [.bytes (octets "GET /index HTTP/1.1\r\n\r\n")] =
        .ok (some { HttpRequest.new with path := octets "/index" }, []) ∧
      recvRequest plainMachine lexicalCastDigits 4096
          [.bytes (octets "GET /in"), .bytes (octets "dex HTTP/1.1\r\n\r\n")] =
        .ok (some { HttpRequest.new with path := octets "dex" }, []) := by
  refine ⟨by decide, ?_, ?_⟩
  · rw [recvRequest_read plainMachine lexicalCastDigits 4096 _ _ [] rfl (by decide) _ _ _ rfl rfl]
    rfl
  · have hfirst : (HttpRequestParser.new plainMachine).execute plainMachine
        ([] ++ octets "GET /in") =
          .ok (⟨⟨some .path, 0, 4, 0, 7, none, false, false⟩, .new, 0⟩, 7, []) := by
      decide
    have hlast : HttpRequestParser.execute plainMachine
        ⟨⟨some .path, 0, 4, 0, 7, none, false, false⟩, .new, 0⟩
        ([] ++ octets "dex HTTP/1.1\r\n\r\n") =
          .ok (⟨⟨some .finished, 16, 4, 14, 16, none, false, false⟩,
            { HttpRequest.new with path := octets "dex" }, 0⟩, 16, []) := by
      decide
    rw [recvRequest, recvHead_unfinished plainMachine 4096 _ _ [] _ _ _ _ _ rfl (by decide) hfirst
      rfl (by decide) rfl, recvHead_finished plainMachine 4096 _ _ [] _ _ _ _ _ rfl (by decide)
      hlast rfl (by decide) rfl]
    rfl

/-- The same head with reads that end between tokens. -/
theorem recvRequest_of_wholeTokens_three_reads :
    recvRequest plainMachine lexicalCastDigits 4096
        [.bytes (octets "GET "), .bytes (octets "/index HTTP/1.1\r"),
         .bytes (octets "\nhost: a\r\n\r\n")] =
      .ok (some { HttpRequest.new with
        path := octets "/index"
        headers := [(octets "host", octets "a")] }, []) := by
  apply recvRequest_of_wholeTokens plainMachine lexicalCastDigits 4096
    (octets "GET /index HTTP/1.1\r\nhost: a\r\n\r\n")
    [octets "GET ", octets "/index HTTP/1.1\r", octets "\nhost: a\r\n\r\n"] [] []
  · decide
  · decide
  · decide
  · rw [recvRequest_read plainMachine lexicalCastDigits 4096 _ _ [] rfl (by decide) _ _ _ rfl rfl]
    rfl
  · decide
  · decide
  · decide

end HttpSession
end Sylar
