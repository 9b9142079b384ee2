import Mathlib.Algebra.Order.Ring.Int
import Mathlib.Tactic.Common

/-! `TcpServer::bind` of `tcp_server.cc`, with the outcome of every `bind` and `listen` given.

Whether a call has failed is read off `fails`, which also holds what the caller had in it before,
and a failed call drops all sockets, not only its own ones. -/
namespace Sylar

structure TcpSocket (α : Type) where
  addr : α
deriving DecidableEq

/-- An address of the list, with what `bind` and `listen` return for its new socket. -/
structure BindAttempt (α : Type) where
  addr : α
  bind : Bool
  listen : Bool

structure TcpServer (α : Type) where
  socks : List (TcpSocket α)
deriving DecidableEq

namespace BindAttempt
variable {α : Type}

def established (attempt : BindAttempt α) : Bool :=
  attempt.bind && attempt.listen

def socket (attempt : BindAttempt α) : TcpSocket α where
  addr := attempt.addr

/-- The sockets of the addresses that were bound and listened on, in order. -/
def sockets (attempts : List (BindAttempt α)) : List (TcpSocket α) :=
  (attempts.filter established).map socket

def failed (attempts : List (BindAttempt α)) : List α :=
  (attempts.filter fun attempt => !attempt.established).map addr

end BindAttempt

namespace TcpServer
open BindAttempt
variable {α : Type}

def bindLoop : List (BindAttempt α) → List (TcpSocket α) → List α → List (TcpSocket α) × List α
  | [], socks, fails => (socks, fails)
  | attempt :: rest, socks, fails =>
    if !attempt.bind then bindLoop rest socks (fails ++ [attempt.addr])
    else if !attempt.listen then bindLoop rest socks (fails ++ [attempt.addr])
    else bindLoop rest (socks ++ [attempt.socket]) fails

/-- The server, `fails` and the result. -/
def bind (server : TcpServer α) (addrs : List (BindAttempt α)) (fails : List α) :
    TcpServer α × List α × Bool :=
  let (socks, fails) := bindLoop addrs server.socks fails
  if !fails.isEmpty then (⟨[]⟩, fails, false) else (⟨socks⟩, fails, true)

/-- `while(!server.bind(addrs, fails))`: whether one of the rounds ends the loop. -/
def retry (server : TcpServer α) (fails : List α) : List (List (BindAttempt α)) → Bool
  | [] => false
  | addrs :: rounds =>
    let (server, fails, result) := server.bind addrs fails
    result || retry server fails rounds

/-- The call binds all of its addresses, or nothing comes of it but the failed ones. -/
structure AllOrNothing (server : TcpServer α) (addrs : List (BindAttempt α)) (fails : List α) :
    Prop where
  result : (server.bind addrs fails).2.2 = true ↔ ∀ attempt ∈ addrs, attempt.established = true
  bound : (server.bind addrs fails).2.2 = true →
    (server.bind addrs fails).1.socks = server.socks ++ addrs.map socket
  kept : (server.bind addrs fails).2.2 = false →
    (server.bind addrs fails).1.socks = server.socks ∧
      (server.bind addrs fails).2.1 = fails ++ failed addrs

/-- Nothing is left over that this call would be blamed for, or that it would throw away. -/
def Unburdened (server : TcpServer α) (addrs : List (BindAttempt α)) (fails : List α) : Prop :=
  if ∀ attempt ∈ addrs, attempt.established = true then fails = [] else server.socks = []

theorem bindLoop_eq (addrs : List (BindAttempt α)) (socks : List (TcpSocket α)) (fails : List α) :
    bindLoop addrs socks fails = (socks ++ sockets addrs, fails ++ failed addrs) := by
  induction addrs generalizing socks fails with
  | nil => simp only [bindLoop, sockets, failed, List.filter_nil, List.map_nil, List.append_nil]
  | cons attempt rest ih =>
    obtain ⟨addr, bound, listening⟩ := attempt
    cases bound <;> cases listening <;>
      simp [bindLoop, ih, sockets, failed, established]

theorem sockets_of_all (addrs : List (BindAttempt α))
    (hall : ∀ attempt ∈ addrs, attempt.established = true) : sockets addrs = addrs.map socket := by
  rw [sockets, List.filter_eq_self.mpr hall]

theorem failed_eq_nil_iff (addrs : List (BindAttempt α)) :
    failed addrs = [] ↔ ∀ attempt ∈ addrs, attempt.established = true := by
  rw [failed, List.map_eq_nil_iff, List.filter_eq_nil_iff]
  apply forall₂_congr
  intro attempt _
  cases attempt.established <;> decide

theorem bind_eq (server : TcpServer α) (addrs : List (BindAttempt α)) (fails : List α) :
    server.bind addrs fails =
      if fails = [] ∧ ∀ attempt ∈ addrs, attempt.established = true then
        (⟨server.socks ++ addrs.map socket⟩, [], true)
      else (⟨[]⟩, fails ++ failed addrs, false) := by
  unfold bind
  rw [bindLoop_eq]
  by_cases hclear : fails = [] ∧ ∀ attempt ∈ addrs, attempt.established = true
  · obtain ⟨rfl, hall⟩ := hclear
    rw [if_pos ⟨rfl, hall⟩, sockets_of_all addrs hall, (failed_eq_nil_iff addrs).mpr hall]
    rfl
  · have hsome : (fails ++ failed addrs).isEmpty = false := by
      rw [List.isEmpty_eq_false_iff]
      intro hnil
      obtain ⟨hfails, hfailed⟩ := List.append_eq_nil_iff.mp hnil
      exact hclear ⟨hfails, (failed_eq_nil_iff addrs).mp hfailed⟩
    rw [if_neg hclear]
    simp only [hsome, Bool.not_false, if_true]

theorem bind_true_iff (server : TcpServer α) (addrs : List (BindAttempt α)) (fails : List α) :
    (server.bind addrs fails).2.2 = true ↔
      fails = [] ∧ ∀ attempt ∈ addrs, attempt.established = true := by
  rw [bind_eq]
  split
  · rename_i hclear
    exact ⟨fun _ => hclear, fun _ => rfl⟩
  · rename_i hclear
    exact ⟨fun hresult => absurd hresult Bool.false_ne_true, fun hall => absurd hall hclear⟩

/-- Once something has failed, the loop of the test server never ends. -/
theorem retry_eq_false (rounds : List (List (BindAttempt α))) (server : TcpServer α)
    (fails : List α) (hfails : fails ≠ []) : retry server fails rounds = false := by
  induction rounds generalizing server fails with
  | nil => rfl
  | cons addrs rounds ih =>
    have hclear : ¬ (fails = [] ∧ ∀ attempt ∈ addrs, attempt.established = true) :=
      fun hall => hfails hall.1
    have hmore : fails ++ failed addrs ≠ [] := fun hnil => hfails (List.append_eq_nil_iff.mp hnil).1
    rw [retry, bind_eq, if_neg hclear]
    exact ih ⟨[]⟩ (fails ++ failed addrs) hmore

/-- A call in which every address is established has to find no failures, and any other call no
sockets. -/
theorem allOrNothing_iff (server : TcpServer α) (addrs : List (BindAttempt α)) (fails : List α) :
    AllOrNothing server addrs fails ↔ Unburdened server addrs fails := by
  unfold Unburdened
  by_cases hall : ∀ attempt ∈ addrs, attempt.established = true
  · rw [if_pos hall]
    constructor
    · intro hright
      exact ((bind_true_iff server addrs fails).mp (hright.result.mpr hall)).1
    · rintro rfl
      have hbind := bind_eq server addrs []
      rw [if_pos ⟨rfl, hall⟩] at hbind
      refine ⟨⟨fun _ => hall, fun _ => ?_⟩, fun _ => ?_, ?_⟩
      · rw [hbind]
      · rw [hbind]
      · intro hfalse
        rw [hbind] at hfalse
        cases hfalse
  · rw [if_neg hall]
    have hbind := bind_eq server addrs fails
    rw [if_neg (fun hclear => hall hclear.2)] at hbind
    constructor
    · intro hright
      have hkept := (hright.kept (by rw [hbind])).1
      rw [hbind] at hkept
      exact hkept.symm
    · intro hnone
      refine ⟨?_, ?_, ?_⟩
      · rw [hbind]
        exact ⟨fun hfalse => absurd hfalse Bool.false_ne_true, fun hclear => absurd hclear hall⟩
      · intro htrue
        rw [hbind] at htrue
        cases htrue
      · intro _
        rw [hbind, hnone]
        exact ⟨rfl, rfl⟩

/-- An address that is free at the second try, with `fails` from the first one, and a failure
behind which the socket of an earlier call is gone. -/
theorem allOrNothing_burdened :
    ¬ AllOrNothing ⟨[]⟩ [⟨"0.0.0.0:9527", true, true⟩] ["0.0.0.0:9527"] ∧
      ¬ AllOrNothing ⟨[⟨"0.0.0.0:80"⟩]⟩ [⟨"0.0.0.0:9527", false, false⟩] [] := by
  constructor
  · intro hright
    exact absurd (hright.result.mpr (by decide)) (by decide)
  · intro hright
    exact absurd (hright.kept (by decide)).1 (by decide)

end TcpServer
end Sylar
