import Mathlib.Data.Option.Basic
import Sylar.Lib.Run

/-! `Socket::bind`, `connect`, `close` and the two address getters of `socket.cc`.

What the system calls answer comes with each operation. Descriptors are counted, because a
number that was closed may be given out again, and a cached address remembers the descriptor
that was asked for it. -/
namespace Sylar

/-- `filled` is an address object that a system call has written to. -/
inductive Address (α : Type) where
  | filled (family : Int) (contents : α)
  | unknown (family : Int)
deriving DecidableEq

structure CachedAddress (α : Type) where
  address : Address α
  descriptor : Nat
deriving DecidableEq

inductive Side where
  | own
  | remote
deriving DecidableEq

structure Socket (α : Type) where
  sock : Int
  family : Int
  isConnected : Bool
  localAddress : Option (CachedAddress α)
  remoteAddress : Option (CachedAddress α)
  /-- How many descriptors the object has had. -/
  descriptors : Nat
deriving DecidableEq

namespace Socket
variable {α : Type}

def create (family : Int) : Socket α where
  sock := -1
  family := family
  isConnected := false
  localAddress := none
  remoteAddress := none
  descriptors := 0

def cached (s : Socket α) : Side → Option (CachedAddress α)
  | .own => s.localAddress
  | .remote => s.remoteAddress

def setCached (s : Socket α) (side : Side) (entry : CachedAddress α) : Socket α :=
  match side with
  | .own => { s with localAddress := some entry }
  | .remote => { s with remoteAddress := some entry }

/-- `reply` is what `getsockname` or `getpeername` writes, or `none` when it fails, as it does
on the descriptor -1. -/
def getAddress (s : Socket α) (side : Side) (reply : Option α) : Address α × Socket α :=
  match s.cached side with
  | some entry => (entry.address, s)
  | none =>
    if s.sock = -1 then (.unknown s.family, s)
    else
      match reply with
      | none => (.unknown s.family, s)
      | some contents =>
        let entry := { address := .filled s.family contents, descriptor := s.descriptors }
        (entry.address, s.setCached side entry)

def getLocalAddress (s : Socket α) (reply : Option α) : Address α × Socket α :=
  s.getAddress .own reply

def getRemoteAddress (s : Socket α) (reply : Option α) : Address α × Socket α :=
  s.getAddress .remote reply

/-- `socket` is what `socket` returns. -/
def newSock (s : Socket α) (socket : Int) : Socket α :=
  if socket ≠ -1 then { s with sock := socket, descriptors := s.descriptors + 1 }
  else { s with sock := -1 }

/-- The first lines of `bind` and `connect`. -/
def ensureSock (s : Socket α) (socket : Int) : Socket α :=
  if s.sock = -1 then s.newSock socket else s

def close (s : Socket α) : Bool × Socket α :=
  if s.isConnected = false ∧ s.sock = -1 then (true, s)
  else (false, { s with isConnected := false, sock := -1 })

def bind (s : Socket α) (addrFamily socket : Int) (bound : Bool) (name : Option α) :
    Bool × Socket α :=
  let s := s.ensureSock socket
  if s.sock = -1 then (false, s)
  else if addrFamily ≠ s.family then (false, s)
  else if bound = false then (false, s)
  else (true, (s.getLocalAddress name).2)

/-- `connected` says that `::connect`, or `::connect_with_timeout` when a timeout is given,
returned 0. -/
def connect (s : Socket α) (addrFamily socket : Int) (connected : Bool) (name peer : Option α) :
    Bool × Socket α :=
  let s := s.ensureSock socket
  if s.sock = -1 then (false, s)
  else if addrFamily ≠ s.family then (false, s)
  else if connected = false then (false, s.close.2)
  else
    let s := { s with isConnected := true }
    let s := (s.getRemoteAddress peer).2
    (true, (s.getLocalAddress name).2)

/-- `usable` is the test of the descriptor's context. -/
def init (s : Socket α) (sock : Int) (usable : Bool) (name peer : Option α) : Bool × Socket α :=
  if usable then
    let s := { s with sock := sock, isConnected := true, descriptors := s.descriptors + 1 }
    let s := (s.getLocalAddress name).2
    (true, (s.getRemoteAddress peer).2)
  else (false, s)

/-- A socket object comes from a constructor or from `accept`. -/
inductive Start (α : Type) where
  | created (family : Int)
  | accepted (family : Int) (newsock : Nat) (name peer : Option α)

def Start.socket : Start α → Socket α
  | .created family => create family
  | .accepted family newsock name peer => ((create family).init newsock true name peer).2

inductive Op (α : Type) where
  | bind (addrFamily socket : Int) (bound : Bool) (name : Option α)
  | connect (addrFamily socket : Int) (connected : Bool) (name peer : Option α)
  | close
  | getLocalAddress (name : Option α)
  | getRemoteAddress (peer : Option α)
deriving DecidableEq

def apply (s : Socket α) : Op α → Socket α
  | .bind addrFamily socket bound name => (s.bind addrFamily socket bound name).2
  | .connect addrFamily socket connected name peer =>
    (s.connect addrFamily socket connected name peer).2
  | .close => s.close.2
  | .getLocalAddress name => (s.getLocalAddress name).2
  | .getRemoteAddress peer => (s.getRemoteAddress peer).2

def step (s : Socket α) (op : Op α) : Option (Socket α) :=
  some (s.apply op)

/-- The address that the getter takes from its cache was asked of the current descriptor. -/
def Coherent (side : Side) (s : Socket α) : Prop :=
  ∀ entry ∈ s.cached side, s.sock ≠ -1 ∧ entry.descriptor = s.descriptors

/-- The operation does not close an open descriptor, by itself or because connecting fails. -/
def StaysOpen (s : Socket α) : Op α → Prop
  | .close => s.sock = -1
  | .connect addrFamily _ connected _ _ => addrFamily = s.family → connected = true
  | _ => True

/-- A descriptor is closed only while the address is not cached. -/
def ClosesUncached (side : Side) (s : Socket α) (op : Op α) : Prop :=
  (s.cached side).isSome → s.StaysOpen op

instance StaysOpen.decidable (s : Socket α) (op : Op α) : Decidable (s.StaysOpen op) :=
  match op with
  | .close => inferInstanceAs (Decidable (s.sock = -1))
  | .connect addrFamily _ connected _ _ =>
    inferInstanceAs (Decidable (addrFamily = s.family → connected = true))
  | .bind _ _ _ _ => .isTrue trivial
  | .getLocalAddress _ => .isTrue trivial
  | .getRemoteAddress _ => .isTrue trivial

instance ClosesUncached.decidable (side : Side) (s : Socket α) (op : Op α) :
    Decidable (s.ClosesUncached side op) :=
  inferInstanceAs (Decidable ((s.cached side).isSome → s.StaysOpen op))

theorem cached_setCached (s : Socket α) (side other : Side) (entry : CachedAddress α) :
    (s.setCached other entry).cached side = if other = side then some entry else s.cached side := by
  cases side <;> cases other <;> rfl

theorem sock_setCached (s : Socket α) (side : Side) (entry : CachedAddress α) :
    (s.setCached side entry).sock = s.sock ∧
      (s.setCached side entry).descriptors = s.descriptors := by
  cases side <;> exact ⟨rfl, rfl⟩

theorem getAddress_cases (s : Socket α) (side : Side) (reply : Option α) :
    (s.getAddress side reply).2 = s ∨
    ∃ contents, s.cached side = none ∧ s.sock ≠ -1 ∧
      (s.getAddress side reply).2 =
        s.setCached side ⟨.filled s.family contents, s.descriptors⟩ := by
  unfold getAddress
  cases hcached : s.cached side with
  | some entry => exact .inl rfl
  | none =>
    by_cases hsock : s.sock = -1
    · simp [hsock]
    · cases reply with
      | none => simp [hsock]
      | some contents =>
        right
        refine ⟨contents, rfl, hsock, ?_⟩
        simp [hsock]

theorem Coherent.getAddress (side other : Side) (s : Socket α) (reply : Option α)
    (hcoherent : Coherent side s) : Coherent side (s.getAddress other reply).2 := by
  rcases s.getAddress_cases other reply with hsame | ⟨contents, -, hsock, hfilled⟩
  · rw [hsame]
    exact hcoherent
  · rw [hfilled]
    intro entry hentry
    have hframe := s.sock_setCached other ⟨.filled s.family contents, s.descriptors⟩
    rw [hframe.1, hframe.2]
    rw [cached_setCached] at hentry
    split at hentry
    · cases hentry
      exact ⟨hsock, rfl⟩
    · exact hcoherent entry hentry

theorem Coherent.uncached (side : Side) (s : Socket α) (hcoherent : Coherent side s)
    (hsock : s.sock = -1) : s.cached side = none := by
  cases hcached : s.cached side with
  | none => rfl
  | some entry => exact absurd hsock (hcoherent entry hcached).1

theorem cached_ensureSock (side : Side) (s : Socket α) (socket : Int) :
    (s.ensureSock socket).cached side = s.cached side := by
  cases side <;> simp only [ensureSock, newSock, cached] <;> split_ifs <;> rfl

theorem family_ensureSock (s : Socket α) (socket : Int) :
    (s.ensureSock socket).family = s.family := by
  simp only [ensureSock, newSock]
  split_ifs <;> rfl

theorem Coherent.ensureSock (side : Side) (s : Socket α) (socket : Int)
    (hcoherent : Coherent side s) : Coherent side (s.ensureSock socket) := by
  by_cases hsock : s.sock = -1
  · intro entry hentry
    rw [cached_ensureSock, hcoherent.uncached side s hsock] at hentry
    cases hentry
  · rw [Socket.ensureSock, if_neg hsock]
    exact hcoherent

theorem cached_close (side : Side) (s : Socket α) : s.close.2.cached side = s.cached side := by
  unfold close
  split
  · rfl
  · cases side <;> rfl

theorem sock_close (s : Socket α) : s.close.2.sock = -1 := by
  unfold close
  split
  · rename_i hclosed
    exact hclosed.2
  · rfl

theorem coherent_close (side : Side) (s : Socket α) :
    Coherent side s.close.2 ↔ s.cached side = none := by
  constructor
  · intro hcoherent
    rw [← cached_close]
    exact hcoherent.uncached side s.close.2 s.sock_close
  · intro hnone entry hentry
    rw [cached_close, hnone] at hentry
    cases hentry

theorem Coherent.bind (side : Side) (s : Socket α) (addrFamily socket : Int) (bound : Bool)
    (name : Option α) (hcoherent : Coherent side s) :
    Coherent side (s.bind addrFamily socket bound name).2 := by
  have hopen : Coherent side (s.ensureSock socket) := hcoherent.ensureSock side s socket
  simp only [Socket.bind]
  split_ifs
  · exact hopen
  · exact hopen
  · exact hopen
  · exact hopen.getAddress side .own _ name

theorem coherent_connect (side : Side) (s : Socket α) (addrFamily socket : Int) (connected : Bool)
    (name peer : Option α) (hcoherent : Coherent side s) :
    Coherent side (s.connect addrFamily socket connected name peer).2 ↔
      ClosesUncached side s (.connect addrFamily socket connected name peer) := by
  have hopen : Coherent side (s.ensureSock socket) := hcoherent.ensureSock side s socket
  have hcached : (s.ensureSock socket).cached side = s.cached side := cached_ensureSock side s socket
  have hfamily : (s.ensureSock socket).family = s.family := family_ensureSock s socket
  simp only [connect, ClosesUncached, StaysOpen]
  split_ifs with hsock hother hfailed
  · have hnone := hopen.uncached side _ hsock
    rw [hcached] at hnone
    simp [hopen, hnone]
  · rw [hfamily] at hother
    simp [hopen, hother]
  · rw [hfamily, not_not] at hother
    rw [coherent_close, hcached]
    simp [hother, hfailed]
  · have hfilled : Coherent side ({ s.ensureSock socket with isConnected := true }) := by
      cases side <;> exact hopen
    have hdone := (hfilled.getAddress side .remote _ peer).getAddress side .own _ name
    simp only [Bool.not_eq_false] at hfailed
    simp only [hfailed, implies_true, iff_true]
    exact hdone

theorem coherent_apply (side : Side) (s : Socket α) (op : Op α) (hcoherent : Coherent side s) :
    Coherent side (s.apply op) ↔ ClosesUncached side s op := by
  cases op with
  | bind addrFamily socket bound name =>
    exact iff_of_true (hcoherent.bind side s addrFamily socket bound name) fun _ => trivial
  | connect addrFamily socket connected name peer =>
    exact coherent_connect side s addrFamily socket connected name peer hcoherent
  | close =>
    rw [apply, coherent_close]
    constructor
    · intro hnone hsome
      rw [hnone] at hsome
      cases hsome
    · intro hcond
      by_contra hcached
      obtain ⟨entry, hentry⟩ := Option.ne_none_iff_exists'.mp hcached
      have hopen := (hcoherent entry hentry).1
      exact hopen (hcond (by rw [hentry]; rfl))
  | getLocalAddress name =>
    exact iff_of_true (hcoherent.getAddress side .own s name) fun _ => trivial
  | getRemoteAddress peer =>
    exact iff_of_true (hcoherent.getAddress side .remote s peer) fun _ => trivial

theorem Start.coherent (side : Side) (start : Start α) : Coherent side start.socket := by
  have hfresh : ∀ s : Socket α, s.cached side = none → Coherent side s := by
    intro s hnone entry hentry
    rw [hnone] at hentry
    cases hentry
  cases start with
  | created family =>
    apply hfresh
    cases side <;> rfl
  | accepted family newsock name peer =>
    apply Coherent.getAddress side .remote _ peer
    apply Coherent.getAddress side .own _ name
    apply hfresh
    cases side <;> rfl

/-- The cached address belongs to the current descriptor in every state of a run exactly when
the run never closes a descriptor while the address is cached. -/
theorem coherent_iff_closesUncached (side : Side) (start : Start α) (ops : List (Op α)) :
    (∀ before s, before <+: ops → Lib.run step start.socket before = some s → Coherent side s) ↔
      Lib.Meets step (ClosesUncached side) start.socket ops := by
  apply Lib.invariant_iff_meets (ClosesUncached side) (Coherent side) _ _ ops start.socket
    (start.coherent side)
  · intro s op
    exact ⟨s.apply op, rfl⟩
  · intro s op s' hcoherent hstep
    cases hstep
    exact coherent_apply side s op hcoherent

/-- A reconnected socket still returns the first peer, although the new descriptor has another
one. -/
theorem reconnect_returns_first_peer :
    ∃ s, Lib.run step (Start.created 2).socket
        [.connect 2 5 true (some "local") (some "first"), .close,
         .connect 2 6 true (some "local") (some "second")] = some s ∧
      s.sock = 6 ∧ (s.getRemoteAddress (some "second")).1 = .filled 2 "first" ∧
      ¬ Coherent .remote s := by
  refine ⟨_, rfl, rfl, rfl, ?_⟩
  intro hcoherent
  exact absurd (hcoherent _ rfl).2 (by decide)

end Socket
end Sylar
