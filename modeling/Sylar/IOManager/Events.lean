import Sylar.Scheduler.Workers

/-! The event half of `iomanager.h` and `iomanager.cc`: the table of
`FdContext`s, the kernel's interest table, and the operations on both.

`m_fdContexts` holds pointers, so an `FdContext` that drops out of the table
lives on; `heap` holds every context ever allocated and a pointer is an index
into it. Every outcome of `epoll_ctl` that the kernel decides is an argument. -/
namespace Sylar

inductive Event where
  | read
  | write
deriving DecidableEq, Repr

abbrev Mask := BitVec 32

def Event.mask : Event → Mask
  | .read => 0x1#32
  | .write => 0x4#32

def EPOLLIN : Mask := 0x1#32
def EPOLLOUT : Mask := 0x4#32
def EPOLLERR : Mask := 0x8#32
def EPOLLHUP : Mask := 0x10#32
def EPOLLET : Mask := 0x80000000#32

/-- The waiter of one successful `addEvent`; `ticket` numbers these calls. -/
structure Waiter (φ κ : Type) where
  ticket : Nat
  fd : Nat
  event : Event
  task : Task φ κ
deriving DecidableEq

/-- `ticket` is no member of the source: it is the number of the `addEvent` that
filled the context. -/
structure EventContext (φ κ : Type) where
  scheduler : Option Nat
  fiber : Option φ
  cb : Option κ
  ticket : Nat

structure FdContext (φ κ : Type) where
  fd : Nat
  read : EventContext φ κ
  write : EventContext φ κ
  events : Mask

structure Interest where
  events : Mask
  ptr : Nat

inductive EpollOp where
  | add
  | mod
  | del
deriving DecidableEq

/-- The logs `issued`, `scheduled` and `dropped` only grow: the waiters that
`addEvent` took, handed to `schedule()` of a scheduler, or lost to `delEvent`. -/
structure IOManager (φ κ : Type) where
  fdContexts : List Nat
  heap : List (FdContext φ κ)
  epoll : Nat → Option Interest
  pendingEventCount : Int
  issued : List (Waiter φ κ)
  scheduled : List (Nat × Waiter φ κ)
  dropped : List (Waiter φ κ)

inductive IOFault where
  | assertion
  | nullScheduler
  | outOfRange
deriving DecidableEq, Repr

/-- `epoll_ctl`. `fails` is a failure for a reason of the kernel's own. -/
def epollCtl (table : Nat → Option Interest) (op : EpollOp) (fd : Nat) (interest : Interest)
    (fails : Bool) : Option (Nat → Option Interest) :=
  if fails ∨ (table fd).isSome = (op == .add) then none
  else
    match op with
    | .del => some fun other => if other = fd then none else table other
    | _ => some fun other => if other = fd then some interest else table other

variable {φ κ : Type}

namespace EventContext

def empty : EventContext φ κ :=
  ⟨none, none, none, 0⟩

/-- What `triggerEvent` hands over: the callback if there is one. -/
def task (ctx : EventContext φ κ) : Option (Task φ κ) :=
  match ctx.cb with
  | some cb => some (.cb cb)
  | none => ctx.fiber.map .fiber

end EventContext

namespace FdContext

def new (fd : Nat) : FdContext φ κ :=
  ⟨fd, .empty, .empty, 0⟩

def getContext (ctx : FdContext φ κ) : Event → EventContext φ κ
  | .read => ctx.read
  | .write => ctx.write

def setContext (ctx : FdContext φ κ) (event : Event) (value : EventContext φ κ) : FdContext φ κ :=
  match event with
  | .read => { ctx with read := value }
  | .write => { ctx with write := value }

def resetContext (ctx : FdContext φ κ) (event : Event) : FdContext φ κ :=
  ctx.setContext event { ctx.getContext event with scheduler := none, fiber := none, cb := none }

def waiter (ctx : FdContext φ κ) (event : Event) : Option (Waiter φ κ) :=
  (ctx.getContext event).task.map fun task =>
    ⟨(ctx.getContext event).ticket, ctx.fd, event, task⟩

/-- The waiter goes to `ctx.scheduler`; `schedule(&ctx.cb)` and
`schedule(&ctx.fiber)` swap the member out, the other member stays. -/
def triggerEvent (ctx : FdContext φ κ) (event : Event) :
    Except IOFault (List (Nat × Waiter φ κ) × FdContext φ κ) :=
  if ctx.events &&& event.mask = 0 then .error .assertion
  else
    let entry := ctx.getContext event
    match entry.scheduler with
    | none => .error .nullScheduler
    | some scheduler =>
      let left :=
        if entry.cb.isSome then { entry with scheduler := none, cb := none }
        else { entry with scheduler := none, fiber := none }
      .ok ((ctx.waiter event).toList.map (scheduler, ·),
        { ctx.setContext event left with events := ctx.events &&& ~~~event.mask })

end FdContext

namespace IOManager

/-- `contextResize`: shrinking forgets pointers, growing allocates. -/
def contextResize (s : IOManager φ κ) (size : Nat) : IOManager φ κ :=
  if size ≤ s.fdContexts.length then { s with fdContexts := s.fdContexts.take size }
  else
    let fresh := size - s.fdContexts.length
    { s with
      fdContexts := s.fdContexts ++ List.range' s.heap.length fresh
      heap := s.heap ++ (List.range' s.fdContexts.length fresh).map .new }

/-- The constructor, once `pipe` and `epoll_create` have succeeded. -/
def new (tickleFd : Nat) : IOManager φ κ :=
  contextResize
    { fdContexts := []
      heap := []
      epoll := fun fd => if fd = tickleFd then some ⟨EPOLLIN ||| EPOLLET, tickleFd⟩ else none
      pendingEventCount := 0
      issued := []
      scheduled := []
      dropped := [] } 32

/-- The lookup under the read lock of `delEvent`, `cancelEvent`, `cancelAll` and
the first branch of `addEvent`. -/
def fetch (s : IOManager φ κ) (fd : Nat) : Option Nat :=
  s.fdContexts[fd]?

def store (s : IOManager φ κ) (ptr : Nat) (ctx : FdContext φ κ) : IOManager φ κ :=
  { s with heap := s.heap.set ptr ctx }

/-- The branch of `addEvent` under the write lock. The size is `fd * 1.5`. -/
def grow (s : IOManager φ κ) (fd : Nat) : IOManager φ κ :=
  s.contextResize (fd * 3 / 2)

def register (s : IOManager φ κ) (ptr : Nat) (ctx : FdContext φ κ) (waiter : Waiter φ κ) :
    IOManager φ κ :=
  { s.store ptr ctx with
    pendingEventCount := s.pendingEventCount + 1
    issued := s.issued ++ [waiter] }

/-- The part of `addEvent` under the mutex of the context. `self` is the running
fiber, `exec` says that its state is `EXEC`. -/
def addEventLocked (s : IOManager φ κ) (ptr fd : Nat) (event : Event) (cb : Option κ) (self : φ)
    (exec : Bool) (scheduler : Nat) (fails : Bool) : Except IOFault (Int × IOManager φ κ) :=
  match s.heap[ptr]? with
  | none => .error .outOfRange
  | some ctx =>
    if ctx.events &&& event.mask ≠ 0 then .error .assertion
    else
      let op := if ctx.events ≠ 0 then EpollOp.mod else .add
      match epollCtl s.epoll op fd ⟨EPOLLET ||| ctx.events ||| event.mask, ptr⟩ fails with
      | none => .ok (-1, s)
      | some epoll =>
        let ctx := { ctx with events := ctx.events ||| event.mask }
        let entry := ctx.getContext event
        if entry.scheduler.isSome ∨ entry.fiber.isSome ∨ entry.cb.isSome then .error .assertion
        else if cb.isNone ∧ exec = false then .error .assertion
        else
          let ticket := s.issued.length
          let (entry, task) : EventContext φ κ × Task φ κ :=
            match cb with
            | some cb => (⟨some scheduler, entry.fiber, some cb, ticket⟩, .cb cb)
            | none => (⟨some scheduler, some self, entry.cb, ticket⟩, .fiber self)
          .ok (0, { s with epoll := epoll }.register ptr (ctx.setContext event entry)
            ⟨ticket, fd, event, task⟩)

/-- The call of `epoll_ctl` that leaves `left` of the events of a context. -/
def interestCtl (s : IOManager φ κ) (ptr fd : Nat) (left : Mask) (fails : Bool) :
    Option (Nat → Option Interest) :=
  epollCtl s.epoll (if left ≠ 0 then .mod else .del) fd ⟨left ||| EPOLLET, ptr⟩ fails

def delEvent (s : IOManager φ κ) (fd : Nat) (event : Event) (fails : Bool) :
    Except IOFault (Bool × IOManager φ κ) :=
  match s.fetch fd with
  | none => .ok (false, s)
  | some ptr =>
    match s.heap[ptr]? with
    | none => .error .outOfRange
    | some ctx =>
      if ctx.events &&& event.mask = 0 then .ok (false, s)
      else
        let newEvents := ctx.events &&& ~~~event.mask
        match s.interestCtl ptr fd newEvents fails with
        | none => .ok (false, s)
        | some epoll =>
          let after := { ctx with events := newEvents }.resetContext event
          .ok (true, { s.store ptr after with
            epoll := epoll
            pendingEventCount := s.pendingEventCount - 1
            dropped := s.dropped ++ (ctx.waiter event).toList })

/-- `triggerEvent(event); --m_pendingEventCount`. -/
def trigger (s : IOManager φ κ) (ptr : Nat) (event : Event) : Except IOFault (IOManager φ κ) :=
  match s.heap[ptr]? with
  | none => .error .outOfRange
  | some ctx =>
    match ctx.triggerEvent event with
    | .error fault => .error fault
    | .ok (handed, after) =>
      .ok { s.store ptr after with
        pendingEventCount := s.pendingEventCount - 1
        scheduled := s.scheduled ++ handed }

/-- `if(events & event) { triggerEvent(event); --m_pendingEventCount; }`, with
the mask that the caller tests. -/
def triggerIf (s : IOManager φ κ) (ptr : Nat) (tested : Mask) (event : Event) :
    Except IOFault (IOManager φ κ) :=
  if tested &&& event.mask ≠ 0 then s.trigger ptr event else .ok s

def cancelEvent (s : IOManager φ κ) (fd : Nat) (event : Event) (fails : Bool) :
    Except IOFault (Bool × IOManager φ κ) :=
  match s.fetch fd with
  | none => .ok (false, s)
  | some ptr =>
    match s.heap[ptr]? with
    | none => .error .outOfRange
    | some ctx =>
      if ctx.events &&& event.mask = 0 then .ok (false, s)
      else
        match s.interestCtl ptr fd (ctx.events &&& ~~~event.mask) fails with
        | none => .ok (false, s)
        | some epoll => (({ s with epoll := epoll }).trigger ptr event).map (true, ·)

def cancelAll (s : IOManager φ κ) (fd : Nat) (fails : Bool) :
    Except IOFault (Bool × IOManager φ κ) :=
  match s.fetch fd with
  | none => .ok (false, s)
  | some ptr =>
    match s.heap[ptr]? with
    | none => .error .outOfRange
    | some ctx =>
      if ctx.events = 0 then .ok (false, s)
      else
        match epollCtl s.epoll .del fd ⟨0, ptr⟩ fails with
        | none => .ok (false, s)
        | some epoll =>
          match ({ s with epoll := epoll }).triggerIf ptr ctx.events .read with
          | .error fault => .error fault
          | .ok s =>
            match s.heap[ptr]? with
            | none => .error .outOfRange
            | some ctx =>
              match s.triggerIf ptr ctx.events .write with
              | .error fault => .error fault
              | .ok s =>
                if (s.heap[ptr]?).map (·.events) = some 0 then .ok (true, s)
                else .error .assertion

/-- `real_events` of `idle()` for a mask reported by `epoll_wait`. -/
def realEvents (reported : Mask) : Mask :=
  let reported :=
    if reported &&& (EPOLLERR ||| EPOLLHUP) ≠ 0 then reported ||| EPOLLIN ||| EPOLLOUT
    else reported
  (if reported &&& EPOLLIN ≠ 0 then Event.read.mask else 0) |||
    (if reported &&& EPOLLOUT ≠ 0 then Event.write.mask else 0)

/-- The part of `idle()` under the mutex of one reported context. -/
def dispatch (s : IOManager φ κ) (ptr : Nat) (reported : Mask) (fails : Bool) :
    Except IOFault (IOManager φ κ) :=
  match s.heap[ptr]? with
  | none => .error .outOfRange
  | some ctx =>
    let real := realEvents reported
    if ctx.events &&& real = 0 then .ok s
    else
      match s.interestCtl ptr ctx.fd (ctx.events &&& ~~~real) fails with
      | none => .ok s
      | some epoll =>
        match ({ s with epoll := epoll }).triggerIf ptr real .read with
        | .error fault => .error fault
        | .ok s => s.triggerIf ptr real .write

/-- `addEvent` with nothing between its critical sections. -/
def addEvent (s : IOManager φ κ) (fd : Nat) (event : Event) (cb : Option κ) (self : φ)
    (exec : Bool) (scheduler : Nat) (fails : Bool) : Except IOFault (Int × IOManager φ κ) :=
  let s := if s.fdContexts.length > fd then s else s.grow fd
  match s.fetch fd with
  | none => .error .outOfRange
  | some ptr => s.addEventLocked ptr fd event cb self exec scheduler fails

end IOManager
end Sylar
