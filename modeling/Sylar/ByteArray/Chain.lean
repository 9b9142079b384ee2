import Sylar.Lib.Segment
import Mathlib.Data.List.Basic

/-! `bytearray.h` and the cursor operations of `bytearray.cc`.

The nodes hang off `m_root` in one chain that only grows at its end and is only
cut behind its first node, so the chain is a list. A pointer that is kept in the
object is the index of its node, `none` being null. A pointer that a loop walks
with is the part of the chain that starts at its node: following `next` takes
the tail and the empty list is null.

Lengths and positions are unbounded: the memory behind them is, so none of the
`size_t` sums can wrap before an allocation fails. -/
namespace Sylar

inductive Endian where
  | little
  | big
deriving DecidableEq, Repr

/-- The two ways an operation can end early. An exception leaves the object
behind in the state it had when it was thrown; following a null `Node*` is
undefined behaviour, and so is a `memcpy` that leaves its node. -/
inductive Fault where
  | outOfRange (what : String)
  | nullNode
  | outOfBounds
deriving DecidableEq, Repr

/-- A node owns exactly `size` bytes. -/
structure Node where
  ptr : List UInt8
  size : Nat
  length_ptr : ptr.length = size

namespace Node

/-- `new Node(s)`; the bytes are whatever the allocation contains. -/
def new (s : Nat) (garbage : Nat → UInt8) : Node where
  ptr := (List.range s).map garbage
  size := s
  length_ptr := by simp

/-- `memcpy(ptr + npos, buf, size)` into the node. -/
def store (node : Node) (npos : Nat) (buf : List UInt8) : Except Fault Node :=
  if h : npos + buf.length ≤ node.size then
    .ok
      { ptr := Lib.overlay node.ptr npos buf
        size := node.size
        length_ptr := by
          rw [Lib.length_overlay _ _ _ (by rw [node.length_ptr]; exact h), node.length_ptr] }
  else .error .outOfBounds

/-- `memcpy(buf, ptr + npos, size)` out of the node. -/
def load (node : Node) (npos size : Nat) : Except Fault (List UInt8) :=
  if npos + size ≤ node.size then .ok (Lib.slice node.ptr npos size) else .error .outOfBounds

end Node

/-- `fresh` is not a field of the class: it lists what the coming allocations
will contain, since `new char[s]` leaves its bytes uninitialised. -/
structure ByteArray where
  baseSize : Nat
  position : Nat
  capacity : Nat
  size : Nat
  endian : Endian
  root : List Node
  cur : Option Nat
  fresh : Nat → Nat → UInt8

/-- An operation either returns or faults, and has a final state in both cases. -/
abbrev Op := EStateM Fault ByteArray

namespace Op
variable {α β : Type} {first : Op α} {rest : α → Op β} {ba ba' : ByteArray}

theorem bind_ok {value : α} (hfirst : first ba = .ok value ba') :
    (first >>= rest) ba = rest value ba' := by
  simp only [bind, EStateM.bind, hfirst]

theorem bind_error {fault : Fault} (hfirst : first ba = .error fault ba') :
    (first >>= rest) ba = .error fault ba' := by
  simp only [bind, EStateM.bind, hfirst]

theorem map_ok {value : α} (f : α → β) (hfirst : first ba = .ok value ba') :
    (first >>= fun x => pure (f x)) ba = .ok (f value) ba' :=
  bind_ok hfirst

theorem of_bind_ok {result : β} {ba'' : ByteArray}
    (hboth : (first >>= rest) ba = .ok result ba'') :
    ∃ value ba', first ba = .ok value ba' ∧ rest value ba' = .ok result ba'' := by
  cases hfirst : first ba with
  | ok value ba' =>
    rw [bind_ok hfirst] at hboth
    exact ⟨value, ba', rfl, hboth⟩
  | error fault ba' =>
    rw [bind_error hfirst] at hboth
    cases hboth

theorem pure_eq (value : α) : (pure value : Op α) ba = .ok value ba := rfl

end Op

namespace ByteArray

/-- `ByteArray(size_t base_size)`. -/
def new (baseSize : Nat) (fresh : Nat → Nat → UInt8) : ByteArray where
  baseSize := baseSize
  position := 0
  capacity := baseSize
  size := 0
  endian := .big
  root := [Node.new baseSize (fresh 0)]
  cur := some 0
  fresh := fun k => fresh (k + 1)

def setIsLittleEndian (ba : ByteArray) (val : Bool) : ByteArray :=
  { ba with endian := if val then .little else .big }

def getReadSize (ba : ByteArray) : Nat := ba.size - ba.position

def getCapacity (ba : ByteArray) : Nat := ba.capacity - ba.position

def curNodes (ba : ByteArray) : List Node :=
  match ba.cur with
  | none => []
  | some i => ba.root.drop i

/-- `m_cur` after `hops` times `m_cur = m_cur->next`. -/
def advance (ba : ByteArray) (hops : Nat) : Option Nat :=
  match ba.cur with
  | none => none
  | some i => if i + hops < ba.root.length then some (i + hops) else none

def clear : Op Unit := fun ba =>
  .ok ()
    { ba with
      position := 0
      size := 0
      capacity := ba.baseSize
      root := ba.root.take 1
      cur := some 0 }

/-- The number of blocks `addCapacity` appends when `size` exceeds the free
room `oldCap`. -/
def blockCount (baseSize oldCap size : Nat) : Nat :=
  let size := size - oldCap
  size / baseSize + (if size % baseSize > oldCap then 1 else 0)

def addCapacity (ba : ByteArray) (size : Nat) : ByteArray :=
  if size = 0 then ba
  else
    let oldCap := ba.getCapacity
    if oldCap ≥ size then ba
    else
      let count := blockCount ba.baseSize oldCap size
      let first := if count = 0 then none else some ba.root.length
      { ba with
        root := ba.root ++ (List.range count).map fun k => Node.new ba.baseSize (ba.fresh k)
        capacity := ba.capacity + count * ba.baseSize
        cur := if oldCap = 0 then first else ba.cur
        fresh := fun k => ba.fresh (k + count) }

/-- The loop of `write`: the chain from `m_cur` on with `buf` stored into it,
and how many times `m_cur` moved to the next node. `ncap` is `m_cur->size - npos`
on entry and after every round. -/
def writeLoop : List Node → Nat → List UInt8 → Except Fault (List Node × Nat)
  | [], _, _ => .error .nullNode
  | node :: next, npos, buf =>
    let ncap := node.size - npos
    if buf.length ≤ ncap then
      match node.store npos buf with
      | .error fault => .error fault
      | .ok node' => .ok (node' :: next, if node.size = npos + buf.length then 1 else 0)
    else
      match node.store npos (buf.take ncap) with
      | .error fault => .error fault
      | .ok node' =>
        match writeLoop next 0 (buf.drop ncap) with
        | .error fault => .error fault
        | .ok (next', hops) => .ok (node' :: next', hops + 1)

def storeAtCursor (buf : List UInt8) : Op Unit := fun ba =>
  match writeLoop ba.curNodes (ba.position % ba.baseSize) buf with
  | .error fault => .error fault ba
  | .ok (nodes, hops) =>
    .ok ()
      { ba with
        root := ba.root.take (ba.root.length - ba.curNodes.length) ++ nodes
        position := ba.position + buf.length
        cur := ba.advance hops
        size := if ba.position + buf.length > ba.size then ba.position + buf.length else ba.size }

def write (buf : List UInt8) : Op Unit := fun ba =>
  if buf.length = 0 then .ok () ba
  else storeAtCursor buf (ba.addCapacity buf.length)

/-- The loop of `read`. The node is inspected for `ncap` before the first test
of `size`, so a null `m_cur` faults even when nothing is asked for. -/
def readLoop : List Node → Nat → Nat → Except Fault (List UInt8 × Nat)
  | [], _, _ => .error .nullNode
  | node :: next, npos, size =>
    let ncap := node.size - npos
    if size = 0 then .ok ([], 0)
    else if size ≤ ncap then
      match node.load npos size with
      | .error fault => .error fault
      | .ok bytes => .ok (bytes, if node.size = npos + size then 1 else 0)
    else
      match node.load npos ncap with
      | .error fault => .error fault
      | .ok bytes =>
        match readLoop next 0 (size - ncap) with
        | .error fault => .error fault
        | .ok (rest, hops) => .ok (bytes ++ rest, hops + 1)

def read (size : Nat) : Op (List UInt8) := fun ba =>
  if size > ba.getReadSize then .error (.outOfRange "not enough len") ba
  else
    match readLoop ba.curNodes (ba.position % ba.baseSize) size with
    | .error fault => .error fault ba
    | .ok (bytes, hops) =>
      .ok bytes { ba with position := ba.position + size, cur := ba.advance hops }

/-- The walk of `setPosition` from `m_root`: how many nodes `m_cur` passes. -/
def seek : List Node → Nat → Except Fault Nat
  | [], _ => .error .nullNode
  | node :: next, v =>
    if v > node.size then
      match seek next (v - node.size) with
      | .error fault => .error fault
      | .ok hops => .ok (hops + 1)
    else if v = node.size then .ok 1
    else .ok 0

def setPosition (v : Nat) : Op Unit := fun ba =>
  if v > ba.capacity then .error (.outOfRange "set_position out of range") ba
  else
    match seek ba.root v with
    | .error fault => .error fault ba
    | .ok hops =>
      .ok ()
        { ba with
          position := v
          size := if v > ba.size then v else ba.size
          cur := if hops < ba.root.length then some hops else none }

/-- An `iovec` whose base is `npos` bytes into the node with index `node`. -/
structure Iovec where
  node : Nat
  npos : Nat
  len : Nat
deriving DecidableEq, Repr

/-- The loop shared by `getReadBuffers` and `getWriteBuffers`; `index` counts
the nodes from `m_root`. -/
def iovLoop : List Node → Nat → Nat → Nat → Except Fault (List Iovec)
  | [], _, _, _ => .error .nullNode
  | node :: next, index, npos, len =>
    let ncap := node.size - npos
    if len ≤ ncap then .ok [⟨index, npos, len⟩]
    else
      match iovLoop next (index + 1) 0 (len - ncap) with
      | .error fault => .error fault
      | .ok rest => .ok (⟨index, npos, ncap⟩ :: rest)

def regionsAtCursor (len : Nat) : Op (List Iovec × Nat) := fun ba =>
  match iovLoop ba.curNodes (ba.root.length - ba.curNodes.length)
      (ba.position % ba.baseSize) len with
  | .error fault => .error fault ba
  | .ok buffers => .ok (buffers, len) ba

def getWriteBuffers (len : Nat) : Op (List Iovec × Nat) := fun ba =>
  if len = 0 then .ok ([], 0) ba
  else regionsAtCursor len (ba.addCapacity len)

end ByteArray
end Sylar
