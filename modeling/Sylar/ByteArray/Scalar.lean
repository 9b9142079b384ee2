import Sylar.Lib.Bytes
import Sylar.ByteArray.Chain
import Mathlib.Data.List.Basic

/-! The typed reads and writes of `bytearray.cc`. `host` is `SYLAR_BYTE_ORDER`,
the order in which the compiled program lays an integer out in memory. A cast
between a signed and an unsigned type of one width keeps the bits, so the codecs
work on bit vectors; `float` and `double` are their bit patterns. -/
namespace Sylar

/-- Bytes listed least significant first, put into the given order. -/
def Endian.order (endian : Endian) (bytes : List UInt8) : List UInt8 :=
  match endian with
  | .little => bytes
  | .big => bytes.reverse

namespace ByteArray

def memoryOf (host : Endian) {w : Nat} (value : BitVec w) : List UInt8 :=
  host.order (Lib.leBytes (w / 8) value.toNat)

/-- The integer variable whose memory was filled with `bytes`. -/
def ofMemory (host : Endian) (w : Nat) (bytes : List UInt8) : BitVec w :=
  BitVec.ofNat w (Lib.leNat (host.order bytes))

/-- `bswap_16`, `bswap_32` and `bswap_64`: the bytes in the opposite order. -/
def byteswap {w : Nat} (value : BitVec w) : BitVec w :=
  BitVec.ofNat w (Lib.leNat (Lib.leBytes (w / 8) value.toNat).reverse)

/-- The common body of `writeFint16` to `writeFuint64`. -/
def writeFixed (host : Endian) {w : Nat} (value : BitVec w) : Op Unit := do
  let ba ← get
  let value := if ba.endian ≠ host then byteswap value else value
  write (memoryOf host value)

/-- The macro `XX(type)`, the common body of `readFint16` to `readFuint64`. -/
def readFixed (host : Endian) (w : Nat) : Op (BitVec w) := do
  let bytes ← read (w / 8)
  let v := ofMemory host w bytes
  let ba ← get
  if ba.endian = host then return v else return byteswap v

section Fixed
variable (host : Endian)

def writeFint8 (value : Int8) : Op Unit := write (memoryOf host value.toBitVec)
def writeFuint8 (value : UInt8) : Op Unit := write (memoryOf host value.toBitVec)
def writeFint16 (value : Int16) : Op Unit := writeFixed host value.toBitVec
def writeFuint16 (value : UInt16) : Op Unit := writeFixed host value.toBitVec
def writeFint32 (value : Int32) : Op Unit := writeFixed host value.toBitVec
def writeFuint32 (value : UInt32) : Op Unit := writeFixed host value.toBitVec
def writeFint64 (value : Int64) : Op Unit := writeFixed host value.toBitVec
def writeFuint64 (value : UInt64) : Op Unit := writeFixed host value.toBitVec
def writeFloat (value : UInt32) : Op Unit := writeFuint32 host value
def writeDouble (value : UInt64) : Op Unit := writeFuint64 host value

def readFint8 : Op Int8 := do return Int8.ofBitVec (ofMemory host 8 (← read 1))
def readFuint8 : Op UInt8 := do return UInt8.ofBitVec (ofMemory host 8 (← read 1))
def readFint16 : Op Int16 := do return Int16.ofBitVec (← readFixed host 16)
def readFuint16 : Op UInt16 := do return UInt16.ofBitVec (← readFixed host 16)
def readFint32 : Op Int32 := do return Int32.ofBitVec (← readFixed host 32)
def readFuint32 : Op UInt32 := do return UInt32.ofBitVec (← readFixed host 32)
def readFint64 : Op Int64 := do return Int64.ofBitVec (← readFixed host 64)
def readFuint64 : Op UInt64 := do return UInt64.ofBitVec (← readFixed host 64)
def readFloat : Op UInt32 := readFuint32 host
def readDouble : Op UInt64 := readFuint64 host

end Fixed

/-- `EncodeZigzag32` and `EncodeZigzag64`; negation and doubling wrap around. -/
def encodeZigzag {w : Nat} (v : BitVec w) : BitVec w :=
  if v.slt 0 then (-v) * 2 - 1 else v * 2

def decodeZigzag {w : Nat} (v : BitVec w) : BitVec w :=
  (v >>> 1) ^^^ -(v &&& 1)

/-- The bytes that `writeUint32` and `writeUint64` collect in `tmp`. The index
into `tmp` is not checked, so running out of its `slots` is a fault. -/
def varint {w : Nat} : (slots : Nat) → BitVec w → Except Fault (List UInt8)
  | 0, _ => .error .outOfBounds
  | slots + 1, value =>
    if value ≥ 0x80 then
      match varint slots (value >>> 7) with
      | .error fault => .error fault
      | .ok rest => .ok (UInt8.ofBitVec ((value &&& 0x7F ||| 0x80).setWidth 8) :: rest)
    else .ok [UInt8.ofBitVec (value.setWidth 8)]

def writeVarint {w : Nat} (slots : Nat) (value : BitVec w) : Op Unit :=
  match varint slots value with
  | .error fault => throw fault
  | .ok tmp => write tmp

/-- The loop of `readUint32` and `readUint64`, `rounds` rounds before `i`
reaches the width. -/
def readVarint (host : Endian) {w : Nat} : (rounds i : Nat) → BitVec w → Op (BitVec w)
  | 0, _, result => return result
  | rounds + 1, i, result => do
    let b ← readFuint8 host
    if b < 0x80 then
      return result ||| (b.toBitVec.setWidth w <<< i)
    else
      readVarint host rounds (i + 7) (result ||| ((b &&& 0x7f).toBitVec.setWidth w <<< i))

def writeUint32 (value : UInt32) : Op Unit := writeVarint 5 value.toBitVec
def writeUint64 (value : UInt64) : Op Unit := writeVarint 10 value.toBitVec
def writeInt32 (value : Int32) : Op Unit :=
  writeUint32 (UInt32.ofBitVec (encodeZigzag value.toBitVec))
def writeInt64 (value : Int64) : Op Unit :=
  writeUint64 (UInt64.ofBitVec (encodeZigzag value.toBitVec))

section Varint
variable (host : Endian)

/-- `i` takes the values 0, 7, 14, 21 and 28. -/
def readUint32 : Op UInt32 := do return UInt32.ofBitVec (← readVarint host 5 0 0)
/-- `i` takes the values 0, 7, …, 63. -/
def readUint64 : Op UInt64 := do return UInt64.ofBitVec (← readVarint host 10 0 0)
def readInt32 : Op Int32 := do
  return Int32.ofBitVec (decodeZigzag (← readUint32 host).toBitVec)
def readInt64 : Op Int64 := do
  return Int64.ofBitVec (decodeZigzag (← readUint64 host).toBitVec)

end Varint

end ByteArray
end Sylar
