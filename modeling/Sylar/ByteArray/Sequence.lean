import Sylar.ByteArray.RoundTrip

/-! Sequences of typed scalars: whatever is written to a fresh array is read
back in order from position 0. -/
namespace Sylar

inductive Scalar where
  | fint8 (value : Int8)
  | fuint8 (value : UInt8)
  | fint16 (value : Int16)
  | fuint16 (value : UInt16)
  | fint32 (value : Int32)
  | fuint32 (value : UInt32)
  | fint64 (value : Int64)
  | fuint64 (value : UInt64)
  | int32 (value : Int32)
  | uint32 (value : UInt32)
  | int64 (value : Int64)
  | uint64 (value : UInt64)
  | float (bits : UInt32)
  | double (bits : UInt64)
deriving DecidableEq

inductive ScalarKind where
  | fint8 | fuint8 | fint16 | fuint16 | fint32 | fuint32 | fint64 | fuint64
  | int32 | uint32 | int64 | uint64 | float | double
deriving DecidableEq

def Scalar.kind : Scalar → ScalarKind
  | .fint8 _ => .fint8
  | .fuint8 _ => .fuint8
  | .fint16 _ => .fint16
  | .fuint16 _ => .fuint16
  | .fint32 _ => .fint32
  | .fuint32 _ => .fuint32
  | .fint64 _ => .fint64
  | .fuint64 _ => .fuint64
  | .int32 _ => .int32
  | .uint32 _ => .uint32
  | .int64 _ => .int64
  | .uint64 _ => .uint64
  | .float _ => .float
  | .double _ => .double

/-- The bytes a scalar takes on the wire. A fixed-width value is the two's
complement of its integer value in the order of the array. -/
def Scalar.wire (endian : Endian) : Scalar → Except Fault (List UInt8)
  | .fint8 value => .ok (endian.order (Lib.leBytes 1 value.toInt))
  | .fuint8 value => .ok (endian.order (Lib.leBytes 1 value.toNat))
  | .fint16 value => .ok (endian.order (Lib.leBytes 2 value.toInt))
  | .fuint16 value => .ok (endian.order (Lib.leBytes 2 value.toNat))
  | .fint32 value => .ok (endian.order (Lib.leBytes 4 value.toInt))
  | .fuint32 value => .ok (endian.order (Lib.leBytes 4 value.toNat))
  | .fint64 value => .ok (endian.order (Lib.leBytes 8 value.toInt))
  | .fuint64 value => .ok (endian.order (Lib.leBytes 8 value.toNat))
  | .int32 value => ByteArray.varint 5 (ByteArray.encodeZigzag value.toBitVec)
  | .uint32 value => ByteArray.varint 5 value.toBitVec
  | .int64 value => ByteArray.varint 10 (ByteArray.encodeZigzag value.toBitVec)
  | .uint64 value => ByteArray.varint 10 value.toBitVec
  | .float bits => .ok (endian.order (Lib.leBytes 4 bits.toNat))
  | .double bits => .ok (endian.order (Lib.leBytes 8 bits.toNat))

def Scalar.wireAll (endian : Endian) : List Scalar → Except Fault (List UInt8)
  | [] => .ok []
  | scalar :: scalars => do
    let bytes ← scalar.wire endian
    let rest ← wireAll endian scalars
    return bytes ++ rest

namespace ByteArray

section
variable (host : Endian)

def writeScalar : Scalar → Op Unit
  | .fint8 value => writeFint8 host value
  | .fuint8 value => writeFuint8 host value
  | .fint16 value => writeFint16 host value
  | .fuint16 value => writeFuint16 host value
  | .fint32 value => writeFint32 host value
  | .fuint32 value => writeFuint32 host value
  | .fint64 value => writeFint64 host value
  | .fuint64 value => writeFuint64 host value
  | .int32 value => writeInt32 value
  | .uint32 value => writeUint32 value
  | .int64 value => writeInt64 value
  | .uint64 value => writeUint64 value
  | .float bits => writeFloat host bits
  | .double bits => writeDouble host bits

def readScalar : ScalarKind → Op Scalar
  | .fint8 => do return .fint8 (← readFint8 host)
  | .fuint8 => do return .fuint8 (← readFuint8 host)
  | .fint16 => do return .fint16 (← readFint16 host)
  | .fuint16 => do return .fuint16 (← readFuint16 host)
  | .fint32 => do return .fint32 (← readFint32 host)
  | .fuint32 => do return .fuint32 (← readFuint32 host)
  | .fint64 => do return .fint64 (← readFint64 host)
  | .fuint64 => do return .fuint64 (← readFuint64 host)
  | .int32 => do return .int32 (← readInt32 host)
  | .uint32 => do return .uint32 (← readUint32 host)
  | .int64 => do return .int64 (← readInt64 host)
  | .uint64 => do return .uint64 (← readUint64 host)
  | .float => do return .float (← readFloat host)
  | .double => do return .double (← readDouble host)

def writeScalars : List Scalar → Op Unit
  | [] => return ()
  | scalar :: scalars => do
    writeScalar host scalar
    writeScalars scalars

def readScalars : List ScalarKind → Op (List Scalar)
  | [] => return []
  | kind :: kinds => do
    let scalar ← readScalar host kind
    let scalars ← readScalars kinds
    return scalar :: scalars

end

def writeWire (wire : Except Fault (List UInt8)) : Op Unit :=
  match wire with
  | .error fault => throw fault
  | .ok bytes => write bytes

private theorem memoryOf_byte (host endian : Endian) (value : BitVec 8) :
    memoryOf host value = endian.order (Lib.leBytes 1 value.toNat) := by
  change host.order [_] = endian.order [_]
  rw [order_singleton, order_singleton]

theorem writeScalar_eq (host : Endian) (scalar : Scalar) (ba : ByteArray) :
    writeScalar host scalar ba = writeWire (scalar.wire ba.endian) ba := by
  cases scalar with
  | fint8 value =>
    change write (memoryOf host value.toBitVec) ba = _
    rw [memoryOf_byte host ba.endian, ← leBytes_toInt (w := 8) (by decide)]
    rfl
  | fuint8 value =>
    change write (memoryOf host value.toBitVec) ba = _
    rw [memoryOf_byte host ba.endian]
    rfl
  | fint16 value =>
    change writeFixed host value.toBitVec ba = _
    rw [writeFixed_eq (by decide), ← leBytes_toInt (by decide)]
    rfl
  | fuint16 value =>
    change writeFixed host value.toBitVec ba = _
    rw [writeFixed_eq (by decide)]
    rfl
  | fint32 value =>
    change writeFixed host value.toBitVec ba = _
    rw [writeFixed_eq (by decide), ← leBytes_toInt (by decide)]
    rfl
  | fuint32 value =>
    change writeFixed host value.toBitVec ba = _
    rw [writeFixed_eq (by decide)]
    rfl
  | fint64 value =>
    change writeFixed host value.toBitVec ba = _
    rw [writeFixed_eq (by decide), ← leBytes_toInt (by decide)]
    rfl
  | fuint64 value =>
    change writeFixed host value.toBitVec ba = _
    rw [writeFixed_eq (by decide)]
    rfl
  | int32 value => rfl
  | uint32 value => rfl
  | int64 value => rfl
  | uint64 value => rfl
  | float bits =>
    change writeFixed host bits.toBitVec ba = _
    rw [writeFixed_eq (by decide)]
    rfl
  | double bits =>
    change writeFixed host bits.toBitVec ba = _
    rw [writeFixed_eq (by decide)]
    rfl

section
variable (host : Endian) {w : Nat} (hw : 8 ∣ w) (hpos : 0 < w) (value : BitVec w) {α : Type}
  (f : BitVec w → α) (g : α → Scalar) (ba : ByteArray)
include hw hpos

private theorem readFixed_wire
    (hahead : Ahead ba (ba.endian.order (Lib.leBytes (w / 8) value.toNat))) :
    ∃ ba', (do return g (← (do return f (← readFixed host w) : Op α)) : Op Scalar) ba =
        .ok (g (f value)) ba' ∧
      ReadTo ba (ba.endian.order (Lib.leBytes (w / 8) value.toNat)).length ba' := by
  rw [length_order, Lib.length_leBytes]
  obtain ⟨ba', hread, heffect⟩ := readFixed_ok hw host value hpos ba hahead
  exact ⟨ba', Op.map_ok _ (Op.map_ok _ hread), heffect⟩

private theorem readSigned_wire
    (hahead : Ahead ba (ba.endian.order (Lib.leBytes (w / 8) value.toInt))) :
    ∃ ba', (do return g (← (do return f (← readFixed host w) : Op α)) : Op Scalar) ba =
        .ok (g (f value)) ba' ∧
      ReadTo ba (ba.endian.order (Lib.leBytes (w / 8) value.toInt)).length ba' := by
  rw [leBytes_toInt hw] at hahead ⊢
  exact readFixed_wire host hw hpos value f g ba hahead

end

private theorem readZigzag_wire (host : Endian) (slots : Nat) {w : Nat} (hw : 8 ≤ w)
    (value : BitVec w) {α β : Type} (pack : BitVec w → β) (unpack : β → BitVec w)
    (hunpack : ∀ word, unpack (pack word) = word) (f : BitVec w → α) (g : α → Scalar)
    (bytes : List UInt8) (ba : ByteArray) (hwire : varint slots (encodeZigzag value) = .ok bytes)
    (hahead : Ahead ba bytes) :
    ∃ ba', (do return g (← (do
        return f (decodeZigzag (unpack (← (do return pack (← readVarint host slots 0 0) : Op β)))) :
          Op α)) : Op Scalar) ba = .ok (g (f value)) ba' ∧ ReadTo ba bytes.length ba' := by
  obtain ⟨ba', hread, heffect⟩ :=
    readVarint_zero hw host slots (encodeZigzag value) bytes ba hwire hahead
  have hvalue : decodeZigzag (unpack (pack (encodeZigzag value))) = value := by
    rw [hunpack, decodeZigzag_encodeZigzag _ (by omega)]
  refine ⟨ba', ?_, heffect⟩
  conv_rhs => rw [← hvalue]
  exact Op.map_ok _ (Op.map_ok _ (Op.map_ok _ hread))

private theorem read_byte (host : Endian) (value : BitVec 8) (ba : ByteArray)
    (hahead : Ahead ba (ba.endian.order (Lib.leBytes 1 value.toNat))) :
    ∃ bytes ba', read 1 ba = .ok bytes ba' ∧ ofMemory host 8 bytes = value ∧
      ReadTo ba (ba.endian.order (Lib.leBytes 1 value.toNat)).length ba' := by
  have hbyte : ba.endian.order (Lib.leBytes 1 value.toNat) = [UInt8.ofBitVec value] := by
    change ba.endian.order [_] = _
    rw [order_singleton]
    congr 1
    apply UInt8.toNat_inj.mp
    have hlt := value.isLt
    rw [UInt8.toNat_ofNat', UInt8.toNat_ofBitVec]
    omega
  rw [hbyte] at hahead ⊢
  obtain ⟨ba', hread, heffect⟩ := hahead.read Nat.one_pos
  refine ⟨_, ba', hread, ?_, heffect⟩
  apply BitVec.eq_of_toNat_eq
  have hlt := value.isLt
  rw [ofMemory, order_singleton, BitVec.toNat_ofNat, Lib.leNat, Lib.leNat, UInt8.toNat_ofBitVec]
  omega

theorem readScalar_ok (host : Endian) (scalar : Scalar) (bytes : List UInt8) (ba : ByteArray)
    (hwire : scalar.wire ba.endian = .ok bytes) (hahead : Ahead ba bytes) :
    ∃ ba', readScalar host scalar.kind ba = .ok scalar ba' ∧ ReadTo ba bytes.length ba' := by
  cases scalar with
  | fint8 value =>
    cases hwire
    have hint : Lib.leBytes 1 value.toInt = _ := leBytes_toInt (w := 8) (by decide) value.toBitVec
    rw [hint] at hahead ⊢
    obtain ⟨memory, ba', hread, hvalue, heffect⟩ := read_byte host value.toBitVec ba hahead
    refine ⟨ba', ?_, heffect⟩
    rw [← Int8.ofBitVec_toBitVec value, ← hvalue]
    exact Op.map_ok _ (Op.map_ok _ hread)
  | fuint8 value =>
    cases hwire
    obtain ⟨memory, ba', hread, hvalue, heffect⟩ := read_byte host value.toBitVec ba hahead
    refine ⟨ba', ?_, heffect⟩
    rw [← UInt8.ofBitVec_toBitVec value, ← hvalue]
    exact Op.map_ok _ (Op.map_ok _ hread)
  | fint16 value =>
    cases hwire
    exact readSigned_wire host (by decide) (by decide) value.toBitVec Int16.ofBitVec .fint16 ba hahead
  | fuint16 value =>
    cases hwire
    exact readFixed_wire host (by decide) (by decide) value.toBitVec UInt16.ofBitVec .fuint16 ba hahead
  | fint32 value =>
    cases hwire
    exact readSigned_wire host (by decide) (by decide) value.toBitVec Int32.ofBitVec .fint32 ba hahead
  | fuint32 value =>
    cases hwire
    exact readFixed_wire host (by decide) (by decide) value.toBitVec UInt32.ofBitVec .fuint32 ba hahead
  | fint64 value =>
    cases hwire
    exact readSigned_wire host (by decide) (by decide) value.toBitVec Int64.ofBitVec .fint64 ba hahead
  | fuint64 value =>
    cases hwire
    exact readFixed_wire host (by decide) (by decide) value.toBitVec UInt64.ofBitVec .fuint64 ba hahead
  | int32 value =>
    exact readZigzag_wire host 5 (by decide) value.toBitVec UInt32.ofBitVec
      UInt32.toBitVec (fun _ => rfl) Int32.ofBitVec .int32 bytes ba hwire hahead
  | uint32 value =>
    obtain ⟨ba', hread, heffect⟩ :=
      readVarint_zero (by decide) host 5 value.toBitVec bytes ba hwire hahead
    exact ⟨ba', Op.map_ok _ (Op.map_ok _ hread), heffect⟩
  | int64 value =>
    exact readZigzag_wire host 10 (by decide) value.toBitVec UInt64.ofBitVec
      UInt64.toBitVec (fun _ => rfl) Int64.ofBitVec .int64 bytes ba hwire hahead
  | uint64 value =>
    obtain ⟨ba', hread, heffect⟩ :=
      readVarint_zero (by decide) host 10 value.toBitVec bytes ba hwire hahead
    exact ⟨ba', Op.map_ok _ (Op.map_ok _ hread), heffect⟩
  | float bits =>
    cases hwire
    exact readFixed_wire host (by decide) (by decide) bits.toBitVec UInt32.ofBitVec .float ba hahead
  | double bits =>
    cases hwire
    exact readFixed_wire host (by decide) (by decide) bits.toBitVec UInt64.ofBitVec .double ba hahead

theorem writeScalars_ok (host : Endian) (scalars : List Scalar) (ba ba' : ByteArray)
    (hba : ba.Coherent) (hend : ba.position = ba.size)
    (hwrite : writeScalars host scalars ba = .ok () ba') :
    ∃ bytes, Scalar.wireAll ba.endian scalars = .ok bytes ∧ ba'.Coherent ∧
      ba'.endian = ba.endian ∧ ba'.size = ba.size + bytes.length ∧
      ba'.contents.take ba'.size = ba.contents.take ba.size ++ bytes := by
  induction scalars generalizing ba with
  | nil =>
    cases hwrite
    exact ⟨[], rfl, hba, rfl, rfl, (List.append_nil _).symm⟩
  | cons scalar scalars ih =>
    obtain ⟨_, next, hfirst, hrest⟩ := Op.of_bind_ok hwrite
    rw [writeScalar_eq] at hfirst
    cases hwire : scalar.wire ba.endian with
    | error fault =>
      rw [hwire] at hfirst
      cases hfirst
    | ok bytes =>
      rw [hwire] at hfirst
      have heffect := write_ok hba bytes hfirst
      obtain ⟨hend', hsize, hdata⟩ := heffect.append hba hend
      obtain ⟨rest, hwires, hcoherent, hendian, hsize', hdata'⟩ :=
        ih next heffect.coherent hend' hrest
      rw [heffect.endian_eq] at hwires hendian
      refine ⟨bytes ++ rest, ?_, hcoherent, hendian, ?_, ?_⟩
      · simp only [Scalar.wireAll, hwire, hwires]
        rfl
      · rw [hsize', hsize, List.length_append, Nat.add_assoc]
      · rw [hdata', hdata, List.append_assoc]

theorem readScalars_ok (host : Endian) (scalars : List Scalar) (bytes : List UInt8)
    (ba : ByteArray) (hwires : Scalar.wireAll ba.endian scalars = .ok bytes)
    (hahead : Ahead ba bytes) :
    ∃ ba', readScalars host (scalars.map Scalar.kind) ba = .ok scalars ba' ∧
      ReadTo ba bytes.length ba' := by
  induction scalars generalizing ba bytes with
  | nil =>
    cases hwires
    exact ⟨ba, rfl, .refl hahead.coherent⟩
  | cons scalar scalars ih =>
    cases hwire : scalar.wire ba.endian with
    | error fault =>
      simp only [Scalar.wireAll, hwire] at hwires
      cases hwires
    | ok first =>
      cases hrest : Scalar.wireAll ba.endian scalars with
      | error fault =>
        simp only [Scalar.wireAll, hwire, hrest] at hwires
        cases hwires
      | ok rest =>
        simp only [Scalar.wireAll, hwire, hrest] at hwires
        cases hwires
        obtain ⟨next, hread, hmoved⟩ :=
          readScalar_ok host scalar first ba hwire ((ahead_append_iff first rest).mp hahead).1
        obtain ⟨ba', hreads, heffect⟩ :=
          ih rest next (by rw [hmoved.endian_eq]; exact hrest) (Ahead.next first rest hahead hmoved)
        refine ⟨ba', ?_, ?_⟩
        · rw [List.map_cons, readScalars, Op.bind_ok hread]
          exact Op.map_ok _ hreads
        · rw [List.length_append]
          exact hmoved.trans heffect

/-- Whatever scalars were written to a fresh array are read back from position
0, in order and to the last byte; the array holds exactly their wire bytes. -/
theorem scalars_round_trip (host : Endian) (baseSize : Nat) (hbase : 0 < baseSize)
    (fresh : Nat → Nat → UInt8) (little : Bool) (scalars : List Scalar) (ba : ByteArray)
    (hwrite : writeScalars host scalars ((new baseSize fresh).setIsLittleEndian little) =
      .ok () ba) :
    (∃ bytes, Scalar.wireAll (if little then .little else .big) scalars = .ok bytes ∧
      ba.contents.take ba.size = bytes) ∧
    ∃ start last, setPosition 0 ba = .ok () start ∧
      readScalars host (scalars.map Scalar.kind) start = .ok scalars last ∧
      last.getReadSize = 0 := by
  have hinit := (coherent_new baseSize fresh hbase).setIsLittleEndian little
  obtain ⟨bytes, hwires, hba, hendian, hsize, hdata⟩ :=
    writeScalars_ok host scalars _ ba hinit rfl hwrite
  have hsize' : ba.size = bytes.length := hsize.trans (Nat.zero_add _)
  have hdata' : ba.contents.take ba.size = bytes := hdata
  obtain ⟨start, hseek, hmoved⟩ := setPosition_ok hba 0 (Nat.zero_le _)
  have hstart : start.size = bytes.length := by
    rw [hmoved.size_eq, hsize']
    exact Nat.max_eq_left (Nat.zero_le _)
  have hahead : Ahead start bytes := by
    refine ⟨hmoved.coherent, ?_, ?_⟩
    · rw [getReadSize, hstart, hmoved.position_eq]
      exact Nat.le_refl _
    · rw [Lib.slice, hmoved.contents_eq, hmoved.position_eq, List.drop_zero, ← hsize']
      exact hdata'
  have hwires' : Scalar.wireAll start.endian scalars = .ok bytes := by
    rw [hmoved.endian_eq, hendian]
    exact hwires
  obtain ⟨last, hread, heffect⟩ := readScalars_ok host scalars bytes start hwires' hahead
  refine ⟨⟨bytes, hwires, hdata'⟩, start, last, hseek, hread, ?_⟩
  rw [getReadSize, heffect.size_eq, heffect.position_eq, hmoved.position_eq, hstart]
  omega

theorem scalars_round_trip_straddling :
    ∃ ba start last,
      writeScalars .little [.int32 (-300), .fint16 (-2)]
        ((new 1 fun _ _ => 0).setIsLittleEndian false) = .ok () ba ∧
      ba.contents.take ba.size = [0xD7, 0x04, 0xFF, 0xFE] ∧
      setPosition 0 ba = .ok () start ∧
      readScalars .little [.int32, .fint16] start = .ok [.int32 (-300), .fint16 (-2)] last := by
  obtain ⟨-, start, last, hseek, hread, -⟩ :=
    scalars_round_trip .little 1 (by decide) (fun _ _ => 0) false [.int32 (-300), .fint16 (-2)] _ rfl
  exact ⟨_, start, last, rfl, rfl, hseek, hread⟩

end ByteArray
end Sylar
