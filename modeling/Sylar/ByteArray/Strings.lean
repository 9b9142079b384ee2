import Sylar.ByteArray.Capacity
import Sylar.ByteArray.Sequence

/-! The strings of `bytearray.cc`: a length field and the bytes.

A string is read in two steps, and the second one asks `read` for as many bytes as the first one
says. `read` looks at the node under the cursor before it looks at the size, so the empty string
is read back only where there is such a node. -/
namespace Sylar
namespace ByteArray

section
variable (host : Endian)

def writeStringF16 (value : List UInt8) : Op Unit := do
  writeFuint16 host (UInt16.ofNat value.length)
  write value

def writeStringF32 (value : List UInt8) : Op Unit := do
  writeFuint32 host (UInt32.ofNat value.length)
  write value

def writeStringF64 (value : List UInt8) : Op Unit := do
  writeFuint64 host (UInt64.ofNat value.length)
  write value

def writeStringVint (value : List UInt8) : Op Unit := do
  writeUint64 (UInt64.ofNat value.length)
  write value

def readStringF16 : Op (List UInt8) := do
  let len ← readFuint16 host
  read len.toNat

def readStringF32 : Op (List UInt8) := do
  let len ← readFuint32 host
  read len.toNat

def readStringF64 : Op (List UInt8) := do
  let len ← readFuint64 host
  read len.toNat

def readStringVint : Op (List UInt8) := do
  let len ← readUint64 host
  read len.toNat

end

inductive StringFormat where
  | f16
  | f32
  | f64
  | vint
deriving DecidableEq, Repr

namespace StringFormat

/-- The lengths that fit the field; `std::string::size` is a `size_t`. -/
def limit : StringFormat → Nat
  | .f16 => 2 ^ 16
  | .f32 => 2 ^ 32
  | .f64 => 2 ^ 64
  | .vint => 2 ^ 64

def field (length : Nat) : StringFormat → Scalar
  | .f16 => .fuint16 (UInt16.ofNat length)
  | .f32 => .fuint32 (UInt32.ofNat length)
  | .f64 => .fuint64 (UInt64.ofNat length)
  | .vint => .uint64 (UInt64.ofNat length)

def emptySize : StringFormat → Nat
  | .f16 => 2
  | .f32 => 4
  | .f64 => 8
  | .vint => 1

end StringFormat

def writeString (host : Endian) : StringFormat → List UInt8 → Op Unit
  | .f16 => writeStringF16 host
  | .f32 => writeStringF32 host
  | .f64 => writeStringF64 host
  | .vint => writeStringVint

def readString (host : Endian) : StringFormat → Op (List UInt8)
  | .f16 => readStringF16 host
  | .f32 => readStringF32 host
  | .f64 => readStringF64 host
  | .vint => readStringVint host

theorem writeString_eq (host : Endian) (format : StringFormat) (value : List UInt8) :
    writeString host format value =
      (writeScalar host (format.field value.length) >>= fun _ => write value) := by
  cases format <;> rfl

theorem read_of_field {α : Type} (decode : Op α) (toNat : α → Nat) (scalar : α → Scalar)
    (hscalar : Function.Injective scalar) (len : α) (ba ba' : ByteArray)
    (hfield : (do return scalar (← decode) : Op Scalar) ba = .ok (scalar len) ba') :
    (decode >>= fun len => read (toNat len)) ba = read (toNat len) ba' := by
  obtain ⟨len', next, hlen, hreturn⟩ := Op.of_bind_ok hfield
  obtain ⟨hsame, rfl⟩ := EStateM.Result.ok.inj hreturn
  rw [Op.bind_ok hlen, hscalar hsame]

theorem readString_eq (host : Endian) (format : StringFormat) (length : Nat)
    (hlength : length < format.limit) (ba ba' : ByteArray)
    (hfield : readScalar host (format.field length).kind ba = .ok (format.field length) ba') :
    readString host format ba = read length ba' := by
  cases format with
  | f16 =>
    have hread := read_of_field (readFuint16 host) UInt16.toNat .fuint16
      (fun _ _ => Scalar.fuint16.inj) _ ba ba' hfield
    rw [UInt16.toNat_ofNat_of_lt' hlength] at hread
    exact hread
  | f32 =>
    have hread := read_of_field (readFuint32 host) UInt32.toNat .fuint32
      (fun _ _ => Scalar.fuint32.inj) _ ba ba' hfield
    rw [UInt32.toNat_ofNat_of_lt' hlength] at hread
    exact hread
  | f64 =>
    have hread := read_of_field (readFuint64 host) UInt64.toNat .fuint64
      (fun _ _ => Scalar.fuint64.inj) _ ba ba' hfield
    rw [UInt64.toNat_ofNat_of_lt' hlength] at hread
    exact hread
  | vint =>
    have hread := read_of_field (readUint64 host) UInt64.toNat .uint64
      (fun _ _ => Scalar.uint64.inj) _ ba ba' hfield
    rw [UInt64.toNat_ofNat_of_lt' hlength] at hread
    exact hread

theorem length_emptyField (format : StringFormat) (endian : Endian) (bytes : List UInt8)
    (hwire : (format.field 0).wire endian = .ok bytes) : bytes.length = format.emptySize := by
  cases format with
  | vint =>
    cases hwire
    rfl
  | _ =>
    cases hwire
    rw [length_order, Lib.length_leBytes]
    rfl

theorem Wrote.ahead {ba mid after start : ByteArray} {first second : List UInt8}
    (hfirst : Wrote ba first mid) (hsecond : Wrote mid second after)
    (hmoved : MovedTo after ba.position start) : Ahead start (first ++ second) := by
  have hmid := hfirst.position_eq
  refine ⟨hmoved.coherent, ?_, ?_⟩
  · rw [getReadSize, hmoved.size_eq, hmoved.position_eq, hsecond.size_eq, List.length_append]
    omega
  · rw [hmoved.contents_eq, hmoved.position_eq, Lib.slice_eq_append_iff]
    constructor
    · rw [hsecond.slice_before hfirst.coherent _ _ (by omega)]
      exact hfirst.slice_eq
    · rw [← hmid]
      exact hsecond.slice_eq

/-- A string that was written is read back from where it was written, and the cursor is then
where the write left it. -/
structure ReadsBack (host : Endian) (format : StringFormat) (value : List UInt8) (origin : Nat)
    (after : ByteArray) : Prop where
  reads : ∃ start last, setPosition origin after = .ok () start ∧
    readString host format start = .ok value last ∧ last.position = after.position

section
variable (host : Endian) (format : StringFormat) (value : List UInt8)
  (hlength : value.length < format.limit) (ba after : ByteArray) (hba : ba.Coherent)
  (hwrite : writeString host format value ba = .ok () after)
include hlength hba hwrite

theorem readString_reaches :
    ∃ bytes start next, (format.field value.length).wire ba.endian = .ok bytes ∧
      (∃ mid, write bytes ba = .ok () mid ∧ write value mid = .ok () after) ∧
      setPosition ba.position after = .ok () start ∧
      readString host format start = read value.length next ∧ Ahead next value ∧
      next.position + value.length = after.position ∧ next.capacity = after.capacity := by
  rw [writeString_eq] at hwrite
  obtain ⟨_, mid, hfield, hvalue⟩ := Op.of_bind_ok hwrite
  rw [writeScalar_eq] at hfield
  cases hwire : (format.field value.length).wire ba.endian with
  | error fault =>
    rw [hwire] at hfield
    cases hfield
  | ok bytes =>
    rw [hwire] at hfield
    have hfirst := write_ok hba bytes hfield
    have hsecond := write_ok hfirst.coherent value hvalue
    have hposition : after.position = ba.position + bytes.length + value.length := by
      rw [hsecond.position_eq, hfirst.position_eq]
    have hcapacity := hsecond.coherent.position_le_capacity
    obtain ⟨start, hseek, hmoved⟩ := setPosition_ok hsecond.coherent ba.position (by omega)
    have hahead := hfirst.ahead hsecond hmoved
    have hendian : start.endian = ba.endian := by
      rw [hmoved.endian_eq, hsecond.endian_eq, hfirst.endian_eq]
    obtain ⟨next, hread, hnext⟩ := readScalar_ok host (format.field value.length) bytes start
      (hendian ▸ hwire) ((ahead_append_iff bytes value).mp hahead).1
    refine ⟨bytes, start, next, rfl, ⟨mid, hfield, hvalue⟩, hseek,
      readString_eq host format value.length hlength start next hread,
      Ahead.next bytes value hahead hnext, ?_, ?_⟩
    · rw [hnext.position_eq, hmoved.position_eq, hposition]
    · rw [← hnext.coherent.length_contents, hnext.contents_eq, hmoved.contents_eq,
        hsecond.coherent.length_contents]

theorem readsBack_of_ne_nil (hvalue : value ≠ []) :
    ReadsBack host format value ba.position after := by
  obtain ⟨bytes, start, next, -, -, hseek, hread, hahead, hposition, -⟩ :=
    readString_reaches host format value hlength ba after hba hwrite
  obtain ⟨last, hlast, hmoved⟩ := hahead.read (List.length_pos_of_ne_nil hvalue)
  refine ⟨start, last, hseek, hread.trans hlast, ?_⟩
  rw [hmoved.position_eq, hposition]

theorem readsBack_nil_iff (hvalue : value = []) :
    ReadsBack host format value ba.position after ↔ after.position ≠ after.capacity := by
  obtain ⟨bytes, start, next, -, -, hseek, hread, hahead, hposition, hcapacity⟩ :=
    readString_reaches host format value hlength ba after hba hwrite
  subst hvalue
  rw [List.length_nil, Nat.add_zero] at hposition
  rw [← hposition, ← hcapacity]
  constructor
  · rintro ⟨start', last, hseek', hread', -⟩ hfull
    rw [hseek] at hseek'
    cases hseek'
    rw [hread, read_null hahead.coherent _ hahead.available hfull] at hread'
    cases hread'
  · intro hroom
    obtain ⟨last, hlast, hmoved⟩ := read_ok hahead.coherent 0 (Nat.zero_le _)
      (Nat.lt_of_le_of_ne hahead.coherent.position_le_capacity hroom)
    rw [Lib.slice_zero] at hlast
    exact ⟨start, last, hseek, hread.trans hlast, hmoved.position_eq.trans hposition⟩

end

/-- In every state that calls on a new `ByteArray` lead to, a string that was written is read back
unless it is empty and its length field ends with the last block. -/
theorem readString_after_writeString_iff (host : Endian) (baseSize : Nat) (hbase : 0 < baseSize)
    (fresh : Nat → Nat → UInt8) (calls : List Call) (ba : ByteArray)
    (hrun : Lib.run step (new baseSize fresh) calls = some ba) (little : Bool)
    (format : StringFormat) (value : List UInt8) (hlength : value.length < format.limit)
    (after : ByteArray)
    (hwrite : writeString host format value (ba.setIsLittleEndian little) = .ok () after) :
    ReadsBack host format value ba.position after ↔
      value ≠ [] ∨ (ba.position + format.emptySize) % ba.baseSize ≠ 0 ∨
        ba.position + format.emptySize < ba.capacity := by
  have hba := (coherent_of_run baseSize hbase fresh calls ba hrun).1.setIsLittleEndian little
  by_cases hvalue : value = []
  · obtain ⟨bytes, -, -, hwire, ⟨mid, hfield, hempty⟩, -⟩ :=
      readString_reaches host format value hlength _ after hba hwrite
    have hiff := readsBack_nil_iff host format value hlength _ after hba hwrite hvalue
    subst hvalue
    cases hempty
    have hbytes := length_emptyField format _ bytes hwire
    have hpos : 0 < bytes.length := by
      rw [hbytes]
      cases format <;> decide
    have hfills := write_fills_iff (ba.setIsLittleEndian little) after hba bytes hpos hfield
    rw [hbytes] at hfills
    change ReadsBack host format [] ba.position after ↔ _ at hiff
    change _ ↔ (ba.position + format.emptySize) % ba.baseSize = 0 ∧
      ba.capacity ≤ ba.position + format.emptySize at hfills
    rw [hiff, Ne, hfills]
    simp only [ne_eq, not_true_eq_false, false_or]
    omega
  · have hback := readsBack_of_ne_nil host format value hlength _ after hba hwrite hvalue
    exact iff_of_true hback (.inl hvalue)

theorem readString_after_writeString_iff_across_blocks :
    ∃ after, writeString .little .vint [7, 8, 9] (new 2 fun _ _ => 0) = .ok () after ∧
      ReadsBack .little .vint [7, 8, 9] 0 after := by
  refine ⟨_, rfl, ?_⟩
  exact (readString_after_writeString_iff .little 2 (by decide) (fun _ _ => 0) [] _ rfl false .vint
    [7, 8, 9] (by decide) _ rfl).mpr (.inl (by decide))

/-- The four bytes of the length fill the only block. -/
theorem readStringF32_empty_at_block_end :
    ∃ after start, writeStringF32 .little [] (new 4 fun _ _ => 0) = .ok () after ∧
      setPosition 0 after = .ok () start ∧
      (∃ ba', readStringF32 .little start = .error .nullNode ba') ∧
      ¬ ReadsBack .little .f32 [] 0 after := by
  refine ⟨_, _, rfl, rfl, ⟨_, rfl⟩, ?_⟩
  rintro ⟨start, last, hseek, hread, -⟩
  cases hseek
  cases hread

end ByteArray
end Sylar
