import Sylar.ByteArray.Refinement
import Sylar.ByteArray.Scalar

/-! Every typed read inverts the write of the same type. The bytes on the wire
are stated apart from the code: a fixed-width value is its two's complement in
the array's byte order, whatever the host's. -/
namespace Sylar
namespace ByteArray

private theorem toNat_and_one {w : Nat} (v : BitVec w) (hw : 1 < w) :
    (v &&& 1).toNat = v.toNat % 2 := by
  have hone : (1 : BitVec w).toNat = 1 := Nat.mod_eq_of_lt (Nat.one_lt_two_pow (by omega))
  rw [BitVec.toNat_and, hone, Nat.and_one_is_mod]

theorem decodeZigzag_even {w : Nat} (v : BitVec w) (hw : 1 < w) (heven : v.toNat % 2 = 0) :
    (decodeZigzag v).toNat = v.toNat / 2 := by
  have hbit : v &&& 1 = 0#w := by
    apply BitVec.eq_of_toNat_eq
    rw [toNat_and_one v hw, heven, BitVec.toNat_zero]
  rw [decodeZigzag, hbit, BitVec.neg_zero, BitVec.xor_zero, BitVec.toNat_ushiftRight,
    Nat.shiftRight_one]

theorem decodeZigzag_odd {w : Nat} (v : BitVec w) (hw : 1 < w) (hodd : v.toNat % 2 = 1) :
    (decodeZigzag v).toNat = 2 ^ w - 1 - v.toNat / 2 := by
  have hbit : v &&& 1 = 1#w := by
    apply BitVec.eq_of_toNat_eq
    rw [toNat_and_one v hw, hodd, BitVec.toNat_ofNat,
      Nat.mod_eq_of_lt (Nat.one_lt_two_pow (by omega))]
  rw [decodeZigzag, hbit, BitVec.neg_one_eq_allOnes, BitVec.xor_allOnes, BitVec.toNat_not,
    BitVec.toNat_ushiftRight, Nat.shiftRight_one]

/-- The doubled magnitude of a negative value, less one, never wraps. -/
theorem toNat_encodeZigzag {w : Nat} (v : BitVec w) (hw : 1 < w) :
    (encodeZigzag v).toNat =
      if 2 ^ w ≤ 2 * v.toNat then 2 * (2 ^ w - v.toNat) - 1 else 2 * v.toNat := by
  obtain ⟨k, rfl⟩ : ∃ k, w = k + 1 := ⟨w - 1, by omega⟩
  have hpow : 2 ^ (k + 1) = 2 * 2 ^ k := by
    rw [Nat.pow_succ, Nat.mul_comm]
  have htwo : 2 ≤ 2 ^ k := Nat.le_self_pow (by omega) 2
  have hv := v.isLt
  have hsign : v.slt 0 = decide (2 ^ k ≤ v.toNat) := by
    change v.slt 0#(k + 1) = _
    rw [BitVec.slt_zero_eq_msb, BitVec.msb_eq_decide, Nat.add_sub_cancel]
  have hliteral : ∀ n, n < 2 ^ (k + 1) → (BitVec.ofNat (k + 1) n).toNat = n := fun n hn => by
    rw [BitVec.toNat_ofNat, Nat.mod_eq_of_lt hn]
  unfold encodeZigzag
  simp only [hsign, decide_eq_true_eq]
  by_cases hneg : 2 ^ k ≤ v.toNat
  · rw [if_pos hneg, if_pos (by omega)]
    change (-v * BitVec.ofNat (k + 1) 2 - BitVec.ofNat (k + 1) 1).toNat = _
    rw [BitVec.toNat_sub, BitVec.toNat_mul, BitVec.toNat_neg, hliteral 2 (by omega),
      hliteral 1 (by omega), Nat.mod_eq_of_lt (show 2 ^ (k + 1) - v.toNat < 2 ^ (k + 1) by omega)]
    by_cases hmin : v.toNat = 2 ^ k
    · have hwrap : (2 ^ (k + 1) - v.toNat) * 2 = 2 ^ (k + 1) := by omega
      rw [hwrap, Nat.mod_self, Nat.add_zero, Nat.mod_eq_of_lt (by omega)]
      omega
    · rw [Nat.mod_eq_of_lt (show (2 ^ (k + 1) - v.toNat) * 2 < 2 ^ (k + 1) by omega)]
      have hsum : 2 ^ (k + 1) - 1 + (2 ^ (k + 1) - v.toNat) * 2 =
          2 * (2 ^ (k + 1) - v.toNat) - 1 + 2 ^ (k + 1) := by omega
      rw [hsum, Nat.add_mod_right, Nat.mod_eq_of_lt (by omega)]
  · rw [if_neg hneg, if_neg (by omega)]
    change (v * BitVec.ofNat (k + 1) 2).toNat = _
    rw [BitVec.toNat_mul, hliteral 2 (by omega), Nat.mod_eq_of_lt (by omega), Nat.mul_comm]

theorem decodeZigzag_encodeZigzag {w : Nat} (v : BitVec w) (hw : 1 < w) :
    decodeZigzag (encodeZigzag v) = v := by
  have hv := v.isLt
  have hencode := toNat_encodeZigzag v hw
  apply BitVec.eq_of_toNat_eq
  by_cases hneg : 2 ^ w ≤ 2 * v.toNat
  · rw [if_pos hneg] at hencode
    rw [decodeZigzag_odd _ hw (by omega), hencode]
    omega
  · rw [if_neg hneg] at hencode
    rw [decodeZigzag_even _ hw (by omega), hencode]
    omega

/-- `bytes` are the next bytes a `read` returns. -/
structure Ahead (ba : ByteArray) (bytes : List UInt8) : Prop where
  coherent : ba.Coherent
  available : bytes.length ≤ ba.getReadSize
  slice_eq : Lib.slice ba.contents ba.position bytes.length = bytes

theorem Ahead.read {ba : ByteArray} {bytes : List UInt8} (hahead : Ahead ba bytes)
    (hbytes : 0 < bytes.length) :
    ∃ ba', ByteArray.read bytes.length ba = .ok bytes ba' ∧ ReadTo ba bytes.length ba' := by
  have havailable := hahead.available
  have hsize := hahead.coherent.size_le
  rw [getReadSize] at havailable
  obtain ⟨ba', hread, heffect⟩ :=
    read_ok hahead.coherent bytes.length hahead.available (by omega)
  rw [hahead.slice_eq] at hread
  exact ⟨ba', hread, heffect⟩

theorem ahead_append_iff {ba : ByteArray} (left right : List UInt8) :
    Ahead ba (left ++ right) ↔
      Ahead ba left ∧ left.length + right.length ≤ ba.getReadSize ∧
        Lib.slice ba.contents (ba.position + left.length) right.length = right := by
  constructor
  · intro hahead
    have havailable := hahead.available
    rw [List.length_append] at havailable
    obtain ⟨hleft, hright⟩ := (Lib.slice_eq_append_iff _ _ _ _).mp hahead.slice_eq
    exact ⟨⟨hahead.coherent, by omega, hleft⟩, havailable, hright⟩
  · rintro ⟨hahead, havailable, hright⟩
    refine ⟨hahead.coherent, by rw [List.length_append]; exact havailable, ?_⟩
    exact (Lib.slice_eq_append_iff _ _ _ _).mpr ⟨hahead.slice_eq, hright⟩

theorem Ahead.next {ba ba' : ByteArray} (left right : List UInt8)
    (hahead : Ahead ba (left ++ right)) (hread : ReadTo ba left.length ba') :
    Ahead ba' right := by
  obtain ⟨-, havailable, hright⟩ := (ahead_append_iff left right).mp hahead
  rw [getReadSize] at havailable
  refine ⟨hread.coherent, ?_, ?_⟩
  · rw [getReadSize, hread.size_eq, hread.position_eq]
    omega
  · rw [hread.contents_eq, hread.position_eq]
    exact hright

theorem ReadTo.refl {ba : ByteArray} (hba : ba.Coherent) : ReadTo ba 0 ba :=
  ⟨hba, rfl, rfl, rfl, rfl, rfl⟩

theorem ReadTo.trans {ba ba' ba'' : ByteArray} {first second : Nat} (hfirst : ReadTo ba first ba')
    (hsecond : ReadTo ba' second ba'') : ReadTo ba (first + second) ba'' where
  coherent := hsecond.coherent
  baseSize_eq := hsecond.baseSize_eq.trans hfirst.baseSize_eq
  endian_eq := hsecond.endian_eq.trans hfirst.endian_eq
  position_eq := by rw [hsecond.position_eq, hfirst.position_eq, Nat.add_assoc]
  size_eq := hsecond.size_eq.trans hfirst.size_eq
  contents_eq := hsecond.contents_eq.trans hfirst.contents_eq

theorem order_singleton (endian : Endian) (byte : UInt8) : endian.order [byte] = [byte] := by
  cases endian <;> rfl

@[simp] theorem order_order (endian : Endian) (bytes : List UInt8) :
    endian.order (endian.order bytes) = bytes := by
  cases endian
  · rfl
  · exact List.reverse_reverse bytes

@[simp] theorem length_order (endian : Endian) (bytes : List UInt8) :
    (endian.order bytes).length = bytes.length := by
  cases endian
  · rfl
  · exact List.length_reverse

theorem order_reverse {endian host : Endian} (hne : endian ≠ host) (bytes : List UInt8) :
    host.order bytes.reverse = endian.order bytes := by
  cases endian <;> cases host
  · exact absurd rfl hne
  · exact List.reverse_reverse bytes
  · rfl
  · exact absurd rfl hne

theorem reverse_order {endian host : Endian} (hne : endian ≠ host) (bytes : List UInt8) :
    (host.order bytes).reverse = endian.order bytes := by
  cases endian <;> cases host
  · exact absurd rfl hne
  · exact List.reverse_reverse bytes
  · rfl
  · exact absurd rfl hne

section Fixed
variable {w : Nat} (hw : 8 ∣ w)
include hw

private theorem pow_bytes : 256 ^ (w / 8) = 2 ^ w := by
  obtain ⟨n, rfl⟩ := hw
  rw [Nat.mul_div_cancel_left n (by decide), Nat.pow_mul]

theorem toNat_ofNat_leNat (bytes : List UInt8) (hlength : bytes.length = w / 8) :
    (BitVec.ofNat w (Lib.leNat bytes)).toNat = Lib.leNat bytes := by
  have hlt := Lib.leNat_lt bytes
  rw [hlength, pow_bytes hw] at hlt
  rw [BitVec.toNat_ofNat, Nat.mod_eq_of_lt hlt]

private theorem leBytes_byteswap (value : BitVec w) :
    Lib.leBytes (w / 8) (byteswap value).toNat = (Lib.leBytes (w / 8) value.toNat).reverse := by
  have hlength : (Lib.leBytes (w / 8) value.toNat).reverse.length = w / 8 := by
    rw [List.length_reverse, Lib.length_leBytes]
  have hround := Lib.leBytes_leNat (Lib.leBytes (w / 8) value.toNat).reverse
  rw [hlength] at hround
  rw [byteswap, toNat_ofNat_leNat hw _ hlength, hround]

theorem writeFixed_eq (host : Endian) (value : BitVec w) (ba : ByteArray) :
    writeFixed host value ba = write (ba.endian.order (Lib.leBytes (w / 8) value.toNat)) ba := by
  change write (memoryOf host (if ba.endian ≠ host then byteswap value else value)) ba = _
  by_cases hsame : ba.endian = host
  · rw [if_neg (not_not_intro hsame), memoryOf, hsame]
  · rw [if_pos hsame, memoryOf, leBytes_byteswap hw, order_reverse hsame]

theorem byteswap_ofMemory (host : Endian) (bytes : List UInt8)
    (hlength : bytes.length = w / 8) :
    byteswap (ofMemory host w bytes) = BitVec.ofNat w (Lib.leNat (host.order bytes).reverse) := by
  have horder : (host.order bytes).length = w / 8 := by
    rw [length_order, hlength]
  have hround := Lib.leBytes_leNat (host.order bytes)
  rw [horder] at hround
  rw [byteswap, ofMemory, toNat_ofNat_leNat hw _ horder, hround]

private theorem ofMemory_order (endian : Endian) (value : BitVec w) :
    ofMemory endian w (endian.order (Lib.leBytes (w / 8) value.toNat)) = value := by
  have hround := Lib.leNat_leBytes (w / 8) value.toNat
  have hmod : (value.toNat : Int) % 256 ^ (w / 8) = value.toNat := by
    have hpow : ((256 ^ (w / 8) : Nat) : Int) = ((2 ^ w : Nat) : Int) := by rw [pow_bytes hw]
    push_cast at hpow
    rw [hpow]
    exact_mod_cast Nat.mod_eq_of_lt value.isLt
  rw [hmod] at hround
  have hnat : Lib.leNat (Lib.leBytes (w / 8) value.toNat) = value.toNat := by
    exact_mod_cast hround
  rw [ofMemory, order_order, hnat, BitVec.ofNat_toNat, BitVec.setWidth_eq]

theorem readFixed_ok (host : Endian) (value : BitVec w) (hpos : 0 < w) (ba : ByteArray)
    (hahead : Ahead ba (ba.endian.order (Lib.leBytes (w / 8) value.toNat))) :
    ∃ ba', readFixed host w ba = .ok value ba' ∧ ReadTo ba (w / 8) ba' := by
  obtain ⟨n, rfl⟩ := hw
  have hwidth : 8 * n / 8 = n := Nat.mul_div_cancel_left n (by decide)
  have hlength : (ba.endian.order (Lib.leBytes (8 * n / 8) value.toNat)).length = 8 * n / 8 := by
    rw [length_order, Lib.length_leBytes]
  obtain ⟨ba', hread, heffect⟩ := hahead.read (by omega)
  rw [hlength] at hread heffect
  refine ⟨ba', ?_, heffect⟩
  unfold readFixed
  rw [Op.bind_ok hread]
  change (if ba'.endian = host then pure _ else pure _ : Op _) ba' = _
  rw [heffect.endian_eq]
  by_cases hsame : ba.endian = host
  · rw [if_pos hsame, ← hsame, ofMemory_order ⟨n, rfl⟩]
    rfl
  · have hvalue := ofMemory_order ⟨n, rfl⟩ ba.endian value
    rw [ofMemory] at hvalue
    rw [if_neg hsame, byteswap_ofMemory ⟨n, rfl⟩ host _ hlength, reverse_order hsame, hvalue]
    rfl

theorem leBytes_toInt (value : BitVec w) :
    Lib.leBytes (w / 8) value.toInt = Lib.leBytes (w / 8) value.toNat := by
  have hpow : ((256 ^ (w / 8) : Nat) : Int) = ((2 ^ w : Nat) : Int) := by rw [pow_bytes hw]
  push_cast at hpow
  rw [← Lib.leBytes_emod, ← Lib.leBytes_emod (w / 8) value.toNat, hpow,
    BitVec.toInt_eq_toNat_cond]
  split
  · rfl
  · push_cast
    rw [Int.sub_emod_right]

end Fixed

section Varint
variable {w : Nat} (hw : 8 ≤ w)
include hw

private theorem toNat_literal (n : Nat) (hn : n < 256) : (BitVec.ofNat w n).toNat = n := by
  have hpow : 2 ^ 8 ≤ 2 ^ w := Nat.pow_le_pow_right (by decide) hw
  rw [BitVec.toNat_ofNat, Nat.mod_eq_of_lt (by omega)]

private theorem toNat_low_bits (value : BitVec w) : (value &&& 0x7F).toNat = value.toNat % 128 := by
  change (value &&& BitVec.ofNat w 0x7F).toNat = _
  rw [BitVec.toNat_and, toNat_literal hw _ (by decide)]
  exact Nat.and_two_pow_sub_one_eq_mod value.toNat 7

theorem le_value_iff (value : BitVec w) : value ≥ 0x80 ↔ 128 ≤ value.toNat := by
  change BitVec.ofNat w 0x80 ≤ value ↔ _
  rw [BitVec.le_def, toNat_literal hw _ (by decide)]

private theorem toNat_group (value : BitVec w) :
    (UInt8.ofBitVec ((value &&& 0x7F ||| 0x80).setWidth 8)).toNat = value.toNat % 128 + 128 := by
  change (BitVec.setWidth 8 (value &&& 0x7F ||| BitVec.ofNat w 0x80)).toNat = _
  have hlow : value.toNat % 128 < 2 ^ 7 := Nat.mod_lt _ (by decide)
  have hor : 128 + value.toNat % 128 = 128 ||| value.toNat % 128 :=
    Nat.two_pow_add_eq_or_of_lt hlow 1
  rw [BitVec.toNat_setWidth, BitVec.toNat_or, toNat_low_bits hw, toNat_literal hw _ (by decide),
    Nat.or_comm]
  omega

omit hw in
private theorem group_payload (b : UInt8) :
    ((b &&& 0x7f).toBitVec.setWidth w).toNat = b.toNat % 128 % 2 ^ w := by
  have hmask : (b &&& 0x7f).toNat = b.toNat % 128 := by
    rw [UInt8.toNat_and]
    exact Nat.and_two_pow_sub_one_eq_mod b.toNat 7
  rw [BitVec.toNat_setWidth, UInt8.toNat_toBitVec, hmask]

private theorem payload_of_group (value : BitVec w) (b : UInt8)
    (hb : b.toNat = value.toNat % 128 + 128) :
    (b &&& 0x7f).toBitVec.setWidth w = value &&& 0x7F := by
  have hpow : 2 ^ 8 ≤ 2 ^ w := Nat.pow_le_pow_right (by decide) hw
  apply BitVec.eq_of_toNat_eq
  rw [group_payload, toNat_low_bits hw, hb, Nat.mod_eq_of_lt (by omega)]
  omega

private theorem join_groups (value : BitVec w) (i : Nat) :
    (value &&& 0x7F) <<< i ||| (value >>> 7) <<< (i + 7) = value <<< i := by
  have hmask : ∀ j, (value &&& 0x7F).getLsbD j = (decide (j < 7) && value.getLsbD j) := by
    intro j
    have hbit := Nat.testBit_two_pow_sub_one 7 j
    change (value &&& BitVec.ofNat w 0x7F).getLsbD j = _
    rw [BitVec.getLsbD_and, BitVec.getLsbD_ofNat]
    change (value.getLsbD j && (decide (j < w) && Nat.testBit (2 ^ 7 - 1) j)) = _
    rw [hbit]
    by_cases hj : j < 7
    · simp [hj, show j < w by omega]
    · simp [hj]
  apply BitVec.eq_of_getLsbD_eq
  intro j hj
  simp only [BitVec.getLsbD_or, BitVec.getLsbD_shiftLeft, hmask, BitVec.getLsbD_ushiftRight, hj,
    decide_true, Bool.true_and]
  by_cases hlow : j < i
  · simp [hlow, show j < i + 7 by omega]
  · by_cases hmid : j < i + 7
    · simp [hlow, hmid, show j - i < 7 by omega]
    · simp [hlow, hmid, show ¬ j - i < 7 by omega, show 7 + (j - (i + 7)) = j - i by omega]

omit hw in
private theorem setWidth_eq_of_toNat_eq (b : UInt8) (value : BitVec w)
    (hb : b.toNat = value.toNat) : b.toBitVec.setWidth w = value := by
  apply BitVec.eq_of_toNat_eq
  rw [BitVec.toNat_setWidth, UInt8.toNat_toBitVec, hb, Nat.mod_eq_of_lt value.isLt]

omit hw in
theorem readFuint8_ok (host : Endian) (b : UInt8) (ba : ByteArray) (hahead : Ahead ba [b]) :
    ∃ ba', readFuint8 host ba = .ok b ba' ∧ ReadTo ba 1 ba' := by
  obtain ⟨ba', hread, heffect⟩ := hahead.read Nat.one_pos
  refine ⟨ba', ?_, heffect⟩
  have hvalue : UInt8.ofBitVec (ofMemory host 8 [b]) = b := by
    apply UInt8.toNat_inj.mp
    have hlt := b.toNat_lt
    rw [ofMemory, order_singleton, UInt8.toNat_ofBitVec, BitVec.toNat_ofNat, Lib.leNat, Lib.leNat]
    omega
  unfold readFuint8
  change (ByteArray.read [b].length >>= _) ba = _
  rw [Op.bind_ok hread, hvalue]
  rfl

theorem readVarint_ok (host : Endian) (slots i : Nat) (value result : BitVec w)
    (bytes : List UInt8) (ba : ByteArray) (hvarint : varint slots value = .ok bytes)
    (hahead : Ahead ba bytes) :
    ∃ ba', readVarint host slots i result ba = .ok (result ||| value <<< i) ba' ∧
      ReadTo ba bytes.length ba' := by
  induction slots generalizing i value result bytes ba with
  | zero => cases hvarint
  | succ slots ih =>
    unfold varint at hvarint
    split at hvarint
    · rename_i hlarge
      split at hvarint
      · cases hvarint
      · rename_i rest hrest
        cases hvarint
        have hgroup := toNat_group hw value
        generalize UInt8.ofBitVec ((value &&& 0x7F ||| 0x80).setWidth 8) = b at *
        obtain ⟨next, hfirst, hmoved⟩ :=
          readFuint8_ok host b ba ((ahead_append_iff [b] rest).mp hahead).1
        obtain ⟨ba', hloop, heffect⟩ :=
          ih (i + 7) (value >>> 7) (result ||| (value &&& 0x7F) <<< i) rest next hrest
            (Ahead.next [b] rest hahead hmoved)
        have hcontinue : ¬ b < 0x80 := by
          rw [UInt8.lt_iff_toNat_lt, hgroup]
          exact Nat.not_lt.mpr (Nat.le_add_left _ _)
        refine ⟨ba', ?_, ?_⟩
        · rw [readVarint, Op.bind_ok hfirst, if_neg hcontinue, payload_of_group hw value b hgroup,
            hloop, BitVec.or_assoc, join_groups hw]
        · rw [List.length_cons, Nat.add_comm]
          exact hmoved.trans heffect
    · rename_i hsmall
      cases hvarint
      have hvalue : value.toNat < 128 := by
        rw [le_value_iff hw] at hsmall
        omega
      have hlast : (UInt8.ofBitVec (value.setWidth 8)).toNat = value.toNat := by
        rw [UInt8.toNat_ofBitVec, BitVec.toNat_setWidth]
        omega
      generalize UInt8.ofBitVec (value.setWidth 8) = b at *
      obtain ⟨ba', hfirst, hmoved⟩ := readFuint8_ok host b ba hahead
      have hstop : b < 0x80 := by
        rw [UInt8.lt_iff_toNat_lt, hlast]
        exact hvalue
      refine ⟨ba', ?_, hmoved⟩
      rw [readVarint, Op.bind_ok hfirst, if_pos hstop, setWidth_eq_of_toNat_eq b value hlast]
      rfl

theorem readVarint_zero (host : Endian) (slots : Nat) (value : BitVec w) (bytes : List UInt8)
    (ba : ByteArray) (hvarint : varint slots value = .ok bytes) (hahead : Ahead ba bytes) :
    ∃ ba', readVarint host slots 0 0 ba = .ok value ba' ∧ ReadTo ba bytes.length ba' := by
  obtain ⟨ba', hread, heffect⟩ := readVarint_ok hw host slots 0 value 0 bytes ba hvarint hahead
  refine ⟨ba', ?_, heffect⟩
  rw [hread, BitVec.shiftLeft_zero]
  change EStateM.Result.ok (0#w ||| value) ba' = _
  rw [BitVec.zero_or]

end Varint

end ByteArray
end Sylar
