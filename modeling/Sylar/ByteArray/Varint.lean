import Mathlib.Algebra.BigOperators.Ring.List
import Sylar.ByteArray.Capacity
import Sylar.ByteArray.RoundTrip

/-! Varints on any stream, not only on what the encoder writes.

A group is the low seven bits of a byte. The decoder takes groups up to the first byte below 128
or until the width is used up, whichever comes first; the encoder takes as many as the value
needs. Hence the encoding that is written is never longer than one that was read. -/
namespace Sylar
namespace ByteArray

def groupSum (bytes : List UInt8) : Nat :=
  (bytes.mapIdx fun i b => (b &&& 0x7f).toNat * 2 ^ (7 * i)).sum

/-- How many bytes the decoder takes: up to the first byte below 128, at most `cap`. -/
def groupCount (cap : Nat) (stream : List UInt8) : Nat :=
  min cap ((stream.takeWhile fun b => decide (0x80 ≤ b)).length + 1)

def unread (ba : ByteArray) : List UInt8 := Lib.slice ba.contents ba.position ba.getReadSize

theorem ahead_unread {ba : ByteArray} (hba : ba.Coherent) :
    Ahead ba ba.unread ∧ ba.unread.length = ba.getReadSize := by
  have hsize := hba.size_le
  have hlength : ba.unread.length = ba.getReadSize := by
    rw [unread, Lib.slice, List.length_take, List.length_drop, hba.length_contents, getReadSize]
    omega
  refine ⟨⟨hba, Nat.le_of_eq hlength, ?_⟩, hlength⟩
  rw [hlength, unread]

theorem toNat_payload (b : UInt8) : (b &&& 0x7f).toNat = b.toNat % 128 := by
  rw [UInt8.toNat_and]
  exact Nat.and_two_pow_sub_one_eq_mod b.toNat 7

theorem groupSum_cons (b : UInt8) (bytes : List UInt8) :
    groupSum (b :: bytes) = b.toNat % 128 + 128 * groupSum bytes := by
  have hshift : (bytes.mapIdx fun i b => (b &&& 0x7f).toNat * 2 ^ (7 * (i + 1))) =
      (bytes.mapIdx fun i b => (b &&& 0x7f).toNat * 2 ^ (7 * i)).map fun x => 128 * x := by
    apply List.ext_getElem?
    intro i
    rw [List.getElem?_map, List.getElem?_mapIdx, List.getElem?_mapIdx, Option.map_map]
    congr 1
    funext b
    change _ = 128 * ((b &&& 0x7f).toNat * 2 ^ (7 * i))
    rw [Nat.mul_succ, Nat.pow_add]
    ring
  have hmul := List.sum_map_mul_left (bytes.mapIdx fun i b => (b &&& 0x7f).toNat * 2 ^ (7 * i)) id 128
  rw [List.map_id] at hmul
  rw [groupSum, List.mapIdx_cons, List.sum_cons, hshift, toNat_payload, groupSum]
  change b.toNat % 128 * 1 + _ = _
  rw [Nat.mul_one]
  congr 1

theorem groupSum_lt (bytes : List UInt8) : groupSum bytes < 128 ^ bytes.length := by
  induction bytes with
  | nil => decide
  | cons b bytes ih =>
    have hlow := Nat.mod_lt b.toNat (show 0 < 128 by decide)
    rw [groupSum_cons, List.length_cons, Nat.pow_succ]
    omega

theorem groupCount_stop (cap : Nat) (b : UInt8) (rest : List UInt8) (hstop : b < 0x80) :
    groupCount (cap + 1) (b :: rest) = 1 := by
  have hnot : ¬ 0x80 ≤ b := UInt8.not_le.mpr hstop
  rw [groupCount, List.takeWhile_cons_of_neg (by simpa using hnot), List.length_nil]
  omega

theorem groupCount_continue (cap : Nat) (b : UInt8) (rest : List UInt8) (hmore : ¬ b < 0x80) :
    groupCount (cap + 1) (b :: rest) = groupCount cap rest + 1 := by
  have hle : 0x80 ≤ b := UInt8.not_lt.mp hmore
  rw [groupCount, List.takeWhile_cons_of_pos (by simpa using hle), List.length_cons, groupCount]
  omega

theorem groupCount_pos (cap : Nat) (hcap : 0 < cap) (stream : List UInt8) :
    0 < groupCount cap stream := by
  unfold groupCount
  omega

section
variable {w : Nat}

theorem ofNat_groups (low high : Nat) (hlow : low < 128) :
    BitVec.ofNat w (low + 128 * high) = BitVec.ofNat w low ||| BitVec.ofNat w high <<< 7 := by
  have hor : 2 ^ 7 * high + low = 2 ^ 7 * high ||| low := Nat.two_pow_add_eq_or_of_lt hlow high
  have hshift : BitVec.ofNat w (128 * high) = BitVec.ofNat w high <<< 7 := by
    apply BitVec.eq_of_toNat_eq
    rw [BitVec.toNat_shiftLeft, BitVec.toNat_ofNat, BitVec.toNat_ofNat, Nat.shiftLeft_eq,
      Nat.mod_mul_mod, Nat.mul_comm]
  change BitVec.ofNat w (low + 2 ^ 7 * high) = _
  rw [Nat.add_comm, hor, BitVec.ofNat_or, BitVec.or_comm]
  exact congrArg _ hshift

theorem setWidth_byte (b : UInt8) : b.toBitVec.setWidth w = BitVec.ofNat w b.toNat := by
  apply BitVec.eq_of_toNat_eq
  rw [BitVec.toNat_setWidth, BitVec.toNat_ofNat, UInt8.toNat_toBitVec]

theorem readFuint8_end (host : Endian) (ba : ByteArray) (hend : ba.getReadSize = 0) :
    readFuint8 host ba = .error (.outOfRange "not enough len") ba :=
  Op.bind_error (read_throws 1 (by omega))

theorem readVarint_stream (host : Endian) (rounds i : Nat) (result : BitVec w)
    (stream : List UInt8) (ba : ByteArray) (hahead : Ahead ba stream)
    (hall : stream.length = ba.getReadSize) :
    (groupCount rounds stream ≤ stream.length ∧ ∃ ba',
        readVarint host rounds i result ba = .ok (result |||
          BitVec.ofNat w (groupSum (stream.take (groupCount rounds stream))) <<< i) ba' ∧
        ReadTo ba (groupCount rounds stream) ba') ∨
      (stream.length < groupCount rounds stream ∧ ∃ ba',
        readVarint host rounds i result ba = .error (.outOfRange "not enough len") ba') := by
  induction rounds generalizing i result stream ba with
  | zero =>
    have hnone : groupCount 0 stream = 0 := Nat.zero_min _
    rw [hnone]
    refine .inl ⟨Nat.zero_le _, ba, ?_, .refl hahead.coherent⟩
    have hzero : groupSum (stream.take 0) = 0 := rfl
    rw [hzero, readVarint, Op.pure_eq, BitVec.zero_shiftLeft, BitVec.or_zero]
  | succ rounds ih =>
    cases stream with
    | nil =>
      refine .inr ⟨groupCount_pos _ (Nat.succ_pos _) _, ba, ?_⟩
      rw [readVarint]
      exact Op.bind_error (readFuint8_end host ba hall.symm)
    | cons b rest =>
      obtain ⟨next, hfirst, hmoved⟩ :=
        readFuint8_ok host b ba ((ahead_append_iff [b] rest).mp hahead).1
      have hrest : rest.length = next.getReadSize := by
        rw [getReadSize, hmoved.size_eq, hmoved.position_eq]
        rw [getReadSize, List.length_cons] at hall
        omega
      by_cases hstop : b < 0x80
      · rw [groupCount_stop rounds b rest hstop]
        refine .inl ⟨Nat.le_add_left _ _, next, ?_, hmoved⟩
        have hsmall := UInt8.lt_iff_toNat_lt.mp hstop
        have hsum : groupSum ((b :: rest).take 1) = b.toNat := by
          rw [List.take_succ_cons, List.take_zero, groupSum_cons]
          exact Nat.mod_eq_of_lt hsmall
        rw [readVarint, Op.bind_ok hfirst, if_pos hstop, hsum, setWidth_byte]
        rfl
      · rw [groupCount_continue rounds b rest hstop, List.length_cons, List.take_succ_cons,
          groupSum_cons]
        have hloop := ih (i + 7) (result ||| ((b &&& 0x7f).toBitVec.setWidth w <<< i)) rest next
          (Ahead.next [b] rest hahead hmoved) hrest
        have hround : readVarint host (rounds + 1) i result ba = readVarint host rounds (i + 7)
            (result ||| ((b &&& 0x7f).toBitVec.setWidth w <<< i)) next := by
          rw [readVarint, Op.bind_ok hfirst, if_neg hstop]
        rw [hround]
        rcases hloop with ⟨henough, ba', hok, heffect⟩ | ⟨hshort, ba', hthrow⟩
        · refine .inl ⟨Nat.succ_le_succ henough, ba', ?_, ?_⟩
          · rw [hok, setWidth_byte, toNat_payload, BitVec.or_assoc,
              ofNat_groups _ _ (Nat.mod_lt _ (by decide)), BitVec.shiftLeft_or_distrib,
              Nat.add_comm i 7, BitVec.shiftLeft_add]
          · rw [Nat.add_comm]
            exact hmoved.trans heffect
        · exact .inr ⟨Nat.succ_lt_succ hshort, ba', hthrow⟩

end

/-- A decoder of `width` bits that takes `cap` bytes at most. -/
structure Decodes {α : Type} (width cap : Nat) (toNat : α → Nat) (decode : Op α)
    (ba : ByteArray) : Prop where
  throws : (∃ what ba', decode ba = .error (.outOfRange what) ba') ↔
    ba.unread.length < groupCount cap ba.unread
  returns : groupCount cap ba.unread ≤ ba.unread.length →
    ∃ value ba', decode ba = .ok value ba' ∧
      ba'.position = ba.position + groupCount cap ba.unread ∧
      toNat value = groupSum (ba.unread.take (groupCount cap ba.unread)) % 2 ^ width

theorem decodes_of_readVarint {α : Type} {w : Nat} (host : Endian) (cap : Nat)
    (ofBits : BitVec w → α) (toNat : α → Nat) (htoNat : ∀ v, toNat (ofBits v) = v.toNat)
    (ba : ByteArray) (hba : ba.Coherent) :
    Decodes w cap toNat (do return ofBits (← readVarint host cap 0 0)) ba := by
  obtain ⟨hahead, hall⟩ := ahead_unread hba
  rcases readVarint_stream host cap 0 (0 : BitVec w) ba.unread ba hahead hall with
    ⟨henough, ba', hok, heffect⟩ | ⟨hshort, ba', hthrow⟩
  · have hreturn := Op.map_ok ofBits hok
    constructor
    · refine iff_of_false ?_ (by omega)
      rintro ⟨what, ba'', hthrow⟩
      rw [hreturn] at hthrow
      cases hthrow
    · intro _
      refine ⟨_, ba', hreturn, heffect.position_eq, ?_⟩
      rw [htoNat, BitVec.shiftLeft_zero]
      change (0#w ||| _).toNat = _
      rw [BitVec.zero_or, BitVec.toNat_ofNat]
  · have hthrow' : (do return ofBits (← readVarint host cap 0 0) : Op α) ba =
        .error (.outOfRange "not enough len") ba' := Op.bind_error hthrow
    constructor
    · exact iff_of_true ⟨_, ba', hthrow'⟩ hshort
    · intro henough
      omega

theorem varint_length {w : Nat} (hw : 8 ≤ w) (slots : Nat) (value : BitVec w) (hslots : 0 < slots)
    (hfits : value.toNat < 128 ^ slots) :
    ∃ tmp, varint slots value = .ok tmp ∧ 0 < tmp.length ∧
      ∀ n, 0 < n → (tmp.length ≤ n ↔ value.toNat < 128 ^ n) := by
  induction slots generalizing value with
  | zero => omega
  | succ slots ih =>
    rw [varint]
    by_cases hlarge : 128 ≤ value.toNat
    · have hslots' : 0 < slots := by
        apply Nat.pos_of_ne_zero
        rintro rfl
        rw [Nat.zero_add, Nat.pow_one] at hfits
        omega
      have hshift : (value >>> 7).toNat = value.toNat / 128 := by
        rw [BitVec.toNat_ushiftRight, Nat.shiftRight_eq_div_pow]
      have hpast : ∀ n, value.toNat / 128 < 128 ^ n ↔ value.toNat < 128 ^ (n + 1) := by
        intro n
        rw [Nat.pow_succ, Nat.div_lt_iff_lt_mul (by decide)]
      obtain ⟨rest, hrest, hpos, hleast⟩ := ih (value >>> 7) hslots' (by
        rw [hshift, hpast]
        exact hfits)
      rw [if_pos ((le_value_iff hw value).mpr hlarge), hrest]
      refine ⟨_, rfl, Nat.succ_pos _, ?_⟩
      intro n hn
      obtain ⟨n, rfl⟩ := Nat.exists_eq_add_one_of_ne_zero (Nat.ne_of_gt hn)
      rw [List.length_cons, Nat.succ_le_succ_iff]
      by_cases hone : n = 0
      · subst hone
        rw [Nat.zero_add, Nat.pow_one]
        omega
      · rw [hleast n (Nat.pos_of_ne_zero hone), hshift, hpast]
    · rw [if_neg (by rw [le_value_iff hw]; exact hlarge)]
      refine ⟨_, rfl, Nat.one_pos, ?_⟩
      intro n hn
      have hgroup : 128 ^ 1 ≤ 128 ^ n := Nat.pow_le_pow_right (by decide) hn
      exact iff_of_true hn (by omega)

theorem write_position (ba ba' : ByteArray) (buf : List UInt8) (hwrite : write buf ba = .ok () ba') :
    ba'.position = ba.position + buf.length := by
  have hgrow : (ba.addCapacity buf.length).position = ba.position := by
    unfold addCapacity
    split
    · rfl
    · dsimp only
      split
      · rfl
      · rfl
  unfold write at hwrite
  split at hwrite
  · rename_i hnone
    cases hwrite
    omega
  · unfold storeAtCursor at hwrite
    split at hwrite
    · cases hwrite
    · cases hwrite
      rw [← hgrow]

/-- `op` fills the first `count` of the `slots` of `tmp` and writes them, wherever there is room. -/
structure Fills {w : Nat} (op : Op Unit) (slots : Nat) (value : BitVec w) (count : Nat) : Prop where
  tmp : ∃ tmp, varint slots value = .ok tmp ∧ tmp.length = count
  within : 1 ≤ count ∧ count ≤ slots
  writes : ∀ ba ba', op ba = .ok () ba' → ba'.position = ba.position + count
  returns : ∀ ba : ByteArray, ba.Coherent → Sufficient ba.baseSize ba.getCapacity count →
    ∃ ba', op ba = .ok () ba'

/-- A `tmp` with a group for every seven bits of the width is never too short. -/
theorem fills_writeVarint {w : Nat} (hw : 8 ≤ w) (slots : Nat) (hslots : 0 < slots)
    (hwidth : 2 ^ w ≤ 128 ^ slots) (value : BitVec w) :
    ∃ count, Fills (writeVarint slots value) slots value count ∧
      ∀ n, 0 < n → (count ≤ n ↔ value.toNat < 128 ^ n) := by
  have hfits := Nat.lt_of_lt_of_le value.isLt hwidth
  obtain ⟨tmp, htmp, hpos, hleast⟩ := varint_length hw slots value hslots hfits
  refine ⟨tmp.length, ⟨⟨tmp, htmp, rfl⟩, ⟨hpos, (hleast slots hslots).mpr hfits⟩, ?_, ?_⟩, hleast⟩
  · intro ba ba' hwrite
    rw [writeVarint, htmp] at hwrite
    exact write_position ba ba' tmp hwrite
  · intro ba hba henough
    rw [writeVarint, htmp]
    exact write_of_sufficient ba hba tmp henough

theorem encodeZigzag_lt_iff {w : Nat} (v : BitVec w) (hw : 1 < w) (n : Nat) (hn : 0 < n) :
    (encodeZigzag v).toNat < 128 ^ n ↔
      -(2 : Int) ^ (7 * n - 1) ≤ v.toInt ∧ v.toInt < 2 ^ (7 * n - 1) := by
  have hpow : 128 ^ n = 2 * 2 ^ (7 * n - 1) := by
    rw [← Nat.pow_succ', show (7 * n - 1).succ = 7 * n by omega, Nat.pow_mul]
  have hcast : (2 : Int) ^ (7 * n - 1) = ((2 ^ (7 * n - 1) : Nat) : Int) := by
    push_cast
    rfl
  have hv := v.isLt
  rw [toNat_encodeZigzag v hw, hpow, hcast, BitVec.toInt_eq_toNat_cond]
  generalize 2 ^ (7 * n - 1) = bound
  by_cases hneg : 2 ^ w ≤ 2 * v.toNat
  · rw [if_pos hneg, if_neg (by omega)]
    omega
  · rw [if_neg hneg, if_pos (by omega)]
    omega

theorem fills_of_decodes {α : Type} {w : Nat} (hw : 8 ≤ w) (cap : Nat) (hcap : 0 < cap)
    (hwidth : 2 ^ w ≤ 128 ^ cap) (toBits : α → BitVec w) (decode : Op α) (ba : ByteArray)
    (hdecodes : Decodes w cap (fun value => (toBits value).toNat) decode ba) (value : α)
    (ba' : ByteArray) (hdecode : decode ba = .ok value ba') :
    ∃ count, Fills (writeVarint cap (toBits value)) cap (toBits value) count ∧
      ba.position + count ≤ ba'.position := by
  have henough : groupCount cap ba.unread ≤ ba.unread.length := by
    by_contra hshort
    obtain ⟨what, ba'', hthrow⟩ := hdecodes.throws.mpr (by omega)
    rw [hdecode] at hthrow
    cases hthrow
  obtain ⟨value', ba'', hdecode', hposition, hvalue⟩ := hdecodes.returns henough
  rw [hdecode] at hdecode'
  cases hdecode'
  obtain ⟨count, hfills, hleast⟩ := fills_writeVarint hw cap hcap hwidth (toBits value)
  refine ⟨count, hfills, ?_⟩
  have hsum := groupSum_lt (ba.unread.take (groupCount cap ba.unread))
  rw [List.length_take_of_le henough] at hsum
  have hle : count ≤ groupCount cap ba.unread := by
    rw [hleast _ (groupCount_pos cap hcap _), hvalue]
    exact Nat.lt_of_le_of_lt (Nat.mod_le _ _) hsum
  omega

theorem fills_zigzag {w : Nat} (hw : 8 ≤ w) (cap : Nat) (hcap : 0 < cap) (hwidth : 2 ^ w ≤ 128 ^ cap)
    (v : BitVec w) :
    ∃ count, Fills (writeVarint cap (encodeZigzag v)) cap (encodeZigzag v) count ∧
      IsLeast { k : Nat | 1 ≤ k ∧ -(2 : Int) ^ (7 * k - 1) ≤ v.toInt ∧
        v.toInt < 2 ^ (7 * k - 1) } count := by
  obtain ⟨count, hfills, hleast⟩ := fills_writeVarint hw cap hcap hwidth (encodeZigzag v)
  have hpos := hfills.within.1
  refine ⟨count, hfills, ⟨hpos, ?_⟩, ?_⟩
  · exact (encodeZigzag_lt_iff v (by omega) count hpos).mp ((hleast count hpos).mp (Nat.le_refl _))
  · rintro k ⟨hk, hbounds⟩
    exact (hleast k hk).mpr ((encodeZigzag_lt_iff v (by omega) k hk).mpr hbounds)

/-- On whatever bytes are left to read, the decoders take the groups up to the first byte below
128, five or ten at most, throw when the bytes end before that, and return the value of the groups
modulo the width; what they return is written again in no more bytes, and `tmp` is never too
short. A signed value takes the least number of groups for its magnitude. -/
theorem varint_any_stream (host : Endian) (baseSize : Nat) (hbase : 0 < baseSize)
    (fresh : Nat → Nat → UInt8) (calls : List Call) (ba : ByteArray)
    (hrun : Lib.run step (new baseSize fresh) calls = some ba) :
    (Decodes 32 5 UInt32.toNat (readUint32 host) ba ∧
      Decodes 64 10 UInt64.toNat (readUint64 host) ba) ∧
    ((∀ value ba', readUint32 host ba = .ok value ba' →
        ∃ count, Fills (writeUint32 value) 5 value.toBitVec count ∧
          ba.position + count ≤ ba'.position) ∧
      ∀ value ba', readUint64 host ba = .ok value ba' →
        ∃ count, Fills (writeUint64 value) 10 value.toBitVec count ∧
          ba.position + count ≤ ba'.position) ∧
    ((∀ value : UInt32, ∃ count, Fills (writeUint32 value) 5 value.toBitVec count) ∧
      ∀ value : UInt64, ∃ count, Fills (writeUint64 value) 10 value.toBitVec count) ∧
    (∀ value : Int32, ∃ count, Fills (writeInt32 value) 5 (encodeZigzag value.toBitVec) count ∧
      IsLeast { k : Nat | 1 ≤ k ∧ -(2 : Int) ^ (7 * k - 1) ≤ value.toInt ∧
        value.toInt < 2 ^ (7 * k - 1) } count) ∧
    ∀ value : Int64, ∃ count, Fills (writeInt64 value) 10 (encodeZigzag value.toBitVec) count ∧
      IsLeast { k : Nat | 1 ≤ k ∧ -(2 : Int) ^ (7 * k - 1) ≤ value.toInt ∧
        value.toInt < 2 ^ (7 * k - 1) } count := by
  obtain ⟨hba, -⟩ := coherent_of_run baseSize hbase fresh calls ba hrun
  have hdecodes32 : Decodes 32 5 UInt32.toNat (readUint32 host) ba :=
    decodes_of_readVarint host 5 UInt32.ofBitVec UInt32.toNat (fun _ => rfl) ba hba
  have hdecodes64 : Decodes 64 10 UInt64.toNat (readUint64 host) ba :=
    decodes_of_readVarint host 10 UInt64.ofBitVec UInt64.toNat (fun _ => rfl) ba hba
  refine ⟨⟨hdecodes32, hdecodes64⟩, ⟨?_, ?_⟩, ⟨?_, ?_⟩, ?_, ?_⟩
  · exact fills_of_decodes (by decide) 5 (by decide) (by decide) UInt32.toBitVec _ ba hdecodes32
  · exact fills_of_decodes (by decide) 10 (by decide) (by decide) UInt64.toBitVec _ ba hdecodes64
  · intro value
    obtain ⟨count, hfills, -⟩ :=
      fills_writeVarint (by decide) 5 (by decide) (by decide) value.toBitVec
    exact ⟨count, hfills⟩
  · intro value
    obtain ⟨count, hfills, -⟩ :=
      fills_writeVarint (by decide) 10 (by decide) (by decide) value.toBitVec
    exact ⟨count, hfills⟩
  · intro value
    exact fills_zigzag (by decide) 5 (by decide) (by decide) value.toBitVec
  · intro value
    exact fills_zigzag (by decide) 10 (by decide) (by decide) value.toBitVec

/-- An overlong zero: two bytes are taken, one is written again. -/
theorem varint_any_stream_overlong :
    ∃ ba ba', Lib.run step (new 4 fun _ _ => 0) [.write [0x80, 0x00], .setPosition 0] = some ba ∧
      readUint32 .little ba = .ok 0 ba' ∧ ba'.position = 2 ∧
      Decodes 32 5 UInt32.toNat (readUint32 .little) ba ∧
      ∃ count, Fills (writeUint32 0) 5 (0 : UInt32).toBitVec count ∧ ba.position + count ≤ 2 := by
  refine ⟨_, _, by rfl, by rfl, by rfl, ?_⟩
  obtain ⟨⟨hdecodes, -⟩, ⟨hshort, -⟩, -⟩ := varint_any_stream .little 4 (by decide) (fun _ _ => 0)
    [.write [0x80, 0x00], .setPosition 0] _ (by rfl)
  exact ⟨hdecodes, hshort 0 _ (by rfl)⟩

end ByteArray
end Sylar
