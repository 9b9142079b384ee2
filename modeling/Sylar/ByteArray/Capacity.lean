import Sylar.ByteArray.Refinement

/-! The room that `addCapacity` makes for `write` and `getWriteBuffers`.

The last block that is needed for a remainder is left out when the remainder is no more than
the room there was before. -/
namespace Sylar
namespace ByteArray

/-- The room is there already, or what is missing is a number of whole blocks, or its remainder
is more than the room there is. -/
def Sufficient (baseSize oldCap size : Nat) : Prop :=
  size ≤ oldCap ∨ (size - oldCap) % baseSize = 0 ∨ oldCap < (size - oldCap) % baseSize

instance Sufficient.decidable (baseSize oldCap size : Nat) :
    Decidable (Sufficient baseSize oldCap size) :=
  inferInstanceAs (Decidable (_ ∨ _ ∨ _))

/-- `addCapacity(size)` makes room for `size` bytes and leaves a node under the cursor, and
neither `write` nor `getWriteBuffers` of as many bytes follows a null `Node*`. -/
structure RoomFor (ba : ByteArray) (size : Nat) : Prop where
  room : size ≤ (ba.addCapacity size).getCapacity
  cur : (ba.addCapacity size).cur ≠ none
  write : ∀ buf : List UInt8, buf.length = size → ∀ ba', write buf ba ≠ .error .nullNode ba'
  buffers : ∀ ba', getWriteBuffers size ba ≠ .error .nullNode ba'

theorem le_blockCount_iff (baseSize oldCap size : Nat) (hbase : 0 < baseSize)
    (hshort : oldCap < size) :
    size - oldCap ≤ blockCount baseSize oldCap size * baseSize ↔
      Sufficient baseSize oldCap size := by
  have hdivide := Nat.div_add_mod (size - oldCap) baseSize
  have hmod := Nat.mod_lt (size - oldCap) hbase
  simp only [blockCount, Sufficient]
  rw [Nat.add_mul, Nat.mul_comm ((size - oldCap) / baseSize) baseSize]
  split
  · rename_i hmore
    constructor
    · intro _
      exact .inr (.inr hmore)
    · intro _
      omega
  · rename_i hless
    constructor
    · intro hle
      exact .inr (.inl (by omega))
    · rintro (henough | hwhole | hmore)
      · omega
      · omega
      · omega

theorem addCapacity_capacity (ba : ByteArray) (size : Nat) (hshort : ba.getCapacity < size) :
    (ba.addCapacity size).capacity =
      ba.capacity + blockCount ba.baseSize ba.getCapacity size * ba.baseSize := by
  rw [addCapacity, if_neg (by omega), if_neg (by omega)]

theorem addCapacity_enough (ba : ByteArray) (size : Nat) (henough : size ≤ ba.getCapacity) :
    ba.addCapacity size = ba := by
  rw [addCapacity]
  split
  · rfl
  · exact if_pos henough

theorem addCapacity_room_iff (ba : ByteArray) (hba : ba.Coherent) (size : Nat) :
    size ≤ (ba.addCapacity size).getCapacity ↔
      Sufficient ba.baseSize ba.getCapacity size := by
  have hposition := hba.position_le_capacity
  by_cases henough : size ≤ ba.getCapacity
  · rw [addCapacity_enough ba size henough]
    exact iff_of_true henough (.inl henough)
  · have hshort : ba.getCapacity < size := Nat.lt_of_not_le henough
    have hroom : (ba.addCapacity size).getCapacity =
        ba.getCapacity + blockCount ba.baseSize ba.getCapacity size * ba.baseSize := by
      have hcapacity := addCapacity_capacity ba size hshort
      have hsame : (ba.addCapacity size).position = ba.position :=
        (addCapacity_grew hba size).position_eq
      rw [getCapacity, hcapacity, hsame, getCapacity]
      omega
    rw [hroom, ← le_blockCount_iff ba.baseSize ba.getCapacity size hba.baseSize_pos hshort]
    omega

theorem iovLoop_null (blockSize : Nat) (hblock : 0 < blockSize) (nodes : List Node)
    (index npos len : Nat) (huniform : Uniform blockSize nodes) (hnpos : npos < blockSize)
    (hshort : blockSize * nodes.length < npos + len) :
    iovLoop nodes index npos len = .error .nullNode := by
  induction nodes generalizing index npos len with
  | nil => rfl
  | cons node next ih =>
    have hsize := huniform.head
    rw [List.length_cons, Nat.mul_succ] at hshort
    unfold iovLoop
    simp only [hsize]
    rw [if_neg (by omega), ih (index + 1) 0 _ huniform.tail hblock (by omega)]

theorem iovLoop_ok (blockSize : Nat) (hblock : 0 < blockSize) (nodes : List Node)
    (index npos len : Nat) (huniform : Uniform blockSize nodes) (hnpos : npos < blockSize)
    (hlen : 0 < len) (hfits : npos + len ≤ blockSize * nodes.length) :
    ∃ buffers, iovLoop nodes index npos len = .ok buffers := by
  induction nodes generalizing index npos len with
  | nil =>
    rw [List.length_nil, Nat.mul_zero] at hfits
    omega
  | cons node next ih =>
    have hsize := huniform.head
    rw [List.length_cons, Nat.mul_succ] at hfits
    unfold iovLoop
    simp only [hsize]
    by_cases hlast : len ≤ blockSize - npos
    · exact ⟨_, if_pos hlast⟩
    · obtain ⟨rest, hrest⟩ := ih (index + 1) 0 (len - (blockSize - npos)) huniform.tail hblock
        (by omega) (by omega)
      rw [if_neg hlast, hrest]
      exact ⟨_, rfl⟩

theorem regionsAtCursor_null_iff (ba : ByteArray) (hba : ba.Coherent) (len : Nat) (hlen : 0 < len)
    (hroom : ba.position < ba.capacity) :
    regionsAtCursor len ba = .error .nullNode ba ↔ ba.getCapacity < len := by
  have hleft := hba.curNodes_room hroom
  have hdecompose := Nat.div_add_mod ba.position ba.baseSize
  have hnpos := Nat.mod_lt ba.position hba.baseSize_pos
  unfold regionsAtCursor getCapacity
  by_cases hshort : ba.capacity < ba.position + len
  · rw [iovLoop_null ba.baseSize hba.baseSize_pos _ _ _ _ hba.uniform_curNodes hnpos (by omega)]
    exact iff_of_true rfl (by omega)
  · obtain ⟨buffers, hok⟩ := iovLoop_ok ba.baseSize hba.baseSize_pos ba.curNodes
      (ba.root.length - ba.curNodes.length) (ba.position % ba.baseSize) len hba.uniform_curNodes
      hnpos hlen (by omega)
    rw [hok]
    refine iff_of_false (fun h => ?_) (by omega)
    cases h

theorem write_null_iff (ba : ByteArray) (hba : ba.Coherent) (buf : List UInt8)
    (hbuf : 0 < buf.length) :
    (∃ ba', write buf ba = .error .nullNode ba') ↔
      (ba.addCapacity buf.length).getCapacity < buf.length := by
  obtain ⟨_, _, _, _, _, _, _, hroom, hgrown⟩ := addCapacity_spec hba buf.length hbuf
  rw [write, if_neg (by omega), getCapacity]
  generalize ba.addCapacity buf.length = grown at *
  by_cases hfits : grown.position + buf.length ≤ grown.capacity
  · obtain ⟨stored, hstore, -⟩ := storeAtCursor_ok hgrown buf hbuf hfits
    rw [hstore]
    refine iff_of_false ?_ (by omega)
    rintro ⟨ba', hnull⟩
    cases hnull
  · rw [storeAtCursor_null hgrown buf hroom (by omega)]
    exact iff_of_true ⟨grown, rfl⟩ (by omega)

theorem write_of_sufficient (ba : ByteArray) (hba : ba.Coherent) (buf : List UInt8)
    (henough : Sufficient ba.baseSize ba.getCapacity buf.length) :
    ∃ ba', write buf ba = .ok () ba' := by
  cases hwrite : write buf ba with
  | ok value ba' => exact ⟨ba', rfl⟩
  | error fault ba' =>
    obtain rfl := write_error hba buf hwrite
    have hbuf : 0 < buf.length := by
      by_contra hnone
      rw [write, if_pos (by omega)] at hwrite
      cases hwrite
    have hshort := (write_null_iff ba hba buf hbuf).mp ⟨ba', hwrite⟩
    have hroom := (addCapacity_room_iff ba hba buf.length).mpr henough
    omega

theorem blockCount_mul_lt (baseSize oldCap size : Nat) (hbase : 0 < baseSize) :
    blockCount baseSize oldCap size * baseSize < size - oldCap + baseSize := by
  have hdivide := Nat.div_add_mod (size - oldCap) baseSize
  simp only [blockCount]
  rw [Nat.add_mul, Nat.mul_comm ((size - oldCap) / baseSize) baseSize]
  split
  · omega
  · omega

theorem write_capacity (ba ba' : ByteArray) (buf : List UInt8) (hbuf : 0 < buf.length)
    (hwrite : write buf ba = .ok () ba') : ba'.capacity = (ba.addCapacity buf.length).capacity := by
  rw [write, if_neg (by omega)] at hwrite
  unfold storeAtCursor at hwrite
  split at hwrite
  · cases hwrite
  · cases hwrite
    rfl

private theorem eq_of_whole_blocks (baseSize count missing : Nat) (hbase : 0 < baseSize)
    (hle : missing ≤ count * baseSize) (hlt : count * baseSize < missing + baseSize) :
    missing = count * baseSize ↔ missing % baseSize = 0 := by
  constructor
  · intro heq
    rw [heq, Nat.mul_mod_left]
  · intro hmod
    obtain ⟨blocks, rfl⟩ := Nat.dvd_of_mod_eq_zero hmod
    rw [Nat.mul_comm count] at hle hlt ⊢
    have hat : blocks ≤ count := Nat.le_of_mul_le_mul_left hle hbase
    have hbelow : count < blocks + 1 := Nat.lt_of_mul_lt_mul_left (a := baseSize) hlt
    rw [Nat.le_antisymm hat (Nat.le_of_lt_succ hbelow)]

theorem write_fills_iff (ba ba' : ByteArray) (hba : ba.Coherent) (buf : List UInt8)
    (hbuf : 0 < buf.length) (hwrite : write buf ba = .ok () ba') :
    ba'.position = ba'.capacity ↔
      (ba.position + buf.length) % ba.baseSize = 0 ∧ ba.capacity ≤ ba.position + buf.length := by
  have heffect := write_ok hba buf hwrite
  have hcapacity := write_capacity ba ba' buf hbuf hwrite
  have hblocks : ba.capacity % ba.baseSize = 0 := by
    rw [hba.capacity_eq, Nat.mul_mod_right]
  have hin := hba.position_le_capacity
  rw [heffect.position_eq, hcapacity]
  by_cases henough : buf.length ≤ ba.getCapacity
  · rw [addCapacity_enough ba _ henough]
    rw [getCapacity] at henough
    constructor
    · intro hfull
      rw [hfull]
      exact ⟨hblocks, Nat.le_refl _⟩
    · rintro ⟨-, hle⟩
      omega
  · have hshort : ba.getCapacity < buf.length := Nat.lt_of_not_le henough
    have hfits : ba.position + buf.length ≤ ba'.capacity := by
      rw [← heffect.position_eq]
      exact heffect.coherent.position_le_capacity
    have hlt := blockCount_mul_lt ba.baseSize ba.getCapacity buf.length hba.baseSize_pos
    rw [hcapacity, addCapacity_capacity ba _ hshort] at hfits
    rw [addCapacity_capacity ba _ hshort]
    generalize blockCount ba.baseSize ba.getCapacity buf.length = count at *
    rw [getCapacity] at hshort hlt
    have hend : ba.position + buf.length =
        ba.capacity + (buf.length - (ba.capacity - ba.position)) := by
      omega
    have hmod : (ba.position + buf.length) % ba.baseSize =
        (buf.length - (ba.capacity - ba.position)) % ba.baseSize := by
      rw [hend, Nat.add_mod, hblocks, Nat.zero_add, Nat.mod_mod]
    have hwhole := eq_of_whole_blocks ba.baseSize count
      (buf.length - (ba.capacity - ba.position)) hba.baseSize_pos (by omega) hlt
    rw [hmod, ← hwhole]
    omega

theorem getWriteBuffers_null_iff (ba : ByteArray) (hba : ba.Coherent) (len : Nat) (hlen : 0 < len) :
    (∃ ba', getWriteBuffers len ba = .error .nullNode ba') ↔
      (ba.addCapacity len).getCapacity < len := by
  obtain ⟨_, _, _, _, _, _, _, hroom, hgrown⟩ := addCapacity_spec hba len hlen
  rw [getWriteBuffers, if_neg (by omega),
    ← regionsAtCursor_null_iff (ba.addCapacity len) hgrown len hlen hroom]
  constructor
  · rintro ⟨ba', hnull⟩
    rw [hnull]
    unfold regionsAtCursor at hnull
    split at hnull
    · cases hnull
      rfl
    · cases hnull
  · intro hnull
    exact ⟨_, hnull⟩

theorem roomFor_iff (ba : ByteArray) (hba : ba.Coherent) (size : Nat) (hsize : 0 < size) :
    ba.RoomFor size ↔ Sufficient ba.baseSize ba.getCapacity size := by
  rw [← addCapacity_room_iff ba hba size]
  constructor
  · intro hroomFor
    exact hroomFor.room
  · intro henough
    obtain ⟨_, _, _, _, _, _, _, hroom, hgrown⟩ := addCapacity_spec hba size hsize
    refine ⟨henough, ?_, ?_, ?_⟩
    · rw [hgrown.cur_of_room hroom]
      exact Option.some_ne_none _
    · rintro buf rfl ba' hnull
      have hshort := (write_null_iff ba hba buf hsize).mp ⟨ba', hnull⟩
      omega
    · intro ba' hnull
      have hshort := (getWriteBuffers_null_iff ba hba size hsize).mp ⟨ba', hnull⟩
      omega

/-- In every state that calls on a new `ByteArray` lead to, `addCapacity` makes the room that it
is asked for exactly when it is sufficient to round as it does. -/
theorem roomFor_iff_sufficient (baseSize : Nat) (hbase : 0 < baseSize)
    (fresh : Nat → Nat → UInt8) (calls : List Call) (ba : ByteArray)
    (hrun : Lib.run step (new baseSize fresh) calls = some ba) (size : Nat) (hsize : 1 ≤ size) :
    ba.RoomFor size ↔ Sufficient ba.baseSize ba.getCapacity size := by
  obtain ⟨hba, -⟩ := coherent_of_run baseSize hbase fresh calls ba hrun
  exact roomFor_iff ba hba size hsize

/-- Six bytes into blocks of four, from the third byte on. -/
theorem roomFor_iff_sufficient_whole_blocks :
    ∃ ba, Lib.run step (new 4 fun _ _ => 0) [.setPosition 2] = some ba ∧ ba.RoomFor 6 := by
  refine ⟨_, by rfl, ?_⟩
  apply (roomFor_iff_sufficient 4 (by decide) (fun _ _ => 0) [.setPosition 2] _ (by rfl) 6
    (by decide)).mpr
  decide

/-- Three bytes from there on: one is missing, which is no more than the two that are there, and
no block is added for it. -/
theorem write_after_short_addCapacity :
    ∃ ba, Lib.run step (new 4 fun _ _ => 0) [.setPosition 2] = some ba ∧
      (ba.addCapacity 3).getCapacity = 2 ∧
      (∃ ba', write [1, 2, 3] ba = .error .nullNode ba') ∧
      (∃ ba', getWriteBuffers 3 ba = .error .nullNode ba') ∧ ¬ ba.RoomFor 3 := by
  refine ⟨_, by rfl, by rfl, ⟨_, by rfl⟩, ⟨_, by rfl⟩, ?_⟩
  intro hroomFor
  exact absurd hroomFor.room (by decide)

end ByteArray
end Sylar
