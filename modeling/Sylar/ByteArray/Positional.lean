import Sylar.ByteArray.Buffers

/-! The two members that take a position: `read(buf, size, position) const` and
`getReadBuffers(buffers, len, position)`.

Both test the length against what is left behind the cursor and not behind the position. The
first one also starts in the cursor's block, and takes no more from the position than its offset
in a block. -/
namespace Sylar
namespace ByteArray

def hop : List Node → Nat → Except Fault (List Node)
  | nodes, 0 => .ok nodes
  | [], _ + 1 => .error .nullNode
  | _ :: next, count + 1 => hop next count

def getReadBuffersAt (len position : Nat) : Op (List Iovec × Nat) := fun ba =>
  let len := if len > ba.getReadSize then ba.getReadSize else len
  if len = 0 then .ok ([], 0) ba
  else
    match hop ba.root (position / ba.baseSize) with
    | .error fault => .error fault ba
    | .ok nodes =>
      match iovLoop nodes (position / ba.baseSize) (position % ba.baseSize) len with
      | .error fault => .error fault ba
      | .ok buffers => .ok (buffers, len) ba

/-- Where the read of `position` really starts: in the block of the cursor. -/
def readOrigin (ba : ByteArray) (position : Nat) : Nat :=
  ba.baseSize * (ba.position / ba.baseSize) + position % ba.baseSize

/-- A read at `position` throws when there are fewer bytes behind it, and else returns them, as
`read` does once the cursor is there. -/
structure ReadsAt (ba : ByteArray) (position size : Nat) : Prop where
  throws : (∃ what ba', readAt size position ba = .error (.outOfRange what) ba') ↔
    size > ba.size - position
  returns : size ≤ ba.size - position →
    readAt size position ba = .ok (Lib.slice ba.contents position size) ba
  agrees : size ≤ ba.size - position → ∀ start bytes last,
    setPosition position ba = .ok () start → read size start = .ok bytes last →
    readAt size position ba = .ok bytes ba

/-- The two lengths give the same answer, and when there are enough bytes, those from `readOrigin`
on are within the chain and the same as those from `position` on. -/
def PositionMatches (ba : ByteArray) (position size : Nat) : Prop :=
  (size > ba.size - position ∧ size > ba.getReadSize) ∨
    (size ≤ ba.size - position ∧ size ≤ ba.getReadSize ∧ ba.position < ba.capacity ∧
      ba.readOrigin position + size ≤ ba.capacity ∧
      Lib.slice ba.contents (ba.readOrigin position) size = Lib.slice ba.contents position size)

theorem readLoop_null (blockSize : Nat) (hblock : 0 < blockSize) (nodes : List Node)
    (npos size : Nat) (huniform : Uniform blockSize nodes) (hnpos : npos < blockSize)
    (hshort : blockSize * nodes.length < npos + size) :
    readLoop nodes npos size = .error .nullNode := by
  induction nodes generalizing npos size with
  | nil => rfl
  | cons node next ih =>
    have hsize := huniform.head
    rw [List.length_cons, Nat.mul_succ] at hshort
    unfold readLoop
    simp only [hsize]
    rw [if_neg (by omega), if_neg (by omega), Node.load, if_pos (by omega)]
    simp only
    rw [ih 0 _ huniform.tail hblock (by omega)]

section
variable (ba : ByteArray) (hba : ba.Coherent) (position size : Nat)

theorem readAt_throws (hsize : size > ba.getReadSize) :
    readAt size position ba = .error (.outOfRange "not enough len") ba :=
  if_pos hsize

include hba

theorem readAt_full (hsize : size ≤ ba.getReadSize) (hfull : ba.position = ba.capacity) :
    readAt size position ba = .error .nullNode ba := by
  unfold readAt
  rw [if_neg (by omega), hba.curNodes_of_full hfull]
  rfl

theorem readOrigin_lt (hroom : ba.position < ba.capacity) :
    ba.readOrigin position < ba.capacity ∧
      ba.readOrigin position / ba.baseSize = ba.position / ba.baseSize ∧
      ba.readOrigin position % ba.baseSize = position % ba.baseSize := by
  have hmod := Nat.mod_lt position hba.baseSize_pos
  have hindex := hba.index_lt hroom
  refine ⟨?_, ?_, ?_⟩
  · have hblocks : ba.baseSize * (ba.position / ba.baseSize + 1) ≤ ba.baseSize * ba.root.length :=
      Nat.mul_le_mul_left _ hindex
    rw [Nat.mul_succ, ← hba.capacity_eq] at hblocks
    unfold readOrigin
    omega
  · rw [readOrigin, Nat.mul_add_div hba.baseSize_pos, Nat.div_eq_of_lt hmod, Nat.add_zero]
  · rw [readOrigin, Nat.mul_add_mod, Nat.mod_mod]

theorem readAt_origin (hsize : size ≤ ba.getReadSize) (hroom : ba.position < ba.capacity) :
    readAt size position ba =
      if ba.readOrigin position + size ≤ ba.capacity then
        .ok (Lib.slice ba.contents (ba.readOrigin position) size) ba
      else .error .nullNode ba := by
  obtain ⟨horigin, hdiv, hmod⟩ := readOrigin_lt ba hba position hroom
  have hnpos := Nat.mod_lt position hba.baseSize_pos
  have hleft := hba.curNodes_room hroom
  unfold readAt
  rw [if_neg (by omega)]
  by_cases hfits : ba.readOrigin position + size ≤ ba.capacity
  · have hne : ba.curNodes ≠ [] := by
      rw [hba.curNodes_of_room hroom]
      simpa using hba.index_lt hroom
    rw [if_pos hfits, readLoop_ok hba.baseSize_pos ba.curNodes _ size hba.uniform_curNodes hnpos hne
      (by unfold readOrigin at hfits; omega)]
    have hslice := hba.slice_from horigin size
    rw [hdiv, hmod, ← hba.curNodes_of_room hroom] at hslice
    rw [hslice]
  · rw [if_neg hfits, readLoop_null ba.baseSize hba.baseSize_pos ba.curNodes _ size
      hba.uniform_curNodes hnpos (by unfold readOrigin at hfits; omega)]

theorem read_after_setPosition (start last : ByteArray) (bytes : List UInt8)
    (hposition : position ≤ ba.size) (hmove : setPosition position ba = .ok () start)
    (hread : read size start = .ok bytes last) : bytes = Lib.slice ba.contents position size := by
  have hsize := hba.size_le
  obtain ⟨moved, hok, hmoved⟩ := setPosition_ok hba position (by omega)
  rw [hok] at hmove
  cases hmove
  rw [read_returns start hmoved.coherent size bytes last hread, hmoved.contents_eq,
    hmoved.position_eq]

theorem readsAt_of_ok (hposition : position ≤ ba.size) (hsize : size ≤ ba.size - position)
    (hok : readAt size position ba = .ok (Lib.slice ba.contents position size) ba) :
    ba.ReadsAt position size := by
  constructor
  · refine iff_of_false ?_ (by omega)
    rintro ⟨what, ba', hthrow⟩
    rw [hok] at hthrow
    cases hthrow
  · intro _
    exact hok
  · intro _ start bytes last hmove hread
    rw [read_after_setPosition ba hba position size start last bytes hposition hmove hread]
    exact hok

theorem readsAt_iff (hposition : position ≤ ba.size) :
    ba.ReadsAt position size ↔ ba.PositionMatches position size := by
  by_cases hclaim : size > ba.size - position
  · by_cases hcode : size > ba.getReadSize
    · have hthrow := readAt_throws ba position size hcode
      refine iff_of_true ⟨?_, ?_, ?_⟩ (.inl ⟨hclaim, hcode⟩)
      · exact iff_of_true ⟨_, ba, hthrow⟩ hclaim
      · intro hle
        omega
      · intro hle
        omega
    · refine iff_of_false ?_ ?_
      · intro hreads
        obtain ⟨what, ba', hthrow⟩ := hreads.throws.mpr hclaim
        by_cases hfull : ba.position = ba.capacity
        · rw [readAt_full ba hba position size (by omega) hfull] at hthrow
          cases hthrow
        · rw [readAt_origin ba hba position size (by omega)
            (Nat.lt_of_le_of_ne hba.position_le_capacity hfull)] at hthrow
          split at hthrow
          · cases hthrow
          · cases hthrow
      · rintro (⟨-, hboth⟩ | ⟨hle, -⟩)
        · omega
        · omega
  · constructor
    · intro hreads
      have hok := hreads.returns (by omega)
      by_cases hcode : size > ba.getReadSize
      · rw [readAt_throws ba position size hcode] at hok
        cases hok
      · by_cases hfull : ba.position = ba.capacity
        · rw [readAt_full ba hba position size (by omega) hfull] at hok
          cases hok
        · have hroom := Nat.lt_of_le_of_ne hba.position_le_capacity hfull
          rw [readAt_origin ba hba position size (by omega) hroom] at hok
          split at hok
          · rename_i hfits
            exact .inr ⟨by omega, by omega, hroom, hfits, (EStateM.Result.ok.inj hok).1⟩
          · cases hok
    · rintro (⟨hmore, -⟩ | ⟨hle, hcode, hroom, hfits, hbytes⟩)
      · omega
      · apply readsAt_of_ok ba hba position size hposition hle
        rw [readAt_origin ba hba position size hcode hroom, if_pos hfits, hbytes]

theorem forall_readsAt_iff (hposition : position ≤ ba.size) :
    (∀ size, ba.ReadsAt position size) ↔ position = ba.position ∧ ba.position < ba.capacity := by
  have hcursor := hba.position_le
  have hwithin := hba.size_le
  constructor
  · intro hall
    have hsame : position = ba.position := by
      rcases Nat.lt_trichotomy position ba.position with hbefore | hsame | hbehind
      · have hmatches := (readsAt_iff ba hba position (ba.size - position) hposition).mp (hall _)
        rw [PositionMatches, getReadSize] at hmatches
        omega
      · exact hsame
      · have hmatches := (readsAt_iff ba hba position ba.getReadSize hposition).mp (hall _)
        rw [PositionMatches, getReadSize] at hmatches
        omega
    have hmatches := (readsAt_iff ba hba position 0 hposition).mp (hall 0)
    rw [PositionMatches, getReadSize] at hmatches
    omega
  · rintro ⟨rfl, hroom⟩ size
    have horigin : ba.readOrigin ba.position = ba.position := Nat.div_add_mod _ _
    rw [readsAt_iff ba hba _ size hposition, PositionMatches, horigin, getReadSize]
    by_cases henough : size ≤ ba.size - ba.position
    · exact .inr ⟨henough, henough, hroom, by omega, rfl⟩
    · exact .inl ⟨Nat.lt_of_not_le henough, Nat.lt_of_not_le henough⟩

end

/-- In every state that calls on a new `ByteArray` lead to, the read at a position is right exactly
when the position matches the cursor for the size that is asked for. -/
theorem readAt_iff_positionMatches (baseSize : Nat) (hbase : 0 < baseSize)
    (fresh : Nat → Nat → UInt8) (calls : List Call) (ba : ByteArray)
    (hrun : Lib.run step (new baseSize fresh) calls = some ba) (position : Nat)
    (hposition : position ≤ ba.size) :
    (∀ size, ba.ReadsAt position size ↔ ba.PositionMatches position size) ∧
      ((∀ size, ba.ReadsAt position size) ↔
        position = ba.position ∧ ba.position < ba.capacity) := by
  obtain ⟨hba, -⟩ := coherent_of_run baseSize hbase fresh calls ba hrun
  refine ⟨?_, forall_readsAt_iff ba hba position hposition⟩
  intro size
  exact readsAt_iff ba hba position size hposition

theorem readAt_iff_positionMatches_cursor :
    ∃ ba, Lib.run step (new 2 fun _ _ => 0) [.write [1, 2, 3, 4], .setPosition 1] = some ba ∧
      ∀ size, ba.ReadsAt 1 size := by
  refine ⟨_, by rfl, ?_⟩
  exact (readAt_iff_positionMatches 2 (by decide) (fun _ _ => 0)
    [.write [1, 2, 3, 4], .setPosition 1] _ (by rfl) 1 (by decide)).2.mpr (by decide)

/-- With the cursor in the first block, a byte of the second one is not what is read. -/
theorem readAt_other_block :
    ∃ ba, Lib.run step (new 2 fun _ _ => 0) [.write [1, 2, 3, 4], .setPosition 0] = some ba ∧
      readAt 1 2 ba = .ok [1] ba ∧ Lib.slice ba.contents 2 1 = [3] ∧ ¬ ba.ReadsAt 2 1 := by
  refine ⟨_, by rfl, by rfl, by rfl, ?_⟩
  intro hreads
  have hbytes := (EStateM.Result.ok.inj (hreads.returns (by decide))).1
  revert hbytes
  decide

/-- The regions at `position` are the bytes from there on, as many as there are up to `len`. -/
structure RegionsAt (ba : ByteArray) (len position : Nat) : Prop where
  regions : ∃ regions,
    getReadBuffersAt len position ba = .ok (regions, min len (ba.size - position)) ba ∧
    gather ba.root regions = Lib.slice ba.contents position (min len (ba.size - position)) ∧
    ∀ iov ∈ regions, ba.baseSize * iov.node + iov.npos + iov.len ≤ ba.size

theorem Regions.stop_le {baseSize pos len : Nat} {regions : List Iovec}
    (hregions : Regions baseSize pos len regions) :
    ∀ iov ∈ regions, baseSize * iov.node + iov.npos + iov.len ≤ pos + len := by
  induction regions generalizing pos len with
  | nil =>
    intro iov hiov
    cases hiov
  | cons first rest ih =>
    obtain ⟨hstart, -, -, hle, hrest⟩ := hregions
    intro iov hiov
    rcases List.mem_cons.mp hiov with rfl | hmem
    · omega
    · have hlater := ih hrest iov hmem
      omega

theorem hop_eq_drop (nodes : List Node) (count : Nat) (hcount : count ≤ nodes.length) :
    hop nodes count = .ok (nodes.drop count) := by
  induction count generalizing nodes with
  | zero => cases nodes <;> rfl
  | succ count ih =>
    cases nodes with
    | nil => exact absurd hcount (Nat.not_succ_le_zero _)
    | cons node next =>
      rw [hop, ih next (Nat.le_of_succ_le_succ hcount), List.drop_succ_cons]

theorem getReadBuffersAt_value (ba ba' : ByteArray) (len position value : Nat)
    (regions : List Iovec) (hcall : getReadBuffersAt len position ba = .ok (regions, value) ba') :
    value = min len ba.getReadSize := by
  unfold getReadBuffersAt at hcall
  simp only [clamp_getReadSize] at hcall
  split at hcall
  · rename_i hnone
    cases hcall
    exact hnone.symm
  · split at hcall
    · cases hcall
    · split at hcall
      · cases hcall
      · cases hcall
        rfl

theorem getReadBuffersAt_ok (ba : ByteArray) (hba : ba.Coherent) (len position : Nat)
    (hfits : position + min len ba.getReadSize ≤ ba.capacity) :
    ∃ regions, getReadBuffersAt len position ba = .ok (regions, min len ba.getReadSize) ba ∧
      Regions ba.baseSize position (min len ba.getReadSize) regions := by
  unfold getReadBuffersAt
  simp only [clamp_getReadSize]
  by_cases hnone : min len ba.getReadSize = 0
  · rw [if_pos hnone, hnone]
    exact ⟨[], rfl, rfl⟩
  · have hroom : position < ba.capacity := by omega
    have hindex := hba.index_lt hroom
    obtain ⟨regions, hloop, hregions⟩ :=
      iovLoop_from ba hba position _ (Nat.pos_of_ne_zero hnone) hfits
    rw [if_neg hnone, hop_eq_drop ba.root _ (Nat.le_of_lt hindex)]
    simp only [hloop]
    exact ⟨regions, rfl, hregions⟩

theorem regionsAt_iff (ba : ByteArray) (hba : ba.Coherent) (len position : Nat)
    (hposition : position ≤ ba.size) :
    ba.RegionsAt len position ↔
      position = ba.position ∨ len ≤ ba.size - position ∧ len ≤ ba.getReadSize := by
  have hcursor := hba.position_le
  have hwithin := hba.size_le
  have hsame : min len ba.getReadSize = min len (ba.size - position) ↔
      position = ba.position ∨ len ≤ ba.size - position ∧ len ≤ ba.getReadSize := by
    rw [getReadSize]
    omega
  rw [← hsame]
  constructor
  · rintro ⟨regions, hcall, -⟩
    exact (getReadBuffersAt_value ba ba len position _ regions hcall).symm
  · intro hclamp
    obtain ⟨regions, hcall, hregions⟩ :=
      getReadBuffersAt_ok ba hba len position (by rw [hclamp]; omega)
    rw [hclamp] at hcall hregions
    refine ⟨regions, hcall, ?_, ?_⟩
    · apply gather_eq hba.uniform regions position _ hregions
      rw [← hba.capacity_eq]
      omega
    · intro iov hiov
      have hstop := hregions.stop_le iov hiov
      omega

/-- In every state that calls on a new `ByteArray` lead to, the regions at a position are right
exactly when it is the cursor's, or both it and the cursor have `len` bytes behind them. -/
theorem getReadBuffersAt_iff (baseSize : Nat) (hbase : 0 < baseSize)
    (fresh : Nat → Nat → UInt8) (calls : List Call) (ba : ByteArray)
    (hrun : Lib.run step (new baseSize fresh) calls = some ba) (position : Nat)
    (hposition : position ≤ ba.size) (len : Nat) :
    ba.RegionsAt len position ↔
      position = ba.position ∨ len ≤ ba.size - position ∧ len ≤ ba.getReadSize :=
  regionsAt_iff ba (coherent_of_run baseSize hbase fresh calls ba hrun).1 len position hposition

theorem getReadBuffersAt_iff_second_block :
    ∃ ba, Lib.run step (new 2 fun _ _ => 0) [.write [1, 2, 3, 4], .setPosition 1] = some ba ∧
      ba.RegionsAt 2 2 := by
  refine ⟨_, by rfl, ?_⟩
  exact (getReadBuffersAt_iff 2 (by decide) (fun _ _ => 0) [.write [1, 2, 3, 4], .setPosition 1] _
    (by rfl) 2 (by decide) 2).mpr (by decide)

/-- Three bytes were written and the cursor is before them: three are returned from the third one
on, two of which were never written. -/
theorem getReadBuffersAt_past_size :
    ∃ ba, Lib.run step (new 8 fun _ _ => 0) [.write [1, 2, 3], .setPosition 0] = some ba ∧
      getReadBuffersAt 3 2 ba = .ok ([⟨0, 2, 3⟩], 3) ba ∧ ba.size = 3 ∧ ¬ ba.RegionsAt 3 2 := by
  refine ⟨_, by rfl, by rfl, by rfl, ?_⟩
  rintro ⟨regions, hcall, -⟩
  have hvalue := getReadBuffersAt_value _ _ _ _ _ _ hcall
  revert hvalue
  decide

end ByteArray
end Sylar
