import Sylar.ByteArray.Capacity

/-! `writeToFile` and `readFromFile`.

The export walks the chain by itself and writes one chunk for every node. The length of a chunk
is the smaller of what is left and the block size, less the offset in the block: the offset is
taken off twice when what is left does not reach the end of the block. -/
namespace Sylar

/-- One call `ofs.write(cur->ptr + diff, len)`; `node` counts the nodes from `m_root`. -/
structure Chunk where
  node : Nat
  diff : Int
  len : Int
  bytes : List UInt8

/-- The length of `ostream::write` must not be negative. -/
inductive FileFault where
  | nullNode
  | outOfBounds
  | negativeLength
deriving DecidableEq, Repr

def Node.emit (node : Node) (diff len : Int) : Except FileFault (List UInt8) :=
  if len < 0 then .error .negativeLength
  else if diff < 0 ∨ diff + len > node.size then .error .outOfBounds
  else .ok (Lib.slice node.ptr diff.toNat len.toNat)

namespace ByteArray

/-- The loop of `writeToFile`. `diff` is an `int`. -/
def exportLoop (baseSize : Nat) : List Node → Nat → Int → Int → Except FileFault (List Chunk)
  | [], _, _, readSize => if readSize > 0 then .error .nullNode else .ok []
  | node :: next, index, pos, readSize =>
    if readSize > 0 then
      let diff : Int := (pos % baseSize).bmod (2 ^ 32)
      let len := (if readSize > baseSize then (baseSize : Int) else readSize) - diff
      match node.emit diff len with
      | .error fault => .error fault
      | .ok bytes =>
        match exportLoop baseSize next (index + 1) (pos + len) (readSize - len) with
        | .error fault => .error fault
        | .ok rest => .ok (⟨index, diff, len, bytes⟩ :: rest)
    else .ok []

/-- `opened` says whether the file could be opened. -/
def writeToFile (opened : Bool) : EStateM FileFault ByteArray (Bool × List Chunk) := fun ba =>
  if opened then
    match exportLoop ba.baseSize ba.curNodes (ba.root.length - ba.curNodes.length) ba.position
        ba.getReadSize with
    | .error fault => .error fault ba
    | .ok chunks => .ok (true, chunks) ba
  else .ok (false, []) ba

/-- The chunks are one behind the other from `pos` to `stop`. -/
def Covers (baseSize : Nat) : Int → List Chunk → Int → Prop
  | pos, [], stop => pos = stop
  | pos, chunk :: chunks, stop =>
    (chunk.node * baseSize + chunk.diff : Int) = pos ∧ 0 ≤ chunk.len ∧
      Covers baseSize (pos + chunk.len) chunks stop

/-- The export writes what stands from the cursor to the end of the data, in order. -/
structure Exports (ba : ByteArray) : Prop where
  writes : ∃ chunks, writeToFile true ba = .ok (true, chunks) ba ∧
    Covers ba.baseSize ba.position chunks ba.size ∧
    chunks.flatMap Chunk.bytes = Lib.slice ba.contents ba.position ba.getReadSize

theorem exportLoop_done (baseSize : Nat) (nodes : List Node) (index : Nat) (pos readSize : Int)
    (hdone : readSize ≤ 0) : exportLoop baseSize nodes index pos readSize = .ok [] := by
  cases nodes with
  | nil => exact if_neg (by omega)
  | cons node next => exact if_neg (by omega)

theorem exportLoop_step (baseSize : Nat) (node : Node) (next : List Node) (index pos len : Nat)
    (readSize : Int) (rest : List Chunk) (hsize : node.size = baseSize) (hread : 0 < readSize)
    (hint : pos % baseSize < 2 ^ 31)
    (hlen : (if readSize > baseSize then (baseSize : Int) else readSize) =
      (pos % baseSize + len : Nat)) (hfits : pos % baseSize + len ≤ baseSize)
    (hrest : exportLoop baseSize next (index + 1) (pos + len : Nat) (readSize - len) = .ok rest) :
    exportLoop baseSize (node :: next) index pos readSize =
      .ok (⟨index, (pos % baseSize : Nat), len, Lib.slice node.ptr (pos % baseSize) len⟩ :: rest) := by
  have hdiff : ((pos : Int) % baseSize).bmod (2 ^ 32) = (pos % baseSize : Nat) := by
    rw [← Int.natCast_emod]
    exact Int.bmod_eq_of_le (by omega) (by omega)
  have hemit : node.emit (pos % baseSize : Nat) len =
      .ok (Lib.slice node.ptr (pos % baseSize) len) := by
    rw [Node.emit, if_neg (by omega), if_neg (by omega), Int.toNat_natCast, Int.toNat_natCast]
  have hlen' : (if readSize > baseSize then (baseSize : Int) else readSize) -
      (pos % baseSize : Nat) = len := by
    rw [hlen]
    push_cast
    omega
  rw [exportLoop, if_pos hread]
  simp only [hdiff, hlen', hemit]
  rw [← Int.natCast_add, hrest]

theorem exportLoop_aligned (baseSize : Nat) (hbase : 0 < baseSize) (nodes : List Node)
    (huniform : Uniform baseSize nodes) (index count : Nat)
    (hfits : count ≤ baseSize * nodes.length) :
    ∃ chunks, exportLoop baseSize nodes index (baseSize * index : Nat) count = .ok chunks ∧
      Covers baseSize (baseSize * index : Nat) chunks (baseSize * index + count : Nat) ∧
      chunks.flatMap Chunk.bytes = Lib.slice (chainBytes nodes) 0 count := by
  induction nodes generalizing index count with
  | nil =>
    rw [List.length_nil, Nat.mul_zero] at hfits
    obtain rfl : count = 0 := by omega
    exact ⟨[], rfl, rfl, rfl⟩
  | cons node next ih =>
    by_cases hzero : count = 0
    · subst hzero
      exact ⟨[], exportLoop_done _ _ _ _ _ (by omega), rfl, (Lib.slice_zero _ _).symm⟩
    have hsize := huniform.head
    have hptr : node.ptr.length = baseSize := node.length_ptr.trans hsize
    have hstart : baseSize * index % baseSize = 0 := Nat.mul_mod_right _ _
    rw [List.length_cons, Nat.mul_succ] at hfits
    by_cases hmore : baseSize < count
    · obtain ⟨rest, hrest, hcovers, hbytes⟩ :=
        ih huniform.tail (index + 1) (count - baseSize) (by omega)
      rw [Nat.mul_succ] at hrest hcovers
      refine ⟨_, exportLoop_step baseSize node next index (baseSize * index) baseSize count rest hsize
        (by omega) (by omega) ?_ (by omega) ?_, ?_, ?_⟩
      · rw [if_pos (by omega), hstart, Nat.zero_add]
      · rw [← hrest]
        congr 1
        omega
      · refine ⟨?_, Int.natCast_nonneg _, ?_⟩
        · rw [hstart]
          push_cast
          ring
        · rw [← Int.natCast_add]
          rw [show baseSize * index + baseSize + (count - baseSize) = baseSize * index + count by
            omega] at hcovers
          exact hcovers
      · rw [List.flatMap_cons, hbytes, hstart, chainBytes_cons]
        conv_rhs => rw [show count = baseSize + (count - baseSize) by omega]
        rw [Lib.slice_append_split _ _ _ _ _ (by omega)]
    · refine ⟨_, exportLoop_step baseSize node next index (baseSize * index) count count [] hsize
        (by omega) (by omega) ?_ (by omega) (exportLoop_done _ _ _ _ _ (by omega)), ?_, ?_⟩
      · rw [if_neg (by omega), hstart, Nat.zero_add]
      · refine ⟨?_, Int.natCast_nonneg _, ?_⟩
        · rw [hstart]
          push_cast
          ring
        · exact (Int.natCast_add _ _).symm
      · rw [List.flatMap_cons, List.flatMap_nil, List.append_nil, hstart, chainBytes_cons,
          Lib.slice_append_left _ _ _ _ (by omega)]

theorem exportLoop_from (baseSize : Nat) (hbase : 0 < baseSize) (nodes : List Node)
    (huniform : Uniform baseSize nodes) (pos count : Nat) (hint : pos % baseSize < 2 ^ 31)
    (hcount : baseSize ≤ count) (hfits : pos % baseSize + count ≤ baseSize * nodes.length) :
    ∃ chunks, exportLoop baseSize nodes (pos / baseSize) pos count = .ok chunks ∧
      Covers baseSize pos chunks (pos + count : Nat) ∧
      chunks.flatMap Chunk.bytes = Lib.slice (chainBytes nodes) (pos % baseSize) count := by
  have hdecompose := Nat.div_add_mod pos baseSize
  have hmod := Nat.mod_lt pos hbase
  cases nodes with
  | nil =>
    rw [List.length_nil, Nat.mul_zero] at hfits
    omega
  | cons node next =>
    have hsize := huniform.head
    have hptr : node.ptr.length = baseSize := node.length_ptr.trans hsize
    rw [List.length_cons, Nat.mul_succ] at hfits
    let len := baseSize - pos % baseSize
    obtain ⟨rest, hrest, hcovers, hbytes⟩ := exportLoop_aligned baseSize hbase next huniform.tail
      (pos / baseSize + 1) (count - len) (by omega)
    have hnext : pos + len = baseSize * (pos / baseSize + 1) := by
      rw [Nat.mul_succ]
      omega
    rw [← hnext] at hrest hcovers
    refine ⟨_, exportLoop_step baseSize node next (pos / baseSize) pos len count rest hsize
      (by omega) hint ?_ (by omega) ?_, ?_, ?_⟩
    · split
      · omega
      · omega
    · rw [← hrest]
      congr 1
      omega
    · refine ⟨?_, Int.natCast_nonneg _, ?_⟩
      · rw [← Int.natCast_mul, ← Int.natCast_add, Nat.mul_comm, hdecompose]
      · rw [← Int.natCast_add]
        rw [show pos + len + (count - len) = pos + count by omega] at hcovers
        exact hcovers
    · rw [List.flatMap_cons, hbytes, chainBytes_cons]
      conv_rhs => rw [show count = len + (count - len) by omega]
      rw [Lib.slice_append_split _ _ _ _ _ (by omega)]

theorem emit_diff_nonneg (node : Node) (diff len : Int) (bytes : List UInt8)
    (hemit : node.emit diff len = .ok bytes) : 0 ≤ diff := by
  by_contra hneg
  unfold Node.emit at hemit
  split at hemit
  · cases hemit
  · rw [if_pos (.inl (by omega))] at hemit
    cases hemit

theorem exportLoop_inv (baseSize : Nat) (nodes : List Node) (index : Nat) (pos readSize : Int)
    (chunks : List Chunk) (hread : 0 < readSize)
    (hloop : exportLoop baseSize nodes index pos readSize = .ok chunks) :
    ∃ next first rest, chunks = first :: rest ∧ first.node = index ∧ 0 ≤ first.diff ∧
      first.diff = (pos % baseSize).bmod (2 ^ 32) ∧
      first.len = (if readSize > baseSize then (baseSize : Int) else readSize) - first.diff ∧
      exportLoop baseSize next (index + 1) (pos + first.len) (readSize - first.len) = .ok rest := by
  cases nodes with
  | nil =>
    rw [exportLoop, if_pos hread] at hloop
    cases hloop
  | cons node next =>
    rw [exportLoop, if_pos hread] at hloop
    dsimp only at hloop
    split at hloop
    · cases hloop
    · rename_i bytes hemit
      split at hloop
      · cases hloop
      · rename_i rest hrest
        cases hloop
        exact ⟨next, _, rest, rfl, rfl, emit_diff_nonneg node _ _ bytes hemit, rfl, rfl, hrest⟩

/-- A remainder that is shorter than a block, from inside a block on: the second chunk would have
to be in the same node, but the loop has gone to the next. -/
theorem exportLoop_not_covers (baseSize : Nat) (nodes : List Node)
    (pos count : Nat) (chunks : List Chunk) (stop : Int) (hcount : 0 < count)
    (hinside : 0 < pos % baseSize) (hwrong : ¬ (baseSize ≤ count ∧ pos % baseSize < 2 ^ 31))
    (hloop : exportLoop baseSize nodes (pos / baseSize) pos count = .ok chunks) :
    ¬ Covers baseSize pos chunks stop := by
  have hdecompose := Nat.div_add_mod pos baseSize
  obtain ⟨next, first, rest, rfl, hnode, -, hdiff, hlen, hrest⟩ :=
    exportLoop_inv baseSize nodes _ _ _ chunks (by omega) hloop
  rintro ⟨hstart, -, hcovers⟩
  rw [hnode, Int.mul_comm, ← Int.natCast_mul] at hstart
  -- the first chunk begins at the cursor, so the offset was not cut off
  have hexact : first.diff = (pos % baseSize : Nat) := by omega
  have hint : pos % baseSize < 2 ^ 31 := by
    have hbound := @Int.bmod_lt ((pos : Int) % baseSize) (2 ^ 32) (by decide)
    rw [← hdiff, hexact] at hbound
    omega
  have hshort : count < baseSize := by
    by_contra hlong
    exact hwrong ⟨Nat.le_of_not_lt hlong, hint⟩
  rw [if_neg (by omega), hexact] at hlen
  rw [hlen] at hrest hcovers
  obtain ⟨-, second, rest', rfl, hnode', hdiff', -, -, -⟩ :=
    exportLoop_inv baseSize next _ _ _ rest (by omega) hrest
  obtain ⟨hstart', -⟩ := hcovers
  have hblock : ((pos / baseSize + 1 : Nat) : Int) * baseSize =
      (baseSize * (pos / baseSize) : Nat) + baseSize := by
    push_cast
    ring
  rw [hnode', hblock] at hstart'
  omega

theorem exports_of_empty (ba : ByteArray) (hba : ba.Coherent) (hzero : ba.getReadSize = 0) :
    ba.Exports := by
  have hposition := hba.position_le
  rw [getReadSize] at hzero
  refine ⟨[], ?_, ?_, ?_⟩
  · rw [writeToFile, if_pos rfl, exportLoop_done _ _ _ _ _ (by rw [getReadSize]; omega)]
  · change (ba.position : Int) = ba.size
    omega
  · rw [getReadSize, hzero, Lib.slice_zero]
    rfl

theorem writeToFile_ok_iff (ba : ByteArray) (hba : ba.Coherent) (hroom : ba.position < ba.capacity)
    (chunks : List Chunk) : writeToFile true ba = .ok (true, chunks) ba ↔
      exportLoop ba.baseSize ba.curNodes (ba.position / ba.baseSize) ba.position
        ba.getReadSize = .ok chunks := by
  rw [writeToFile, if_pos rfl, hba.cur_index hroom]
  split
  · rename_i hloop
    rw [hloop]
    constructor
    · intro h
      cases h
    · intro h
      cases h
  · rename_i hloop
    rw [hloop]
    constructor
    · intro h
      cases h
      rfl
    · intro h
      cases h
      rfl

theorem exports_iff (ba : ByteArray) (hba : ba.Coherent) :
    ba.Exports ↔ ba.getReadSize = 0 ∨ ba.position % ba.baseSize = 0 ∨
      ba.baseSize ≤ ba.getReadSize ∧ ba.position % ba.baseSize < 2 ^ 31 := by
  have hsize := hba.size_le
  have hposition := hba.position_le
  have hmod := Nat.mod_lt ba.position hba.baseSize_pos
  have hdecompose := Nat.div_add_mod ba.position ba.baseSize
  have hread : ba.position + ba.getReadSize = ba.size := by
    rw [getReadSize]
    omega
  by_cases hzero : ba.getReadSize = 0
  · exact iff_of_true (exports_of_empty ba hba hzero) (.inl hzero)
  have hroom : ba.position < ba.capacity := by omega
  have hleft := hba.curNodes_room hroom
  have hfile := writeToFile_ok_iff ba hba hroom
  have hslice : Lib.slice (chainBytes ba.curNodes) (ba.position % ba.baseSize) ba.getReadSize =
      Lib.slice ba.contents ba.position ba.getReadSize := by
    rw [hba.curNodes_of_room hroom, hba.slice_from hroom]
  constructor
  · rintro ⟨chunks, hwrite, hcovers, -⟩
    by_contra hnot
    exact exportLoop_not_covers ba.baseSize ba.curNodes ba.position ba.getReadSize chunks
      ba.size (by omega) (by omega) (by tauto) ((hfile chunks).mp hwrite) hcovers
  · rintro (hnone | haligned | ⟨hlong, hint⟩)
    · exact absurd hnone hzero
    · obtain ⟨chunks, hloop, hcovers, hbytes⟩ := exportLoop_aligned ba.baseSize hba.baseSize_pos
        ba.curNodes hba.uniform_curNodes (ba.position / ba.baseSize) ba.getReadSize (by omega)
      have hstart : ba.baseSize * (ba.position / ba.baseSize) = ba.position := by omega
      rw [hstart] at hloop hcovers
      rw [hread] at hcovers
      rw [haligned] at hslice
      exact ⟨chunks, (hfile chunks).mpr hloop, hcovers, hbytes.trans hslice⟩
    · obtain ⟨chunks, hloop, hcovers, hbytes⟩ := exportLoop_from ba.baseSize hba.baseSize_pos
        ba.curNodes hba.uniform_curNodes ba.position ba.getReadSize hint hlong (by omega)
      rw [hread] at hcovers
      exact ⟨chunks, (hfile chunks).mpr hloop, hcovers, hbytes.trans hslice⟩

/-- In every state that calls on a new `ByteArray` lead to, the export is right exactly when there
is nothing to write, or the cursor is at the start of a block, or a block's length is left at
least and the offset in the block fits an `int`. -/
theorem writeToFile_exports_iff (baseSize : Nat) (hbase : 0 < baseSize)
    (fresh : Nat → Nat → UInt8) (calls : List Call) (ba : ByteArray)
    (hrun : Lib.run step (new baseSize fresh) calls = some ba) :
    ba.Exports ↔ ba.getReadSize = 0 ∨ ba.position % ba.baseSize = 0 ∨
      ba.baseSize ≤ ba.getReadSize ∧ ba.position % ba.baseSize < 2 ^ 31 :=
  exports_iff ba (coherent_of_run baseSize hbase fresh calls ba hrun).1

theorem writeToFile_exports_iff_from_second_byte :
    ∃ ba, Lib.run step (new 2 fun _ _ => 0) [.write [1, 2, 3, 4], .setPosition 1] = some ba ∧
      ba.Exports := by
  refine ⟨_, by rfl, ?_⟩
  exact (writeToFile_exports_iff 2 (by decide) (fun _ _ => 0) [.write [1, 2, 3, 4], .setPosition 1]
    _ (by rfl)).mpr (by decide)

/-- Three bytes in a block of four, exported from the third one on: the length is 1 - 2. -/
theorem writeToFile_negative_length :
    ∃ ba, Lib.run step (new 4 fun _ _ => 0) [.write [1, 2, 3], .setPosition 2] = some ba ∧
      writeToFile true ba = .error .negativeLength ba ∧ ¬ ba.Exports := by
  refine ⟨_, by rfl, by rfl, ?_⟩
  rintro ⟨chunks, hwrite, -⟩
  cases hwrite

/-- The loop of `readFromFile` on what is left of the file, `none` while it has not ended after
`rounds` rounds. `ifs.read` delivers as many bytes as there are, at most a block, and the end of
the file is seen when there are fewer. -/
def importLoop (baseSize : Nat) :
    Nat → List UInt8 → ByteArray → Option (EStateM.Result Fault ByteArray Bool)
  | 0, _, _ => none
  | rounds + 1, file, ba =>
    let buff := file.take baseSize
    match write buff ba with
    | .error fault ba' => some (.error fault ba')
    | .ok _ ba' =>
      if buff.length < baseSize then some (.ok true ba')
      else importLoop baseSize rounds (file.drop baseSize) ba'

def readFromFile (opened : Bool) (file : List UInt8) (rounds : Nat) (ba : ByteArray) :
    Option (EStateM.Result Fault ByteArray Bool) :=
  if opened then importLoop ba.baseSize rounds file ba else some (.ok false ba)

theorem sufficient_of_aligned (baseSize oldCap size : Nat)
    (haligned : oldCap % baseSize = 0) (hsize : size ≤ baseSize) :
    Sufficient baseSize oldCap size := by
  by_cases hnone : oldCap = 0
  · subst hnone
    exact .inr ((Nat.eq_zero_or_pos _).imp id id)
  · have hblock := Nat.le_of_dvd (Nat.pos_of_ne_zero hnone) (Nat.dvd_of_mod_eq_zero haligned)
    exact .inl (hsize.trans hblock)

theorem importLoop_ok (file : List UInt8) (ba : ByteArray) (hba : ba.Coherent)
    (hend : ba.position = ba.size) (haligned : ba.position % ba.baseSize = 0) :
    ∃ ba', (∀ rounds, file.length < rounds →
        importLoop ba.baseSize rounds file ba = some (.ok true ba')) ∧
      ba'.position = ba'.size ∧ ba'.size = ba.size + file.length ∧
      ba'.contents.take ba'.size = ba.contents.take ba.size ++ file := by
  induction hlength : file.length using Nat.strongRecOn generalizing file ba with
  | ind length ih =>
    have hbase := hba.baseSize_pos
    have hbuff : (file.take ba.baseSize).length ≤ ba.baseSize := List.length_take_le _ _
    have hroom : ba.getCapacity % ba.baseSize = 0 := by
      have hcapacity : ba.capacity % ba.baseSize = 0 := by
        rw [hba.capacity_eq, Nat.mul_mod_right]
      exact Nat.mod_eq_zero_of_dvd (Nat.dvd_sub (Nat.dvd_of_mod_eq_zero hcapacity)
        (Nat.dvd_of_mod_eq_zero haligned))
    obtain ⟨mid, hwrite⟩ := write_of_sufficient ba hba (file.take ba.baseSize)
      (sufficient_of_aligned ba.baseSize ba.getCapacity _ hroom hbuff)
    have heffect := write_ok hba _ hwrite
    obtain ⟨hend', hsize, hdata⟩ := heffect.append hba hend
    rw [List.length_take] at hsize hbuff
    by_cases hlast : file.length < ba.baseSize
    · rw [List.take_of_length_le (Nat.le_of_lt hlast)] at hdata
      refine ⟨mid, ?_, hend', by omega, hdata⟩
      intro rounds hrounds
      obtain ⟨rounds, rfl⟩ := Nat.exists_eq_add_one_of_ne_zero (Nat.ne_of_gt (Nat.zero_lt_of_lt hrounds))
      simp only [importLoop, hwrite, List.length_take]
      rw [if_pos (by omega)]
    · have hmid : mid.position % mid.baseSize = 0 := by
        rw [heffect.position_eq, heffect.baseSize_eq, List.length_take,
          Nat.min_eq_left (by omega), Nat.add_mod_right, haligned]
      obtain ⟨ba', hloop, hend'', hsize', hdata'⟩ := ih (file.drop ba.baseSize).length
        (by rw [List.length_drop]; omega) (file.drop ba.baseSize) mid heffect.coherent hend' hmid rfl
      rw [heffect.baseSize_eq] at hloop
      rw [List.length_drop] at hloop hsize'
      refine ⟨ba', ?_, hend'', by omega, ?_⟩
      · intro rounds hrounds
        obtain ⟨rounds, rfl⟩ := Nat.exists_eq_add_one_of_ne_zero (Nat.ne_of_gt (Nat.zero_lt_of_lt hrounds))
        simp only [importLoop, hwrite, List.length_take]
        rw [if_neg (by omega)]
        exact hloop rounds (by omega)
      · rw [hdata', hdata, List.append_assoc, List.take_append_drop]

/-- A file of any length is read into a new array, or one that was just cleared: it takes no more
rounds than the file has bytes and one, follows no null `Node*`, and leaves the array with the
bytes of the file and the cursor at their end. -/
theorem readFromFile_complete (baseSize : Nat) (hbase : 0 < baseSize) (fresh : Nat → Nat → UInt8)
    (ba : ByteArray)
    (hempty : ba = new baseSize fresh ∨ ∃ calls before,
      Lib.run step (new baseSize fresh) calls = some before ∧ clear before = .ok () ba)
    (file : List UInt8) :
    ∃ ba', (∀ rounds, file.length < rounds →
        readFromFile true file rounds ba = some (.ok true ba')) ∧
      ba'.contents.take ba'.size = file ∧ ba'.position = file.length ∧
      ba'.size = file.length := by
  have hstart : ba.Coherent ∧ ba.position = 0 ∧ ba.size = 0 := by
    rcases hempty with rfl | ⟨calls, before, hrun, hclear⟩
    · exact ⟨coherent_new baseSize fresh hbase, rfl, rfl⟩
    · obtain ⟨hbefore, -⟩ := coherent_of_run baseSize hbase fresh calls before hrun
      obtain ⟨cleared, hok, hcoherent, -, hposition, hsize, -⟩ := clear_ok hbefore
      rw [hok] at hclear
      cases hclear
      exact ⟨hcoherent, hposition, hsize⟩
  obtain ⟨hba, hposition, hsize⟩ := hstart
  obtain ⟨ba', hloop, hend, hsize', hdata⟩ := importLoop_ok file ba hba (hposition.trans hsize.symm)
    (by rw [hposition, Nat.zero_mod])
  rw [hsize, Nat.zero_add] at hsize'
  rw [hsize, List.take_zero, List.nil_append] at hdata
  exact ⟨ba', hloop, hdata, hend.trans hsize', hsize'⟩

/-- Two blocks to the byte, so that the end is seen in a round without bytes. -/
theorem readFromFile_complete_two_blocks :
    ∃ ba', readFromFile true [1, 2, 3, 4] 5 (new 2 fun _ _ => 0) = some (.ok true ba') ∧
      ba'.contents.take ba'.size = [1, 2, 3, 4] := by
  obtain ⟨ba', hread, hdata, -⟩ := readFromFile_complete 2 (by decide) (fun _ _ => 0) _ (.inl rfl)
    [1, 2, 3, 4]
  exact ⟨ba', hread 5 (by decide), hdata⟩

end ByteArray
end Sylar
