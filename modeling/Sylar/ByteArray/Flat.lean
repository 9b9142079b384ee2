import Sylar.Lib.Run
import Sylar.ByteArray.Chain
import Mathlib.Tactic.Ring

/-! The block chain is one flat buffer with a cursor.

`Coherent` is what every operation keeps: the blocks are all of one size, and
`m_cur` is the block the cursor falls into, null exactly when the cursor stands
behind the last block. The loops are first described on a bare list of equal
blocks, where a walk is a recursion on the list, and then placed at the cursor. -/
namespace Sylar

def chainBytes (nodes : List Node) : List UInt8 := nodes.flatMap Node.ptr

def Uniform (blockSize : Nat) (nodes : List Node) : Prop :=
  ∀ node ∈ nodes, node.size = blockSize

@[simp] theorem chainBytes_nil : chainBytes [] = [] := rfl

@[simp] theorem chainBytes_cons (node : Node) (nodes : List Node) :
    chainBytes (node :: nodes) = node.ptr ++ chainBytes nodes := rfl

@[simp] theorem chainBytes_append (left right : List Node) :
    chainBytes (left ++ right) = chainBytes left ++ chainBytes right := by
  simp [chainBytes]

theorem Uniform.head {blockSize : Nat} {node : Node} {nodes : List Node}
    (huniform : Uniform blockSize (node :: nodes)) : node.size = blockSize :=
  huniform node List.mem_cons_self

theorem Uniform.tail {blockSize : Nat} {node : Node} {nodes : List Node}
    (huniform : Uniform blockSize (node :: nodes)) : Uniform blockSize nodes :=
  fun other hother => huniform other (List.mem_cons_of_mem _ hother)

theorem Uniform.append {blockSize : Nat} {left right : List Node}
    (hleft : Uniform blockSize left) (hright : Uniform blockSize right) :
    Uniform blockSize (left ++ right) := by
  intro node hnode
  rcases List.mem_append.mp hnode with h | h
  · exact hleft node h
  · exact hright node h

theorem Uniform.take {blockSize : Nat} {nodes : List Node} (huniform : Uniform blockSize nodes)
    (count : Nat) : Uniform blockSize (nodes.take count) :=
  fun node hnode => huniform node (List.mem_of_mem_take hnode)

theorem Uniform.drop {blockSize : Nat} {nodes : List Node} (huniform : Uniform blockSize nodes)
    (count : Nat) : Uniform blockSize (nodes.drop count) :=
  fun node hnode => huniform node (List.mem_of_mem_drop hnode)

theorem length_chainBytes {blockSize : Nat} {nodes : List Node}
    (huniform : Uniform blockSize nodes) :
    (chainBytes nodes).length = blockSize * nodes.length := by
  induction nodes with
  | nil => rfl
  | cons node nodes ih =>
    rw [chainBytes_cons, List.length_append, node.length_ptr, huniform.head, ih huniform.tail,
      List.length_cons, Nat.mul_succ, Nat.add_comm]

namespace ByteArray

section Walks
variable {blockSize : Nat} (hblock : 0 < blockSize)
include hblock

private theorem div_past_block {npos count : Nat} (hnpos : npos < blockSize)
    (hpast : blockSize - npos < count) :
    (0 + (count - (blockSize - npos))) / blockSize + 1 = (npos + count) / blockSize := by
  have hsplit : npos + count = (0 + (count - (blockSize - npos))) + blockSize := by omega
  rw [hsplit, Nat.add_div_right _ hblock]

private theorem hop_eq_div {npos count : Nat} (hnpos : npos < blockSize)
    (hfits : count ≤ blockSize - npos) :
    (if blockSize = npos + count then 1 else 0) = (npos + count) / blockSize := by
  split
  · rename_i hfull
    rw [← hfull, Nat.div_self hblock]
  · rename_i hroom
    rw [Nat.div_eq_of_lt (by omega)]

theorem writeLoop_ok (nodes : List Node) (npos : Nat) (buf : List UInt8)
    (huniform : Uniform blockSize nodes) (hnpos : npos < blockSize) (hbuf : 0 < buf.length)
    (hfits : npos + buf.length ≤ blockSize * nodes.length) :
    ∃ nodes', writeLoop nodes npos buf = .ok (nodes', (npos + buf.length) / blockSize) ∧
      Uniform blockSize nodes' ∧ nodes'.length = nodes.length ∧
      chainBytes nodes' = Lib.overlay (chainBytes nodes) npos buf := by
  induction nodes generalizing npos buf with
  | nil =>
    simp only [List.length_nil, Nat.mul_zero] at hfits
    omega
  | cons node next ih =>
    have hsize := huniform.head
    have hptr : node.ptr.length = blockSize := node.length_ptr.trans hsize
    unfold writeLoop
    simp only [hsize]
    split
    · rename_i hroom
      have hin : npos + buf.length ≤ node.size := by omega
      simp only [Node.store, hin, ↓reduceDIte]
      refine ⟨_, by rw [hop_eq_div hblock hnpos hroom], ?_, by simp, ?_⟩
      · intro other hother
        rcases List.mem_cons.mp hother with rfl | hrest
        · exact hsize
        · exact huniform.tail other hrest
      · rw [chainBytes_cons, chainBytes_cons, Lib.overlay_append_left _ _ _ _ (by omega)]
    · rename_i hpast
      have htake : (buf.take (blockSize - npos)).length = blockSize - npos := by
        simp only [List.length_take]
        omega
      have hin : npos + (buf.take (blockSize - npos)).length ≤ node.size := by omega
      have hdrop : (buf.drop (blockSize - npos)).length = buf.length - (blockSize - npos) := by
        simp
      rw [List.length_cons, Nat.mul_succ] at hfits
      obtain ⟨next', hloop, huniform', hlength, hbytes⟩ :=
        ih 0 (buf.drop (blockSize - npos)) huniform.tail hblock (by omega) (by omega)
      rw [hdrop] at hloop
      simp only [Node.store, hin, ↓reduceDIte, hloop]
      refine ⟨_, by rw [div_past_block hblock hnpos (by omega)], ?_, ?_, ?_⟩
      · intro other hother
        rcases List.mem_cons.mp hother with rfl | hrest
        · exact hsize
        · exact huniform' other hrest
      · simp only [List.length_cons, hlength]
      · rw [chainBytes_cons, chainBytes_cons, hbytes]
        conv_rhs => rw [← List.take_append_drop (blockSize - npos) buf]
        rw [Lib.overlay_append_split _ _ _ _ _ (by omega)]

theorem writeLoop_null (nodes : List Node) (npos : Nat) (buf : List UInt8)
    (huniform : Uniform blockSize nodes) (hnpos : npos < blockSize)
    (hshort : blockSize * nodes.length < npos + buf.length) :
    writeLoop nodes npos buf = .error .nullNode := by
  induction nodes generalizing npos buf with
  | nil => rfl
  | cons node next ih =>
    have hsize := huniform.head
    rw [List.length_cons, Nat.mul_succ] at hshort
    unfold writeLoop
    simp only [hsize]
    rw [if_neg (by omega)]
    have htake : (buf.take (blockSize - npos)).length = blockSize - npos := by
      simp only [List.length_take]
      omega
    have hin : npos + (buf.take (blockSize - npos)).length ≤ node.size := by omega
    rw [Node.store, dif_pos hin]
    have hdrop : (buf.drop (blockSize - npos)).length = buf.length - (blockSize - npos) := by
      simp
    rw [ih 0 (buf.drop (blockSize - npos)) huniform.tail hblock (by omega)]

theorem readLoop_ok (nodes : List Node) (npos count : Nat)
    (huniform : Uniform blockSize nodes) (hnpos : npos < blockSize) (hne : nodes ≠ [])
    (hfits : npos + count ≤ blockSize * nodes.length) :
    readLoop nodes npos count =
      .ok (Lib.slice (chainBytes nodes) npos count, (npos + count) / blockSize) := by
  induction nodes generalizing npos count with
  | nil => exact absurd rfl hne
  | cons node next ih =>
    have hsize := huniform.head
    have hptr : node.ptr.length = blockSize := node.length_ptr.trans hsize
    unfold readLoop
    simp only [hsize]
    split
    · rename_i hzero
      subst hzero
      rw [Lib.slice_zero, Nat.add_zero, Nat.div_eq_of_lt hnpos]
    · split
      · rename_i _ hroom
        rw [Node.load, if_pos (by omega)]
        simp only [hop_eq_div hblock hnpos hroom]
        rw [chainBytes_cons, Lib.slice_append_left _ _ _ _ (by omega)]
      · rename_i hcount hpast
        rw [List.length_cons, Nat.mul_succ] at hfits
        have hnext : next ≠ [] := by
          rintro rfl
          simp only [List.length_nil, Nat.mul_zero] at hfits
          omega
        rw [Node.load, if_pos (by omega), ih 0 _ huniform.tail hblock hnext (by omega)]
        simp only
        rw [div_past_block hblock hnpos (by omega), chainBytes_cons]
        conv_rhs =>
          rw [show count = (blockSize - npos) + (count - (blockSize - npos)) by omega]
        rw [Lib.slice_append_split _ _ _ _ _ (by omega)]
        congr 3
        omega

theorem seek_ok (nodes : List Node) (v : Nat) (huniform : Uniform blockSize nodes)
    (hne : nodes ≠ []) (hfits : v ≤ blockSize * nodes.length) :
    seek nodes v = .ok (v / blockSize) := by
  induction nodes generalizing v with
  | nil => exact absurd rfl hne
  | cons node next ih =>
    unfold seek
    simp only [huniform.head]
    rw [List.length_cons, Nat.mul_succ] at hfits
    split
    · rename_i hpast
      have hnext : next ≠ [] := by
        rintro rfl
        simp only [List.length_nil, Nat.mul_zero] at hfits
        omega
      rw [ih (v - blockSize) huniform.tail hnext (by omega)]
      have hstep := Nat.add_div_right (v - blockSize) hblock
      rw [Nat.sub_add_cancel (by omega)] at hstep
      rw [hstep]
    · split
      · rename_i _ hend
        rw [hend, Nat.div_self hblock]
      · rw [Nat.div_eq_of_lt (by omega)]

end Walks

def contents (ba : ByteArray) : List UInt8 := chainBytes ba.root

structure Coherent (ba : ByteArray) : Prop where
  baseSize_pos : 0 < ba.baseSize
  uniform : Uniform ba.baseSize ba.root
  root_ne_nil : ba.root ≠ []
  capacity_eq : ba.capacity = ba.baseSize * ba.root.length
  position_le : ba.position ≤ ba.size
  size_le : ba.size ≤ ba.capacity
  cur_eq : ba.cur =
    if ba.position = ba.capacity then none else some (ba.position / ba.baseSize)

theorem coherent_new (baseSize : Nat) (fresh : Nat → Nat → UInt8) (hbase : 0 < baseSize) :
    (new baseSize fresh).Coherent where
  baseSize_pos := hbase
  uniform := by
    intro node hnode
    rw [List.mem_singleton.mp hnode]
    rfl
  root_ne_nil := by simp [new]
  capacity_eq := by simp [new]
  position_le := Nat.le_refl 0
  size_le := Nat.zero_le _
  cur_eq := by
    simp only [new, Nat.zero_div]
    rw [if_neg (by omega)]

namespace Coherent
variable {ba : ByteArray}

theorem setIsLittleEndian (hba : ba.Coherent) (val : Bool) : (ba.setIsLittleEndian val).Coherent :=
  ⟨hba.baseSize_pos, hba.uniform, hba.root_ne_nil, hba.capacity_eq, hba.position_le, hba.size_le,
    hba.cur_eq⟩

theorem length_contents (hba : ba.Coherent) : ba.contents.length = ba.capacity := by
  rw [contents, length_chainBytes hba.uniform, hba.capacity_eq]

theorem position_le_capacity (hba : ba.Coherent) : ba.position ≤ ba.capacity :=
  hba.position_le.trans hba.size_le

theorem index_lt (hba : ba.Coherent) {pos : Nat} (hroom : pos < ba.capacity) :
    pos / ba.baseSize < ba.root.length := by
  rw [Nat.div_lt_iff_lt_mul hba.baseSize_pos, Nat.mul_comm, ← hba.capacity_eq]
  exact hroom

theorem cur_of_room (hba : ba.Coherent) (hroom : ba.position < ba.capacity) :
    ba.cur = some (ba.position / ba.baseSize) := by
  rw [hba.cur_eq, if_neg (Nat.ne_of_lt hroom)]

theorem curNodes_of_room (hba : ba.Coherent) (hroom : ba.position < ba.capacity) :
    ba.curNodes = ba.root.drop (ba.position / ba.baseSize) := by
  simp only [curNodes, hba.cur_of_room hroom]

theorem curNodes_of_full (hba : ba.Coherent) (hfull : ba.position = ba.capacity) :
    ba.curNodes = [] := by
  simp only [curNodes, hba.cur_eq, hfull, ↓reduceIte]

theorem uniform_curNodes (hba : ba.Coherent) : Uniform ba.baseSize ba.curNodes := by
  unfold curNodes
  split
  · intro node hnode
    cases hnode
  · exact hba.uniform.drop _

theorem length_before (hba : ba.Coherent) {pos : Nat} (hroom : pos < ba.capacity) :
    (chainBytes (ba.root.take (pos / ba.baseSize))).length =
      ba.baseSize * (pos / ba.baseSize) := by
  rw [length_chainBytes (hba.uniform.take _), List.length_take,
    Nat.min_eq_left (Nat.le_of_lt (hba.index_lt hroom))]

theorem room_from (hba : ba.Coherent) {pos : Nat} (hroom : pos < ba.capacity) :
    ba.baseSize * (ba.root.drop (pos / ba.baseSize)).length +
      ba.baseSize * (pos / ba.baseSize) = ba.capacity := by
  have hindex := hba.index_lt hroom
  rw [List.length_drop, hba.capacity_eq, ← Nat.mul_add]
  congr 1
  omega

theorem slice_from (hba : ba.Coherent) {pos : Nat} (hroom : pos < ba.capacity) (count : Nat) :
    Lib.slice (chainBytes (ba.root.drop (pos / ba.baseSize))) (pos % ba.baseSize) count =
      Lib.slice ba.contents pos count := by
  rw [← Lib.slice_append_right (chainBytes (ba.root.take (pos / ba.baseSize))),
    hba.length_before hroom, Nat.div_add_mod, ← chainBytes_append, List.take_append_drop, contents]

theorem contents_split (hba : ba.Coherent) (hroom : ba.position < ba.capacity) :
    ba.contents =
      chainBytes (ba.root.take (ba.position / ba.baseSize)) ++ chainBytes ba.curNodes := by
  rw [hba.curNodes_of_room hroom, ← chainBytes_append, List.take_append_drop, contents]

theorem cur_index (hba : ba.Coherent) (hroom : ba.position < ba.capacity) :
    ba.root.length - ba.curNodes.length = ba.position / ba.baseSize := by
  rw [hba.curNodes_of_room hroom, List.length_drop]
  exact Nat.sub_sub_self (Nat.le_of_lt (hba.index_lt hroom))

theorem curNodes_room (hba : ba.Coherent) (hroom : ba.position < ba.capacity) :
    ba.baseSize * ba.curNodes.length + ba.baseSize * (ba.position / ba.baseSize) =
      ba.capacity := by
  rw [hba.curNodes_of_room hroom]
  exact hba.room_from hroom

theorem advance_eq (hba : ba.Coherent) (hroom : ba.position < ba.capacity) (count : Nat)
    (hcount : ba.position + count ≤ ba.capacity) :
    ba.advance ((ba.position % ba.baseSize + count) / ba.baseSize) =
      if ba.position + count = ba.capacity then none
      else some ((ba.position + count) / ba.baseSize) := by
  have hsplit : ba.position + count =
      ba.baseSize * (ba.position / ba.baseSize) + (ba.position % ba.baseSize + count) := by
    have := Nat.div_add_mod ba.position ba.baseSize
    omega
  have hindex : ba.position / ba.baseSize + (ba.position % ba.baseSize + count) / ba.baseSize =
      (ba.position + count) / ba.baseSize := by
    rw [hsplit, Nat.mul_add_div hba.baseSize_pos]
  simp only [advance, hba.cur_of_room hroom, hindex]
  have hend : (ba.position + count) / ba.baseSize < ba.root.length ↔
      ba.position + count ≠ ba.capacity := by
    rw [Nat.div_lt_iff_lt_mul hba.baseSize_pos, Nat.mul_comm, ← hba.capacity_eq]
    omega
  by_cases hfull : ba.position + count = ba.capacity
  · rw [if_pos hfull, if_neg (by rw [hend]; exact not_not_intro hfull)]
  · rw [if_neg hfull, if_pos (hend.mpr hfull)]

end Coherent

theorem blockCount_pos (baseSize size : Nat) (hsize : 0 < size) : 0 < blockCount baseSize 0 size := by
  simp only [blockCount, Nat.sub_zero]
  split
  · exact Nat.succ_pos _
  · rename_i hmod
    have hdiv := Nat.div_add_mod size baseSize
    rw [Nat.add_zero]
    apply Nat.pos_of_ne_zero
    intro hdivZero
    rw [hdivZero, Nat.mul_zero] at hdiv
    omega

theorem uniform_newBlocks (baseSize count : Nat) (fresh : Nat → Nat → UInt8) :
    Uniform baseSize ((List.range count).map fun k => Node.new baseSize (fresh k)) := by
  intro node hnode
  obtain ⟨k, -, rfl⟩ := List.mem_map.mp hnode
  rfl

theorem addCapacity_spec {ba : ByteArray} (hba : ba.Coherent) (size : Nat) (hsize : 0 < size) :
    ∃ blocks : List Node, Uniform ba.baseSize blocks ∧
      (ba.addCapacity size).root = ba.root ++ blocks ∧
      (ba.addCapacity size).baseSize = ba.baseSize ∧
      (ba.addCapacity size).position = ba.position ∧
      (ba.addCapacity size).size = ba.size ∧
      (ba.addCapacity size).endian = ba.endian ∧
      (ba.addCapacity size).position < (ba.addCapacity size).capacity ∧
      (ba.addCapacity size).Coherent := by
  have hpos := hba.position_le_capacity
  unfold addCapacity
  rw [if_neg (by omega)]
  dsimp only
  split
  · rename_i henough
    refine ⟨[], by simp [Uniform], by simp, rfl, rfl, rfl, rfl, ?_, hba⟩
    rw [getCapacity] at henough
    omega
  · rename_i hshort
    have hcount : ba.getCapacity = 0 → 0 < blockCount ba.baseSize ba.getCapacity size := by
      intro hzero
      rw [hzero]
      exact blockCount_pos ba.baseSize size hsize
    generalize blockCount ba.baseSize ba.getCapacity size = count at hcount
    have huniform := uniform_newBlocks ba.baseSize count ba.fresh
    have hgrow : 0 < count → ba.capacity < ba.capacity + count * ba.baseSize := fun hc =>
      Nat.lt_add_of_pos_right (Nat.mul_pos hc hba.baseSize_pos)
    have hroom : ba.position < ba.capacity + count * ba.baseSize := by
      by_cases hzero : ba.getCapacity = 0
      · exact Nat.lt_of_le_of_lt hpos (hgrow (hcount hzero))
      · rw [getCapacity] at hzero
        omega
    refine ⟨_, huniform, rfl, rfl, rfl, rfl, rfl, hroom, ?_⟩
    exact
      { baseSize_pos := hba.baseSize_pos
        uniform := hba.uniform.append huniform
        root_ne_nil := by simp [hba.root_ne_nil]
        capacity_eq := by
          simp only [List.length_append, List.length_map, List.length_range, Nat.mul_add,
            ← hba.capacity_eq, Nat.mul_comm count]
        position_le := hba.position_le
        size_le := hba.size_le.trans (Nat.le_add_right _ _)
        cur_eq := by
          dsimp only
          rw [if_neg (Nat.ne_of_lt hroom)]
          by_cases hzero : ba.getCapacity = 0
          · have hfull : ba.position = ba.baseSize * ba.root.length := by
              rw [← hba.capacity_eq]
              rw [getCapacity] at hzero
              omega
            rw [if_pos hzero, if_neg (Nat.ne_of_gt (hcount hzero)), hfull,
              Nat.mul_div_cancel_left _ hba.baseSize_pos]
          · rw [if_neg hzero]
            rw [getCapacity] at hzero
            exact hba.cur_of_room (by omega) }

end ByteArray
end Sylar
