import Sylar.ByteArray.Capacity

/-! The scatter lists: `getReadBuffers`, `getWriteBuffers` and what a socket does with them.

A list of regions is described by where it starts and how long it is, `Regions`; what is gathered
from such a list is a stretch of the flat buffer, and what is scattered into it is an overlay. The
socket moves the cursor afterwards with `setPosition`, which walks the chain from its root. -/
namespace Sylar
namespace ByteArray

/-- `getReadBuffers(buffers, len)`: what it appends to `buffers`, and what it returns. -/
def getReadBuffers (len : Nat) : Op (List Iovec × Nat) := fun ba =>
  let len := if len > ba.getReadSize then ba.getReadSize else len
  if len = 0 then .ok ([], 0) ba
  else regionsAtCursor len ba

/-- `read(buf, size, position) const`. It starts at `m_cur`. -/
def readAt (size position : Nat) : Op (List UInt8) := fun ba =>
  if size > ba.getReadSize then .error (.outOfRange "not enough len") ba
  else
    match readLoop ba.curNodes (position % ba.baseSize) size with
    | .error fault => .error fault ba
    | .ok (bytes, _) => .ok bytes ba

def toString : Op (List UInt8) := fun ba =>
  if ba.getReadSize = 0 then .ok [] ba
  else readAt ba.getReadSize ba.position ba

def Iovec.bytes (root : List Node) (iov : Iovec) : List UInt8 :=
  match root[iov.node]? with
  | none => []
  | some node => Lib.slice node.ptr iov.npos iov.len

def gather (root : List Node) (regions : List Iovec) : List UInt8 :=
  regions.flatMap (Iovec.bytes root)

/-- What `recv` makes of the chain: the data go into the regions in order, and each is filled
before the next. -/
def scatter : List Node → List Iovec → List UInt8 → Except Fault (List Node)
  | root, [], _ => .ok root
  | root, iov :: rest, data =>
    if data = [] then .ok root
    else
      match root[iov.node]? with
      | none => .error .nullNode
      | some node =>
        match node.store iov.npos (data.take iov.len) with
        | .error fault => .error fault
        | .ok node' => scatter (root.set iov.node node') rest (data.drop iov.len)

/-- The regions are one behind the other from `pos` on and `len` bytes in all; each is within its
node and none is empty. -/
def Regions (baseSize : Nat) : Nat → Nat → List Iovec → Prop
  | _, len, [] => len = 0
  | pos, len, iov :: rest =>
    baseSize * iov.node + iov.npos = pos ∧ 0 < iov.len ∧ iov.npos + iov.len ≤ baseSize ∧
      iov.len ≤ len ∧ Regions baseSize (pos + iov.len) (len - iov.len) rest

def Iovec.Apart (left right : Iovec) : Prop :=
  left.node ≠ right.node ∨ left.npos + left.len ≤ right.npos ∨ right.npos + right.len ≤ left.npos

theorem iovLoop_regions (blockSize : Nat) (nodes : List Node) (index npos len : Nat)
    (regions : List Iovec) (huniform : Uniform blockSize nodes) (hnpos : npos < blockSize)
    (hlen : 0 < len) (hloop : iovLoop nodes index npos len = .ok regions) :
    Regions blockSize (blockSize * index + npos) len regions := by
  induction nodes generalizing index npos len regions with
  | nil => cases hloop
  | cons node next ih =>
    have hsize := huniform.head
    unfold iovLoop at hloop
    simp only [hsize] at hloop
    split at hloop
    · rename_i hlast
      cases hloop
      exact ⟨rfl, hlen, by dsimp only; omega, Nat.le_refl _, Nat.sub_self _⟩
    · rename_i hmore
      split at hloop
      · cases hloop
      · rename_i rest hrest
        cases hloop
        have hregions := ih (index + 1) 0 _ rest huniform.tail (by omega) (by omega) hrest
        refine ⟨rfl, by dsimp only; omega, by dsimp only; omega, by dsimp only; omega, ?_⟩
        dsimp only
        rw [show blockSize * index + npos + (blockSize - npos) = blockSize * (index + 1) + 0 by
          rw [Nat.mul_succ]
          omega]
        exact hregions

theorem iovLoop_length (blockSize : Nat) (nodes : List Node) (index npos len : Nat)
    (regions : List Iovec) (huniform : Uniform blockSize nodes) (hnpos : npos < blockSize)
    (hlen : 0 < len) (hloop : iovLoop nodes index npos len = .ok regions) :
    blockSize * regions.length < npos + len + blockSize := by
  induction nodes generalizing index npos len regions with
  | nil => cases hloop
  | cons node next ih =>
    have hsize := huniform.head
    unfold iovLoop at hloop
    simp only [hsize] at hloop
    split at hloop
    · rename_i hlast
      cases hloop
      rw [List.length_singleton, Nat.mul_one]
      omega
    · rename_i hmore
      split at hloop
      · cases hloop
      · rename_i rest hrest
        cases hloop
        have hfewer := ih (index + 1) 0 _ rest huniform.tail (by omega) (by omega) hrest
        rw [List.length_cons, Nat.mul_succ]
        omega

namespace Regions
variable {baseSize pos len : Nat} {regions : List Iovec}

theorem len_pos (hregions : Regions baseSize pos len regions) : ∀ iov ∈ regions, 0 < iov.len := by
  induction regions generalizing pos len with
  | nil =>
    intro iov hiov
    cases hiov
  | cons first rest ih =>
    obtain ⟨-, hpos, -, -, hrest⟩ := hregions
    intro iov hiov
    rcases List.mem_cons.mp hiov with rfl | hmem
    · exact hpos
    · exact ih hrest iov hmem

theorem sum_len (hregions : Regions baseSize pos len regions) :
    (regions.map Iovec.len).sum = len := by
  induction regions generalizing pos len with
  | nil => exact hregions.symm
  | cons first rest ih =>
    obtain ⟨-, -, -, hle, hrest⟩ := hregions
    rw [List.map_cons, List.sum_cons, ih hrest]
    omega

theorem start_le (hregions : Regions baseSize pos len regions) :
    ∀ iov ∈ regions, pos ≤ baseSize * iov.node + iov.npos := by
  induction regions generalizing pos len with
  | nil =>
    intro iov hiov
    cases hiov
  | cons first rest ih =>
    obtain ⟨hstart, -, -, -, hrest⟩ := hregions
    intro iov hiov
    rcases List.mem_cons.mp hiov with rfl | hmem
    · omega
    · have hlater := ih hrest iov hmem
      omega

theorem pairwise_apart (hregions : Regions baseSize pos len regions) :
    regions.Pairwise Iovec.Apart := by
  induction regions generalizing pos len with
  | nil => exact List.Pairwise.nil
  | cons first rest ih =>
    obtain ⟨hstart, -, -, -, hrest⟩ := hregions
    refine List.Pairwise.cons ?_ (ih hrest)
    intro iov hiov
    have hlater := start_le hrest iov hiov
    by_cases hnode : first.node = iov.node
    · rw [hnode] at hstart
      exact .inr (.inl (by omega))
    · exact .inl hnode

end Regions

theorem node_of_start (blockSize : Nat) (root : List Node) (index npos : Nat)
    (hwithin : blockSize * index + npos < blockSize * root.length) :
    ∃ node, root[index]? = some node := by
  have hindex : index < root.length := by
    apply Nat.lt_of_mul_lt_mul_left (a := blockSize)
    omega
  exact ⟨_, List.getElem?_eq_getElem hindex⟩

section Chain
variable {blockSize : Nat} {root : List Node} (huniform : Uniform blockSize root)
include huniform

theorem chainBytes_split (index : Nat) (node : Node) (hnode : root[index]? = some node) :
    ∃ before after, root = before ++ node :: after ∧ before.length = index ∧
      (chainBytes before).length = blockSize * index ∧ node.ptr.length = blockSize := by
  obtain ⟨hindex, hget⟩ := List.getElem?_eq_some_iff.mp hnode
  have hbefore : (root.take index).length = index := List.length_take_of_le (Nat.le_of_lt hindex)
  refine ⟨root.take index, root.drop (index + 1), ?_, hbefore, ?_, ?_⟩
  · rw [← hget, List.getElem_cons_drop, List.take_append_drop]
  · rw [length_chainBytes (huniform.take index), hbefore]
  · rw [node.length_ptr]
    exact huniform node (hget ▸ List.getElem_mem hindex)

theorem slice_node (index npos count : Nat) (node : Node) (hnode : root[index]? = some node)
    (hfits : npos + count ≤ blockSize) :
    Lib.slice (chainBytes root) (blockSize * index + npos) count = Lib.slice node.ptr npos count := by
  obtain ⟨before, after, rfl, -, hbefore, hptr⟩ := chainBytes_split huniform index node hnode
  rw [chainBytes_append, ← hbefore, Lib.slice_append_right, chainBytes_cons,
    Lib.slice_append_left _ _ _ _ (by omega)]

theorem store_node (index npos : Nat) (node : Node) (buf : List UInt8)
    (hnode : root[index]? = some node) (hfits : npos + buf.length ≤ blockSize) :
    ∃ node', node.store npos buf = .ok node' ∧ Uniform blockSize (root.set index node') ∧
      chainBytes (root.set index node') =
        Lib.overlay (chainBytes root) (blockSize * index + npos) buf := by
  obtain ⟨before, after, rfl, hlength, hbefore, hptr⟩ :=
    chainBytes_split huniform index node hnode
  have hsize : node.size = blockSize := node.length_ptr.symm.trans hptr
  rw [Node.store, dif_pos (by omega)]
  refine ⟨_, rfl, ?_, ?_⟩
  · intro other hother
    rcases List.mem_or_eq_of_mem_set hother with hold | rfl
    · exact huniform other hold
    · exact hsize
  · rw [← hlength, List.set_append_right _ _ (Nat.le_refl _), Nat.sub_self, List.set_cons_zero,
      chainBytes_append, chainBytes_append, hlength, ← hbefore, Lib.overlay_append_right,
      chainBytes_cons, chainBytes_cons, Lib.overlay_append_left _ _ _ _ (by omega)]

theorem gather_eq (regions : List Iovec) (pos len : Nat)
    (hregions : Regions blockSize pos len regions) (hfits : pos + len ≤ blockSize * root.length) :
    gather root regions = Lib.slice (chainBytes root) pos len := by
  induction regions generalizing pos len with
  | nil =>
    obtain rfl : len = 0 := hregions
    rw [Lib.slice_zero]
    rfl
  | cons iov rest ih =>
    obtain ⟨hstart, hpos, hnpos, hle, hrest⟩ := hregions
    obtain ⟨node, hnode⟩ := node_of_start blockSize root iov.node iov.npos (by omega)
    have hbytes : iov.bytes root = Lib.slice (chainBytes root) pos iov.len := by
      rw [← hstart, slice_node huniform iov.node iov.npos iov.len node hnode hnpos]
      simp only [Iovec.bytes, hnode]
    rw [gather, List.flatMap_cons, hbytes]
    have htail := ih (pos + iov.len) (len - iov.len) hrest (by omega)
    rw [gather] at htail
    rw [htail, ← Lib.slice_add, Nat.add_sub_cancel' hle]

end Chain

theorem scatter_ok {blockSize : Nat} (regions : List Iovec) (root : List Node)
    (huniform : Uniform blockSize root) (pos len : Nat) (data : List UInt8)
    (hregions : Regions blockSize pos len regions) (hfits : pos + len ≤ blockSize * root.length)
    (hdata : data.length ≤ len) :
    ∃ root', scatter root regions data = .ok root' ∧ Uniform blockSize root' ∧
      root'.length = root.length ∧ chainBytes root' = Lib.overlay (chainBytes root) pos data := by
  induction regions generalizing root pos len data with
  | nil =>
    obtain rfl : len = 0 := hregions
    obtain rfl := List.eq_nil_of_length_eq_zero (Nat.le_zero.mp hdata)
    exact ⟨root, rfl, huniform, rfl, (Lib.overlay_nil _ _).symm⟩
  | cons iov rest ih =>
    obtain ⟨hstart, hpos, hnpos, hle, hrest⟩ := hregions
    rw [scatter]
    by_cases hnone : data = []
    · rw [if_pos hnone, hnone]
      exact ⟨root, rfl, huniform, rfl, (Lib.overlay_nil _ _).symm⟩
    obtain ⟨node, hnode⟩ := node_of_start blockSize root iov.node iov.npos (by omega)
    have htake : (data.take iov.len).length = min iov.len data.length := List.length_take
    obtain ⟨node', hstore, huniform', hbytes⟩ :=
      store_node huniform iov.node iov.npos node (data.take iov.len) hnode (by omega)
    obtain ⟨root', hscatter, huniform'', hlength, hbytes'⟩ :=
      ih (root.set iov.node node') huniform' (pos + iov.len) (len - iov.len) (data.drop iov.len)
        hrest (by rw [List.length_set]; omega) (by rw [List.length_drop]; omega)
    refine ⟨root', ?_, huniform'', hlength.trans List.length_set, ?_⟩
    · rw [if_neg hnone, hnode]
      simp only [hstore, hscatter]
    · rw [hbytes', hbytes, hstart]
      have hin : pos ≤ (chainBytes root).length := by
        rw [length_chainBytes huniform]
        omega
      by_cases hlast : data.length ≤ iov.len
      · rw [List.drop_eq_nil_of_le hlast, Lib.overlay_nil, List.take_of_length_le hlast]
      · conv_lhs => rw [show pos + iov.len = pos + (data.take iov.len).length by omega]
        rw [Lib.overlay_overlay _ _ _ _ hin, List.take_append_drop]

theorem iovLoop_from (ba : ByteArray) (hba : ba.Coherent) (pos len : Nat) (hlen : 0 < len)
    (hfits : pos + len ≤ ba.capacity) :
    ∃ regions, iovLoop (ba.root.drop (pos / ba.baseSize)) (pos / ba.baseSize)
        (pos % ba.baseSize) len = .ok regions ∧ Regions ba.baseSize pos len regions := by
  have hroom : pos < ba.capacity := by omega
  have hleft := hba.room_from hroom
  have hdecompose := Nat.div_add_mod pos ba.baseSize
  have hnpos := Nat.mod_lt pos hba.baseSize_pos
  have hnodes := hba.uniform.drop (pos / ba.baseSize)
  obtain ⟨regions, hloop⟩ := iovLoop_ok ba.baseSize hba.baseSize_pos _ (pos / ba.baseSize)
    (pos % ba.baseSize) len hnodes hnpos hlen (by omega)
  have hregions := iovLoop_regions ba.baseSize _ _ _ len regions hnodes hnpos hlen hloop
  rw [hdecompose] at hregions
  exact ⟨regions, hloop, hregions⟩

theorem regionsAtCursor_ok (ba : ByteArray) (hba : ba.Coherent) (len : Nat) (hlen : 0 < len)
    (hfits : ba.position + len ≤ ba.capacity) :
    ∃ regions, regionsAtCursor len ba = .ok (regions, len) ba ∧
      Regions ba.baseSize ba.position len regions := by
  have hroom : ba.position < ba.capacity := by omega
  obtain ⟨regions, hloop, hregions⟩ := iovLoop_from ba hba ba.position len hlen hfits
  refine ⟨regions, ?_, hregions⟩
  unfold regionsAtCursor
  rw [hba.cur_index hroom, hba.curNodes_of_room hroom, hloop]

theorem regionsAtCursor_length (ba : ByteArray) (hba : ba.Coherent) (len : Nat) (hlen : 0 < len)
    (regions : List Iovec) (size : Nat) (after : ByteArray)
    (hcall : regionsAtCursor len ba = .ok (regions, size) after) :
    ba.baseSize * regions.length < len + 2 * ba.baseSize := by
  have hnpos := Nat.mod_lt ba.position hba.baseSize_pos
  unfold regionsAtCursor at hcall
  split at hcall
  · cases hcall
  · rename_i buffers hloop
    cases hcall
    have hcount := iovLoop_length ba.baseSize _ _ _ len regions hba.uniform_curNodes hnpos hlen hloop
    omega

theorem clamp_getReadSize (ba : ByteArray) (len : Nat) :
    (if len > ba.getReadSize then ba.getReadSize else len) = min len ba.getReadSize := by
  split <;> omega

theorem getReadBuffers_ok (ba : ByteArray) (hba : ba.Coherent) (len : Nat) :
    ∃ regions, getReadBuffers len ba = .ok (regions, min len ba.getReadSize) ba ∧
      Regions ba.baseSize ba.position (min len ba.getReadSize) regions := by
  have hsize := hba.size_le
  unfold getReadBuffers
  simp only [clamp_getReadSize]
  by_cases hnone : min len ba.getReadSize = 0
  · rw [if_pos hnone, hnone]
    exact ⟨[], rfl, rfl⟩
  · rw [if_neg hnone]
    apply regionsAtCursor_ok ba hba _ (Nat.pos_of_ne_zero hnone)
    rw [getReadSize] at hnone ⊢
    omega

theorem read_returns (ba : ByteArray) (hba : ba.Coherent) (count : Nat) (bytes : List UInt8)
    (ba' : ByteArray) (hread : read count ba = .ok bytes ba') :
    bytes = Lib.slice ba.contents ba.position count := by
  by_cases hcount : count ≤ ba.getReadSize
  · by_cases hfull : ba.position = ba.capacity
    · rw [read_null hba count hcount hfull] at hread
      cases hread
    · obtain ⟨ba'', hread', -⟩ := read_ok hba count hcount
        (Nat.lt_of_le_of_ne hba.position_le_capacity hfull)
      rw [hread'] at hread
      cases hread
      rfl
  · rw [read_throws count (Nat.lt_of_not_le hcount)] at hread
    cases hread

theorem read_frame (ba ba' : ByteArray) (count : Nat) (bytes : List UInt8)
    (hread : read count ba = .ok bytes ba') :
    ba' = { ba with position := ba.position + count, cur := ba'.cur } := by
  unfold read at hread
  split at hread
  · cases hread
  · split at hread
    · cases hread
    · cases hread
      rfl

theorem setPosition_frame (ba ba' : ByteArray) (v : Nat) (hv : v ≤ ba.size)
    (hmove : setPosition v ba = .ok () ba') : ba' = { ba with position := v, cur := ba'.cur } := by
  unfold setPosition at hmove
  split at hmove
  · cases hmove
  · split at hmove
    · cases hmove
    · cases hmove
      rw [if_neg (by omega)]

theorem setPosition_eq_read (ba : ByteArray) (hba : ba.Coherent) (count : Nat) (hpos : 0 < count)
    (hcount : count ≤ ba.getReadSize) :
    ∃ ba', read count ba = .ok (Lib.slice ba.contents ba.position count) ba' ∧
      setPosition (ba.position + count) ba = .ok () ba' := by
  have hsize := hba.size_le
  have hwithin : ba.position + count ≤ ba.size := by
    rw [getReadSize] at hcount
    omega
  obtain ⟨after, hread, heffect⟩ := read_ok hba count hcount (by omega)
  obtain ⟨moved, hmove, hmoved⟩ := setPosition_ok hba (ba.position + count) (by omega)
  have hafter := read_frame ba after count _ hread
  have hmoved' := setPosition_frame ba moved _ hwithin hmove
  have hcur : after.cur = moved.cur := by
    have hcapacity : after.capacity = moved.capacity := by rw [hafter, hmoved']
    rw [heffect.coherent.cur_eq, hmoved.coherent.cur_eq, heffect.position_eq, hmoved.position_eq,
      heffect.baseSize_eq, hmoved.baseSize_eq, hcapacity]
  refine ⟨after, hread, ?_⟩
  rw [hmove, hmoved', hafter, hcur]

theorem readAt_cursor (ba : ByteArray) (count : Nat) (bytes : List UInt8) (ba' : ByteArray)
    (hread : read count ba = .ok bytes ba') : readAt count ba.position ba = .ok bytes ba := by
  unfold read at hread
  unfold readAt
  by_cases hmore : count > ba.getReadSize
  · rw [if_pos hmore] at hread
    cases hread
  · rw [if_neg hmore] at hread ⊢
    cases hloop : readLoop ba.curNodes (ba.position % ba.baseSize) count with
    | error fault =>
      rw [hloop] at hread
      cases hread
    | ok result =>
      rw [hloop] at hread
      cases hread
      rfl

theorem toString_ok (ba : ByteArray) (hba : ba.Coherent) :
    toString ba = .ok (Lib.slice ba.contents ba.position ba.getReadSize) ba := by
  unfold toString
  by_cases hnone : ba.getReadSize = 0
  · rw [if_pos hnone, hnone, Lib.slice_zero]
  · rw [if_neg hnone]
    obtain ⟨ba', hread, -⟩ :=
      setPosition_eq_read ba hba ba.getReadSize (Nat.pos_of_ne_zero hnone) (Nat.le_refl _)
    exact readAt_cursor ba _ _ ba' hread

/-- In every state that calls on a new `ByteArray` lead to, the regions of `getReadBuffers` hold
what `read` returns, and to send `r` bytes of them and move the cursor leaves the array as `read`
of `r` bytes does. `toString` is all that is gathered when nothing limits the length, as `~0ull`
does not. -/
theorem getReadBuffers_agrees_with_read (baseSize : Nat) (hbase : 0 < baseSize)
    (fresh : Nat → Nat → UInt8) (calls : List Call) (ba : ByteArray)
    (hrun : Lib.run step (new baseSize fresh) calls = some ba) (len : Nat) :
    ∃ regions, getReadBuffers len ba = .ok (regions, min len ba.getReadSize) ba ∧
      (∀ iov ∈ regions, 0 < iov.len) ∧
      (regions.map Iovec.len).sum = min len ba.getReadSize ∧
      (∀ bytes ba', read (min len ba.getReadSize) ba = .ok bytes ba' →
        gather ba.root regions = bytes) ∧
      (∀ r, 0 < r → r ≤ min len ba.getReadSize →
        ∃ ba', read r ba = .ok ((gather ba.root regions).take r) ba' ∧
          setPosition (ba.position + r) ba = .ok () ba') ∧
      (ba.getReadSize ≤ len → toString ba = .ok (gather ba.root regions) ba) := by
  obtain ⟨hba, -⟩ := coherent_of_run baseSize hbase fresh calls ba hrun
  obtain ⟨regions, hcall, hregions⟩ := getReadBuffers_ok ba hba len
  have hsize := hba.size_le
  have hposition := hba.position_le
  have hgather : gather ba.root regions =
      Lib.slice ba.contents ba.position (min len ba.getReadSize) := by
    apply gather_eq hba.uniform regions ba.position _ hregions
    rw [← hba.capacity_eq, getReadSize]
    omega
  refine ⟨regions, hcall, hregions.len_pos, hregions.sum_len, ?_, ?_, ?_⟩
  · intro bytes ba' hread
    rw [hgather, read_returns ba hba _ bytes ba' hread]
  · intro r hr hle
    rw [hgather, Lib.take_slice _ _ _ _ hle]
    exact setPosition_eq_read ba hba r hr (by omega)
  · intro hall
    rw [hgather, Nat.min_eq_right hall]
    exact toString_ok ba hba

/-- Three bytes over two blocks, of which two are sent. -/
theorem getReadBuffers_agrees_with_read_two_blocks :
    ∃ ba regions, Lib.run step (new 2 fun _ _ => 0) [.write [1, 2, 3, 4], .setPosition 1] = some ba ∧
      getReadBuffers 3 ba = .ok (regions, 3) ba ∧ gather ba.root regions = [2, 3, 4] ∧
      ∃ ba', read 2 ba = .ok [2, 3] ba' ∧ setPosition 3 ba = .ok () ba' := by
  obtain ⟨regions, hcall, -, -, hbytes, hsend, -⟩ := getReadBuffers_agrees_with_read 2 (by decide)
    (fun _ _ => 0) [.write [1, 2, 3, 4], .setPosition 1] _ (by rfl) 3
  have hgather := hbytes [2, 3, 4] _ (by rfl)
  obtain ⟨ba', hread, hmove⟩ := hsend 2 (by decide) (by decide)
  rw [hgather] at hread
  exact ⟨_, regions, by rfl, hcall, hgather, ba', hread, hmove⟩

theorem getWriteBuffers_regions (ba : ByteArray) (hba : ba.Coherent) (len : Nat) (hlen : 0 < len)
    (regions : List Iovec) (size : Nat) (grown : ByteArray)
    (hcall : getWriteBuffers len ba = .ok (regions, size) grown) :
    size = len ∧ Regions ba.baseSize ba.position len regions ∧
      ba.position + len ≤ grown.capacity ∧ grown = ba.addCapacity len := by
  obtain ⟨_, _, _, hbase, hposition, _, _, hroom, hgrown⟩ := addCapacity_spec hba len hlen
  have hnull := regionsAtCursor_null_iff (ba.addCapacity len) hgrown len hlen hroom
  rw [getWriteBuffers, if_neg (by omega)] at hcall
  have hfits : (ba.addCapacity len).position + len ≤ (ba.addCapacity len).capacity := by
    by_contra hshort
    rw [hnull.mpr (by rw [getCapacity]; omega)] at hcall
    cases hcall
  obtain ⟨regions', hok, hregions⟩ := regionsAtCursor_ok (ba.addCapacity len) hgrown len hlen hfits
  rw [hok] at hcall
  cases hcall
  rw [hbase, hposition] at hregions
  rw [hposition] at hfits
  exact ⟨rfl, hregions, hfits, rfl⟩

theorem getReadBuffers_length (ba : ByteArray) (hba : ba.Coherent) (len : Nat)
    (regions : List Iovec) (size : Nat) (after : ByteArray)
    (hcall : getReadBuffers len ba = .ok (regions, size) after) :
    ba.baseSize * regions.length < len + 2 * ba.baseSize := by
  have hbase := hba.baseSize_pos
  unfold getReadBuffers at hcall
  simp only [clamp_getReadSize] at hcall
  split at hcall
  · cases hcall
    rw [List.length_nil]
    omega
  · rename_i hsome
    have hcount := regionsAtCursor_length ba hba _ (Nat.pos_of_ne_zero hsome) regions size after
      hcall
    omega

theorem getWriteBuffers_length (ba : ByteArray) (hba : ba.Coherent) (len : Nat) (hlen : 0 < len)
    (regions : List Iovec) (size : Nat) (after : ByteArray)
    (hcall : getWriteBuffers len ba = .ok (regions, size) after) :
    ba.baseSize * regions.length < len + 2 * ba.baseSize := by
  have hgrew := addCapacity_grew hba len
  rw [getWriteBuffers, if_neg (by omega)] at hcall
  rw [← hgrew.baseSize_eq]
  exact regionsAtCursor_length (ba.addCapacity len) hgrew.coherent len hlen regions size after hcall

theorem scatter_then_setPosition (ba : ByteArray) (grown : ByteArray) (hgrew : Grew ba grown)
    (len : Nat) (regions : List Iovec)
    (hregions : Regions ba.baseSize ba.position len regions)
    (hfits : ba.position + len ≤ grown.capacity) (data : List UInt8) (hdata : data.length ≤ len) :
    ∃ root' after, scatter grown.root regions data = .ok root' ∧
      setPosition (ba.position + data.length) { grown with root := root' } = .ok () after ∧
      Wrote ba data after := by
  have hgrown := hgrew.coherent
  obtain ⟨root', hscatter, huniform, hlength, hbytes⟩ := scatter_ok regions grown.root
    (hgrew.baseSize_eq ▸ hgrown.uniform) ba.position len data hregions
    (by rw [← hgrew.baseSize_eq, ← hgrown.capacity_eq]; exact hfits) hdata
  have hstored : ({ grown with root := root' } : ByteArray).Coherent :=
    { baseSize_pos := hgrown.baseSize_pos
      uniform := hgrew.baseSize_eq ▸ huniform
      root_ne_nil := by
        intro hnil
        have hzero := congrArg List.length hnil
        dsimp only at hzero
        rw [hlength] at hzero
        exact hgrown.root_ne_nil (List.eq_nil_of_length_eq_zero hzero)
      capacity_eq := by
        dsimp only
        rw [hlength]
        exact hgrown.capacity_eq
      position_le := hgrown.position_le
      size_le := hgrown.size_le
      cur_eq := hgrown.cur_eq }
  obtain ⟨after, hmove, hmoved⟩ := setPosition_ok hstored (ba.position + data.length)
    (by dsimp only; omega)
  obtain ⟨more, hdvd, hcontents⟩ := hgrew.contents_eq
  refine ⟨root', after, hscatter, hmove, hmoved.coherent, ?_, ?_, hmoved.position_eq, ?_,
    more, hdvd, ?_, ?_⟩
  · exact hmoved.baseSize_eq.trans hgrew.baseSize_eq
  · exact hmoved.endian_eq.trans hgrew.endian_eq
  · rw [hmoved.size_eq]
    dsimp only
    rw [hgrew.size_eq]
  · rw [← hcontents, hgrown.length_contents]
    omega
  · rw [hmoved.contents_eq, ← hcontents]
    exact hbytes

/-- In every state that calls on a new `ByteArray` lead to, the regions of a completed
`getWriteBuffers` are the next `len` bytes behind the cursor, and to receive data into them and
move the cursor does to the array what `write` of the data does. -/
theorem getWriteBuffers_agrees_with_write (baseSize : Nat) (hbase : 0 < baseSize)
    (fresh : Nat → Nat → UInt8) (calls : List Call) (ba : ByteArray)
    (hrun : Lib.run step (new baseSize fresh) calls = some ba) (len : Nat) (hlen : 1 ≤ len)
    (regions : List Iovec) (size : Nat) (grown : ByteArray)
    (hcall : getWriteBuffers len ba = .ok (regions, size) grown) :
    size = len ∧ (∀ iov ∈ regions, 0 < iov.len) ∧ regions.Pairwise Iovec.Apart ∧
      (regions.map Iovec.len).sum = len ∧ Regions baseSize ba.position len regions ∧
      (grown.position = ba.position ∧ grown.size = ba.size ∧
        grown.contents.take ba.size = ba.contents.take ba.size) ∧
      ∀ data : List UInt8, 0 < data.length → data.length ≤ len →
        ∃ root' after, scatter grown.root regions data = .ok root' ∧
          setPosition (ba.position + data.length) { grown with root := root' } = .ok () after ∧
          Wrote ba data after := by
  obtain ⟨hba, hsame⟩ := coherent_of_run baseSize hbase fresh calls ba hrun
  obtain ⟨hsize, hregions, hfits, -⟩ :=
    getWriteBuffers_regions ba hba len hlen regions size grown hcall
  have hgrew := getWriteBuffers_ok hba len hcall
  obtain ⟨more, -, hcontents⟩ := hgrew.contents_eq
  refine ⟨hsize, hregions.len_pos, hregions.pairwise_apart, hregions.sum_len, hsame ▸ hregions,
    ⟨hgrew.position_eq, hgrew.size_eq, ?_⟩, ?_⟩
  · rw [hcontents, List.take_append_of_le_length]
    rw [hba.length_contents]
    exact hba.size_le
  · intro data _ hdata
    exact scatter_then_setPosition ba grown hgrew len regions hregions hfits data hdata

/-- Two bytes are received into regions for five, of which the first ends a block. -/
theorem getWriteBuffers_agrees_with_write_short :
    ∃ ba regions grown root' after,
      Lib.run step (new 2 fun _ _ => 0) [.write [1]] = some ba ∧
      getWriteBuffers 5 ba = .ok (regions, 5) grown ∧
      regions = [⟨0, 1, 1⟩, ⟨1, 0, 2⟩, ⟨2, 0, 2⟩] ∧ regions.Pairwise Iovec.Apart ∧
      scatter grown.root regions [8, 9] = .ok root' ∧
      setPosition 3 { grown with root := root' } = .ok () after ∧ Wrote ba [8, 9] after := by
  obtain ⟨-, -, hapart, -, -, -, hdata⟩ := getWriteBuffers_agrees_with_write 2 (by decide)
    (fun _ _ => 0) [.write [1]] _ (by rfl) 5 (by decide) _ 5 _ (by rfl)
  obtain ⟨root', after, hscatter, hmove, hwrote⟩ := hdata [8, 9] (by decide) (by decide)
  exact ⟨_, _, _, root', after, by rfl, by rfl, by rfl, hapart, hscatter, hmove, hwrote⟩

end ByteArray
end Sylar
