import Sylar.ByteArray.Flat

/-! What each cursor operation does to the flat buffer, and the simulation of
the whole class by it. -/
namespace Sylar
namespace ByteArray

/-- The effect of `write(buf)`. `grown` is what the appended blocks contain. -/
structure Wrote (ba : ByteArray) (buf : List UInt8) (ba' : ByteArray) : Prop where
  coherent : ba'.Coherent
  baseSize_eq : ba'.baseSize = ba.baseSize
  endian_eq : ba'.endian = ba.endian
  position_eq : ba'.position = ba.position + buf.length
  size_eq : ba'.size = max ba.size (ba.position + buf.length)
  contents_eq : ∃ grown : List UInt8, ba.baseSize ∣ grown.length ∧
    ba.position + buf.length ≤ (ba.contents ++ grown).length ∧
    ba'.contents = Lib.overlay (ba.contents ++ grown) ba.position buf

structure ReadTo (ba : ByteArray) (count : Nat) (ba' : ByteArray) : Prop where
  coherent : ba'.Coherent
  baseSize_eq : ba'.baseSize = ba.baseSize
  endian_eq : ba'.endian = ba.endian
  position_eq : ba'.position = ba.position + count
  size_eq : ba'.size = ba.size
  contents_eq : ba'.contents = ba.contents

private theorem ite_gt_eq_max (left right : Nat) :
    (if right > left then right else left) = max left right := by
  split <;> omega

theorem storeAtCursor_ok {ba : ByteArray} (hba : ba.Coherent) (buf : List UInt8)
    (hbuf : 0 < buf.length) (hfits : ba.position + buf.length ≤ ba.capacity) :
    ∃ ba', storeAtCursor buf ba = .ok () ba' ∧ ba'.Coherent ∧
      ba'.baseSize = ba.baseSize ∧ ba'.endian = ba.endian ∧
      ba'.position = ba.position + buf.length ∧
      ba'.size = max ba.size (ba.position + buf.length) ∧
      ba'.contents = Lib.overlay ba.contents ba.position buf := by
  have hroom : ba.position < ba.capacity := by omega
  have hindex := hba.index_lt hroom
  have hleft := hba.curNodes_room hroom
  have hdecompose := Nat.div_add_mod ba.position ba.baseSize
  obtain ⟨nodes, hloop, huniform, hlength, hbytes⟩ :=
    writeLoop_ok hba.baseSize_pos ba.curNodes (ba.position % ba.baseSize) buf
      (hba.uniform_curNodes) (Nat.mod_lt _ hba.baseSize_pos) hbuf (by omega)
  have htaken := hba.cur_index hroom
  have hchain : (ba.root.take (ba.position / ba.baseSize) ++ nodes).length =
      ba.root.length := by
    rw [List.length_append, hlength, List.length_take, hba.curNodes_of_room hroom,
      List.length_drop, Nat.min_eq_left (Nat.le_of_lt hindex)]
    exact Nat.add_sub_cancel' (Nat.le_of_lt hindex)
  have hcontents : chainBytes (ba.root.take (ba.position / ba.baseSize) ++ nodes) =
      Lib.overlay ba.contents ba.position buf := by
    rw [chainBytes_append, hbytes, ← Lib.overlay_append_right, hba.length_before hroom,
      hdecompose, ← hba.contents_split hroom]
  unfold storeAtCursor
  simp only [hloop, htaken]
  refine ⟨_, rfl, ?_, rfl, rfl, rfl, ite_gt_eq_max _ _, hcontents⟩
  exact
    { baseSize_pos := hba.baseSize_pos
      uniform := (hba.uniform.take _).append huniform
      root_ne_nil := by
        intro hnil
        have hzero := congrArg List.length hnil
        rw [hchain, List.length_nil] at hzero
        omega
      capacity_eq := by
        rw [hchain]
        exact hba.capacity_eq
      position_le := by
        dsimp only
        split <;> omega
      size_le := by
        dsimp only
        have := hba.size_le
        split <;> omega
      cur_eq := hba.advance_eq hroom buf.length hfits }

theorem storeAtCursor_null {ba : ByteArray} (hba : ba.Coherent) (buf : List UInt8)
    (hroom : ba.position < ba.capacity) (hshort : ba.capacity < ba.position + buf.length) :
    storeAtCursor buf ba = .error .nullNode ba := by
  have hleft := hba.curNodes_room hroom
  have hdecompose := Nat.div_add_mod ba.position ba.baseSize
  unfold storeAtCursor
  rw [writeLoop_null hba.baseSize_pos ba.curNodes _ buf hba.uniform_curNodes
    (Nat.mod_lt _ hba.baseSize_pos) (by omega)]

theorem write_ok {ba ba' : ByteArray} (hba : ba.Coherent) (buf : List UInt8)
    (hwrite : write buf ba = .ok () ba') : Wrote ba buf ba' := by
  unfold write at hwrite
  by_cases hbuf : buf.length = 0
  · rw [if_pos hbuf] at hwrite
    cases hwrite
    obtain rfl := List.eq_nil_of_length_eq_zero hbuf
    have hposition := hba.position_le
    have hlength : (ba.contents ++ []).length = ba.capacity := by
      rw [List.append_nil, hba.length_contents]
    exact
      { coherent := hba
        baseSize_eq := rfl
        endian_eq := rfl
        position_eq := rfl
        size_eq := (Nat.max_eq_left hposition).symm
        contents_eq := ⟨[], Nat.dvd_zero _, hlength ▸ hba.position_le_capacity, by simp⟩ }
  · rw [if_neg hbuf] at hwrite
    obtain ⟨blocks, hblocks, hroot, hbase, hposition, hsize, hendian, hroom, hgrown⟩ :=
      addCapacity_spec hba buf.length (by omega)
    generalize ba.addCapacity buf.length = grown at *
    have hcontents : grown.contents = ba.contents ++ chainBytes blocks := by
      rw [contents, hroot, chainBytes_append, contents]
    by_cases hfits : grown.position + buf.length ≤ grown.capacity
    · obtain ⟨stored, hstore, hcoherent, hbase', hendian', hposition', hsize', hbytes⟩ :=
        storeAtCursor_ok hgrown buf (by omega) hfits
      rw [hstore] at hwrite
      cases hwrite
      have hlength := hgrown.length_contents
      rw [hcontents] at hlength hbytes
      rw [hposition] at hposition' hsize' hbytes hfits
      rw [hsize] at hsize'
      exact
        { coherent := hcoherent
          baseSize_eq := hbase'.trans hbase
          endian_eq := hendian'.trans hendian
          position_eq := hposition'
          size_eq := hsize'
          contents_eq := ⟨chainBytes blocks, ⟨blocks.length, length_chainBytes hblocks⟩,
            hlength ▸ hfits, hbytes⟩ }
    · rw [storeAtCursor_null hgrown buf hroom (by omega)] at hwrite
      cases hwrite

theorem Wrote.append {ba ba' : ByteArray} {buf : List UInt8} (hba : ba.Coherent)
    (hend : ba.position = ba.size) (heffect : Wrote ba buf ba') :
    ba'.position = ba'.size ∧ ba'.size = ba.size + buf.length ∧
      ba'.contents.take ba'.size = ba.contents.take ba.size ++ buf := by
  obtain ⟨grown, -, hfits, hcontents⟩ := heffect.contents_eq
  have hsize : ba'.size = ba.size + buf.length := by
    rw [heffect.size_eq, hend]
    exact Nat.max_eq_right (Nat.le_add_right _ _)
  have hwithin : ba.size ≤ ba.contents.length := by
    rw [hba.length_contents]
    exact hba.size_le
  refine ⟨by rw [heffect.position_eq, hsize, hend], hsize, ?_⟩
  rw [hsize, hcontents, Lib.take_add_slice, hend, Lib.take_overlay _ _ _ (by omega),
    Lib.slice_overlay _ _ _ (by omega), List.take_append_of_le_length hwithin]

theorem Wrote.slice_eq {ba ba' : ByteArray} {buf : List UInt8}
    (heffect : Wrote ba buf ba') : Lib.slice ba'.contents ba.position buf.length = buf := by
  obtain ⟨grown, -, hfits, hcontents⟩ := heffect.contents_eq
  rw [hcontents, Lib.slice_overlay _ _ _ (by omega)]

theorem Wrote.slice_before {ba ba' : ByteArray} {buf : List UInt8} (hba : ba.Coherent)
    (heffect : Wrote ba buf ba') (start count : Nat) (hbefore : start + count ≤ ba.position) :
    Lib.slice ba'.contents start count = Lib.slice ba.contents start count := by
  obtain ⟨grown, -, hfits, hcontents⟩ := heffect.contents_eq
  have hposition := hba.position_le_capacity
  have hlength := hba.length_contents
  rw [hcontents, Lib.slice_overlay_before _ _ _ _ _ hbefore (by omega),
    Lib.slice_append_left _ _ _ _ (by omega)]

theorem write_error {ba ba' : ByteArray} {fault : Fault} (hba : ba.Coherent) (buf : List UInt8)
    (hwrite : write buf ba = .error fault ba') : fault = .nullNode := by
  unfold write at hwrite
  by_cases hbuf : buf.length = 0
  · rw [if_pos hbuf] at hwrite
    cases hwrite
  · rw [if_neg hbuf] at hwrite
    obtain ⟨_, _, _, _, _, _, _, hroom, hgrown⟩ := addCapacity_spec hba buf.length (by omega)
    generalize ba.addCapacity buf.length = grown at *
    by_cases hfits : grown.position + buf.length ≤ grown.capacity
    · obtain ⟨stored, hstore, _⟩ := storeAtCursor_ok hgrown buf (by omega) hfits
      rw [hstore] at hwrite
      cases hwrite
    · rw [storeAtCursor_null hgrown buf hroom (by omega)] at hwrite
      cases hwrite
      rfl

theorem read_throws {ba : ByteArray} (count : Nat) (hcount : ba.getReadSize < count) :
    read count ba = .error (.outOfRange "not enough len") ba := by
  unfold read
  rw [if_pos hcount]

theorem read_ok {ba : ByteArray} (hba : ba.Coherent) (count : Nat)
    (hcount : count ≤ ba.getReadSize) (hroom : ba.position < ba.capacity) :
    ∃ ba', read count ba = .ok (Lib.slice ba.contents ba.position count) ba' ∧
      ReadTo ba count ba' := by
  have hsize := hba.size_le
  have hposition := hba.position_le
  have hdecompose := Nat.div_add_mod ba.position ba.baseSize
  have hleft := hba.curNodes_room hroom
  rw [getReadSize] at hcount
  have hne : ba.curNodes ≠ [] := by
    rw [hba.curNodes_of_room hroom]
    simpa using hba.index_lt hroom
  have hloop := readLoop_ok hba.baseSize_pos ba.curNodes (ba.position % ba.baseSize) count
    hba.uniform_curNodes (Nat.mod_lt _ hba.baseSize_pos) hne (by omega)
  have hslice : Lib.slice (chainBytes ba.curNodes) (ba.position % ba.baseSize) count =
      Lib.slice ba.contents ba.position count := by
    rw [hba.curNodes_of_room hroom, hba.slice_from hroom]
  unfold read
  rw [if_neg (by rw [getReadSize]; omega), hloop, hslice]
  refine ⟨_, rfl, ?_⟩
  exact
    { coherent :=
        { baseSize_pos := hba.baseSize_pos
          uniform := hba.uniform
          root_ne_nil := hba.root_ne_nil
          capacity_eq := hba.capacity_eq
          position_le := by
            dsimp only
            omega
          size_le := hba.size_le
          cur_eq := hba.advance_eq hroom count (by omega) }
      baseSize_eq := rfl
      endian_eq := rfl
      position_eq := rfl
      size_eq := rfl
      contents_eq := rfl }

theorem read_null {ba : ByteArray} (hba : ba.Coherent) (count : Nat)
    (hcount : count ≤ ba.getReadSize) (hfull : ba.position = ba.capacity) :
    read count ba = .error .nullNode ba := by
  unfold read
  rw [if_neg (by omega), hba.curNodes_of_full hfull]
  rfl

theorem setPosition_throws {ba : ByteArray} (v : Nat) (hv : ba.capacity < v) :
    setPosition v ba = .error (.outOfRange "set_position out of range") ba := by
  unfold setPosition
  rw [if_pos hv]

structure MovedTo (ba : ByteArray) (v : Nat) (ba' : ByteArray) : Prop where
  coherent : ba'.Coherent
  baseSize_eq : ba'.baseSize = ba.baseSize
  endian_eq : ba'.endian = ba.endian
  position_eq : ba'.position = v
  size_eq : ba'.size = max ba.size v
  contents_eq : ba'.contents = ba.contents

theorem setPosition_ok {ba : ByteArray} (hba : ba.Coherent) (v : Nat) (hv : v ≤ ba.capacity) :
    ∃ ba', setPosition v ba = .ok () ba' ∧ MovedTo ba v ba' := by
  have hcapacity := hba.capacity_eq
  have hindex : v / ba.baseSize < ba.root.length ↔ v ≠ ba.capacity := by
    rw [Nat.div_lt_iff_lt_mul hba.baseSize_pos, Nat.mul_comm, ← hcapacity]
    omega
  unfold setPosition
  rw [if_neg (by omega), seek_ok hba.baseSize_pos ba.root v hba.uniform hba.root_ne_nil
    (by omega)]
  refine ⟨_, rfl, ?_⟩
  exact
    { coherent :=
        { baseSize_pos := hba.baseSize_pos
          uniform := hba.uniform
          root_ne_nil := hba.root_ne_nil
          capacity_eq := hba.capacity_eq
          position_le := by
            dsimp only
            split <;> omega
          size_le := by
            dsimp only
            have := hba.size_le
            split <;> omega
          cur_eq := by
            dsimp only
            by_cases hfull : v = ba.capacity
            · rw [if_pos hfull, if_neg (by rw [hindex]; exact not_not_intro hfull)]
            · rw [if_neg hfull, if_pos (hindex.mpr hfull)] }
      baseSize_eq := rfl
      endian_eq := rfl
      position_eq := rfl
      size_eq := ite_gt_eq_max _ _
      contents_eq := rfl }

/-- The effect of `getWriteBuffers` on the object: whole blocks at the end. -/
structure Grew (ba ba' : ByteArray) : Prop where
  coherent : ba'.Coherent
  baseSize_eq : ba'.baseSize = ba.baseSize
  endian_eq : ba'.endian = ba.endian
  position_eq : ba'.position = ba.position
  size_eq : ba'.size = ba.size
  contents_eq : ∃ grown : List UInt8, ba.baseSize ∣ grown.length ∧
    ba'.contents = ba.contents ++ grown

theorem addCapacity_grew {ba : ByteArray} (hba : ba.Coherent) (len : Nat) :
    Grew ba (ba.addCapacity len) := by
  by_cases hlen : len = 0
  · subst hlen
    exact ⟨hba, rfl, rfl, rfl, rfl, [], Nat.dvd_zero _, (List.append_nil _).symm⟩
  · obtain ⟨blocks, hblocks, hroot, hbase, hposition, hsize, hendian, -, hgrown⟩ :=
      addCapacity_spec hba len (by omega)
    refine ⟨hgrown, hbase, hendian, hposition, hsize, chainBytes blocks,
      ⟨blocks.length, length_chainBytes hblocks⟩, ?_⟩
    rw [contents, hroot, chainBytes_append, contents]

theorem iovLoop_error (nodes : List Node) (index npos len : Nat) (fault : Fault)
    (hloop : iovLoop nodes index npos len = .error fault) : fault = .nullNode := by
  induction nodes generalizing index npos len with
  | nil =>
    cases hloop
    rfl
  | cons node next ih =>
    unfold iovLoop at hloop
    dsimp only at hloop
    split at hloop
    · cases hloop
    · cases hrest : iovLoop next (index + 1) 0 (len - (node.size - npos)) with
      | error other =>
        rw [hrest] at hloop
        cases hloop
        exact ih _ _ _ hrest
      | ok rest =>
        rw [hrest] at hloop
        cases hloop

theorem getWriteBuffers_ok {ba ba' : ByteArray} {regions : List Iovec × Nat}
    (hba : ba.Coherent) (len : Nat) (hcall : getWriteBuffers len ba = .ok regions ba') :
    Grew ba ba' := by
  unfold getWriteBuffers regionsAtCursor at hcall
  split at hcall
  · cases hcall
    exact addCapacity_grew hba 0
  · split at hcall
    · cases hcall
    · cases hcall
      exact addCapacity_grew hba len

theorem getWriteBuffers_error {ba ba' : ByteArray} {fault : Fault} (len : Nat)
    (hcall : getWriteBuffers len ba = .error fault ba') : fault = .nullNode := by
  unfold getWriteBuffers regionsAtCursor at hcall
  split at hcall
  · cases hcall
  · split at hcall
    · rename_i hloop
      cases hcall
      exact iovLoop_error _ _ _ _ _ hloop
    · cases hcall

theorem clear_ok {ba : ByteArray} (hba : ba.Coherent) :
    ∃ ba', clear ba = .ok () ba' ∧ ba'.Coherent ∧ ba'.baseSize = ba.baseSize ∧
      ba'.position = 0 ∧ ba'.size = 0 ∧ ba'.contents = ba.contents.take ba.baseSize := by
  obtain ⟨first, rest, hroot⟩ := List.exists_cons_of_ne_nil hba.root_ne_nil
  have hfirst : first.size = ba.baseSize := hba.uniform first (by simp [hroot])
  have hbase := hba.baseSize_pos
  refine ⟨_, rfl, ?_, rfl, rfl, rfl, ?_⟩
  · exact
      { baseSize_pos := hbase
        uniform := hba.uniform.take 1
        root_ne_nil := by simp [hroot]
        capacity_eq := by simp [hroot]
        position_le := Nat.le_refl 0
        size_le := Nat.zero_le _
        cur_eq := by
          rw [if_neg (Nat.ne_of_lt hbase), Nat.zero_div] }
  · have hlength : first.ptr.length = ba.baseSize := first.length_ptr.trans hfirst
    simp only [contents, hroot, List.take_succ_cons, List.take_zero, chainBytes_cons,
      chainBytes_nil, List.append_nil]
    exact (List.take_left' hlength).symm

end ByteArray

/-- One flat buffer with a cursor; it grows in units of `block` bytes. -/
structure Flat where
  block : Nat
  buf : List UInt8
  pos : Nat
  size : Nat

def ByteArray.flat (ba : ByteArray) : Flat where
  block := ba.baseSize
  buf := ba.contents
  pos := ba.position
  size := ba.size

inductive Call where
  | write (buf : List UInt8)
  | read (count : Nat)
  | setPosition (v : Nat)
  | getWriteBuffers (len : Nat)
  | clear

inductive Reply where
  | done
  | bytes (buf : List UInt8)
  | threw

inductive Flat.Step (flat : Flat) : Call → Reply → Flat → Prop where
  | write (buf grown : List UInt8) : flat.block ∣ grown.length →
      flat.pos + buf.length ≤ (flat.buf ++ grown).length →
      Step flat (.write buf) .done
        { flat with
          buf := Lib.overlay (flat.buf ++ grown) flat.pos buf
          pos := flat.pos + buf.length
          size := max flat.size (flat.pos + buf.length) }
  | read (count : Nat) : count ≤ flat.size - flat.pos →
      Step flat (.read count) (.bytes (Lib.slice flat.buf flat.pos count))
        { flat with pos := flat.pos + count }
  | readThrows (count : Nat) : count > flat.size - flat.pos →
      Step flat (.read count) .threw flat
  | setPosition (v : Nat) : v ≤ flat.buf.length →
      Step flat (.setPosition v) .done { flat with pos := v, size := max flat.size v }
  | setPositionThrows (v : Nat) : v > flat.buf.length →
      Step flat (.setPosition v) .threw flat
  | getWriteBuffers (len : Nat) (grown : List UInt8) : flat.block ∣ grown.length →
      Step flat (.getWriteBuffers len) .done { flat with buf := flat.buf ++ grown }
  | clear :
      Step flat .clear .done { flat with buf := flat.buf.take flat.block, pos := 0, size := 0 }

namespace ByteArray

def perform : Call → Op Reply
  | .write buf => do
    write buf
    return .done
  | .read count => do
    return .bytes (← read count)
  | .setPosition v => do
    setPosition v
    return .done
  | .getWriteBuffers len => do
    let _ ← getWriteBuffers len
    return .done
  | .clear => do
    clear
    return .done

/-- A caller may go on after an exception; after undefined behaviour there is
no next state. -/
def step (ba : ByteArray) (call : Call) : Option ByteArray :=
  match perform call ba with
  | .ok _ ba' => some ba'
  | .error (.outOfRange _) ba' => some ba'
  | .error .nullNode _ => none
  | .error .outOfBounds _ => none

def Explained (ba : ByteArray) (call : Call) : Prop :=
  match perform call ba with
  | .ok reply ba' => ba.flat.Step call reply ba'.flat
  | .error (.outOfRange _) ba' => ba.flat.Step call .threw ba'.flat ∧ ba' = ba
  | .error .nullNode _ => True
  | .error .outOfBounds _ => False

theorem perform_cases {ba : ByteArray} (hba : ba.Coherent) (call : Call) :
    (∃ reply ba', perform call ba = .ok reply ba' ∧ ba'.Coherent ∧
        ba'.baseSize = ba.baseSize ∧ ba.flat.Step call reply ba'.flat) ∨
      (∃ what, perform call ba = .error (.outOfRange what) ba ∧
        ba.flat.Step call .threw ba.flat) ∨
      ∃ ba', perform call ba = .error .nullNode ba' := by
  cases call with
  | write buf =>
    cases hwrite : write buf ba with
    | ok value ba' =>
      have heffect := write_ok hba buf hwrite
      obtain ⟨grown, hdvd, hfits, hcontents⟩ := heffect.contents_eq
      have hflat := @Flat.Step.write ba.flat buf grown hdvd hfits
      refine .inl ⟨.done, ba', by simp only [perform, Op.bind_ok hwrite, Op.pure_eq],
        heffect.coherent, heffect.baseSize_eq, ?_⟩
      simpa only [flat, heffect.baseSize_eq, hcontents, heffect.position_eq,
        heffect.size_eq] using hflat
    | error fault ba' =>
      obtain rfl := write_error hba buf hwrite
      exact .inr (.inr ⟨ba', by simp only [perform, Op.bind_error hwrite]⟩)
  | read count =>
    by_cases hcount : count ≤ ba.getReadSize
    · by_cases hfull : ba.position = ba.capacity
      · have hread := read_null hba count hcount hfull
        exact .inr (.inr ⟨ba, by simp only [perform, Op.bind_error hread]⟩)
      · have hroom : ba.position < ba.capacity :=
          Nat.lt_of_le_of_ne hba.position_le_capacity hfull
        obtain ⟨ba', hread, heffect⟩ := read_ok hba count hcount hroom
        refine .inl ⟨.bytes (Lib.slice ba.contents ba.position count), ba',
          by simp only [perform, Op.bind_ok hread, Op.pure_eq],
          heffect.coherent, heffect.baseSize_eq, ?_⟩
        have hflat := @Flat.Step.read ba.flat count hcount
        simpa only [flat, heffect.baseSize_eq, heffect.contents_eq, heffect.position_eq,
          heffect.size_eq] using hflat
    · have hread := read_throws count (Nat.lt_of_not_le hcount)
      exact .inr (.inl ⟨"not enough len", by simp only [perform, Op.bind_error hread],
        .readThrows count (Nat.lt_of_not_le hcount)⟩)
  | setPosition v =>
    have hlength : ba.flat.buf.length = ba.capacity := hba.length_contents
    by_cases hv : v ≤ ba.capacity
    · obtain ⟨ba', hmove, heffect⟩ := setPosition_ok hba v hv
      refine .inl ⟨.done, ba', by simp only [perform, Op.bind_ok hmove, Op.pure_eq],
        heffect.coherent, heffect.baseSize_eq, ?_⟩
      have hflat := @Flat.Step.setPosition ba.flat v (hlength ▸ hv)
      simpa only [flat, heffect.baseSize_eq, heffect.contents_eq, heffect.position_eq,
        heffect.size_eq] using hflat
    · have hmove := setPosition_throws v (Nat.lt_of_not_le hv)
      exact .inr (.inl ⟨"set_position out of range", by simp only [perform, Op.bind_error hmove],
        .setPositionThrows v (hlength ▸ Nat.lt_of_not_le hv)⟩)
  | getWriteBuffers len =>
    cases hcall : getWriteBuffers len ba with
    | ok regions ba' =>
      have heffect := getWriteBuffers_ok hba len hcall
      obtain ⟨grown, hdvd, hcontents⟩ := heffect.contents_eq
      refine .inl ⟨.done, ba', by simp only [perform, Op.bind_ok hcall, Op.pure_eq],
        heffect.coherent, heffect.baseSize_eq, ?_⟩
      have hflat := @Flat.Step.getWriteBuffers ba.flat len grown hdvd
      simpa only [flat, heffect.baseSize_eq, hcontents, heffect.position_eq,
        heffect.size_eq] using hflat
    | error fault ba' =>
      obtain rfl := getWriteBuffers_error len hcall
      exact .inr (.inr ⟨ba', by simp only [perform, Op.bind_error hcall]⟩)
  | clear =>
    obtain ⟨ba', hclear, hcoherent, hbase, hposition, hsize, hcontents⟩ := clear_ok hba
    refine .inl ⟨.done, ba', by simp only [perform, Op.bind_ok hclear, Op.pure_eq],
      hcoherent, hbase, ?_⟩
    have hflat := @Flat.Step.clear ba.flat
    simpa only [flat, hbase, hposition, hsize, hcontents] using hflat

theorem step_coherent {ba ba' : ByteArray} (hba : ba.Coherent) (call : Call)
    (hstep : step ba call = some ba') : ba'.Coherent ∧ ba'.baseSize = ba.baseSize := by
  unfold step at hstep
  obtain ⟨reply, next, hperform, hnext, hbase, -⟩ | ⟨what, hperform, -⟩ | ⟨next, hperform⟩ :=
    perform_cases hba call
  · rw [hperform] at hstep
    cases hstep
    exact ⟨hnext, hbase⟩
  · rw [hperform] at hstep
    cases hstep
    exact ⟨hba, rfl⟩
  · rw [hperform] at hstep
    cases hstep

theorem coherent_of_run (baseSize : Nat) (hbase : 0 < baseSize) (fresh : Nat → Nat → UInt8)
    (calls : List Call) (ba : ByteArray)
    (hrun : Lib.run step (new baseSize fresh) calls = some ba) :
    ba.Coherent ∧ ba.baseSize = baseSize :=
  Lib.run_invariant (fun ba => ba.Coherent ∧ ba.baseSize = baseSize)
    (fun ba call ba' hInv hstep => by
      obtain ⟨hnext, hsame⟩ := step_coherent hInv.1 call hstep
      exact ⟨hnext, hsame.trans hInv.2⟩)
    calls _ ba ⟨coherent_new baseSize fresh hbase, rfl⟩ hrun

theorem explained_of_coherent {ba : ByteArray} (hba : ba.Coherent) (call : Call) :
    ba.Explained call := by
  unfold Explained
  obtain ⟨reply, next, hperform, -, -, hflat⟩ | ⟨what, hperform, hflat⟩ | ⟨next, hperform⟩ :=
    perform_cases hba call
  · rw [hperform]
    exact hflat
  · rw [hperform]
    exact ⟨hflat, rfl⟩
  · rw [hperform]
    trivial

/-- From a fresh `ByteArray(baseSize)` on, for as long as no null `Node*` is
followed, the chain is a flat buffer of whole blocks, `m_cur` is the block of
the cursor, and the flat buffer explains every further call. -/
theorem chain_simulates_flat_buffer (baseSize : Nat) (hbase : 0 < baseSize)
    (fresh : Nat → Nat → UInt8) (calls : List Call) (ba : ByteArray)
    (hrun : Lib.run step (new baseSize fresh) calls = some ba) :
    (ba.baseSize = baseSize ∧ ba.capacity = baseSize * ba.root.length ∧
      ba.contents.length = ba.capacity ∧ ba.position ≤ ba.size ∧ ba.size ≤ ba.capacity ∧
      ba.cur = if ba.position = ba.capacity then none else some (ba.position / baseSize)) ∧
    ∀ call, ba.Explained call := by
  obtain ⟨hba, rfl⟩ := coherent_of_run baseSize hbase fresh calls ba hrun
  exact ⟨⟨rfl, hba.capacity_eq, hba.length_contents, hba.position_le, hba.size_le, hba.cur_eq⟩,
    explained_of_coherent hba⟩

/-- The cursor stands inside the first of two blocks. -/
theorem chain_simulates_flat_buffer_two_blocks :
    ∃ ba, Lib.run step (new 2 fun _ _ => 0) [.write [1, 2], .write [3], .setPosition 1] = some ba ∧
      ba.cur = some 0 ∧ ba.Explained (.read 2) := by
  refine ⟨_, by rfl, by rfl, ?_⟩
  exact (chain_simulates_flat_buffer 2 (by decide) (fun _ _ => 0)
    [.write [1, 2], .write [3], .setPosition 1] _ (by rfl)).2 (.read 2)

end ByteArray
end Sylar
