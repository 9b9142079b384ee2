import Sylar.ByteArray.Buffers
import Sylar.ByteArray.Strings
import Sylar.Stream.FixSize

/-! A byte array that is sent over a connection with `writeFixSize` and received with `readFixSize`.

The two loops run at the ends of one connection, in any order. How many bytes a `sendmsg` takes and
how many a `recvmsg` finds is left open; nothing is lost in between. Both pass all the regions of the
array to one call, and the kernel refuses a call with more than `IOV_MAX` of them. -/
open Sylar.ByteArray (gather scatter getReadBuffers getWriteBuffers setPosition ReadTo Wrote
  Sufficient)
namespace Sylar
namespace SocketStream

/-- `IOV_MAX`. -/
def iovMax : Nat := 1024

/-- `write(ba, length)` when `sendmsg` answers `rt`: how many regions it is given, and the bytes
that the socket takes. -/
def write (length : UInt64) (rt : Int32) : Op (Nat × List UInt8) := do
  let iovs ← getReadBuffers length.toNat
  let ba ← get
  if 0 < rt.toInt then setPosition (ba.position + rt.toInt.toNat)
  return (iovs.1.length, (gather ba.root iovs.1).take rt.toInt.toNat)

/-- `read(ba, length)` when `recvmsg` answers `rt` and brings `data`: how many regions it is
given. -/
def read (length : UInt64) (rt : Int32) (data : List UInt8) : Op Nat := do
  let iovs ← getWriteBuffers length.toNat
  let ba ← get
  match scatter ba.root iovs.1 data with
  | .error fault => throw fault
  | .ok root =>
    set { ba with root := root }
    if 0 < rt.toInt then setPosition (ba.position + rt.toInt.toNat)
    return iovs.1.length

inductive Loop where
  | running (left : UInt64)
  | returned (value : Int32)
deriving DecidableEq

def Loop.start (length : UInt64) : Loop :=
  if length = 0 then .returned (Stream.toResult length) else .running length

/-- A round of the loop after the result of the call, up to the next test of `left`. -/
def Loop.next (length left : UInt64) (result : Int32) : Loop :=
  let len := Stream.toSize result
  if len = 0 then .returned (Stream.toResult len)
  else if left - len = 0 then .returned (Stream.toResult length)
  else .running (left - len)

structure Wire where
  sender : ByteArray
  sending : Loop
  flight : List UInt8
  receiver : ByteArray
  receiving : Loop

inductive Event where
  | send (rt : Int32)
  | recv (rt : Int32)

/-- A call at one of the ends, with a positive answer that the kernel can give to it. -/
def Wire.step (length : UInt64) (w : Wire) : Event → Option Wire
  | .send rt =>
    match w.sending with
    | .returned _ => none
    | .running left =>
      if 0 < rt.toInt ∧ rt.toInt ≤ left.toNat then
        match write left rt w.sender with
        | .error _ _ => none
        | .ok (regions, sent) ba =>
          if regions ≤ iovMax then
            some { w with
              sender := ba
              sending := Loop.next length left rt
              flight := w.flight ++ sent }
          else none
      else none
  | .recv rt =>
    match w.receiving with
    | .returned _ => none
    | .running left =>
      if 0 < rt.toInt ∧ rt.toInt ≤ left.toNat ∧ rt.toInt ≤ w.flight.length then
        match read left rt (w.flight.take rt.toInt.toNat) w.receiver with
        | .error _ _ => none
        | .ok regions ba =>
          if regions ≤ iovMax then
            some { w with
              receiver := ba
              receiving := Loop.next length left rt
              flight := w.flight.drop rt.toInt.toNat }
          else none
      else none

def Wire.start (length : UInt64) (sender receiver : ByteArray) : Wire where
  sender := sender
  sending := Loop.start length
  flight := []
  receiver := receiver
  receiving := Loop.start length

theorem get_ok (ba : ByteArray) : (get : Op ByteArray) ba = .ok ba ba := rfl

theorem set_ok (ba ba' : ByteArray) : (set ba' : Op PUnit) ba = .ok ⟨⟩ ba' := rfl

theorem write_ok (ba : ByteArray) (hba : ba.Coherent) (left : UInt64) (rt : Int32)
    (hpos : 0 < rt.toInt) (hle : rt.toInt ≤ left.toNat) (havailable : left.toNat ≤ ba.getReadSize) :
    ∃ regions ba', write left rt ba =
        .ok (regions, Lib.slice ba.contents ba.position rt.toInt.toNat) ba' ∧
      ReadTo ba rt.toInt.toNat ba' ∧ ba.baseSize * regions < left.toNat + 2 * ba.baseSize := by
  obtain ⟨regions, hcall, hregions⟩ := ByteArray.getReadBuffers_ok ba hba left.toNat
  have hcount := ByteArray.getReadBuffers_length ba hba left.toNat regions _ ba hcall
  rw [Nat.min_eq_left havailable] at hcall hregions
  have hsize := hba.size_le
  have hposition := hba.position_le
  rw [ByteArray.getReadSize] at havailable
  have hgather : gather ba.root regions = Lib.slice ba.contents ba.position left.toNat := by
    apply ByteArray.gather_eq hba.uniform regions ba.position _ hregions
    rw [← hba.capacity_eq]
    omega
  obtain ⟨ba', hread, hmove⟩ := ByteArray.setPosition_eq_read ba hba rt.toInt.toNat (by omega)
    (by rw [ByteArray.getReadSize]; omega)
  obtain ⟨ba'', hread', heffect⟩ := ByteArray.read_ok hba rt.toInt.toNat
    (by rw [ByteArray.getReadSize]; omega) (by omega)
  rw [hread] at hread'
  cases hread'
  refine ⟨regions.length, ba', ?_, heffect, hcount⟩
  rw [write, Op.bind_ok hcall, Op.bind_ok (get_ok ba)]
  simp only [hpos, if_true, hgather,
    Lib.take_slice _ _ _ _ (show rt.toInt.toNat ≤ left.toNat by omega)]
  exact Op.map_ok _ hmove

theorem setPosition_capacity (ba ba' : ByteArray) (v : Nat)
    (hmove : setPosition v ba = .ok () ba') : ba'.capacity = ba.capacity := by
  unfold setPosition at hmove
  split at hmove
  · cases hmove
  · split at hmove
    · cases hmove
    · cases hmove
      rfl

theorem read_ok (ba : ByteArray) (hba : ba.Coherent) (left : UInt64) (rt : Int32)
    (data : List UInt8) (hpos : 0 < rt.toInt) (hle : rt.toInt ≤ left.toNat)
    (hdata : data.length = rt.toInt.toNat)
    (hroom : Sufficient ba.baseSize ba.getCapacity left.toNat) :
    ∃ regions ba', read left rt data ba = .ok regions ba' ∧ Wrote ba data ba' ∧
      left.toNat - rt.toInt.toNat ≤ ba'.getCapacity ∧
      ba.baseSize * regions < left.toNat + 2 * ba.baseSize := by
  have hlen : 0 < left.toNat := by omega
  have henough := (ByteArray.addCapacity_room_iff ba hba left.toNat).mpr hroom
  obtain ⟨regions, size, grown, hcall⟩ : ∃ regions size grown,
      getWriteBuffers left.toNat ba = .ok (regions, size) grown := by
    cases hcall : getWriteBuffers left.toNat ba with
    | ok iovs grown => exact ⟨_, _, _, rfl⟩
    | error fault after =>
      obtain rfl := ByteArray.getWriteBuffers_error left.toNat hcall
      have hshort := (ByteArray.getWriteBuffers_null_iff ba hba left.toNat hlen).mp ⟨after, hcall⟩
      omega
  obtain ⟨-, hregions, hfits, -⟩ :=
    ByteArray.getWriteBuffers_regions ba hba left.toNat hlen regions size grown hcall
  have hgrew := ByteArray.getWriteBuffers_ok hba left.toNat hcall
  obtain ⟨root, after, hscatter, hmove, hwrote⟩ := ByteArray.scatter_then_setPosition ba grown hgrew
    left.toNat regions hregions hfits data (by omega)
  have hcount := ByteArray.getWriteBuffers_length ba hba left.toNat hlen regions size grown hcall
  refine ⟨regions.length, after, ?_, hwrote, ?_, hcount⟩
  · rw [← hgrew.position_eq, hdata] at hmove
    rw [read, Op.bind_ok hcall, Op.bind_ok (get_ok grown)]
    simp only [hscatter, hpos, if_true]
    rw [Op.bind_ok (set_ok _ _)]
    exact Op.map_ok _ hmove
  · have hcapacity := setPosition_capacity _ _ _ hmove
    have hposition := hwrote.position_eq
    rw [ByteArray.getCapacity, hcapacity]
    dsimp only
    omega

def Loop.Counts (length : UInt64) (count : Nat) : Loop → Prop
  | .running left => 0 < left.toNat ∧ left.toNat + count = length.toNat
  | .returned value => count = length.toNat ∧ value = Stream.toResult length

theorem Loop.counts_le {length : UInt64} {count : Nat} {loop : Loop}
    (hloop : loop.Counts length count) : count ≤ length.toNat := by
  cases loop with
  | running left => exact Nat.le_of_add_left_le hloop.2.le
  | returned value => exact hloop.1.le

theorem Loop.counts_start (length : UInt64) : (Loop.start length).Counts length 0 := by
  unfold Loop.start
  split
  · next hzero =>
    subst hzero
    exact ⟨rfl, rfl⟩
  · next hlength =>
    refine ⟨Nat.pos_of_ne_zero fun hzero => hlength ?_, rfl⟩
    rw [← UInt64.toNat_inj, hzero, UInt64.toNat_zero]

theorem Loop.counts_next (length left : UInt64) (rt : Int32) (count : Nat) (hpos : 0 < rt.toInt)
    (hle : rt.toInt ≤ left.toNat) (hloop : (Loop.running left).Counts length count) :
    (Loop.next length left rt).Counts length (count + rt.toInt.toNat) := by
  obtain ⟨hleft, hcount⟩ := hloop
  have hrest := Stream.toNat_sub_toSize left rt hpos hle
  unfold Loop.next
  rw [if_neg (by rw [Stream.toSize_eq_zero_iff]; omega)]
  split
  · next hzero =>
    rw [hzero, UInt64.toNat_zero] at hrest
    exact ⟨by omega, rfl⟩
  · next hmore =>
    rw [← UInt64.toNat_inj, UInt64.toNat_zero] at hmore
    exact ⟨by omega, by omega⟩

theorem wrote_nil (ba : ByteArray) (hba : ba.Coherent) : Wrote ba [] ba where
  coherent := hba
  baseSize_eq := rfl
  endian_eq := rfl
  position_eq := rfl
  size_eq := (Nat.max_eq_left hba.position_le).symm
  contents_eq := by
    refine ⟨[], Nat.dvd_zero _, ?_, by rw [List.append_nil, Lib.overlay_nil]⟩
    rw [List.append_nil, hba.length_contents]
    exact hba.position_le_capacity

theorem wrote_append (ba mid after : ByteArray) (hba : ba.Coherent) (first second : List UInt8)
    (hfirst : Wrote ba first mid) (hsecond : Wrote mid second after) :
    Wrote ba (first ++ second) after := by
  obtain ⟨grown, hdvd, hfits, hcontents⟩ := hfirst.contents_eq
  obtain ⟨more, hdvd', hfits', hcontents'⟩ := hsecond.contents_eq
  have hposition := hfirst.position_eq
  have hsize := hfirst.size_eq
  refine
    { coherent := hsecond.coherent
      baseSize_eq := hsecond.baseSize_eq.trans hfirst.baseSize_eq
      endian_eq := hsecond.endian_eq.trans hfirst.endian_eq
      position_eq := ?_
      size_eq := ?_
      contents_eq := ⟨grown ++ more, ?_, ?_, ?_⟩ }
  · rw [hsecond.position_eq, hposition, List.length_append, Nat.add_assoc]
  · rw [hsecond.size_eq, hposition, hsize, List.length_append]
    omega
  · rw [List.length_append]
    exact Nat.dvd_add hdvd (hfirst.baseSize_eq ▸ hdvd')
  · rw [hcontents, hposition, List.length_append, Lib.length_overlay _ _ _ hfits] at hfits'
    rw [← List.append_assoc, List.length_append, List.length_append]
    omega
  · have hwithin := hba.position_le_capacity
    rw [← hba.length_contents] at hwithin
    rw [hcontents', hcontents, hposition, ← Lib.overlay_append_left _ _ _ _ hfits,
      Lib.overlay_overlay _ _ _ _ (by rw [List.length_append, List.length_append]; omega),
      List.append_assoc]

/-- Of `data`, `sent` bytes have left the sender and `got` bytes have come to the receiver. The rest
of them is in between, and the receiver has room for what is missing. -/
structure Carried (length : UInt64) (sender receiver : ByteArray) (data : List UInt8)
    (sent got : Nat) (w : Wire) : Prop where
  sender : ReadTo sender sent w.sender
  sending : w.sending.Counts length sent
  flight : data.take sent = data.take got ++ w.flight
  receiver : Wrote receiver (data.take got) w.receiver
  receiving : w.receiving.Counts length got
  room : Sufficient w.receiver.baseSize w.receiver.getCapacity (length.toNat - got)

section
variable (length : UInt64) (sender receiver : ByteArray)

def dataOf : List UInt8 :=
  Lib.slice sender.contents sender.position length.toNat

variable {length sender receiver} {sent got : Nat} {w : Wire}

theorem length_dataOf (hsender : sender.Coherent) (havailable : length.toNat ≤ sender.getReadSize) :
    (dataOf length sender).length = length.toNat := by
  have hposition := hsender.position_le
  have hsize := hsender.size_le
  have hlength := hsender.length_contents
  rw [ByteArray.getReadSize] at havailable
  rw [dataOf, Lib.slice, List.length_take, List.length_drop]
  omega

theorem carried_start (hsender : sender.Coherent) (hreceiver : receiver.Coherent)
    (hroom : Sufficient receiver.baseSize receiver.getCapacity length.toNat) :
    Carried length sender receiver (dataOf length sender) 0 0
      (Wire.start length sender receiver) where
  sender := .refl hsender
  sending := Loop.counts_start length
  flight := rfl
  receiver := wrote_nil receiver hreceiver
  receiving := Loop.counts_start length
  room := hroom

theorem Carried.length_flight (hsender : sender.Coherent)
    (havailable : length.toNat ≤ sender.getReadSize)
    (hw : Carried length sender receiver (dataOf length sender) sent got w) :
    got + w.flight.length = sent := by
  have hlength := congrArg List.length hw.flight
  have hsent := Loop.counts_le hw.sending
  have hgot := Loop.counts_le hw.receiving
  rw [List.length_append, List.length_take, List.length_take,
    length_dataOf hsender havailable] at hlength
  omega

/-- Up to 1023 blocks are never too many regions, wherever the cursor is. -/
theorem le_iovMax (baseSize regions len : Nat)
    (hcount : baseSize * regions < len + 2 * baseSize) (hlen : len ≤ 1023 * baseSize) :
    regions ≤ iovMax := by
  have hless : baseSize * regions < baseSize * 1025 := by omega
  exact Nat.le_of_lt_succ (Nat.lt_of_mul_lt_mul_left hless)

theorem Carried.send (havailable : length.toNat ≤ sender.getReadSize)
    (hw : Carried length sender receiver (dataOf length sender) sent got w) (left : UInt64)
    (hsending : w.sending = .running left) (rt : Int32) (hpos : 0 < rt.toInt)
    (hle : rt.toInt ≤ left.toNat) :
    ∃ regions w', sender.baseSize * regions < length.toNat + 2 * sender.baseSize ∧
      Wire.step length w (.send rt) = (if regions ≤ iovMax then some w' else none) ∧
      Carried length sender receiver (dataOf length sender) (sent + rt.toInt.toNat) got w' := by
  have hcounts := hw.sending
  rw [hsending] at hcounts
  obtain ⟨hleft, hcount⟩ := hcounts
  have hread := hw.sender
  rw [ByteArray.getReadSize] at havailable
  obtain ⟨regions, ba', hcall, heffect, hregions⟩ := write_ok w.sender hread.coherent left rt hpos
    hle (by rw [ByteArray.getReadSize, hread.size_eq, hread.position_eq]; omega)
  rw [hread.baseSize_eq] at hregions
  refine ⟨regions, _, by omega, by
    rw [Wire.step, hsending]
    simp only [hpos, hle, and_self, if_true, hcall]
    rfl, ?_⟩
  have hnext : Lib.slice w.sender.contents w.sender.position rt.toInt.toNat =
      Lib.slice sender.contents (sender.position + sent) rt.toInt.toNat := by
    rw [hread.contents_eq, hread.position_eq]
  exact
    { sender := hread.trans heffect
      sending := Loop.counts_next length left rt sent hpos hle ⟨hleft, hcount⟩
      flight := by
        dsimp only
        rw [← List.append_assoc, ← hw.flight, hnext, dataOf, Lib.take_slice _ _ _ _ (by omega),
          Lib.take_slice _ _ _ _ (by omega), Lib.slice_add]
      receiver := hw.receiver
      receiving := hw.receiving
      room := hw.room }

theorem Carried.recv (hsender : sender.Coherent) (hreceiver : receiver.Coherent)
    (havailable : length.toNat ≤ sender.getReadSize)
    (hw : Carried length sender receiver (dataOf length sender) sent got w) (left : UInt64)
    (hreceiving : w.receiving = .running left) (rt : Int32) (hpos : 0 < rt.toInt)
    (hle : rt.toInt ≤ left.toNat) (hflight : rt.toInt ≤ w.flight.length) :
    ∃ regions w', receiver.baseSize * regions < length.toNat + 2 * receiver.baseSize ∧
      Wire.step length w (.recv rt) = (if regions ≤ iovMax then some w' else none) ∧
      Carried length sender receiver (dataOf length sender) sent (got + rt.toInt.toNat) w' := by
  have hcounts := hw.receiving
  rw [hreceiving] at hcounts
  obtain ⟨hleft, hcount⟩ := hcounts
  have hwrote := hw.receiver
  have hroom := hw.room
  rw [show length.toNat - got = left.toNat by omega] at hroom
  obtain ⟨regions, ba', hcall, heffect, hcapacity, hregions⟩ := read_ok w.receiver hwrote.coherent
    left rt (w.flight.take rt.toInt.toNat) hpos hle (by rw [List.length_take]; omega) hroom
  rw [hwrote.baseSize_eq] at hregions
  have htotal := hw.length_flight hsender havailable
  have hdata := length_dataOf hsender havailable
  have hsent := Loop.counts_le hw.sending
  have hgot : ((dataOf length sender).take got).length = got := by
    rw [List.length_take]
    omega
  -- what is received are the bytes behind the first `got`
  have htake : (dataOf length sender).take (got + rt.toInt.toNat) =
      (dataOf length sender).take got ++ w.flight.take rt.toInt.toNat :=
    calc (dataOf length sender).take (got + rt.toInt.toNat)
        = ((dataOf length sender).take sent).take (got + rt.toInt.toNat) := by
          rw [List.take_take, Nat.min_eq_left (by omega)]
      _ = ((dataOf length sender).take got ++ w.flight).take (got + rt.toInt.toNat) := by
          rw [hw.flight]
      _ = (dataOf length sender).take got ++ w.flight.take rt.toInt.toNat := by
          rw [List.take_append, hgot, Nat.add_sub_cancel_left, List.take_of_length_le (by omega)]
  refine ⟨regions, _, by omega, by
    rw [Wire.step, hreceiving]
    simp only [hpos, hle, hflight, and_self, if_true, hcall]
    rfl, ?_⟩
  exact
    { sender := hw.sender
      sending := hw.sending
      flight := by
        dsimp only
        rw [htake, List.append_assoc, List.take_append_drop]
        exact hw.flight
      receiver := htake ▸ wrote_append receiver w.receiver ba' hreceiver _ _ hwrote heffect
      receiving := Loop.counts_next length left rt got hpos hle ⟨hleft, hcount⟩
      room := .inl (by dsimp only; omega) }

theorem Carried.step (hsender : sender.Coherent) (hreceiver : receiver.Coherent)
    (havailable : length.toNat ≤ sender.getReadSize)
    (hw : Carried length sender receiver (dataOf length sender) sent got w) (event : Event)
    (w' : Wire) (hstep : Wire.step length w event = some w') :
    ∃ sent' got', sent + got < sent' + got' ∧
      Carried length sender receiver (dataOf length sender) sent' got' w' := by
  cases event with
  | send rt =>
    cases hsending : w.sending with
    | returned value =>
      rw [Wire.step, hsending] at hstep
      cases hstep
    | running left =>
      by_cases hrt : 0 < rt.toInt ∧ rt.toInt ≤ left.toNat
      · obtain ⟨regions, w'', -, hstep', hnext⟩ :=
          hw.send havailable left hsending rt hrt.1 hrt.2
        obtain ⟨-, hsame⟩ := Option.ite_none_right_eq_some.mp (hstep'.symm.trans hstep)
        cases hsame
        exact ⟨_, _, by omega, hnext⟩
      · rw [Wire.step, hsending] at hstep
        simp only [if_neg hrt] at hstep
        cases hstep
  | recv rt =>
    cases hreceiving : w.receiving with
    | returned value =>
      rw [Wire.step, hreceiving] at hstep
      cases hstep
    | running left =>
      by_cases hrt : 0 < rt.toInt ∧ rt.toInt ≤ left.toNat ∧ rt.toInt ≤ w.flight.length
      · obtain ⟨regions, w'', -, hstep', hnext⟩ :=
          hw.recv hsender hreceiver havailable left hreceiving rt hrt.1 hrt.2.1 hrt.2.2
        obtain ⟨-, hsame⟩ := Option.ite_none_right_eq_some.mp (hstep'.symm.trans hstep)
        cases hsame
        exact ⟨_, _, by omega, hnext⟩
      · rw [Wire.step, hreceiving] at hstep
        simp only [if_neg hrt] at hstep
        cases hstep

theorem Carried.run (hsender : sender.Coherent) (hreceiver : receiver.Coherent)
    (havailable : length.toNat ≤ sender.getReadSize) (events : List Event)
    (hw : Carried length sender receiver (dataOf length sender) sent got w) (w' : Wire)
    (hrun : Lib.run (Wire.step length) w events = some w') :
    ∃ sent' got', sent + got + events.length ≤ sent' + got' ∧
      Carried length sender receiver (dataOf length sender) sent' got' w' := by
  induction events generalizing w sent got with
  | nil =>
    cases hrun
    exact ⟨sent, got, le_rfl, hw⟩
  | cons event events ih =>
    cases hstep : Wire.step length w event with
    | none =>
      simp only [Lib.run, hstep] at hrun
      contradiction
    | some next =>
      simp only [Lib.run, hstep] at hrun
      obtain ⟨sent', got', hless, hnext⟩ :=
        hw.step hsender hreceiver havailable event next hstep
      obtain ⟨sent'', got'', hmore, hend⟩ := ih hnext hrun
      exact ⟨sent'', got'', by rw [List.length_cons]; omega, hend⟩

theorem Carried.received (hsender : sender.Coherent)
    (havailable : length.toNat ≤ sender.getReadSize)
    (hw : Carried length sender receiver (dataOf length sender) sent got w) (value : Int32)
    (hvalue : w.receiving = .returned value) :
    value = Stream.toResult length ∧ w.flight = [] ∧
      Wrote receiver (dataOf length sender) w.receiver := by
  have hcounts := hw.receiving
  rw [hvalue] at hcounts
  obtain ⟨hall, hresult⟩ := hcounts
  have hsent := Loop.counts_le hw.sending
  have htotal := hw.length_flight hsender havailable
  have hwrote := hw.receiver
  rw [List.take_of_length_le (by rw [length_dataOf hsender havailable]; omega)] at hwrote
  exact ⟨hresult, List.eq_nil_of_length_eq_zero (by omega), hwrote⟩

end

/-- In every run with which the two loops carry `length` readable bytes over a connection, at most
two calls a byte are made, every answer of the kernel is a step, and the receiver has a beginning of
the data. Both loops return the length, the sender's at the end of the data and the receiver's when
all of it is written, and until then there is something to do. The length is one that an `int`
holds, and few enough blocks for one call. -/
theorem bytes_arrive (senderBase receiverBase : Nat) (hsenderBase : 0 < senderBase)
    (hreceiverBase : 0 < receiverBase) (senderFresh receiverFresh : Nat → Nat → UInt8)
    (senderCalls receiverCalls : List Call) (sender receiver : ByteArray)
    (hsender : Lib.run ByteArray.step (.new senderBase senderFresh) senderCalls = some sender)
    (hreceiver : Lib.run ByteArray.step (.new receiverBase receiverFresh) receiverCalls =
      some receiver)
    (length : UInt64) (hint : length.toNat < 2 ^ 31)
    (hsends : length.toNat ≤ 1023 * senderBase) (hreceives : length.toNat ≤ 1023 * receiverBase)
    (havailable : length.toNat ≤ sender.getReadSize)
    (hroom : Sufficient receiver.baseSize receiver.getCapacity length.toNat) (events : List Event)
    (w : Wire)
    (hrun : Lib.run (Wire.step length) (Wire.start length sender receiver) events = some w) :
    events.length ≤ 2 * length.toNat ∧
      (∃ got, Wrote receiver ((dataOf length sender).take got) w.receiver) ∧
      (∀ value, w.sending = .returned value →
        value.toInt = length.toNat ∧ ReadTo sender length.toNat w.sender) ∧
      (∀ value, w.receiving = .returned value → value.toInt = length.toNat ∧ w.flight = [] ∧
        Wrote receiver (dataOf length sender) w.receiver) ∧
      (∀ left (rt : Int32), w.sending = .running left → 0 < rt.toInt → rt.toInt ≤ left.toNat →
        ∃ w', Wire.step length w (.send rt) = some w') ∧
      (∀ left (rt : Int32), w.receiving = .running left → 0 < rt.toInt → rt.toInt ≤ left.toNat →
        rt.toInt ≤ w.flight.length → ∃ w', Wire.step length w (.recv rt) = some w') ∧
      ((∃ left, w.sending = .running left) ∨ w.flight ≠ [] ∨
        ∃ value, w.receiving = .returned value) := by
  obtain ⟨hsender, hsenderSize⟩ :=
    ByteArray.coherent_of_run senderBase hsenderBase senderFresh senderCalls sender hsender
  obtain ⟨hreceiver, hreceiverSize⟩ :=
    ByteArray.coherent_of_run receiverBase hreceiverBase receiverFresh receiverCalls receiver
      hreceiver
  obtain ⟨sent, got, hcalls, hw⟩ := (carried_start hsender hreceiver hroom).run hsender hreceiver
    havailable events w hrun
  have hsent := Loop.counts_le hw.sending
  have hgot := Loop.counts_le hw.receiving
  have htotal := hw.length_flight hsender havailable
  have hfits := (Stream.toInt_toResult_iff length).mpr hint
  refine ⟨by omega, ⟨got, hw.receiver⟩, ?_, ?_, ?_, ?_, ?_⟩
  · intro value hvalue
    obtain ⟨hall, hresult⟩ : sent = length.toNat ∧ value = _ := by
      have hcounts := hw.sending
      rwa [hvalue] at hcounts
    exact ⟨hresult ▸ hfits, hall ▸ hw.sender⟩
  · intro value hvalue
    obtain ⟨hresult, hflight, hwrote⟩ := hw.received hsender havailable value hvalue
    exact ⟨hresult ▸ hfits, hflight, hwrote⟩
  · intro left rt hsending hpos hle
    obtain ⟨regions, w', hcount, hstep, -⟩ := hw.send havailable left hsending rt hpos hle
    rw [hsenderSize] at hcount
    rw [if_pos (le_iovMax senderBase regions length.toNat hcount hsends)] at hstep
    exact ⟨w', hstep⟩
  · intro left rt hreceiving hpos hle hflight
    obtain ⟨regions, w', hcount, hstep, -⟩ :=
      hw.recv hsender hreceiver havailable left hreceiving rt hpos hle hflight
    rw [hreceiverSize] at hcount
    rw [if_pos (le_iovMax receiverBase regions length.toNat hcount hreceives)]
      at hstep
    exact ⟨w', hstep⟩
  · cases hsending : w.sending with
    | running left => exact .inl ⟨left, rfl⟩
    | returned value =>
      cases hreceiving : w.receiving with
      | returned value => exact .inr (.inr ⟨value, rfl⟩)
      | running left =>
        have hsends := hw.sending
        have hreceives := hw.receiving
        rw [hsending] at hsends
        rw [hreceiving] at hreceives
        obtain ⟨hall, -⟩ := hsends
        obtain ⟨hleft, hcount⟩ := hreceives
        -- all bytes have been sent, and some are missing at the receiver
        refine .inr (.inl fun hnone => ?_)
        rw [hnone, List.length_nil] at htotal
        omega

/-- Three bytes of two blocks come in two pieces into one block. -/
theorem bytes_arrive_in_pieces :
    ∃ sender w,
      Lib.run ByteArray.step (.new 2 fun _ _ => 0) [.write [1, 2], .write [3], .setPosition 0] =
        some sender ∧
      Lib.run (Wire.step 3) (Wire.start 3 sender (.new 4 fun _ _ => 0))
        [.send 2, .recv 1, .send 1, .recv 2] = some w ∧
      w.receiving = .returned 3 ∧ Wrote (.new 4 fun _ _ => 0) [1, 2, 3] w.receiver := by
  have hend : ((Lib.run ByteArray.step (.new 2 fun _ _ => 0)
      [.write [1, 2], .write [3], .setPosition 0]).bind fun sender =>
        (Lib.run (Wire.step 3) (Wire.start 3 sender (.new 4 fun _ _ => 0))
          [.send 2, .recv 1, .send 1, .recv 2]).map fun w =>
            (sender.getReadSize, dataOf 3 sender, w.receiving)) =
      some (3, [1, 2, 3], .returned 3) := by
    decide +kernel
  obtain ⟨sender, hsender, hmap⟩ := Option.bind_eq_some_iff.mp hend
  obtain ⟨w, hrun, hvalues⟩ := Option.map_eq_some_iff.mp hmap
  obtain ⟨havailable, hdata, hreceiving⟩ : sender.getReadSize = 3 ∧ dataOf 3 sender = [1, 2, 3] ∧
      w.receiving = .returned 3 := by
    simpa only [Prod.mk.injEq] using hvalues
  obtain ⟨-, -, -, hreceived, -⟩ := bytes_arrive 2 4 (by decide) (by decide) (fun _ _ => 0)
    (fun _ _ => 0) [.write [1, 2], .write [3], .setPosition 0] [] sender _ hsender rfl 3 (by decide)
    (by decide) (by decide) (by rw [havailable]; decide) (by decide) [.send 2, .recv 1, .send 1, .recv 2] w hrun
  exact ⟨sender, w, hsender, hrun, hreceiving, hdata ▸ (hreceived 3 hreceiving).2.2⟩

/-- Scalars that are written to a fresh array, sent and received into another one are read back
there, whatever the byte orders of the two hosts, when both arrays have the same order. -/
theorem scalars_arrive (senderHost receiverHost : Endian) (senderBase receiverBase : Nat)
    (hsenderBase : 0 < senderBase) (hreceiverBase : 0 < receiverBase)
    (senderFresh receiverFresh : Nat → Nat → UInt8) (little : Bool) (scalars : List Scalar)
    (written sender : ByteArray)
    (hwrite : ByteArray.writeScalars senderHost scalars
      ((ByteArray.new senderBase senderFresh).setIsLittleEndian little) = .ok () written)
    (hseek : setPosition 0 written = .ok () sender) (length : UInt64)
    (hlength : length.toNat = sender.getReadSize)
    (hroom : Sufficient receiverBase receiverBase length.toNat) (events : List Event) (w : Wire)
    (hrun : Lib.run (Wire.step length) (Wire.start length sender
      ((ByteArray.new receiverBase receiverFresh).setIsLittleEndian little)) events = some w)
    (value : Int32) (hvalue : w.receiving = .returned value) :
    ∃ start last, setPosition 0 w.receiver = .ok () start ∧
      ByteArray.readScalars receiverHost (scalars.map Scalar.kind) start = .ok scalars last ∧
      last.getReadSize = 0 := by
  have hfrom := (ByteArray.coherent_new senderBase senderFresh hsenderBase).setIsLittleEndian little
  have hreceiver :=
    (ByteArray.coherent_new receiverBase receiverFresh hreceiverBase).setIsLittleEndian little
  obtain ⟨bytes, hwires, hwritten, -, hsize, hdata⟩ :=
    ByteArray.writeScalars_ok senderHost scalars _ written hfrom rfl hwrite
  obtain ⟨_, hseek', hmoved⟩ := ByteArray.setPosition_ok hwritten 0 (Nat.zero_le _)
  cases hseek'.symm.trans hseek
  have hbytes : dataOf length sender = bytes := by
    have hsenderSize : sender.size = written.size := by
      rw [hmoved.size_eq, Nat.max_eq_left (Nat.zero_le _)]
    rw [dataOf, Lib.slice, hlength, ByteArray.getReadSize, hmoved.position_eq, hmoved.contents_eq,
      hsenderSize]
    exact hdata
  have hsender := hmoved.coherent
  obtain ⟨sent, got, -, hw⟩ := (carried_start hsender hreceiver hroom).run hsender hreceiver
    hlength.le events w hrun
  obtain ⟨-, -, hwrote⟩ := hw.received hsender hlength.le value hvalue
  rw [hbytes] at hwrote
  obtain ⟨start, hback, hstart⟩ := ByteArray.setPosition_ok hwrote.coherent 0 (Nat.zero_le _)
  have hahead := (wrote_nil _ hreceiver).ahead hwrote hstart
  have hwires' : Scalar.wireAll start.endian scalars = .ok bytes := by
    rw [hstart.endian_eq, hwrote.endian_eq]
    exact hwires
  obtain ⟨last, hread, heffect⟩ :=
    ByteArray.readScalars_ok receiverHost scalars bytes start hwires' hahead
  refine ⟨start, last, hback, hread, ?_⟩
  have hend : w.receiver.size = bytes.length := hwrote.size_eq.trans (by
    change max 0 (0 + bytes.length) = bytes.length
    omega)
  rw [ByteArray.getReadSize, heffect.size_eq, heffect.position_eq, hstart.size_eq,
    hstart.position_eq, hend]
  omega

/-- A little-endian host sends two numbers to a big-endian one. -/
theorem scalars_arrive_between_hosts :
    ∃ written sender w start last,
      ByteArray.writeScalars .little [.int32 (-300), .fint16 (-2)]
        ((ByteArray.new 1 fun _ _ => 0).setIsLittleEndian false) = .ok () written ∧
      setPosition 0 written = .ok () sender ∧
      Lib.run (Wire.step 4)
        (Wire.start 4 sender ((ByteArray.new 4 fun _ _ => 0).setIsLittleEndian false))
        [.send 3, .recv 1, .send 1, .recv 3] = some w ∧
      setPosition 0 w.receiver = .ok () start ∧
      ByteArray.readScalars .big [.int32, .fint16] start =
        .ok [.int32 (-300), .fint16 (-2)] last := by
  obtain ⟨written, hwrite, sender, hseek, hend⟩ :
      ∃ written, ByteArray.writeScalars .little [.int32 (-300), .fint16 (-2)]
          ((ByteArray.new 1 fun _ _ => 0).setIsLittleEndian false) = .ok () written ∧
        ∃ sender, setPosition 0 written = .ok () sender ∧
          (Lib.run (Wire.step 4)
            (Wire.start 4 sender ((ByteArray.new 4 fun _ _ => 0).setIsLittleEndian false))
            [.send 3, .recv 1, .send 1, .recv 3]).map
              (fun w => (sender.getReadSize, w.receiving)) = some (4, .returned 4) :=
    ⟨_, rfl, _, rfl, by decide +kernel⟩
  obtain ⟨w, hrun, hvalues⟩ := Option.map_eq_some_iff.mp hend
  obtain ⟨havailable, hreceiving⟩ : sender.getReadSize = 4 ∧ w.receiving = .returned 4 := by
    simpa only [Prod.mk.injEq] using hvalues
  obtain ⟨start, last, hback, hread, -⟩ := scalars_arrive .little .big 1 4 (by decide) (by decide)
    (fun _ _ => 0) (fun _ _ => 0) false [.int32 (-300), .fint16 (-2)] written sender hwrite hseek 4
    havailable.symm (by decide) [.send 3, .recv 1, .send 1, .recv 3] w hrun 4 hreceiving
  exact ⟨written, sender, w, start, last, hwrite, hseek, hrun, hback, hread⟩

end SocketStream
end Sylar
