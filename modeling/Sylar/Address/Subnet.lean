import Sylar.Address.IPv6

/-! Subnets: `broadcastAddress`, `networdAddress` and `subnetMask` of `address.cc`.

`CreateMask` gives the bits of the host part, computed in `int`. A bit of an address is counted
from the front, so that the first `p` bits are those of the network. -/
namespace Sylar

/-- What an `int` result out of range is: the language leaves it undefined, and many compilers
wrap around. -/
inductive Overflow where
  | undefined
  | wraps
deriving DecidableEq, Repr

inductive AddressFault where
  | shiftCount
  | overflow
  | index
deriving DecidableEq, Repr

/-- `CreateMask<T>(bits)` for a `T` of `w` bits. -/
def createMask (overflow : Overflow) (w bits : Nat) : Except AddressFault (BitVec w) :=
  let count := (2 ^ 64 + w - bits) % 2 ^ 64
  if 32 ≤ count then .error .shiftCount
  else
    let mask := Int.bmod (2 ^ count) (2 ^ 32) - 1
    if mask < -2 ^ 31 ∧ overflow = .undefined then .error .overflow
    else .ok (BitVec.ofInt w mask)

/-- `sockaddr_in`. -/
structure IPv4Address where
  sinFamily : BitVec 16
  sinPort : BitVec 16
  sAddr : BitVec 32
  sinZero : BitVec 64
deriving DecidableEq

namespace IPv4Address
variable (host : Endian) (overflow : Overflow)

def broadcastAddress (prefixLen : Nat) (a : IPv4Address) :
    Except AddressFault (Option IPv4Address) :=
  if prefixLen > 32 then .ok none
  else do
    let mask ← createMask overflow 32 prefixLen
    return some { a with sAddr := a.sAddr ||| byteswapOnLittleEndian host mask }

def networdAddress (prefixLen : Nat) (a : IPv4Address) :
    Except AddressFault (Option IPv4Address) :=
  if prefixLen > 32 then .ok none
  else do
    let mask ← createMask overflow 32 prefixLen
    return some { a with sAddr := a.sAddr &&& byteswapOnLittleEndian host mask }

def subnetMask (prefixLen : Nat) : Except AddressFault IPv4Address := do
  let mask ← createMask overflow 32 prefixLen
  return { sinFamily := 2, sinPort := 0, sAddr := ~~~byteswapOnLittleEndian host mask, sinZero := 0 }

def address (a : IPv4Address) : BitVec 32 := byteswapOnLittleEndian host a.sAddr

def bit (a : IPv4Address) (i : Nat) : Bool := (a.address host).getMsbD i

end IPv4Address

/-- `sockaddr_in6`, with the members that `insert` does not read. -/
structure SockaddrIn6 extends IPv6Address where
  sin6Family : BitVec 16
  sin6Flowinfo : BitVec 32
  sin6ScopeId : BitVec 32

namespace SockaddrIn6
variable (overflow : Overflow)

def update (addr : Fin 16 → UInt8) (i : Nat) (f : UInt8 → UInt8) :
    Except AddressFault (Fin 16 → UInt8) :=
  if h : i < 16 then .ok (Function.update addr ⟨i, h⟩ (f (addr ⟨i, h⟩))) else .error .index

/-- The loop `for(int i = first; i < 16; ++i)` that stores `v`. -/
def fillFrom (first : Nat) (v : UInt8) (addr : Fin 16 → UInt8) : Fin 16 → UInt8 :=
  fun i => if first ≤ i.val then v else addr i

def broadcastAddress (prefixLen : Nat) (a : SockaddrIn6) : Except AddressFault SockaddrIn6 := do
  let mask ← createMask overflow 8 (prefixLen % 8)
  let addr ← update a.s6Addr (prefixLen / 8) fun byte => byte ||| UInt8.ofBitVec mask
  return { a with s6Addr := fillFrom (prefixLen / 8 + 1) 0xff addr }

def networdAddress (prefixLen : Nat) (a : SockaddrIn6) : Except AddressFault SockaddrIn6 := do
  let mask ← createMask overflow 8 (prefixLen % 8)
  let addr ← update a.s6Addr (prefixLen / 8) fun byte => byte &&& UInt8.ofBitVec mask
  return { a with s6Addr := fillFrom (prefixLen / 8 + 1) 0 addr }

def subnetMask (prefixLen : Nat) : Except AddressFault SockaddrIn6 := do
  let mask ← createMask overflow 8 (prefixLen % 8)
  let addr ← update (fun _ => 0) (prefixLen / 8) fun _ => ~~~UInt8.ofBitVec mask
  return { s6Addr := fun i => if i.val < prefixLen / 8 then 0xff else addr i
           sin6Port := 0
           sin6Family := 10
           sin6Flowinfo := 0
           sin6ScopeId := 0 }

def bit (a : SockaddrIn6) (i : Nat) : Bool :=
  if h : i / 8 < 16 then (a.s6Addr ⟨i / 8, h⟩).toBitVec.getMsbD (i % 8) else false

end SockaddrIn6

section
variable {w : Nat} (n : Nat) (hw : w = 8 * n)
include hw

theorem getLsbD_byteswap (v : BitVec w) (i : Nat) (hi : i < w) :
    (ByteArray.byteswap v).getLsbD i = v.getLsbD (8 * (n - 1 - i / 8) + i % 8) := by
  subst hw
  have hbyte : i / 8 < n := by omega
  have hreverse : (Lib.leBytes n v.toNat).reverse.getD (i / 8) 0 =
      (Lib.leBytes n v.toNat).getD (n - 1 - i / 8) 0 := by
    rw [List.getD_eq_getElem?_getD, List.getD_eq_getElem?_getD, List.getElem?_reverse
      (by rw [Lib.length_leBytes]; exact hbyte), Lib.length_leBytes]
  rw [ByteArray.byteswap, Nat.mul_div_cancel_left n (by decide), BitVec.getLsbD_ofNat,
    decide_eq_true hi, Bool.true_and, Lib.testBit_leNat, hreverse,
    Lib.testBit_leBytes _ _ _ _ (by omega) (Nat.mod_lt _ (by decide))]
  rfl

theorem byteswap_byteswap (v : BitVec w) : ByteArray.byteswap (ByteArray.byteswap v) = v := by
  apply BitVec.eq_of_getLsbD_eq
  intro i hi
  have hback : 8 * (n - 1 - (8 * (n - 1 - i / 8) + i % 8) / 8) + (8 * (n - 1 - i / 8) + i % 8) % 8 =
      i := by
    omega
  rw [getLsbD_byteswap n hw _ i hi, getLsbD_byteswap n hw _ _ (by omega), hback]

variable (host : Endian)

theorem swap_swap (v : BitVec w) :
    byteswapOnLittleEndian host (byteswapOnLittleEndian host v) = v := by
  cases host with
  | little => exact byteswap_byteswap n hw v
  | big => rfl

theorem swap_and (x y : BitVec w) : byteswapOnLittleEndian host (x &&& y) =
    byteswapOnLittleEndian host x &&& byteswapOnLittleEndian host y := by
  cases host with
  | little =>
    apply BitVec.eq_of_getLsbD_eq
    intro i hi
    simp only [byteswapOnLittleEndian, BitVec.getLsbD_and, getLsbD_byteswap n hw _ i hi]
  | big => rfl

theorem swap_or (x y : BitVec w) : byteswapOnLittleEndian host (x ||| y) =
    byteswapOnLittleEndian host x ||| byteswapOnLittleEndian host y := by
  cases host with
  | little =>
    apply BitVec.eq_of_getLsbD_eq
    intro i hi
    simp only [byteswapOnLittleEndian, BitVec.getLsbD_or, getLsbD_byteswap n hw _ i hi]
  | big => rfl

theorem swap_not (x : BitVec w) :
    byteswapOnLittleEndian host (~~~x) = ~~~byteswapOnLittleEndian host x := by
  cases host with
  | little =>
    apply BitVec.eq_of_getLsbD_eq
    intro i hi
    have hin : 8 * (n - 1 - i / 8) + i % 8 < w := by omega
    simp only [byteswapOnLittleEndian, BitVec.getLsbD_not, getLsbD_byteswap n hw _ i hi, hi, hin]
  | big => rfl

end

/-- The prefixes for which `CreateMask<uint32_t>` stays within `int`. -/
def InInt (overflow : Overflow) (prefixLen : Nat) : Prop :=
  2 ≤ prefixLen ∨ prefixLen = 1 ∧ overflow = .wraps

theorem getMsbD_hostMask (w bits i : Nat) (hbits : bits ≤ w) (hi : i < w) :
    (BitVec.ofInt w (2 ^ (w - bits) - 1)).getMsbD i = decide (bits ≤ i) := by
  have hnat : ((2 : Int) ^ (w - bits) - 1) = ((2 ^ (w - bits) - 1 : Nat) : Int) := by
    have hpos := Nat.one_le_two_pow (n := w - bits)
    push_cast [hpos]
    rfl
  rw [hnat, BitVec.ofInt_natCast, BitVec.getMsbD_eq_getLsbD, BitVec.getLsbD_ofNat,
    Nat.testBit_two_pow_sub_one, decide_eq_true hi, decide_eq_true (show w - 1 - i < w by omega),
    Bool.true_and, Bool.true_and]
  exact decide_eq_decide.mpr (by omega)

theorem createMask_of_small (overflow : Overflow) (w bits : Nat) (hbits : bits ≤ w)
    (hcount : w - bits ≤ 30) :
    createMask overflow w bits = .ok (BitVec.ofInt w (2 ^ (w - bits) - 1)) := by
  have hdiff : (2 ^ 64 + w - bits) % 2 ^ 64 = w - bits := by omega
  have hle : 2 ^ (w - bits) ≤ 2 ^ 30 := Nat.pow_le_pow_right (by decide) hcount
  have hpos : 0 < 2 ^ (w - bits) := Nat.two_pow_pos _
  have hcast : ((2 ^ (w - bits) : Nat) : Int) = 2 ^ (w - bits) := by
    push_cast
    rfl
  have hint : Int.bmod (2 ^ (w - bits)) (2 ^ 32) = 2 ^ (w - bits) := by
    rw [← hcast]
    apply Int.bmod_eq_of_le
    · omega
    · omega
  unfold createMask
  simp only [hdiff, hint]
  rw [if_neg (by omega), if_neg]
  rintro ⟨hlow, -⟩
  omega

theorem createMask_word (overflow : Overflow) (bits : Nat) (hbits : bits ≤ 32)
    (hin : InInt overflow bits) :
    createMask overflow 32 bits = .ok (BitVec.ofInt 32 (2 ^ (32 - bits) - 1)) := by
  rcases hin with htwo | ⟨rfl, rfl⟩
  · exact createMask_of_small overflow 32 bits hbits (by omega)
  · rfl

theorem createMask_fault (overflow : Overflow) (bits : Nat) (hin : ¬ InInt overflow bits) :
    ∃ fault, createMask overflow 32 bits = .error fault := by
  have hsmall : bits = 0 ∨ bits = 1 ∧ overflow = .undefined := by
    rw [InInt, not_or, not_and] at hin
    by_cases hzero : bits = 0
    · exact .inl hzero
    · have hone : bits = 1 := by omega
      cases overflow with
      | undefined => exact .inr ⟨hone, rfl⟩
      | wraps => exact absurd rfl (hin.2 hone)
  rcases hsmall with rfl | ⟨rfl, rfl⟩
  · exact ⟨.shiftCount, rfl⟩
  · exact ⟨.overflow, rfl⟩

theorem eq_zero_of_and_eq {w : Nat} (v mask : BitVec w) (hsame : v &&& mask = v &&& ~~~mask) :
    v = 0 := by
  apply BitVec.eq_of_getLsbD_eq
  intro i hi
  have hbit := congrArg (fun x => x.getLsbD i) hsame
  simp only [BitVec.getLsbD_and, BitVec.getLsbD_not, hi, decide_true, Bool.true_and] at hbit
  rw [BitVec.ofNat_eq_ofNat, BitVec.getLsbD_zero]
  cases hv : v.getLsbD i with
  | false => rfl
  | true =>
    rw [hv] at hbit
    cases hmask : mask.getLsbD i <;> simp [hmask] at hbit

theorem forall_lt_iff (k n : Nat) (hk : k ≤ n) (p : Nat → Prop) :
    (∀ i < n, p i) ↔ (∀ i < k, p i) ∧ ∀ i < n, k ≤ i → p i := by
  constructor
  · intro hall
    exact ⟨fun i hi => hall i (by omega), fun i hi _ => hall i hi⟩
  · rintro ⟨hfront, hback⟩ i hi
    by_cases hki : k ≤ i
    · exact hback i hi hki
    · exact hfront i (by omega)

namespace IPv4Address
variable (host : Endian) (overflow : Overflow)

/-- The network address is the address under the mask: its first `p` bits. -/
structure HasNetwork (p : Nat) (a : IPv4Address) : Prop where
  network : ∃ net mask, networdAddress host overflow p a = .ok (some net) ∧
    subnetMask host overflow p = .ok mask ∧ net = { a with sAddr := a.sAddr &&& mask.sAddr } ∧
    ∀ i < 32, net.bit host i = (decide (i < p) && a.bit host i)

/-- Two addresses have one network address when they agree on the first `p` bits, and only then. -/
structure SameNetwork (p : Nat) (a b : IPv4Address) : Prop where
  network : ∃ net net', networdAddress host overflow p a = .ok (some net) ∧
    networdAddress host overflow p b = .ok (some net') ∧
    (net.address host = net'.address host ↔ ∀ i < p, a.bit host i = b.bit host i)

/-- The mask is the first `p` bits, and the broadcast address sets the others. -/
structure HasBroadcast (p : Nat) (a : IPv4Address) : Prop where
  broadcast : ∃ result mask, broadcastAddress host overflow p a = .ok (some result) ∧
    subnetMask host overflow p = .ok mask ∧
    (∀ i < 32, mask.bit host i = decide (i < p)) ∧
    result = { a with sAddr := a.sAddr ||| ~~~mask.sAddr } ∧
    ∀ i < 32, result.bit host i = (decide (p ≤ i) || a.bit host i)

def hostMask (p : Nat) : BitVec 32 :=
  byteswapOnLittleEndian host (BitVec.ofInt 32 (2 ^ (32 - p) - 1))

section
variable (p : Nat) (hp : p ≤ 32) (a : IPv4Address)
include hp

theorem swap_hostMask (i : Nat) (hi : i < 32) :
    (byteswapOnLittleEndian host (hostMask host p)).getMsbD i = decide (p ≤ i) := by
  rw [hostMask, swap_swap 4 rfl, getMsbD_hostMask 32 p i hp hi]

theorem bit_and (i : Nat) (hi : i < 32) :
    bit host { a with sAddr := a.sAddr &&& hostMask host p } i =
      (a.bit host i && decide (p ≤ i)) := by
  rw [bit, address, swap_and 4 rfl, BitVec.getMsbD_and, swap_hostMask host p hp i hi]
  rfl

theorem bit_or (i : Nat) (hi : i < 32) :
    bit host { a with sAddr := a.sAddr ||| hostMask host p } i =
      (a.bit host i || decide (p ≤ i)) := by
  rw [bit, address, swap_or 4 rfl, BitVec.getMsbD_or, swap_hostMask host p hp i hi]
  rfl

theorem bit_not (i : Nat) (hi : i < 32) :
    bit host { a with sAddr := ~~~hostMask host p } i = decide (i < p) := by
  rw [bit, address, swap_not 4 rfl, BitVec.getMsbD_not, swap_hostMask host p hp i hi,
    decide_eq_true hi, Bool.true_and, ← decide_not]
  exact decide_eq_decide.mpr Nat.not_le

variable (hin : InInt overflow p)
include hin

theorem networdAddress_ok : networdAddress host overflow p a =
    .ok (some { a with sAddr := a.sAddr &&& hostMask host p }) := by
  unfold networdAddress
  rw [if_neg (by omega), createMask_word overflow p hp hin]
  rfl

theorem broadcastAddress_ok : broadcastAddress host overflow p a =
    .ok (some { a with sAddr := a.sAddr ||| hostMask host p }) := by
  unfold broadcastAddress
  rw [if_neg (by omega), createMask_word overflow p hp hin]
  rfl

theorem subnetMask_ok : subnetMask host overflow p =
    .ok { sinFamily := 2, sinPort := 0, sAddr := ~~~hostMask host p, sinZero := 0 } := by
  unfold subnetMask
  rw [createMask_word overflow p hp hin]
  rfl

end

theorem subnetMask_fault (p : Nat) (hin : ¬ InInt overflow p) :
    ∃ fault, subnetMask host overflow p = .error fault := by
  obtain ⟨fault, hfault⟩ := createMask_fault overflow p hin
  refine ⟨fault, ?_⟩
  unfold subnetMask
  rw [hfault]
  rfl

theorem inInt_of_subnetMask (p : Nat) (mask : IPv4Address)
    (hmask : subnetMask host overflow p = .ok mask) : InInt overflow p := by
  by_contra hin
  obtain ⟨fault, hfault⟩ := subnetMask_fault host overflow p hin
  rw [hfault] at hmask
  cases hmask

theorem hasBroadcast_iff (p : Nat) (hp : p ≤ 32) (a : IPv4Address) :
    HasBroadcast host overflow p a ↔ InInt overflow p := by
  constructor
  · rintro ⟨result, mask, -, hmask, -⟩
    exact inInt_of_subnetMask host overflow p mask hmask
  · intro hin
    refine ⟨_, _, broadcastAddress_ok host overflow p hp a hin, subnetMask_ok host overflow p hp hin,
      ?_, ?_, ?_⟩
    · intro i hi
      exact bit_not host p hp ⟨2, 0, 0, 0⟩ i hi
    · rw [BitVec.not_not]
    · intro i hi
      rw [bit_or host p hp a i hi, Bool.or_comm]

theorem address_eq_iff (a b : IPv4Address) :
    a.address host = b.address host ↔ ∀ i < 32, a.bit host i = b.bit host i := by
  constructor
  · intro hsame i _
    rw [bit, hsame]
    rfl
  · intro hbits
    exact BitVec.eq_of_getMsbD_eq hbits

theorem sAddr_eq_iff (a b : IPv4Address) :
    a.sAddr = b.sAddr ↔ a.address host = b.address host := by
  constructor
  · intro hsame
    rw [address, hsame]
    rfl
  · intro hsame
    rw [← swap_swap 4 rfl host a.sAddr, ← swap_swap 4 rfl host b.sAddr]
    exact congrArg _ hsame

theorem hasNetwork_iff (p : Nat) (hp : p ≤ 32) (a : IPv4Address) :
    HasNetwork host overflow p a ↔ InInt overflow p ∧ a.sAddr = 0 := by
  constructor
  · rintro ⟨net, mask, hnet, hmask, hsame, -⟩
    have hin := inInt_of_subnetMask host overflow p mask hmask
    rw [networdAddress_ok host overflow p hp a hin] at hnet
    rw [subnetMask_ok host overflow p hp hin] at hmask
    cases hnet
    cases hmask
    exact ⟨hin, eq_zero_of_and_eq _ _ (congrArg sAddr hsame)⟩
  · rintro ⟨hin, hzero⟩
    refine ⟨_, _, networdAddress_ok host overflow p hp a hin, subnetMask_ok host overflow p hp hin,
      ?_, ?_⟩
    · rw [hzero, BitVec.ofNat_eq_ofNat, BitVec.zero_and, BitVec.zero_and]
    · intro i hi
      have hbit : a.bit host i = false := by
        rw [bit, address, hzero]
        cases host with
        | little => exact BitVec.getMsbD_zero
        | big => exact BitVec.getMsbD_zero
      rw [bit_and host p hp a i hi, hbit, Bool.false_and, Bool.and_false]

theorem address_network_iff (p : Nat) (hp : p ≤ 32) (hin : InInt overflow p)
    (a b net net' : IPv4Address) (ha : networdAddress host overflow p a = .ok (some net))
    (hb : networdAddress host overflow p b = .ok (some net')) :
    net.address host = net'.address host ↔ ∀ i < 32, p ≤ i → a.bit host i = b.bit host i := by
  rw [networdAddress_ok host overflow p hp _ hin] at ha hb
  cases ha
  cases hb
  rw [address_eq_iff]
  apply forall₂_congr
  intro i hi
  rw [bit_and host p hp a i hi, bit_and host p hp b i hi]
  by_cases hpi : p ≤ i
  · simp [hpi]
  · simp [hpi]

theorem sameNetwork_iff (p : Nat) (hp : p ≤ 32) (a b : IPv4Address) :
    SameNetwork host overflow p a b ↔ InInt overflow p ∧
      (a.sAddr = b.sAddr ∨ (∃ i < p, a.bit host i ≠ b.bit host i) ∧
        ∃ i < 32, p ≤ i ∧ a.bit host i ≠ b.bit host i) := by
  by_cases hin : InInt overflow p
  · have hall : a.sAddr = b.sAddr ↔ (∀ i < p, a.bit host i = b.bit host i) ∧
        ∀ i < 32, p ≤ i → a.bit host i = b.bit host i := by
      rw [sAddr_eq_iff host, address_eq_iff, forall_lt_iff p 32 hp]
    have hexact : SameNetwork host overflow p a b ↔
        ((∀ i < 32, p ≤ i → a.bit host i = b.bit host i) ↔
          ∀ i < p, a.bit host i = b.bit host i) := by
      constructor
      · rintro ⟨net, net', ha, hb, hiff⟩
        rw [address_network_iff host overflow p hp hin a b net net' ha hb] at hiff
        exact hiff
      · intro hiff
        have ha := networdAddress_ok host overflow p hp a hin
        have hb := networdAddress_ok host overflow p hp b hin
        exact ⟨_, _, ha, hb,
          (address_network_iff host overflow p hp hin a b _ _ ha hb).trans hiff⟩
    have hfront : (∃ i < p, a.bit host i ≠ b.bit host i) ↔
        ¬ ∀ i < p, a.bit host i = b.bit host i := by
      simp only [not_forall, exists_prop]
    have hback : (∃ i < 32, p ≤ i ∧ a.bit host i ≠ b.bit host i) ↔
        ¬ ∀ i < 32, p ≤ i → a.bit host i = b.bit host i := by
      simp only [not_forall, exists_prop]
    rw [and_iff_right hin, hexact, hall, hfront, hback]
    exact Iff.comm.trans iff_iff_and_or_not_and_not
  · refine iff_of_false ?_ (fun hboth => hin hboth.1)
    rintro ⟨net, net', ha, -⟩
    obtain ⟨fault, hfault⟩ := createMask_fault overflow p hin
    unfold networdAddress at ha
    rw [if_neg (by omega), hfault] at ha
    cases ha

theorem networdAddress_idempotent (p : Nat) (a net : IPv4Address)
    (hnet : networdAddress host overflow p a = .ok (some net)) :
    networdAddress host overflow p net = .ok (some net) := by
  unfold networdAddress at hnet ⊢
  split at hnet
  · cases hnet
  · cases hmask : createMask overflow 32 p with
    | error fault =>
      rw [hmask] at hnet
      cases hnet
    | ok mask =>
      rw [hmask] at hnet
      cases hnet
      rename_i hp
      rw [if_neg hp]
      change Except.ok (some _) = Except.ok (some _)
      rw [BitVec.and_assoc, BitVec.and_self]

end IPv4Address

namespace SockaddrIn6
variable (overflow : Overflow)

structure HasNetwork (p : Nat) (a : SockaddrIn6) : Prop where
  network : ∃ net mask, networdAddress overflow p a = .ok net ∧ subnetMask overflow p = .ok mask ∧
    net = { a with s6Addr := fun i => a.s6Addr i &&& mask.s6Addr i } ∧
    ∀ i < 128, net.bit i = (decide (i < p) && a.bit i)

structure SameNetwork (p : Nat) (a b : SockaddrIn6) : Prop where
  network : ∃ net net', networdAddress overflow p a = .ok net ∧
    networdAddress overflow p b = .ok net' ∧
    (net.s6Addr = net'.s6Addr ↔ ∀ i < p, a.bit i = b.bit i)

structure HasBroadcast (p : Nat) (a : SockaddrIn6) : Prop where
  broadcast : ∃ result mask, broadcastAddress overflow p a = .ok result ∧
    subnetMask overflow p = .ok mask ∧ (∀ i < 128, mask.bit i = decide (i < p)) ∧
    result = { a with s6Addr := fun i => a.s6Addr i ||| ~~~mask.s6Addr i } ∧
    ∀ i < 128, result.bit i = (decide (p ≤ i) || a.bit i)

/-- The host part of the byte that has bit `p`. -/
def hostByte (p : Nat) : UInt8 := UInt8.ofBitVec (BitVec.ofInt 8 (2 ^ (8 - p % 8) - 1))

theorem createMask_hostByte (p : Nat) :
    createMask overflow 8 (p % 8) = .ok (hostByte p).toBitVec :=
  createMask_of_small overflow 8 (p % 8) (Nat.le_of_lt (Nat.mod_lt p (by decide))) (by omega)

theorem bit_hostByte (p i : Nat) :
    (hostByte p).toBitVec.getMsbD (i % 8) = decide (p % 8 ≤ i % 8) :=
  getMsbD_hostMask 8 (p % 8) (i % 8) (Nat.le_of_lt (Nat.mod_lt p (by decide)))
    (Nat.mod_lt i (by decide))

theorem update_ok (addr : Fin 16 → UInt8) (i : Nat) (f : UInt8 → UInt8) (hi : i < 16) :
    update addr i f = .ok fun j => if j.val = i then f (addr j) else addr j := by
  rw [update, dif_pos hi]
  congr 1
  funext j
  by_cases hj : j.val = i
  · obtain rfl : j = ⟨i, hi⟩ := Fin.ext hj
    rw [Function.update_self, if_pos rfl]
  · rw [Function.update_of_ne (fun hsame => hj (congrArg Fin.val hsame)), if_neg hj]

theorem update_fault (addr : Fin 16 → UInt8) (i : Nat) (f : UInt8 → UInt8) (hi : ¬ i < 16) :
    update addr i f = .error .index :=
  dif_neg hi

section
variable (p : Nat) (hp : p < 128) (a : SockaddrIn6)
include hp

theorem networdAddress_ok : networdAddress overflow p a =
    .ok { a with s6Addr := fun i => if p / 8 + 1 ≤ i.val then 0
      else if i.val = p / 8 then a.s6Addr i &&& hostByte p else a.s6Addr i } := by
  unfold networdAddress
  rw [createMask_hostByte]
  change (update _ _ _ >>= _) = _
  rw [update_ok _ _ _ (by omega)]
  rfl

theorem broadcastAddress_ok : broadcastAddress overflow p a =
    .ok { a with s6Addr := fun i => if p / 8 + 1 ≤ i.val then 0xff
      else if i.val = p / 8 then a.s6Addr i ||| hostByte p else a.s6Addr i } := by
  unfold broadcastAddress
  rw [createMask_hostByte]
  change (update _ _ _ >>= _) = _
  rw [update_ok _ _ _ (by omega)]
  rfl

def maskByte (p : Nat) (i : Fin 16) : UInt8 :=
  if i.val < p / 8 then 0xff else if i.val = p / 8 then ~~~hostByte p else 0

theorem subnetMask_ok : subnetMask overflow p =
    .ok { s6Addr := maskByte p, sin6Port := 0, sin6Family := 10, sin6Flowinfo := 0,
          sin6ScopeId := 0 } := by
  unfold subnetMask
  rw [createMask_hostByte]
  change (update _ _ _ >>= _) = _
  rw [update_ok _ _ _ (by omega)]
  rfl

end

theorem bit_eq (a : SockaddrIn6) (i : Nat) (hi : i / 8 < 16) :
    a.bit i = (a.s6Addr ⟨i / 8, hi⟩).toBitVec.getMsbD (i % 8) :=
  dif_pos hi

theorem bit_maskByte (p i : Nat) (hi : i / 8 < 16) :
    (maskByte p ⟨i / 8, hi⟩).toBitVec.getMsbD (i % 8) = decide (i < p) := by
  have hin : i % 8 < 8 := Nat.mod_lt i (by decide)
  have hones : (0xff : UInt8).toBitVec = BitVec.allOnes 8 := by decide
  have hzeros : (0 : UInt8).toBitVec = 0#8 := by decide
  unfold maskByte
  dsimp only
  split
  · rw [hones, BitVec.getMsbD_allOnes, decide_eq_true hin, decide_eq_true (by omega)]
  · split
    · rw [UInt8.toBitVec_not, BitVec.getMsbD_not, bit_hostByte, decide_eq_true hin, Bool.true_and,
        ← decide_not]
      exact decide_eq_decide.mpr (by omega)
    · rw [hzeros, BitVec.getMsbD_zero, decide_eq_false (by omega)]

theorem s6Addr_eq_iff (a b : SockaddrIn6) :
    a.s6Addr = b.s6Addr ↔ ∀ i < 128, a.bit i = b.bit i := by
  constructor
  · intro hsame i _
    rw [bit, hsame]
    rfl
  · intro hbits
    funext j
    apply UInt8.eq_of_toBitVec_eq
    apply BitVec.eq_of_getMsbD_eq
    intro k hk
    have hj := j.isLt
    have hdiv : (8 * j.val + k) / 8 = j.val := by omega
    have hmod : (8 * j.val + k) % 8 = k := by omega
    have hbit := hbits (8 * j.val + k) (by omega)
    rw [bit_eq a _ (by omega), bit_eq b _ (by omega)] at hbit
    simp only [hdiv, hmod] at hbit
    exact hbit

/-- The bits that the code keeps: the bytes before, and the host part of the byte that has bit
`p`. -/
def Kept (p i : Nat) : Prop := i < 8 * (p / 8) ∨ p ≤ i ∧ i < 8 * (p / 8) + 8

instance (p i : Nat) : Decidable (Kept p i) := inferInstanceAs (Decidable (_ ∨ _))

theorem bit_network (p : Nat) (a net : SockaddrIn6) (hp : p < 128)
    (hnet : networdAddress overflow p a = .ok net) (i : Nat) (hi : i < 128) :
    net.bit i = (decide (Kept p i) && a.bit i) := by
  have hbyte : i / 8 < 16 := by omega
  have hzeros : (0 : UInt8).toBitVec = 0#8 := by decide
  rw [networdAddress_ok overflow p hp a] at hnet
  cases hnet
  rw [bit_eq _ i hbyte, bit_eq a i hbyte]
  dsimp only
  split
  · rw [hzeros, BitVec.getMsbD_zero, decide_eq_false (by unfold Kept; omega), Bool.false_and]
  · split
    · have hkept : Kept p i ↔ p % 8 ≤ i % 8 := by
        unfold Kept
        omega
      rw [UInt8.toBitVec_and, BitVec.getMsbD_and, bit_hostByte, Bool.and_comm,
        decide_eq_decide.mpr hkept]
    · rw [decide_eq_true (by unfold Kept; omega), Bool.true_and]

theorem subnetMask_fault (p : Nat) (hp : ¬ p < 128) : subnetMask overflow p = .error .index := by
  unfold subnetMask
  rw [createMask_hostByte]
  change (update _ _ _ >>= _) = _
  rw [update_fault _ _ _ (by omega)]
  rfl

theorem networdAddress_fault (p : Nat) (hp : ¬ p < 128) (a : SockaddrIn6) :
    networdAddress overflow p a = .error .index := by
  unfold networdAddress
  rw [createMask_hostByte]
  change (update _ _ _ >>= _) = _
  rw [update_fault _ _ _ (by omega)]
  rfl

theorem or_not_maskByte (p : Nat) (byte : UInt8) (i : Fin 16) :
    byte ||| ~~~maskByte p i = if p / 8 + 1 ≤ i.val then 0xff
      else if i.val = p / 8 then byte ||| hostByte p else byte := by
  have hones : byte ||| ~~~0 = 0xff := by
    apply UInt8.eq_of_toBitVec_eq
    exact BitVec.or_allOnes
  have hzeros : byte ||| ~~~0xff = byte := UInt8.or_zero
  unfold maskByte
  rcases Nat.lt_trichotomy i.val (p / 8) with hbefore | hhere | hbehind
  · rw [if_pos hbefore, if_neg (by omega), if_neg (by omega), hzeros]
  · rw [if_neg (by omega), if_pos hhere, if_neg (by omega), if_pos hhere, UInt8.not_not]
  · rw [if_neg (by omega), if_neg (by omega), if_pos (by omega), hones]

theorem hasBroadcast_iff (p : Nat) (a : SockaddrIn6) :
    HasBroadcast overflow p a ↔ p < 128 := by
  constructor
  · rintro ⟨result, mask, -, hmask, -⟩
    by_contra hp
    rw [subnetMask_fault overflow p hp] at hmask
    cases hmask
  · intro hp
    have hresult : (fun i : Fin 16 => if p / 8 + 1 ≤ i.val then 0xff
        else if i.val = p / 8 then a.s6Addr i ||| hostByte p else a.s6Addr i) =
        fun i => a.s6Addr i ||| ~~~maskByte p i := by
      funext i
      exact (or_not_maskByte p (a.s6Addr i) i).symm
    refine ⟨_, _, broadcastAddress_ok overflow p hp a, subnetMask_ok overflow p hp, ?_, ?_, ?_⟩
    · intro i hi
      exact (bit_eq _ i (by omega)).trans (bit_maskByte p i (by omega))
    · rw [hresult]
    · intro i hi
      rw [hresult, bit_eq _ i (by omega), bit_eq a i (by omega), UInt8.toBitVec_or,
        UInt8.toBitVec_not, BitVec.getMsbD_or, BitVec.getMsbD_not, bit_maskByte,
        decide_eq_true (Nat.mod_lt i (by decide)), Bool.true_and, ← decide_not, Bool.or_comm]
      congr 1
      exact decide_eq_decide.mpr Nat.not_lt

theorem hasNetwork_iff (p : Nat) (a : SockaddrIn6) :
    HasNetwork overflow p a ↔ ∃ hbyte : p / 8 < 16, a.s6Addr ⟨p / 8, hbyte⟩ = 0 := by
  constructor
  · rintro ⟨net, mask, hnet, hmask, hsame, -⟩
    by_cases hp : p < 128
    · rw [networdAddress_ok overflow p hp a] at hnet
      rw [subnetMask_ok overflow p hp] at hmask
      cases hnet
      cases hmask
      have hbyte : p / 8 < 16 := by omega
      refine ⟨hbyte, ?_⟩
      have hhere := congrFun (congrArg (fun x : SockaddrIn6 => x.s6Addr) hsame) ⟨p / 8, hbyte⟩
      dsimp only [maskByte] at hhere
      rw [if_neg (by omega), if_pos rfl, if_neg (by omega), if_pos rfl] at hhere
      apply UInt8.eq_of_toBitVec_eq
      apply eq_zero_of_and_eq _ (hostByte p).toBitVec
      rw [← UInt8.toBitVec_and, hhere, UInt8.toBitVec_and, UInt8.toBitVec_not]
    · rw [subnetMask_fault overflow p hp] at hmask
      cases hmask
  · rintro ⟨hbyte, hzero⟩
    have hp : p < 128 := by omega
    have hbytes : (fun i : Fin 16 => if p / 8 + 1 ≤ i.val then 0
        else if i.val = p / 8 then a.s6Addr i &&& hostByte p else a.s6Addr i) =
        fun i => a.s6Addr i &&& maskByte p i := by
      funext i
      unfold maskByte
      rcases Nat.lt_trichotomy i.val (p / 8) with hbefore | hhere | hbehind
      · rw [if_pos hbefore, if_neg (by omega), if_neg (by omega)]
        exact UInt8.and_neg_one.symm
      · obtain rfl : i = ⟨p / 8, hbyte⟩ := Fin.ext hhere
        rw [if_neg (by omega), if_pos rfl, if_neg (by omega), if_pos rfl, hzero, UInt8.zero_and,
          UInt8.zero_and]
      · rw [if_pos (show p / 8 + 1 ≤ i.val by omega), if_neg (by omega), if_neg (by omega),
          UInt8.and_zero]
    refine ⟨_, _, networdAddress_ok overflow p hp a, subnetMask_ok overflow p hp, ?_, ?_⟩
    · rw [hbytes]
    · intro i hi
      rw [hbytes, bit_eq _ i (by omega), bit_eq a i (by omega), UInt8.toBitVec_and,
        BitVec.getMsbD_and, bit_maskByte, Bool.and_comm]

theorem s6Addr_network_iff (p : Nat) (hp : p < 128) (a b net net' : SockaddrIn6)
    (ha : networdAddress overflow p a = .ok net) (hb : networdAddress overflow p b = .ok net') :
    net.s6Addr = net'.s6Addr ↔ (∀ i < 8 * (p / 8), a.bit i = b.bit i) ∧
      ∀ i < 8 * (p / 8) + 8, p ≤ i → a.bit i = b.bit i := by
  rw [s6Addr_eq_iff]
  constructor
  · intro hsame
    have hkept : ∀ i < 128, Kept p i → a.bit i = b.bit i := by
      intro i hi hkept
      have hbit := hsame i hi
      rw [bit_network overflow p a net hp ha i hi, bit_network overflow p b net' hp hb i hi,
        decide_eq_true hkept, Bool.true_and, Bool.true_and] at hbit
      exact hbit
    exact ⟨fun i hi => hkept i (by omega) (.inl hi),
      fun i hi hpi => hkept i (by omega) (.inr ⟨hpi, hi⟩)⟩
  · rintro ⟨hbefore, hhere⟩ i hi
    rw [bit_network overflow p a net hp ha i hi, bit_network overflow p b net' hp hb i hi]
    by_cases hkept : Kept p i
    · have hbit : a.bit i = b.bit i := by
        rcases hkept with hlt | ⟨hpi, hlt⟩
        · exact hbefore i hlt
        · exact hhere i hlt hpi
      rw [hbit]
    · rw [decide_eq_false hkept, Bool.false_and, Bool.false_and]

theorem sameNetwork_iff (p : Nat) (a b : SockaddrIn6) :
    SameNetwork overflow p a b ↔ p < 128 ∧
      ((∃ i < 8 * (p / 8), a.bit i ≠ b.bit i) ∨
        ((∀ i < 8 * (p / 8) + 8, p ≤ i → a.bit i = b.bit i) ↔
          ∀ i < p, 8 * (p / 8) ≤ i → a.bit i = b.bit i)) := by
  by_cases hp : p < 128
  · have hfirst := forall_lt_iff (8 * (p / 8)) p (by omega) fun i => a.bit i = b.bit i
    have hdiffer : (∃ i < 8 * (p / 8), a.bit i ≠ b.bit i) ↔
        ¬ ∀ i < 8 * (p / 8), a.bit i = b.bit i := by
      simp only [not_forall, exists_prop]
    rw [and_iff_right hp, hdiffer, ← imp_iff_not_or, ← and_congr_right_iff]
    constructor
    · rintro ⟨net, net', ha, hb, hiff⟩
      rw [s6Addr_network_iff overflow p hp a b net net' ha hb, hfirst] at hiff
      exact hiff
    · intro hiff
      have ha := networdAddress_ok overflow p hp a
      have hb := networdAddress_ok overflow p hp b
      refine ⟨_, _, ha, hb, ?_⟩
      rw [s6Addr_network_iff overflow p hp a b _ _ ha hb, hfirst]
      exact hiff
  · refine iff_of_false ?_ (fun hboth => hp hboth.1)
    rintro ⟨net, net', ha, -⟩
    rw [networdAddress_fault overflow p hp a] at ha
    cases ha

theorem networdAddress_idempotent (p : Nat) (a net : SockaddrIn6)
    (hnet : networdAddress overflow p a = .ok net) : networdAddress overflow p net = .ok net := by
  by_cases hp : p < 128
  · rw [networdAddress_ok overflow p hp] at hnet ⊢
    cases hnet
    congr 3
    funext i
    dsimp only
    split
    · rfl
    · split
      · rw [UInt8.and_assoc, UInt8.and_self]
      · rfl
  · rw [networdAddress_fault overflow p hp a] at hnet
    cases hnet

end SockaddrIn6

/-- When `networdAddress` is the address under the mask: for IPv4 at the zero address, for IPv6
where the byte of bit `p` is zero. It is idempotent all the same. Since the code compares the
other part, it tells two addresses apart as it should where both parts agree or both differ. -/
theorem networdAddress_masks_iff (host : Endian) (overflow : Overflow) :
    (∀ p ≤ 32,
      (∀ a, IPv4Address.HasNetwork host overflow p a ↔ InInt overflow p ∧ a.sAddr = 0) ∧
      (∀ a net, IPv4Address.networdAddress host overflow p a = .ok (some net) →
        IPv4Address.networdAddress host overflow p net = .ok (some net)) ∧
      ∀ a b, IPv4Address.SameNetwork host overflow p a b ↔ InInt overflow p ∧
        (a.sAddr = b.sAddr ∨ (∃ i < p, a.bit host i ≠ b.bit host i) ∧
          ∃ i < 32, p ≤ i ∧ a.bit host i ≠ b.bit host i)) ∧
    ∀ p ≤ 128,
      (∀ a, SockaddrIn6.HasNetwork overflow p a ↔
        ∃ hbyte : p / 8 < 16, a.s6Addr ⟨p / 8, hbyte⟩ = 0) ∧
      (∀ a net, SockaddrIn6.networdAddress overflow p a = .ok net →
        SockaddrIn6.networdAddress overflow p net = .ok net) ∧
      ∀ a b, SockaddrIn6.SameNetwork overflow p a b ↔ p < 128 ∧
        ((∃ i < 8 * (p / 8), a.bit i ≠ b.bit i) ∨
          ((∀ i < 8 * (p / 8) + 8, p ≤ i → a.bit i = b.bit i) ↔
            ∀ i < p, 8 * (p / 8) ≤ i → a.bit i = b.bit i)) := by
  constructor
  · intro p hp
    exact ⟨IPv4Address.hasNetwork_iff host overflow p hp,
      IPv4Address.networdAddress_idempotent host overflow p,
      IPv4Address.sameNetwork_iff host overflow p hp⟩
  · intro p _
    exact ⟨SockaddrIn6.hasNetwork_iff overflow p, SockaddrIn6.networdAddress_idempotent overflow p,
      SockaddrIn6.sameNetwork_iff overflow p⟩

/-- `fe80::host`. -/
def linkLocal (host : UInt8) : SockaddrIn6 where
  s6Addr := fun i => if i = 0 then 0xfe else if i = 1 then 0x80 else if i = 15 then host else 0
  sin6Port := 0
  sin6Family := 10
  sin6Flowinfo := 0
  sin6ScopeId := 0

/-- Of a link-local address the network of 64 bits is right, and so is that two hosts share it. -/
theorem networdAddress_masks_iff_link_local :
    IPv4Address.HasNetwork .little .undefined 24 ⟨2, 0, 0, 0⟩ ∧
      SockaddrIn6.HasNetwork .undefined 64 (linkLocal 1) ∧
      SockaddrIn6.SameNetwork .undefined 64 (linkLocal 1) (linkLocal 2) := by
  obtain ⟨hword, hbytes⟩ := networdAddress_masks_iff .little .undefined
  obtain ⟨hnetwork, -, hsame⟩ := hbytes 64 (by decide)
  refine ⟨((hword 24 (by decide)).1 _).mpr ⟨.inl (by decide), rfl⟩,
    (hnetwork (linkLocal 1)).mpr ⟨by decide, by decide⟩, (hsame _ _).mpr ⟨by decide, .inr ?_⟩⟩
  refine iff_of_true ?_ ?_
  · decide
  · intro i hlt hge
    omega

/-- The network of 10.0.1.2 with 24 bits comes out as 0.0.0.2. -/
theorem networdAddress_keeps_host_part :
    ∃ net, IPv4Address.networdAddress .little .undefined 24 ⟨2, 0, 0x0201000A, 0⟩ = .ok (some net) ∧
      IPv4Address.address .little ⟨2, 0, 0x0201000A, 0⟩ = 0x0A000102 ∧
      net.address .little = 0x00000002 ∧
      ¬ IPv4Address.HasNetwork .little .undefined 24 ⟨2, 0, 0x0201000A, 0⟩ := by
  refine ⟨_, rfl, by decide, by decide, ?_⟩
  rw [IPv4Address.hasNetwork_iff _ _ _ (by decide)]
  rintro ⟨-, hzero⟩
  revert hzero
  decide

/-- `subnetMask` and `broadcastAddress` are right wherever `CreateMask` stays within `int` and the
byte of bit `p` is within the address. -/
theorem broadcastAddress_masks_iff (host : Endian) (overflow : Overflow) :
    (∀ p ≤ 32, ∀ a, IPv4Address.HasBroadcast host overflow p a ↔ InInt overflow p) ∧
    ∀ p ≤ 128, ∀ a, SockaddrIn6.HasBroadcast overflow p a ↔ p < 128 := by
  constructor
  · intro p hp a
    exact IPv4Address.hasBroadcast_iff host overflow p hp a
  · intro p _ a
    exact SockaddrIn6.hasBroadcast_iff overflow p a

theorem broadcastAddress_masks_iff_word :
    IPv4Address.HasBroadcast .little .undefined 32 ⟨2, 0, 0x0201000A, 0⟩ ∧
      SockaddrIn6.HasBroadcast .undefined 65 (linkLocal 1) := by
  obtain ⟨hword, hbytes⟩ := broadcastAddress_masks_iff .little .undefined
  exact ⟨(hword 32 (by decide) _).mpr (.inl (by decide)), (hbytes 65 (by decide) _).mpr (by decide)⟩

/-- The ends of the ranges: an `int` shifted by 32, and `s6_addr[16]`. -/
theorem broadcastAddress_masks_ends :
    IPv4Address.broadcastAddress .little .wraps 0 ⟨2, 0, 0x0201000A, 0⟩ = .error .shiftCount ∧
      ¬ IPv4Address.HasBroadcast .little .wraps 0 ⟨2, 0, 0x0201000A, 0⟩ ∧
      SockaddrIn6.broadcastAddress .wraps 128 ⟨⟨fun _ => 0, 0⟩, 10, 0, 0⟩ = .error .index ∧
      ¬ SockaddrIn6.HasBroadcast .wraps 128 ⟨⟨fun _ => 0, 0⟩, 10, 0, 0⟩ := by
  refine ⟨rfl, ?_, rfl, ?_⟩
  · rintro ⟨result, mask, hresult, -⟩
    cases hresult
  · rintro ⟨result, mask, hresult, -⟩
    cases hresult

end Sylar
