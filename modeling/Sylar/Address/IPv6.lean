import Sylar.ByteArray.RoundTrip
import Sylar.Lib.Hex

/-! How `IPv6Address::insert` writes an address, against what the text means.

The loop skips zero groups until a group follows one of them; there it writes the two colons, and
from there on every group. So the first run of zeros is what the colons stand for, whatever its
length. The meaning of a text is stated apart from the code, by a parser of the textual forms of
IPv6 addresses: eight groups, or fewer with one double colon for the zeros that are missing. -/
namespace Sylar

/-- `m_addr`: the bytes of the address in the order of the network, and the port as it is kept. -/
structure IPv6Address where
  s6Addr : Fin 16 → UInt8
  sin6Port : BitVec 16

def byteswapOnLittleEndian (host : Endian) {w : Nat} (v : BitVec w) : BitVec w :=
  match host with
  | .little => ByteArray.byteswap v
  | .big => v

namespace IPv6Address

/-- The two bytes at `addr + i`. -/
def memory (a : IPv6Address) (i : Fin 8) : List UInt8 :=
  [a.s6Addr ⟨2 * i.val, by have := i.isLt; omega⟩, a.s6Addr ⟨2 * i.val + 1, by have := i.isLt; omega⟩]

def addr (host : Endian) (a : IPv6Address) : List (BitVec 16) :=
  (List.finRange 8).map fun i => ByteArray.ofMemory host 16 (a.memory i)

/-- `os << std::hex << (int)byteswapOnLittleEndian(addr[i]) << std::dec`. -/
def hex (host : Endian) (group : BitVec 16) : List Char :=
  Nat.toDigits 16 (byteswapOnLittleEndian host group).toNat

/-- The loop of `insert`: what it writes, and `used_zeros` at its end. `before` is `addr[i - 1]`,
absent when `i` is 0. -/
def insertLoop (host : Endian) : Option (BitVec 16) → Bool → List (BitVec 16) → List Char × Bool
  | _, usedZeros, [] => ([], usedZeros)
  | before, usedZeros, group :: rest =>
    if group = 0 ∧ usedZeros = false then insertLoop host (some group) usedZeros rest
    else
      let first := decide (before = some 0) && !usedZeros
      let (text, usedZeros) := insertLoop host (some group) (usedZeros || first) rest
      ((if first then [':'] else []) ++ (if before.isSome then [':'] else []) ++ hex host group ++ text,
        usedZeros)

def insertGroups (host : Endian) (groups : List (BitVec 16)) : List Char :=
  let (text, usedZeros) := insertLoop host none false groups
  if usedZeros = false ∧ groups[7]? = some 0 then text ++ [':', ':'] else text

def insert (host : Endian) (a : IPv6Address) : List Char :=
  '[' :: insertGroups host (a.addr host) ++ [']', ':'] ++
    Nat.toDigits 10 (byteswapOnLittleEndian host a.sin6Port).toNat

def findDouble : List Char → Option (List Char × List Char)
  | [] => none
  | [_] => none
  | c :: d :: rest =>
    if c = ':' ∧ d = ':' then some ([], rest)
    else (findDouble (d :: rest)).map fun parts => (c :: parts.1, parts.2)

def parseGroup (field : List Char) : Option Nat :=
  if field ≠ [] ∧ field.length ≤ 4 then Lib.hexValue field else none

/-- Groups with a colon between them; there may be none beside a double colon. -/
def parseRow (text : List Char) : Option (List Nat) :=
  if text = [] then some [] else (text.splitOn ':').mapM parseGroup

def parse (text : List Char) : Option (List Nat) :=
  match findDouble text with
  | none => do
    let groups ← parseRow text
    if groups.length = 8 then some groups else none
  | some (left, right) => do
    let left ← parseRow left
    let right ← parseRow right
    if left.length + right.length ≤ 7 then
      some (left ++ List.replicate (8 - (left.length + right.length)) 0 ++ right)
    else none

structure Canonical (field : List Char) : Prop where
  ne_nil : field ≠ []
  length_le : field.length ≤ 4
  lower : ∀ c ∈ field, c ∈ Lib.lowerHex
  head : field.head? = some '0' → field = ['0']

def row (fields : List (List Char)) : List Char := [':'].intercalate fields

inductive ValidText : List Char → Prop where
  | full (fields : List (List Char)) : fields.length = 8 → (∀ field ∈ fields, Canonical field) →
      ValidText (row fields)
  | compressed (left right : List (List Char)) : left.length + right.length ≤ 7 →
      (∀ field ∈ left, Canonical field) → (∀ field ∈ right, Canonical field) →
      ValidText (row left ++ [':', ':'] ++ row right)

/-- The eight groups of the address itself, the high byte first. -/
def groups (a : IPv6Address) : List Nat :=
  (List.finRange 8).map fun i => Lib.leNat (a.memory i).reverse

def listed (fields : List (List Char)) : List Char := fields.flatMap fun field => ':' :: field

theorem row_cons (field : List Char) (fields : List (List Char)) :
    row (field :: fields) = field ++ listed fields := by
  induction fields generalizing field with
  | nil => simp [row, listed]
  | cons next rest ih =>
    have hrest := ih next
    rw [row] at hrest
    rw [row, List.intercalate_cons_cons, hrest, List.append_assoc]
    rfl

theorem Canonical.colon_notMem {field : List Char} (hfield : Canonical field) : ':' ∉ field := by
  intro hcolon
  have hlower := hfield.lower ':' hcolon
  revert hlower
  decide

theorem findDouble_skip (field text : List Char) (hcolon : ':' ∉ field) :
    findDouble (field ++ text) = (findDouble text).map fun parts => (field ++ parts.1, parts.2) := by
  induction field with
  | nil => exact (congrFun Option.map_id _).symm
  | cons c field ih =>
    rw [List.mem_cons, not_or] at hcolon
    have hrest := ih hcolon.2
    rw [List.cons_append]
    cases htext : field ++ text with
    | nil =>
      obtain ⟨rfl, rfl⟩ := List.append_eq_nil_iff.mp htext
      rfl
    | cons d rest =>
      rw [htext] at hrest
      rw [findDouble, if_neg (fun hboth => hcolon.1 hboth.1.symm), hrest, Option.map_map]
      rfl

theorem findDouble_colon (c : Char) (text : List Char) (hc : c ≠ ':') :
    findDouble (':' :: c :: text) =
      (findDouble (c :: text)).map fun parts => (':' :: parts.1, parts.2) := by
  rw [findDouble, if_neg fun hboth => hc hboth.2]

/-- No field is empty, so there is no double colon among them. -/
theorem findDouble_listed (fields : List (List Char)) (hfields : ∀ field ∈ fields, Canonical field)
    (text : List Char) :
    findDouble (listed fields ++ text) =
      (findDouble text).map fun parts => (listed fields ++ parts.1, parts.2) := by
  induction fields with
  | nil => exact (congrFun Option.map_id _).symm
  | cons field fields ih =>
    have hfield := hfields field List.mem_cons_self
    have hrest := ih fun other hother => hfields other (List.mem_cons_of_mem _ hother)
    obtain ⟨c, chars, rfl⟩ := List.exists_cons_of_ne_nil hfield.ne_nil
    have hcolon := hfield.colon_notMem
    have hc : c ≠ ':' := fun heq => hcolon (heq ▸ List.mem_cons_self)
    have hskip := findDouble_skip (c :: chars) (listed fields ++ text) hcolon
    rw [hrest, Option.map_map] at hskip
    rw [listed, List.flatMap_cons]
    change findDouble (':' :: c :: (chars ++ listed fields ++ text)) = _
    rw [findDouble_colon c _ hc, List.append_assoc]
    change (findDouble (c :: chars ++ (listed fields ++ text))).map _ = _
    rw [hskip, Option.map_map]
    congr 1
    funext parts
    simp [listed]

theorem findDouble_row (fields : List (List Char)) (hfields : ∀ field ∈ fields, Canonical field)
    (text : List Char) :
    findDouble (row fields ++ text) =
      (findDouble text).map fun parts => (row fields ++ parts.1, parts.2) := by
  cases fields with
  | nil => exact (congrFun Option.map_id _).symm
  | cons field fields =>
    have hfield := hfields field List.mem_cons_self
    have hlisted := findDouble_listed fields
      (fun other hother => hfields other (List.mem_cons_of_mem _ hother)) text
    rw [row_cons, List.append_assoc, findDouble_skip field _ hfield.colon_notMem, hlisted,
      Option.map_map]
    congr 1
    funext parts
    simp

section
variable (host : Endian)

def value (group : BitVec 16) : Nat := (byteswapOnLittleEndian host group).toNat

theorem canonical_hex (group : BitVec 16) : Canonical (hex host group) where
  ne_nil := Nat.toDigits_ne_nil
  length_le := (Nat.length_toDigits_le_iff (by decide) (by decide)).mpr
    (byteswapOnLittleEndian host group).isLt
  lower := Lib.mem_lowerHex_of_mem_toDigits _
  head := by
    intro hhead
    have hzero := Lib.head_toDigits _ hhead
    rw [hex, hzero]
    rfl

theorem canonical_of_mem (groups : List (BitVec 16)) :
    ∀ field ∈ groups.map (hex host), Canonical field := by
  intro field hfield
  obtain ⟨group, -, rfl⟩ := List.mem_map.mp hfield
  exact canonical_hex host group

theorem parseGroup_hex (group : BitVec 16) : parseGroup (hex host group) = some (value host group) := by
  have hfield := canonical_hex host group
  rw [parseGroup, if_pos ⟨hfield.ne_nil, hfield.length_le⟩]
  exact Lib.hexValue_toDigits _

theorem parseRow_row (groups : List (BitVec 16)) :
    parseRow (row (groups.map (hex host))) = some (groups.map (value host)) := by
  cases groups with
  | nil => rfl
  | cons group rest =>
    have hfields := canonical_of_mem host (group :: rest)
    have hne : row ((group :: rest).map (hex host)) ≠ [] := by
      rw [List.map_cons, row_cons]
      exact List.append_ne_nil_of_left_ne_nil (canonical_hex host group).ne_nil _
    rw [parseRow, if_neg hne, row, List.splitOn_intercalate ':'
      (fun field hfield => (hfields field hfield).colon_notMem) (List.cons_ne_nil _ _)]
    clear hfields hne
    generalize group :: rest = groups
    induction groups with
    | nil => rfl
    | cons group rest ih =>
      rw [List.map_cons, List.mapM_cons, parseGroup_hex, ih]
      rfl

theorem parse_full (groups : List (BitVec 16)) (hlength : groups.length = 8) :
    parse (row (groups.map (hex host))) = some (groups.map (value host)) := by
  have hnone : findDouble (row (groups.map (hex host))) = none := by
    have hrow := findDouble_row (groups.map (hex host)) (canonical_of_mem host groups) []
    rw [List.append_nil] at hrow
    exact hrow
  simp only [parse, hnone, parseRow_row, Option.bind_eq_bind, Option.bind_some, List.length_map,
    hlength, ↓reduceIte]

theorem parse_compressed (left right : List (BitVec 16)) (zeros : Nat) (hzeros : 0 < zeros)
    (hlength : left.length + zeros + right.length = 8) :
    parse (row (left.map (hex host)) ++ [':', ':'] ++ row (right.map (hex host))) =
      some (left.map (value host) ++ List.replicate zeros 0 ++ right.map (value host)) := by
  have hdouble : findDouble (row (left.map (hex host)) ++ [':', ':'] ++ row (right.map (hex host))) =
      some (row (left.map (hex host)), row (right.map (hex host))) := by
    rw [List.append_assoc, findDouble_row _ (canonical_of_mem host left)]
    change some (row (left.map (hex host)) ++ [], _) = _
    rw [List.append_nil]
    rfl
  have hcount : 8 - (left.length + right.length) = zeros := by omega
  have hle : left.length + right.length ≤ 7 := by omega
  simp only [parse, hdouble, parseRow_row, Option.bind_eq_bind, Option.bind_some, List.length_map,
    hcount, hle, ↓reduceIte]

theorem insertLoop_used (before : BitVec 16) (groups : List (BitVec 16)) :
    insertLoop host (some before) true groups = (listed (groups.map (hex host)), true) := by
  induction groups generalizing before with
  | nil => rfl
  | cons group rest ih =>
    rw [insertLoop, if_neg (by simp)]
    simp only [Bool.not_true, Bool.and_false, Bool.or_false, ih group]
    rfl

theorem insertLoop_zeros (zeros : Nat) (rest : List (BitVec 16)) :
    insertLoop host (some 0) false (List.replicate zeros 0 ++ rest) =
      insertLoop host (some 0) false rest := by
  induction zeros with
  | zero => rfl
  | succ zeros ih =>
    rw [List.replicate_succ, List.cons_append, insertLoop, if_pos ⟨rfl, rfl⟩]
    exact ih

theorem insertLoop_after_zeros (group : BitVec 16) (hgroup : group ≠ 0) (rest : List (BitVec 16)) :
    insertLoop host (some 0) false (group :: rest) =
      ([':', ':'] ++ row ((group :: rest).map (hex host)), true) := by
  rw [insertLoop, if_neg fun hboth => hgroup hboth.1]
  simp only [decide_true, Bool.not_false, Bool.and_self, Bool.or_true, insertLoop_used, ↓reduceIte,
    List.map_cons, row_cons]
  rfl

theorem insertLoop_groups (before : BitVec 16) (hbefore : before ≠ 0) (groups : List (BitVec 16))
    (hgroups : ∀ group ∈ groups, group ≠ 0) (rest : List (BitVec 16)) :
    ∃ last, last ≠ 0 ∧ insertLoop host (some before) false (groups ++ rest) =
      (listed (groups.map (hex host)) ++ (insertLoop host (some last) false rest).1,
        (insertLoop host (some last) false rest).2) := by
  induction groups generalizing before with
  | nil => exact ⟨before, hbefore, rfl⟩
  | cons group groups ih =>
    have hgroup := hgroups group List.mem_cons_self
    obtain ⟨last, hlast, hrest⟩ := ih group hgroup fun other hother =>
      hgroups other (List.mem_cons_of_mem _ hother)
    refine ⟨last, hlast, ?_⟩
    have hfirst : (decide (some before = some (0 : BitVec 16)) && !false) = false := by
      simpa using hbefore
    rw [List.cons_append, insertLoop, if_neg fun hboth => hgroup hboth.1]
    simp only [hfirst, Bool.or_false, hrest]
    simp [listed]

theorem insertLoop_start (groups : List (BitVec 16)) (hgroups : ∀ group ∈ groups, group ≠ 0)
    (rest : List (BitVec 16)) :
    ∃ before, insertLoop host none false (groups ++ rest) =
      (row (groups.map (hex host)) ++ (insertLoop host before false rest).1,
        (insertLoop host before false rest).2) := by
  cases groups with
  | nil => exact ⟨none, rfl⟩
  | cons group groups =>
    have hgroup := hgroups group List.mem_cons_self
    obtain ⟨last, -, hrest⟩ := insertLoop_groups host group hgroup groups
      (fun other hother => hgroups other (List.mem_cons_of_mem _ hother)) rest
    refine ⟨some last, ?_⟩
    rw [List.cons_append, insertLoop, if_neg fun hboth => hgroup hboth.1]
    simp only [reduceCtorEq, decide_false, Bool.false_and, Bool.or_false, hrest]
    simp [row_cons]

theorem insertLoop_run (before : Option (BitVec 16)) (zeros : Nat) (hzeros : 0 < zeros)
    (rest : List (BitVec 16)) :
    insertLoop host before false (List.replicate zeros 0 ++ rest) =
      insertLoop host (some 0) false rest := by
  obtain ⟨zeros, rfl⟩ := Nat.exists_eq_add_one_of_ne_zero (Nat.ne_of_gt hzeros)
  rw [List.replicate_succ, List.cons_append, insertLoop, if_pos ⟨rfl, rfl⟩, insertLoop_zeros]

omit host in
theorem first_run (groups : List (BitVec 16)) :
    (∀ group ∈ groups, group ≠ 0) ∨
      ∃ left zeros right, groups = left ++ (List.replicate zeros 0 ++ right) ∧ 0 < zeros ∧
        (∀ group ∈ left, group ≠ 0) ∧ ∀ group rest, right = group :: rest → group ≠ 0 := by
  induction groups with
  | nil =>
    refine .inl ?_
    intro group hgroup
    cases hgroup
  | cons group groups ih =>
    by_cases hgroup : group = 0
    · subst hgroup
      refine .inr ?_
      rcases ih with hnone | ⟨left, zeros, right, rfl, hzeros, hleft, hright⟩
      · refine ⟨[], 1, groups, rfl, Nat.one_pos, by simp, ?_⟩
        rintro first rest rfl
        exact hnone first List.mem_cons_self
      · cases left with
        | nil => exact ⟨[], zeros + 1, right, rfl, Nat.succ_pos _, by simp, hright⟩
        | cons first left =>
          refine ⟨[], 1, first :: left ++ (List.replicate zeros 0 ++ right), rfl, Nat.one_pos,
            by simp, ?_⟩
          rintro other rest heq
          cases heq
          exact hleft first List.mem_cons_self
    · rcases ih with hnone | ⟨left, zeros, right, rfl, hzeros, hleft, hright⟩
      · exact .inl (List.forall_mem_cons.mpr ⟨hgroup, hnone⟩)
      · exact .inr ⟨group :: left, zeros, right, rfl, hzeros,
          List.forall_mem_cons.mpr ⟨hgroup, hleft⟩, hright⟩

theorem insertGroups_full (groups : List (BitVec 16)) (hgroups : ∀ group ∈ groups, group ≠ 0) :
    insertGroups host groups = row (groups.map (hex host)) := by
  obtain ⟨before, hloop⟩ := insertLoop_start host groups hgroups []
  rw [List.append_nil] at hloop
  have hlast : ¬ groups[7]? = some 0 := fun hzero =>
    hgroups 0 (List.mem_of_getElem? hzero) rfl
  simp only [insertGroups, hloop, hlast, and_false, ↓reduceIte, insertLoop, List.append_nil]

theorem insertGroups_compressed (left right : List (BitVec 16)) (zeros : Nat) (hzeros : 0 < zeros)
    (hleft : ∀ group ∈ left, group ≠ 0)
    (hright : ∀ group rest, right = group :: rest → group ≠ 0)
    (hlength : left.length + zeros + right.length = 8) :
    insertGroups host (left ++ (List.replicate zeros 0 ++ right)) =
      row (left.map (hex host)) ++ [':', ':'] ++ row (right.map (hex host)) := by
  obtain ⟨before, hloop⟩ := insertLoop_start host left hleft (List.replicate zeros 0 ++ right)
  rw [insertLoop_run host before zeros hzeros] at hloop
  cases right with
  | nil =>
    have hlast : (left ++ (List.replicate zeros (0 : BitVec 16) ++ []))[7]? = some 0 := by
      rw [List.append_nil, List.getElem?_append_right (by simp at hlength; omega),
        List.getElem?_replicate_of_lt (by simp at hlength; omega)]
    simp only [insertGroups, hloop, hlast, insertLoop, and_self, ↓reduceIte]
    simp [row]
  | cons group rest =>
    rw [insertLoop_after_zeros host group (hright group rest rfl) rest] at hloop
    simp only [insertGroups, hloop, Bool.true_eq_false, false_and, ↓reduceIte, List.append_assoc]

theorem insertGroups_valid (groups : List (BitVec 16)) (hlength : groups.length = 8) :
    ValidText (insertGroups host groups) ∧
      parse (insertGroups host groups) = some (groups.map (value host)) := by
  rcases first_run groups with hfull | ⟨left, zeros, right, rfl, hzeros, hleft, hright⟩
  · rw [insertGroups_full host groups hfull]
    refine ⟨.full _ ?_ (canonical_of_mem host groups), parse_full host groups hlength⟩
    rw [List.length_map, hlength]
  · simp only [List.length_append, List.length_replicate] at hlength
    have hzero : value host 0 = 0 := by cases host <;> decide
    rw [insertGroups_compressed host left right zeros hzeros hleft hright (by omega)]
    constructor
    · apply ValidText.compressed _ _ _ (canonical_of_mem host left) (canonical_of_mem host right)
      rw [List.length_map, List.length_map]
      omega
    · rw [parse_compressed host left right zeros hzeros (by omega), List.map_append,
        List.map_append, List.map_replicate, hzero, List.append_assoc]

end

theorem value_ofMemory (host : Endian) (bytes : List UInt8) (hlength : bytes.length = 2) :
    value host (ByteArray.ofMemory host 16 bytes) = Lib.leNat bytes.reverse := by
  have hreverse : bytes.reverse.length = 16 / 8 := by rw [List.length_reverse, hlength]
  have htoNat := ByteArray.toNat_ofNat_leNat (w := 16) (by decide) bytes.reverse hreverse
  cases host with
  | little =>
    change (ByteArray.byteswap (ByteArray.ofMemory .little 16 bytes)).toNat = _
    rw [ByteArray.byteswap_ofMemory (by decide) .little bytes hlength]
    exact htoNat
  | big => exact htoNat

theorem map_value_addr (host : Endian) (a : IPv6Address) :
    (a.addr host).map (value host) = a.groups := by
  rw [addr, groups, List.map_map]
  apply List.map_congr_left
  intro i _
  exact value_ofMemory host (a.memory i) rfl

theorem s6Addr_eq_of_groups_eq (a b : IPv6Address) (hgroups : a.groups = b.groups) :
    a.s6Addr = b.s6Addr := by
  have hmemory : ∀ i, a.memory i = b.memory i := by
    intro i
    have hvalue := List.map_inj_left.mp hgroups i (List.mem_finRange i)
    have hbytes := congrArg (fun n : Nat => Lib.leBytes 2 n) hvalue
    have hround := fun c : IPv6Address => Lib.leBytes_leNat (c.memory i).reverse
    exact List.reverse_injective ((hround a).symm.trans (hbytes.trans (hround b)))
  funext j
  have hj := hmemory ⟨j.val / 2, by have := j.isLt; omega⟩
  simp only [memory, List.cons.injEq, and_true] at hj
  rcases Nat.mod_two_eq_zero_or_one j.val with heven | hodd
  · have hindex : j = ⟨2 * (j.val / 2), by have := j.isLt; omega⟩ := Fin.ext (by dsimp only; omega)
    rw [hindex]
    exact hj.1
  · have hindex : j = ⟨2 * (j.val / 2) + 1, by have := j.isLt; omega⟩ :=
      Fin.ext (by dsimp only; omega)
    rw [hindex]
    exact hj.2

/-- The text between the brackets is a textual form of the address and denotes it; so two addresses
that are written alike are the same. -/
theorem insert_denotes_address (host : Endian) :
    (∀ a : IPv6Address, ∃ text,
      a.insert host = '[' :: text ++ [']', ':'] ++
        Nat.toDigits 10 (byteswapOnLittleEndian host a.sin6Port).toNat ∧
      ValidText text ∧ parse text = some a.groups) ∧
    ∀ a b : IPv6Address, insertGroups host (a.addr host) = insertGroups host (b.addr host) →
      a.s6Addr = b.s6Addr := by
  have hdenotes : ∀ a : IPv6Address, ValidText (insertGroups host (a.addr host)) ∧
      parse (insertGroups host (a.addr host)) = some a.groups := by
    intro a
    have hlength : (a.addr host).length = 8 := by
      rw [addr, List.length_map, List.length_finRange]
    have hvalid := insertGroups_valid host (a.addr host) hlength
    rw [map_value_addr] at hvalid
    exact hvalid
  constructor
  · intro a
    exact ⟨_, rfl, hdenotes a⟩
  · intro a b hsame
    have hparsed := (hdenotes a).2
    rw [hsame, (hdenotes b).2] at hparsed
    exact s6Addr_eq_of_groups_eq a b (Option.some.inj hparsed).symm

/-- Two runs of zeros, of which the first is short: `1:0:2:0:0:0:0:3`. -/
def twoRuns : IPv6Address where
  s6Addr i := if i.val = 1 then 1 else if i.val = 5 then 2 else if i.val = 15 then 3 else 0
  sin6Port := 0

theorem insert_denotes_address_two_runs :
    twoRuns.insert .little = "[1::2:0:0:0:0:3]:0".toList ∧
      parse "1::2:0:0:0:0:3".toList = some [1, 0, 2, 0, 0, 0, 0, 3] ∧
      ∀ b : IPv6Address, insertGroups .little (b.addr .little) = "1::2:0:0:0:0:3".toList →
        twoRuns.s6Addr = b.s6Addr := by
  have htext : insertGroups .little (twoRuns.addr .little) = "1::2:0:0:0:0:3".toList := by decide
  refine ⟨by decide, by decide, ?_⟩
  intro b hb
  exact (insert_denotes_address .little).2 twoRuns b (htext.trans hb.symm)

end IPv6Address
end Sylar
