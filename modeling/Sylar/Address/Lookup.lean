import Mathlib.Data.List.GetD
import Mathlib.Data.List.Lex
import Mathlib.Data.List.TakeWhile
import Sylar.Address.Subnet

/-! The class `Address`: how `Lookup` splits a host, and how addresses are compared.

A pointer into `host.c_str()` is an offset, and what `getaddrinfo` is given for it ends at the
terminator. In `Lookup` the second scan leaves `service` at the first colon when there is another
one behind it. -/
namespace Sylar

/-- `memchr(s + start, c, count)`. -/
def memchr (s : List Char) (start : Nat) (c : Char) (count : Nat) : Option Nat :=
  (((s.drop start).take count).findIdx? (· == c)).map (start + ·)

/-- `c_str()` up to its terminator. -/
def cString (s : List Char) : List Char := s.takeWhile (· ≠ '\x00')

namespace Address

def scanBracket (host : List Char) : List Char × Option Nat :=
  if host.head? = some '[' then
    match memchr host 1 ']' (host.length - 1) with
    | some endipv6 =>
      ((host.drop 1).take (endipv6 - 1),
        if host.getD (endipv6 + 1) '\x00' = ':' then some (endipv6 + 2) else none)
    | none => ([], none)
  else ([], none)

def scanColon (host : List Char) : List Char × Option Nat :=
  match memchr host 0 ':' host.length with
  | some service =>
    if memchr host (service + 1) ':' (host.length - service - 1) = none then
      (host.take service, some (service + 1))
    else ([], some service)
  | none => ([], none)

def split (host : List Char) : List Char × Option (List Char) :=
  let (node, service) := scanBracket host
  let (node, service) := if node = [] then scanColon host else (node, service)
  let node := if node = [] then host else node
  (cString node, service.map fun offset => cString (host.drop offset))

/-- A bracket that is opened at the start and closed somewhere. -/
def Bracketed (host : List Char) : Prop :=
  ∃ text rest, host = '[' :: text ++ ']' :: rest

/-- How a host should be split. -/
inductive Stated : List Char → List Char → Option (List Char) → Prop where
  | bracketPort (text port : List Char) : text ≠ [] → ']' ∉ text →
      Stated ('[' :: text ++ ']' :: ':' :: port) text (some port)
  | bracket (text : List Char) : text ≠ [] → ']' ∉ text → Stated ('[' :: text ++ [']']) text none
  | nodePort (node port : List Char) : node ≠ [] → ':' ∉ node → ':' ∉ port →
      node.head? ≠ some '[' → Stated (node ++ ':' :: port) node (some port)
  | plain (host : List Char) : ':' ∉ host →
      (∀ text, text ≠ [] → ']' ∉ text → host ≠ '[' :: text ++ [']']) → Stated host host none
  | bare (host : List Char) : ¬ Bracketed host → 2 ≤ host.count ':' → Stated host host none

/-- Two colons outside of brackets, or something other than a colon behind the bracket of a host
without colons. -/
def Missplit (host : List Char) : Prop :=
  (¬ Bracketed host ∧ 2 ≤ host.count ':') ∨
    ':' ∉ host ∧ ∃ text rest, text ≠ [] ∧ ']' ∉ text ∧ rest ≠ [] ∧ host = '[' :: text ++ ']' :: rest

theorem findIdx_found (text rest : List Char) (c : Char) (htext : c ∉ text) :
    (text ++ c :: rest).findIdx? (· == c) = some text.length := by
  induction text with
  | nil => simp [List.findIdx?_cons]
  | cons d text ih =>
    rw [List.mem_cons, not_or] at htext
    rw [List.cons_append, List.findIdx?_cons, ih htext.2, if_neg (by simpa using Ne.symm htext.1)]
    rfl

theorem memchr_found (before text rest : List Char) (c : Char) (htext : c ∉ text) (count : Nat)
    (hcount : count = (text ++ c :: rest).length) :
    memchr (before ++ (text ++ c :: rest)) before.length c count =
      some (before.length + text.length) := by
  rw [memchr, List.drop_left, hcount, List.take_length, findIdx_found text rest c htext]
  rfl

theorem memchr_missing (before text : List Char) (c : Char) (htext : c ∉ text) (count : Nat) :
    memchr (before ++ text) before.length c count = none := by
  rw [memchr, List.drop_left, Option.map_eq_none_iff, List.findIdx?_eq_none_iff]
  intro d hd
  rw [beq_eq_false_iff_ne]
  rintro rfl
  exact htext (List.mem_of_mem_take hd)

theorem cString_eq (s : List Char) (hnul : '\x00' ∉ s) : cString s = s := by
  rw [cString, List.takeWhile_eq_self_iff]
  intro c hc
  rw [decide_eq_true_eq]
  rintro rfl
  exact hnul hc

theorem scanBracket_closed (text rest : List Char) (htext : ']' ∉ text) :
    scanBracket ('[' :: text ++ ']' :: rest) =
      (text, if rest.head? = some ':' then some (text.length + 3) else none) := by
  have hfound :
      memchr ('[' :: text ++ ']' :: rest) 1 ']' (('[' :: text ++ ']' :: rest).length - 1) =
        some (1 + text.length) :=
    memchr_found ['['] text rest ']' htext _ rfl
  have hnext : ('[' :: text ++ ']' :: rest).getD (1 + text.length + 1) '\x00' = ':' ↔
      rest.head? = some ':' := by
    rw [List.getD_append_right _ _ _ _ (by rw [List.length_cons]; omega)]
    have hindex : 1 + text.length + 1 - ('[' :: text).length = 1 := by
      rw [List.length_cons]
      omega
    rw [hindex, List.getD_cons_succ]
    cases rest with
    | nil => simp
    | cons c rest => simp
  have hnode : (('[' :: text ++ ']' :: rest).drop 1).take (1 + text.length - 1) = text := by
    rw [Nat.add_sub_cancel_left]
    exact List.take_left
  have hoffset : 1 + text.length + 2 = text.length + 3 := by omega
  have hopen : ('[' :: text ++ ']' :: rest).head? = some '[' := rfl
  unfold scanBracket
  rw [if_pos hopen, hfound]
  dsimp only
  rw [hnode, hoffset]
  by_cases hcolon : rest.head? = some ':'
  · rw [if_pos (hnext.mpr hcolon), if_pos hcolon]
  · rw [if_neg (fun h => hcolon (hnext.mp h)), if_neg hcolon]

theorem scanBracket_open (host : List Char) (hhost : ¬ Bracketed host) :
    scanBracket host = ([], none) := by
  unfold scanBracket
  split
  · rename_i hopen
    cases host with
    | nil => cases hopen
    | cons c rest =>
      obtain rfl := Option.some.inj hopen
      have hclose : ']' ∉ rest := by
        intro hmem
        obtain ⟨text, after, rfl⟩ := List.append_of_mem hmem
        exact hhost ⟨text, after, rfl⟩
      have hmissing : memchr ('[' :: rest) 1 ']' (('[' :: rest).length - 1) = none :=
        memchr_missing ['['] rest ']' hclose _
      rw [hmissing]
  · rfl

theorem scanColon_none (host : List Char) (hcolon : ':' ∉ host) : scanColon host = ([], none) := by
  have hmissing : memchr host 0 ':' host.length = none := memchr_missing [] host ':' hcolon _
  unfold scanColon
  rw [hmissing]

section
variable (node rest : List Char) (hnode : ':' ∉ node)
include hnode

theorem memchr_first : memchr (node ++ ':' :: rest) 0 ':' (node ++ ':' :: rest).length =
    some node.length := by
  have hfound := memchr_found [] node rest ':' hnode _ rfl
  rw [List.nil_append, List.length_nil, Nat.zero_add] at hfound
  exact hfound

theorem scanColon_one (hrest : ':' ∉ rest) :
    scanColon (node ++ ':' :: rest) = (node, some (node.length + 1)) := by
  have hmissing := memchr_missing (node ++ [':']) rest ':' hrest
    ((node ++ ':' :: rest).length - node.length - 1)
  rw [List.append_assoc, List.singleton_append, List.length_append,
    List.length_singleton] at hmissing
  unfold scanColon
  rw [memchr_first node rest hnode]
  dsimp only
  rw [if_pos hmissing, List.take_left]

theorem scanColon_two (hrest : ':' ∈ rest) :
    scanColon (node ++ ':' :: rest) = ([], some node.length) := by
  obtain ⟨text, after, rfl, htext⟩ := List.eq_append_cons_of_mem hrest
  have hfound := memchr_found (node ++ [':']) text after ':' htext
    ((node ++ ':' :: (text ++ ':' :: after)).length - node.length - 1)
    (by simp only [List.length_append, List.length_cons]; omega)
  rw [List.append_assoc, List.singleton_append, List.length_append, List.length_singleton] at hfound
  unfold scanColon
  rw [memchr_first node _ hnode]
  dsimp only
  rw [hfound, if_neg (by simp)]

end

theorem split_of_empty (host : List Char) (hempty : (scanBracket host).1 = []) :
    split host = (cString (if (scanColon host).1 = [] then host else (scanColon host).1),
      (scanColon host).2.map fun offset => cString (host.drop offset)) := by
  cases hscan : scanBracket host with
  | mk node service =>
    rw [hscan] at hempty
    unfold split
    rw [hscan]
    dsimp only
    rw [if_pos hempty]

section
variable (host : List Char) (hnul : '\x00' ∉ host)
include hnul

theorem split_closed (text rest : List Char) (hne : text ≠ []) (htext : ']' ∉ text)
    (hhost : host = '[' :: text ++ ']' :: rest) :
    split host = (text, if rest.head? = some ':' then some rest.tail else none) := by
  subst hhost
  have hdrop : ('[' :: text ++ ']' :: rest).drop (text.length + 3) = rest.tail := by
    have hlength : text.length + 3 = ('[' :: text).length + 2 := by rw [List.length_cons]
    rw [hlength, List.drop_append]
    cases rest <;> simp
  have hnode : '\x00' ∉ text := by
    intro hmem
    exact hnul (List.mem_append_left _ (List.mem_cons_of_mem _ hmem))
  have hservice : '\x00' ∉ rest.tail := by
    intro hmem
    exact hnul (List.mem_append_right _ (List.mem_cons_of_mem _ (List.mem_of_mem_tail hmem)))
  unfold split
  rw [scanBracket_closed text rest htext]
  dsimp only
  rw [if_neg hne, if_neg hne, cString_eq text hnode]
  by_cases hcolon : rest.head? = some ':'
  · rw [if_pos hcolon, if_pos hcolon, Option.map_some, hdrop, cString_eq _ hservice]
  · rw [if_neg hcolon, if_neg hcolon, Option.map_none]

theorem split_plain (hempty : (scanBracket host).1 = []) (hcolon : ':' ∉ host) :
    split host = (host, none) := by
  rw [split_of_empty host hempty, scanColon_none host hcolon, if_pos rfl, cString_eq host hnul]
  rfl

theorem split_nodePort (hempty : (scanBracket host).1 = []) (node port : List Char)
    (hne : node ≠ []) (hnode : ':' ∉ node) (hport : ':' ∉ port)
    (hhost : host = node ++ ':' :: port) : split host = (node, some port) := by
  subst hhost
  have hdrop : (node ++ ':' :: port).drop (node.length + 1) = port := by
    rw [List.drop_append]
    simp
  have hnul' : '\x00' ∉ node ∧ '\x00' ∉ port := by
    simpa using hnul
  rw [split_of_empty _ hempty, scanColon_one node port hnode hport]
  dsimp only
  rw [if_neg hne, Option.map_some, hdrop, cString_eq node hnul'.1, cString_eq port hnul'.2]

theorem split_two (hempty : (scanBracket host).1 = []) (node rest : List Char)
    (hnode : ':' ∉ node) (hrest : ':' ∈ rest) (hhost : host = node ++ ':' :: rest) :
    split host = (host, some (':' :: rest)) := by
  subst hhost
  have hservice : '\x00' ∉ ':' :: rest := fun hmem => hnul (List.mem_append_right _ hmem)
  rw [split_of_empty _ hempty, scanColon_two node rest hnode hrest]
  dsimp only
  rw [if_pos rfl, Option.map_some, List.drop_left, cString_eq _ hnul, cString_eq _ hservice]

end

theorem scanBracket_empty (host : List Char)
    (hhost : ∀ text rest, text ≠ [] → ']' ∉ text → host ≠ '[' :: text ++ ']' :: rest) :
    (scanBracket host).1 = [] := by
  by_cases hbracketed : Bracketed host
  · obtain ⟨text, rest, rfl⟩ := hbracketed
    have hmem : ']' ∈ text ++ ']' :: rest := by simp
    obtain ⟨first, after, hsplit, hfirst⟩ := List.eq_append_cons_of_mem hmem
    have hshape : '[' :: text ++ ']' :: rest = '[' :: first ++ ']' :: after := congrArg _ hsplit
    rw [hshape, scanBracket_closed first after hfirst]
    by_contra hne
    exact hhost first after hne hfirst hshape
  · rw [scanBracket_open host hbracketed]

theorem split_stated (host : List Char) (hnul : '\x00' ∉ host) (hok : ¬ Missplit host)
    (node : List Char) (service : Option (List Char)) (hstated : Stated host node service) :
    split host = (node, service) := by
  cases hstated with
  | bracketPort _ port hne hclose => exact split_closed _ hnul _ _ hne hclose rfl
  | bracket _ hne hclose => exact split_closed _ hnul _ _ hne hclose rfl
  | nodePort _ port hne hnode hport hopen =>
    apply split_nodePort _ hnul _ node port hne hnode hport rfl
    apply scanBracket_empty
    intro text rest _ _ heq
    apply hopen
    obtain ⟨c, tail, rfl⟩ := List.exists_cons_of_ne_nil hne
    exact congrArg (fun l : List Char => l.head?) heq
  | plain _ hcolon hbrackets =>
    apply split_plain host hnul _ hcolon
    apply scanBracket_empty
    rintro text rest hne hclose rfl
    by_cases hrest : rest = []
    · subst hrest
      exact hbrackets text hne hclose rfl
    · exact hok (.inr ⟨hcolon, text, rest, hne, hclose, hrest, rfl⟩)
  | bare _ hopen hcount => exact absurd (.inl ⟨hopen, hcount⟩) hok

theorem not_stated_of_missplit (host : List Char) (hnul : '\x00' ∉ host) (hbad : Missplit host) :
    Stated host host none ∧ split host ≠ (host, none) := by
  rcases hbad with ⟨hopen, hcount⟩ | ⟨hcolon, text, rest, hne, hclose, hrest, rfl⟩
  · refine ⟨.bare host hopen hcount, ?_⟩
    have hmem : ':' ∈ host := List.count_pos_iff.mp (by omega)
    obtain ⟨node, after, rfl, hnode⟩ := List.eq_append_cons_of_mem hmem
    have hlater : ':' ∈ after := by
      apply List.count_pos_iff.mp
      rw [List.count_append, List.count_cons_self, List.count_eq_zero.mpr hnode] at hcount
      omega
    rw [split_two _ hnul (by rw [scanBracket_open _ hopen]) node after hnode hlater rfl]
    simp
  · constructor
    · apply Stated.plain _ hcolon
      intro other _ hother heq
      have hsame := (List.append_cons_inj_of_notMem hother List.not_mem_nil).mp
        (List.cons.inj heq).2.symm
      exact hrest hsame.2.2.symm
    · rw [split_closed _ hnul text rest hne hclose rfl]
      intro heq
      have hlength := congrArg List.length (Prod.mk.inj heq).1
      rw [List.length_append, List.length_cons] at hlength
      omega

end Address

def decimal (n : Nat) : List Char := Nat.toDigits 10 n

theorem notMem_decimal (n : Nat) (c : Char) (hc : c.isDigit = false) : c ∉ decimal n := by
  intro hmem
  rw [Nat.isDigit_of_mem_toDigits (by decide) (by decide) hmem] at hc
  cases hc

namespace IPv4Address
variable (host : Endian)

def text (a : IPv4Address) : List Char :=
  let addr := byteswapOnLittleEndian host a.sAddr
  decimal ((addr >>> 24) &&& 0xff).toNat ++ ['.'] ++ decimal ((addr >>> 16) &&& 0xff).toNat ++
    ['.'] ++ decimal ((addr >>> 8) &&& 0xff).toNat ++ ['.'] ++ decimal (addr &&& 0xff).toNat

def port (a : IPv4Address) : List Char := decimal (byteswapOnLittleEndian host a.sinPort).toNat

def insert (a : IPv4Address) : List Char := a.text host ++ ':' :: a.port host

theorem notMem_text (a : IPv4Address) (c : Char) (hdigit : c.isDigit = false) (hdot : c ≠ '.') :
    c ∉ a.text host := by
  intro hmem
  simp only [text, List.mem_append, List.mem_singleton, notMem_decimal _ c hdigit, hdot,
    or_false] at hmem

theorem split_insert (a : IPv4Address) :
    Address.split (a.insert host) = (a.text host, some (a.port host)) := by
  have htext := notMem_text host a
  have hport := notMem_decimal (byteswapOnLittleEndian host a.sinPort).toNat
  have hne : a.text host ≠ [] := by simp [text]
  have hnul : '\x00' ∉ a.insert host := by
    rw [insert, List.mem_append, List.mem_cons, not_or, not_or]
    exact ⟨htext _ (by decide) (by decide), by decide, hport _ (by decide)⟩
  apply Address.split_nodePort _ hnul _ (a.text host) (a.port host) hne
    (htext _ (by decide) (by decide)) (hport _ (by decide)) rfl
  apply Address.scanBracket_empty
  intro text rest _ _ heq
  obtain ⟨c, tail, hcons⟩ := List.exists_cons_of_ne_nil hne
  rw [insert, hcons] at heq
  have hopen : c = '[' := (List.cons.inj heq).1
  apply htext '[' (by decide) (by decide)
  rw [hcons, hopen]
  exact List.mem_cons_self

end IPv4Address

namespace IPv6Address
variable (host : Endian)

theorem mem_row (fields : List (List Char)) (hfields : ∀ field ∈ fields, Canonical field) (c : Char)
    (hc : c ∈ row fields) : c = ':' ∨ c ∈ Lib.lowerHex := by
  cases fields with
  | nil => cases hc
  | cons first fields =>
    rw [row_cons, List.mem_append] at hc
    rcases hc with hfirst | hlisted
    · exact .inr ((hfields first List.mem_cons_self).lower c hfirst)
    · obtain ⟨field, hfield, hmem⟩ := List.mem_flatMap.mp hlisted
      rcases List.mem_cons.mp hmem with rfl | hmem
      · exact .inl rfl
      · exact .inr ((hfields field (List.mem_cons_of_mem _ hfield)).lower c hmem)

theorem ValidText.chars {text : List Char} (hvalid : ValidText text) :
    text ≠ [] ∧ ∀ c ∈ text, c = ':' ∨ c ∈ Lib.lowerHex := by
  cases hvalid with
  | full fields hlength hfields =>
    refine ⟨?_, mem_row fields hfields⟩
    cases fields with
    | nil => cases hlength
    | cons first fields =>
      rw [row_cons]
      exact List.append_ne_nil_of_left_ne_nil (hfields first List.mem_cons_self).ne_nil _
  | compressed left right hlength hleft hright =>
    refine ⟨by simp, ?_⟩
    intro c hc
    rw [List.mem_append, List.mem_append] at hc
    rcases hc with (hc | hc) | hc
    · exact mem_row left hleft c hc
    · left
      simpa using hc
    · exact mem_row right hright c hc

def port (a : IPv6Address) : List Char := decimal (byteswapOnLittleEndian host a.sin6Port).toNat

theorem split_insert (a : IPv6Address) : Address.split (a.insert host) =
    (insertGroups host (a.addr host), some (a.port host)) := by
  have hlength : (a.addr host).length = 8 := by rw [addr, List.length_map, List.length_finRange]
  obtain ⟨hne, hchars⟩ := (insertGroups_valid host (a.addr host) hlength).1.chars
  have htext : ∀ c, c ≠ ':' → c ∉ Lib.lowerHex → c ∉ insertGroups host (a.addr host) := by
    intro c hcolon hhex hmem
    exact (hchars c hmem).elim hcolon hhex
  have hinsert : a.insert host =
      '[' :: insertGroups host (a.addr host) ++ ']' :: ':' :: a.port host := by
    rw [insert, List.append_assoc]
    rfl
  have hport := notMem_decimal (byteswapOnLittleEndian host a.sin6Port).toNat
  have hnul : '\x00' ∉ a.insert host := by
    rw [hinsert]
    simp only [List.cons_append, List.mem_cons, List.mem_append, not_or]
    exact ⟨by decide, htext _ (by decide) (by decide), by decide, by decide, hport _ (by decide)⟩
  exact Address.split_closed _ hnul _ _ hne (htext _ (by decide) (by decide)) hinsert

end IPv6Address

namespace Address

/-- Which hosts are split as they should be; the texts of addresses always are. -/
theorem lookup_split_iff (endian : Endian) (host : List Char) (hnul : '\x00' ∉ host) :
    ((∀ node service, Stated host node service → split host = (node, service)) ↔
      ¬ Missplit host) ∧
    (∀ a : IPv4Address, split (a.insert endian) = (a.text endian, some (a.port endian))) ∧
    ∀ a : IPv6Address, split (a.insert endian) =
      (IPv6Address.insertGroups endian (a.addr endian), some (a.port endian)) := by
  refine ⟨?_, IPv4Address.split_insert endian, IPv6Address.split_insert endian⟩
  constructor
  · intro hall hbad
    obtain ⟨hstated, hsplit⟩ := not_stated_of_missplit host hnul hbad
    exact hsplit (hall host none hstated)
  · intro hok node service hstated
    exact split_stated host hnul hok node service hstated

theorem lookup_split_iff_bracketed : split "[::1]:80".toList = ("::1".toList, some "80".toList) := by
  have hok : ¬ Missplit "[::1]:80".toList := by
    rintro (⟨hopen, -⟩ | ⟨hcolon, -⟩)
    · exact hopen ⟨"::1".toList, ":80".toList, by decide⟩
    · revert hcolon
      decide
  exact (lookup_split_iff .little "[::1]:80".toList (by decide)).1.mpr hok _ _
    (.bracketPort "::1".toList "80".toList (by decide) (by decide))

/-- A bare IPv6 address is given itself as the service. -/
theorem bare_address_has_service :
    split "::1".toList = ("::1".toList, some "::1".toList) ∧
      ¬ ∀ node service, Stated "::1".toList node service → split "::1".toList = (node, service) := by
  refine ⟨by decide, ?_⟩
  intro hall
  have hopen : ¬ Bracketed "::1".toList := by
    rintro ⟨text, rest, hhost⟩
    cases hhost
  have hsplit := hall _ _ (.bare "::1".toList hopen (by decide))
  revert hsplit
  decide

/-- `memcmp` of the first `n` bytes, which both have: the difference of the first two bytes that
differ. -/
def memcmp : Nat → List UInt8 → List UInt8 → Int
  | n + 1, x :: xs, y :: ys => if x = y then memcmp n xs ys else x.toNat - y.toNat
  | _, _, _ => 0

/-- `operator<` on the bytes `getAddr()`, of which there are `getAddrLen()`. -/
def less (lhs rhs : List UInt8) : Bool :=
  let minlen := min lhs.length rhs.length
  let result := memcmp minlen lhs rhs
  if result < 0 then true
  else if result > 0 then false
  else if lhs.length < rhs.length then true
  else false

def equal (lhs rhs : List UInt8) : Bool :=
  decide (lhs.length = rhs.length) && decide (memcmp lhs.length lhs rhs = 0)

def unequal (lhs rhs : List UInt8) : Bool := !equal lhs rhs

theorem memcmp_cons (n : Nat) (x y : UInt8) (xs ys : List UInt8) :
    memcmp (n + 1) (x :: xs) (y :: ys) = if x = y then memcmp n xs ys else (x.toNat : Int) - y.toNat :=
  rfl

theorem less_cons (x y : UInt8) (xs ys : List UInt8) :
    less (x :: xs) (y :: ys) = if x = y then less xs ys else decide (x.toNat < y.toNat) := by
  simp only [less, List.length_cons, Nat.succ_min_succ, memcmp_cons, Nat.add_lt_add_iff_right]
  split
  · rfl
  · next hne =>
    have hbytes : x.toNat ≠ y.toNat := fun heq => hne (UInt8.toNat_inj.mp heq)
    by_cases hlt : x.toNat < y.toNat
    · rw [if_pos (by omega), decide_eq_true hlt]
    · rw [if_neg (by omega), if_pos (by omega), decide_eq_false hlt]

theorem less_iff (lhs rhs : List UInt8) :
    less lhs rhs = true ↔ lhs.map UInt8.toNat < rhs.map UInt8.toNat := by
  induction lhs generalizing rhs with
  | nil =>
    cases rhs with
    | nil => simp [less, memcmp]
    | cons y ys => simp [less, memcmp]
  | cons x xs ih =>
    cases rhs with
    | nil => simp [less, memcmp]
    | cons y ys =>
      rw [less_cons, List.map_cons, List.map_cons, List.cons_lt_cons_iff, UInt8.toNat_inj]
      split
      · next heq => rw [ih, heq, or_iff_right (Nat.lt_irrefl _), and_iff_right rfl]
      · next hne => rw [decide_eq_true_iff, or_iff_left (fun hboth => hne hboth.1)]

theorem equal_eq_true (lhs rhs : List UInt8) :
    equal lhs rhs = true ↔ lhs.length = rhs.length ∧ memcmp lhs.length lhs rhs = 0 := by
  rw [equal, Bool.and_eq_true, decide_eq_true_iff, decide_eq_true_iff]

theorem equal_iff (lhs rhs : List UInt8) : equal lhs rhs = true ↔ lhs = rhs := by
  induction lhs generalizing rhs with
  | nil => cases rhs <;> simp [equal, memcmp]
  | cons x xs ih =>
    cases rhs with
    | nil => simp [equal]
    | cons y ys =>
      rw [equal_eq_true, List.length_cons, List.length_cons, memcmp_cons, Nat.add_right_cancel_iff,
        List.cons_eq_cons]
      split
      · next heq => rw [and_iff_right heq, ← ih, equal_eq_true]
      · next hne =>
        have hbytes : x.toNat ≠ y.toNat := fun heq => hne (UInt8.toNat_inj.mp heq)
        constructor
        · intro hboth
          omega
        · intro hboth
          exact absurd hboth.1 hne

theorem map_toNat_injective : Function.Injective (List.map UInt8.toNat) := by
  rw [List.map_injective_iff]
  intro x y heq
  exact UInt8.toNat_inj.mp heq

/-- `operator<` orders addresses of any lengths strictly and totally, and `operator==` is what it
leaves equal. -/
theorem less_strict_total :
    (∀ a b, (less a b = true ∧ equal a b = false ∧ less b a = false) ∨
      (less a b = false ∧ equal a b = true ∧ less b a = false) ∨
      (less a b = false ∧ equal a b = false ∧ less b a = true)) ∧
    (∀ a b, unequal a b = (less a b || less b a)) ∧
    ∀ a b c, less a b = true → less b c = true → less a c = true := by
  have hcases : ∀ a b, (less a b = true ∧ equal a b = false ∧ less b a = false) ∨
      (less a b = false ∧ equal a b = true ∧ less b a = false) ∨
      (less a b = false ∧ equal a b = false ∧ less b a = true) := by
    intro a b
    simp only [Bool.eq_false_iff, ne_eq, less_iff, equal_iff]
    rcases lt_trichotomy (a.map UInt8.toNat) (b.map UInt8.toNat) with hlt | heq | hgt
    · refine .inl ⟨hlt, ?_, hlt.asymm⟩
      rintro rfl
      exact lt_irrefl _ hlt
    · cases map_toNat_injective heq
      exact .inr (.inl ⟨lt_irrefl _, rfl, lt_irrefl _⟩)
    · refine .inr (.inr ⟨hgt.asymm, ?_, hgt⟩)
      rintro rfl
      exact lt_irrefl _ hgt
  refine ⟨hcases, ?_, ?_⟩
  · intro a b
    rw [unequal]
    rcases hcases a b with ⟨hless, heq, hmore⟩ | ⟨hless, heq, hmore⟩ | ⟨hless, heq, hmore⟩
    all_goals rw [hless, heq, hmore]; rfl
  · intro a b c hab hbc
    rw [less_iff] at hab hbc ⊢
    exact lt_trans hab hbc

theorem less_strict_total_lengths : less [2, 0] [2, 0, 7] = true ∧ less [2, 0, 7] [2, 1] = true ∧
    less [2, 0] [2, 1] = true := by
  have hab : less [2, 0] [2, 0, 7] = true := by decide
  have hbc : less [2, 0, 7] [2, 1] = true := by decide
  exact ⟨hab, hbc, less_strict_total.2.2 _ _ _ hab hbc⟩

end Address
end Sylar
