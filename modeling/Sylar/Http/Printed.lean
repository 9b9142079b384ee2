import Sylar.Http.ClientParser
import Sylar.Http.Framing

/-! What dumps print and parsers read again: numbers in decimal, and the headers of a map. -/
namespace Sylar

theorem foldl_digits (digits : List Char) (n : Nat) (hdigits : ∀ c ∈ digits, c.isDigit = true) :
    (digits.flatMap String.utf8EncodeChar).foldl (fun n c => 10 * n + (c.toNat - 48)) n =
      Nat.ofDigitChars 10 digits n := by
  induction digits generalizing n with
  | nil => rw [Nat.ofDigitChars_nil, List.flatMap_nil, List.foldl_nil]
  | cons c digits ih =>
    have hc := hdigits c List.mem_cons_self
    obtain ⟨hlow, hhigh⟩ : 48 ≤ c.val.toNat ∧ c.val.toNat ≤ 57 := by
      rw [Char.isDigit, Bool.and_eq_true, decide_eq_true_iff, decide_eq_true_iff] at hc
      exact ⟨UInt32.le_iff_toNat_le.mp hc.1, UInt32.le_iff_toNat_le.mp hc.2⟩
    have hsize : c.utf8Size = 1 := by
      rw [Char.utf8Size_eq_one_iff, UInt32.le_iff_toNat_le]
      exact Nat.le_trans hhigh (by decide)
    have hbyte : c.val.toUInt8.toNat = c.toNat := by
      rw [UInt32.toNat_toUInt8]
      exact Nat.mod_eq_of_lt (by omega)
    rw [List.flatMap_cons, String.utf8EncodeChar_eq_singleton hsize, List.singleton_append,
      List.foldl_cons, ih _ fun d hd => hdigits d (List.mem_cons_of_mem c hd),
      Nat.ofDigitChars_cons, hbyte]
    rfl

theorem toString_spells (bytes lead : Lib.CharClass)
    (hbytes : Lib.CharClass.within [(48, 57)] bytes = true)
    (hlead : Lib.CharClass.within [(48, 57)] lead = true) (n : Nat) :
    Lib.CharClass.Spells bytes lead (octets (toString n)) := by
  apply Lib.CharClass.spells_of_within [(48, 57)] bytes lead _ _ hbytes hlead
  intro c hc
  obtain ⟨hlow, hhigh⟩ := (octets_toString n).2 c hc
  rw [UInt8.le_iff_toNat_le] at hlow hhigh
  simpa [Lib.CharClass.has] using And.intro hlow hhigh

theorem foldl_toString (n : Nat) :
    (octets (toString n)).foldl (fun n c => 10 * n + (c.toNat - 48)) 0 = n := by
  rw [octets_eq, Nat.toString_eq_repr, Nat.toList_repr, foldl_digits, Nat.ofDigitChars_ten_toDigits]
  exact fun c hc => Nat.isDigit_of_mem_toDigits (by decide) (by decide) hc

theorem digitValue_digit (c : UInt8) (hc : 48 ≤ c ∧ c ≤ 57) : digitValue c = c.toNat - 48 :=
  if_pos hc

theorem digitValue_lt_iff (c : UInt8) : digitValue c < 10 ↔ 48 ≤ c ∧ c ≤ 57 := by
  have hbyte := Lib.CharClass.forall_byte
    (fun c => decide (digitValue c < 10 ↔ 48 ≤ c ∧ c ≤ 57)) (by decide +kernel) c
  exact of_decide_eq_true hbyte

theorem leadingNumber_toString (n : Nat) (c : UInt8) (rest : List UInt8)
    (hc : ¬ (48 ≤ c ∧ c ≤ 57)) : leadingNumber 10 (octets (toString n) ++ c :: rest) = n := by
  obtain ⟨-, hrange⟩ := octets_toString n
  have htake : (octets (toString n) ++ c :: rest).takeWhile (fun c => digitValue c < 10) =
      octets (toString n) := by
    rw [List.takeWhile_append_of_pos]
    · rw [List.takeWhile_cons, if_neg (by simpa [digitValue_lt_iff] using hc), List.append_nil]
    · intro d hd
      exact decide_eq_true ((digitValue_lt_iff d).mpr (hrange d hd))
  have hfold : (octets (toString n)).foldl (fun n c => 10 * n + digitValue c) 0 =
      (octets (toString n)).foldl (fun n c => 10 * n + (c.toNat - 48)) 0 := by
    apply List.foldl_ext
    intro m d hd
    rw [digitValue_digit d (hrange d hd)]
  rw [leadingNumber, htake, hfold, foldl_toString]

theorem dropHexPrefix_ten (s : List UInt8) : dropHexPrefix 10 s = s := by
  unfold dropHexPrefix
  split
  · exact if_neg fun hboth => absurd hboth.1 (by decide)
  · rfl

theorem strtol_toString (n : Nat) (c : UInt8) (rest : List UInt8) (hc : ¬ (48 ≤ c ∧ c ≤ 57))
    (hn : n < 2 ^ 63) : strtol 10 (octets (toString n) ++ c :: rest) = n := by
  obtain ⟨hsome, hrange⟩ := octets_toString n
  have hnumber := leadingNumber_toString n c rest hc
  obtain ⟨d, digits, hdigits⟩ := List.exists_cons_of_ne_nil hsome
  rw [hdigits, List.cons_append] at hnumber ⊢
  obtain ⟨hlow, hhigh⟩ := hrange d (by rw [hdigits]; exact List.mem_cons_self)
  have hplain := Lib.CharClass.forall_byte
    (fun d => !(decide (48 ≤ d) && decide (d ≤ 57)) || (!isSpace d && d != 45 && d != 43))
    (by decide +kernel) d
  simp only [hlow, hhigh, decide_true, Bool.and_self, Bool.not_true, Bool.false_or,
    Bool.and_eq_true, Bool.not_eq_true', bne_iff_ne] at hplain
  obtain ⟨⟨hspace, hminus⟩, hplus⟩ := hplain
  rw [strtol, List.dropWhile_cons, if_neg (by rw [hspace]; decide)]
  split
  · rename_i heq
    cases heq
    exact absurd rfl hminus
  · rename_i heq
    cases heq
    exact absurd rfl hplus
  · rw [dropHexPrefix_ten, hnumber]
    omega

theorem leadingNumber_break (s after : List UInt8) :
    leadingNumber 10 (s ++ 13 :: after) = leadingNumber 10 s := by
  have htake : (s ++ 13 :: after).takeWhile (fun c => decide (digitValue c < 10)) =
      s.takeWhile fun c => decide (digitValue c < 10) := by
    rw [List.takeWhile_append]
    split
    · rename_i hall
      have htaken := List.takeWhile_prefix (fun c => decide (digitValue c < 10)) (l := s)
      rw [htaken.eq_of_length hall, List.takeWhile_cons, if_neg (by decide), List.append_nil]
    · rfl
  rw [leadingNumber, leadingNumber, htake]

theorem strtol_break (c : UInt8) (rest after : List UInt8) (hc : isSpace c = false) :
    strtol 10 (c :: rest ++ 13 :: after) = strtol 10 (c :: rest) := by
  have hdrop (tail : List UInt8) : (c :: tail).dropWhile isSpace = c :: tail := by
    rw [List.dropWhile_cons, if_neg (by rw [hc]; decide)]
  rw [strtol, strtol, List.cons_append, hdrop, hdrop]
  by_cases hminus : c = 45
  · subst hminus
    simp only [dropHexPrefix_ten, leadingNumber_break]
  · by_cases hplus : c = 43
    · subst hplus
      simp only [dropHexPrefix_ten, leadingNumber_break]
    · split
      · rename_i heq
        cases heq
        exact absurd rfl hminus
      · rename_i heq
        cases heq
        exact absurd rfl hplus
      · split
        · rename_i heq
          cases heq
          exact absurd rfl hminus
        · rename_i heq
          cases heq
          exact absurd rfl hplus
        · rw [dropHexPrefix_ten, dropHexPrefix_ten, ← List.cons_append, leadingNumber_break]

theorem atoi_toString (n : Nat) (c : UInt8) (rest : List UInt8) (hc : ¬ (48 ≤ c ∧ c ≤ 57))
    (hn : n < 2 ^ 31) : atoi (octets (toString n) ++ c :: rest) = n := by
  rw [atoi, strtol_toString n c rest hc (by omega), longToInt, Int.bmod_eq_of_le (by omega) (by omega)]

theorem isConnection_iff (key : List UInt8) :
    HttpResponse.isConnection key = true ↔ foldKey key = foldKey (octets "connection") := by
  have hname : foldKey (octets "connection") = (octets "connection").map UInt8.toNat := by decide
  have hkey : foldKey key = ((cStr key).map toLower).map UInt8.toNat := by
    rw [foldKey, List.map_map]
    rfl
  have hinjective : Function.Injective UInt8.toNat := fun a b heq => UInt8.toNat_inj.mp heq
  rw [HttpResponse.isConnection, beq_iff_eq, hname, hkey, hinjective.list_map.eq_iff]

theorem contents_printed (headers : HttpMap) (key : List UInt8)
    (hother : foldKey key ≠ foldKey (octets "connection")) :
    Lib.contents foldKey (printed headers) (foldKey key) =
      Lib.contents foldKey headers (foldKey key) := by
  apply Lib.contents_filter
  intro entry _ hkey
  rw [Bool.not_eq_true', ← Bool.not_eq_true, isConnection_iff, hkey]
  exact hother

theorem contents_printed_connection (headers : HttpMap) :
    Lib.contents foldKey (printed headers) (foldKey (octets "connection")) = none := by
  apply Lib.contents_eq_none
  intro entry hentry hkey
  have hkept := (List.mem_filter.mp hentry).2
  rw [(isConnection_iff entry.1).mpr hkey] at hkept
  cases hkept

end Sylar
