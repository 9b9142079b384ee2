import Mathlib.Data.List.TakeWhile
import Sylar.Http.Server

/-! The framing of dumped messages: `HttpRequest::dump` and `HttpResponse::dump`, and how the other
side reads them. A header of the map other than `connection` is dumped with the name and the value
it has, even if its name is that of a header which is generated. -/
namespace Sylar

def httpMethodToString (m : HttpMethod) : String :=
  (httpMethodMap.lookup m).getD "<unknown>"

namespace HttpRequest

def requestLine (req : HttpRequest) : List UInt8 :=
  octets (httpMethodToString req.method ++ " ") ++ req.path ++
    (if req.query = [] then [] else octets "?") ++ req.query ++
    (if req.fragment = [] then [] else octets "#") ++ req.fragment ++
    octets (" HTTP/" ++ toString (req.version >>> 4).toNat ++ "." ++
      toString (req.version &&& 0x0F).toNat)

def dumpLines (req : HttpRequest) : List (List UInt8) :=
  octets ("connection: " ++ if req.close then "close" else "keep-alive") ::
    (req.headers.filter fun i => !HttpResponse.isConnection i.1).map
      (fun i => i.1 ++ octets ":" ++ i.2) ++
    (if req.body = [] then [] else [octets ("content-length: " ++ toString req.body.length)])

def dump (req : HttpRequest) : List UInt8 :=
  req.requestLine ++ octets "\r\n" ++
    req.dumpLines.flatMap (· ++ octets "\r\n") ++ octets "\r\n" ++ req.body

end HttpRequest

/-- The lines up to the first empty one, and what follows that. `line` is what has been read of
the current line, backwards. -/
def readHead (line : List UInt8) : List UInt8 → Option (List (List UInt8) × List UInt8)
  | 13 :: 10 :: rest =>
    if line = [] then some ([], rest)
    else (readHead [] rest).map fun (lines, body) => (line.reverse :: lines, body)
  | c :: rest => readHead (c :: line) rest
  | [] => none

def isBlank (c : UInt8) : Bool := c == 32 || c == 9

def trimBlanks (s : List UInt8) : List UInt8 :=
  ((s.dropWhile isBlank).reverse.dropWhile isBlank).reverse

def headerName (line : List UInt8) : List UInt8 := line.takeWhile (· ≠ 58)

def headerValue (line : List UInt8) : List UInt8 := trimBlanks ((line.dropWhile (· ≠ 58)).drop 1)

/-- The name is `name`, which is in lower case, ignoring case. -/
def isNamed (name : String) (line : List UInt8) : Bool :=
  (headerName line).map toLower == octets name

/-- The message `bytes` has one connection header and at most one content length, which is that of
the body, and its body is `body`. -/
def Framed (bytes body : List UInt8) : Prop :=
  ∃ start lines, readHead [] bytes = some (start :: lines, body) ∧
    lines.countP (isNamed "connection") = 1 ∧ lines.countP (isNamed "content-length") ≤ 1 ∧
    ∀ line ∈ lines, isNamed "content-length" line = true →
      headerValue line = octets (toString body.length)

def printed (headers : HttpMap) : HttpMap := headers.filter fun i => !HttpResponse.isConnection i.1

/-- The dumped headers of the map leave the generated ones alone: none reads as a connection header,
and none as a content length, unless the body is empty and there is just one, which says so. -/
def Harmless (headers : HttpMap) (body : List UInt8) : Prop :=
  (∀ i ∈ printed headers, isNamed "connection" i.1 = false) ∧
  ((∀ i ∈ printed headers, isNamed "content-length" i.1 = false) ∨
    body = [] ∧ ∃ i, (printed headers).filter (fun i => isNamed "content-length" i.1) = [i] ∧
      58 ∉ i.1 ∧ trimBlanks i.2 = octets "0")

/-- Neither `\r` nor `\n`. -/
def NoBreak (s : List UInt8) : Prop := 13 ∉ s ∧ 10 ∉ s

theorem octets_eq (s : String) : octets s = s.toList.flatMap String.utf8EncodeChar := by
  have hencode := String.utf8Encode_toList (b := s)
  rw [octets, String.toUTF8, ← hencode, List.utf8Encode]
  simp

theorem octets_append (s t : String) : octets (s ++ t) = octets s ++ octets t := by
  rw [octets_eq, octets_eq, octets_eq, String.toList_append, List.flatMap_append]

theorem utf8EncodeChar_digit (c : Char) (hc : c.isDigit = true) :
    ∃ b, String.utf8EncodeChar c = [b] ∧ 48 ≤ b ∧ b ≤ 57 := by
  have hrange : 48 ≤ c.val.toNat ∧ c.val.toNat ≤ 57 := by
    rw [Char.isDigit, Bool.and_eq_true, decide_eq_true_iff, decide_eq_true_iff] at hc
    exact ⟨UInt32.le_iff_toNat_le.mp hc.1, UInt32.le_iff_toNat_le.mp hc.2⟩
  have hsize : c.utf8Size = 1 := by
    rw [Char.utf8Size_eq_one_iff, UInt32.le_iff_toNat_le]
    exact Nat.le_trans hrange.2 (by decide)
  refine ⟨c.val.toUInt8, String.utf8EncodeChar_eq_singleton hsize, ?_⟩
  rw [UInt8.le_iff_toNat_le, UInt8.le_iff_toNat_le, UInt32.toNat_toUInt8,
    Nat.mod_eq_of_lt (by omega)]
  exact hrange

theorem octets_toString (n : Nat) :
    octets (toString n) ≠ [] ∧ ∀ b ∈ octets (toString n), 48 ≤ b ∧ b ≤ 57 := by
  have hdigits : ∀ c ∈ Nat.toDigits 10 n, c.isDigit = true := by
    intro c hc
    exact Nat.isDigit_of_mem_toDigits (by decide) (by decide) hc
  rw [octets_eq, Nat.toString_eq_repr, Nat.toList_repr]
  constructor
  · cases hlist : Nat.toDigits 10 n with
    | nil => exact absurd hlist Nat.toDigits_ne_nil
    | cons c digits =>
      rw [hlist] at hdigits
      obtain ⟨b, hb, -⟩ := utf8EncodeChar_digit c (hdigits c List.mem_cons_self)
      simp [hb]
  · intro b hb
    obtain ⟨c, hc, hmem⟩ := List.mem_flatMap.mp hb
    obtain ⟨d, hd, hrange⟩ := utf8EncodeChar_digit c (hdigits c hc)
    rw [hd, List.mem_singleton] at hmem
    exact hmem ▸ hrange

theorem readHead_line (acc line rest : List UInt8) (hline : 13 ∉ line) :
    readHead acc (line ++ 13 :: 10 :: rest) =
      if line.reverse ++ acc = [] then some ([], rest)
      else (readHead [] rest).map fun (lines, body) =>
        ((line.reverse ++ acc).reverse :: lines, body) := by
  induction line generalizing acc with
  | nil =>
    rw [List.nil_append, readHead]
    rfl
  | cons c line ih =>
    rw [List.mem_cons, not_or] at hline
    have hstep : readHead acc (c :: (line ++ 13 :: 10 :: rest)) =
        readHead (c :: acc) (line ++ 13 :: 10 :: rest) := by
      rw [readHead]
      intro other hother
      exact absurd hother.symm hline.1
    rw [List.cons_append, hstep, ih (c :: acc) hline.2, List.reverse_cons, List.append_assoc]
    rfl

theorem readHead_lines (lines : List (List UInt8)) (body : List UInt8)
    (hlines : ∀ line ∈ lines, line ≠ [] ∧ 13 ∉ line) :
    readHead [] (lines.flatMap (· ++ octets "\r\n") ++ octets "\r\n" ++ body) =
      some (lines, body) := by
  have hbreak : octets "\r\n" = [13, 10] := by decide
  rw [hbreak]
  induction lines with
  | nil =>
    rw [List.flatMap_nil, List.nil_append, List.cons_append, List.singleton_append, readHead,
      if_pos rfl]
  | cons line lines ih =>
    obtain ⟨hne, hcr⟩ := hlines line List.mem_cons_self
    have htail := ih fun other hother => hlines other (List.mem_cons_of_mem line hother)
    have hshape : (line :: lines).flatMap (· ++ [13, 10]) ++ [13, 10] ++ body =
        line ++ 13 :: 10 :: (lines.flatMap (· ++ [13, 10]) ++ [13, 10] ++ body) := by simp
    rw [hshape, readHead_line [] line _ hcr, htail, if_neg (by simpa using hne)]
    simp

theorem headerName_append (key rest : List UInt8) :
    headerName (key ++ 58 :: rest) = headerName key := by
  induction key with
  | nil => rfl
  | cons c key ih =>
    unfold headerName at ih ⊢
    by_cases hc : c = 58
    · simp [hc]
    · simp only [List.cons_append, List.takeWhile_cons, ih]

theorem isNamed_append (name : String) (key rest : List UInt8) :
    isNamed name (key ++ 58 :: rest) = isNamed name key := by
  rw [isNamed, headerName_append]
  rfl

theorem headerValue_append (key rest : List UInt8) (hkey : 58 ∉ key) :
    headerValue (key ++ 58 :: rest) = trimBlanks rest := by
  have hdrop : (key ++ 58 :: rest).dropWhile (· ≠ 58) = 58 :: rest := by
    rw [List.dropWhile_append_of_pos]
    · rfl
    · intro c hc
      simpa using fun heq : c = 58 => hkey (heq ▸ hc)
  rw [headerValue, hdrop, List.drop_one, List.tail_cons]

theorem mem_dropWhile_blank (s : List UInt8) (c : UInt8) (hc : isBlank c = false) (hmem : c ∈ s) :
    c ∈ s.dropWhile isBlank := by
  induction s with
  | nil => cases hmem
  | cons d s ih =>
    rw [List.dropWhile_cons]
    rcases List.mem_cons.mp hmem with rfl | htail
    · rw [if_neg (by rw [hc]; decide)]
      exact hmem
    · split
      · exact ih htail
      · exact hmem

theorem mem_trimBlanks (s : List UInt8) (c : UInt8) (hc : isBlank c = false) (hmem : c ∈ s) :
    c ∈ trimBlanks s := by
  rw [trimBlanks, List.mem_reverse]
  apply mem_dropWhile_blank _ c hc
  rw [List.mem_reverse]
  exact mem_dropWhile_blank s c hc hmem

theorem colon_mem_headerValue (key rest : List UInt8) (hkey : 58 ∈ key) :
    58 ∈ headerValue (key ++ 58 :: rest) := by
  apply mem_trimBlanks _ 58 (by decide)
  induction key with
  | nil => cases hkey
  | cons c key ih =>
    by_cases hc : c = 58
    · cases hc
      simp
    · have hlater := ih ((List.mem_cons.mp hkey).resolve_left fun heq => hc heq.symm)
      rw [List.cons_append, List.dropWhile_cons, if_pos (by simpa using hc)]
      exact hlater

theorem trimBlanks_space (s : List UInt8) : trimBlanks (32 :: s) = trimBlanks s := by
  have hblank : isBlank 32 = true := by decide
  rw [trimBlanks, List.dropWhile_cons, if_pos hblank]
  rfl

theorem dropWhile_blank_eq (s : List UInt8) (hs : ∀ c ∈ s, isBlank c = false) :
    s.dropWhile isBlank = s := by
  cases s with
  | nil => rfl
  | cons c s => rw [List.dropWhile_cons, if_neg (by rw [hs c List.mem_cons_self]; decide)]

theorem trimBlanks_eq (s : List UInt8) (hs : ∀ c ∈ s, isBlank c = false) : trimBlanks s = s := by
  rw [trimBlanks, dropWhile_blank_eq s hs, dropWhile_blank_eq s.reverse, List.reverse_reverse]
  intro c hc
  exact hs c (List.mem_reverse.mp hc)

theorem notMem_octets_toString (n : Nat) (c : UInt8) (hc : ¬ (48 ≤ c ∧ c ≤ 57)) :
    c ∉ octets (toString n) :=
  fun hmem => hc ((octets_toString n).2 c hmem)

theorem trimBlanks_toString (n : Nat) : trimBlanks (octets (toString n)) = octets (toString n) := by
  apply trimBlanks_eq
  intro c hc
  obtain ⟨hlow, -⟩ := (octets_toString n).2 c hc
  rw [isBlank, Bool.or_eq_false_iff, beq_eq_false_iff_ne, beq_eq_false_iff_ne]
  refine ⟨?_, ?_⟩
  · rintro rfl
    revert hlow
    decide
  · rintro rfl
    revert hlow
    decide

structure LinesOk (lines : List (List UInt8)) (body : List UInt8) : Prop where
  connection : lines.countP (isNamed "connection") = 1
  length : lines.countP (isNamed "content-length") ≤ 1
  value : ∀ line ∈ lines, isNamed "content-length" line = true →
    headerValue line = octets (toString body.length)

theorem readHead_message (start : List UInt8) (lines : List (List UInt8)) (body : List UInt8)
    (hstart : start ≠ [] ∧ 13 ∉ start) (hlines : ∀ line ∈ lines, line ≠ [] ∧ 13 ∉ line) :
    readHead [] (start ++ octets "\r\n" ++ lines.flatMap (· ++ octets "\r\n") ++ octets "\r\n" ++
      body) = some (start :: lines, body) := by
  have hread := readHead_lines (start :: lines) body (List.forall_mem_cons.mpr ⟨hstart, hlines⟩)
  rw [List.flatMap_cons] at hread
  exact hread

theorem framed_iff (start : List UInt8) (lines : List (List UInt8)) (body : List UInt8)
    (hstart : start ≠ [] ∧ 13 ∉ start) (hlines : ∀ line ∈ lines, line ≠ [] ∧ 13 ∉ line) :
    Framed (start ++ octets "\r\n" ++ lines.flatMap (· ++ octets "\r\n") ++ octets "\r\n" ++ body)
      body ↔ LinesOk lines body := by
  have hread := readHead_message start lines body hstart hlines
  constructor
  · rintro ⟨first, found, hfound, hconnection, hlength, hvalue⟩
    cases hread.symm.trans hfound
    exact ⟨hconnection, hlength, hvalue⟩
  · rintro ⟨hconnection, hlength, hvalue⟩
    exact ⟨start, lines, hread, hconnection, hlength, hvalue⟩

theorem LinesOk.perm {lines others : List (List UInt8)} {body : List UInt8}
    (h : LinesOk lines body) (hperm : lines.Perm others) : LinesOk others body := by
  refine ⟨?_, ?_, ?_⟩
  · rw [← hperm.countP_eq]
    exact h.connection
  · rw [← hperm.countP_eq]
    exact h.length
  · intro line hline
    exact h.value line (hperm.mem_iff.mpr hline)

/-- The lines of both dumps, in the order of `HttpRequest::dump`; `pad` is what stands behind the
colon of a header of the map. -/
def headerLines (pad : List UInt8) (close : Bool) (headers : HttpMap) (body : List UInt8) :
    List (List UInt8) :=
  octets ("connection: " ++ if close then "close" else "keep-alive") ::
    (printed headers).map (fun i => i.1 ++ 58 :: (pad ++ i.2)) ++
    (if body = [] then [] else [octets ("content-length: " ++ toString body.length)])

theorem connection_line (close : Bool) :
    isNamed "connection" (octets ("connection: " ++ if close then "close" else "keep-alive")) =
      true ∧
    isNamed "content-length" (octets ("connection: " ++ if close then "close" else "keep-alive")) =
      false := by
  cases close <;> decide

theorem length_line_eq (n : Nat) : octets ("content-length: " ++ toString n) =
    octets "content-length" ++ 58 :: (32 :: octets (toString n)) := by
  have hname : octets "content-length: " = octets "content-length" ++ [58, 32] := by decide
  rw [octets_append, hname, List.append_assoc]
  rfl

theorem length_line (n : Nat) :
    isNamed "connection" (octets ("content-length: " ++ toString n)) = false ∧
    isNamed "content-length" (octets ("content-length: " ++ toString n)) = true ∧
    headerValue (octets ("content-length: " ++ toString n)) = octets (toString n) := by
  rw [length_line_eq, isNamed_append, isNamed_append, headerValue_append _ _ (by decide),
    trimBlanks_space, trimBlanks_toString]
  exact ⟨by decide, by decide, rfl⟩

theorem countP_printed (name : String) (pad : List UInt8) (headers : HttpMap) :
    ((printed headers).map (fun i => i.1 ++ 58 :: (pad ++ i.2))).countP (isNamed name) =
      (printed headers).countP fun i => isNamed name i.1 := by
  rw [List.countP_map]
  apply List.countP_congr
  intro i _
  rw [Function.comp_apply, isNamed_append]

theorem countP_headerLines (pad : List UInt8) (close : Bool) (headers : HttpMap)
    (body : List UInt8) :
    (headerLines pad close headers body).countP (isNamed "connection") =
      (printed headers).countP (fun i => isNamed "connection" i.1) + 1 ∧
    (headerLines pad close headers body).countP (isNamed "content-length") =
      (printed headers).countP (fun i => isNamed "content-length" i.1) +
        if body = [] then 0 else 1 := by
  obtain ⟨hconnection, hlength⟩ := connection_line close
  obtain ⟨hother, hsame, -⟩ := length_line body.length
  unfold headerLines
  rw [List.countP_append, List.countP_append, List.countP_cons_of_pos hconnection,
    List.countP_cons_of_neg (by rw [hlength]; decide), countP_printed, countP_printed]
  split
  · exact ⟨rfl, rfl⟩
  · rw [List.countP_cons_of_neg (by rw [hother]; decide), List.countP_cons_of_pos hsame]
    exact ⟨rfl, rfl⟩

section
variable (pad : List UInt8) (hpad : ∀ value, trimBlanks (pad ++ value) = trimBlanks value)
include hpad

theorem headerValue_zero_iff (key value : List UInt8) :
    headerValue (key ++ 58 :: (pad ++ value)) = octets (toString 0) ↔
      58 ∉ key ∧ trimBlanks value = octets "0" := by
  have hzero : octets (toString 0) = octets "0" := by decide
  by_cases hkey : 58 ∈ key
  · refine iff_of_false ?_ (fun hboth => hboth.1 hkey)
    intro hvalue
    have hcolon := colon_mem_headerValue key (pad ++ value) hkey
    rw [hvalue] at hcolon
    exact notMem_octets_toString 0 58 (by decide) hcolon
  · rw [headerValue_append key _ hkey, hpad, hzero, and_iff_right hkey]

theorem linesOk_of_harmless (close : Bool) (headers : HttpMap) (body : List UInt8)
    (h : Harmless headers body) : LinesOk (headerLines pad close headers body) body := by
  obtain ⟨hconnection, hlength⟩ := countP_headerLines pad close headers body
  obtain ⟨hnone, hlengths⟩ := h
  refine ⟨?_, ?_, ?_⟩
  · rw [hconnection, List.countP_eq_zero.mpr fun i hi => by rw [hnone i hi]; decide]
  · rw [hlength]
    rcases hlengths with hnolength | ⟨rfl, i, hfilter, -⟩
    · rw [List.countP_eq_zero.mpr fun i hi => by rw [hnolength i hi]; decide]
      split
      · omega
      · omega
    · rw [List.countP_eq_length_filter, hfilter, if_pos rfl]
      exact Nat.le_refl 1
  · intro line hline hnamed
    rw [headerLines, List.mem_append, List.mem_cons, List.mem_map] at hline
    rcases hline with (rfl | ⟨i, hi, rfl⟩) | hgenerated
    · rw [(connection_line close).2] at hnamed
      cases hnamed
    · rw [isNamed_append] at hnamed
      rcases hlengths with hnolength | ⟨rfl, only, hfilter, hcolon, hzero⟩
      · rw [hnolength i hi] at hnamed
        cases hnamed
      · have hmem : i ∈ (printed headers).filter fun i => isNamed "content-length" i.1 :=
          List.mem_filter.mpr ⟨hi, hnamed⟩
        rw [hfilter, List.mem_singleton] at hmem
        cases hmem
        exact (headerValue_zero_iff pad hpad i.1 i.2).mpr ⟨hcolon, hzero⟩
    · split at hgenerated
      · cases hgenerated
      · cases List.mem_singleton.mp hgenerated
        exact (length_line body.length).2.2

theorem harmless_of_linesOk (close : Bool) (headers : HttpMap) (body : List UInt8)
    (h : LinesOk (headerLines pad close headers body) body) : Harmless headers body := by
  obtain ⟨hconnection, hlength⟩ := countP_headerLines pad close headers body
  obtain ⟨hone, hatMost, hvalue⟩ := h
  rw [hconnection] at hone
  rw [hlength] at hatMost
  constructor
  · intro i hi
    have hzero := List.countP_eq_zero.mp (Nat.succ.inj hone) i hi
    exact Bool.eq_false_iff.mpr hzero
  · by_cases hbody : body = []
    · rw [if_pos hbody, List.countP_eq_length_filter] at hatMost
      cases hfilter : (printed headers).filter fun i => isNamed "content-length" i.1 with
      | nil =>
        left
        intro i hi
        exact Bool.eq_false_iff.mpr (List.filter_eq_nil_iff.mp hfilter i hi)
      | cons i others =>
        rw [hfilter, List.length_cons] at hatMost
        have hothers : others = [] := List.eq_nil_of_length_eq_zero (by omega)
        have hmem : i ∈ (printed headers).filter fun i => isNamed "content-length" i.1 := by
          rw [hfilter]
          exact List.mem_cons_self
        obtain ⟨hi, hnamed⟩ := List.mem_filter.mp hmem
        have hline : i.1 ++ 58 :: (pad ++ i.2) ∈ headerLines pad close headers body := by
          rw [headerLines, List.mem_append, List.mem_cons, List.mem_map]
          exact .inl (.inr ⟨i, hi, rfl⟩)
        have hzero := hvalue _ hline (by rw [isNamed_append]; exact hnamed)
        rw [hbody, List.length_nil, headerValue_zero_iff pad hpad] at hzero
        rw [hothers]
        exact .inr ⟨hbody, i, rfl, hzero⟩
    · left
      rw [if_neg hbody] at hatMost
      have hzero : (printed headers).countP (fun i => isNamed "content-length" i.1) = 0 := by omega
      intro i hi
      exact Bool.eq_false_iff.mpr (List.countP_eq_zero.mp hzero i hi)

end

def NoBreaks (headers : HttpMap) (texts : List (List UInt8)) : Prop :=
  (∀ i ∈ headers, NoBreak i.1 ∧ NoBreak i.2) ∧ ∀ text ∈ texts, NoBreak text

theorem headerLines_clean (pad : List UInt8) (close : Bool) (headers : HttpMap) (body : List UInt8)
    (hpad : 13 ∉ pad) (hheaders : ∀ i ∈ headers, NoBreak i.1 ∧ NoBreak i.2) :
    ∀ line ∈ headerLines pad close headers body, line ≠ [] ∧ 13 ∉ line := by
  have hshape : ∀ first rest : List UInt8, 13 ∉ first → 13 ∉ rest →
      first ++ 58 :: rest ≠ [] ∧ 13 ∉ first ++ 58 :: rest := by
    intro first rest hfirst hrest
    refine ⟨by simp, ?_⟩
    rw [List.mem_append, List.mem_cons, not_or, not_or]
    exact ⟨hfirst, by decide, hrest⟩
  intro line hline
  rw [headerLines, List.mem_append, List.mem_cons, List.mem_map] at hline
  rcases hline with (rfl | ⟨i, hi, rfl⟩) | hgenerated
  · cases close <;> decide
  · obtain ⟨hkey, hvalue⟩ := hheaders i (List.mem_filter.mp hi).1
    apply hshape _ _ hkey.1
    rw [List.mem_append, not_or]
    exact ⟨hpad, hvalue.1⟩
  · split at hgenerated
    · cases hgenerated
    · cases List.mem_singleton.mp hgenerated
      rw [length_line_eq]
      apply hshape _ _ (by decide)
      rw [List.mem_cons, not_or]
      exact ⟨by decide, notMem_octets_toString _ 13 (by decide)⟩

namespace HttpRequest

theorem requestLine_clean (req : HttpRequest)
    (htexts : ∀ text ∈ [req.path, req.query, req.fragment], NoBreak text) :
    req.requestLine ≠ [] ∧ 13 ∉ req.requestLine := by
  have hmethod : octets (httpMethodToString req.method ++ " ") ≠ [] ∧
      13 ∉ octets (httpMethodToString req.method ++ " ") := by
    cases req.method <;> decide
  have hpath := (htexts req.path (by simp)).1
  have hquery := (htexts req.query (by simp)).1
  have hfragment := (htexts req.fragment (by simp)).1
  have hmark : ∀ (text : List UInt8) (mark : String), 13 ∉ octets mark →
      13 ∉ if text = [] then [] else octets mark := by
    intro text mark hfree
    split
    · exact List.not_mem_nil
    · exact hfree
  have hversion : 13 ∉ octets (" HTTP/" ++ toString (req.version >>> 4).toNat ++ "." ++
      toString (req.version &&& 0x0F).toNat) := by
    rw [octets_append, octets_append, octets_append]
    simp only [List.mem_append, not_or]
    exact ⟨⟨⟨by decide, notMem_octets_toString _ 13 (by decide)⟩, by decide⟩,
      notMem_octets_toString _ 13 (by decide)⟩
  unfold requestLine
  constructor
  · simp only [List.append_assoc]
    exact List.append_ne_nil_of_left_ne_nil hmethod.1 _
  · simp only [List.mem_append, not_or]
    exact ⟨⟨⟨⟨⟨⟨hmethod.2, hpath⟩, hmark _ _ (by decide)⟩, hquery⟩, hmark _ _ (by decide)⟩,
      hfragment⟩, hversion⟩

theorem dumpLines_eq (req : HttpRequest) :
    req.dumpLines = headerLines [] req.close req.headers req.body := by
  have hcolon : octets ":" = [58] := by decide
  unfold dumpLines headerLines printed
  rw [hcolon]
  simp

theorem readHead_dump (req : HttpRequest)
    (hclean : NoBreaks req.headers [req.path, req.query, req.fragment]) :
    ∃ lines, readHead [] req.dump = some (lines, req.body) := by
  rw [dump, dumpLines_eq]
  exact ⟨_, readHead_message _ _ _ (req.requestLine_clean hclean.2)
    (headerLines_clean [] _ _ _ List.not_mem_nil hclean.1)⟩

theorem framed_dump_iff (req : HttpRequest)
    (hclean : NoBreaks req.headers [req.path, req.query, req.fragment]) :
    Framed req.dump req.body ↔ Harmless req.headers req.body := by
  rw [dump, dumpLines_eq, framed_iff _ _ _ (req.requestLine_clean hclean.2)
    (headerLines_clean [] _ _ _ List.not_mem_nil hclean.1)]
  exact ⟨harmless_of_linesOk [] (fun _ => rfl) _ _ _, linesOk_of_harmless [] (fun _ => rfl) _ _ _⟩

end HttpRequest

namespace HttpResponse

def statusLine (rsp : HttpResponse) : List UInt8 :=
  octets ("HTTP/" ++ toString (rsp.version >>> 4).toNat ++ "." ++
      toString (rsp.version &&& 0x0F).toNat ++ " " ++ toString rsp.status ++ " ") ++
    (if rsp.reason = [] then octets (httpStatusToString rsp.status) else rsp.reason)

theorem httpStatusToString_clean (status : Nat) : 13 ∉ octets (httpStatusToString status) := by
  have htable : ∀ entry ∈ httpStatusMap, 13 ∉ octets entry.2 := by decide
  rw [httpStatusToString]
  cases hfound : httpStatusMap.lookup status with
  | none => decide
  | some text =>
    obtain ⟨before, after, hmap, -⟩ := List.lookup_eq_some_iff.mp hfound
    apply htable (status, text)
    rw [hmap]
    exact List.mem_append_right before List.mem_cons_self

theorem statusLine_clean (rsp : HttpResponse) (hreason : NoBreak rsp.reason) :
    rsp.statusLine ≠ [] ∧ 13 ∉ rsp.statusLine := by
  have hversion : octets ("HTTP/" ++ toString (rsp.version >>> 4).toNat ++ "." ++
      toString (rsp.version &&& 0x0F).toNat ++ " " ++ toString rsp.status ++ " ") ≠ [] ∧
      13 ∉ octets ("HTTP/" ++ toString (rsp.version >>> 4).toNat ++ "." ++
      toString (rsp.version &&& 0x0F).toNat ++ " " ++ toString rsp.status ++ " ") := by
    simp only [octets_append]
    constructor
    · exact List.append_ne_nil_of_right_ne_nil _ (by decide)
    · simp only [List.mem_append, not_or]
      exact ⟨⟨⟨⟨⟨⟨by decide, notMem_octets_toString _ 13 (by decide)⟩, by decide⟩,
        notMem_octets_toString _ 13 (by decide)⟩, by decide⟩,
        notMem_octets_toString _ 13 (by decide)⟩, by decide⟩
  unfold statusLine
  refine ⟨List.append_ne_nil_of_left_ne_nil hversion.1 _, ?_⟩
  rw [List.mem_append, not_or]
  refine ⟨hversion.2, ?_⟩
  split
  · exact httpStatusToString_clean rsp.status
  · exact hreason.1

/-- The lines are those of `HttpRequest::dump`, with a space behind the colon and the connection
header behind those of the map. -/
theorem dumpHeaders_lines (rsp : HttpResponse) :
    (rsp.dumpHeaders.map fun i => i.1 ++ octets ": " ++ i.2).Perm
      (headerLines [32] rsp.close rsp.headers rsp.body) := by
  have hcolon : octets ": " = [58, 32] := by decide
  have hconnection : octets "connection" ++ octets ": " ++
      octets (if rsp.close then "close" else "keep-alive") =
      octets ("connection: " ++ if rsp.close then "close" else "keep-alive") := by
    cases rsp.close <;> decide
  have hlength : octets "content-length" ++ octets ": " ++ octets (toString rsp.body.length) =
      octets ("content-length: " ++ toString rsp.body.length) := by
    rw [length_line_eq, hcolon, List.append_assoc]
    rfl
  have hprinted : (rsp.headers.filter fun i => !isConnection i.1).map
      (fun i => i.1 ++ octets ": " ++ i.2) =
      (printed rsp.headers).map fun i => i.1 ++ 58 :: ([32] ++ i.2) := by
    apply List.map_congr_left
    intro i _
    rw [hcolon, List.append_assoc]
    rfl
  unfold dumpHeaders headerLines
  rw [List.map_append, List.map_append, hprinted, List.map_singleton, hconnection]
  apply List.Perm.append (List.perm_append_singleton _ _)
  by_cases hbody : rsp.body = []
  · rw [if_pos hbody, if_pos hbody, List.map_nil]
  · rw [if_neg hbody, if_neg hbody, List.map_singleton, hlength]

theorem dump_eq (rsp : HttpResponse) :
    rsp.dump = rsp.statusLine ++ octets "\r\n" ++
      (rsp.dumpHeaders.map fun i => i.1 ++ octets ": " ++ i.2).flatMap (· ++ octets "\r\n") ++
      octets "\r\n" ++ rsp.body := by
  unfold dump statusLine
  rw [List.flatMap_map]

theorem dumpHeaders_clean (rsp : HttpResponse)
    (hheaders : ∀ i ∈ rsp.headers, NoBreak i.1 ∧ NoBreak i.2) :
    ∀ line ∈ rsp.dumpHeaders.map fun i => i.1 ++ octets ": " ++ i.2, line ≠ [] ∧ 13 ∉ line := by
  intro line hline
  exact headerLines_clean [32] _ _ _ (by decide) hheaders line
    (rsp.dumpHeaders_lines.mem_iff.mp hline)

theorem readHead_dump (rsp : HttpResponse) (hclean : NoBreaks rsp.headers [rsp.reason]) :
    ∃ lines, readHead [] rsp.dump = some (lines, rsp.body) := by
  rw [dump_eq]
  exact ⟨_, readHead_message _ _ _ (rsp.statusLine_clean (hclean.2 _ List.mem_cons_self))
    (rsp.dumpHeaders_clean hclean.1)⟩

theorem framed_dump_iff (rsp : HttpResponse) (hclean : NoBreaks rsp.headers [rsp.reason]) :
    Framed rsp.dump rsp.body ↔ Harmless rsp.headers rsp.body := by
  have hperm := rsp.dumpHeaders_lines
  rw [dump_eq, framed_iff _ _ _ (rsp.statusLine_clean (hclean.2 _ List.mem_cons_self))
    (rsp.dumpHeaders_clean hclean.1)]
  constructor
  · intro hok
    exact harmless_of_linesOk [32] trimBlanks_space _ _ _ (hok.perm hperm)
  · intro hharmless
    exact (linesOk_of_harmless [32] trimBlanks_space _ _ _ hharmless).perm hperm.symm

end HttpResponse

/-- A message without line breaks in its head is read with the body it was dumped with, and its
framing is right exactly if the headers of the map are harmless. -/
theorem dump_framed_iff (req : HttpRequest) (rsp : HttpResponse)
    (hreq : NoBreaks req.headers [req.path, req.query, req.fragment])
    (hrsp : NoBreaks rsp.headers [rsp.reason]) :
    ((∃ lines, readHead [] req.dump = some (lines, req.body)) ∧
      (Framed req.dump req.body ↔ Harmless req.headers req.body)) ∧
    (∃ lines, readHead [] rsp.dump = some (lines, rsp.body)) ∧
      (Framed rsp.dump rsp.body ↔ Harmless rsp.headers rsp.body) :=
  ⟨⟨req.readHead_dump hreq, req.framed_dump_iff hreq⟩,
    rsp.readHead_dump hrsp, rsp.framed_dump_iff hrsp⟩

def greeting (key val : String) : HttpRequest :=
  (HttpRequest.new.setHeader (octets key) (octets val)).setBody (octets "hello sylar")

theorem dump_framed_iff_host :
    Framed (greeting "host" "www.sylar.top").dump (octets "hello sylar") := by
  have hreq : NoBreaks (greeting "host" "www.sylar.top").headers [octets "/", [], []] := by
    unfold NoBreaks NoBreak
    decide
  have hrsp : NoBreaks (HttpResponse.new 0x11 true).headers [[]] := by
    unfold NoBreaks NoBreak
    decide
  refine (dump_framed_iff (greeting "host" "www.sylar.top") (HttpResponse.new 0x11 true)
    hreq hrsp).1.2.mpr ⟨?_, .inl ?_⟩
  · decide
  · decide

/-- A content length of the map stands beside the generated one. -/
theorem two_lengths : (greeting "Content-Length" "5").dumpLines =
      [octets "connection: close", octets "Content-Length:5", octets "content-length: 11"] ∧
    ¬ Framed (greeting "Content-Length" "5").dump (octets "hello sylar") := by
  have hclean : NoBreaks (greeting "Content-Length" "5").headers [octets "/", [], []] := by
    unfold NoBreaks NoBreak
    decide
  refine ⟨by decide, ?_⟩
  intro hframed
  obtain ⟨-, hnone | ⟨hbody, -⟩⟩ :=
    ((greeting "Content-Length" "5").framed_dump_iff hclean).mp hframed
  · revert hnone
    decide
  · revert hbody
    decide

end Sylar
