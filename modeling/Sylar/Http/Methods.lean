import Mathlib.Data.List.TakeWhile
import Sylar.Http.Parser

/-! `StringToHttpMethod` and `CharsToHttpMethod` of `http.cc`, and the method callback over the
second one. It compares as many bytes as the name has, so it finds a method whose name the token
only begins with. -/
namespace Sylar

/-- `strcmp` finds no difference. -/
def strcmpEq (lhs rhs : List UInt8) : Bool :=
  cStr lhs == cStr rhs

def stringToHttpMethod (m : List UInt8) : HttpMethod :=
  match httpMethodMap.find? fun entry => strcmpEq (octets entry.2) m with
  | some entry => entry.1
  | none => .INVALID_METHOD

structure MethodToken where
  bytes : List UInt8
  nonempty : bytes ≠ []
  chars : ∀ c ∈ bytes, (65 ≤ c ∧ c ≤ 90) ∨ (48 ≤ c ∧ c ≤ 57)

def SetsMethod (σ : Type) (chars : List UInt8) (m : HttpMethod) : Prop :=
  ∀ p : HttpRequestParser σ, p.onRequestMethod chars = { p with data := p.data.setMethod m }

def SetsError (σ : Type) (chars : List UInt8) (v : Nat) : Prop :=
  ∀ p : HttpRequestParser σ, p.onRequestMethod chars = p.setError v

/-- The callback at a token with a space and the bytes of `rest` behind it. -/
structure RecognisesExactly (σ : Type) (token : MethodToken) (rest : List UInt8) : Prop where
  method : ∀ entry ∈ httpMethodMap,
    SetsMethod σ (token.bytes ++ 32 :: rest) entry.1 ↔ token.bytes = octets entry.2
  error : SetsError σ (token.bytes ++ 32 :: rest) 1000 ↔
    ∀ entry ∈ httpMethodMap, token.bytes ≠ octets entry.2

/-- A name that the token begins with is the whole token. -/
def MethodToken.NotExtended (token : MethodToken) : Prop :=
  ∀ entry ∈ httpMethodMap, octets entry.2 <+: token.bytes → token.bytes = octets entry.2

theorem httpMethodMap_valid : ∀ entry ∈ httpMethodMap, entry.1 ≠ .INVALID_METHOD := by
  decide

theorem httpMethodMap_methods :
    ∀ entry ∈ httpMethodMap, ∀ other ∈ httpMethodMap, entry.1 = other.1 → entry = other := by
  decide

theorem httpMethodMap_apart : ∀ entry ∈ httpMethodMap, ∀ other ∈ httpMethodMap,
    octets entry.2 <+: octets other.2 → entry = other := by
  decide

def firstMethod (accepts : HttpMethod × String → Bool) : HttpMethod :=
  match httpMethodMap.find? accepts with
  | some entry => entry.1
  | none => .INVALID_METHOD

theorem firstMethod_eq_invalid_iff (accepts : HttpMethod × String → Bool) :
    firstMethod accepts = .INVALID_METHOD ↔ ∀ entry ∈ httpMethodMap, accepts entry = false := by
  unfold firstMethod
  split
  · rename_i entry hfind
    have hmem := List.mem_of_find?_eq_some hfind
    constructor
    · intro hinvalid
      exact absurd hinvalid (httpMethodMap_valid entry hmem)
    · intro hnone
      have haccepts := List.find?_some hfind
      rw [hnone entry hmem] at haccepts
      contradiction
  · rename_i hfind
    rw [List.find?_eq_none] at hfind
    exact ⟨fun _ entry hmem => Bool.eq_false_iff.mpr (hfind entry hmem), fun _ => rfl⟩

theorem firstMethod_eq_iff (accepts : HttpMethod × String → Bool)
    (honce : ∀ entry ∈ httpMethodMap, ∀ other ∈ httpMethodMap,
      accepts entry = true → accepts other = true → entry = other)
    (entry : HttpMethod × String) (hmem : entry ∈ httpMethodMap) :
    firstMethod accepts = entry.1 ↔ accepts entry = true := by
  unfold firstMethod
  split
  · rename_i found hfind
    have hfound := List.mem_of_find?_eq_some hfind
    have haccepts := List.find?_some hfind
    constructor
    · intro hmethod
      rw [← httpMethodMap_methods found hfound entry hmem hmethod]
      exact haccepts
    · intro hentry
      rw [honce found hfound entry hmem haccepts hentry]
  · rename_i hfind
    rw [List.find?_eq_none] at hfind
    constructor
    · intro hinvalid
      exact absurd hinvalid.symm (httpMethodMap_valid entry hmem)
    · intro hentry
      exact absurd hentry (hfind entry hmem)

theorem strncmpEq_iff (name token rest : List UInt8) (hname : ∀ c ∈ name, c ≠ 0 ∧ c ≠ 32) :
    strncmpEq name.length name (token ++ 32 :: rest) = true ↔ name <+: token := by
  induction name generalizing token with
  | nil => exact ⟨fun _ => List.nil_prefix, fun _ => rfl⟩
  | cons c name ih =>
    obtain ⟨hzero, hspace⟩ := hname c List.mem_cons_self
    have htail := ih token.tail (fun d hd => hname d (List.mem_cons_of_mem c hd))
    cases token with
    | nil => simp [strncmpEq, hspace]
    | cons d token =>
      rw [List.tail_cons] at htail
      simp [strncmpEq, hzero, htail, List.cons_prefix_cons]

theorem strncmpEq_name_iff (token rest : List UInt8) (entry : HttpMethod × String)
    (hmem : entry ∈ httpMethodMap) :
    strncmpEq (octets entry.2).length (octets entry.2) (token ++ 32 :: rest) = true ↔
      octets entry.2 <+: token :=
  strncmpEq_iff (octets entry.2) token rest (httpMethodMap_names entry hmem)

theorem cStr_eq_self (s : List UInt8) (hs : ∀ c ∈ s, c ≠ 0) : cStr s = s := by
  apply List.takeWhile_eq_self_iff.mpr
  intro c hc
  exact decide_eq_true (hs c hc)

theorem MethodToken.cStr_bytes (token : MethodToken) : cStr token.bytes = token.bytes := by
  apply cStr_eq_self
  intro c hc hzero
  subst hzero
  rcases token.chars 0 hc with hupper | hdigit
  · exact absurd hupper.1 (by decide)
  · exact absurd hdigit.1 (by decide)

theorem MethodToken.strcmpEq_iff (token : MethodToken) (entry : HttpMethod × String)
    (hmem : entry ∈ httpMethodMap) :
    strcmpEq (octets entry.2) token.bytes = true ↔ token.bytes = octets entry.2 := by
  have hname := cStr_eq_self (octets entry.2) fun c hc => (httpMethodMap_names entry hmem c hc).1
  rw [strcmpEq, token.cStr_bytes, hname, beq_iff_eq, eq_comm]

theorem httpMethodMap_once (token rest : List UInt8) :
    ∀ entry ∈ httpMethodMap, ∀ other ∈ httpMethodMap,
      strncmpEq (octets entry.2).length (octets entry.2) (token ++ 32 :: rest) = true →
      strncmpEq (octets other.2).length (octets other.2) (token ++ 32 :: rest) = true →
      entry = other := by
  intro entry hentry other hother hfirst hsecond
  rw [strncmpEq_name_iff token rest entry hentry] at hfirst
  rw [strncmpEq_name_iff token rest other hother] at hsecond
  rcases List.prefix_or_prefix_of_prefix hfirst hsecond with hle | hle
  · exact httpMethodMap_apart entry hentry other hother hle
  · exact (httpMethodMap_apart other hother entry hentry hle).symm

theorem charsToHttpMethod_eq_iff (token rest : List UInt8) (entry : HttpMethod × String)
    (hmem : entry ∈ httpMethodMap) :
    charsToHttpMethod (token ++ 32 :: rest) = entry.1 ↔ octets entry.2 <+: token :=
  (firstMethod_eq_iff _ (httpMethodMap_once token rest) entry hmem).trans
    (strncmpEq_name_iff token rest entry hmem)

theorem charsToHttpMethod_eq_invalid_iff (token rest : List UInt8) :
    charsToHttpMethod (token ++ 32 :: rest) = .INVALID_METHOD ↔
      ∀ entry ∈ httpMethodMap, ¬ octets entry.2 <+: token := by
  apply (firstMethod_eq_invalid_iff _).trans
  apply forall₂_congr
  intro entry hmem
  rw [← strncmpEq_name_iff token rest entry hmem, Bool.not_eq_true]

theorem MethodToken.stringToHttpMethod_eq (token : MethodToken) (entry : HttpMethod × String)
    (hmem : entry ∈ httpMethodMap) (hname : token.bytes = octets entry.2) :
    stringToHttpMethod token.bytes = entry.1 := by
  apply (firstMethod_eq_iff _ ?_ entry hmem).mpr
  · exact (token.strcmpEq_iff entry hmem).mpr hname
  · intro first hfirst second hsecond heq heq'
    rw [token.strcmpEq_iff first hfirst] at heq
    rw [token.strcmpEq_iff second hsecond] at heq'
    have hnames : octets first.2 = octets second.2 := heq.symm.trans heq'
    exact httpMethodMap_apart first hfirst second hsecond (hnames ▸ List.prefix_refl _)

theorem MethodToken.stringToHttpMethod_eq_invalid_iff (token : MethodToken) :
    stringToHttpMethod token.bytes = .INVALID_METHOD ↔
      ∀ entry ∈ httpMethodMap, token.bytes ≠ octets entry.2 := by
  apply (firstMethod_eq_invalid_iff _).trans
  apply forall₂_congr
  intro entry hmem
  rw [ne_eq, ← token.strcmpEq_iff entry hmem, Bool.not_eq_true]

def untouched (σ : Type) : HttpRequestParser σ where
  parser :=
    { cs := none
      bodyStart := 0
      mark := 0
      fieldStart := 0
      fieldLen := 0
      queryStart := none
      xmlSent := false
      jsonSent := false }
  data := HttpRequest.new.setMethod .INVALID_METHOD
  error := 0

theorem setsMethod_iff (σ : Type) (chars : List UInt8) (m : HttpMethod)
    (hvalid : m ≠ .INVALID_METHOD) : SetsMethod σ chars m ↔ charsToHttpMethod chars = m := by
  constructor
  · intro hsets
    have hmethod := congrArg (fun p => p.data.method) (hsets (untouched σ))
    by_cases hinvalid : charsToHttpMethod chars = .INVALID_METHOD
    · simp only [HttpRequestParser.onRequestMethod, if_pos hinvalid] at hmethod
      exact absurd hmethod.symm hvalid
    · simp only [HttpRequestParser.onRequestMethod, if_neg hinvalid] at hmethod
      exact hmethod
  · intro hmethod p
    simp only [HttpRequestParser.onRequestMethod, hmethod, if_neg hvalid]

theorem setsError_iff (σ : Type) (chars : List UInt8) :
    SetsError σ chars 1000 ↔ charsToHttpMethod chars = .INVALID_METHOD := by
  constructor
  · intro hsets
    by_contra hvalid
    have herror := congrArg (fun p => p.error) (hsets (untouched σ))
    simp only [HttpRequestParser.onRequestMethod, if_neg hvalid] at herror
    have hzero : 0 = 1000 := herror
    contradiction
  · intro hinvalid p
    simp only [HttpRequestParser.onRequestMethod, if_pos hinvalid]

theorem recognisesExactly_iff (σ : Type) (token : MethodToken) (rest : List UInt8) :
    RecognisesExactly σ token rest ↔ token.NotExtended := by
  have hmethod (entry : HttpMethod × String) (hmem : entry ∈ httpMethodMap) :
      SetsMethod σ (token.bytes ++ 32 :: rest) entry.1 ↔ octets entry.2 <+: token.bytes :=
    (setsMethod_iff σ _ entry.1 (httpMethodMap_valid entry hmem)).trans
      (charsToHttpMethod_eq_iff token.bytes rest entry hmem)
  constructor
  · intro hexact entry hmem hprefix
    exact (hexact.method entry hmem).mp ((hmethod entry hmem).mpr hprefix)
  · intro hwhole
    have hname (entry : HttpMethod × String) (hmem : entry ∈ httpMethodMap) :
        octets entry.2 <+: token.bytes ↔ token.bytes = octets entry.2 :=
      ⟨hwhole entry hmem, fun heq => heq ▸ List.prefix_refl _⟩
    constructor
    · intro entry hmem
      rw [hmethod entry hmem, hname entry hmem]
    · rw [setsError_iff, charsToHttpMethod_eq_invalid_iff]
      apply forall₂_congr
      intro entry hmem
      rw [hname entry hmem]

theorem charsToHttpMethod_eq_string_iff (token : MethodToken) (rest : List UInt8) :
    charsToHttpMethod (token.bytes ++ 32 :: rest) = stringToHttpMethod token.bytes ↔
      token.NotExtended := by
  constructor
  · intro hagree entry hmem hprefix
    -- What the prefix finds is a method, so the whole token has to be some name.
    have hfound := (charsToHttpMethod_eq_iff token.bytes rest entry hmem).mpr hprefix
    by_contra hother
    have hstring : stringToHttpMethod token.bytes = .INVALID_METHOD := by
      rw [token.stringToHttpMethod_eq_invalid_iff]
      intro named hnamed heq
      rw [heq] at hprefix
      rw [httpMethodMap_apart entry hmem named hnamed hprefix] at hother
      exact hother heq
    rw [← hagree, hfound] at hstring
    exact httpMethodMap_valid entry hmem hstring
  · intro hwhole
    by_cases hnamed : ∃ entry ∈ httpMethodMap, token.bytes = octets entry.2
    · obtain ⟨entry, hmem, heq⟩ := hnamed
      rw [token.stringToHttpMethod_eq entry hmem heq]
      exact (charsToHttpMethod_eq_iff token.bytes rest entry hmem).mpr (heq ▸ List.prefix_refl _)
    · have hnone : ∀ entry ∈ httpMethodMap, token.bytes ≠ octets entry.2 :=
        fun entry hmem heq => hnamed ⟨entry, hmem, heq⟩
      rw [token.stringToHttpMethod_eq_invalid_iff.mpr hnone, charsToHttpMethod_eq_invalid_iff]
      intro entry hmem hprefix
      exact hnone entry hmem (hwhole entry hmem hprefix)

/-- The callback is exact, and the two functions agree, for the tokens that do not go on behind
the name of a method. -/
theorem method_recognition_iff (σ : Type) (token : MethodToken) (rest : List UInt8) :
    (RecognisesExactly σ token rest ↔ token.NotExtended) ∧
      (charsToHttpMethod (token.bytes ++ 32 :: rest) = stringToHttpMethod token.bytes ↔
        token.NotExtended) :=
  ⟨recognisesExactly_iff σ token rest, charsToHttpMethod_eq_string_iff token rest⟩

/-- `GETX /` is taken for a `GET`. -/
theorem method_recognition_extended :
    ∃ token : MethodToken, token.bytes = octets "GETX" ∧
      ¬ RecognisesExactly Unit token (octets "/ HTTP/1.1") ∧
      charsToHttpMethod (token.bytes ++ 32 :: octets "/ HTTP/1.1") = .GET ∧
      stringToHttpMethod token.bytes = .INVALID_METHOD := by
  refine ⟨⟨octets "GETX", by decide, by decide +kernel⟩, rfl, ?_, by decide, by decide⟩
  rw [recognisesExactly_iff]
  intro hwhole
  exact absurd (hwhole (.GET, "GET") (by decide) (by decide)) (by decide)

end Sylar
