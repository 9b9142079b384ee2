import Sylar.Http.Request

/-! The accessors of the three maps of `HttpRequest`, in `http.h` and `http.cc`.

The typed accessors of all three families go through `checkGetAs` and `getAs`, and all of them
hand over `m_headers`. -/
namespace Sylar

namespace HttpMap

def erase (m : HttpMap) (key : List UInt8) : HttpMap :=
  List.eraseP (fun entry : List UInt8 × List UInt8 =>
    !caseInsensitiveLess entry.1 key && !caseInsensitiveLess key entry.1) m

def get (m : HttpMap) (key default : List UInt8) : List UInt8 :=
  match m.find key with
  | none => default
  | some value => value

/-- The result, and `*val` before and after. -/
def has (m : HttpMap) (key val : List UInt8) : Bool × List UInt8 :=
  match m.find key with
  | none => (false, val)
  | some value => (true, value)

end HttpMap

section
variable {T : Type} (lexicalCast : List UInt8 → Option T)

/-- The result, and `val` afterwards. An exception of `boost::lexical_cast` is caught. -/
def checkGetAs (m : HttpMap) (key : List UInt8) (default : T) : Bool × T :=
  match m.find key with
  | none => (false, default)
  | some value =>
    match lexicalCast value with
    | some val => (true, val)
    | none => (false, default)

def getAs (m : HttpMap) (key : List UInt8) (default : T) : T :=
  match m.find key with
  | none => default
  | some value =>
    match lexicalCast value with
    | some val => val
    | none => default

end

/-- `HttpRequest` with `m_params` and `m_cookies`. -/
structure MappedRequest extends HttpRequest where
  params : HttpMap
  cookies : HttpMap
deriving DecidableEq

namespace MappedRequest

def new : MappedRequest := { HttpRequest.new with params := [], cookies := [] }

def getHeader (r : MappedRequest) (key default : List UInt8) : List UInt8 :=
  r.headers.get key default

def getParam (r : MappedRequest) (key default : List UInt8) : List UInt8 :=
  r.params.get key default

def getCookie (r : MappedRequest) (key default : List UInt8) : List UInt8 :=
  r.cookies.get key default

def setHeader (r : MappedRequest) (key val : List UInt8) : MappedRequest :=
  { r with toHttpRequest := r.toHttpRequest.setHeader key val }

def setParam (r : MappedRequest) (key val : List UInt8) : MappedRequest :=
  { r with params := r.params.assign key val }

def setCookie (r : MappedRequest) (key val : List UInt8) : MappedRequest :=
  { r with cookies := r.cookies.assign key val }

def delHeader (r : MappedRequest) (key : List UInt8) : MappedRequest :=
  { r with headers := r.headers.erase key }

def delParam (r : MappedRequest) (key : List UInt8) : MappedRequest :=
  { r with params := r.params.erase key }

def delCookie (r : MappedRequest) (key : List UInt8) : MappedRequest :=
  { r with cookies := r.cookies.erase key }

def hasHeader (r : MappedRequest) (key val : List UInt8) : Bool × List UInt8 :=
  r.headers.has key val

def hasParam (r : MappedRequest) (key val : List UInt8) : Bool × List UInt8 :=
  r.params.has key val

def hasCookie (r : MappedRequest) (key val : List UInt8) : Bool × List UInt8 :=
  r.cookies.has key val

section
variable {T : Type} (lexicalCast : List UInt8 → Option T)

def checkGetHeaderAs (r : MappedRequest) (key : List UInt8) (default : T) : Bool × T :=
  checkGetAs lexicalCast r.headers key default

def getHeaderAs (r : MappedRequest) (key : List UInt8) (default : T) : T :=
  getAs lexicalCast r.headers key default

def checkGetParamAs (r : MappedRequest) (key : List UInt8) (default : T) : Bool × T :=
  checkGetAs lexicalCast r.headers key default

def getParamAs (r : MappedRequest) (key : List UInt8) (default : T) : T :=
  getAs lexicalCast r.headers key default

def checkGetCookieAs (r : MappedRequest) (key : List UInt8) (default : T) : Bool × T :=
  checkGetAs lexicalCast r.headers key default

def getCookieAs (r : MappedRequest) (key : List UInt8) (default : T) : T :=
  getAs lexicalCast r.headers key default

end

end MappedRequest

inductive MapCall where
  | setHeader (key val : List UInt8)
  | setParam (key val : List UInt8)
  | setCookie (key val : List UInt8)
  | delHeader (key : List UInt8)
  | delParam (key : List UInt8)
  | delCookie (key : List UInt8)

namespace MappedRequest

def call (r : MappedRequest) : MapCall → MappedRequest
  | .setHeader key val => r.setHeader key val
  | .setParam key val => r.setParam key val
  | .setCookie key val => r.setCookie key val
  | .delHeader key => r.delHeader key
  | .delParam key => r.delParam key
  | .delCookie key => r.delCookie key

def after (history : List MapCall) : MappedRequest :=
  history.foldl call new

end MappedRequest

/-- The conversion of what `has` sees, with the default where there is nothing or where it does
not convert. -/
def converted {T : Type} (lexicalCast : List UInt8 → Option T) (seen : Bool × List UInt8)
    (default : T) : Bool × T :=
  match (if seen.1 then lexicalCast seen.2 else none) with
  | some val => (true, val)
  | none => (false, default)

structure Converts (has : List UInt8 → Bool × List UInt8)
    (check : ∀ T : Type, (List UInt8 → Option T) → T → Bool × T)
    (get : ∀ T : Type, (List UInt8 → Option T) → T → T) : Prop where
  check : ∀ T lexicalCast default val,
    check T lexicalCast default = converted lexicalCast (has val) default
  get : ∀ T lexicalCast default val,
    get T lexicalCast default = (converted lexicalCast (has val) default).2

namespace MappedRequest

def ParamsConverted (r : MappedRequest) (key : List UInt8) : Prop :=
  Converts (r.hasParam key) (fun _ lexicalCast => r.checkGetParamAs lexicalCast key)
    (fun _ lexicalCast => r.getParamAs lexicalCast key)

def CookiesConverted (r : MappedRequest) (key : List UInt8) : Prop :=
  Converts (r.hasCookie key) (fun _ lexicalCast => r.checkGetCookieAs lexicalCast key)
    (fun _ lexicalCast => r.getCookieAs lexicalCast key)

structure SameParamsAndCookies (r r' : MappedRequest) (key : List UInt8) : Prop where
  getParam : ∀ default, r.getParam key default = r'.getParam key default
  hasParam : ∀ val, r.hasParam key val = r'.hasParam key val
  checkGetParamAs : ∀ (T : Type) (lexicalCast : List UInt8 → Option T) (default : T),
    r.checkGetParamAs lexicalCast key default = r'.checkGetParamAs lexicalCast key default
  getParamAs : ∀ (T : Type) (lexicalCast : List UInt8 → Option T) (default : T),
    r.getParamAs lexicalCast key default = r'.getParamAs lexicalCast key default
  getCookie : ∀ default, r.getCookie key default = r'.getCookie key default
  hasCookie : ∀ val, r.hasCookie key val = r'.hasCookie key val
  checkGetCookieAs : ∀ (T : Type) (lexicalCast : List UInt8 → Option T) (default : T),
    r.checkGetCookieAs lexicalCast key default = r'.checkGetCookieAs lexicalCast key default
  getCookieAs : ∀ (T : Type) (lexicalCast : List UInt8 → Option T) (default : T),
    r.getCookieAs lexicalCast key default = r'.getCookieAs lexicalCast key default

def DifferOnlyInHeaders (r r' : MappedRequest) : Prop :=
  r' = { r with headers := r'.headers }

instance DifferOnlyInHeaders.decidable (r r' : MappedRequest) :
    Decidable (DifferOnlyInHeaders r r') :=
  inferInstanceAs (Decidable (r' = { r with headers := r'.headers }))

end MappedRequest

theorem checkGetAs_eq_converted {T : Type} (lexicalCast : List UInt8 → Option T) (m : HttpMap)
    (key val : List UInt8) (default : T) :
    checkGetAs lexicalCast m key default = converted lexicalCast (m.has key val) default := by
  unfold checkGetAs converted HttpMap.has
  cases m.find key <;> rfl

theorem getAs_eq_check {T : Type} (lexicalCast : List UInt8 → Option T) (m : HttpMap)
    (key : List UInt8) (default : T) :
    getAs lexicalCast m key default = (checkGetAs lexicalCast m key default).2 := by
  unfold getAs checkGetAs
  cases m.find key with
  | none => rfl
  | some value =>
    dsimp only
    cases lexicalCast value <;> rfl

theorem checkGetAs_congr {T : Type} (lexicalCast : List UInt8 → Option T) (m m' : HttpMap)
    (key : List UInt8) (default : T) (hfind : m.find key = m'.find key) :
    checkGetAs lexicalCast m key default = checkGetAs lexicalCast m' key default := by
  rw [checkGetAs, checkGetAs, hfind]

theorem find_of_checkGetAs (m m' : HttpMap) (key : List UInt8)
    (hsame : checkGetAs some m key [] = checkGetAs some m' key []) : m.find key = m'.find key := by
  unfold checkGetAs at hsame
  cases hfirst : m.find key <;> cases hsecond : m'.find key <;> simp_all

theorem converts_iff (m seen : HttpMap) (key : List UInt8) :
    Converts (seen.has key) (fun _ lexicalCast => checkGetAs lexicalCast m key)
      (fun _ lexicalCast => getAs lexicalCast m key) ↔ m.find key = seen.find key := by
  constructor
  · intro hconverts
    apply find_of_checkGetAs
    rw [checkGetAs_eq_converted some seen key []]
    exact hconverts.check (List UInt8) some [] []
  · intro hfind
    have hcheck (T : Type) (lexicalCast : List UInt8 → Option T) (default : T) (val : List UInt8) :
        checkGetAs lexicalCast m key default = converted lexicalCast (seen.has key val) default := by
      rw [checkGetAs_congr lexicalCast m seen key default hfind, checkGetAs_eq_converted]
    constructor
    · exact hcheck
    · intro T lexicalCast default val
      rw [getAs_eq_check, hcheck T lexicalCast default val]

namespace MappedRequest

theorem paramsConverted_iff (r : MappedRequest) (key : List UInt8) :
    r.ParamsConverted key ↔ r.headers.find key = r.params.find key :=
  converts_iff r.headers r.params key

theorem cookiesConverted_iff (r : MappedRequest) (key : List UInt8) :
    r.CookiesConverted key ↔ r.headers.find key = r.cookies.find key :=
  converts_iff r.headers r.cookies key

theorem sameParamsAndCookies_iff (r r' : MappedRequest) (key : List UInt8)
    (hdiffer : DifferOnlyInHeaders r r') :
    SameParamsAndCookies r r' key ↔ r.headers.find key = r'.headers.find key := by
  have hparams : r'.params = r.params := by rw [hdiffer]
  have hcookies : r'.cookies = r.cookies := by rw [hdiffer]
  constructor
  · intro hsame
    exact find_of_checkGetAs r.headers r'.headers key (hsame.checkGetParamAs (List UInt8) some [])
  · intro hfind
    have hcheck (T : Type) (lexicalCast : List UInt8 → Option T) (default : T) :
        checkGetAs lexicalCast r.headers key default =
          checkGetAs lexicalCast r'.headers key default :=
      checkGetAs_congr lexicalCast r.headers r'.headers key default hfind
    have hget (T : Type) (lexicalCast : List UInt8 → Option T) (default : T) :
        getAs lexicalCast r.headers key default = getAs lexicalCast r'.headers key default := by
      rw [getAs_eq_check, getAs_eq_check, hcheck T lexicalCast default]
    refine ⟨?_, ?_, hcheck, hget, ?_, ?_, hcheck, hget⟩
    · intro default
      rw [getParam, getParam, hparams]
    · intro val
      rw [hasParam, hasParam, hparams]
    · intro default
      rw [getCookie, getCookie, hcookies]
    · intro val
      rw [hasCookie, hasCookie, hcookies]

/-- After any history the typed accessors of params and of cookies are right about the keys at
which the headers hold the same, and about no others. -/
theorem map_separation_iff (history other : List MapCall) (key : List UInt8)
    (hdiffer : DifferOnlyInHeaders (after history) (after other)) :
    ((after history).ParamsConverted key ↔
        (after history).headers.find key = (after history).params.find key) ∧
      ((after history).CookiesConverted key ↔
        (after history).headers.find key = (after history).cookies.find key) ∧
      (SameParamsAndCookies (after history) (after other) key ↔
        (after history).headers.find key = (after other).headers.find key) :=
  ⟨paramsConverted_iff _ key, cookiesConverted_iff _ key,
    sameParamsAndCookies_iff _ _ key hdiffer⟩

/-- A param and a cookie that the headers know nothing about. -/
theorem map_separation_lost :
    ¬ (after [.setParam (octets "id") (octets "7")]).ParamsConverted (octets "ID") ∧
      ¬ (after [.setCookie (octets "sid") (octets "a")]).CookiesConverted (octets "sid") ∧
      ¬ SameParamsAndCookies (after [.setParam (octets "id") (octets "7")])
        (after [.setParam (octets "id") (octets "7"), .setHeader (octets "id") (octets "8")])
        (octets "id") := by
  rw [paramsConverted_iff, cookiesConverted_iff, sameParamsAndCookies_iff _ _ _ (by decide)]
  decide

/-- A header and a param of one name and one value, and another header. -/
theorem map_separation_agreeing :
    DifferOnlyInHeaders
        (after [.setHeader (octets "id") (octets "7"), .setParam (octets "id") (octets "7")])
        (after [.setParam (octets "id") (octets "7"), .setHeader (octets "host") (octets "a"),
          .setHeader (octets "ID") (octets "7")]) ∧
      ParamsConverted
        (after [.setHeader (octets "id") (octets "7"), .setParam (octets "id") (octets "7")])
        (octets "Id") ∧
      SameParamsAndCookies
        (after [.setHeader (octets "id") (octets "7"), .setParam (octets "id") (octets "7")])
        (after [.setParam (octets "id") (octets "7"), .setHeader (octets "host") (octets "a"),
          .setHeader (octets "ID") (octets "7")]) (octets "id") :=
  ⟨by decide, (map_separation_iff _ [.setHeader (octets "id") (octets "7"),
      .setParam (octets "id") (octets "7")] _ (by decide)).1.mpr (by decide),
    (map_separation_iff _ _ _ (by decide)).2.2.mpr (by decide)⟩

end MappedRequest
end Sylar
