import Sylar.Http.Parser
import Sylar.Lib.Scan

/-! The machine of `http11_parser.rl.cc`, state by state.

The classes have the names of `http11_parser.rl`, where `0 - 31` is a difference: a token may have
every control character but the null. Where the generated code has a negative `char` the byte is
256 more. The cases of an address literal are there twice, and the states of the second copy are
175 further on. -/
namespace Sylar
namespace Http11
open Lib (CharClass one st)

def digit : CharClass := [(48, 57)]

def upper : CharClass := [(65, 90)]

def alpha : CharClass := [(65, 90), (97, 122)]

def xdigit : CharClass := [(48, 57), (65, 70), (97, 102)]

def unreserved : CharClass := alpha ++ digit ++ [(45, 46), (95, 95), (126, 126)]

/-- `more_delims` belong to it when `parser->uri_relaxed`, which nobody writes. -/
def subDelims (relaxed : Bool) : CharClass :=
  [(33, 33), (36, 36), (38, 44), (59, 59), (61, 61)] ++
    if relaxed then [(94, 94), (123, 123), (125, 125)] else []

/-- `ascii -- (HTTP_CTL | HTTP_separator)`. -/
def token : CharClass :=
  [(1, 8), (10, 31), (33, 33), (35, 39), (42, 43), (45, 46), (48, 57), (65, 90), (94, 122),
    (124, 124), (126, 126)]

/-- `any -- HTTP_CTL`. -/
def content : CharClass := [(1, 126), (128, 255)]

def valueByte : CharClass := [(1, 9), (11, 12), (14, 126), (128, 255)]

def leadByte : CharClass := [(1, 8), (11, 12), (14, 31), (33, 126), (128, 255)]

abbrev Label := Lib.Label ParserAction

def tr0 : Label := ⟨[.mark], 2⟩

def tr2 : Label := ⟨[.mark], 194⟩

def tr3 : Label := ⟨[.mark], 198⟩

def tr4 : Label := ⟨[.requestMethod], 3⟩

def tr6 : Label := ⟨[.mark, .requestPath, .requestUri], 4⟩

def tr7 : Label := ⟨[.mark], 19⟩

def tr8 : Label := ⟨[.mark, .requestPath, .requestUri], 20⟩

def tr9 : Label := ⟨[.mark], 24⟩

def tr10 : Label := ⟨[.mark], 33⟩

def tr11 : Label := ⟨[.mark, .requestPath], 29⟩

def tr12 : Label := ⟨[.mark], 173⟩

def tr13 : Label := ⟨[.mark], 5⟩

def tr21 : Label := ⟨[.httpVersion], 13⟩

def tr22 : Label := ⟨[.httpVersion], 17⟩

def tr23 : Label := ⟨[.startField], 14⟩

def tr24 : Label := ⟨[.startField], 348⟩

def tr25 : Label := ⟨[.startField], 18⟩

def tr27 : Label := ⟨[.writeField], 15⟩

def tr28 : Label := ⟨[.mark], 16⟩

def tr29 : Label := ⟨[.mark], 15⟩

def tr30 : Label := ⟨[.mark, .writeValue], 13⟩

def tr31 : Label := ⟨[.mark, .writeValue], 17⟩

def tr33 : Label := ⟨[.writeValue], 13⟩

def tr34 : Label := ⟨[.writeValue], 17⟩

def tr36 : Label := ⟨[], 348⟩

def tr37 : Label := ⟨[.requestPath, .requestUri], 4⟩

def tr39 : Label := ⟨[.requestPath, .requestUri], 20⟩

def tr42 : Label := ⟨[.requestPath], 29⟩

def tr43 : Label := ⟨[.mark, .fragment], 4⟩

def tr44 : Label := ⟨[.mark], 21⟩

def tr45 : Label := ⟨[.mark], 22⟩

def tr46 : Label := ⟨[.fragment], 4⟩

def tr53 : Label := ⟨[.startQuery, .queryString, .requestUri], 4⟩

def tr54 : Label := ⟨[.startQuery], 30⟩

def tr55 : Label := ⟨[.startQuery, .queryString, .requestUri], 20⟩

def tr56 : Label := ⟨[.startQuery], 31⟩

def tr57 : Label := ⟨[.queryString, .requestUri], 4⟩

def tr59 : Label := ⟨[.queryString, .requestUri], 20⟩

def tr203 : Label := ⟨[.mark], 26⟩

def tr204 : Label := ⟨[.mark], 27⟩

def tr224 : Label := ⟨[.requestPath], 196⟩

def tr227 : Label := ⟨[.xml], 349⟩

def tr228 : Label := ⟨[.requestPath], 199⟩

def tr232 : Label := ⟨[.mark], 200⟩

def tr235 : Label := ⟨[.json], 349⟩

abbrev Case := Lib.Case ParserAction

/-- From 1 on: the request line and the header lines. -/
def lineCases (relaxed : Bool) : List Case :=
  [[(one 60, tr2), (one 64, tr3), (upper ++ digit, tr0)],
   [(one 32, tr4), (upper ++ digit, st 175)],
   [(one 32, tr6), (one 35, tr8), (one 37, tr9), (one 47, tr10), (one 63, tr11),
    (alpha, tr12), (unreserved ++ subDelims relaxed ++ one 64, tr7)], [(one 72, tr13)],
   [(one 84, st 6)], [(one 84, st 7)], [(one 80, st 8)],
   [(one 47, st 9)], [(one 49, st 10)],
   -- 10
   [(one 46, st 11)], [([(48, 49)], st 12)], [(one 10, tr21), (one 13, tr22)],
   [(one 10, tr24), (one 13, tr25), (token, tr23)], [(one 58, tr27), (token, st 14)],
   [(one 10, tr30), (one 13, tr31), ([(9, 9), (32, 32)], tr29), (leadByte, tr28)],
   [(one 10, tr33), (one 13, tr34), (valueByte, st 16)], [(one 10, st 13)],
   [(one 10, tr36), (one 58, tr27), (token, st 14)],
   [(one 32, tr37), (one 35, tr39), (one 37, st 24), (one 47, st 26), (one 63, tr42),
    (unreserved ++ subDelims relaxed ++ one 64, st 19)],
   -- 20
   [(one 32, tr43), (one 37, tr45),
    (unreserved ++ subDelims relaxed ++ [(47, 47), (58, 58), (63, 64)], tr44)],
   [(one 32, tr46), (one 37, st 22),
    (unreserved ++ subDelims relaxed ++ [(47, 47), (58, 58), (63, 64)], st 21)],
   [(xdigit, st 23)], [(xdigit, st 21)], [(xdigit, st 25)], [(xdigit, st 19)],
   [(one 32, tr37), (one 35, tr39), (one 37, st 27), (one 63, tr42),
    (unreserved ++ subDelims relaxed ++ [(47, 47), (58, 58), (64, 64)], st 26)],
   [(xdigit, st 28)], [(xdigit, st 26)], [(one 32, tr53), (one 35, tr55), (one 37, tr56),
    (unreserved ++ subDelims relaxed ++ [(47, 47), (58, 58), (63, 64)], tr54)],
   -- 30
   [(one 32, tr57), (one 35, tr59), (one 37, st 31),
    (unreserved ++ subDelims relaxed ++ [(47, 47), (58, 58), (63, 64)], st 30)],
   [(xdigit, st 32)], [(xdigit, st 30)],
   [(one 32, tr37), (one 35, tr39), (one 37, st 27), (one 47, st 34), (one 63, tr42),
    (unreserved ++ subDelims relaxed ++ [(58, 58), (64, 64)], st 26)],
   [(one 32, tr37), (one 35, tr39), (one 37, st 36), (one 47, st 26), (one 58, st 38),
    (one 63, tr42), (one 64, st 42), (one 91, st 47), (unreserved ++ subDelims relaxed, st 35)],
   [(one 32, tr37), (one 35, tr39), (one 37, st 36), (one 47, st 26), (one 58, st 38),
    (one 63, tr42), (one 64, st 42), (unreserved ++ subDelims relaxed, st 35)],
   [(xdigit, st 37)], [(xdigit, st 35)],
   [(one 32, tr37), (one 35, tr39), (one 37, st 40), (one 47, st 26), (one 63, tr42),
    (one 64, st 42), (digit, st 38), (unreserved ++ subDelims relaxed ++ one 58, st 39)],
   [(one 37, st 40), (one 64, st 42), (unreserved ++ subDelims relaxed ++ one 58, st 39)],
   -- 40
   [(xdigit, st 41)], [(xdigit, st 39)],
   [(one 32, tr37), (one 35, tr39), (one 37, st 44), (one 47, st 26), (one 58, st 46),
    (one 63, tr42), (one 91, st 47), (unreserved ++ subDelims relaxed, st 43)],
   [(one 32, tr37), (one 35, tr39), (one 37, st 44), (one 47, st 26), (one 58, st 46),
    (one 63, tr42), (unreserved ++ subDelims relaxed, st 43)], [(xdigit, st 45)],
   [(xdigit, st 43)],
   [(one 32, tr37), (one 35, tr39), (one 47, st 26), (one 63, tr42), (digit, st 46)]]

/-- From 47 on: an address literal. State 61 is behind the closing bracket. -/
def literalCases (relaxed : Bool) (st : Nat → Label) (behind : Case) : List Case :=
  [[(one 6, st 48), (one 58, st 167), (one 118, st 169), (xdigit, st 91)], [(xdigit, st 49)],
   [(one 58, st 53), (xdigit, st 50)],
   -- 50
   [(one 58, st 53), (xdigit, st 51)], [(one 58, st 53), (xdigit, st 52)], [(one 58, st 53)],
   [(one 49, st 84), (one 50, st 87), (digit, st 54), (xdigit, st 90)],
   [(one 46, st 55), (one 58, st 80), (xdigit, st 77)],
   [(one 49, st 72), (one 50, st 74), (digit, st 56)], [(one 46, st 57)],
   [(one 49, st 67), (one 50, st 69), (digit, st 58)], [(one 46, st 59)],
   [(one 49, st 62), (one 50, st 64), (digit, st 60)],
   -- 60
   [(one 93, st 61)],
   behind,
   [(one 93, st 61), (digit, st 63)], [(one 93, st 61), (digit, st 60)],
   [(one 48, st 65), (one 53, st 66), (one 93, st 61)], [(digit, st 60)], [(one 48, st 60)],
   [(one 46, st 59), (digit, st 68)], [(one 46, st 59), (digit, st 58)],
   [(one 46, st 59), (one 48, st 70), (one 53, st 71)],
   -- 70
   [(digit, st 58)], [(one 48, st 58)], [(one 46, st 57), (digit, st 73)],
   [(one 46, st 57), (digit, st 56)], [(one 46, st 57), (one 48, st 75), (one 53, st 76)],
   [(digit, st 56)], [(one 48, st 56)], [(one 58, st 80), (xdigit, st 78)],
   [(one 58, st 80), (xdigit, st 79)], [(one 58, st 80)],
   -- 80
   [(xdigit, st 81)], [(one 93, st 61), (xdigit, st 82)], [(one 93, st 61), (xdigit, st 83)],
   [(one 93, st 61), (xdigit, st 60)],
   [(one 46, st 55), (one 58, st 80), (digit, st 85), (xdigit, st 77)],
   [(one 46, st 55), (one 58, st 80), (digit, st 86), (xdigit, st 78)],
   [(one 46, st 55), (one 58, st 80), (xdigit, st 79)],
   [(one 46, st 55), (one 48, st 88), (one 53, st 89), (one 58, st 80), (xdigit, st 77)],
   [(one 58, st 80), (digit, st 86), (xdigit, st 78)],
   [(one 48, st 86), (one 58, st 80), (xdigit, st 78)],
   -- 90
   [(one 58, st 80), (xdigit, st 77)], [(one 58, st 95), (xdigit, st 92)],
   [(one 58, st 95), (xdigit, st 93)], [(one 58, st 95), (xdigit, st 94)], [(one 58, st 95)],
   [(one 58, st 166), (xdigit, st 96)], [(one 58, st 100), (xdigit, st 97)],
   [(one 58, st 100), (xdigit, st 98)], [(one 58, st 100), (xdigit, st 99)], [(one 58, st 100)],
   -- 100
   [(one 58, st 165), (xdigit, st 101)], [(one 58, st 105), (xdigit, st 102)],
   [(one 58, st 105), (xdigit, st 103)], [(one 58, st 105), (xdigit, st 104)],
   [(one 58, st 105)], [(one 58, st 164), (xdigit, st 106)],
   [(one 58, st 110), (xdigit, st 107)], [(one 58, st 110), (xdigit, st 108)],
   [(one 58, st 110), (xdigit, st 109)], [(one 58, st 110)],
   -- 110
   [(one 58, st 163), (xdigit, st 111)], [(one 58, st 115), (xdigit, st 112)],
   [(one 58, st 115), (xdigit, st 113)], [(one 58, st 115), (xdigit, st 114)],
   [(one 58, st 115)], [(one 58, st 151), (xdigit, st 116)],
   [(one 58, st 120), (xdigit, st 117)], [(one 58, st 120), (xdigit, st 118)],
   [(one 58, st 120), (xdigit, st 119)], [(one 58, st 120)],
   -- 120
   [(one 58, st 150), (xdigit, st 121)], [(one 58, st 125), (xdigit, st 122)],
   [(one 58, st 125), (xdigit, st 123)], [(one 58, st 125), (xdigit, st 124)],
   [(one 58, st 125)], [(one 58, st 126), (xdigit, st 121)],
   [(one 49, st 143), (one 50, st 146), (one 93, st 61), ([(2, 3)], st 48), (digit, st 127),
    (xdigit, st 149)], [(one 46, st 55), (one 58, st 131), (one 93, st 61), (xdigit, st 128)],
   [(one 58, st 131), (one 93, st 61), (xdigit, st 129)],
   [(one 58, st 131), (one 93, st 61), (xdigit, st 130)],
   -- 130
   [(one 58, st 131), (one 93, st 61)],
   [(one 49, st 136), (one 50, st 139), (digit, st 132), (xdigit, st 142)],
   [(one 46, st 55), (one 58, st 80), (one 93, st 61), (xdigit, st 133)],
   [(one 58, st 80), (one 93, st 61), (xdigit, st 134)],
   [(one 58, st 80), (one 93, st 61), (xdigit, st 135)], [(one 58, st 80), (one 93, st 61)],
   [(one 46, st 55), (one 58, st 80), (one 93, st 61), (digit, st 137), (xdigit, st 133)],
   [(one 46, st 55), (one 58, st 80), (one 93, st 61), (digit, st 138), (xdigit, st 134)],
   [(one 46, st 55), (one 58, st 80), (one 93, st 61), (xdigit, st 135)],
   [(one 46, st 55), (one 48, st 140), (one 53, st 141), (one 58, st 80), (one 93, st 61),
    (xdigit, st 133)],
   -- 140
   [(one 58, st 80), (one 93, st 61), (digit, st 138), (xdigit, st 134)],
   [(one 48, st 138), (one 58, st 80), (one 93, st 61), (xdigit, st 134)],
   [(one 58, st 80), (one 93, st 61), (xdigit, st 133)],
   [(one 46, st 55), (one 58, st 131), (one 93, st 61), (digit, st 144), (xdigit, st 128)],
   [(one 46, st 55), (one 58, st 131), (one 93, st 61), (digit, st 145), (xdigit, st 129)],
   [(one 46, st 55), (one 58, st 131), (one 93, st 61), (xdigit, st 130)],
   [(one 46, st 55), (one 48, st 147), (one 53, st 148), (one 58, st 131), (one 93, st 61),
    (xdigit, st 128)], [(one 58, st 131), (one 93, st 61), (digit, st 145), (xdigit, st 129)],
   [(one 48, st 145), (one 58, st 131), (one 93, st 61), (xdigit, st 129)],
   [(one 58, st 131), (one 93, st 61), (xdigit, st 128)],
   -- 150
   [(one 49, st 143), (one 50, st 146), ([(2, 3)], st 48), (digit, st 127), (xdigit, st 149)],
   [(one 49, st 156), (one 50, st 159), ([(2, 3)], st 48), (digit, st 152), (xdigit, st 162)],
   [(one 46, st 55), (one 58, st 131), (xdigit, st 153)], [(one 58, st 131), (xdigit, st 154)],
   [(one 58, st 131), (xdigit, st 155)], [(one 58, st 131)],
   [(one 46, st 55), (one 58, st 131), (digit, st 157), (xdigit, st 153)],
   [(one 46, st 55), (one 58, st 131), (digit, st 158), (xdigit, st 154)],
   [(one 46, st 55), (one 58, st 131), (xdigit, st 155)],
   [(one 46, st 55), (one 48, st 160), (one 53, st 161), (one 58, st 131), (xdigit, st 153)],
   -- 160
   [(one 58, st 131), (digit, st 158), (xdigit, st 154)],
   [(one 48, st 158), (one 58, st 131), (xdigit, st 154)], [(one 58, st 131), (xdigit, st 153)],
   [([(2, 3)], st 48), (xdigit, st 49)], [([(2, 3)], st 48)], [(one 3, st 48)], [(one 4, st 48)],
   [(one 58, st 168)],
   [(one 49, st 143), (one 50, st 146), (one 93, st 61), ([(2, 5)], st 48), (digit, st 127),
    (xdigit, st 149)], [(xdigit, st 170)],
   -- 170
   [(one 46, st 171), (xdigit, st 170)], [(unreserved ++ subDelims relaxed ++ one 58, st 172)],
   [(one 93, st 61), (unreserved ++ subDelims relaxed ++ one 58, st 172)]]

/-- 173 and 174: a scheme, and what follows it. -/
def schemeCases (relaxed : Bool) : List Case :=
  [[(one 32, tr37), (one 35, tr39), (one 37, st 24), (one 47, st 26), (one 58, st 174),
    (one 63, tr42), (alpha ++ digit ++ [(43, 43), (45, 46)], st 173),
    (unreserved ++ subDelims relaxed ++ one 64, st 19)],
   [(one 32, tr6), (one 35, tr8), (one 37, tr204), (one 47, tr10), (one 63, tr11),
    (unreserved ++ subDelims relaxed ++ [(58, 58), (64, 64)], tr203)]]

/-- From 175 on: a method, of at most twenty bytes. -/
def methodCases : List Case :=
  (List.range 18).map (fun i => [(one 32, tr4), (upper ++ digit, st (176 + i))]) ++
    [[(one 32, tr4)]]

/-- From 194 on: the messages that are not requests. -/
def socketCases (relaxed : Bool) : List Case :=
  [[(alpha ++ digit ++ [(45, 46)], st 195)],
   [([(9, 13), (32, 32), (47, 47), (62, 62)], tr224), (alpha ++ digit ++ [(45, 46)], st 195)],
   [(one 62, st 197), (content ++ [(0, 0), (127, 127)], st 196)],
   [(one 0, tr227), (one 62, st 197), (content ++ one 127, st 196)],
   [(one 32, tr228), (one 37, st 203), (one 47, st 208),
    (unreserved ++ subDelims relaxed ++ one 64, st 202)], [(one 123, tr232)],
   -- 200
   [(one 125, st 201), (content ++ [(0, 0), (127, 127)], st 200)],
   [(one 0, tr235), (one 125, st 201), (content ++ one 127, st 200)],
   [(one 32, tr228), (one 37, st 203), (one 47, st 205),
    (unreserved ++ subDelims relaxed ++ one 64, st 202)], [(xdigit, st 204)], [(xdigit, st 202)],
   [(one 32, tr228), (one 37, st 206),
    (unreserved ++ subDelims relaxed ++ [(47, 47), (58, 58), (64, 64)], st 205)],
   [(xdigit, st 207)], [(xdigit, st 205)], [(one 32, tr228), (one 37, st 206), (one 47, st 209),
    (unreserved ++ subDelims relaxed ++ [(58, 58), (64, 64)], st 205)],
   [(one 32, tr228), (one 37, st 211), (one 47, st 205), (one 58, st 213), (one 64, st 217),
    (one 91, st 222), (unreserved ++ subDelims relaxed, st 210)],
   -- 210
   [(one 32, tr228), (one 37, st 211), (one 47, st 205), (one 58, st 213), (one 64, st 217),
    (unreserved ++ subDelims relaxed, st 210)], [(xdigit, st 212)], [(xdigit, st 210)],
   [(one 32, tr228), (one 37, st 215), (one 47, st 205), (one 64, st 217), (digit, st 213),
    (unreserved ++ subDelims relaxed ++ one 58, st 214)],
   [(one 37, st 215), (one 64, st 217), (unreserved ++ subDelims relaxed ++ one 58, st 214)],
   [(xdigit, st 216)], [(xdigit, st 214)],
   [(one 32, tr228), (one 37, st 219), (one 47, st 205), (one 58, st 221), (one 91, st 222),
    (unreserved ++ subDelims relaxed, st 218)],
   [(one 32, tr228), (one 37, st 219), (one 47, st 205), (one 58, st 221),
    (unreserved ++ subDelims relaxed, st 218)], [(xdigit, st 220)],
   -- 220
   [(xdigit, st 218)], [(one 32, tr228), (one 47, st 205), (digit, st 221)]]

def cases (relaxed : Bool) : List Case :=
  [[]] ++ lineCases relaxed ++
    literalCases relaxed st
      [(one 32, tr37), (one 35, tr39), (one 47, st 26), (one 58, st 46), (one 63, tr42)] ++
    schemeCases relaxed ++ methodCases ++ socketCases relaxed ++
    literalCases relaxed (fun n => st (n + 175))
      [(one 32, tr228), (one 47, st 205), (one 58, st 221)] ++
    [[(one 58, tr27), (token, st 14)], []]

/-- `none` is `st0`. -/
def goto (relaxed : Bool) (cs : Nat) (c : UInt8) : Option Label :=
  Lib.jump (cases relaxed) cs c

theorem requestMethod_at_space (relaxed : Bool) :
    ((cases relaxed).zipIdx.all fun entry => entry.1.all fun jump =>
      !jump.2.actions.contains .requestMethod || jump.1 == one 32) = true := by
  cases relaxed <;> decide +kernel

/-- The machine of a parser whose `uri_relaxed` is as given. -/
def machine (relaxed : Bool) : Machine Nat where
  start := 1
  next cs c := (goto relaxed cs c).map fun label => (label.target, label.actions)
  final cs := Nat.ble 348 cs
  method_at_space := by
    intro cs c cs' actions hnext hmethod
    obtain ⟨label, hgoto, heq⟩ := Option.map_eq_some_iff.mp hnext
    cases heq
    obtain ⟨bytes, hhas, htest⟩ := Lib.of_jump (cases relaxed)
      (fun _ bytes label => !label.actions.contains .requestMethod || bytes == one 32)
      (requestMethod_at_space relaxed) cs c label hgoto
    have hcontains : label.actions.contains .requestMethod = true :=
      List.contains_iff_mem.mpr hmethod
    rw [hcontains, Bool.not_true, Bool.false_or, beq_iff_eq] at htest
    subst htest
    simp only [Lib.CharClass.has, Lib.one, List.any_cons, List.any_nil, Bool.or_false, Bool.and_eq_true,
      Nat.ble_eq] at hhas
    exact UInt8.toNat_inj.mp (Nat.le_antisymm hhas.2 hhas.1)

end Http11
end Sylar
