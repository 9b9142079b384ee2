import Sylar.Http.ResponseParser
import Sylar.Lib.Scan

/-! The machine of `httpclient_parser.rl.cc`, state by state.

The names of three headers are read in states of their own, up to the letter in which another name
differs from them. Where the generated code has a negative `char` the byte is 256 more. -/
namespace Sylar
namespace Httpclient
open Lib (CharClass one st)

def digit : CharClass := [(48, 57)]

def xdigit : CharClass := [(48, 57), (65, 70), (97, 102)]

/-- `ascii -- (CTL | tspecials)`. -/
def token : CharClass :=
  [(33, 33), (35, 39), (42, 43), (45, 46), (48, 57), (65, 90), (94, 122), (124, 124), (126, 126)]

def space : CharClass := [(9, 13), (32, 32)]

def blank : CharClass := [(9, 9), (11, 12), (32, 32)]

def blankOrReturn : CharClass := [(9, 9), (11, 13), (32, 32)]

def notLine : CharClass := [(0, 9), (11, 255)]

def valueByte : CharClass := [(0, 9), (11, 12), (14, 255)]

def leadByte : CharClass := [(0, 8), (14, 31), (33, 255)]

/-- A letter, given as a small one, and the capital. -/
def letter (c : Nat) : CharClass := [(c - 32, c - 32), (c, c)]

abbrev Label := Lib.Label ClientAction

def tr0 : Label := ⟨[.mark], 2⟩

def tr2 : Label := ⟨[.mark], 8⟩

def tr3 : Label := ⟨[.chunkSize], 120⟩

def tr4 : Label := ⟨[.chunkSize], 3⟩

def tr6 : Label := ⟨[.chunkSize], 4⟩

def tr7 : Label := ⟨[], 120⟩

def tr8 : Label := ⟨[.startField], 5⟩

def tr9 : Label := ⟨[.writeField, .startValue, .writeValue], 120⟩

def tr10 : Label := ⟨[.writeField, .startValue, .writeValue], 3⟩

def tr12 : Label := ⟨[.writeField, .startValue, .writeValue], 4⟩

def tr13 : Label := ⟨[.writeField, .startValue], 6⟩

def tr14 : Label := ⟨[.startValue], 7⟩

def tr15 : Label := ⟨[.writeValue], 120⟩

def tr16 : Label := ⟨[.writeValue], 3⟩

def tr18 : Label := ⟨[.writeValue], 4⟩

def tr26 : Label := ⟨[.httpVersion], 16⟩

def tr27 : Label := ⟨[.mark], 17⟩

def tr28 : Label := ⟨[.statusCode], 18⟩

def tr30 : Label := ⟨[.mark], 19⟩

def tr32 : Label := ⟨[.reasonPhrase], 20⟩

def tr33 : Label := ⟨[.reasonPhrase], 24⟩

def tr35 : Label := ⟨[.startField], 21⟩

def tr36 : Label := ⟨[.startField], 25⟩

def tr37 : Label := ⟨[.startField], 44⟩

def tr39 : Label := ⟨[.writeField], 22⟩

def tr40 : Label := ⟨[.startValue], 23⟩

def tr41 : Label := ⟨[.startValue], 22⟩

def tr42 : Label := ⟨[.startValue, .writeValue], 20⟩

def tr43 : Label := ⟨[.startValue, .writeValue], 24⟩

def tr45 : Label := ⟨[.writeValue], 20⟩

def tr46 : Label := ⟨[.writeValue], 24⟩

def tr58 : Label := ⟨[.writeField], 35⟩

def tr59 : Label := ⟨[.startValue], 35⟩

def tr60 : Label := ⟨[.startValue, .writeValue], 36⟩

def tr61 : Label := ⟨[.startValue, .writeValue], 95⟩

def tr62 : Label := ⟨[.startValue], 96⟩

def tr64 : Label := ⟨[], 122⟩

def tr66 : Label := ⟨[.startField], 90⟩

def tr74 : Label := ⟨[.writeConnectionClose], 120⟩

def tr75 : Label := ⟨[.writeConnectionClose], 3⟩

def tr76 : Label := ⟨[.writeConnectionClose, .startField], 21⟩

def tr77 : Label := ⟨[.writeConnectionClose, .startField], 25⟩

def tr78 : Label := ⟨[.writeConnectionClose, .startField], 44⟩

def tr95 : Label := ⟨[.writeField], 61⟩

def tr96 : Label := ⟨[.startValue], 61⟩

def tr97 : Label := ⟨[.startValue, .writeValue], 62⟩

def tr98 : Label := ⟨[.startValue, .writeValue], 80⟩

def tr99 : Label := ⟨[.startValue], 81⟩

def tr101 : Label := ⟨[], 121⟩

def tr103 : Label := ⟨[.startValue, .startField], 73⟩

def tr104 : Label := ⟨[.startValue], 64⟩

def tr111 : Label := ⟨[.writeValue, .transChunked], 20⟩

def tr112 : Label := ⟨[.writeValue], 71⟩

def tr113 : Label := ⟨[.transChunked], 20⟩

def tr136 : Label := ⟨[.writeValue], 43⟩

def tr137 : Label := ⟨[.writeValue], 88⟩

def tr148 : Label := ⟨[.writeField], 112⟩

def tr149 : Label := ⟨[.startValue], 112⟩

def tr150 : Label := ⟨[.startValue, .writeValue], 113⟩

def tr151 : Label := ⟨[.startValue, .writeValue], 118⟩

def tr152 : Label := ⟨[.startValue], 119⟩

def tr154 : Label := ⟨[], 123⟩

def tr156 : Label := ⟨[.startValue, .startField], 117⟩

def tr157 : Label := ⟨[.startValue], 115⟩

def tr158 : Label := ⟨[.writeContentLen, .writeValue], 20⟩

def tr159 : Label := ⟨[.writeContentLen, .writeValue], 24⟩

abbrev Case := Lib.Case ClientAction

def keyName (key : CharClass) (n : Nat) : Case := [(key, st n), (one 58, tr39), (token, st 21)]

def keyValue (key : CharClass) (n : Nat) : Case :=
  [(key, st n), (one 10, tr45), (one 13, tr46), (valueByte, st 23)]

/-- From 1 on: a chunk header, and the status line. -/
def startCases : List Case :=
  [[(one 72, tr2), (xdigit, tr0)], [(one 10, tr3), (one 13, tr4), (one 59, tr6), (xdigit, st 2)],
   [(one 10, tr7)], [(token, tr8)],
   [(one 10, tr9), (one 13, tr10), (one 59, tr12), (one 61, tr13), (token, st 5)],
   [(token, tr14)], [(one 10, tr15), (one 13, tr16), (one 59, tr18), (token, st 7)],
   [(one 84, st 9)], [(one 84, st 10)],
   -- 10
   [(one 80, st 11)], [(one 47, st 12)], [(digit, st 13)], [(one 46, st 14), (digit, st 13)],
   [(digit, st 15)], [(one 32, tr26), (digit, st 15)], [(digit, tr27)],
   [(one 32, tr28), (digit, st 17)], [(notLine, tr30)],
   [(one 10, tr32), (one 13, tr33), (valueByte, st 19)]]

/-- From 20 on: a header line, and `Connection: close`. -/
def lineCases : List Case :=
  [[(one 10, tr7), (one 13, st 3), (letter 99, tr36), (letter 116, tr37), (token, tr35)],
   [(one 58, tr39), (token, st 21)],
   [(one 10, tr42), (one 13, tr43), (blank, tr41), (leadByte, tr40)],
   [(one 10, tr45), (one 13, tr46), (valueByte, st 23)], [(one 10, st 20)],
   keyName (letter 111) 26, keyName (letter 110) 27,
   [(one 58, tr39), (letter 110, st 28), (letter 116, st 101), (token, st 21)],
   keyName (letter 101) 29, keyName (letter 99) 30,
   -- 30
   keyName (letter 116) 31, keyName (letter 105) 32, keyName (letter 111) 33,
   keyName (letter 110) 34, [(one 58, tr58), (token, st 21)],
   [(one 10, tr60), (one 13, tr61), (letter 99, tr62), (blank, tr59), (leadByte, tr40)],
   [(one 10, tr64), (one 13, st 89), (letter 99, tr66), (letter 116, tr37), (blank, st 37),
    (token, tr35)], [(letter 99, st 38), (space, st 37)], [(letter 108, st 39)],
   [(letter 111, st 40)],
   -- 40
   [(letter 115, st 41)], [(letter 101, st 42)], [(one 10, st 43), (one 13, st 88)],
   [(one 10, tr74), (one 13, tr75), (letter 99, tr77), (letter 116, tr78), (token, tr76)]]

/-- From 44 on: `Transfer-Encoding: chunked`, and what may follow a `Connection` without a value. -/
def encodingCases : List Case :=
  [keyName (letter 114) 45, keyName (letter 97) 46, keyName (letter 110) 47,
   keyName (letter 115) 48, keyName (letter 102) 49, keyName (letter 101) 50,
   -- 50
   keyName (letter 114) 51, keyName (one 45) 52, keyName (letter 101) 53, keyName (letter 110) 54,
   keyName (letter 99) 55, keyName (letter 111) 56, keyName (letter 100) 57,
   keyName (letter 105) 58, keyName (letter 110) 59, keyName (letter 103) 60,
   -- 60
   [(one 58, tr95), (token, st 21)],
   [(one 10, tr97), (one 13, tr98), (letter 99, tr99), (blank, tr96), (leadByte, tr40)],
   [(one 10, tr101), (one 13, st 72), (letter 99, tr103), (letter 116, tr37), (blank, st 63),
    (token, tr35)], [(letter 99, tr104), (space, st 63)], [(letter 104, st 65)],
   [(letter 117, st 66)], [(letter 110, st 67)], [(letter 107, st 68)], [(letter 101, st 69)],
   [(letter 100, st 70)],
   -- 70
   [(one 10, tr111), (one 13, tr112)], [(one 10, tr113)],
   [(one 10, tr101), (letter 99, tr104), (blankOrReturn, st 63)],
   [(one 58, tr39), (letter 104, st 74), (letter 111, st 26), (token, st 21)],
   keyName (letter 117) 75, keyName (letter 110) 76, keyName (letter 107) 77,
   keyName (letter 101) 78, keyName (letter 100) 79,
   [(one 10, tr111), (one 13, tr112), (one 58, tr39), (token, st 21)],
   -- 80
   [(one 10, st 62), (letter 99, tr104), (blankOrReturn, st 63)], keyValue (letter 104) 82,
   keyValue (letter 117) 83, keyValue (letter 110) 84, keyValue (letter 107) 85,
   keyValue (letter 101) 86, keyValue (letter 100) 87,
   [(one 10, tr111), (one 13, tr112), (valueByte, st 23)], [(one 10, st 43)],
   [(one 10, tr64), (letter 99, st 38), (blankOrReturn, st 37)],
   -- 90
   [(one 58, tr39), (letter 108, st 91), (letter 111, st 26), (token, st 21)],
   keyName (letter 111) 92, keyName (letter 115) 93, keyName (letter 101) 94,
   [(one 10, st 43), (one 13, st 88), (one 58, tr39), (token, st 21)],
   [(one 10, st 36), (letter 99, st 38), (blankOrReturn, st 37)], keyValue (letter 108) 97,
   keyValue (letter 111) 98, keyValue (letter 115) 99, keyValue (letter 101) 100,
   -- 100
   [(one 10, tr136), (one 13, tr137), (valueByte, st 23)]]

/-- From 101 on: `Content-Length`. -/
def lengthCases : List Case :=
  [keyName (letter 101) 102, keyName (letter 110) 103, keyName (letter 116) 104,
   keyName (one 45) 105, keyName (letter 108) 106, keyName (letter 101) 107,
   keyName (letter 110) 108, keyName (letter 103) 109, keyName (letter 116) 110,
   -- 110
   keyName (letter 104) 111, [(one 58, tr148), (token, st 21)],
   [(one 10, tr150), (one 13, tr151), (blank, tr149), (digit, tr152), (leadByte, tr40)],
   [(one 10, tr154), (one 13, st 116), (letter 99, tr36), (letter 116, tr37), (blank, st 114),
    (digit, tr156), (token, tr35)], [(space, st 114), (digit, tr157)],
   [(one 10, tr158), (one 13, tr159), (digit, st 115)],
   [(one 10, tr154), (blankOrReturn, st 114), (digit, tr157)],
   [(one 10, tr158), (one 13, tr159), (one 58, tr39), (digit, st 117), (token, st 21)],
   [(one 10, st 113), (blankOrReturn, st 114), (digit, tr157)],
   [(one 10, tr158), (one 13, tr159), (digit, st 119), (valueByte, st 23)],
   -- 120
   [], [(letter 99, tr104), (space, st 63)], [(letter 99, st 38), (space, st 37)],
   [(space, st 114), (digit, tr157)]]

def cases : List Case :=
  [[]] ++ startCases ++ lineCases ++ encodingCases ++ lengthCases

/-- `none` is `st0`. -/
def goto (cs : Nat) (c : UInt8) : Option Label :=
  Lib.jump cases cs c

def machine : ClientMachine Nat where
  start := 1
  behindSwitch := 2
  next cs c := (goto cs c).map fun label => (label.target, label.actions)
  final cs := Nat.ble 120 cs

end Httpclient
end Sylar
