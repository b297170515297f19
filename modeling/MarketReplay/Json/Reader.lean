import MarketReplay.Json
import MarketReplay.Text.Digits
import MarketReplay.Width

/-!
# Reading documents

`Json.parse?` reads a document from its text. An integer stays one if it fits 64 bits, signed or
unsigned; every other number is the nearest binary fraction. Of two fields of one key the later
counts.
-/

namespace MarketReplay.Json

/-- The text without the blanks at its start. -/
def skipBlanks (cs : List Char) : List Char :=
  cs.dropWhile fun c => c == ' ' || c == '\t' || c == '\n' || c == '\r'

/-- The character of a short escape. -/
def shortEscape? : Char → Option Char
  | 'n' => some '\n'
  | 't' => some '\t'
  | 'r' => some '\r'
  | 'b' => some '\x08'
  | 'f' => some '\x0c'
  | '"' => some '"'
  | '\\' => some '\\'
  | '/' => some '/'
  | _ => none

/-- The character of two halves of a pair. -/
def pairChar? (high low : Nat) : Option Char :=
  if 0xd800 ≤ high && high < 0xdc00 && 0xdc00 ≤ low && low < 0xe000 then
    some (Char.ofNat (0x10000 + (high - 0xd800) * 0x400 + (low - 0xdc00)))
  else none

/-- A code that is a character by itself. -/
def soloChar? (n : Nat) : Option Char :=
  if 0xd800 ≤ n && n < 0xe000 then none else some (Char.ofNat n)

/-- The rest of a string and the text after its closing quote; `acc` is what was read, reversed. -/
def readString (acc : List Char) : List Char → Option (String × List Char)
  | [] => none
  | '"' :: rest => some (String.ofList acc.reverse, rest)
  | '\\' :: 'u' :: a :: b :: c :: d :: rest =>
    match (Text.baseNumber? 16 [a, b, c, d]).bind soloChar? with
    | some char => readString (char :: acc) rest
    | none =>
      match rest with
      | '\\' :: 'u' :: e :: f :: g :: h :: rest' =>
        match Text.baseNumber? 16 [a, b, c, d], Text.baseNumber? 16 [e, f, g, h] with
        | some high, some low =>
          match pairChar? high low with
          | some char => readString (char :: acc) rest'
          | none => none
        | _, _ => none
      | _ => none
  | '\\' :: c :: rest =>
    match shortEscape? c with
    | some char => readString (char :: acc) rest
    | none => none
  | c :: rest => if c.toNat < 0x20 then none else readString (c :: acc) rest

/-- The greatest unsigned integer of 64 bits. -/
def maxUnsigned64 : Int := 18446744073709551615

/-- The number of a text without blanks. -/
def numberOf? (cs : List Char) : Option JsonNumber :=
  let negative := cs.head? == some '-'
  let body := if negative then cs.drop 1 else cs
  let whole := body.takeWhile Char.isDigit
  let real := ((Binary64.parse? cs).filter Binary64.isFinite).map JsonNumber.real
  if whole.isEmpty || (1 < whole.length && whole.head? == some '0') then none
  else
    match body.dropWhile Char.isDigit with
    | [] =>
      let n : Int := Text.digitsValue whole
      let n := if negative then -n else n
      if (negative && n == 0) || n < minInt64 || maxUnsigned64 < n then real else some (.integer n)
    | '.' :: d :: _ => if d.isDigit then real else none
    | 'e' :: _ => real
    | 'E' :: _ => real
    | _ => none

/-- A number and the text after it. -/
def readNumber (cs : List Char) : Option (Json × List Char) :=
  let isPart := fun c : Char =>
    c.isDigit || c == '-' || c == '+' || c == '.' || c == 'e' || c == 'E'
  (numberOf? (cs.takeWhile isPart)).map fun n => (number n, cs.dropWhile isPart)

mutual

/-- A value and the text after it; values nest at most `fuel` deep. -/
def readValue : (fuel : Nat) → List Char → Option (Json × List Char)
  | 0, _ => none
  | fuel + 1, cs =>
    match skipBlanks cs with
    | '"' :: rest => (readString [] rest).map fun (s, rest) => (string s, rest)
    | '[' :: rest =>
      match skipBlanks rest with
      | ']' :: rest => some (array [], rest)
      | rest => readItems fuel [] rest
    | '\x7b' :: rest =>
      match skipBlanks rest with
      | '\x7d' :: rest => some (object [], rest)
      | rest => readFields fuel [] rest
    | 't' :: 'r' :: 'u' :: 'e' :: rest => some (bool true, rest)
    | 'f' :: 'a' :: 'l' :: 's' :: 'e' :: rest => some (bool false, rest)
    | 'n' :: 'u' :: 'l' :: 'l' :: rest => some (null, rest)
    | rest => readNumber rest

/-- The array of the items read, reversed in `acc`, and those that follow. -/
def readItems : (fuel : Nat) → List Json → List Char → Option (Json × List Char)
  | 0, _, _ => none
  | fuel + 1, acc, cs =>
    match readValue fuel cs with
    | none => none
    | some (item, rest) =>
      match skipBlanks rest with
      | ',' :: rest => readItems fuel (item :: acc) rest
      | ']' :: rest => some (array (item :: acc).reverse, rest)
      | _ => none

/-- The object of the fields read, reversed in `acc`, and those that follow. -/
def readFields : (fuel : Nat) → List (String × Json) → List Char → Option (Json × List Char)
  | 0, _, _ => none
  | fuel + 1, acc, cs =>
    match skipBlanks cs with
    | '"' :: rest =>
      match readString [] rest with
      | none => none
      | some (key, rest) =>
        match skipBlanks rest with
        | ':' :: rest =>
          match readValue fuel rest with
          | none => none
          | some (value, rest) =>
            match skipBlanks rest with
            | ',' :: rest => readFields fuel ((key, value) :: acc) rest
            | '\x7d' :: rest => some (ofFields ((key, value) :: acc).reverse, rest)
            | _ => none
        | _ => none
    | _ => none

end

/-- The document of a text. -/
def parse? (text : String) : Option Json :=
  let cs := text.toList
  match readValue (cs.length + 1) cs with
  | some (j, rest) => if (skipBlanks rest).isEmpty then some j else none
  | none => none

end MarketReplay.Json
