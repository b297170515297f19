import MarketReplay.Symbol
import MarketReplay.Civil.Pattern
import MarketReplay.Text.Quoted

/-!
# The written form of symbols

An equity is written as its ticker. An option is written as its underlying ticker filled to six
characters, two digits each of year, month and day, the letter of its right, and its strike in
thousandths filled to eight digits. `Symbol.parse` reads both; a text of 21 bytes is an option.
-/

namespace MarketReplay

/-- Why a symbol cannot be made or read. -/
inductive SymbolError where
  | emptyTicker
  | invalidTicker (ticker : String)
  | underlyingNotEquity (underlying : String)
  | nonPositiveStrike (strike : Int)
  | malformed (text : String)
  deriving DecidableEq

/-- The text of the error. -/
def SymbolError.message : SymbolError → String
  | emptyTicker => "ticker must not be empty"
  | invalidTicker t => "invalid ticker: " ++ Text.quoted t
  | underlyingNotEquity s => "underlying " ++ s ++ " is not an equity"
  | nonPositiveStrike k => "strike must be > 0, got " ++ toString k ++ " micros"
  | malformed s => "malformed symbol: " ++ Text.quoted s

namespace Symbol

/-- The letter of a right. -/
def rightLetter : OptionRight → Char
  | .call => 'C'
  | .put => 'P'

/-- The written form of contract terms. -/
def contractText (c : OptionContract) : String :=
  let (m, d) := c.expiry.monthDay
  Text.padRight 6 ' ' c.underlying ++ Text.zeroPaddedInt 2 (c.expiry.year.tmod 100) ++
    Text.zeroPadded 2 m ++ Text.zeroPadded 2 d ++ (rightLetter c.right).toString ++
    Text.zeroPaddedInt 8 (c.strike.tdiv 1000)

/-- The written form. -/
def text : Symbol → String
  | equity t => t
  | option c => contractText c

/-- The characters of a ticker: letters and digits of the first 128 characters, and the point. -/
def isTickerChar (c : Char) : Bool := c.isAlphanum || c == '.'

/-- A ticker has one to six characters of the ticker alphabet. -/
def checkTicker (t : String) : Except SymbolError Unit :=
  if t.isEmpty then .error .emptyTicker
  else if t.utf8ByteSize > 6 || !t.toList.all isTickerChar then .error (.invalidTicker t)
  else .ok ()

/-- The option on an equity. -/
def optionOn (underlying : Symbol) (expiry : Date) (strike : Int) (right : OptionRight)
    (style : OptionStyle) : Except SymbolError Symbol :=
  match underlying with
  | option _ => .error (.underlyingNotEquity underlying.text)
  | equity t => do
    checkTicker t
    if strike ≤ 0 then .error (.nonPositiveStrike strike)
    else .ok (option ⟨t, expiry, strike, right, style⟩)

/-- The equity of a ticker with blanks around it. -/
def parseEquity (s : List Char) : Except SymbolError Symbol :=
  let t := String.ofList (Text.trim s)
  if t.isEmpty then .error .emptyTicker
  else do
    checkTicker t
    .ok (equity t)

/-- The right of a letter. -/
def rightOfLetter? : Char → Option OptionRight
  | 'C' => some .call
  | 'P' => some .put
  | _ => none

/-- The expiry, right and strike of the part of an option text after its root; the year is one of
the years from 2000 on. -/
def parseTerms? (terms : List Char) : Option (Date × OptionRight × Int) := do
  let expiry ← Civil.readDate? Civil.compactDatePattern (['2', '0'] ++ terms.take 6)
  let right ← rightOfLetter? (← terms[6]?)
  let strike := terms.drop 7
  if strike.all Char.isDigit then some (expiry, right, Text.digitsValue strike * 1000) else none

/-- The option of a text of 21 bytes, of American style. -/
def parseOption (raw : List Char) : Except SymbolError Symbol :=
  let malformed := SymbolError.malformed (String.ofList raw)
  if !raw.all fun c => c.toNat < 128 then .error malformed
  else
    match parseTerms? (raw.drop 6) with
    | none => .error malformed
    | some (expiry, right, strike) => do
      let underlying ← parseEquity (raw.take 6)
      optionOn underlying expiry strike right .american

/-- The symbol of a text. -/
def parse (s : String) : Except SymbolError Symbol :=
  let raw := Text.trimRight s.toList
  if raw.all Text.isBlank then .error .emptyTicker
  else if (String.ofList raw).utf8ByteSize = 21 then parseOption raw
  else parseEquity raw

end Symbol

end MarketReplay
