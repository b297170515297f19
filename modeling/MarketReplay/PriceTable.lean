import MarketReplay.Civil.NewYork
import MarketReplay.Civil.Pattern
import MarketReplay.Csv.Record
import MarketReplay.Price
import MarketReplay.Symbol.Text
import MarketReplay.Tape.Point

/-!
# Tables of prices

A price table is comma-separated text whose header names at least `symbol`, `price`, and `time` or
`ts_utc`; `open` and `factor` are optional. A row is a print. The points come out in the order of
time and symbol, equal ones in the order of their rows.
-/

namespace MarketReplay

/-- What is wrong with a row. -/
inductive RowFault where
  | shape
  | symbol (error : SymbolError)
  | noTime
  deriving DecidableEq

/-- Why a table cannot be loaded. -/
inductive LoadError where
  | unreadable (reason : String)
  | emptyInput
  | missingHeader (name : String)
  | badPrice (column value : String)
  | badTime (value : String)
  | badRow (line : Nat) (fault : RowFault)
  | localTimeOutOfRange (second : Int)
  deriving DecidableEq

/-- The text of what is wrong with a row. -/
def RowFault.message : RowFault → String
  | shape => "csv"
  | symbol e => e.message
  | noTime => "row has neither time nor ts_utc"

/-- The text of the error. -/
def LoadError.message : LoadError → String
  | unreadable reason => "io error: " ++ reason
  | emptyInput => "empty input"
  | missingHeader name => "missing header: " ++ name
  | badPrice column value => "failed to parse price in column " ++ column ++ ": " ++ value
  | badTime value => "failed to parse time: " ++ value
  | badRow line fault => "bad row at line " ++ toString line ++ ": " ++ fault.message
  | localTimeOutOfRange second => "time out of range: " ++ toString second

namespace PriceTable

/-- The fields of a row that count. -/
structure Row where
  symbol : String
  time : Option String
  second : Option Int
  price : String
  openPrice : Option String
  factor : Option String

/-- The columns that count. -/
def columns : List String := ["symbol", "time", "ts_utc", "price", "open", "factor"]

/-- A 64-bit integer with an optional sign. -/
def parseSigned? (base : Nat) (cs : List Char) : Option Int :=
  let value := match cs with
    | '-' :: rest => (Text.baseNumber? base rest).map fun n => -(n : Int)
    | '+' :: rest => (Text.baseNumber? base rest).map fun n => (n : Int)
    | rest => (Text.baseNumber? base rest).map fun n => (n : Int)
  value.filter fitsInt64

/-- A 64-bit integer in decimal digits, or in hexadecimal ones after `0x`. -/
def parseSecond? (s : String) : Option Int :=
  match s.toList with
  | '0' :: 'x' :: rest => parseSigned? 16 rest
  | rest => parseSigned? 10 rest

/-- Whether a column that counts stands in the header twice. -/
def hasDuplicate (header : List String) : Bool :=
  columns.any fun c => 1 < header.count c

/-- The field of a column, if it is there and not empty. -/
def cell? (header fields : List String) (column : String) : Option String :=
  ((header.zip fields).lookup column).filter fun s => !s.isEmpty

/-- The row of a record; a record of another width than the header has none. -/
def row? (header fields : List String) : Option Row :=
  if fields.length ≠ header.length || hasDuplicate header then none
  else
    let row := fun second => {
      symbol := (cell? header fields "symbol").getD ""
      time := cell? header fields "time"
      second := second
      price := (cell? header fields "price").getD ""
      openPrice := cell? header fields "open"
      factor := cell? header fields "factor" : Row }
    match cell? header fields "ts_utc" with
    | none => some (row none)
    | some text => (parseSecond? text).map fun n => row (some n)

/-- The forms of a time of exchange, in the order in which they are tried. -/
def timePatterns : List (List Civil.PatternItem) :=
  let withSecond := Civil.clockPattern
  let withMinute : List Civil.PatternItem := [.field .hour, .literal ':', .field .minute]
  [Civil.datePattern ++ [.blanks] ++ withSecond,
   Civil.datePattern ++ [.blanks] ++ withSecond ++ [.fraction],
   Civil.datePattern ++ [.literal 'T'] ++ withSecond,
   Civil.datePattern ++ [.literal 'T'] ++ withSecond ++ [.fraction],
   Civil.datePattern ++ [.blanks] ++ withMinute]

/-- A time of exchange; a bare date is its midnight. -/
def parseTime (s : String) : Except LoadError DateTime :=
  match timePatterns.findSome? fun p => Civil.readDateTime? p s.toList with
  | some t => .ok t
  | none =>
    match Civil.readDate? Civil.datePattern s.toList with
    | some d => .ok (.midnight d)
    | none => .error (.badTime s)

/-- A second of the epoch in exchange time. -/
def parseUniversal (second : Int) : Except LoadError DateTime :=
  match NewYork.universal? second with
  | none => .error (.badTime (toString second))
  | some _ =>
    match NewYork.local? second with
    | none => .error (.localTimeOutOfRange second)
    | some t => .ok t

/-- A decimal of a column. -/
def parsePrice (column s : String) : Except LoadError Int :=
  match Price.parse? s with
  | some n => .ok n
  | none => .error (.badPrice column s)

/-- A decimal of a column that may be empty. -/
def parseOptional (column : String) : Option String → Except LoadError (Option Int)
  | none => .ok none
  | some s => (parsePrice column s).map some

/-- The point of a row; a row's time stands before its second of the epoch. -/
def Row.point (line : Nat) (row : Row) : Except LoadError PricePoint := do
  let symbol ← match Symbol.parse row.symbol with
    | .ok s => .ok s
    | .error e => .error (.badRow line (.symbol e))
  let time ← match row.time, row.second with
    | some t, _ => parseTime t
    | none, some second => parseUniversal second
    | none, none => .error (.badRow line .noTime)
  let price ← parsePrice "price" row.price
  let openPrice ← parseOptional "open" row.openPrice
  let factor ← parseOptional "factor" row.factor
  return ⟨symbol, time, price, openPrice, factor.getD PricePoint.unitFactor⟩

/-- The points of the data records; the number of a record's row counts the header as the first. -/
def readRows (header : List String) : (line : Nat) → List Csv.Record →
    Except LoadError (List PricePoint)
  | _, [] => .ok []
  | line, record :: rest =>
    match row? header (record.fields.map Text.trimmed) with
    | none => .error (.badRow line .shape)
    | some row =>
      match row.point line with
      | .error e => .error e
      | .ok p => (readRows header (line + 1) rest).map (p :: ·)

/-- Whether a point does not come after another: by time, then by symbol. -/
def precedes (a b : PricePoint) : Bool :=
  a.time < b.time || (a.time = b.time && (compare a.symbol b.symbol).isLE)

/-- The points of a table. -/
def parse (content : String) : Except LoadError (List PricePoint) :=
  let text := content.toList.dropWhile (· == '\ufeff')
  if text.all Text.isBlank then .error .emptyInput
  else
    let records := Csv.records text
    let header := ((records.head?.map Csv.Record.fields).getD []).map Text.trimmed
    if !header.contains "symbol" then .error (.missingHeader "symbol")
    else if !header.contains "price" then .error (.missingHeader "price")
    else if !(header.contains "time" || header.contains "ts_utc") then
      .error (.missingHeader "time")
    else (readRows header 2 records.tail).map fun points => points.mergeSort precedes

end PriceTable

end MarketReplay
