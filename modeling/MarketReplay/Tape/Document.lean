import MarketReplay.Json.Reading
import MarketReplay.Tape.Quote

/-!
# Documents of prints and quotes

Points and quotes are read from documents and written to them. A contract whose written form does
not read back as itself is shown with its terms.
-/

namespace MarketReplay

/-- The written form; a contract that it does not identify is followed by expiry, strike and
style. -/
def Symbol.fullText (s : Symbol) : String :=
  let terms := fun (c : OptionContract) =>
    "|" ++ c.expiry.text ++ "|" ++ toString c.strike ++ "|" ++
      Json.choiceName Json.optionStyles c.style
  match s, Symbol.parse s.text with
  | .equity _, _ => s.text
  | .option c, .ok back => if back = s then s.text else s.text ++ terms c
  | .option c, .error _ => s.text ++ terms c

namespace Json

/-- A symbol that its document identifies. -/
def ofFullSymbol (s : Symbol) : Json := string s.fullText

/-- A moment, a blank between date and time. -/
def ofMoment (t : DateTime) : Json := string t.text

/-- A moment or null. -/
def ofMomentOption (t : Option DateTime) : Json := ofStringOption (t.map DateTime.text)

/-- The quotes of symbols. -/
def ofQuotes (quotes : List (Symbol × Quote)) : Json :=
  let opening := fun (o : SessionOpening) =>
    ofFields [("date", ofDate o.date), ("time", ofMoment o.time), ("price", int o.price)]
  array (quotes.map fun (symbol, q) =>
    ofFields [("symbol", ofFullSymbol symbol), ("time", ofMoment q.time), ("price", int q.price),
      ("open", (q.sessionOpen.map opening).getD null)])

end Json

/-- The document of a point. -/
def PricePoint.toJson (p : PricePoint) : Json :=
  .ofFields
    [("symbol", .ofFullSymbol p.symbol),
     ("time", .ofMoment p.time),
     ("price", .int p.price),
     ("open", .ofIntOption p.openPrice),
     ("factor", .int p.factor)]

namespace Reading

/-- A point; without a factor it has the one that adjusts nothing. -/
def point (j : Json) : Reading PricePoint := do
  return {
    symbol := ← j.read "symbol" symbol
    time := ← j.read "time" moment
    price := ← j.read "price" int
    openPrice := ← j.readOption "open" int
    factor := ← j.readOr "factor" PricePoint.unitFactor int }

/-- The opening of a session. -/
def sessionOpening (j : Json) : Reading SessionOpening := do
  return ⟨← j.read "date" date, ← j.read "time" moment, ← j.read "price" int⟩

/-- A quote with its symbol. -/
def quote (j : Json) : Reading (Symbol × Quote) := do
  return (← j.read "symbol" symbol,
    ⟨← j.read "time" moment, ← j.read "price" int, ← j.readOption "open" sessionOpening⟩)

/-- The slice of the quotes of a document at an instant; a later quote of a symbol replaces an
earlier one. -/
def slice (now : Instant) (j : Json) : Reading DataSlice := do
  let quotes ← j.read "quotes" (list quote)
  return quotes.foldl (fun s q => s.insert q.1 q.2) (.emptyAt now)

end Reading

end MarketReplay
