import MarketReplay.SortedMap
import MarketReplay.Tape.Point

/-!
# Quotes and slices

A quote is the latest known state of a symbol, a slice the quotes of an instant by symbol.
-/

namespace MarketReplay

/-- The opening print of a session. -/
structure SessionOpening where
  date : Date
  time : DateTime
  price : Int
  deriving DecidableEq

/-- The latest print of a symbol and the opening of the last session seen so far. -/
structure Quote where
  time : DateTime
  price : Int
  sessionOpen : Option SessionOpening
  deriving DecidableEq

/-- The quotes at an instant. -/
structure DataSlice where
  instant : Instant
  quotes : SortedMap Symbol Quote

namespace DataSlice

/-- The slice without quotes. -/
def emptyAt (instant : Instant) : DataSlice := ⟨instant, .empty⟩

/-- The quote of a symbol. -/
def get? (s : DataSlice) (symbol : Symbol) : Option Quote := s.quotes.get? symbol

/-- The price of a symbol. -/
def price? (s : DataSlice) (symbol : Symbol) : Option Int := (s.get? symbol).map Quote.price

/-- Whether a symbol has a quote. -/
def contains (s : DataSlice) (symbol : Symbol) : Bool := s.quotes.contains symbol

/-- The slice with a quote, which replaces an earlier one of the symbol. -/
def insert (s : DataSlice) (symbol : Symbol) (quote : Quote) : DataSlice :=
  { s with quotes := s.quotes.insert symbol quote }

/-- Whether there is no quote. -/
def isEmpty (s : DataSlice) : Bool := s.quotes.isEmpty

end DataSlice

end MarketReplay
