import MarketReplay.SortedMap
import MarketReplay.Tape.Point

/-!
# Price series

A source holds for each symbol the series of its points in the order of time, points of equal time
in the order they came, and the listed contracts. A contract with a point is listed by it.
-/

namespace MarketReplay

/-- Price series by symbol and the listed contracts. -/
structure PriceSource where
  series : SortedMap Symbol (List PricePoint)
  contracts : SortedSet Symbol

namespace PriceSource

/-- The source without points and contracts. -/
def empty : PriceSource := ⟨.empty, .empty⟩

instance : Inhabited PriceSource := ⟨empty⟩

/-- Points in the order of time; the sort is stable. -/
def sortByTime (points : List PricePoint) : List PricePoint :=
  points.mergeSort fun a b => a.time ≤ b.time

/-- The source with every series sorted. -/
def sortAll (src : PriceSource) : PriceSource :=
  { src with series := src.series.mapValues fun _ ps => sortByTime ps }

/-- The source with a point at the end of its series. -/
def push (src : PriceSource) (p : PricePoint) : PriceSource where
  series := src.series.update p.symbol [] (· ++ [p])
  contracts := if p.symbol.isDerivative then src.contracts.add p.symbol else src.contracts

/-- The source of points in any order. -/
def ofPoints (points : List PricePoint) : PriceSource := (points.foldl push empty).sortAll

/-- The source with one more point. -/
def insert (src : PriceSource) (p : PricePoint) : PriceSource := (src.push p).sortAll

/-- The source with a contract listed; other symbols are passed over. -/
def addContract (src : PriceSource) (contract : Symbol) : PriceSource :=
  if contract.isDerivative then { src with contracts := src.contracts.add contract } else src

/-- The series of a symbol. -/
def seriesOf (src : PriceSource) (symbol : Symbol) : Option (List PricePoint) :=
  src.series.get? symbol

/-- Whether a symbol is a contract on an underlying that has not expired before a date. -/
def isLiveContract (underlying : Symbol) (date : Date) (symbol : Symbol) : Bool :=
  match symbol.contract? with
  | none => false
  | some c => symbol.underlying? == some underlying && date ≤ c.expiry

/-- The listed contracts on an underlying that have not expired before a date. -/
def contractsOn (src : PriceSource) (underlying : Symbol) (date : Date) : List Symbol :=
  src.contracts.toList.filter (isLiveContract underlying date)

end PriceSource

end MarketReplay
