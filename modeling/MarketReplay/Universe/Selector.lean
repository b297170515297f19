import MarketReplay.Instant
import MarketReplay.Symbol

/-!
# Universe selection

A selector answers the symbols in the universe at an instant. It may keep a state of its own from
one call to the next; order and repetition in the answer do not matter.
-/

namespace MarketReplay

/-- A selection function with a state. -/
structure Selector where
  State : Type
  initial : State
  select : State → Instant → List Symbol × State
  isEmpty : Bool

namespace Selector

/-- The same symbols at every instant. -/
def static (symbols : List Symbol) : Selector where
  State := Unit
  initial := ()
  select _ _ := (symbols, ())
  isEmpty := symbols.isEmpty

/-- The answers of a function of the instant. -/
def ofFunction (answer : Instant → List Symbol) : Selector where
  State := Unit
  initial := ()
  select _ now := (answer now, ())
  isEmpty := false

end Selector

end MarketReplay
