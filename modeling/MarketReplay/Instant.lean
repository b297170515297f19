import MarketReplay.Civil.Time
import MarketReplay.Text.Blank

/-!
# Resolutions and instants

A resolution is the spacing of a clock. An instant is a moment tagged with the resolution it was
taken at; instants are compared by their moments alone.
-/

namespace MarketReplay

/-- The spacing of a clock. -/
inductive Resolution where
  | tick | second | minute | hour | daily
  deriving DecidableEq, Repr

namespace Resolution

/-- Seconds between two steps. -/
def seconds : Resolution → Nat
  | tick => 1
  | second => 1
  | minute => 60
  | hour => 3600
  | daily => 86400

/-- The name in texts. -/
def name : Resolution → String
  | tick => "tick"
  | second => "second"
  | minute => "minute"
  | hour => "hour"
  | daily => "daily"

/-- Lower case of the letters A to Z. -/
def lowerAscii (s : String) : String := String.ofList (s.toList.map Char.toLower)

/-- The resolution of a name or short form, in any case and with blanks around it. -/
def parse? (s : String) : Option Resolution :=
  match lowerAscii (Text.trimmed s) with
  | "tick" => some tick
  | "second" => some second
  | "1s" => some second
  | "minute" => some minute
  | "1m" => some minute
  | "hour" => some hour
  | "1h" => some hour
  | "daily" => some daily
  | "day" => some daily
  | "1d" => some daily
  | _ => none

end Resolution

/-- How prices are taken from a series: as printed or adjusted. -/
inductive Normalization where
  | raw | adjusted
  deriving DecidableEq, Repr, Inhabited

/-- A moment tagged with a resolution. -/
structure Instant where
  time : DateTime
  resolution : Resolution
  deriving DecidableEq

namespace Instant

instance : Inhabited Instant := ⟨⟨default, .minute⟩⟩

/-- The first instant of a date. -/
def startOf (date : Date) (resolution : Resolution) : Instant := ⟨.midnight date, resolution⟩

/-- The date. -/
def date (i : Instant) : Date := i.time.date

/-- Whether an instant is strictly before another. -/
def before (a b : Instant) : Bool := a.time < b.time

/-- Date and time to the second. -/
def text (i : Instant) : String := i.time.wholeText

end Instant

end MarketReplay
