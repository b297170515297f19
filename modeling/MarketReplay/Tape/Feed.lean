import MarketReplay.Calendar
import MarketReplay.Tape.Quote

/-!
# The feed of quotes

A feed serves slices from time-sorted series. Each symbol has a cursor that only moves forward, by
`absorb` over every point that is not later than the instant; a symbol that was not requested for a
while is caught up by its next request.
-/

namespace MarketReplay

/-- The moment at which a print can open a session: a print inside a session opens it at its own
time; a bar with an open, stamped at midnight or not before the close, stands for the session of
its date. -/
def openingTime (calendar : Calendar) (p : PricePoint) : Option DateTime :=
  if calendar.isOpen p.time then some p.time
  else if p.openPrice.isNone then none
  else
    match calendar.sessionClose p.time.date with
    | none => none
    | some close =>
      if p.time.time = .midnight || close ≤ p.time then calendar.sessionOpen p.time.date else none

/-- What a feed knows of a symbol: the points it has not reached, and the last quote. -/
structure Cursor where
  rest : List PricePoint
  last : Option Quote

namespace Cursor

/-- The last quote after one more point. The first print that can open a date's session does. -/
def absorb (calendar : Calendar) (mode : Normalization) (last : Option Quote) (p : PricePoint) :
    Quote :=
  let earlier := last.bind Quote.sessionOpen
  let unseen := match earlier with
    | none => true
    | some o => o.date != p.time.date
  let sessionOpen := match openingTime calendar p with
    | some time => if unseen then some ⟨p.time.date, time, p.openIn mode⟩ else earlier
    | none => earlier
  ⟨p.time, p.priceIn mode, sessionOpen⟩

/-- The cursor after the points that are not later than a moment. -/
def advance (calendar : Calendar) (mode : Normalization) (now : DateTime) :
    List PricePoint → Option Quote → Cursor
  | [], last => ⟨[], last⟩
  | p :: rest, last =>
    if now < p.time then ⟨p :: rest, last⟩
    else advance calendar mode now rest (some (absorb calendar mode last p))

end Cursor

/-- Where price series come from. -/
abbrev SeriesLookup := Symbol → Option (List PricePoint)

/-- A feed over series. -/
structure Feed where
  source : SeriesLookup
  calendar : Calendar
  mode : Normalization
  cursors : SortedMap Symbol Cursor

namespace Feed

/-- The feed before its first request. -/
def start (source : SeriesLookup) (calendar : Calendar) (mode : Normalization) : Feed :=
  ⟨source, calendar, mode, .empty⟩

/-- The cursor of a symbol: where the last request left it, or the start of its series. -/
def cursor? (f : Feed) (symbol : Symbol) : Option Cursor :=
  match f.source symbol with
  | none => none
  | some series => some ((f.cursors.get? symbol).getD ⟨series, none⟩)

/-- The quote of a symbol at a moment, and the feed after the request. -/
def request (f : Feed) (symbol : Symbol) (now : DateTime) : Option Quote × Feed :=
  match f.cursor? symbol with
  | none => (none, f)
  | some c =>
    let c' := Cursor.advance f.calendar f.mode now c.rest c.last
    (c'.last, { f with cursors := f.cursors.insert symbol c' })

/-- The quotes of requested symbols added to a slice, and the feed after the requests. -/
def collect (f : Feed) (slice : DataSlice) : List Symbol → DataSlice × Feed
  | [] => (slice, f)
  | symbol :: rest =>
    match f.request symbol slice.instant.time with
    | (none, f') => collect f' slice rest
    | (some quote, f') => collect f' (slice.insert symbol quote) rest

/-- The quotes of the requested symbols at an instant; a symbol without a print so far is left
out. -/
def slice (f : Feed) (instant : Instant) (symbols : List Symbol) : DataSlice × Feed :=
  f.collect (.emptyAt instant) symbols

end Feed

end MarketReplay
