import MarketReplay.Symbol.Text
import MarketReplay.Tape.Quote
import MarketReplay.Universe.Changes
import MarketReplay.Universe.Security
import MarketReplay.Universe.Selector

/-!
# The universe of tracked securities

The universe keeps a record per tracked symbol and the membership it announced last. A resolution
takes the selection of the instant, recomputes the members and announces the difference. Symbols
are also subscribed by hand; a contract subscribed by hand keeps its underlying a member.
-/

namespace MarketReplay

/-- What happens to an underlying when the last contract that keeps it is removed. -/
inductive UnderlyingRelease where
  | withContract
  | afterSteps (steps : Nat)
  | retain
  deriving DecidableEq, Repr, Inhabited

/-- How often the selection is asked for: at every step, or once per date. -/
inductive SelectionCadence where
  | everyStep | daily
  deriving DecidableEq, Repr, Inhabited

/-- Why a subscription command is refused. -/
inductive UniverseError where
  | unknownSymbol (symbol : Symbol)
  | notDerivative (symbol : Symbol)
  | noMatchingContract (underlying : Symbol) (expiry : Date)
  deriving DecidableEq

/-- The text of the error. -/
def UniverseError.message : UniverseError → String
  | unknownSymbol s => "unknown symbol: " ++ s.text
  | notDerivative s => s.text ++ " is not a derived contract"
  | noMatchingContract underlying expiry =>
    "no contract on " ++ underlying.text ++ " matches expiry " ++ expiry.text

/-- Tracked securities and the membership announced last. -/
structure Universe where
  securities : SortedMap Symbol Security
  announced : SortedSet Symbol
  release : UnderlyingRelease
  cadence : SelectionCadence
  daySelection : Option (Date × SortedSet Symbol)
  deriving DecidableEq

namespace Universe

/-- The universe without securities. -/
def start (release : UnderlyingRelease) (cadence : SelectionCadence) : Universe :=
  ⟨.empty, .empty, release, cadence, none⟩

instance : Inhabited Universe := ⟨start .withContract .everyStep⟩

/-- The record of a symbol. -/
def get? (u : Universe) (symbol : Symbol) : Option Security := u.securities.get? symbol

/-- Whether a symbol has a record. -/
def contains (u : Universe) (symbol : Symbol) : Bool := u.securities.contains symbol

/-- The symbols that receive data: the membership announced last. -/
def dataSymbols (u : Universe) : List Symbol := u.announced.toList

/-- The universe with the record of a symbol changed, a new one if there was none. -/
def modify (u : Universe) (symbol : Symbol) (f : Security → Security) : Universe :=
  { u with securities := u.securities.update symbol .fresh f }

/-- The symbols whose records are members. -/
def members (securities : SortedMap Symbol Security) : SortedSet Symbol :=
  (securities.filter fun _ s => s.isMember).mapValues fun _ _ => ()

/-- Records for the selected symbols, each record marked by whether it is selected. -/
def select (securities : SortedMap Symbol Security) (selected : SortedSet Symbol) :
    SortedMap Symbol Security :=
  let tracked := selected.toList.foldl (fun acc s => acc.update s .fresh id) securities
  tracked.mapValues fun symbol s => { s with active := selected.contains symbol }

/-- The universe after a resolution to a selection, and the change of membership. -/
def resolveTo (u : Universe) (selected : SortedSet Symbol) : Changes × Universe :=
  let securities := select u.securities selected
  let now := members securities
  let changes := Changes.ofLists (SortedSet.diff now u.announced).toList
    (SortedSet.diff u.announced now).toList
  (changes,
    { u with
      securities := securities.mapValues fun _ s => { s with holdSteps := s.holdSteps - 1 }
      announced := now })

/-- The selection of an instant: the selector's answer, or the one kept for the date. -/
def selection (u : Universe) (now : Instant) (selector : Selector) (state : selector.State) :
    SortedSet Symbol × Universe × selector.State :=
  let ask := fun (_ : Unit) =>
    let (answer, state') := selector.select state now
    (SortedSet.ofList answer, state')
  match u.cadence with
  | .everyStep =>
    let (selected, state') := ask ()
    (selected, u, state')
  | .daily =>
    match u.daySelection.filter fun kept => kept.1 = now.date with
    | some kept => (kept.2, u, state)
    | none =>
      let (selected, state') := ask ()
      (selected, { u with daySelection := some (now.date, selected) }, state')

/-- The universe after a resolution at an instant, and the change of membership. -/
def resolve (u : Universe) (now : Instant) (selector : Selector) (state : selector.State) :
    Changes × Universe × selector.State :=
  let (selected, u', state') := u.selection now selector state
  let (changes, u'') := u'.resolveTo selected
  (changes, u'', state')

/-- The universe with a contract subscribed by hand; its underlying is kept as long. -/
def addContract (u : Universe) (contract : Symbol) : Except UniverseError Universe :=
  match contract.underlying? with
  | none => .error (.notDerivative contract)
  | some underlying =>
    .ok ((u.modify contract fun s => { s with manual := true }).modify underlying fun s =>
      { s with dependents := s.dependents.add contract, holdSteps := 0 })

/-- The universe with a symbol subscribed by hand. -/
def addInstrument (u : Universe) (symbol : Symbol) : Except UniverseError Universe :=
  if symbol.isDerivative then u.addContract symbol
  else .ok (u.modify symbol fun s => { s with manual := true, holdSteps := 0 })

/-- What a release does to an underlying that its last contract has left. -/
def UnderlyingRelease.apply (release : UnderlyingRelease) (s : Security) : Security :=
  match release with
  | .withContract => s
  | .afterSteps n => { s with holdSteps := n }
  | .retain => { s with manual := true }

/-- The record of an underlying that a contract leaves. -/
def leave (release : UnderlyingRelease) (contract : Symbol) (s : Security) : Security :=
  if !s.dependents.contains contract then s
  else
    let s' := { s with dependents := s.dependents.erase contract }
    if !s'.dependents.isEmpty || s'.manual then s' else UnderlyingRelease.apply release s'

/-- The universe after a contract leaves its underlying. -/
def releaseUnderlying (u : Universe) (underlying contract : Symbol) : Universe :=
  match u.get? underlying with
  | none => u
  | some s => { u with securities := u.securities.insert underlying (leave u.release contract s) }

/-- The universe without the subscription of a symbol by hand. A record that is not a member any
more is dropped. -/
def removeInstrument (u : Universe) (symbol : Symbol) : Except UniverseError Universe :=
  match u.get? symbol with
  | none => .error (.unknownSymbol symbol)
  | some s =>
    let s' := { s with manual := false, holdSteps := 0 }
    let securities :=
      if s'.isMember then u.securities.insert symbol s' else u.securities.erase symbol
    let u' := { u with securities }
    .ok (match symbol.underlying? with
      | none => u'
      | some underlying => u'.releaseUnderlying underlying symbol)

/-- The universe with the quotes of a slice as last prices; symbols without a record are passed
over. -/
def updatePrices (u : Universe) (slice : DataSlice) : Universe :=
  { u with securities := u.securities.mapValues fun symbol s =>
      match slice.get? symbol with
      | none => s
      | some q => { s with price := some q.price, lastUpdate := some q.time } }

end Universe

end MarketReplay
