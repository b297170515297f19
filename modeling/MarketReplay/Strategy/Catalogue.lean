import MarketReplay.Strategy

/-!
# The catalogue of strategies

Strategies by name, in the order of registration. A name consists of letters and digits of the
first 128 characters, hyphens and underscores.
-/

namespace MarketReplay

/-- Why the catalogue refuses. -/
inductive CatalogueError where
  | duplicateName (name : String)
  | unknownStrategy (name : String)
  | invalidName (name : String)
  deriving DecidableEq

/-- The text of the error. -/
def CatalogueError.message : CatalogueError → String
  | duplicateName name => "strategy '" ++ name ++ "' is already registered"
  | unknownStrategy name => "no strategy named '" ++ name ++ "' is registered"
  | invalidName name => "invalid strategy name '" ++ name ++ "'"

/-- What the catalogue says of a strategy. -/
structure StrategyMeta where
  name : String
  version : String
  description : String
  deriving DecidableEq

/-- The strategies by name. -/
structure Catalogue where
  entries : List (StrategyMeta × Strategy)

namespace Catalogue

/-- The catalogue without strategies. -/
def empty : Catalogue := ⟨[]⟩

/-- Whether a text is a name. -/
def isName (name : String) : Bool :=
  !name.isEmpty && name.toList.all fun c => c.isAlphanum || c == '-' || c == '_'

/-- Whether a name is registered. -/
def contains (c : Catalogue) (name : String) : Bool := c.entries.any fun e => e.1.name = name

/-- The catalogue with one more strategy. -/
def register (c : Catalogue) (entry : StrategyMeta) (strategy : Strategy) :
    Except CatalogueError Catalogue :=
  if !isName entry.name then .error (.invalidName entry.name)
  else if c.contains entry.name then .error (.duplicateName entry.name)
  else .ok ⟨c.entries ++ [(entry, strategy)]⟩

/-- What the catalogue says of its strategies. -/
def list (c : Catalogue) : List StrategyMeta := c.entries.map Prod.fst

/-- The strategy of a name, in its initial state. -/
def instantiate (c : Catalogue) (name : String) : Except CatalogueError Strategy :=
  match c.entries.find? fun e => e.1.name = name with
  | some e => .ok e.2
  | none => .error (.unknownStrategy name)

end Catalogue

end MarketReplay
