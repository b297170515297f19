import MarketReplay.Json.Pointer
import MarketReplay.SortedMap

/-!
# Keys that nothing reads

A leaf of a configuration is unused if no pointer that the program reads covers it.
-/

namespace MarketReplay

/-- What is read of a configuration, and the leaves outside of it. -/
structure UnusedKeys where
  consumed : List String
  unused : List String
  deriving DecidableEq, Repr

namespace UnusedKeys

/-- The pointers that a run from a configuration reads. -/
def consumedPointers : List String :=
  ["/backtest", "/universe/symbols", "/strategy/name", "/strategy/symbol", "/strategy/quantity",
   "/data/prices"]

/-- The texts of pointers, sorted and each once. -/
def texts (pointers : List JsonPointer) : List String :=
  (SortedSet.ofList (pointers.map JsonPointer.text)).toList

/-- The leaves of a document outside of the consumed pointers. -/
def leavesOutside (consumed : List JsonPointer) (document : Json) : List JsonPointer :=
  document.leaves.filter fun leaf => !consumed.any fun p => p.covers leaf

/-- The report on a document, given the texts of the pointers that are read. -/
def report (consumed : List String) (document : Json) : UnusedKeys :=
  let pointers := consumed.map JsonPointer.ofText
  ⟨texts pointers, texts (leavesOutside pointers document)⟩

/-- Whether every leaf is read. -/
def isClean (r : UnusedKeys) : Bool := r.unused.isEmpty

/-- The document of a report. -/
def toJson (r : UnusedKeys) : Json :=
  .ofFields
    [("consumed_prefixes", .array (r.consumed.map .string)),
     ("unused_leaf_pointers", .array (r.unused.map .string))]

end UnusedKeys

end MarketReplay
