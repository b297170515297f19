import MarketReplay.Yaml.Event

/-!
# Nodes

The tree of a document. An anchor has as its number the count of names that carried an anchor
before it, and an alias stands for the last node whose anchor has the number that its name had
where the alias stands.
-/

namespace MarketReplay.Yaml

/-- A node of a document. -/
inductive Node where
  | alias (number : Nat)
  | scalar (tag : Option String) (text : String) (plain : Bool)
  | sequence (tag : Option String) (items : List Node)
  | mapping (tag : Option String) (entries : List (Node × Node))

/-- A tree and the nodes of its anchors by number; `size` is the number of its events. -/
structure Document where
  root : Node
  anchored : List (Nat × Node)
  size : Nat

/-- The anchor of an event. -/
def Event.anchor? : Event → Option String
  | scalar anchor _ _ _ => anchor
  | sequenceStart anchor _ => anchor
  | mappingStart anchor _ => anchor
  | _ => none

/-- Events with the numbers of their anchors, or the numbers that they stand for as aliases; `names`
are the names known so far. -/
def numbered? (names : List (String × Nat)) : List Event → Option (List (Event × Option Nat))
  | [] => some []
  | .alias name :: rest =>
    match names.lookup name, numbered? names rest with
    | some n, some more => some ((.alias name, some n) :: more)
    | _, _ => none
  | e :: rest =>
    match e.anchor? with
    | none => (numbered? names rest).map fun more => (e, none) :: more
    | some name =>
      let n := names.length
      let names := (name, n) :: names.filter fun known => known.1 != name
      (numbered? names rest).map fun more => (e, some n) :: more

/-- Events of which only the last anchor of a number keeps it. -/
def lastOfNumber : List (Event × Option Nat) → List (Event × Option Nat)
  | [] => []
  | (e, number) :: rest =>
    let isAnchored := fun (later : Event × Option Nat) =>
      later.1.anchor?.isSome && later.2 == number
    if e.anchor?.isSome && rest.any isAnchored then (e, none) :: lastOfNumber rest
    else (e, number) :: lastOfNumber rest

/-- A collection whose end is still to come; its nodes have the last one first. -/
structure OpenCollection where
  isMapping : Bool
  tag : Option String
  number : Option Nat
  nodes : List Node

/-- A tree in the making: the collections that are open, the innermost first, the root once it is
complete, and the complete nodes with anchors. -/
structure Growth where
  opened : List OpenCollection
  root : Option Node
  anchored : List (Nat × Node)

/-- Nodes taken two at a time. -/
def pairs : List Node → List (Node × Node)
  | k :: v :: rest => (k, v) :: pairs rest
  | _ => []

/-- The node of a collection. -/
def OpenCollection.node (c : OpenCollection) : Node :=
  if c.isMapping then .mapping c.tag (pairs c.nodes.reverse) else .sequence c.tag c.nodes.reverse

namespace Growth

/-- Nothing has grown yet. -/
def empty : Growth := ⟨[], none, []⟩

/-- One more complete node. -/
def add (g : Growth) (number : Option Nat) (node : Node) : Growth :=
  let anchored := match number with
    | some n => (n, node) :: g.anchored
    | none => g.anchored
  match g.opened with
  | [] => ⟨[], some node, anchored⟩
  | c :: outer => ⟨{ c with nodes := node :: c.nodes } :: outer, g.root, anchored⟩

/-- One more open collection. -/
def push (g : Growth) (isMapping : Bool) (tag : Option String) (number : Option Nat) : Growth :=
  { g with opened := ⟨isMapping, tag, number, []⟩ :: g.opened }

/-- The innermost collection is complete. -/
def pop (g : Growth) : Growth :=
  match g.opened with
  | [] => g
  | c :: outer => { g with opened := outer }.add c.number c.node

/-- The tree after an event. -/
def next (g : Growth) (event : Event × Option Nat) : Growth :=
  match event with
  | (.alias _, number) => g.add none (.alias (number.getD 0))
  | (.scalar _ tag text plain, number) => g.add number (.scalar tag text plain)
  | (.sequenceStart _ tag, number) => g.push false tag number
  | (.mappingStart _ tag, number) => g.push true tag number
  | (.sequenceEnd, _) => g.pop
  | (.mappingEnd, _) => g.pop

end Growth

/-- The document of events; without events it is a null. -/
def Document.ofEvents? (events : List Event) : Option Document :=
  (numbered? [] events).map fun numbered =>
    let g := (lastOfNumber numbered).foldl Growth.next .empty
    ⟨g.root.getD (.scalar none "" true), g.anchored, events.length⟩

end MarketReplay.Yaml
