import MarketReplay.SortedMap
import MarketReplay.Symbol

/-!
# Membership changes

The symbols that one resolution adds and removes, one entry per symbol, so no symbol is both.
Merging keeps the later entry of a symbol; it is associative (`merge_assoc`), because an entry of
the merge is the later one if there is one (`get?_merge`).
-/

namespace MarketReplay

/-- What happened to a symbol. -/
inductive Change where
  | added | removed
  deriving DecidableEq, Repr

/-- Changes by symbol. -/
structure Changes where
  entries : SortedMap Symbol Change

namespace Changes

/-- No change. -/
def none : Changes := ⟨.empty⟩

instance : Inhabited Changes := ⟨none⟩

/-- The changes of two lists; a symbol on both is removed. -/
def ofLists (added removed : List Symbol) : Changes :=
  ⟨SortedMap.ofList (added.map (·, .added) ++ removed.map (·, .removed))⟩

/-- The earlier changes with the later ones over them. -/
def merge (earlier later : Changes) : Changes :=
  ⟨earlier.entries.insertAll later.entries.entries⟩

/-- The symbols of one kind of change. -/
def symbolsOf (c : Changes) (kind : Change) : List Symbol :=
  (c.entries.entries.filter fun e => e.2 = kind).map Prod.fst

/-- The added symbols. -/
def added (c : Changes) : List Symbol := c.symbolsOf .added

/-- The removed symbols. -/
def removed (c : Changes) : List Symbol := c.symbolsOf .removed

/-- Whether a symbol was added. -/
def isAdded (c : Changes) (symbol : Symbol) : Bool := c.entries.get? symbol == some .added

/-- Whether a symbol was removed. -/
def isRemoved (c : Changes) (symbol : Symbol) : Bool := c.entries.get? symbol == some .removed

/-- Whether there is no change. -/
def isEmpty (c : Changes) : Bool := c.entries.isEmpty

/-- The number of changed symbols. -/
def size (c : Changes) : Nat := c.entries.size

/-- Changes are told apart by their entries. -/
theorem ext_get? {a b : Changes} (h : ∀ s, a.entries.get? s = b.entries.get? s) : a = b := by
  cases a
  cases b
  exact congrArg mk (SortedMap.ext_get? h)

/-- An entry of a merge is the later one, or the earlier one where there is no later. -/
theorem get?_merge (earlier later : Changes) (s : Symbol) :
    (merge earlier later).entries.get? s =
      (later.entries.get? s).or (earlier.entries.get? s) :=
  SortedMap.get?_insertAll earlier.entries later.entries.entries later.entries.sorted s

/-- The changes of two lists: what is on the second is removed, what is on the first alone is
added. -/
theorem get?_ofLists (added removed : List Symbol) (s : Symbol) :
    (ofLists added removed).entries.get? s =
      if s ∈ removed then some .removed else if s ∈ added then some .added else Option.none := by
  have hsplit : (ofLists added removed).entries =
      (SortedMap.empty.insertAll (added.map (·, .added))).insertAll (removed.map (·, .removed)) :=
    List.foldl_append
  rw [hsplit, SortedMap.get?_insertAll_map, SortedMap.get?_insertAll_map, SortedMap.get?_empty]

/-- A symbol is listed under the kind of its entry. -/
theorem mem_symbolsOf {c : Changes} {kind : Change} {s : Symbol} :
    s ∈ c.symbolsOf kind ↔ c.entries.get? s = some kind := by
  rw [symbolsOf, ← SortedMap.mem_entries]
  constructor
  · intro h
    obtain ⟨⟨_, change⟩, hmem, rfl⟩ := List.mem_map.1 h
    obtain ⟨hentry, hkind⟩ := List.mem_filter.1 hmem
    obtain rfl := of_decide_eq_true hkind
    exact hentry
  · intro h
    exact List.mem_map.2 ⟨(s, kind), List.mem_filter.2 ⟨h, decide_eq_true rfl⟩, rfl⟩

/-- Changes are empty if no symbol has an entry. -/
theorem isEmpty_iff {c : Changes} : c.isEmpty ↔ ∀ s, c.entries.get? s = Option.none := by
  rw [isEmpty, SortedMap.isEmpty_iff]
  refine forall_congr' fun s => ?_
  rw [SortedMap.contains, Option.isSome_eq_false_iff, Option.isNone_iff_eq_none]

/-- Merging is associative. -/
theorem merge_assoc (a b c : Changes) : merge (merge a b) c = merge a (merge b c) := by
  apply ext_get?
  intro s
  simp [get?_merge, Option.or_assoc]

end Changes

end MarketReplay
