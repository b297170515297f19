/-!
# Maps kept in key order

A `SortedMap κ ν` is a list of entries whose keys strictly rise, so a map has one representation:
two maps with the same lookups are equal (`ext_get?`). The laws say what each operation does to
the lookup function (`get?_insert`, `get?_insertAll`, `get?_erase`, `get?_mapValues`,
`get?_filter`), and that the entries of a key are its lookup (`filter_entries`). A `SortedSet` is a
map to `Unit`.
-/

namespace MarketReplay

/-- Entries with strictly rising keys. -/
structure SortedMap (κ : Type) (ν : Type) [Ord κ] where
  entries : List (κ × ν)
  sorted : entries.Pairwise fun a b => compare a.1 b.1 = .lt

/-- A set, as a map to the unit type. -/
abbrev SortedSet (κ : Type) [Ord κ] := SortedMap κ Unit

namespace SortedMap

variable {κ ν ω : Type} [Ord κ]

/-- The value of the first entry for `key`. -/
def find (key : κ) : List (κ × ν) → Option ν
  | [] => none
  | (k, v) :: rest => if compare key k = .eq then some v else find key rest

/-- The entries with `key` bound to `value`, at its place in the order. -/
def put (key : κ) (value : ν) : List (κ × ν) → List (κ × ν)
  | [] => [(key, value)]
  | (k, v) :: rest =>
    match compare key k with
    | .lt => (key, value) :: (k, v) :: rest
    | .eq => (key, value) :: rest
    | .gt => (k, v) :: put key value rest

/-- Whether two maps hold the same entries. -/
instance [DecidableEq κ] [DecidableEq ν] : DecidableEq (SortedMap κ ν) := fun a b =>
  if h : a.entries = b.entries then
    .isTrue (by cases a; cases b; cases h; rfl)
  else
    .isFalse fun hab => h (hab ▸ rfl)

/-- The map without entries. -/
def empty : SortedMap κ ν := ⟨[], .nil⟩

instance : Inhabited (SortedMap κ ν) := ⟨empty⟩

/-- The value at `key`. -/
def get? (m : SortedMap κ ν) (key : κ) : Option ν := find key m.entries

/-- Whether `key` has a value. -/
def contains (m : SortedMap κ ν) (key : κ) : Bool := (m.get? key).isSome

/-- The keys, rising. -/
def keys (m : SortedMap κ ν) : List κ := m.entries.map Prod.fst

/-- The values, by rising key. -/
def values (m : SortedMap κ ν) : List ν := m.entries.map Prod.snd

/-- The number of entries. -/
def size (m : SortedMap κ ν) : Nat := m.entries.length

/-- Whether there is no entry. -/
def isEmpty (m : SortedMap κ ν) : Bool := m.entries.isEmpty

/-- The entries that satisfy `keep`. -/
def filter (m : SortedMap κ ν) (keep : κ → ν → Bool) : SortedMap κ ν :=
  ⟨m.entries.filter fun e => keep e.1 e.2, m.sorted.filter _⟩

/-- The map without `key`. -/
def erase (m : SortedMap κ ν) (key : κ) : SortedMap κ ν :=
  m.filter fun k _ => compare key k != .eq

/-- Every value replaced by its image under `f`. -/
def mapValues (m : SortedMap κ ν) (f : κ → ν → ω) : SortedMap κ ω :=
  ⟨m.entries.map fun e => (e.1, f e.1 e.2), List.Pairwise.map _ (fun _ _ h => h) m.sorted⟩

/-- An entry of a list after `put` is the new one or an old one. -/
theorem mem_put {key : κ} {value : ν} {l : List (κ × ν)} {e : κ × ν} (h : e ∈ put key value l) :
    e = (key, value) ∨ e ∈ l := by
  induction l with
  | nil => simpa [put] using h
  | cons x rest ih =>
    obtain ⟨k, v⟩ := x
    rw [put] at h
    split at h
    · simpa using h
    · rcases List.mem_cons.1 h with h | h
      · exact .inl h
      · exact .inr (List.mem_cons_of_mem _ h)
    · rcases List.mem_cons.1 h with h | h
      · exact .inr (h ▸ List.mem_cons_self)
      · exact (ih h).imp id (List.mem_cons_of_mem _)

section Order

variable [Std.TransOrd κ]

/-- `put` keeps the keys rising. -/
theorem sorted_put (key : κ) (value : ν) {l : List (κ × ν)}
    (h : l.Pairwise fun a b => compare a.1 b.1 = .lt) :
    (put key value l).Pairwise fun a b => compare a.1 b.1 = .lt := by
  induction l with
  | nil => simp [put]
  | cons x rest ih =>
    obtain ⟨k, v⟩ := x
    have hrest := List.pairwise_cons.1 h
    rw [put]
    split
    · rename_i hlt
      refine List.pairwise_cons.2 ⟨fun e he => ?_, h⟩
      rcases List.mem_cons.1 he with rfl | he
      · exact hlt
      · exact Std.TransCmp.lt_trans hlt (hrest.1 e he)
    · rename_i heq
      exact List.pairwise_cons.2
        ⟨fun e he => Std.TransCmp.lt_of_eq_of_lt heq (hrest.1 e he), hrest.2⟩
    · rename_i hgt
      refine List.pairwise_cons.2 ⟨fun e he => ?_, ih hrest.2⟩
      rcases mem_put he with rfl | he
      · exact Std.OrientedCmp.lt_of_gt hgt
      · exact hrest.1 e he

/-- The map with `key` bound to `value`. -/
def insert (m : SortedMap κ ν) (key : κ) (value : ν) : SortedMap κ ν :=
  ⟨put key value m.entries, sorted_put key value m.sorted⟩

/-- The value at `key` replaced by its image, or `initial`'s image where there is none. -/
def update (m : SortedMap κ ν) (key : κ) (initial : ν) (f : ν → ν) : SortedMap κ ν :=
  m.insert key (f ((m.get? key).getD initial))

/-- The map with every entry of the list written in turn, so the last of a key wins. -/
def insertAll (m : SortedMap κ ν) (entries : List (κ × ν)) : SortedMap κ ν :=
  entries.foldl (fun acc e => acc.insert e.1 e.2) m

/-- The map of a list of entries, the last of a key winning. -/
def ofList (entries : List (κ × ν)) : SortedMap κ ν := empty.insertAll entries

end Order

end SortedMap

namespace SortedSet

variable {κ : Type} [Ord κ]

/-- The members, rising. -/
def toList (s : SortedSet κ) : List κ := s.keys

/-- The members of `s` that are not in `t`. -/
def diff (s t : SortedSet κ) : SortedSet κ := s.filter fun k _ => !t.contains k

/-- The set of a list. -/
def ofList [Std.TransOrd κ] (members : List κ) : SortedSet κ :=
  SortedMap.ofList (members.map fun k => (k, ()))

/-- The set with one more member. -/
def add [Std.TransOrd κ] (s : SortedSet κ) (key : κ) : SortedSet κ := s.insert key ()

end SortedSet

namespace SortedMap

variable {κ ν ω : Type} [Ord κ]

/-! ### Laws of lookup -/

@[simp] theorem get?_empty (key : κ) : (empty : SortedMap κ ν).get? key = none := rfl

/-- Below the first key there is nothing. -/
theorem find_eq_none_of_lt {key : κ} {l : List (κ × ν)} (h : ∀ e ∈ l, compare key e.1 = .lt) :
    find key l = none := by
  induction l with
  | nil => rfl
  | cons x rest ih =>
    have hx := h x List.mem_cons_self
    simp [find, hx, ih fun e he => h e (List.mem_cons_of_mem _ he)]

section Lawful

variable [Std.LawfulEqOrd κ]

/-- A lookup through `mapValues` is the image of the lookup. -/
@[simp] theorem get?_mapValues (m : SortedMap κ ν) (f : κ → ν → ω) (key : κ) :
    (m.mapValues f).get? key = (m.get? key).map (f key) := by
  obtain ⟨l, _⟩ := m
  simp only [get?, mapValues]
  induction l with
  | nil => rfl
  | cons x rest ih =>
    have hrest := ih (by rename_i h; exact (List.pairwise_cons.1 h).2)
    by_cases hk : compare key x.1 = .eq
    · obtain rfl := Std.LawfulEqCmp.eq_of_compare hk
      simp [find]
    · simp [find, hk, hrest]

variable [Std.TransOrd κ] [DecidableEq κ]

omit [Std.TransOrd κ] in
/-- Reading after a write. -/
theorem find_put (key q : κ) (value : ν) (l : List (κ × ν)) :
    find q (put key value l) = if q = key then some value else find q l := by
  induction l with
  | nil => simp [put, find]
  | cons x rest ih =>
    obtain ⟨k, v⟩ := x
    rw [put]
    split
    · simp [find]
    · rename_i heq
      obtain rfl := Std.LawfulEqCmp.eq_of_compare heq
      by_cases hq : q = key <;> simp [find, hq]
    · rename_i hgt
      simp only [find, Std.compare_eq_iff_eq]
      by_cases hq : q = k
      · subst hq
        have hne : q ≠ key := by
          rintro rfl
          simp at hgt
        simp [hne]
      · simp [hq, ih]

/-- A lookup after a write. -/
theorem get?_insert (m : SortedMap κ ν) (key q : κ) (value : ν) :
    (m.insert key value).get? q = if q = key then some value else m.get? q :=
  find_put key q value m.entries

/-- Writing the entries of a list over a map: the entry of the list, else the map's. -/
theorem get?_insertAll (m : SortedMap κ ν) (l : List (κ × ν))
    (h : l.Pairwise fun a b => compare a.1 b.1 = .lt) (key : κ) :
    (m.insertAll l).get? key = (find key l).or (m.get? key) := by
  induction l generalizing m with
  | nil => rfl
  | cons e rest ih =>
    obtain ⟨hlt, hrest⟩ := List.pairwise_cons.1 h
    have hstep : (m.insertAll (e :: rest)) = (m.insert e.1 e.2).insertAll rest := rfl
    rw [hstep, ih _ hrest, get?_insert]
    by_cases hk : key = e.1
    · subst hk
      have hn : find e.1 rest = none := find_eq_none_of_lt hlt
      simp [find, hn]
    · simp [find, hk]

/-- Writing one value under each key of a list. -/
theorem get?_insertAll_map (m : SortedMap κ ν) (keys : List κ) (value : ν) (q : κ) :
    (m.insertAll (keys.map fun key => (key, value))).get? q =
      if q ∈ keys then some value else m.get? q := by
  induction keys generalizing m with
  | nil => rfl
  | cons key rest ih =>
    have hstep : m.insertAll ((key :: rest).map fun key => (key, value)) =
        (m.insert key value).insertAll (rest.map fun key => (key, value)) := rfl
    rw [hstep, ih, get?_insert]
    by_cases hq : q = key <;> simp [hq]

omit [Std.TransOrd κ] [DecidableEq κ] in
/-- A lookup finds exactly the entries. -/
theorem find_eq_some_iff {key : κ} {value : ν} {l : List (κ × ν)}
    (h : l.Pairwise fun a b => compare a.1 b.1 = .lt) :
    find key l = some value ↔ (key, value) ∈ l := by
  induction l with
  | nil => simp [find]
  | cons x rest ih =>
    obtain ⟨k, v⟩ := x
    obtain ⟨hlt, hrest⟩ := List.pairwise_cons.1 h
    simp only [find, List.mem_cons, Prod.mk.injEq]
    split
    · rename_i heq
      obtain rfl := Std.LawfulEqCmp.eq_of_compare heq
      constructor
      · intro hv
        exact .inl ⟨rfl, (Option.some.inj hv).symm⟩
      · rintro (⟨_, rfl⟩ | hm)
        · rfl
        · have := hlt _ hm
          simp at this
    · rename_i hne
      have hk : key ≠ k := fun h => hne (h ▸ Std.ReflCmp.compare_self)
      simp [hk, ih hrest]

omit [Std.TransOrd κ] [DecidableEq κ] in
/-- An entry is a lookup. -/
theorem mem_entries {m : SortedMap κ ν} {key : κ} {value : ν} :
    (key, value) ∈ m.entries ↔ m.get? key = some value :=
  (find_eq_some_iff m.sorted).symm

omit [Std.TransOrd κ] in
/-- The entries of a key are its lookup. -/
theorem filter_entries (m : SortedMap κ ν) (key : κ) :
    m.entries.filter (fun e => e.1 = key) = ((m.get? key).map fun v => (key, v)).toList := by
  obtain ⟨l, hl⟩ := m
  simp only [get?]
  induction l with
  | nil => rfl
  | cons e rest ih =>
    obtain ⟨hlt, hrest⟩ := List.pairwise_cons.1 hl
    by_cases hk : e.1 = key
    · have hn : find key rest = none := find_eq_none_of_lt fun x hx => hk ▸ hlt x hx
      have hnone := ih hrest
      rw [hn] at hnone
      simpa [find, ← hk] using hnone
    · have hk' : key ≠ e.1 := fun h => hk h.symm
      simpa [find, hk, hk'] using ih hrest

omit [Std.TransOrd κ] [DecidableEq κ] in
/-- A lookup in the entries that satisfy `keep`. -/
theorem get?_filter (m : SortedMap κ ν) (keep : κ → ν → Bool) (key : κ) :
    (m.filter keep).get? key = (m.get? key).filter (keep key) := by
  apply Option.ext
  intro value
  rw [Option.filter_eq_some_iff, ← mem_entries, ← mem_entries]
  simp [filter]

omit [Std.TransOrd κ] in
/-- A lookup after an erasure. -/
theorem get?_erase (m : SortedMap κ ν) (key q : κ) :
    (m.erase key).get? q = if q = key then none else m.get? q := by
  rw [erase, get?_filter]
  by_cases hq : q = key
  · subst hq
    cases m.get? q <;> simp [Option.filter]
  · have hne : compare key q ≠ .eq := fun h => hq (Std.LawfulEqCmp.eq_of_compare h).symm
    cases m.get? q <;> simp [Option.filter, hq, hne]

omit [DecidableEq κ] in
/-- Lists of entries with rising keys and the same lookups are equal. -/
theorem entries_ext {la lb : List (κ × ν)} (ha : la.Pairwise fun a b => compare a.1 b.1 = .lt)
    (hb : lb.Pairwise fun a b => compare a.1 b.1 = .lt) (h : ∀ q, find q la = find q lb) :
    la = lb := by
  induction la generalizing lb with
  | nil =>
    cases lb with
    | nil => rfl
    | cons y rest => simpa [find] using h y.1
  | cons x rest ih =>
    obtain ⟨hx, hrest⟩ := List.pairwise_cons.1 ha
    cases lb with
    | nil => simpa [find] using h x.1
    | cons y tail =>
      obtain ⟨hy, htail⟩ := List.pairwise_cons.1 hb
      have hxy : x.1 = y.1 := by
        cases hc : compare x.1 y.1 with
        | eq => exact Std.LawfulEqCmp.eq_of_compare hc
        | lt =>
          have hn : find x.1 (y :: tail) = none := find_eq_none_of_lt fun e he => by
            rcases List.mem_cons.1 he with rfl | he
            · exact hc
            · exact Std.TransCmp.lt_trans hc (hy e he)
          have := h x.1
          rw [hn] at this
          simp [find] at this
        | gt =>
          have hc := Std.OrientedCmp.lt_of_gt hc
          have hn : find y.1 (x :: rest) = none := find_eq_none_of_lt fun e he => by
            rcases List.mem_cons.1 he with rfl | he
            · exact hc
            · exact Std.TransCmp.lt_trans hc (hx e he)
          have := h y.1
          rw [hn] at this
          simp [find] at this
      have hv : x.2 = y.2 := by
        have := h x.1
        simpa [find, hxy] using this
      have hrec : rest = tail := ih hrest htail fun q => by
        by_cases hq : compare q x.1 = .eq
        · obtain rfl := Std.LawfulEqCmp.eq_of_compare hq
          rw [find_eq_none_of_lt hx, hxy, find_eq_none_of_lt hy]
        · have := h q
          have hq' : compare q y.1 ≠ .eq := hxy ▸ hq
          simpa [find, hq, hq'] using this
      rw [hrec, Prod.ext hxy hv]

omit [DecidableEq κ] in
/-- Maps with the same lookups are equal. -/
theorem ext_get? {a b : SortedMap κ ν} (h : ∀ key, a.get? key = b.get? key) : a = b := by
  obtain ⟨la, ha⟩ := a
  obtain ⟨lb, hb⟩ := b
  obtain rfl := entries_ext ha hb h
  rfl

omit [Std.TransOrd κ] [DecidableEq κ] in
/-- A map is empty if it holds no key. -/
theorem isEmpty_iff {m : SortedMap κ ν} : m.isEmpty ↔ ∀ key, m.contains key = false := by
  constructor
  · intro h key
    have hnil : m.entries = [] := List.isEmpty_iff.1 h
    simp [contains, get?, hnil, find]
  · intro h
    rw [isEmpty, List.isEmpty_iff, List.eq_nil_iff_forall_not_mem]
    rintro ⟨key, value⟩ hmem
    have hkey := h key
    rw [contains, mem_entries.1 hmem] at hkey
    cases hkey

omit [Std.TransOrd κ] [DecidableEq κ] in
/-- A map is not empty if it holds some key. -/
theorem isEmpty_eq_false_iff {m : SortedMap κ ν} : m.isEmpty = false ↔ ∃ key, m.contains key := by
  rw [← Bool.not_eq_true, isEmpty_iff, Classical.not_forall]
  exact exists_congr fun key => by rw [Bool.not_eq_false]

end Lawful

end SortedMap

namespace SortedSet

variable {κ : Type} [Ord κ] [Std.LawfulEqOrd κ]

/-! ### Laws of membership -/

/-- The members are listed. -/
theorem mem_toList {s : SortedSet κ} {key : κ} : key ∈ s.toList ↔ s.contains key := by
  rw [toList, SortedMap.keys, SortedMap.contains, Option.isSome_iff_exists]
  constructor
  · intro h
    obtain ⟨⟨_, value⟩, hmem, rfl⟩ := List.mem_map.1 h
    exact ⟨value, SortedMap.mem_entries.1 hmem⟩
  · rintro ⟨value, hvalue⟩
    exact List.mem_map.2 ⟨(key, value), SortedMap.mem_entries.2 hvalue, rfl⟩

/-- The members of a difference. -/
theorem contains_diff (s t : SortedSet κ) (key : κ) :
    (diff s t).contains key = (s.contains key && !t.contains key) := by
  have hlookup : (diff s t).get? key = (s.get? key).filter fun _ => !t.contains key :=
    SortedMap.get?_filter s _ key
  unfold SortedMap.contains at hlookup ⊢
  rw [hlookup]
  cases s.get? key <;> cases t.get? key <;> rfl

variable [DecidableEq κ]

/-- The members after one is taken out. -/
theorem contains_erase (s : SortedSet κ) (key q : κ) :
    SortedMap.contains (SortedMap.erase s key) q = (!decide (q = key) && s.contains q) := by
  unfold SortedMap.contains
  rw [SortedMap.get?_erase]
  by_cases hq : q = key <;> simp [hq]

variable [Std.TransOrd κ]

omit [DecidableEq κ] in
/-- Sets with the same members are the same. -/
theorem ext_contains {s t : SortedSet κ} (h : ∀ key, s.contains key = t.contains key) : s = t := by
  refine SortedMap.ext_get? fun key => ?_
  have hkey := h key
  unfold SortedMap.contains at hkey
  cases hs : s.get? key <;> cases ht : t.get? key <;> simp [hs, ht] at hkey ⊢

/-- The members after one more is added. -/
theorem contains_add (s : SortedSet κ) (key q : κ) :
    (s.add key).contains q = (decide (q = key) || s.contains q) := by
  unfold SortedMap.contains
  rw [add, SortedMap.get?_insert]
  by_cases hq : q = key <;> simp [hq]

/-- The members of a list's set are those of the list. -/
theorem contains_ofList (members : List κ) (key : κ) :
    (ofList members).contains key = decide (key ∈ members) := by
  unfold SortedMap.contains
  rw [ofList, SortedMap.ofList, SortedMap.get?_insertAll_map]
  by_cases hkey : key ∈ members <;> simp [hkey]

end SortedSet

end MarketReplay
