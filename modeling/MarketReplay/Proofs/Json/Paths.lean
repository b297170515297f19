import MarketReplay.Proofs.Json.Ordered
import MarketReplay.Proofs.Text.Digits

/-!
# Paths into a document

A path is a list of steps, each to the value of a key of an object or to a place of an array
(`Json.valueAt?`). It does not depend on how keys are written: the pointer of a path has the written
forms of its steps as tokens (`Json.pointerOf`), and following these tokens leads to where the path
leads (`Json.lookup_pointerOf`). The leaves of a document are the ends of its paths at values that
are neither objects nor arrays (`Json.mem_leaves_iff`), and no two paths of a document have one
pointer (`Json.pointerOf_inj`).
-/

namespace MarketReplay

/-! ### Written tokens -/

namespace JsonPointer

/-- The written form of a character of a key. -/
def escapeChar (c : Char) : List Char :=
  if c = '~' then ['~', '0'] else if c = '/' then ['~', '1'] else [c]

/-- A token is written character by character. -/
theorem toList_escapeToken (s : String) : (escapeToken s).toList = s.toList.flatMap escapeChar := by
  unfold escapeToken
  rw [String.toList_join, List.flatMap_map]
  congr 1
  funext c
  unfold escapeChar
  split
  · rfl
  · split
    · rfl
    · simp

/-- A character other than the tilde stands for itself. -/
theorem unescapeSlashes_cons {c : Char} (h : c ≠ '~') (rest : List Char) :
    unescapeSlashes (c :: rest) = c :: unescapeSlashes rest := by
  rw [unescapeSlashes]
  exact fun _ hc _ => h hc

/-- A character other than the tilde stands for itself. -/
theorem unescapeTildes_cons {c : Char} (h : c ≠ '~') (rest : List Char) :
    unescapeTildes (c :: rest) = c :: unescapeTildes rest := by
  rw [unescapeTildes]
  exact fun _ hc _ => h hc

/-- Reading the slashes of a written key leaves its tildes written. -/
theorem unescapeSlashes_flatMap (cs : List Char) :
    unescapeSlashes (cs.flatMap escapeChar) =
      cs.flatMap fun c => if c = '~' then ['~', '0'] else [c] := by
  induction cs with
  | nil => rfl
  | cons c rest ih =>
      rw [List.flatMap_cons, List.flatMap_cons, ← ih]
      by_cases htilde : c = '~'
      · subst htilde
        rfl
      · by_cases hslash : c = '/'
        · subst hslash
          rfl
        · simp only [escapeChar, if_neg htilde, if_neg hslash, List.cons_append, List.nil_append]
          exact unescapeSlashes_cons htilde _

/-- Reading the tildes gives the key. -/
theorem unescapeTildes_flatMap (cs : List Char) :
    unescapeTildes (cs.flatMap fun c => if c = '~' then ['~', '0'] else [c]) = cs := by
  induction cs with
  | nil => rfl
  | cons c rest ih =>
      rw [List.flatMap_cons]
      by_cases htilde : c = '~'
      · subst htilde
        exact congrArg ('~' :: ·) ih
      · rw [if_neg htilde, List.cons_append, List.nil_append, unescapeTildes_cons htilde, ih]

/-- The written form of a key stands for the key. -/
theorem unescapeToken_escapeToken (key : String) : unescapeToken (escapeToken key) = key := by
  rw [unescapeToken, toList_escapeToken, unescapeSlashes_flatMap, unescapeTildes_flatMap,
    String.ofList_toList]

/-- A text without tildes stands for itself. -/
theorem unescapeToken_eq_self {s : String} (h : '~' ∉ s.toList) : unescapeToken s = s := by
  have hslashes : ∀ cs : List Char, '~' ∉ cs → unescapeSlashes cs = cs := by
    intro cs hcs
    induction cs with
    | nil => rfl
    | cons c rest ih =>
        obtain ⟨hc, hrest⟩ := not_or.1 (mt List.mem_cons.2 hcs)
        rw [unescapeSlashes_cons (Ne.symm hc), ih hrest]
  have htildes : ∀ cs : List Char, '~' ∉ cs → unescapeTildes cs = cs := by
    intro cs hcs
    induction cs with
    | nil => rfl
    | cons c rest ih =>
        obtain ⟨hc, hrest⟩ := not_or.1 (mt List.mem_cons.2 hcs)
        rw [unescapeTildes_cons (Ne.symm hc), ih hrest]
  rw [unescapeToken, hslashes _ h, htildes _ h, String.ofList_toList]

end JsonPointer

namespace Json

/-! ### Paths -/

/-- A step into a document: to the value of a key, or to a place of an array. -/
inductive Step where
  | key (key : String)
  | place (index : Nat)
  deriving DecidableEq

/-- The written form of a step. -/
def Step.token : Step → String
  | .key k => JsonPointer.escapeToken k
  | .place index => toString index

/-- Where a step leads. -/
def into? : Step → Json → Option Json
  | .key k, object fields => field? k fields
  | .place index, array items => items[index]?
  | _, _ => none

/-- The value at the end of a path. -/
def valueAt? : (path : List Step) → Json → Option Json
  | [], j => some j
  | s :: rest, j => (into? s j).bind (valueAt? rest)

/-- The pointer of a path. -/
def pointerOf (path : List Step) : JsonPointer := ⟨path.map Step.token⟩

/-- Whether a path ends at a leaf of a document. -/
def HasLeaf (j : Json) (path : List Step) : Prop := ∃ v, j.valueAt? path = some v ∧ v.isLeaf

/-- A leaf has nothing in it. -/
theorem into?_of_isLeaf {j : Json} (h : j.isLeaf) (s : Step) : into? s j = none := by
  cases s <;> cases j <;> first | rfl | cases h

/-- A step into a document is the first of a path to a leaf if the rest is one of what it leads
to. -/
theorem hasLeaf_cons {j : Json} {s : Step} {rest : List Step} :
    j.HasLeaf (s :: rest) ↔ ∃ child, into? s j = some child ∧ child.HasLeaf rest := by
  unfold HasLeaf
  simp only [valueAt?, Option.bind_eq_some_iff]
  constructor
  · rintro ⟨v, ⟨child, hchild, hv⟩, hleaf⟩
    exact ⟨child, hchild, v, hv, hleaf⟩
  · rintro ⟨child, hchild, v, hv, hleaf⟩
    exact ⟨v, ⟨child, hchild, hv⟩, hleaf⟩

/-- No token of a path holds a slash. -/
theorem pointerOf_plain (path : List Step) : (pointerOf path).Plain := by
  intro token htoken
  obtain ⟨s, -, rfl⟩ := List.mem_map.1 htoken
  cases s with
  | key k => exact JsonPointer.slash_not_mem_escapeToken k
  | place index => exact slash_not_mem_toString index

/-! ### Pointers of paths -/

/-- A written place stands for the place. -/
theorem indexOf?_toString (index : Nat) : indexOf? (toString index) = some index := by
  have hdigits := Text.toList_toString index
  rcases Nat.eq_zero_or_pos index with rfl | hpos
  · rfl
  · have hhead := Text.head?_toDigits_ne_zero (Nat.ne_of_gt hpos)
    unfold indexOf?
    rw [hdigits]
    split
    · rename_i hzero
      rw [hzero] at hhead
      exact absurd rfl hhead
    · rename_i hzero
      rw [hzero] at hhead
      exact absurd rfl hhead
    · rw [Text.baseNumber?_of_isDigit Nat.toDigits_ne_nil
        fun c hc => Text.isDigit_of_mem_toDigits hc, Text.digitsValue_eq,
        Nat.ofDigitChars_ten_toDigits]

/-- The written form of a step leads to where the step leads. -/
theorem child?_token {j child : Json} {s : Step} (h : into? s j = some child) :
    child? (JsonPointer.unescapeToken s.token) j = some child := by
  match s, j, h with
  | .key k, object fields, h =>
      rw [Step.token, JsonPointer.unescapeToken_escapeToken]
      exact h
  | .place index, array items, h =>
      have htilde : '~' ∉ (toString index).toList := by
        intro hmem
        rw [Text.toList_toString] at hmem
        exact absurd (Text.isDigit_of_mem_toDigits hmem) (by decide)
      rw [Step.token, JsonPointer.unescapeToken_eq_self htilde, child?, indexOf?_toString]
      exact h

/-- The pointer of a path leads to the end of the path. -/
theorem lookup_pointerOf {path : List Step} {j v : Json} (h : j.valueAt? path = some v) :
    j.at? (pointerOf path) = some v := by
  unfold at? pointerOf
  induction path generalizing j with
  | nil => exact h
  | cons s rest ih =>
      obtain ⟨child, hchild, hrest⟩ := Option.bind_eq_some_iff.1 h
      rw [List.map_cons, lookup, child?_token hchild]
      exact ih hrest

/-- Steps into one document with the same written form are the same. -/
theorem token_inj {j child child' : Json} {s s' : Step} (h : into? s j = some child)
    (h' : into? s' j = some child') (htoken : s.token = s'.token) : s = s' := by
  match s, s' with
  | .key k, .key k' =>
      have hkey := congrArg JsonPointer.unescapeToken htoken
      rw [Step.token, Step.token, JsonPointer.unescapeToken_escapeToken,
        JsonPointer.unescapeToken_escapeToken] at hkey
      rw [hkey]
  | .place index, .place index' =>
      have hindex := congrArg indexOf? htoken
      rw [Step.token, Step.token, indexOf?_toString, indexOf?_toString] at hindex
      rw [Option.some.inj hindex]
  | .key _, .place _ => cases j <;> first | cases h | cases h'
  | .place _, .key _ => cases j <;> first | cases h | cases h'

/-- Paths of one document with the same pointer are the same, whatever characters its keys have. -/
theorem pointerOf_inj {path path' : List Step} {j v v' : Json} (h : j.valueAt? path = some v)
    (h' : j.valueAt? path' = some v') (hpointer : pointerOf path = pointerOf path') :
    path = path' := by
  have htokens : path.map Step.token = path'.map Step.token := congrArg JsonPointer.tokens hpointer
  clear hpointer
  induction path generalizing path' j with
  | nil => exact (List.map_eq_nil_iff.1 htokens.symm).symm
  | cons s rest ih =>
      cases path' with
      | nil => cases htokens
      | cons s' rest' =>
          obtain ⟨htoken, hrest⟩ := List.cons.inj htokens
          obtain ⟨child, hchild, hv⟩ := Option.bind_eq_some_iff.1 h
          obtain ⟨child', hchild', hv'⟩ := Option.bind_eq_some_iff.1 h'
          obtain rfl := token_inj hchild hchild' htoken
          rw [hchild] at hchild'
          obtain rfl := Option.some.inj hchild'
          rw [ih hv hv' hrest]

/-! ### Leaves -/

/-- The leaves of items are those of each item, under its place. -/
theorem mem_leavesFrom {start : Nat} {items : List Json} {p : JsonPointer} :
    p ∈ leavesFrom start items ↔ ∃ (index : Nat) (j : Json) (q : JsonPointer),
      items[index]? = some j ∧ q ∈ j.leaves ∧ p = q.under (toString (start + index)) := by
  induction items generalizing start with
  | nil => simp [leavesFrom]
  | cons item rest ih =>
      rw [leavesFrom, List.mem_append, ih, List.mem_map]
      constructor
      · rintro (⟨q, hq, rfl⟩ | ⟨index, j, q, hj, hq, rfl⟩)
        · exact ⟨0, item, q, rfl, hq, rfl⟩
        · exact ⟨index + 1, j, q, hj, hq, by rw [Nat.add_right_comm, Nat.add_assoc]⟩
      · rintro ⟨index, j, q, hj, hq, rfl⟩
        cases index with
        | zero =>
            obtain rfl := Option.some.inj hj
            exact .inl ⟨q, hq, rfl⟩
        | succ index =>
            exact .inr ⟨index, j, q, hj, hq, by rw [Nat.add_right_comm, Nat.add_assoc]⟩

/-- The leaves of fields are those of each value, under its key. -/
theorem mem_leavesOfFields {fields : List (String × Json)} {p : JsonPointer} :
    p ∈ leavesOfFields fields ↔ ∃ f ∈ fields, ∃ q ∈ f.2.leaves,
      p = q.under (JsonPointer.escapeToken f.1) := by
  induction fields with
  | nil => simp [leavesOfFields]
  | cons f rest ih =>
      obtain ⟨key, j⟩ := f
      rw [leavesOfFields, List.mem_append, ih, List.mem_map]
      constructor
      · rintro (⟨q, hq, rfl⟩ | ⟨f, hf, hrest⟩)
        · exact ⟨(key, j), List.mem_cons_self, q, hq, rfl⟩
        · exact ⟨f, List.mem_cons_of_mem _ hf, hrest⟩
      · rintro ⟨f, hf, q, hq, rfl⟩
        rcases List.mem_cons.1 hf with rfl | hf
        · exact .inl ⟨q, hq, rfl⟩
        · exact .inr ⟨f, hf, q, hq, rfl⟩

/-- The leaves of an ordered document are the pointers of its paths to leaves. -/
theorem mem_leaves_iff {j : Json} (h : j.Ordered) {p : JsonPointer} :
    p ∈ j.leaves ↔ ∃ path, j.HasLeaf path ∧ p = pointerOf path := by
  induction h generalizing p with
  | @leaf j hleaf =>
      have hleaves : j.leaves = [⟨[]⟩] := by cases j <;> first | rfl | cases hleaf
      rw [hleaves, List.mem_singleton]
      constructor
      · rintro rfl
        exact ⟨[], ⟨j, rfl, hleaf⟩, rfl⟩
      · rintro ⟨path, hpath, rfl⟩
        cases path with
        | nil => rfl
        | cons s rest =>
            obtain ⟨child, hchild, -⟩ := hasLeaf_cons.1 hpath
            rw [into?_of_isLeaf hleaf] at hchild
            cases hchild
  | @array items h ih =>
      rw [leaves, mem_leavesFrom]
      simp only [Nat.zero_add]
      constructor
      · rintro ⟨index, j, q, hj, hq, rfl⟩
        obtain ⟨path, hpath, rfl⟩ := (ih j (List.mem_of_getElem? hj)).1 hq
        exact ⟨.place index :: path, hasLeaf_cons.2 ⟨j, hj, hpath⟩, rfl⟩
      · rintro ⟨path, hpath, rfl⟩
        cases path with
        | nil =>
            obtain ⟨v, hv, hleaf⟩ := hpath
            obtain rfl := Option.some.inj hv
            cases hleaf
        | cons s rest =>
            obtain ⟨child, hchild, hrest⟩ := hasLeaf_cons.1 hpath
            cases s with
            | key k => cases hchild
            | place index =>
                exact ⟨index, child, _, hchild,
                  (ih child (List.mem_of_getElem? hchild)).2 ⟨rest, hrest, rfl⟩, rfl⟩
  | @object fields hrising h ih =>
      rw [leaves, mem_leavesOfFields]
      constructor
      · rintro ⟨⟨k, j⟩, hf, q, hq, rfl⟩
        obtain ⟨path, hpath, rfl⟩ := (ih (k, j) hf).1 hq
        exact ⟨.key k :: path,
          hasLeaf_cons.2 ⟨j, (field?_eq_some_iff hrising).2 hf, hpath⟩, rfl⟩
      · rintro ⟨path, hpath, rfl⟩
        cases path with
        | nil =>
            obtain ⟨v, hv, hleaf⟩ := hpath
            obtain rfl := Option.some.inj hv
            cases hleaf
        | cons s rest =>
            obtain ⟨child, hchild, hrest⟩ := hasLeaf_cons.1 hpath
            cases s with
            | place index => cases hchild
            | key k =>
                have hmem := (field?_eq_some_iff hrising).1 hchild
                exact ⟨(k, child), hmem, _, (ih (k, child) hmem).2 ⟨rest, hrest, rfl⟩, rfl⟩

end Json

end MarketReplay
