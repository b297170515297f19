import MarketReplay.Json.Pointer

/-!
# The leaves of a document and their texts

No token of a leaf holds a slash (`Json.leaves_plain`), so the text of a leaf tells its tokens, but
for the document that is a leaf itself and the key without characters
(`JsonPointer.written_eq_of_text_eq`). Two documents are the same but for some leaves
(`Json.SameBut`) if they have the same keys and places and differ in the values of these leaves at
most; then they are the same below a key under which no leaf is one of these (`Json.field?_eq`).
-/

namespace MarketReplay

/-- Texts without separators, a separator before each, are split into these after an empty part. -/
theorem Text.split_flatMap {sep : Char} {parts : List (List Char)}
    (h : ∀ part ∈ parts, sep ∉ part) :
    split sep (parts.flatMap (sep :: ·)) = [] :: parts := by
  have hfirst : ∀ (part : List Char) (rest : List (List Char)), sep ∉ part →
      split sep (rest.flatMap (sep :: ·)) = [] :: rest →
      split sep (part ++ rest.flatMap (sep :: ·)) = part :: rest := by
    intro part rest hpart hrest
    induction part with
    | nil => exact hrest
    | cons c cs ih =>
        obtain ⟨hc, hcs⟩ := not_or.1 (mt List.mem_cons.2 hpart)
        rw [List.cons_append, split, if_neg (Ne.symm hc), ih hcs]
  induction parts with
  | nil => rfl
  | cons part rest ih =>
      obtain ⟨hpart, hrest⟩ := List.forall_mem_cons.1 h
      rw [List.flatMap_cons, List.cons_append, split, if_pos rfl, hfirst part rest hpart (ih hrest)]

namespace JsonPointer

/-- Whether no token holds a slash. -/
def Plain (p : JsonPointer) : Prop := ∀ token ∈ p.tokens, '/' ∉ token.toList

/-- The tokens that the text is written from: the pointer without tokens has the text of one that
is empty. -/
def written (p : JsonPointer) : List String := if p.tokens.isEmpty then [""] else p.tokens

theorem toList_text (p : JsonPointer) :
    p.text.toList = (p.written.map String.toList).flatMap ('/' :: ·) := by
  unfold text written
  split
  · rfl
  · have htoken : (fun token : String => ("/" ++ token).toList) =
        fun token => '/' :: token.toList := by
      funext token
      simp
    rw [String.toList_join, List.flatMap_map, List.flatMap_map, htoken]

theorem Plain.written {p : JsonPointer} (h : p.Plain) :
    ∀ token ∈ p.written, '/' ∉ token.toList := by
  unfold JsonPointer.written
  split
  · intro token htoken
    obtain rfl := List.mem_singleton.1 htoken
    decide
  · exact h

/-- Plain pointers of one text are written from the same tokens. -/
theorem written_eq_of_text_eq {p q : JsonPointer} (hp : p.Plain) (hq : q.Plain)
    (h : p.text = q.text) : p.written = q.written := by
  have hsplit : ∀ r : JsonPointer, r.Plain →
      Text.split '/' r.text.toList = [] :: r.written.map String.toList := by
    intro r hr
    rw [toList_text]
    refine Text.split_flatMap fun part hpart => ?_
    obtain ⟨token, htoken, rfl⟩ := List.mem_map.1 hpart
    exact hr.written token htoken
  have hparts := hsplit p hp
  rw [h, hsplit q hq] at hparts
  exact ((List.map_inj_right fun _ _ => String.toList_injective).1 (List.cons.inj hparts).2).symm

end JsonPointer

/-! ### Tokens of leaves -/

/-- A token that stands for a key holds no slash. -/
theorem JsonPointer.slash_not_mem_escapeToken (key : String) : '/' ∉ (escapeToken key).toList := by
  intro hmem
  unfold escapeToken at hmem
  rw [String.toList_join, List.mem_flatMap] at hmem
  obtain ⟨part, hpart, hslash⟩ := hmem
  obtain ⟨c, -, rfl⟩ := List.mem_map.1 hpart
  split at hslash
  · exact absurd hslash (by decide)
  · split at hslash
    · exact absurd hslash (by decide)
    · rename_i hc
      simp only [Char.toString, String.toList_singleton, List.mem_singleton] at hslash
      exact hc hslash.symm

/-- A place is written in digits. -/
theorem slash_not_mem_toString (n : Nat) : '/' ∉ (toString n).toList := by
  intro hmem
  rw [Nat.toString_eq_repr, Nat.toList_repr] at hmem
  have hdigit := Nat.isDigit_of_mem_toDigits (by decide) (by decide) hmem
  exact absurd hdigit (by decide)

/-- A pointer under a token without a slash is plain if the rest is. -/
theorem JsonPointer.Plain.under {p : JsonPointer} (hp : p.Plain) {token : String}
    (htoken : '/' ∉ token.toList) : (p.under token).Plain :=
  List.forall_mem_cons.2 ⟨htoken, hp⟩

namespace Json

mutual

/-- Leaves have plain pointers. -/
theorem leaves_plain : (j : Json) → ∀ p ∈ j.leaves, p.Plain
  | .null, _, h | .bool _, _, h | .number _, _, h | .string _, _, h => by
    obtain rfl := List.mem_singleton.1 h
    exact nofun
  | .array items, p, h => leavesFrom_plain 0 items p h
  | .object fields, p, h => leavesOfFields_plain fields p h

theorem leavesFrom_plain (index : Nat) : (items : List Json) → ∀ p ∈ leavesFrom index items, p.Plain
  | [], _, h => nomatch h
  | j :: rest, p, h => by
    rcases List.mem_append.1 h with hitem | hrest
    · obtain ⟨q, hq, rfl⟩ := List.mem_map.1 hitem
      exact (leaves_plain j q hq).under (slash_not_mem_toString index)
    · exact leavesFrom_plain (index + 1) rest p hrest

theorem leavesOfFields_plain :
    (fields : List (String × Json)) → ∀ p ∈ leavesOfFields fields, p.Plain
  | [], _, h => nomatch h
  | (key, j) :: rest, p, h => by
    rcases List.mem_append.1 h with hvalue | hrest
    · obtain ⟨q, hq, rfl⟩ := List.mem_map.1 hvalue
      exact (leaves_plain j q hq).under (JsonPointer.slash_not_mem_escapeToken key)
    · exact leavesOfFields_plain rest p hrest

end

/-! ### Documents that are the same but for leaves -/

/-- Whether a document is a leaf. -/
def isLeaf : Json → Bool
  | array _ => false
  | object _ => false
  | _ => true

mutual

/-- Whether two documents have the same keys and places, and the same leaves but for those at some
pointers. -/
def SameBut (free : JsonPointer → Prop) : Json → Json → Prop
  | array items, array items' => SameItems free 0 items items'
  | object fields, object fields' => SameFields free fields fields'
  | j, j' => j.isLeaf ∧ j'.isLeaf ∧ (j = j' ∨ free ⟨[]⟩)

/-- The same for items, the first of which is at a place. -/
def SameItems (free : JsonPointer → Prop) (index : Nat) : List Json → List Json → Prop
  | [], [] => True
  | j :: rest, j' :: rest' =>
    SameBut (fun p => free (p.under (toString index))) j j' ∧ SameItems free (index + 1) rest rest'
  | _, _ => False

/-- The same for fields. -/
def SameFields (free : JsonPointer → Prop) : List (String × Json) → List (String × Json) → Prop
  | [], [] => True
  | (key, j) :: rest, (key', j') :: rest' =>
    key = key' ∧ SameBut (fun p => free (p.under (JsonPointer.escapeToken key))) j j' ∧
      SameFields free rest rest'
  | _, _ => False

end

mutual

/-- Documents that are the same but for no leaf are the same. -/
theorem eq_of_sameBut {free : JsonPointer → Prop} (hfree : ∀ p, p.Plain → ¬ free p) :
    (j j' : Json) → SameBut free j j' → j = j'
  | array items, array items', h =>
    congrArg array (eq_of_sameItems hfree 0 items items' h)
  | object fields, object fields', h =>
    congrArg object (eq_of_sameFields hfree fields fields' h)
  | .null, j', h | .bool _, j', h | .number _, j', h | .string _, j', h => by
    obtain ⟨-, -, rfl | hroot⟩ := h
    · rfl
    · exact absurd hroot (hfree _ nofun)

theorem eq_of_sameItems {free : JsonPointer → Prop} (hfree : ∀ p, p.Plain → ¬ free p)
    (index : Nat) : (items items' : List Json) → SameItems free index items items' → items = items'
  | [], [], _ => rfl
  | j :: rest, j' :: rest', ⟨hitem, hrest⟩ => by
    rw [eq_of_sameBut (fun p hp => hfree _ (hp.under (slash_not_mem_toString index))) j j' hitem,
      eq_of_sameItems hfree (index + 1) rest rest' hrest]

theorem eq_of_sameFields {free : JsonPointer → Prop} (hfree : ∀ p, p.Plain → ¬ free p) :
    (fields fields' : List (String × Json)) → SameFields free fields fields' → fields = fields'
  | [], [], _ => rfl
  | (key, j) :: rest, (key', j') :: rest', ⟨hkey, hvalue, hrest⟩ => by
    rw [hkey, eq_of_sameBut (fun p hp =>
      hfree _ (hp.under (JsonPointer.slash_not_mem_escapeToken key))) j j' hvalue,
      eq_of_sameFields hfree rest rest' hrest]

end

/-- Fields that are the same but for some leaves have the same keys in the same places. -/
theorem SameFields.keys_eq {free : JsonPointer → Prop} :
    {fields fields' : List (String × Json)} → SameFields free fields fields' →
      fields.map Prod.fst = fields'.map Prod.fst
  | [], [], _ => rfl
  | (_, _) :: _, (_, _) :: _, ⟨hkey, _, hrest⟩ => List.cons_eq_cons.2 ⟨hkey, keys_eq hrest⟩

/-- What two documents have under a key, if they are the same but for some leaves: nothing, or
documents that are the same but for the leaves among these. -/
def SameAt (free : JsonPointer → Prop) (key : String) (found found' : Option Json) : Prop :=
  found = none ∧ found' = none ∨ ∃ j j', found = some j ∧ found' = some j' ∧
    SameBut (fun p => free (p.under (JsonPointer.escapeToken key))) j j'

section Keys

variable {free : JsonPointer → Prop}

/-- Fields that are the same but for some leaves have the same keys. -/
theorem SameFields.field? {fields fields' : List (String × Json)}
    (h : SameFields free fields fields') (key : String) :
    SameAt free key (field? key fields) (field? key fields') := by
  induction fields generalizing fields' with
  | nil =>
      cases fields' with
      | nil => exact .inl ⟨rfl, rfl⟩
      | cons field' rest' => exact absurd h id
  | cons field rest ih =>
      cases fields' with
      | nil => exact absurd h id
      | cons field' rest' =>
          obtain ⟨k, j⟩ := field
          obtain ⟨k', j'⟩ := field'
          obtain ⟨rfl, hvalue, hrest⟩ := h
          rw [Json.field?, Json.field?]
          by_cases hk : k = key
          · subst hk
            rw [if_pos rfl, if_pos rfl]
            exact .inr ⟨j, j', rfl, rfl, hvalue⟩
          · rw [if_neg hk, if_neg hk]
            exact ih hrest

/-- Documents that are the same but for some leaves have the same keys; a key that stands for no
place is none of an array. -/
theorem SameBut.child? {j j' : Json} (h : SameBut free j j') {key : String}
    (hkey : indexOf? key = none) : SameAt free key (child? key j) (child? key j') := by
  have hleaf : ∀ k : Json, k.isLeaf → Json.child? key k = none := by
    intro k hk
    cases k <;> first | rfl | cases hk
  match j, j', h with
  | array items, array items', _ =>
      refine .inl ⟨?_, ?_⟩ <;> rw [Json.child?, hkey] <;> rfl
  | object fields, object fields', h => exact SameFields.field? h key
  | .null, j', h | .bool _, j', h | .number _, j', h | .string _, j', h =>
      exact .inl ⟨rfl, hleaf j' h.2.1⟩

/-- A map is the same as a map only. -/
theorem SameBut.exists_object {fields : List (String × Json)} {j : Json}
    (h : SameBut free (object fields) j) :
    ∃ fields', j = object fields' ∧ SameFields free fields fields' := by
  cases j with
  | object fields' => exact ⟨fields', rfl, h⟩
  | null => exact absurd h.1 Bool.false_ne_true
  | bool _ => exact absurd h.1 Bool.false_ne_true
  | number _ => exact absurd h.1 Bool.false_ne_true
  | string _ => exact absurd h.1 Bool.false_ne_true
  | array _ => exact absurd h.1 Bool.false_ne_true

/-- Under a key with none of the leaves the documents are the same. -/
theorem SameAt.eq {key : String} {found found' : Option Json} (h : SameAt free key found found')
    (hfree : ∀ p : JsonPointer, p.Plain → ¬ free (p.under (JsonPointer.escapeToken key))) :
    found = found' := by
  rcases h with ⟨rfl, rfl⟩ | ⟨j, j', rfl, rfl, hsame⟩
  · rfl
  · rw [eq_of_sameBut hfree j j' hsame]

end Keys

end Json

end MarketReplay
