import Mathlib.Data.List.DropRight
import MarketReplay.Proofs.Json.Paths

/-!
# Texts of pointers

A text that a pointer is read from is normalized: it is trimmed, it gets a slash at its start, and
it loses the slashes at its end. The text of the pointer is the normalized one
(`JsonPointer.text_ofText`). Whether the tokens of a pointer begin those of another one can be told
from the texts: the first text is followed by a slash in the second one, or is the same
(`JsonPointer.covers_eq_coversText`). The text of the pointer of a path, read as it stands, leads to
where the path leads (`Json.resolve?_text_pointerOf`), and no other path of the document has it
(`Json.text_pointerOf_inj`).
-/

namespace MarketReplay

/-! ### Parts of a text -/

namespace Text

/-- A text behind a separator is its parts with a separator before each. -/
theorem flatMap_split (sep : Char) (cs : List Char) :
    (split sep cs).flatMap (sep :: ·) = sep :: cs := by
  induction cs with
  | nil => rfl
  | cons c rest ih =>
      rw [split]
      by_cases hc : c = sep
      · rw [if_pos hc, List.flatMap_cons, ih, hc]
        rfl
      · rw [if_neg hc]
        cases hparts : split sep rest with
        | nil => exact absurd hparts (split_ne_nil sep rest)
        | cons part parts =>
            rw [hparts, List.flatMap_cons, List.cons_append] at ih
            rw [List.flatMap_cons, List.cons_append, List.cons_append, (List.cons.inj ih).2]

/-- Parts without separators can be told from the text. -/
theorem flatMap_inj {sep : Char} {parts parts' : List (List Char)}
    (h : ∀ part ∈ parts, sep ∉ part) (h' : ∀ part ∈ parts', sep ∉ part)
    (htext : parts.flatMap (sep :: ·) = parts'.flatMap (sep :: ·)) : parts = parts' := by
  have hsplit := split_flatMap h
  rw [htext, split_flatMap h'] at hsplit
  exact (List.cons.inj hsplit).2.symm

/-- Parts begin other parts exactly when their texts are the same, or the text of the first is
followed by a separator in the other text. -/
theorem prefix_iff_flatMap {sep : Char} {parts parts' : List (List Char)}
    (h : ∀ part ∈ parts, sep ∉ part) (h' : ∀ part ∈ parts', sep ∉ part) :
    parts <+: parts' ↔ parts'.flatMap (sep :: ·) = parts.flatMap (sep :: ·) ∨
      parts.flatMap (sep :: ·) ++ [sep] <+: parts'.flatMap (sep :: ·) := by
  constructor
  · rintro ⟨more, rfl⟩
    cases more with
    | nil => exact .inl (by rw [List.append_nil])
    | cons part rest =>
        exact .inr ⟨part ++ rest.flatMap (sep :: ·), by simp⟩
  · rintro (htext | ⟨rest, htext⟩)
    · obtain rfl := flatMap_inj h' h htext
      exact List.prefix_rfl
    · rw [List.append_assoc, List.singleton_append, ← flatMap_split, ← List.flatMap_append] at htext
      refine ⟨split sep rest, flatMap_inj (fun part hpart => ?_) h' htext⟩
      rcases List.mem_append.1 hpart with hpart | hpart
      · exact h part hpart
      · exact not_mem_of_mem_split hpart

end Text

namespace JsonPointer

/-! ### Normalized texts -/

/-- A text without the slashes it begins with, but for a slash that is its last character. -/
def dropSlashes : List Char → List Char
  | '/' :: c :: rest => dropSlashes (c :: rest)
  | cs => cs

/-- A trimmed text with a slash at its start. -/
def slashed (s : String) : List Char :=
  let cs := Text.trim s.toList
  if cs.head? = some '/' then cs else '/' :: cs

/-- A trimmed text with a slash at its start, and none at its end unless it is a slash alone. -/
def normalized (s : String) : String := String.ofList (dropSlashes (slashed s).reverse).reverse

/-- A text that does not begin with a slash loses nothing. -/
theorem dropSlashes_cons {c : Char} (h : c ≠ '/') (rest : List Char) :
    dropSlashes (c :: rest) = c :: rest := by
  rw [dropSlashes]
  exact fun _ _ hcs => h (List.cons.inj hcs).1

/-- Dropping the slashes at the end of a text drops the empty parts there. -/
theorem dropSlashes_reverse_flatMap {parts : List (List Char)} (hne : parts ≠ [])
    (h : ∀ part ∈ parts, '/' ∉ part) :
    (dropSlashes (parts.flatMap ('/' :: ·)).reverse).reverse =
      if parts.rdropWhile List.isEmpty = [] then ['/']
      else (parts.rdropWhile List.isEmpty).flatMap ('/' :: ·) := by
  induction parts using List.reverseRecOn with
  | nil => exact absurd rfl hne
  | append_singleton front last ih =>
      have hfront : ∀ part ∈ front, '/' ∉ part := fun part hpart => h part (by simp [hpart])
      rw [List.flatMap_append, List.flatMap_singleton, List.reverse_append]
      rcases List.eq_nil_or_concat last with rfl | ⟨init, c, rfl⟩
      · -- The last part is empty: its slash goes, unless it is all there is.
        rw [List.rdropWhile_concat_pos _ _ _ rfl]
        cases front with
        | nil => rfl
        | cons part rest =>
            rw [← ih (List.cons_ne_nil _ _) hfront]
            obtain ⟨c, cs, hcs⟩ := List.exists_cons_of_ne_nil
              (l := ((part :: rest).flatMap ('/' :: ·)).reverse) (by simp)
            rw [hcs]
            rfl
      · have hc : c ≠ '/' := by
          rintro rfl
          exact h (init.concat '/') (by simp) (by simp)
        have hkept : List.isEmpty (init.concat c) ≠ true := by simp
        rw [List.rdropWhile_concat_neg _ _ _ hkept, if_neg (by simp), List.flatMap_append,
          List.flatMap_singleton, List.concat_eq_append, ← List.cons_append, List.reverse_append,
          List.reverse_singleton, List.singleton_append, List.cons_append, dropSlashes_cons hc]
        simp

/-- The tokens of a text are the parts behind the slashes of it, up to the last one that is not
empty. -/
theorem exists_parts (s : String) : ∃ parts, parts ≠ [] ∧ (∀ part ∈ parts, '/' ∉ part) ∧
    slashed s = parts.flatMap ('/' :: ·) ∧
    (ofText s).tokens = (parts.rdropWhile List.isEmpty).map String.ofList := by
  have hsplit : ∀ cs, Text.split '/' cs ≠ [] ∧ (∀ part ∈ Text.split '/' cs, '/' ∉ part) :=
    fun cs => ⟨Text.split_ne_nil '/' cs, fun _ hpart => Text.not_mem_of_mem_split hpart⟩
  unfold slashed ofText
  cases Text.trim s.toList with
  | nil => exact ⟨[[]], by simp, by simp, rfl, rfl⟩
  | cons c rest =>
      by_cases hc : c = '/'
      · subst hc
        exact ⟨Text.split '/' rest, (hsplit rest).1, (hsplit rest).2,
          (Text.flatMap_split '/' rest).symm, rfl⟩
      · refine ⟨Text.split '/' (c :: rest), (hsplit _).1, (hsplit _).2, ?_, ?_⟩
        · rw [Text.flatMap_split]
          simp [hc]
        · rw [Text.split, if_neg hc]
          cases Text.split '/' rest <;> rfl

/-- No token of a text holds a slash. -/
theorem ofText_plain (s : String) : (ofText s).Plain := by
  obtain ⟨parts, -, hplain, -, htokens⟩ := exists_parts s
  unfold Plain
  rw [htokens]
  intro token htoken
  obtain ⟨part, hpart, rfl⟩ := List.mem_map.1 htoken
  rw [String.toList_ofList]
  exact hplain part ((List.rdropWhile_prefix _ _).subset hpart)

/-- The last token of a text is not empty. -/
theorem getLast?_ofText (s : String) : (ofText s).tokens.getLast? ≠ some "" := by
  obtain ⟨parts, -, -, -, htokens⟩ := exists_parts s
  intro hlast
  rw [htokens, List.getLast?_map] at hlast
  obtain ⟨part, hpart, hempty⟩ := Option.map_eq_some_iff.1 hlast
  obtain ⟨hne, rfl⟩ := List.mem_getLast?_eq_getLast hpart
  refine List.rdropWhile_last_not _ _ hne ?_
  have hchars := congrArg String.toList hempty
  rw [String.toList_ofList] at hchars
  exact List.isEmpty_iff.2 hchars

/-- The text of the pointer that a text is read as is the normalized text. -/
theorem text_ofText (s : String) : (ofText s).text = normalized s := by
  obtain ⟨parts, hne, hplain, hslashed, htokens⟩ := exists_parts s
  rw [← String.toList_inj, toList_text, normalized, String.toList_ofList, hslashed,
    dropSlashes_reverse_flatMap hne hplain, written, htokens]
  cases parts.rdropWhile List.isEmpty with
  | nil => rfl
  | cons part rest => simp

/-! ### Covering -/

/-- Tokens are written as they are, if there are any. -/
theorem written_eq_tokens {p : JsonPointer} (h : p.tokens ≠ []) : p.written = p.tokens :=
  if_neg (by simpa using h)

/-- The characters of plain tokens hold no slash. -/
theorem Plain.slash_not_mem {p : JsonPointer} (h : p.Plain) :
    ∀ part ∈ p.tokens.map String.toList, '/' ∉ part := by
  intro part hpart
  obtain ⟨token, htoken, rfl⟩ := List.mem_map.1 hpart
  exact h token htoken

/-- Whether a text points into what another one points to, as the texts tell it: the other one is
the slash, or the two are the same, or the other one is followed by a slash. -/
def coversText (pattern leaf : String) : Bool :=
  pattern == "/" || leaf == pattern || (pattern.toList ++ ['/']).isPrefixOf leaf.toList

/-- The tokens of a pointer begin those of another one exactly when its text covers the other's. -/
theorem covers_eq_coversText {p q : JsonPointer} (hp : p.Plain)
    (hlast : p.tokens.getLast? ≠ some "") (hq : q.Plain) (hne : q.tokens ≠ []) :
    p.covers q = coversText p.text q.text := by
  rw [Bool.eq_iff_iff]
  unfold covers coversText
  simp only [Bool.or_eq_true, beq_iff_eq, List.isPrefixOf_iff_prefix]
  by_cases hroot : p.tokens = []
  · have htext : p.text = "/" := if_pos (by simpa using hroot)
    simp [hroot, htext]
  -- Tokens that are written as a slash alone are one empty token.
  have hslash : p.text ≠ "/" := by
    intro htext
    have hempty : Plain ⟨[]⟩ := List.forall_mem_nil _
    have hone := written_eq_of_text_eq hp hempty htext
    rw [written_eq_tokens hroot] at hone
    exact hlast (congrArg List.getLast? hone)
  rw [← List.prefix_map_iff_of_injective fun _ _ => String.toList_injective,
    Text.prefix_iff_flatMap hp.slash_not_mem hq.slash_not_mem, ← written_eq_tokens hroot,
    ← written_eq_tokens hne, ← toList_text, ← toList_text, String.toList_inj]
  simp [hslash]

/-- A text covers the text of a pointer to a part of a document exactly when its tokens begin those
of the pointer. -/
theorem covers_ofText (s : String) {q : JsonPointer} (hq : q.Plain) (hne : q.tokens ≠ []) :
    (ofText s).covers q = coversText (normalized s) q.text := by
  rw [covers_eq_coversText (ofText_plain s) (getLast?_ofText s) hq hne, text_ofText]

/-! ### Reading a text as it stands -/

/-- The pointer that a text is as it stands: the whole document if it is empty, else the tokens
behind its slashes, the first of which it begins with. -/
def read? (s : String) : Option JsonPointer :=
  match Text.split '/' s.toList with
  | [] :: parts => some ⟨parts.map String.ofList⟩
  | _ => none

/-- The text of tokens without slashes is these tokens. -/
theorem read?_text {p : JsonPointer} (hp : p.Plain) (hne : p.tokens ≠ []) :
    read? p.text = some p := by
  rw [read?, toList_text, written_eq_tokens hne, Text.split_flatMap hp.slash_not_mem]
  simp

end JsonPointer

namespace Json

/-- What the text of a pointer leads to, as it stands. -/
def resolve? (s : String) (j : Json) : Option Json := (JsonPointer.read? s).bind j.at?

/-- The text of the pointer of a path leads to the end of the path. -/
theorem resolve?_text_pointerOf {path : List Step} {j v : Json} (h : j.valueAt? path = some v)
    (hne : path ≠ []) : j.resolve? (pointerOf path).text = some v := by
  have htokens : (pointerOf path).tokens ≠ [] := by simpa [pointerOf] using hne
  rw [resolve?, JsonPointer.read?_text (pointerOf_plain path) htokens]
  exact lookup_pointerOf h

/-- The path to a leaf of a document that is no leaf itself has a step. -/
theorem path_ne_nil {j v : Json} (hroot : j.isLeaf = false) {path : List Step}
    (hv : j.valueAt? path = some v) (hleaf : v.isLeaf) : path ≠ [] := by
  rintro rfl
  obtain rfl := Option.some.inj hv
  rw [hleaf] at hroot
  cases hroot

/-- Paths into a document with the same text are the same, whatever characters its keys have. -/
theorem text_pointerOf_inj {path path' : List Step} {j v v' : Json} (h : j.valueAt? path = some v)
    (h' : j.valueAt? path' = some v') (hne : path ≠ []) (hne' : path' ≠ [])
    (htext : (pointerOf path).text = (pointerOf path').text) : path = path' := by
  have hread : ∀ path : List Step, path ≠ [] →
      JsonPointer.read? (pointerOf path).text = some (pointerOf path) := fun path hne =>
    JsonPointer.read?_text (pointerOf_plain path) (by simpa [pointerOf] using hne)
  have hpointer := hread path hne
  rw [htext, hread path' hne'] at hpointer
  exact pointerOf_inj h h' (Option.some.inj hpointer).symm

end Json

end MarketReplay
