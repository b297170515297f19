import MarketReplay.Proofs.Json.PointerTexts

/-!
# The report on unused keys

The report lists the texts of the leaves of a document that no consumed pointer covers, in order
and each once (`UnusedKeys.report_exact`). A consumed pointer covers a leaf if its tokens begin
those of the leaf, which the normalized texts of the two tell as well. The listed texts tell the
leaves apart and lead back to them, and a strict report is refused exactly if a leaf is listed.
-/

namespace MarketReplay

open JsonPointer (ofText normalized coversText)
open Json (Step pointerOf)

namespace UnusedKeys

/-! ### Lists of texts -/

/-- Texts are listed in their order, each once. -/
theorem pairwise_texts (pointers : List JsonPointer) : (texts pointers).Pairwise (· < ·) := by
  have hsorted := (SortedSet.ofList (pointers.map JsonPointer.text)).sorted
  refine List.pairwise_map.2 (hsorted.imp fun {a b} hlt => ?_)
  exact compareOfLessAndEq_eq_lt.1 hlt

/-- The listed texts are those of the pointers. -/
theorem mem_texts {pointers : List JsonPointer} {t : String} :
    t ∈ texts pointers ↔ ∃ p ∈ pointers, p.text = t := by
  rw [texts, SortedSet.mem_toList, SortedSet.contains_ofList, decide_eq_true_eq, List.mem_map]

/-! ### Leaves that are not read -/

/-- Whether a path ends at a leaf that no consumed pointer covers: the tokens of none begin those of
the path. -/
def Unread (consumed : List String) (document : Json) (path : List Step) : Prop :=
  document.HasLeaf path ∧ ∀ s ∈ consumed, ¬ (ofText s).tokens <+: (pointerOf path).tokens

/-- The unused texts are those of the paths that are not read. -/
theorem mem_unused {consumed : List String} {document : Json} (h : document.Ordered)
    {t : String} :
    t ∈ (report consumed document).unused ↔
      ∃ path, Unread consumed document path ∧ t = (pointerOf path).text := by
  have houtside : ∀ p : JsonPointer,
      p ∈ leavesOutside (consumed.map ofText) document ↔
        p ∈ document.leaves ∧ ∀ s ∈ consumed, ¬ (ofText s).tokens <+: p.tokens := by
    intro p
    simp [leavesOutside, JsonPointer.covers]
  unfold report
  simp only [mem_texts, houtside, Json.mem_leaves_iff h]
  constructor
  · rintro ⟨p, ⟨⟨path, hpath, rfl⟩, hfree⟩, rfl⟩
    exact ⟨path, ⟨hpath, hfree⟩, rfl⟩
  · rintro ⟨path, ⟨hpath, hfree⟩, rfl⟩
    exact ⟨_, ⟨⟨path, hpath, rfl⟩, hfree⟩, rfl⟩

/-- The pointer of a text is its normalized text read as it stands, but where that is the slash
alone: this is the whole document. -/
theorem read?_normalized (s : String) :
    normalized s = "/" ∧ (ofText s).tokens = [] ∨
      JsonPointer.read? (normalized s) = some (ofText s) := by
  rw [← JsonPointer.text_ofText]
  by_cases hroot : (ofText s).tokens = []
  · exact .inl ⟨if_pos (by simpa using hroot), hroot⟩
  · exact .inr (JsonPointer.read?_text (JsonPointer.ofText_plain s) hroot)

/-- A report is refused exactly if it is strict and lists a leaf. -/
theorem checkUnused_eq (strict : Bool) (consumed : List String) (c : Config) :
    c.checkUnused strict consumed =
      if strict ∧ (report consumed c.document).unused ≠ [] then
        .error (.unusedKeys (report consumed c.document).unused)
      else .ok (report consumed c.document) := by
  unfold Config.checkUnused isClean
  cases strict <;> simp

/-- Take an ordered document that is an object or an array, and texts of consumed pointers. The
report lists in order, each once, the texts of the paths to leaves whose tokens those of no consumed
pointer begin. A consumed pointer has the tokens of its normalized text, none if that is the slash
alone; and that text covers the text of a leaf exactly if its tokens begin those of the leaf. Paths
to different leaves have different texts, each of which leads to its leaf as it stands. A strict
report is refused exactly if it lists a leaf. -/
theorem report_exact (consumed : List String) {document : Json} (h : document.Ordered)
    (hroot : document.isLeaf = false) :
    let unused := (report consumed document).unused
    unused.Pairwise (· < ·) ∧
    (∀ t, t ∈ unused ↔ ∃ path, Unread consumed document path ∧ t = (pointerOf path).text) ∧
    (∀ s, normalized s = "/" ∧ (ofText s).tokens = [] ∨
      JsonPointer.read? (normalized s) = some (ofText s)) ∧
    (∀ s path, document.HasLeaf path →
      (coversText (normalized s) (pointerOf path).text ↔
        (ofText s).tokens <+: (pointerOf path).tokens)) ∧
    (∀ path path', document.HasLeaf path → document.HasLeaf path' →
      (pointerOf path).text = (pointerOf path').text → path = path') ∧
    (∀ path v, document.valueAt? path = some v → v.isLeaf →
      document.resolve? (pointerOf path).text = some v) ∧
    ∀ c : Config, c.document = document →
      c.checkUnused false consumed = .ok (report consumed document) ∧
      (unused = [] → c.checkUnused true consumed = .ok (report consumed document)) ∧
      (unused ≠ [] → c.checkUnused true consumed = .error (.unusedKeys unused)) := by
  intro unused
  refine ⟨pairwise_texts _, fun t => mem_unused h, read?_normalized, ?_, ?_, ?_, ?_⟩
  · rintro s path ⟨v, hv, hleaf⟩
    have hne : (pointerOf path).tokens ≠ [] := by
      simpa [pointerOf] using Json.path_ne_nil hroot hv hleaf
    rw [← JsonPointer.covers_ofText s (Json.pointerOf_plain path) hne, JsonPointer.covers,
      List.isPrefixOf_iff_prefix]
  · rintro path path' ⟨v, hv, hleaf⟩ ⟨v', hv', hleaf'⟩ htext
    exact Json.text_pointerOf_inj hv hv' (Json.path_ne_nil hroot hv hleaf)
      (Json.path_ne_nil hroot hv' hleaf') htext
  · intro path v hv hleaf
    exact Json.resolve?_text_pointerOf hv (Json.path_ne_nil hroot hv hleaf)
  · rintro c rfl
    refine ⟨?_, fun hclean => ?_, fun hlisted => ?_⟩
    · rw [checkUnused_eq, if_neg (by simp)]
    · rw [checkUnused_eq, if_neg fun hrefused => hrefused.2 hclean]
    · rw [checkUnused_eq, if_pos ⟨rfl, hlisted⟩]

/-- A document with an empty key, a slash and tildes in its keys, and one key that begins as another
one does. -/
def oddKeys : Json :=
  .object
    [("", .bool true), ("a/b", .object [("c~d", .int 1)]), ("l", .array [.null]),
     ("la", .string "x"), ("~", .array [.int 2, .int 3])]

/-- Of the odd keys the list is consumed, and the second place behind the tilde. -/
theorem odd_keys_listed :
    oddKeys.Ordered ∧ oddKeys.isLeaf = false ∧
    (report [" l//", "/a/b", "~0/1"] oddKeys).unused = ["/", "/a~1b/c~0d", "/la", "/~0/0"] ∧
    oddKeys.resolve? "/" = some (.bool true) ∧ oddKeys.resolve? "/a~1b/c~0d" = some (.int 1) ∧
    Config.checkUnused true [" l//", "/a/b", "~0/1"] ⟨oddKeys⟩ =
      .error (.unusedKeys ["/", "/a~1b/c~0d", "/la", "/~0/0"]) := by
  have hrising : Json.Rising [("", .bool true), ("a/b", .object [("c~d", .int 1)]),
      ("l", .array [.null]), ("la", .string "x"), ("~", .array [.int 2, .int 3])] := by
    decide +kernel
  have hordered : oddKeys.Ordered := by
    refine .object hrising ?_
    simp only [List.forall_mem_cons, List.not_mem_nil, false_implies, implies_true, and_true]
    refine ⟨.leaf rfl, .object (List.pairwise_singleton _ _) ?_, .array ?_, .leaf rfl, .array ?_⟩
    · exact List.forall_mem_singleton.2 (.leaf rfl)
    · exact List.forall_mem_singleton.2 (.leaf rfl)
    · exact List.forall_mem_cons.2 ⟨.leaf rfl, List.forall_mem_singleton.2 (.leaf rfl)⟩
  have hunused : (report [" l//", "/a/b", "~0/1"] oddKeys).unused =
      ["/", "/a~1b/c~0d", "/la", "/~0/0"] := by
    decide +kernel
  obtain ⟨-, -, -, -, -, hresolve, hstrict⟩ := report_exact [" l//", "/a/b", "~0/1"] hordered rfl
  obtain ⟨-, -, hrefused⟩ := hstrict ⟨oddKeys⟩ rfl
  rw [hunused] at hrefused
  exact ⟨hordered, rfl, hunused, hresolve [.key ""] _ rfl rfl,
    hresolve [.key "a/b", .key "c~d"] _ rfl rfl, hrefused (List.cons_ne_nil _ _)⟩

end UnusedKeys

end MarketReplay
