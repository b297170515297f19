import Mathlib.Data.List.Induction
import MarketReplay.Config
import MarketReplay.Proofs.Json.Leaves

/-!
# Documents with their fields in order

An object is a map from keys to documents, written as the list of its fields in the order of their
keys (`Json.Rising`); a document is ordered if all of its objects are (`Json.Ordered`). Ordered
objects with the same values under each key are the same (`Json.rising_ext`). Every configuration
has an ordered document: what is read of a text is ordered, and one ordered document laid over
another is (`Config.ofFiles_ordered`).
-/

namespace MarketReplay

namespace Json

/-- Fields with strictly rising keys. -/
def Rising (fields : List (String × Json)) : Prop :=
  fields.Pairwise fun a b => compare a.1 b.1 = .lt

/-- Whether fields rise is decided by comparing their keys. -/
instance (fields : List (String × Json)) : Decidable (Rising fields) :=
  inferInstanceAs (Decidable (fields.Pairwise fun a b => compare a.1 b.1 = .lt))

/-- A document all objects of which have rising keys. -/
inductive Ordered : Json → Prop
  | leaf {j : Json} (h : j.isLeaf) : Ordered j
  | array {items : List Json} (h : ∀ j ∈ items, Ordered j) : Ordered (array items)
  | object {fields : List (String × Json)} (hrising : Rising fields)
      (h : ∀ f ∈ fields, Ordered f.2) : Ordered (object fields)

/-! ### Fields as a sorted map -/

/-- The value of a key is looked up as in a sorted map. -/
theorem field?_eq_find (key : String) (fields : List (String × Json)) :
    field? key fields = SortedMap.find key fields := by
  induction fields with
  | nil => rfl
  | cons f rest ih =>
      obtain ⟨k, j⟩ := f
      rw [field?, SortedMap.find, ih]
      by_cases hk : k = key
      · rw [if_pos hk, if_pos (hk ▸ Std.ReflCmp.compare_self)]
      · rw [if_neg hk, if_neg fun h => hk (Std.LawfulEqCmp.eq_of_compare h).symm]

/-- A field is put as in a sorted map. -/
theorem putField_eq_put (key : String) (value : Json) (fields : List (String × Json)) :
    putField key value fields = SortedMap.put key value fields := by
  induction fields with
  | nil => rfl
  | cons f rest ih =>
      obtain ⟨k, j⟩ := f
      rw [putField, SortedMap.put]
      cases compare key k with
      | lt => rfl
      | eq => rfl
      | gt => exact congrArg ((k, j) :: ·) ih

/-- Rising fields are the values of their keys. -/
theorem field?_eq_some_iff {fields : List (String × Json)} (h : Rising fields) {key : String}
    {j : Json} : field? key fields = some j ↔ (key, j) ∈ fields := by
  rw [field?_eq_find]
  exact SortedMap.find_eq_some_iff h

/-- Rising fields with the same values are the same. -/
theorem rising_ext {fields fields' : List (String × Json)} (h : Rising fields)
    (h' : Rising fields') (hsame : ∀ key, field? key fields = field? key fields') :
    fields = fields' := by
  refine SortedMap.entries_ext h h' fun key => ?_
  rw [← field?_eq_find, ← field?_eq_find]
  exact hsame key

/-- Fields are in order if they rise and have ordered values. -/
def FieldsOrdered (fields : List (String × Json)) : Prop :=
  Rising fields ∧ ∀ f ∈ fields, f.2.Ordered

namespace FieldsOrdered

variable {fields : List (String × Json)}

/-- A field that is put stands at its place. -/
theorem put (h : FieldsOrdered fields) (key : String) {value : Json} (hvalue : value.Ordered) :
    FieldsOrdered (putField key value fields) := by
  rw [putField_eq_put]
  refine ⟨SortedMap.sorted_put key value h.1, fun f hf => ?_⟩
  rcases SortedMap.mem_put hf with rfl | hold
  · exact hvalue
  · exact h.2 f hold

/-- The value of a key is ordered. -/
theorem of_field? (h : FieldsOrdered fields) {key : String} {j : Json}
    (hj : field? key fields = some j) : j.Ordered :=
  h.2 (key, j) ((field?_eq_some_iff h.1).1 hj)

/-- The value of a key is ordered, and so is the null that stands for a missing one. -/
theorem getD_field? (h : FieldsOrdered fields) (key : String) :
    ((field? key fields).getD null).Ordered := by
  cases hj : field? key fields with
  | none => exact .leaf rfl
  | some j => exact h.of_field? hj

end FieldsOrdered

/-- The fields of an ordered object are in order. -/
theorem Ordered.fieldsOrdered {fields : List (String × Json)} (h : (Json.object fields).Ordered) :
    FieldsOrdered fields := by
  cases h with
  | leaf h => cases h
  | object hrising h => exact ⟨hrising, h⟩

/-- The object of a list of ordered values is ordered, whatever the order of the list. -/
theorem ofFields_ordered {fields : List (String × Json)} (h : ∀ f ∈ fields, f.2.Ordered) :
    (ofFields fields).Ordered := by
  have hfold : ∀ (rest acc : List (String × Json)), FieldsOrdered acc →
      (∀ f ∈ rest, f.2.Ordered) →
      FieldsOrdered (rest.foldl (fun acc f => putField f.1 f.2 acc) acc) := by
    intro rest
    induction rest with
    | nil => exact fun acc hacc _ => hacc
    | cons f rest ih =>
        intro acc hacc hrest
        obtain ⟨hf, hrest⟩ := List.forall_mem_cons.1 hrest
        exact ih _ (hacc.put f.1 hf) hrest
  obtain ⟨hrising, hvalues⟩ := hfold fields [] ⟨.nil, nofun⟩ h
  exact .object hrising hvalues

/-! ### Layers -/

/-- An ordered document laid over an ordered one is ordered. -/
theorem overlay_ordered {later : Json} (h : later.Ordered) {earlier : Json}
    (hearlier : earlier.Ordered) : (overlay earlier later).Ordered := by
  induction h generalizing earlier with
  | @leaf j hleaf =>
      cases j with
      | null => exact hearlier
      | bool _ => exact .leaf hleaf
      | number _ => exact .leaf hleaf
      | string _ => exact .leaf hleaf
      | array _ => cases hleaf
      | object _ => cases hleaf
  | array h => exact .array h
  | @object fields hrising h ih =>
      cases earlier with
      | object old =>
          have hold := hearlier.fieldsOrdered
          -- The fields are put one after the other, from the last one on.
          have hfold : ∀ rest : List (String × Json), (∀ f ∈ rest, f ∈ fields) →
              FieldsOrdered (overlayFields old rest) := by
            intro rest
            induction rest with
            | nil => exact fun _ => hold
            | cons f rest ihrest =>
                intro hmem
                obtain ⟨hf, hrest⟩ := List.forall_mem_cons.1 hmem
                rw [overlayFields]
                exact (ihrest hrest).put f.1 (ih f hf (hold.getD_field? f.1))
          obtain ⟨hrising', hvalues⟩ := hfold fields fun _ hf => hf
          exact .object hrising' hvalues
      | null => exact .object hrising h
      | bool _ => exact .object hrising h
      | number _ => exact .object hrising h
      | string _ => exact .object hrising h
      | array _ => exact .object hrising h

/-- A document made of ordered layers is ordered. -/
theorem ofLayers_ordered {layers : List Json} (h : ∀ layer ∈ layers, layer.Ordered) :
    (ofLayers layers).Ordered := by
  induction layers using List.reverseRecOn with
  | nil => exact .object .nil nofun
  | append_singleton front layer ih =>
      rw [ofLayers, List.foldl_append]
      exact overlay_ordered (h layer (by simp)) (ih fun l hl => h l (by simp [hl]))

end Json

/-! ### Documents that are read -/

namespace Yaml

mutual

/-- The document of a value is ordered. -/
theorem toJson?_ordered : (v : Yaml) → ∀ j, toJson? v = some j → j.Ordered
  | null, j, h | bool _, j, h | string _, j, h | number (.integer _), j, h => by
    obtain rfl := Option.some.inj h
    exact .leaf rfl
  | number (.real x), j, h => by
    obtain rfl := Option.some.inj h
    refine .leaf ?_
    split <;> rfl
  | sequence items, j, h => by
    obtain ⟨documents, hdocuments, rfl⟩ := Option.map_eq_some_iff.1 h
    exact .array (itemsToJson?_ordered items documents hdocuments)
  | mapping entries, j, h => by
    obtain ⟨fields, hfields, rfl⟩ := Option.map_eq_some_iff.1 h
    exact Json.ofFields_ordered (entriesToJson?_ordered entries fields hfields)
  | tagged tag value, j, h => by
    obtain ⟨document, hdocument, rfl⟩ := Option.map_eq_some_iff.1 h
    refine .object (List.pairwise_singleton _ _) fun f hf => ?_
    obtain rfl := List.mem_singleton.1 hf
    exact toJson?_ordered value document hdocument

theorem itemsToJson?_ordered : (items : List Yaml) → ∀ documents,
    itemsToJson? items = some documents → ∀ j ∈ documents, j.Ordered
  | [], documents, h => by
    obtain rfl := Option.some.inj h
    exact nofun
  | v :: rest, documents, h => by
    rw [itemsToJson?] at h
    split at h
    · rename_i j more hj hmore
      obtain rfl := Option.some.inj h
      exact List.forall_mem_cons.2
        ⟨toJson?_ordered v j hj, itemsToJson?_ordered rest more hmore⟩
    · cases h

theorem entriesToJson?_ordered : (entries : List (Yaml × Yaml)) → ∀ fields,
    entriesToJson? entries = some fields → ∀ f ∈ fields, f.2.Ordered
  | [], fields, h => by
    obtain rfl := Option.some.inj h
    exact nofun
  | (k, v) :: rest, fields, h => by
    rw [entriesToJson?] at h
    split at h
    · rename_i key j more _ hj hmore
      obtain rfl := Option.some.inj h
      exact List.forall_mem_cons.2
        ⟨toJson?_ordered v j hj, entriesToJson?_ordered rest more hmore⟩
    · cases h

end

end Yaml

namespace Config

/-- The document of a layer is ordered. -/
theorem readLayer_ordered {index : Nat} {text : String} {layer : Json}
    (h : readLayer index text = .ok layer) : layer.Ordered := by
  unfold readLayer at h
  split at h
  · cases h
  · rename_i value _
    split at h
    · cases h
    · rename_i document hdocument
      obtain rfl := Except.ok.inj h
      exact Yaml.toJson?_ordered value document hdocument

/-- The documents of layers are ordered. -/
theorem readLayers_ordered {texts : List String} {index : Nat} {layers : List Json}
    (h : readLayers index texts = .ok layers) : ∀ layer ∈ layers, layer.Ordered := by
  induction texts generalizing index layers with
  | nil =>
      obtain rfl := Except.ok.inj h
      exact nofun
  | cons text rest ih =>
      rw [readLayers] at h
      cases hfirst : readLayer index text with
      | error e =>
          rw [hfirst] at h
          cases h
      | ok layer =>
          rw [hfirst] at h
          cases hrest : readLayers (index + 1) rest with
          | error e =>
              rw [hrest] at h
              cases h
          | ok more =>
              rw [hrest] at h
              obtain rfl := Except.ok.inj h
              exact List.forall_mem_cons.2 ⟨readLayer_ordered hfirst, ih hrest⟩

/-- A configuration has an ordered document. -/
theorem ofTexts_ordered {texts : List String} {c : Config} (h : ofTexts texts = .ok c) :
    c.document.Ordered := by
  unfold ofTexts at h
  cases hlayers : readLayers 0 texts with
  | error e =>
      rw [hlayers] at h
      cases h
  | ok layers =>
      rw [hlayers] at h
      obtain rfl := Except.ok.inj h
      exact Json.ofLayers_ordered (readLayers_ordered hlayers)

/-- A configuration that is read from files has an ordered document. -/
theorem ofFiles_ordered {file : String → Except String String} {paths : List String} {c : Config}
    (h : ofFiles file paths = .ok c) : c.document.Ordered := by
  unfold ofFiles at h
  cases htexts : paths.mapM (readFile file) with
  | error e =>
      rw [htexts] at h
      cases h
  | ok texts =>
      rw [htexts] at h
      exact ofTexts_ordered h

end Config

end MarketReplay
