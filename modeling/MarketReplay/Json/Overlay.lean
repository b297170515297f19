import MarketReplay.Json

/-!
# Documents in layers

A later document laid over an earlier one: objects are joined key by key, a null leaves what was
there, and any other value takes the place of the earlier one. `field?_overlayFields` says what
each key of two joined objects holds.
-/

namespace MarketReplay.Json

mutual

/-- The later document laid over the earlier one. -/
def overlay (earlier : Json) : (later : Json) → Json
  | null => earlier
  | object fields =>
    match earlier with
    | object old => object (overlayFields old fields)
    | _ => object fields
  | later => later

/-- The fields of the later object laid over those of the earlier one. -/
def overlayFields (old : List (String × Json)) : (fields : List (String × Json)) →
    List (String × Json)
  | [] => old
  | (key, value) :: rest =>
    putField key (overlay ((field? key old).getD null) value) (overlayFields old rest)

end

/-- Layers laid over one another, the first over the empty object. -/
def ofLayers (layers : List Json) : Json := layers.foldl overlay (object [])

/-- What a key holds after a field is put. -/
theorem field?_putField (key : String) (value : Json) (fields : List (String × Json))
    (other : String) :
    field? other (putField key value fields) =
      if key = other then some value else field? other fields := by
  induction fields with
  | nil => rfl
  | cons f rest ih =>
    obtain ⟨k, v⟩ := f
    rw [putField]
    split
    · rfl
    · rename_i h
      have hk : key = k := Std.LawfulEqOrd.eq_of_compare h
      subst hk
      by_cases ho : key = other <;> simp [field?, ho]
    · rename_i h
      have hk : key ≠ k := by
        intro hk
        simp [hk] at h
      by_cases ho : k = other
      · have : key ≠ other := fun e => hk (e.trans ho.symm)
        simp [field?, ho, this]
      · simp [field?, ho, ih]

/-- A key of two joined objects holds its later value laid over its earlier one, or the earlier
one where the later object does not have the key. -/
theorem field?_overlayFields (old fields : List (String × Json)) (key : String) :
    field? key (overlayFields old fields) =
      match field? key fields with
      | some value => some (overlay ((field? key old).getD null) value)
      | none => field? key old := by
  induction fields with
  | nil => rfl
  | cons f rest ih =>
    obtain ⟨k, v⟩ := f
    rw [overlayFields, field?_putField]
    by_cases hk : k = key
    · subst hk
      simp [field?]
    · simp [field?, hk, ih]

end MarketReplay.Json
