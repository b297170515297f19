import MarketReplay.Csv.Record

/-!
# The characters of records

A reader keeps no other characters than those that it reads, so the fields of a text hold only
characters of the text (`mem_of_mem_records`).
-/

namespace MarketReplay.Csv

namespace Reader

/-- Whether all characters that a reader has kept have a property. -/
structure Keeps (r : Reader) (p : Char → Prop) : Prop where
  field : ∀ c ∈ r.field, p c
  fields : ∀ f ∈ r.fields, ∀ c ∈ f.toList, p c
  records : ∀ record ∈ r.records, ∀ f ∈ record.fields, ∀ c ∈ f.toList, p c

variable {r : Reader} {p : Char → Prop} {c : Char}

theorem Keeps.endField (h : r.Keeps p) : r.endField.Keeps p where
  field _ hd := by cases hd
  fields f hf := by
    rcases List.mem_cons.1 hf with rfl | hf
    · intro d hd
      rw [String.toList_ofList] at hd
      exact h.field d (List.mem_reverse.1 hd)
    · exact h.fields f hf
  records := h.records

theorem Keeps.endRecord (h : r.Keeps p) : r.endRecord.Keeps p where
  field _ hd := by cases hd
  fields _ hf := by cases hf
  records record hrecord f hf := by
    rcases List.mem_cons.1 hrecord with rfl | hrecord
    · exact h.endField.fields f (List.mem_reverse.1 hf)
    · exact h.records record hrecord f hf

theorem Keeps.keep (h : r.Keeps p) (hc : p c) (position : Position) :
    (r.keep position c).Keeps p where
  field d hd := by
    rcases List.mem_cons.1 hd with rfl | hd
    · exact hc
    · exact h.field d hd
  fields := h.fields
  records := h.records

/-- A reader that moves keeps what it has kept. -/
theorem Keeps.move (h : r.Keeps p) (position : Position) :
    ({ r with position } : Reader).Keeps p :=
  ⟨h.field, h.fields, h.records⟩

theorem Keeps.stepPlain (h : r.Keeps p) (hc : p c) : (r.stepPlain c).Keeps p := by
  unfold Reader.stepPlain
  split
  · exact h.endField.move _
  · split
    · exact h.endRecord.move _
    · exact h.keep hc _

theorem Keeps.stepField (h : r.Keeps p) (hc : p c) : (r.stepField c).Keeps p := by
  unfold Reader.stepField
  split
  · exact h.move _
  · exact h.stepPlain hc

theorem Keeps.stepStart (h : r.Keeps p) (hc : p c) : (r.stepStart c).Keeps p := by
  unfold Reader.stepStart
  split
  · exact h.move _
  · split
    · exact h.move _
    · exact Keeps.stepField ⟨h.field, h.fields, h.records⟩ hc

/-- A step keeps no other character than the one it reads. -/
theorem Keeps.step (h : r.Keeps p) (hc : p c) : (r.step c).Keeps p := by
  have hchar : (r.stepChar c).Keeps p := by
    unfold Reader.stepChar
    split
    case h_1 => exact h.stepStart hc
    case h_2 =>
      split
      · exact h.move _
      · exact h.stepStart hc
    case h_3 =>
      split
      · exact h.move _
      · exact h
    case h_4 => exact h.stepField hc
    case h_5 => exact h.stepPlain hc
    case h_6 =>
      split
      · exact h.move _
      · exact h.keep hc _
    case h_7 =>
      split
      · exact h.keep hc _
      · exact h.stepPlain hc
  unfold Reader.step
  split
  · exact ⟨hchar.field, hchar.fields, hchar.records⟩
  · exact hchar

end Reader

/-- The fields of a text hold no other characters than the text. -/
theorem mem_of_mem_records {cs : List Char} {record : Record} (hrecord : record ∈ records cs)
    {f : String} (hf : f ∈ record.fields) {c : Char} (hc : c ∈ f.toList) : c ∈ cs := by
  have hread : ∀ (tail : List Char) (r : Reader), r.Keeps (· ∈ cs) → (∀ c ∈ tail, c ∈ cs) →
      (tail.foldl Reader.step r).Keeps (· ∈ cs) := by
    intro tail
    induction tail with
    | nil => exact fun r h _ => h
    | cons d rest ih =>
        intro r h htail
        exact ih _ (h.step (htail d List.mem_cons_self))
          fun e he => htail e (List.mem_cons_of_mem _ he)
  have hkeeps := hread cs {} ⟨nofun, nofun, nofun⟩ fun _ h => h
  unfold records Reader.finish at hrecord
  split at hrecord
  case h_4 => exact hkeeps.endRecord.records record (List.mem_reverse.1 hrecord) f hf c hc
  all_goals exact hkeeps.records record (List.mem_reverse.1 hrecord) f hf c hc

end MarketReplay.Csv
