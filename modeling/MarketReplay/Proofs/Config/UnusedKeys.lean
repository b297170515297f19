import MarketReplay.CommandLine.Response
import MarketReplay.Proofs.Json.Leaves

/-!
# Unused keys and the run

A run reads all of the settings, three fields of the section on the strategy, and one of each other
section. Where these sections are maps, no leaf that is listed as unused is among what is read
(`Config.field?_eq_of_consumed`), so configurations that differ in such leaves only have the same
plan, and the responses to their runs differ in the hash alone (`RunPlan.unused_keys_unread`). A
section that is no map is read as the array of its fields or refused, though its leaves are listed.
-/

namespace MarketReplay

namespace JsonPointer

/-- Whether a pointer begins with a token that is not empty. -/
def Named (p : JsonPointer) : Bool := p.tokens.head?.any (· ≠ "")

/-- Such a pointer covers what begins with its tokens, as written. -/
theorem covers_eq_isPrefixOf_written {c : JsonPointer} (hc : c.Named) (p : JsonPointer) :
    c.covers p = c.tokens.isPrefixOf p.written := by
  obtain ⟨tokens⟩ := c
  unfold Named at hc
  unfold covers written
  split
  · rename_i hempty
    rw [List.isEmpty_iff.1 hempty]
    cases tokens with
    | nil => cases hc
    | cons token rest =>
        have hne : token ≠ "" := by simpa using hc
        simp [List.isPrefixOf, hne]
  · rfl

end JsonPointer

/-- A plain pointer with the text of an unused leaf is not covered by a pointer that is read. -/
theorem UnusedKeys.not_covers_of_mem_unused {consumed : List String} {document : Json}
    {p : JsonPointer} (hp : p.Plain) (h : p.text ∈ (report consumed document).unused)
    {pointer : String} (hpointer : pointer ∈ consumed)
    (hnamed : (JsonPointer.ofText pointer).Named) :
    ¬ (JsonPointer.ofText pointer).covers p := by
  have hlisted := SortedSet.mem_toList.1 h
  rw [SortedSet.contains_ofList, decide_eq_true_eq] at hlisted
  obtain ⟨leaf, hleaf, htext⟩ := List.mem_map.1 hlisted
  obtain ⟨hmem, houtside⟩ := List.mem_filter.1 hleaf
  have hwritten := JsonPointer.written_eq_of_text_eq (document.leaves_plain leaf hmem) hp htext
  rw [Bool.not_eq_true', Bool.eq_false_iff] at houtside
  intro hcovers
  refine houtside (List.any_eq_true.2 ⟨_, List.mem_map_of_mem hpointer, ?_⟩)
  rw [JsonPointer.covers_eq_isPrefixOf_written hnamed] at hcovers ⊢
  rwa [hwritten]

namespace Config

/-- Whether a leaf is listed as unused by a run from a configuration. -/
def Lists (c : Config) (p : JsonPointer) : Prop :=
  p.text ∈ (UnusedKeys.report UnusedKeys.consumedPointers c.document).unused

/-- Whether two configurations differ at most in the values of leaves that are listed as unused for
both. -/
def SameUsed (a b : Config) : Prop :=
  Json.SameBut (fun p => a.Lists p ∧ b.Lists p) a.document b.document

/-- Whether a section is the same in two configurations, or a map. -/
def SameOrMap (a b : Config) (pointer : String) : Prop :=
  b.value? pointer = a.value? pointer ∨ ∃ fields, a.value? pointer = some (.object fields)

variable {a b : Config}

/-- What a consumed pointer covers is not listed. -/
theorem not_lists_of_covers {p : JsonPointer} (hp : p.Plain) {pointer : String}
    (hpointer : pointer ∈ UnusedKeys.consumedPointers)
    (hcovers : (JsonPointer.ofText pointer).covers p) : ¬ a.Lists p := by
  have hnamed : ∀ pointer ∈ UnusedKeys.consumedPointers, (JsonPointer.ofText pointer).Named := by
    decide
  exact fun hlists =>
    UnusedKeys.not_covers_of_mem_unused hp hlists hpointer (hnamed pointer hpointer) hcovers

/-- A pointer with one token, which stands for a key of the same characters and for no place. -/
structure PointsTo (pointer key : String) : Prop where
  ofText_eq : JsonPointer.ofText pointer = ⟨[key]⟩
  unescape_eq : JsonPointer.unescapeToken key = key
  escape_eq : JsonPointer.escapeToken key = key
  indexOf?_eq : Json.indexOf? key = none

/-- The leaves under a key that may differ. -/
def FreeUnder (a b : Config) (key : String) (p : JsonPointer) : Prop :=
  a.Lists (p.under key) ∧ b.Lists (p.under key)

section Sections

variable {pointer key : String}

/-- What a pointer to a key points to is the same but for the leaves that may differ. -/
theorem SameUsed.at? (h : a.SameUsed b) (hkey : PointsTo pointer key) :
    a.document.at? (.ofText pointer) = none ∧ b.document.at? (.ofText pointer) = none ∨
      ∃ j j', a.document.at? (.ofText pointer) = some j ∧
        b.document.at? (.ofText pointer) = some j' ∧ Json.SameBut (a.FreeUnder b key) j j' := by
  have hat : ∀ j : Json, j.at? (.ofText pointer) = Json.child? key j := by
    intro j
    rw [hkey.ofText_eq, Json.at?, Json.lookup, hkey.unescape_eq]
    cases Json.child? key j <;> rfl
  have hchild := Json.SameBut.child? h hkey.indexOf?_eq
  unfold Json.SameAt at hchild
  rw [hkey.escape_eq] at hchild
  rw [hat, hat]
  exact hchild

/-- A section that is covered as a whole is the same. -/
theorem SameUsed.value?_eq (h : a.SameUsed b) (hkey : PointsTo pointer key)
    (hpointer : pointer ∈ UnusedKeys.consumedPointers) : b.value? pointer = a.value? pointer := by
  have hfree : ∀ p : JsonPointer, p.Plain → ¬ a.FreeUnder b key p := by
    intro p hp hlists
    have hplain : (p.under key).Plain :=
      hp.under (hkey.escape_eq ▸ JsonPointer.slash_not_mem_escapeToken key)
    refine not_lists_of_covers hplain hpointer ?_ hlists.1
    rw [hkey.ofText_eq]
    simp [JsonPointer.covers, JsonPointer.under, List.isPrefixOf]
  unfold value?
  rcases h.at? hkey with ⟨hnone, hnone'⟩ | ⟨j, j', hj, hj', hsame⟩
  · rw [hnone, hnone']
  · rw [hj, hj', Json.eq_of_sameBut hfree j j' hsame]

/-- A section that is a map is a map with the same leaves but for those that may differ. -/
theorem SameUsed.exists_object (h : a.SameUsed b) (hkey : PointsTo pointer key)
    {fields : List (String × Json)} (hfields : a.value? pointer = some (.object fields)) :
    ∃ fields', b.value? pointer = some (.object fields') ∧
      Json.SameFields (a.FreeUnder b key) fields fields' := by
  unfold value? at hfields ⊢
  rcases h.at? hkey with ⟨hnone, -⟩ | ⟨j, j', hj, hj', hsame⟩
  · rw [hnone] at hfields
    cases hfields
  · rw [hj] at hfields
    have hobject : j = .object fields := by
      cases j <;> first | exact Option.some.inj hfields | cases hfields
    subst hobject
    obtain ⟨fields', rfl, hsame'⟩ := hsame.exists_object
    exact ⟨fields', by rw [hj'], hsame'⟩

/-- A section that is the same or a map is read alike, if the reader of maps reads none of the
leaves that may differ. -/
theorem SameUsed.sectionOption_eq {α : Type} (read : Decoder α) (h : a.SameUsed b)
    (hkey : PointsTo pointer key) (hsection : a.SameOrMap b pointer)
    (hread : ∀ fields fields', Json.SameFields (a.FreeUnder b key) fields fields' →
      read (.object fields) = read (.object fields')) :
    b.sectionOption pointer read = a.sectionOption pointer read := by
  unfold sectionOption
  rcases hsection with hsame | ⟨fields, hfields⟩
  · rw [hsame]
  · obtain ⟨fields', hfields', hsame⟩ := h.exists_object hkey hfields
    rw [hfields, hfields']
    simp only [hread fields fields' hsame]

/-- The field of a section that a pointer is read for is the same. -/
theorem field?_eq_of_consumed (field pointer : String) {fields fields' : List (String × Json)}
    (h : Json.SameFields (a.FreeUnder b key) fields fields')
    (hkey : JsonPointer.escapeToken key = key) (hfield : JsonPointer.escapeToken field = field)
    (hpointer : pointer ∈ UnusedKeys.consumedPointers)
    (htokens : JsonPointer.ofText pointer = ⟨[key, field]⟩) :
    Json.field? field fields = Json.field? field fields' := by
  refine (h.field? field).eq fun p hp hlists => ?_
  have hplain : ((p.under field).under key).Plain :=
    (hp.under (hfield ▸ JsonPointer.slash_not_mem_escapeToken field)).under
      (hkey ▸ JsonPointer.slash_not_mem_escapeToken key)
  rw [hfield] at hlists
  refine not_lists_of_covers hplain hpointer ?_ hlists.1
  rw [htokens]
  simp [JsonPointer.covers, JsonPointer.under, List.isPrefixOf]

end Sections

end Config

/-- A map is read as an open record by the fields that are gathered from it. -/
theorem RecordType.decode_object {α : Type} {t : RecordType} (hopen : t.closed = false)
    (gather : Record → Gathered α) (fields : List (String × Json)) :
    t.decode gather (.object fields) =
      Except.mapError Prod.snd (gather ⟨t, fields, false⟩) := by
  have hnone : fields.find? (fun f => t.closed && !t.names.contains f.1) = none :=
    List.find?_eq_none.2 fun f _ => by simp [hopen]
  have hexcess : t.excess (.object fields) = .ok () := by
    simp only [excess, hnone]
    rfl
  show Except.mapError Prod.snd (t.excess (.object fields) *> gather ⟨t, fields, false⟩) = _
  rw [hexcess]
  cases gather ⟨t, fields, false⟩ <;> rfl

namespace RunPlan

open Config

/-- The sections that a plan reads if they are there; the one on the universe only if no symbols
are given beside the configuration. -/
def optionalSections (o : RunOverrides) : List String :=
  (if o.members.isNone then ["/universe"] else []) ++ ["/strategy", "/data"]

section SameUsed

variable {a b : Config} {o : RunOverrides}

theorem membersOf_eq (h : a.SameUsed b)
    (hsections : ∀ pointer ∈ optionalSections o, a.SameOrMap b pointer) :
    membersOf b o = membersOf a o := by
  unfold membersOf
  cases hmembers : o.members with
  | some listed => rfl
  | none =>
      have hkey : PointsTo "/universe" "universe" := ⟨by decide, by decide, by decide, by decide⟩
      have hsection := hsections "/universe" (by simp [optionalSections, hmembers])
      have huniverse : b.sectionOption "/universe" readUniverse =
          a.sectionOption "/universe" readUniverse := by
        refine h.sectionOption_eq _ hkey hsection fun fields fields' hsame => ?_
        have hsymbols := field?_eq_of_consumed "symbols" "/universe/symbols" hsame
          hkey.escape_eq (by decide) (by decide) (by decide)
        rw [readUniverse, RecordType.decode_object rfl, RecordType.decode_object rfl]
        simp only [Record.withDefault, Record.value, Record.place, hsymbols, hsame.keys_eq]
      rw [huniverse]

theorem strategy_eq (h : a.SameUsed b) (hsection : a.SameOrMap b "/strategy") :
    b.sectionOption "/strategy" readStrategy = a.sectionOption "/strategy" readStrategy := by
  have hkey : PointsTo "/strategy" "strategy" := ⟨by decide, by decide, by decide, by decide⟩
  refine h.sectionOption_eq _ hkey hsection fun fields fields' hsame => ?_
  have hname := field?_eq_of_consumed "name" "/strategy/name" hsame
    hkey.escape_eq (by decide) (by decide) (by decide)
  have hsymbol := field?_eq_of_consumed "symbol" "/strategy/symbol" hsame
    hkey.escape_eq (by decide) (by decide) (by decide)
  have hquantity := field?_eq_of_consumed "quantity" "/strategy/quantity" hsame
    hkey.escape_eq (by decide) (by decide) (by decide)
  rw [readStrategy, RecordType.decode_object rfl, RecordType.decode_object rfl]
  simp only [Record.optional, Record.missing, Record.value, Record.place, hname, hsymbol,
    hquantity, hsame.keys_eq]

theorem data_eq (h : a.SameUsed b) (hsection : a.SameOrMap b "/data") :
    b.sectionOption "/data" readData = a.sectionOption "/data" readData := by
  have hkey : PointsTo "/data" "data" := ⟨by decide, by decide, by decide, by decide⟩
  refine h.sectionOption_eq _ hkey hsection fun fields fields' hsame => ?_
  have hprices := field?_eq_of_consumed "prices" "/data/prices" hsame
    hkey.escape_eq (by decide) (by decide) (by decide)
  rw [readData, RecordType.decode_object rfl, RecordType.decode_object rfl]
  simp only [Record.optional, Record.missing, Record.value, Record.place, hprices, hsame.keys_eq]

/-- The settings are covered as a whole. -/
theorem settings_eq (h : a.SameUsed b) :
    b.sectionOf "/backtest" RunSettings.decode = a.sectionOf "/backtest" RunSettings.decode := by
  have hkey : PointsTo "/backtest" "backtest" := ⟨by decide, by decide, by decide, by decide⟩
  unfold sectionOf sectionOption
  rw [h.value?_eq hkey (by decide)]

/-- Configurations that differ in leaves listed as unused for both have the same plan. -/
theorem ofConfig_eq (h : a.SameUsed b)
    (hsections : ∀ pointer ∈ optionalSections o, a.SameOrMap b pointer) :
    ofConfig b o = ofConfig a o := by
  have hstrategy := hsections "/strategy" (by simp [optionalSections])
  have hdata := hsections "/data" (by simp [optionalSections])
  unfold ofConfig
  rw [settings_eq h, membersOf_eq h hsections, strategy_eq h hstrategy, data_eq h hdata]

end SameUsed

end RunPlan

/-- A run that is not strict responds by the plan and the hash of its configuration. -/
theorem Invocation.runResponse_eq {file : FileLookup} {execution : Execution}
    {request : RunRequest} {c : Config} (hstrict : request.strict = false)
    (hc : Config.ofFiles file request.configs = .ok c) :
    runResponse file execution request =
      ((RunPlan.ofConfig c request.overrides).mapError CommandError.ofPlan).bind
        (RunPlan.respond file execution request c.hash) := by
  have hconfig : request.config file = .ok c := by
    unfold RunRequest.config Config.checkUnused
    rw [hc, hstrict]
    rfl
  have hplan : request.plan file =
      ((RunPlan.ofConfig c request.overrides).mapError CommandError.ofPlan).bind fun plan =>
        .ok (c, plan) := by
    unfold RunRequest.plan
    rw [hconfig]
    rfl
  unfold runResponse
  rw [hplan]
  cases RunPlan.ofConfig c request.overrides <;> rfl

namespace RunPlan

/-- Take two configurations that differ in nothing but the values of leaves that are listed as
unused for both, and of which every section that is read, other than the settings, is a map or is
the same in both. They have the same plan, or fail with the same error; and a run from one of them
that is not strict responds by that and by the hash of its configuration. -/
theorem unused_keys_unread {a b : Config} {o : RunOverrides} (h : a.SameUsed b)
    (hsections : ∀ pointer ∈ optionalSections o, a.SameOrMap b pointer) :
    ofConfig b o = ofConfig a o ∧
    ∀ c, c = a ∨ c = b → ∀ file execution request, request.overrides = o →
      request.strict = false → Config.ofFiles file request.configs = .ok c →
      Invocation.runResponse file execution request =
        ((ofConfig a o).mapError CommandError.ofPlan).bind
          (respond file execution request c.hash) := by
  have hplan := ofConfig_eq h hsections
  refine ⟨hplan, ?_⟩
  rintro c hc file execution request rfl hstrict hfiles
  have hsame : ofConfig c request.overrides = ofConfig a request.overrides := by
    rcases hc with rfl | rfl
    · rfl
    · exact hplan
  rw [Invocation.runResponse_eq hstrict hfiles, hsame]

/-- A configuration with some leaves that nothing reads. -/
def annotated (vendor note window : Json) : Config where
  document := .object
    [("backtest", .object
      [("end", .string "2013-10-11"), ("initial_cash_micros", .int 100000000000),
       ("start", .string "2013-10-07")]),
     ("data", .object [("prices", .string "p.csv"), ("vendor", vendor)]),
     ("notes", .array [note]),
     ("strategy", .object [("quantity", .int 10), ("symbol", .string "SPY"), ("window", window)])]

/-- A configuration of which the section on the strategy is the array of its fields. -/
def listing (quantity : Json) : Config where
  document := .object
    [("backtest", .object
      [("end", .string "2013-10-11"), ("initial_cash_micros", .int 100000000000),
       ("start", .string "2013-10-07")]),
     ("data", .object [("prices", .string "p.csv")]),
     ("strategy", .array [.string "noop", .string "SPY", quantity])]

/-- Annotated configurations have other texts but the same plan. In the array of its fields the
quantity is listed as unused, and read. -/
theorem annotated_plan :
    let none : RunOverrides := ⟨none, none, none, none⟩
    let a := annotated (.string "x") (.int 1) .null
    let b := annotated .null (.bool true) (.int 20)
    (a.SameUsed b ∧ a.canonical ≠ b.canonical ∧ ofConfig b none = ofConfig a none ∧
      (ofConfig a none).toOption.map RunPlan.quantity = some 10) ∧
    (listing (.int 10)).SameUsed (listing (.int 500)) ∧
    (ofConfig (listing (.int 10)) none).toOption.map RunPlan.quantity = some 10 ∧
    (ofConfig (listing (.int 500)) none).toOption.map RunPlan.quantity = some 500 := by
  intro none a b
  -- The documents are the same but for three leaves, all of which are listed for both.
  have hleaves : ∀ free : JsonPointer → Prop, free ⟨["data", "vendor"]⟩ →
      free ⟨["notes", "0"]⟩ → free ⟨["strategy", "window"]⟩ →
      Json.SameBut free a.document b.document := by
    intro free hvendor hnote hwindow
    simp only [a, b, annotated, Json.int, Json.SameBut, Json.SameFields, Json.SameItems,
      Json.isLeaf, true_and, and_true, true_or]
    exact ⟨.inr hvendor, .inr hnote, .inr hwindow⟩
  have hsame : a.SameUsed b := by
    refine hleaves _ ?_ ?_ ?_ <;> unfold Config.Lists <;> decide +kernel
  have hsections : ∀ pointer ∈ optionalSections none, a.SameOrMap b pointer := by
    have hlist : optionalSections none = ["/universe", "/strategy", "/data"] := rfl
    rw [hlist]
    simp only [List.forall_mem_cons, List.not_mem_nil, false_implies, implies_true, and_true]
    exact ⟨.inl rfl, .inr ⟨_, rfl⟩, .inr ⟨_, rfl⟩⟩
  have hitem : ∀ free : JsonPointer → Prop, free ⟨["strategy", "2"]⟩ →
      Json.SameBut free (listing (.int 10)).document (listing (.int 500)).document := by
    intro free hquantity
    simp only [listing, Json.int, Json.SameBut, Json.SameFields, Json.SameItems, Json.isLeaf,
      true_and, and_true, true_or]
    exact .inr hquantity
  have hlisting : (listing (.int 10)).SameUsed (listing (.int 500)) := by
    refine hitem _ ?_
    unfold Config.Lists
    decide +kernel
  exact ⟨⟨hsame, by decide +kernel, (unused_keys_unread hsame hsections).1, by decide +kernel⟩,
    hlisting, by decide +kernel, by decide +kernel⟩

end RunPlan

end MarketReplay
