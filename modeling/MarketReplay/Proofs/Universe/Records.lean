import MarketReplay.Universe

/-!
# What operations do to the records of a universe

`Universe.record` is the record of a symbol, blank where there is none. Each operation is described
by the records after it: `record_resolveTo`, `record_updatePrices`, `record_addInstrument`,
`record_addContract` and `record_removeInstrument`. The membership announced last is changed by
resolutions alone.
-/

namespace MarketReplay

/-- The underlying of a contract is no contract. -/
theorem Symbol.underlying?_of_underlying? {contract underlying : Symbol}
    (h : contract.underlying? = some underlying) : underlying.underlying? = none := by
  cases contract with
  | equity ticker => cases h
  | option terms =>
      cases h
      rfl

/-- A contract is not its own underlying. -/
theorem Symbol.ne_of_underlying? {contract underlying : Symbol}
    (h : contract.underlying? = some underlying) : contract ≠ underlying := by
  rintro rfl
  rw [Symbol.underlying?_of_underlying? h] at h
  cases h

/-- Contracts are the symbols with an underlying. -/
theorem Symbol.isDerivative_eq (symbol : Symbol) :
    symbol.isDerivative = symbol.underlying?.isSome := by
  cases symbol <;> rfl

namespace Universe

variable {u u' : Universe}

/-- The record of a symbol; that of a symbol not heard of before where there is none. -/
def record (u : Universe) (symbol : Symbol) : Security := (u.get? symbol).getD .fresh

/-- The universe without securities has blank records. -/
theorem record_start (release : UnderlyingRelease) (cadence : SelectionCadence)
    (symbol : Symbol) : (start release cadence).record symbol = .fresh := rfl

/-- A change of a record leaves the others alone. -/
theorem get?_modify (u : Universe) (symbol q : Symbol) (f : Security → Security) :
    (u.modify symbol f).get? q = if q = symbol then some (f (u.record symbol)) else u.get? q :=
  SortedMap.get?_insert u.securities symbol q _

theorem record_modify (u : Universe) (symbol q : Symbol) (f : Security → Security) :
    (u.modify symbol f).record q = if q = symbol then f (u.record symbol) else u.record q := by
  unfold record
  rw [get?_modify]
  by_cases hq : q = symbol <;> simp [hq, record]

/-! ### Resolutions -/

/-- Tracking symbols makes blank records for those that have none. -/
theorem get?_tracked (selected : List Symbol) (securities : SortedMap Symbol Security)
    (q : Symbol) :
    (selected.foldl (fun acc s => acc.update s .fresh id) securities).get? q =
      if q ∈ selected then some ((securities.get? q).getD .fresh) else securities.get? q := by
  induction selected generalizing securities with
  | nil => rfl
  | cons s rest ih =>
      have hstep : (securities.update s .fresh id).get? q =
          if q = s then some ((securities.get? s).getD .fresh) else securities.get? q :=
        SortedMap.get?_insert securities s q _
      rw [List.foldl_cons, ih, hstep]
      by_cases hq : q = s
      · subst hq
        simp
      · simp [hq]

/-- A selection tracks the selected symbols and marks every record by whether it is selected. -/
theorem get?_select (securities : SortedMap Symbol Security) (selected : SortedSet Symbol)
    (q : Symbol) :
    (select securities selected).get? q =
      (if selected.contains q then some ((securities.get? q).getD .fresh)
        else securities.get? q).map fun s => { s with active := selected.contains q } := by
  unfold select
  rw [SortedMap.get?_mapValues, get?_tracked]
  by_cases hq : selected.contains q
  · rw [if_pos (SortedSet.mem_toList.2 hq), if_pos hq]
  · rw [if_neg fun h => hq (SortedSet.mem_toList.1 h), if_neg hq]

/-- The members are the symbols whose records are members. -/
theorem contains_members (securities : SortedMap Symbol Security) (q : Symbol) :
    (members securities).contains q = ((securities.get? q).getD .fresh).isMember := by
  unfold members SortedMap.contains
  rw [SortedMap.get?_mapValues, SortedMap.get?_filter]
  cases hlookup : securities.get? q with
  | none => rfl
  | some s => cases hmember : s.isMember <;> simp [Option.filter, hmember]

/-- The records after a resolution: the selected symbols have one, the selected records are active,
and every hold is one step shorter. -/
theorem get?_resolveTo (u : Universe) (selected : SortedSet Symbol) (q : Symbol) :
    (u.resolveTo selected).2.get? q =
      (if selected.contains q then some (u.record q) else u.get? q).map fun s =>
        { s with active := selected.contains q, holdSteps := s.holdSteps - 1 } := by
  have hlookup : (u.resolveTo selected).2.get? q = ((select u.securities selected).get? q).map
      fun s => { s with holdSteps := s.holdSteps - 1 } :=
    SortedMap.get?_mapValues (select u.securities selected) _ q
  rw [hlookup, get?_select, Option.map_map]
  rfl

theorem record_resolveTo (u : Universe) (selected : SortedSet Symbol) (q : Symbol) :
    (u.resolveTo selected).2.record q =
      { u.record q with
        active := selected.contains q, holdSteps := (u.record q).holdSteps - 1 } := by
  rw [record, get?_resolveTo]
  cases hselected : selected.contains q with
  | true => rfl
  | false =>
      unfold record
      cases u.get? q <;> rfl

/-- After a resolution the selected symbols have records, and no record is dropped. -/
theorem contains_resolveTo (u : Universe) (selected : SortedSet Symbol) (q : Symbol) :
    (u.resolveTo selected).2.contains q = (selected.contains q || u.contains q) := by
  show ((u.resolveTo selected).2.get? q).isSome = (_ || (u.get? q).isSome)
  rw [get?_resolveTo, Option.isSome_map]
  cases selected.contains q <;> rfl

/-- A symbol that is subscribed has a record. -/
theorem contains_of_isSubscribed {u : Universe} {q : Symbol} (h : (u.record q).isSubscribed) :
    u.contains q := by
  unfold record at h
  cases hlookup : u.get? q with
  | none =>
      rw [hlookup] at h
      cases h
  | some s => exact Option.isSome_iff_exists.2 ⟨s, hlookup⟩

/-- The members announced by a resolution are the selected symbols and those subscribed at its
beginning. -/
theorem announced_resolveTo (u : Universe) (selected : SortedSet Symbol) (q : Symbol) :
    (u.resolveTo selected).2.announced.contains q =
      (selected.contains q || (u.record q).isSubscribed) := by
  show (members (select u.securities selected)).contains q = _
  rw [contains_members, get?_select]
  show _ = (_ || ((u.securities.get? q).getD .fresh).isSubscribed)
  cases hselected : selected.contains q with
  | false => cases u.securities.get? q <;> rfl
  | true => rfl

/-- Asking for a selection changes nothing but the selection kept for the date. -/
theorem selection_keeps (u : Universe) (now : Instant) (selector : Selector)
    (state : selector.State) :
    (u.selection now selector state).2.1.securities = u.securities ∧
      (u.selection now selector state).2.1.announced = u.announced ∧
      (u.selection now selector state).2.1.release = u.release := by
  unfold selection
  cases u.cadence with
  | everyStep => exact ⟨rfl, rfl, rfl⟩
  | daily =>
      cases u.daySelection.filter fun kept => kept.1 = now.date <;> exact ⟨rfl, rfl, rfl⟩

/-- The records after a resolution at an instant. -/
theorem record_resolve (u : Universe) (now : Instant) (selector : Selector)
    (state : selector.State) (q : Symbol) :
    (u.resolve now selector state).2.1.record q =
      { u.record q with
        active := (u.selection now selector state).1.contains q
        holdSteps := (u.record q).holdSteps - 1 } := by
  have hrecord : (u.selection now selector state).2.1.record q = u.record q := by
    unfold record get?
    rw [(u.selection_keeps now selector state).1]
  have hresolve := record_resolveTo (u.selection now selector state).2.1
    (u.selection now selector state).1 q
  rwa [hrecord] at hresolve

/-- After a resolution at an instant the selected symbols have records, and no record is
dropped. -/
theorem contains_resolve (u : Universe) (now : Instant) (selector : Selector)
    (state : selector.State) (q : Symbol) :
    (u.resolve now selector state).2.1.contains q =
      ((u.selection now selector state).1.contains q || u.contains q) := by
  have hasked : (u.selection now selector state).2.1.contains q = u.contains q := by
    unfold contains
    rw [(u.selection_keeps now selector state).1]
  rw [← hasked]
  exact contains_resolveTo _ _ q

/-- The data symbols after a resolution at an instant. -/
theorem mem_dataSymbols_resolve (u : Universe) (now : Instant) (selector : Selector)
    (state : selector.State) (q : Symbol) :
    q ∈ (u.resolve now selector state).2.1.dataSymbols ↔
      q ∈ (u.selection now selector state).1.toList ∨ (u.record q).isSubscribed := by
  have hrecord : (u.selection now selector state).2.1.record q = u.record q := by
    unfold record get?
    rw [(u.selection_keeps now selector state).1]
  have hannounced := announced_resolveTo (u.selection now selector state).2.1
    (u.selection now selector state).1 q
  rw [hrecord] at hannounced
  unfold dataSymbols
  rw [SortedSet.mem_toList, SortedSet.mem_toList, ← Bool.or_eq_true, ← hannounced]
  rfl

/-! ### Prices and subscriptions -/

/-- Prices change nothing else about a record. -/
theorem record_updatePrices (u : Universe) (slice : DataSlice) (q : Symbol) :
    ∃ price lastUpdate, (u.updatePrices slice).record q =
      { u.record q with price, lastUpdate } := by
  have hlookup : (u.updatePrices slice).get? q = (u.get? q).map _ :=
    SortedMap.get?_mapValues u.securities _ q
  unfold record
  rw [hlookup]
  cases u.get? q with
  | none => exact ⟨none, none, rfl⟩
  | some s =>
      cases slice.get? q with
      | none => exact ⟨s.price, s.lastUpdate, rfl⟩
      | some quote => exact ⟨some quote.price, some quote.time, rfl⟩

/-- A contract subscribed by hand is marked so, and its underlying depends on it. -/
theorem record_addContract {contract underlying : Symbol} (h : u.addContract contract = .ok u')
    (hunderlying : contract.underlying? = some underlying) (q : Symbol) :
    u'.record q =
      if q = contract then { u.record q with manual := true }
      else if q = underlying then
        { u.record q with dependents := (u.record q).dependents.add contract, holdSteps := 0 }
      else u.record q := by
  have hne := Symbol.ne_of_underlying? hunderlying
  unfold addContract at h
  rw [hunderlying] at h
  obtain rfl := Except.ok.inj h
  simp only [record_modify]
  by_cases hunder : q = underlying
  · subst hunder
    simp [hne.symm]
  · by_cases hcontract : q = contract
    · subst hcontract
      simp [hunder]
    · simp [hunder, hcontract]

/-- A contract is subscribed as a contract. -/
theorem addInstrument_of_underlying? {symbol underlying : Symbol}
    (h : symbol.underlying? = some underlying) : u.addInstrument symbol = u.addContract symbol := by
  unfold addInstrument
  rw [Symbol.isDerivative_eq, h]
  rfl

/-- Another symbol subscribed by hand is marked so, and is not on hold any more. -/
theorem record_addInstrument {symbol : Symbol} (h : u.addInstrument symbol = .ok u')
    (hunderlying : symbol.underlying? = none) (q : Symbol) :
    u'.record q =
      if q = symbol then { u.record q with manual := true, holdSteps := 0 } else u.record q := by
  unfold addInstrument at h
  rw [Symbol.isDerivative_eq, hunderlying] at h
  obtain rfl := Except.ok.inj h
  rw [record_modify]
  by_cases hq : q = symbol <;> simp [hq]

/-- The records after a contract leaves its underlying. -/
theorem record_releaseUnderlying (u : Universe) (underlying contract q : Symbol) :
    (u.releaseUnderlying underlying contract).record q =
      if q = underlying then leave u.release contract (u.record q) else u.record q := by
  unfold releaseUnderlying
  cases hlookup : u.get? underlying with
  | none =>
      -- Nothing leaves the blank record.
      by_cases hq : q = underlying
      · subst hq
        simp [record, hlookup, leave, SortedMap.contains, Security.fresh]
      · rw [if_neg hq]
  | some s =>
      show ((u.securities.insert underlying (leave u.release contract s)).get? q).getD .fresh = _
      rw [SortedMap.get?_insert]
      by_cases hq : q = underlying
      · subst hq
        simp [record, hlookup]
      · rw [if_neg hq, if_neg hq]
        rfl

/-- The universe with the record of a symbol replaced, or dropped if the new one is no member. -/
def keepMember (u : Universe) (symbol : Symbol) (s : Security) : Universe :=
  { u with securities :=
      if s.isMember then u.securities.insert symbol s else u.securities.erase symbol }

theorem record_keepMember (u : Universe) (symbol : Symbol) (s : Security) (q : Symbol) :
    (u.keepMember symbol s).record q =
      if q = symbol then if s.isMember then s else .fresh else u.record q := by
  unfold record get? keepMember
  by_cases hmember : s.isMember
  · rw [if_pos hmember, if_pos hmember, SortedMap.get?_insert]
    by_cases hq : q = symbol <;> simp [hq]
  · rw [if_neg hmember, if_neg hmember, SortedMap.get?_erase]
    by_cases hq : q = symbol <;> simp [hq]

/-- A removal takes the subscription from the record of the symbol, and then the symbol leaves its
underlying if it has one. -/
theorem removeInstrument_eq {symbol : Symbol} (h : u.removeInstrument symbol = .ok u') :
    u.contains symbol ∧
      u' =
        let cleared := u.keepMember symbol
          { u.record symbol with manual := false, holdSteps := 0 }
        match symbol.underlying? with
        | none => cleared
        | some underlying => cleared.releaseUnderlying underlying symbol := by
  unfold removeInstrument at h
  split at h
  · cases h
  · rename_i s hs
    have hrecord : u.record symbol = s := by simp [record, hs]
    refine ⟨Option.isSome_iff_exists.2 ⟨s, hs⟩, ?_⟩
    rw [hrecord]
    exact (Except.ok.inj h).symm

/-- The records after a removal: that of the symbol has lost its subscription and is dropped if it
is no member any more, and the symbol has left its underlying. -/
theorem record_removeInstrument {symbol : Symbol} (h : u.removeInstrument symbol = .ok u')
    (q : Symbol) :
    u'.record q =
      if q = symbol then
        let s := { u.record symbol with manual := false, holdSteps := 0 }
        if s.isMember then s else .fresh
      else if symbol.underlying? = some q then leave u.release symbol (u.record q)
      else u.record q := by
  obtain ⟨-, rfl⟩ := removeInstrument_eq h
  cases hunderlying : symbol.underlying? with
  | none =>
      simp only [record_keepMember]
      simp
  | some underlying =>
      have hne := Symbol.ne_of_underlying? hunderlying
      simp only [record_releaseUnderlying, record_keepMember, Option.some.injEq]
      by_cases hq : q = symbol
      · subst hq
        simp [hne]
      · by_cases hunder : underlying = q
        · subst hunder
          simp only [if_neg hq, if_true]
          rfl
        · have hunder' : ¬ q = underlying := fun h => hunder h.symm
          simp [hq, hunder, hunder']

/-! ### Which records stay -/

/-- A change of one record drops none. -/
theorem contains_modify (u : Universe) (symbol : Symbol) (f : Security → Security) {q : Symbol}
    (hq : u.contains q) : (u.modify symbol f).contains q := by
  show ((u.modify symbol f).get? q).isSome
  rw [get?_modify]
  split
  · rfl
  · exact hq

/-- Prices make and drop no record. -/
theorem contains_updatePrices (u : Universe) (slice : DataSlice) (q : Symbol) :
    (u.updatePrices slice).contains q = u.contains q := by
  have hlookup : (u.updatePrices slice).get? q = (u.get? q).map _ :=
    SortedMap.get?_mapValues u.securities _ q
  show ((u.updatePrices slice).get? q).isSome = (u.get? q).isSome
  rw [hlookup, Option.isSome_map]

/-- Subscribing a contract drops no record. -/
theorem contains_addContract {contract : Symbol} (h : u.addContract contract = .ok u') {q : Symbol}
    (hq : u.contains q) : u'.contains q := by
  unfold addContract at h
  split at h
  · cases h
  · obtain rfl := Except.ok.inj h
    exact contains_modify _ _ _ (contains_modify _ _ _ hq)

/-- Subscribing a symbol drops no record. -/
theorem contains_addInstrument {symbol : Symbol} (h : u.addInstrument symbol = .ok u') {q : Symbol}
    (hq : u.contains q) : u'.contains q := by
  unfold addInstrument at h
  split at h
  · exact contains_addContract h hq
  · obtain rfl := Except.ok.inj h
    exact contains_modify _ _ _ hq

/-- A contract that leaves its underlying drops no record. -/
theorem contains_releaseUnderlying (u : Universe) (underlying contract : Symbol) {q : Symbol}
    (hq : u.contains q) : (u.releaseUnderlying underlying contract).contains q := by
  unfold releaseUnderlying
  split
  · exact hq
  · rename_i s _
    show ((u.securities.insert underlying (leave u.release contract s)).get? q).isSome
    rw [SortedMap.get?_insert]
    split
    · rfl
    · exact hq

/-- Removing a symbol drops no record but its own. -/
theorem contains_removeInstrument {symbol : Symbol} (h : u.removeInstrument symbol = .ok u')
    {q : Symbol} (hne : q ≠ symbol) (hq : u.contains q) : u'.contains q := by
  have hcleared : ∀ s, (u.keepMember symbol s).contains q := by
    intro s
    show ((u.keepMember symbol s).securities.get? q).isSome
    unfold keepMember
    split
    · rw [SortedMap.get?_insert, if_neg hne]
      exact hq
    · rw [SortedMap.get?_erase, if_neg hne]
      exact hq
  obtain ⟨-, rfl⟩ := removeInstrument_eq h
  cases symbol.underlying? with
  | none => exact hcleared _
  | some underlying => exact contains_releaseUnderlying _ _ _ (hcleared _)

/-! ### What stays -/

/-- Subscribing a contract announces nothing. -/
theorem announced_addContract {contract : Symbol} (h : u.addContract contract = .ok u') :
    u'.announced = u.announced := by
  unfold addContract at h
  split at h
  · cases h
  · obtain rfl := Except.ok.inj h
    rfl

/-- Subscribing a symbol announces nothing. -/
theorem announced_addInstrument {symbol : Symbol} (h : u.addInstrument symbol = .ok u') :
    u'.announced = u.announced := by
  unfold addInstrument at h
  split at h
  · exact announced_addContract h
  · obtain rfl := Except.ok.inj h
    rfl

/-- Removing a symbol announces nothing. -/
theorem announced_removeInstrument {symbol : Symbol} (h : u.removeInstrument symbol = .ok u') :
    u'.announced = u.announced := by
  unfold removeInstrument at h
  split at h
  · cases h
  · obtain rfl := Except.ok.inj h
    cases symbol.underlying? with
    | none => rfl
    | some underlying =>
        simp only [releaseUnderlying]
        split <;> rfl

/-! ### Changes apart from the records -/

/-- Whether a change of a universe leaves the records alone and is the same whatever they are. -/
structure ApartFromRecords (f : Universe → Universe) : Prop where
  securities_eq : ∀ u, (f u).securities = u.securities
  comm : ∀ (u : Universe) securities, f { u with securities } = { f u with securities }

section Apart

variable {f : Universe → Universe}

/-- Such a change may be made before or after a record is changed. -/
theorem ApartFromRecords.modify (h : ApartFromRecords f) (u : Universe) (symbol : Symbol)
    (g : Security → Security) : (f u).modify symbol g = f (u.modify symbol g) := by
  unfold Universe.modify
  rw [h.securities_eq]
  exact (h.comm u _).symm

/-- It may be made before or after a contract is subscribed. -/
theorem ApartFromRecords.addContract (h : ApartFromRecords f) (u : Universe) (contract : Symbol) :
    (f u).addContract contract = (u.addContract contract).map f := by
  unfold Universe.addContract
  cases contract.underlying? with
  | none => rfl
  | some underlying =>
      simp only [h.modify]
      rfl

/-- It may be made before or after a symbol is subscribed. -/
theorem ApartFromRecords.addInstrument (h : ApartFromRecords f) (u : Universe) (symbol : Symbol) :
    (f u).addInstrument symbol = (u.addInstrument symbol).map f := by
  unfold Universe.addInstrument
  split
  · exact h.addContract u symbol
  · rw [h.modify]
    rfl

end Apart

end Universe

end MarketReplay
