import MarketReplay.Proofs.Universe.Release

/-!
# How long records are kept

Subscriptions leave the last prices of records and the marks of the selection alone
(`Universe.Retains`), so a record is active exactly if the last resolution selected its symbol
(`History.active_run`). It is dropped by the removal of its own symbol and by nothing else, and
only where it is neither active nor kept by a contract (`History.contains_act_eq_false_iff`). What
is dropped is announced as removed by the next resolution, unless it is a member again by then
(`History.records_retained`).
-/

namespace MarketReplay

/-- The last price of a record and the time of its print. -/
def Security.lastPrint (s : Security) : Option Int × Option DateTime := (s.price, s.lastUpdate)

namespace Universe

variable {u u' : Universe}

/-- A symbol that has a record has the one that a look-up finds. -/
theorem record_of_get? {q : Symbol} {s : Security} (h : u.get? q = some s) : u.record q = s := by
  simp [record, h]

/-! ### What subscriptions keep -/

/-- What subscriptions leave of the records: the marks of the selection, and the last prices. -/
structure Retains (u u' : Universe) : Prop where
  active_eq : ∀ q, (u'.record q).active = (u.record q).active
  lastPrint_eq : ∀ q, u'.contains q → (u'.record q).lastPrint = (u.record q).lastPrint

/-- Subscribing a contract retains marks and prices. -/
theorem addContract_retains {contract : Symbol} (h : u.addContract contract = .ok u') :
    Retains u u' := by
  obtain ⟨underlying, hunderlying⟩ := exists_underlying_of_addContract h
  have hrecord := record_addContract h hunderlying
  refine ⟨fun q => ?_, fun q _ => ?_⟩
  · rw [hrecord]
    split
    · rfl
    · split <;> rfl
  · rw [hrecord]
    split
    · rfl
    · split <;> rfl

/-- Subscribing a symbol retains marks and prices. -/
theorem addInstrument_retains {symbol : Symbol} (h : u.addInstrument symbol = .ok u') :
    Retains u u' := by
  cases hunderlying : symbol.underlying? with
  | some underlying =>
      rw [addInstrument_of_underlying? hunderlying] at h
      exact addContract_retains h
  | none =>
      have hrecord := record_addInstrument h hunderlying
      refine ⟨fun q => ?_, fun q _ => ?_⟩
      · rw [hrecord]
        split <;> rfl
      · rw [hrecord]
        split <;> rfl

/-- A contract that leaves a record changes neither its mark nor its price. -/
theorem leave_retains (release : UnderlyingRelease) (contract : Symbol) (s : Security) :
    (leave release contract s).active = s.active ∧
      (leave release contract s).lastPrint = s.lastPrint := by
  unfold leave
  simp only
  split
  · exact ⟨rfl, rfl⟩
  · split
    · exact ⟨rfl, rfl⟩
    · cases release <;> exact ⟨rfl, rfl⟩

/-- A contract that leaves its underlying makes and drops no record of another symbol. -/
theorem contains_releaseUnderlying_of_ne (u : Universe) {underlying contract q : Symbol}
    (hne : q ≠ underlying) : (u.releaseUnderlying underlying contract).contains q = u.contains q := by
  unfold releaseUnderlying
  split
  · rfl
  · rename_i s _
    show ((u.securities.insert underlying (leave u.release contract s)).get? q).isSome = _
    rw [SortedMap.get?_insert, if_neg hne]
    rfl

/-- A removed symbol keeps its record exactly if it is still a member without its subscription. -/
theorem contains_removeInstrument_self {symbol : Symbol} (h : u.removeInstrument symbol = .ok u') :
    u'.contains symbol = ((u.record symbol).active || !(u.record symbol).dependents.isEmpty) := by
  have hcleared : ∀ s : Security, (u.keepMember symbol s).contains symbol = s.isMember := by
    intro s
    show ((u.keepMember symbol s).securities.get? symbol).isSome = s.isMember
    unfold keepMember
    cases hmember : s.isMember with
    | true => simp [SortedMap.get?_insert]
    | false => simp [SortedMap.get?_erase]
  have hmember : ∀ s : Security, ({ s with manual := false, holdSteps := 0 } : Security).isMember =
      (s.active || !s.dependents.isEmpty) := by
    intro s
    simp [Security.isMember, Security.isSubscribed]
  obtain ⟨-, rfl⟩ := removeInstrument_eq h
  cases hunderlying : symbol.underlying? with
  | none => exact (hcleared _).trans (hmember _)
  | some underlying =>
      have hne := Symbol.ne_of_underlying? hunderlying
      exact (contains_releaseUnderlying_of_ne _ hne).trans ((hcleared _).trans (hmember _))

/-- Removing a symbol retains marks and prices. -/
theorem removeInstrument_retains {symbol : Symbol} (h : u.removeInstrument symbol = .ok u') :
    Retains u u' := by
  have hrecord := record_removeInstrument h
  refine ⟨fun q => ?_, fun q hq => ?_⟩
  · rw [hrecord]
    split
    · rename_i hsame
      subst hsame
      simp only
      split
      · rfl
      · -- A record that is dropped was not active.
        rename_i hmember
        simp only [Security.isMember, Bool.or_eq_true, not_or, Bool.not_eq_true] at hmember
        exact hmember.1.symm
    · split
      · exact (leave_retains _ _ _).1
      · rfl
  · rw [hrecord]
    split
    · rename_i hsame
      subst hsame
      rw [contains_removeInstrument_self h] at hq
      have hmember : ({ u.record q with manual := false, holdSteps := 0 } : Security).isMember := by
        simpa [Security.isMember, Security.isSubscribed] using hq
      simp only [if_pos hmember]
      rfl
    · split
      · exact (leave_retains _ _ _).2
      · rfl

/-! ### Prices -/

/-- The records after prices: those with a quote in the slice have its price and time. -/
theorem get?_updatePrices (u : Universe) (slice : DataSlice) (q : Symbol) :
    (u.updatePrices slice).get? q = (u.get? q).map fun s =>
      match slice.get? q with
      | none => s
      | some quote => { s with price := some quote.price, lastUpdate := some quote.time } :=
  SortedMap.get?_mapValues u.securities _ q

/-! ### Refusals -/

/-- Every symbol can be subscribed. -/
theorem exists_addInstrument (u : Universe) (symbol : Symbol) :
    ∃ tracked, u.addInstrument symbol = .ok tracked := by
  unfold addInstrument
  rw [Symbol.isDerivative_eq]
  cases hunderlying : symbol.underlying? with
  | none => exact ⟨_, rfl⟩
  | some underlying =>
      unfold addContract
      rw [hunderlying]
      exact ⟨_, rfl⟩

/-- Only a contract can be subscribed as one. -/
theorem addContract_eq_error_iff {contract : Symbol} {e : UniverseError} :
    u.addContract contract = .error e ↔ contract.underlying? = none ∧ e = .notDerivative contract := by
  unfold addContract
  cases contract.underlying? with
  | none => simp [eq_comm]
  | some underlying => simp

/-- Only what has a record can be removed. -/
theorem removeInstrument_eq_error_iff {symbol : Symbol} {e : UniverseError} :
    u.removeInstrument symbol = .error e ↔ u.contains symbol = false ∧ e = .unknownSymbol symbol := by
  have hcontains : u.contains symbol = (u.get? symbol).isSome := rfl
  unfold removeInstrument
  rw [hcontains]
  cases u.get? symbol with
  | none => simp [eq_comm]
  | some s => simp

/-! ### Actions -/

/-- The selection that an action resolves to, if it is a resolution. -/
def Action.selection? (u : Universe) : Action → Option (SortedSet Symbol)
  | .resolve now selector state => some (u.selection now selector state).1
  | _ => none

/-- The quote of a symbol that an action brings, if it brings one. -/
def Action.quote? (s : Symbol) : Action → Option Quote
  | .updatePrices slice => slice.get? s
  | _ => none

/-- Whether an action is refused with an error. -/
def Action.Refused (u : Universe) (e : UniverseError) : Action → Prop
  | .addInstrument symbol => u.addInstrument symbol = .error e
  | .addContract contract => u.addContract contract = .error e
  | .removeInstrument symbol => u.removeInstrument symbol = .error e
  | .resolve .. => False
  | .updatePrices _ => False

/-- Refused are subscriptions as a contract of what is none, and removals where there is no record;
every other action is accepted. -/
theorem Action.refused_iff {a : Action} {e : UniverseError} : a.Refused u e ↔
    (∃ s, a = .addContract s ∧ s.underlying? = none ∧ e = .notDerivative s) ∨
      ∃ s, a = .removeInstrument s ∧ u.contains s = false ∧ e = .unknownSymbol s := by
  cases a with
  | resolve now selector state => simp [Refused]
  | updatePrices slice => simp [Refused]
  | addInstrument s =>
      obtain ⟨tracked, haccepted⟩ := exists_addInstrument u s
      simp [Refused, haccepted]
  | addContract s =>
      have herror : u.addContract s = .error e ↔ _ := addContract_eq_error_iff
      simpa [Refused] using herror
  | removeInstrument s =>
      have herror : u.removeInstrument s = .error e ↔ _ := removeInstrument_eq_error_iff
      simpa [Refused] using herror

namespace History

variable {h : History}

/-- An action that is refused leaves the history as it was. -/
theorem act_of_refused {a : Action} {e : UniverseError} (ha : a.Refused h.tracked e) :
    h.act a = h := by
  cases a with
  | resolve now selector state => exact ha.elim
  | updatePrices slice => exact ha.elim
  | addInstrument symbol => exact congrArg h.command ha
  | addContract contract => exact congrArg h.command ha
  | removeInstrument symbol => exact congrArg h.command ha

/-- The selection of the last resolution among actions in turn, `before` if there is none. -/
def lastSelection (h : History) (before : SortedSet Symbol) : List Action → SortedSet Symbol
  | [] => before
  | a :: rest => (h.act a).lastSelection ((a.selection? h.tracked).getD before) rest

/-- After an action the active records are those of the last selection. -/
theorem active_act {selected : SortedSet Symbol}
    (hs : ∀ q, (h.tracked.record q).active = selected.contains q) (a : Action) (q : Symbol) :
    ((h.act a).tracked.record q).active =
      ((a.selection? h.tracked).getD selected).contains q := by
  have hretains : ∀ result : Except UniverseError Universe,
      (∀ tracked, result = .ok tracked → Retains h.tracked tracked) →
      ((h.command result).tracked.record q).active = selected.contains q := fun result hresult =>
    of_command (P := fun u => (u.record q).active = selected.contains q) (hs q)
      fun tracked hok => ((hresult tracked hok).active_eq q).trans (hs q)
  cases a with
  | resolve now selector state =>
      have hrecord := h.tracked.record_resolve now selector state q
      show ((h.tracked.resolve now selector state).2.1.record q).active = _
      rw [hrecord]
      rfl
  | addInstrument symbol => exact hretains _ fun _ => addInstrument_retains
  | addContract contract => exact hretains _ fun _ => addContract_retains
  | removeInstrument symbol => exact hretains _ fun _ => removeInstrument_retains
  | updatePrices slice =>
      obtain ⟨price, lastUpdate, hrecord⟩ := h.tracked.record_updatePrices slice q
      show ((h.tracked.updatePrices slice).record q).active = _
      rw [hrecord]
      exact hs q

/-- After actions in turn the active records are those of the last selection. -/
theorem active_run {selected : SortedSet Symbol}
    (hs : ∀ q, (h.tracked.record q).active = selected.contains q) (actions : List Action)
    (q : Symbol) :
    ((h.run actions).tracked.record q).active = (h.lastSelection selected actions).contains q := by
  induction actions generalizing h selected with
  | nil => exact hs q
  | cons a rest ih => exact ih (active_act hs a)

/-- A record is dropped by the removal of its own symbol, if it is not active and no contract
depends on it, and by no other action. -/
theorem contains_act_eq_false_iff {s : Symbol} (hs : h.tracked.contains s) {a : Action} :
    (h.act a).tracked.contains s = false ↔ a = .removeInstrument s ∧
      (h.tracked.record s).active = false ∧ (h.tracked.record s).dependents.isEmpty := by
  have hkept : ∀ {a : Action}, (h.act a).tracked.contains s → a ≠ .removeInstrument s →
      ((h.act a).tracked.contains s = false ↔ a = .removeInstrument s ∧
        (h.tracked.record s).active = false ∧ (h.tracked.record s).dependents.isEmpty) := by
    intro a hcontains hne
    rw [hcontains]
    exact ⟨nofun, fun hboth => absurd hboth.1 hne⟩
  cases a with
  | resolve now selector state =>
      refine hkept ?_ nofun
      have hcontains := h.tracked.contains_resolve now selector state s
      rw [hs, Bool.or_true] at hcontains
      exact hcontains
  | addInstrument symbol =>
      exact hkept (of_command (P := fun u => u.contains s) hs
        fun _ hadd => contains_addInstrument hadd hs) nofun
  | addContract contract =>
      exact hkept (of_command (P := fun u => u.contains s) hs
        fun _ hadd => contains_addContract hadd hs) nofun
  | updatePrices slice =>
      exact hkept ((h.tracked.contains_updatePrices slice s).trans hs) nofun
  | removeInstrument symbol =>
      by_cases hsame : symbol = s
      · subst hsame
        obtain ⟨tracked, hremove⟩ := exists_removeInstrument hs
        have hact : (h.act (.removeInstrument symbol)).tracked = tracked := by
          simp only [act, hremove, command]
        rw [hact, contains_removeInstrument_self hremove]
        simp
      · refine hkept ?_ fun heq => hsame (Action.removeInstrument.inj heq)
        exact of_command (P := fun u => u.contains s) hs
          fun _ hremove => contains_removeInstrument hremove (Ne.symm hsame) hs

/-- The last price of a record is that of the quote an action brings, and otherwise stays. -/
theorem lastPrint_act {a : Action} {s : Symbol} {r r' : Security}
    (hr : h.tracked.get? s = some r) (hr' : (h.act a).tracked.get? s = some r') :
    r'.lastPrint = match a.quote? s with
      | none => r.lastPrint
      | some quote => (some quote.price, some quote.time) := by
  have hretains : ∀ result : Except UniverseError Universe,
      (∀ tracked, result = .ok tracked → Retains h.tracked tracked) →
      (h.command result).tracked.get? s = some r' → r'.lastPrint = r.lastPrint := by
    intro result hresult hafter
    cases result with
    | error e => exact congrArg Security.lastPrint (Option.some.inj (hafter.symm.trans hr))
    | ok tracked =>
        have hget : tracked.get? s = some r' := hafter
        have hcontains : tracked.contains s := Option.isSome_iff_exists.2 ⟨r', hget⟩
        have hprint := (hresult tracked rfl).lastPrint_eq s hcontains
        rwa [record_of_get? hget, record_of_get? hr] at hprint
  cases a with
  | resolve now selector state =>
      have hrecord := h.tracked.record_resolve now selector state s
      have hget : (h.tracked.resolve now selector state).2.1.get? s = some r' := hr'
      rw [record_of_get? hget, record_of_get? hr] at hrecord
      rw [hrecord]
      rfl
  | addInstrument symbol => exact hretains _ (fun _ => addInstrument_retains) hr'
  | addContract contract => exact hretains _ (fun _ => addContract_retains) hr'
  | removeInstrument symbol => exact hretains _ (fun _ => removeInstrument_retains) hr'
  | updatePrices slice =>
      have hget : (h.tracked.updatePrices slice).get? s = some r' := hr'
      rw [get?_updatePrices, hr] at hget
      have hquote : (Action.updatePrices slice).quote? s = slice.get? s := rfl
      rw [hquote, ← Option.some.inj hget]
      cases slice.get? s <;> rfl

/-- Only a resolution announces anything. -/
theorem announced_act {a : Action} (ha : a.resolves = false) :
    (h.act a).tracked.announced = h.tracked.announced := by
  cases a with
  | resolve now selector state => cases ha
  | addInstrument symbol =>
      exact of_command (P := fun u => u.announced = h.tracked.announced) rfl
        fun _ => announced_addInstrument
  | addContract contract =>
      exact of_command (P := fun u => u.announced = h.tracked.announced) rfl
        fun _ => announced_addContract
  | removeInstrument symbol =>
      exact of_command (P := fun u => u.announced = h.tracked.announced) rfl
        fun _ => announced_removeInstrument
  | updatePrices slice => rfl

/-- Actions without a resolution announce nothing. -/
theorem announced_run {actions : List Action} (hactions : resolutions actions = 0) :
    (h.run actions).tracked.announced = h.tracked.announced := by
  have hnone := List.countP_eq_zero.1 hactions
  clear hactions
  induction actions generalizing h with
  | nil => rfl
  | cons a rest ih =>
      obtain ⟨ha, hrest⟩ := List.forall_mem_cons.1 hnone
      exact (ih hrest).trans (announced_act (Bool.eq_false_iff.2 ha))

/-- A resolution announces as removed the data symbols that it does not select and that are not
subscribed at its beginning. -/
theorem mem_removed_resolve (u : Universe) (now : Instant) (selector : Selector)
    (state : selector.State) (s : Symbol) :
    s ∈ (u.resolve now selector state).1.removed ↔ s ∈ u.dataSymbols ∧
      s ∉ (u.selection now selector state).1.toList ∧ ¬ (u.record s).isSubscribed := by
  rw [(u.resolve_resolved now selector state).removed, mem_dataSymbols_resolve, not_or]

/-- How long records are kept, after any actions.

An action drops a record exactly if it removes its symbol while the last resolution did not select
it and no contract depends on it. A record that stays has the last price that it had, unless the
action brings a quote of its symbol. A data symbol whose record is dropped is announced as removed
by the next resolution, unless this one selects it or it is subscribed again by then. An action that
is refused changes nothing; refused are contracts that are none and removals without a record. -/
theorem records_retained (release : UnderlyingRelease) (cadence : SelectionCadence)
    (past : List Action) :
    let h := (start release cadence).run past
    let selected := (start release cadence).lastSelection .empty past
    (∀ (a : Action) (s : Symbol), h.tracked.contains s →
      ((h.act a).tracked.contains s = false ↔ a = .removeInstrument s ∧ ¬ selected.contains s ∧
        ∀ contract, ¬ (h.tracked.record s).dependents.contains contract)) ∧
    (∀ (a : Action) (s : Symbol) (r r' : Security), h.tracked.get? s = some r →
      (h.act a).tracked.get? s = some r' →
      r'.lastPrint = match a.quote? s with
        | none => r.lastPrint
        | some quote => (some quote.price, some quote.time)) ∧
    (∀ (a : Action) (s : Symbol), h.tracked.contains s → (h.act a).tracked.contains s = false →
      s ∈ h.tracked.dataSymbols → ∀ during, resolutions during = 0 →
      ∀ (now : Instant) (selector : Selector) (state : selector.State),
        let before := ((h.act a).run during).tracked
        (s ∈ (before.resolve now selector state).1.removed ↔
          s ∉ (before.selection now selector state).1.toList ∧ ¬ (before.record s).isSubscribed)) ∧
    (∀ (a : Action) (e : UniverseError), a.Refused h.tracked e ↔
      (∃ s, a = .addContract s ∧ s.underlying? = none ∧ e = .notDerivative s) ∨
        ∃ s, a = .removeInstrument s ∧ h.tracked.contains s = false ∧ e = .unknownSymbol s) ∧
    ∀ (a : Action) (e : UniverseError), a.Refused h.tracked e → h.act a = h := by
  intro h selected
  have hactive : ∀ q, (h.tracked.record q).active = selected.contains q :=
    active_run (fun _ => rfl) past
  refine ⟨fun a s hs => ?_, fun a s r r' => lastPrint_act, ?_, fun a e => Action.refused_iff,
    fun a e => act_of_refused⟩
  · rw [contains_act_eq_false_iff hs, hactive, SortedMap.isEmpty_iff]
    simp only [Bool.not_eq_true]
  · intro a s hs hdropped hmember during hduring now selector state before
    -- The action that drops the record is a removal, so nothing is announced until the resolution.
    obtain ⟨rfl, -⟩ := (contains_act_eq_false_iff hs).1 hdropped
    have hannounced : before.announced = h.tracked.announced :=
      (announced_run hduring).trans (announced_act rfl)
    rw [mem_removed_resolve]
    refine and_iff_right ?_
    unfold dataSymbols
    rw [hannounced]
    exact hmember

/-- An option and its underlying are data symbols. The removal of the underlying drops no record, as
the option depends on it, and keeps its price; that of the option drops the record of the option,
which the next resolution announces. -/
theorem option_dropped :
    let twx := Symbol.equity "TWX"
    let call := Symbol.option
      ⟨"TWX", ⟨735404, by decide, by decide⟩, 70000000, .call, .american⟩
    let midnight : Instant := .startOf ⟨735388, by decide, by decide⟩ .daily
    let slice : DataSlice := ⟨midnight, .ofList [(twx, ⟨midnight.time, 69000000, none⟩)]⟩
    let past := [.addContract call, .resolve midnight (.static []) (), .updatePrices slice]
    let h := (start .withContract .everyStep).run past
    (∃ r, (h.act (.removeInstrument twx)).tracked.get? twx = some r ∧
      r.lastPrint = (some 69000000, some midnight.time)) ∧
    (h.act (.removeInstrument call)).tracked.contains call = false ∧
    call ∈ ((h.act (.removeInstrument call)).tracked.resolve midnight (.static []) ()).1.removed ∧
    h.act (.removeInstrument (.equity "SPY")) = h := by
  intro twx call midnight slice past h
  obtain ⟨hdropped_iff, hprint, hannounced, hrefused_iff, hrefused⟩ :=
    records_retained .withContract .everyStep past
  have htwx : h.tracked.contains twx := by decide
  have hcall : h.tracked.contains call := by decide
  have hdropped : (h.act (.removeInstrument call)).tracked.contains call = false := by
    refine (hdropped_iff _ call hcall).2 ⟨rfl, by decide, fun contract hcontract => ?_⟩
    have hnone : (h.tracked.record call).dependents = .empty := by decide
    rw [hnone] at hcontract
    cases hcontract
  have hkept : (h.act (.removeInstrument twx)).tracked.contains twx := by
    refine Bool.ne_false_iff.1 fun hfalse => ?_
    exact ((hdropped_iff _ twx htwx).1 hfalse).2.2 call (by decide)
  obtain ⟨r, hr⟩ : ∃ r, h.tracked.get? twx = some r := Option.isSome_iff_exists.1 htwx
  obtain ⟨r', hr'⟩ : ∃ r', (h.act (.removeInstrument twx)).tracked.get? twx = some r' :=
    Option.isSome_iff_exists.1 hkept
  have hlast : r.lastPrint = (some 69000000, some midnight.time) := by
    rw [← record_of_get? (u := h.tracked) hr]
    decide
  refine ⟨⟨r', hr', (hprint _ twx r r' hr hr').trans hlast⟩, hdropped, ?_, ?_⟩
  · exact (hannounced _ call hcall hdropped (by decide) [] rfl midnight (.static []) ()).2
      ⟨by decide, by decide⟩
  · exact hrefused _ _ ((hrefused_iff _ _).2 (.inr ⟨_, rfl, by decide, rfl⟩))

end History

end Universe

end MarketReplay
