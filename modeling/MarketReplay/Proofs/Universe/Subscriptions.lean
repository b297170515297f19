import MarketReplay.Proofs.Universe.History

/-!
# Subscriptions by hand

The subscription of a contract is stored twice: in the mark of its own record, and among the
dependents of its underlying. `Universe.Linked` says that the two agree and that only records
without a subscription are on hold; every action keeps it (`History.linked_act`). So what is
subscribed by hand is a data symbol until it is removed, and so is its underlying
(`History.kept_until_removed`).
-/

namespace MarketReplay.Universe

/-! ### What leaves an underlying -/

/-- The dependents of an underlying after a contract leaves it. -/
theorem contains_leave (release : UnderlyingRelease) (contract : Symbol) (s : Security)
    (q : Symbol) :
    (leave release contract s).dependents.contains q =
      (!decide (q = contract) && s.dependents.contains q) := by
  unfold leave
  cases hcontract : s.dependents.contains contract with
  | false =>
      by_cases hq : q = contract
      · subst hq
        simp [hcontract]
      · simp [hq]
  | true =>
      have herase := SortedSet.contains_erase s.dependents contract q
      simp only [Bool.not_true, Bool.false_eq_true, if_false]
      split
      · exact herase
      · cases release <;> exact herase

/-- A record that is subscribed by hand stays so when a contract leaves it. -/
theorem manual_leave (release : UnderlyingRelease) (contract : Symbol) {s : Security}
    (hs : s.manual) : (leave release contract s).manual := by
  unfold leave
  split
  · exact hs
  · simp [hs]

/-- When a contract leaves a record that has no hold beside its dependents, only a record without
any subscription is on hold. -/
theorem held_leave {release : UnderlyingRelease} {contract : Symbol} {s : Security}
    (hs : 0 < s.holdSteps → s.manual = false ∧ s.dependents.isEmpty)
    (hheld : 0 < (leave release contract s).holdSteps) :
    (leave release contract s).manual = false ∧
      (leave release contract s).dependents.isEmpty := by
  unfold leave at hheld ⊢
  cases hcontract : s.dependents.contains contract with
  | false =>
      simp only [hcontract, Bool.not_false, if_true] at hheld ⊢
      exact hs hheld
  | true =>
      -- The record has a dependent, so it is on hold after the contract has left only if it is
      -- put on hold now.
      have hnone : s.holdSteps = 0 := by
        rcases Nat.eq_zero_or_pos s.holdSteps with hzero | hpos
        · exact hzero
        · have hempty := SortedMap.isEmpty_iff.1 (hs hpos).2 contract
          rw [hcontract] at hempty
          cases hempty
      simp only [hcontract, Bool.not_true, Bool.false_eq_true, if_false] at hheld ⊢
      split at hheld
      · exact absurd hheld (by simp [hnone])
      · rename_i hfree
        simp only [Bool.or_eq_true, not_or, Bool.not_eq_true, Bool.not_eq_false'] at hfree
        rw [if_neg (by simp [hfree])]
        cases release with
        | withContract => exact absurd hheld (by simp [UnderlyingRelease.apply, hnone])
        | afterSteps n => exact ⟨hfree.2, hfree.1⟩
        | retain => exact absurd hheld (by simp [UnderlyingRelease.apply, hnone])

/-! ### Marks -/

section Marks

variable {u u' : Universe}

/-- Only a contract is subscribed as a contract. -/
theorem exists_underlying_of_addContract {contract : Symbol}
    (h : u.addContract contract = .ok u') :
    ∃ underlying, contract.underlying? = some underlying := by
  unfold addContract at h
  cases hunderlying : contract.underlying? with
  | none =>
      rw [hunderlying] at h
      cases h
  | some underlying => exact ⟨underlying, rfl⟩

/-- Subscribing a contract marks its record and no other. -/
theorem manual_addContract {contract : Symbol} (h : u.addContract contract = .ok u')
    (q : Symbol) :
    (u'.record q).manual = (decide (q = contract) || (u.record q).manual) := by
  obtain ⟨underlying, hunderlying⟩ := exists_underlying_of_addContract h
  have hne := Symbol.ne_of_underlying? hunderlying
  rw [record_addContract h hunderlying]
  by_cases hq : q = contract
  · simp [hq]
  · rw [if_neg hq]
    by_cases hu : q = underlying
    · simp [hu, hne.symm]
    · simp [hu, hq]

/-- Subscribing a symbol marks its record and no other. -/
theorem manual_addInstrument {symbol : Symbol} (h : u.addInstrument symbol = .ok u')
    (q : Symbol) :
    (u'.record q).manual = (decide (q = symbol) || (u.record q).manual) := by
  cases hunderlying : symbol.underlying? with
  | some underlying =>
      rw [addInstrument_of_underlying? hunderlying] at h
      exact manual_addContract h q
  | none =>
      rw [record_addInstrument h hunderlying]
      by_cases hq : q = symbol <;> simp [hq]

/-- Removing a symbol takes the mark of no other. -/
theorem manual_removeInstrument {symbol q : Symbol} (h : u.removeInstrument symbol = .ok u')
    (hq : q ≠ symbol) (hmanual : (u.record q).manual) : (u'.record q).manual := by
  rw [record_removeInstrument h, if_neg hq]
  split
  · exact manual_leave u.release symbol hmanual
  · exact hmanual

/-- The subscription of a symbol after its removal: nothing but its dependents is left. -/
theorem record_removed {symbol : Symbol} (hremove : u.removeInstrument symbol = .ok u') :
    (u'.record symbol).manual = false ∧ (u'.record symbol).holdSteps = 0 ∧
      ∀ c, (u'.record symbol).dependents.contains c =
        (u.record symbol).dependents.contains c := by
  rw [record_removeInstrument hremove, if_pos rfl]
  simp only
  split
  · exact ⟨rfl, rfl, fun _ => rfl⟩
  · rename_i hmember
    -- A record that is dropped has no dependents.
    have hempty : (u.record symbol).dependents.isEmpty := by
      simp only [Security.isMember, Security.isSubscribed] at hmember
      simp_all
    refine ⟨rfl, rfl, fun c => ?_⟩
    rw [SortedMap.isEmpty_iff.1 hempty c]
    rfl

/-- Prices change no subscription. -/
theorem subscription_updatePrices (u : Universe) (slice : DataSlice) (q : Symbol) :
    ((u.updatePrices slice).record q).manual = (u.record q).manual ∧
      ((u.updatePrices slice).record q).dependents = (u.record q).dependents ∧
      ((u.updatePrices slice).record q).holdSteps = (u.record q).holdSteps := by
  obtain ⟨price, lastUpdate, hrecord⟩ := u.record_updatePrices slice q
  rw [hrecord]
  exact ⟨rfl, rfl, rfl⟩

/-- Subscribing a contract makes it a dependent of its underlying, and no other symbol of any. -/
theorem dependents_addContract {contract underlying : Symbol}
    (h : u.addContract contract = .ok u') (hunderlying : contract.underlying? = some underlying)
    (q c : Symbol) :
    (u'.record q).dependents.contains c =
      (decide (q = underlying ∧ c = contract) || (u.record q).dependents.contains c) := by
  have hne := Symbol.ne_of_underlying? hunderlying
  rw [record_addContract h hunderlying]
  by_cases hq : q = underlying
  · subst hq
    simp [hne.symm, SortedSet.contains_add]
  · rw [if_neg hq]
    by_cases hc : q = contract
    · rw [if_pos hc]
      simp [hq]
    · rw [if_neg hc]
      simp [hq]

/-- A removed symbol is no dependent of its underlying any more; all others stay what they are. -/
theorem dependents_removeInstrument {symbol : Symbol} (h : u.removeInstrument symbol = .ok u')
    (q c : Symbol) :
    (u'.record q).dependents.contains c =
      (!decide (c = symbol ∧ symbol.underlying? = some q) &&
        (u.record q).dependents.contains c) := by
  obtain ⟨-, -, hkept⟩ := record_removed h
  by_cases hq : q = symbol
  · subst hq
    have hne : ¬ q.underlying? = some q := fun hself => Symbol.ne_of_underlying? hself rfl
    simp [hkept, hne]
  · rw [record_removeInstrument h, if_neg hq]
    by_cases hunder : symbol.underlying? = some q
    · simp [hunder, contains_leave]
    · simp [hunder]

/-- Removing a symbol changes the mark of no other contract: only the symbol and its underlying,
which is no contract, are changed. -/
theorem manual_removeInstrument_contract {symbol contract underlying : Symbol}
    (h : u.removeInstrument symbol = .ok u') (hne : contract ≠ symbol)
    (hunderlying : contract.underlying? = some underlying) :
    (u'.record contract).manual = (u.record contract).manual := by
  rw [record_removeInstrument h, if_neg hne, if_neg]
  intro hunder
  rw [Symbol.underlying?_of_underlying? hunder] at hunderlying
  cases hunderlying

end Marks

/-! ### The link between contracts and underlyings -/

/-- The dependents of a record are the contracts on it that are subscribed by hand, and a record on
hold has no subscription and is no contract. -/
structure Linked (u : Universe) : Prop where
  dependents_iff : ∀ underlying contract,
    (u.record underlying).dependents.contains contract ↔
      contract.underlying? = some underlying ∧ (u.record contract).manual
  held : ∀ s, 0 < (u.record s).holdSteps →
    (u.record s).manual = false ∧ (u.record s).dependents.isEmpty ∧ s.underlying? = none

variable {u u' : Universe}

/-- The universe without securities is linked. -/
theorem linked_start (release : UnderlyingRelease) (cadence : SelectionCadence) :
    (start release cadence).Linked := by
  refine ⟨fun underlying contract => ?_, fun s hs => ?_⟩
  · rw [record_start, record_start]
    simp [Security.fresh, SortedMap.contains]
  · rw [record_start] at hs
    cases hs

/-- Where subscriptions stay and holds only shorten, records stay linked. -/
theorem Linked.of_record (h : u.Linked)
    (hmanual : ∀ q, (u'.record q).manual = (u.record q).manual)
    (hdependents : ∀ q, (u'.record q).dependents = (u.record q).dependents)
    (hhold : ∀ q, (u'.record q).holdSteps ≤ (u.record q).holdSteps) : u'.Linked := by
  refine ⟨fun underlying contract => ?_, fun s hs => ?_⟩
  · rw [hdependents, hmanual]
    exact h.dependents_iff underlying contract
  · rw [hmanual, hdependents]
    exact h.held s (Nat.lt_of_lt_of_le hs (hhold s))

/-- A resolution keeps records linked. -/
theorem Linked.resolve (h : u.Linked) (now : Instant) (selector : Selector)
    (state : selector.State) : (u.resolve now selector state).2.1.Linked := by
  have hrecord := u.record_resolve now selector state
  refine h.of_record (fun q => ?_) (fun q => ?_) fun q => ?_
  · rw [hrecord]
  · rw [hrecord]
  · rw [hrecord]
    exact Nat.sub_le _ _

/-- Prices keep records linked. -/
theorem Linked.updatePrices (h : u.Linked) (slice : DataSlice) :
    (u.updatePrices slice).Linked := by
  have hkept := u.subscription_updatePrices slice
  exact h.of_record (fun q => (hkept q).1) (fun q => (hkept q).2.1)
    fun q => Nat.le_of_eq (hkept q).2.2

/-- Subscribing a contract keeps records linked: it becomes manual and a dependent at once. -/
theorem Linked.addContract (h : u.Linked) {contract : Symbol}
    (hadd : u.addContract contract = .ok u') : u'.Linked := by
  obtain ⟨underlying, hunderlying⟩ := exists_underlying_of_addContract hadd
  refine ⟨fun q c => ?_, fun s hs => ?_⟩
  · rw [manual_addContract hadd, dependents_addContract hadd hunderlying, Bool.or_eq_true,
      Bool.or_eq_true, decide_eq_true_eq, decide_eq_true_eq, h.dependents_iff]
    constructor
    · rintro (⟨rfl, rfl⟩ | ⟨hc, hm⟩)
      · exact ⟨hunderlying, .inl rfl⟩
      · exact ⟨hc, .inr hm⟩
    · rintro ⟨hc, rfl | hm⟩
      · exact .inl ⟨Option.some.inj (hc.symm.trans hunderlying), rfl⟩
      · exact .inr ⟨hc, hm⟩
  · rw [record_addContract hadd hunderlying] at hs ⊢
    by_cases hc : s = contract
    · -- A contract is never on hold.
      subst hc
      rw [if_pos rfl] at hs
      have hnone := (h.held s hs).2.2
      rw [hunderlying] at hnone
      cases hnone
    · rw [if_neg hc] at hs ⊢
      by_cases hu : s = underlying
      · rw [if_pos hu] at hs
        cases hs
      · rw [if_neg hu] at hs ⊢
        exact h.held s hs

/-- Subscribing a symbol keeps records linked. -/
theorem Linked.addInstrument (h : u.Linked) {symbol : Symbol}
    (hadd : u.addInstrument symbol = .ok u') : u'.Linked := by
  cases hunderlying : symbol.underlying? with
  | some underlying =>
      rw [addInstrument_of_underlying? hunderlying] at hadd
      exact h.addContract hadd
  | none =>
      have hrecord := record_addInstrument hadd hunderlying
      refine ⟨fun q c => ?_, fun s hs => ?_⟩
      · have hdependents : (u'.record q).dependents = (u.record q).dependents := by
          rw [hrecord]
          split <;> rfl
        rw [hdependents, h.dependents_iff]
        refine and_congr_right fun hc => ?_
        -- The symbol has no underlying, so it is not the contract.
        have hne : c ≠ symbol := by
          rintro rfl
          rw [hunderlying] at hc
          cases hc
        rw [manual_addInstrument hadd]
        simp [hne]
      · rw [hrecord] at hs ⊢
        by_cases hq : s = symbol
        · rw [if_pos hq] at hs
          cases hs
        · rw [if_neg hq] at hs ⊢
          exact h.held s hs

/-- Removing a symbol keeps records linked: it loses its mark and leaves its underlying at once. -/
theorem Linked.removeInstrument (h : u.Linked) {symbol : Symbol}
    (hremove : u.removeInstrument symbol = .ok u') : u'.Linked := by
  obtain ⟨hmanual, hhold, -⟩ := record_removed hremove
  refine ⟨fun q c => ?_, fun s hs => ?_⟩
  · rw [dependents_removeInstrument hremove, Bool.and_eq_true, h.dependents_iff,
      Bool.not_eq_true', decide_eq_false_iff_not]
    constructor
    · rintro ⟨hne, hc, hm⟩
      have hsymbol : c ≠ symbol := by
        rintro rfl
        exact hne ⟨rfl, hc⟩
      exact ⟨hc, (manual_removeInstrument_contract hremove hsymbol hc).trans hm⟩
    · rintro ⟨hc, hm⟩
      have hsymbol : c ≠ symbol := by
        rintro rfl
        rw [hmanual] at hm
        cases hm
      have hbefore := manual_removeInstrument_contract hremove hsymbol hc
      exact ⟨fun hboth => hsymbol hboth.1, hc, hbefore.symm.trans hm⟩
  · by_cases hq : s = symbol
    · subst hq
      rw [hhold] at hs
      cases hs
    · rw [record_removeInstrument hremove, if_neg hq] at hs ⊢
      by_cases hunder : symbol.underlying? = some s
      · rw [if_pos hunder] at hs ⊢
        obtain ⟨hfree, hempty⟩ := held_leave
          (fun hheld => ⟨(h.held s hheld).1, (h.held s hheld).2.1⟩) hs
        exact ⟨hfree, hempty, Symbol.underlying?_of_underlying? hunder⟩
      · rw [if_neg hunder] at hs ⊢
        exact h.held s hs

namespace History

/-- Every action keeps records linked. -/
theorem linked_act {h : History} (hh : h.tracked.Linked) (a : Action) :
    (h.act a).tracked.Linked := by
  cases a with
  | resolve now selector state => exact hh.resolve now selector state
  | addInstrument symbol => exact of_command (P := Linked) hh fun _ => hh.addInstrument
  | addContract contract => exact of_command (P := Linked) hh fun _ => hh.addContract
  | removeInstrument symbol => exact of_command (P := Linked) hh fun _ => hh.removeInstrument
  | updatePrices slice => exact hh.updatePrices slice

/-- Every sequence of actions keeps records linked. -/
theorem linked_run {h : History} (hh : h.tracked.Linked) (actions : List Action) :
    (h.run actions).tracked.Linked := by
  induction actions generalizing h with
  | nil => exact hh
  | cons a rest ih => exact ih (linked_act hh a)

end History

/-! ### Until its removal -/

/-- Whether an action removes a symbol from a universe. -/
def Action.Removes (u : Universe) (s : Symbol) : Action → Prop
  | .removeInstrument q => q = s ∧ ∃ tracked, u.removeInstrument q = .ok tracked
  | _ => False

namespace History

/-- Whether no action of a list, taken in turn, removes a symbol. -/
def Unremoved (h : History) (s : Symbol) : List Action → Prop
  | [] => True
  | a :: rest => ¬ a.Removes h.tracked s ∧ (h.act a).Unremoved s rest

/-- A mark outlasts every action but the removal of its symbol. -/
theorem manual_act {h : History} {s : Symbol} (hs : (h.tracked.record s).manual) {a : Action}
    (ha : ¬ a.Removes h.tracked s) : ((h.act a).tracked.record s).manual := by
  cases a with
  | resolve now selector state =>
      have hrecord := h.tracked.record_resolve now selector state s
      show ((h.tracked.resolve now selector state).2.1.record s).manual
      rw [hrecord]
      exact hs
  | addInstrument q =>
      refine of_command (P := fun u => (u.record s).manual) hs fun tracked hadd => ?_
      rw [manual_addInstrument hadd, hs, Bool.or_true]
  | addContract q =>
      refine of_command (P := fun u => (u.record s).manual) hs fun tracked hadd => ?_
      rw [manual_addContract hadd, hs, Bool.or_true]
  | removeInstrument q =>
      refine of_command (P := fun u => (u.record s).manual) hs fun tracked hremove => ?_
      refine manual_removeInstrument hremove (fun hq => ?_) hs
      exact ha ⟨hq.symm, tracked, hremove⟩
  | updatePrices slice =>
      show ((h.tracked.updatePrices slice).record s).manual
      rw [(h.tracked.subscription_updatePrices slice s).1]
      exact hs

/-- A mark lasts until the removal of its symbol. -/
theorem manual_run {h : History} {s : Symbol} (hs : (h.tracked.record s).manual)
    {actions : List Action} (hkept : h.Unremoved s actions) :
    ((h.run actions).tracked.record s).manual := by
  induction actions generalizing h with
  | nil => exact hs
  | cons a rest ih => exact ih (manual_act hs hkept.1) hkept.2

/-- After any actions the dependents of a record are the contracts on it that are subscribed by
hand, and only a record without any subscription is on hold. What is then subscribed by hand is a
data symbol after every resolution until it is removed itself, and so is its underlying. -/
theorem kept_until_removed (release : UnderlyingRelease) (cadence : SelectionCadence)
    (past : List Action) :
    let h := (start release cadence).run past
    (∀ underlying contract, (h.tracked.record underlying).dependents.contains contract ↔
      contract.underlying? = some underlying ∧ (h.tracked.record contract).manual) ∧
    (∀ s, 0 < (h.tracked.record s).holdSteps →
      (h.tracked.record s).manual = false ∧ (h.tracked.record s).dependents.isEmpty) ∧
    ∀ s tracked,
      h.tracked.addInstrument s = .ok tracked ∨ h.tracked.addContract s = .ok tracked →
      ∀ during, Unremoved ⟨tracked, h.announcements⟩ s during →
      ∀ now selector state,
        let resolved := ((run ⟨tracked, h.announcements⟩ during).act
          (.resolve now selector state)).tracked
        s ∈ resolved.dataSymbols ∧
          ∀ underlying, s.underlying? = some underlying → underlying ∈ resolved.dataSymbols := by
  intro h
  have hlinked : h.tracked.Linked := linked_run (linked_start release cadence) past
  refine ⟨hlinked.dependents_iff, fun s hs => ⟨(hlinked.held s hs).1, (hlinked.held s hs).2.1⟩, ?_⟩
  intro s tracked hadd during hkept now selector state resolved
  have hadded : tracked.Linked ∧ (tracked.record s).manual := by
    rcases hadd with hadd | hadd
    · exact ⟨hlinked.addInstrument hadd, by simp [manual_addInstrument hadd]⟩
    · exact ⟨hlinked.addContract hadd, by simp [manual_addContract hadd]⟩
  have hmanual := manual_run (h := ⟨tracked, h.announcements⟩) hadded.2 hkept
  have hlinks := linked_run (h := ⟨tracked, h.announcements⟩) hadded.1 during
  have hmember := (run ⟨tracked, h.announcements⟩ during).tracked.mem_dataSymbols_resolve
    now selector state
  refine ⟨(hmember s).2 (.inr ?_), fun underlying hunderlying => (hmember underlying).2 (.inr ?_)⟩
  · unfold Security.isSubscribed
    rw [hmanual]
    rfl
  · -- The contract is among the dependents of its underlying.
    have hdependent := (hlinks.dependents_iff underlying s).2 ⟨hunderlying, hmanual⟩
    have hdependents : ((run ⟨tracked, h.announcements⟩ during).tracked.record
        underlying).dependents.isEmpty = false :=
      SortedMap.isEmpty_eq_false_iff.2 ⟨s, hdependent⟩
    unfold Security.isSubscribed
    rw [hdependents]
    simp

/-- A contract is subscribed by hand while its underlying is selected. After the underlying is
removed and the selection is empty, both are still data symbols. -/
theorem option_kept :
    let twx := Symbol.equity "TWX"
    let call := Symbol.option
      ⟨"TWX", ⟨735404, by decide, by decide⟩, 70000000, .call, .american⟩
    let midnight : Instant := .startOf ⟨735388, by decide, by decide⟩ .daily
    let h := (start .withContract .everyStep).run [.resolve midnight (.static [twx]) ()]
    let during := [.removeInstrument twx, .resolve midnight (.static []) ()]
    ∃ tracked, h.tracked.addContract call = .ok tracked ∧
      Unremoved ⟨tracked, h.announcements⟩ call during ∧
      let resolved := ((run ⟨tracked, h.announcements⟩ during).act
        (.resolve midnight (.static []) ())).tracked
      call ∈ resolved.dataSymbols ∧ twx ∈ resolved.dataSymbols := by
  intro twx call midnight h during
  have hadd : ∃ tracked, h.tracked.addContract call = .ok tracked := ⟨_, rfl⟩
  obtain ⟨tracked, hadd⟩ := hadd
  have hother : ¬ twx = call := by decide
  have hkept : Unremoved ⟨tracked, h.announcements⟩ call during :=
    ⟨fun hremoved => hother hremoved.1, fun hremoved => hremoved, trivial⟩
  obtain ⟨hcall, htwx⟩ := (kept_until_removed .withContract .everyStep
    [.resolve midnight (.static [twx]) ()]).2.2 call tracked (.inr hadd) during hkept
    midnight (.static []) ()
  exact ⟨tracked, hadd, hkept, hcall, htwx twx rfl⟩

end History

end MarketReplay.Universe
