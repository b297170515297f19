import MarketReplay.Proofs.Universe.Subscriptions

/-!
# The release of underlyings

The removal of the last contract on an underlying leaves a record without dependents, which the
release policy marks as subscribed by hand, puts on hold, or leaves alone (`Released`). Until it is
selected, subscribed or removed itself, nothing but a resolution changes its hold
(`History.released_act`), so the policy alone tells how many resolutions it stays a data symbol
(`History.released_in_time`).
-/

namespace MarketReplay

namespace UnderlyingRelease

/-- Whether a released underlying is from then on subscribed by hand. -/
def retains : UnderlyingRelease → Bool
  | .retain => true
  | _ => false

/-- For how many resolutions a released underlying is on hold. -/
def steps : UnderlyingRelease → Nat
  | .afterSteps n => n
  | _ => 0

/-- Whether a released underlying is still a member after a number of resolutions. -/
def holds : UnderlyingRelease → (resolutions : Nat) → Bool
  | .withContract, _ => false
  | .afterSteps n, resolutions => resolutions < n
  | .retain, _ => true

theorem holds_eq (release : UnderlyingRelease) (resolutions : Nat) :
    release.holds resolutions = (release.retains || decide (resolutions < release.steps)) := by
  cases release with
  | withContract => simp [holds, retains, steps]
  | afterSteps n => rfl
  | retain => rfl

end UnderlyingRelease

namespace Universe

/-! ### The record of a released underlying -/

/-- The record of an underlying that its last contract has left, after a number of resolutions. -/
structure Released (release : UnderlyingRelease) (resolutions : Nat) (s : Security) : Prop where
  free : ∀ contract, s.dependents.contains contract = false
  manual_eq : s.manual = release.retains
  holdSteps_eq : s.holdSteps = release.steps - resolutions

/-- The policy tells whether a released underlying is subscribed. -/
theorem Released.isSubscribed_eq {release : UnderlyingRelease} {resolutions : Nat} {s : Security}
    (h : Released release resolutions s) : s.isSubscribed = release.holds resolutions := by
  have hfree : s.dependents.isEmpty := SortedMap.isEmpty_iff.2 h.free
  have hhold : decide (0 < release.steps - resolutions) = decide (resolutions < release.steps) :=
    decide_eq_decide.2 Nat.sub_pos_iff_lt
  rw [release.holds_eq, Security.isSubscribed, hfree, h.manual_eq, h.holdSteps_eq,
    hhold, Bool.not_true, Bool.or_false]

/-- What the last contract leaves of an underlying that is neither subscribed by hand nor on
hold. -/
theorem released_leave (release : UnderlyingRelease) {contract : Symbol} {s : Security}
    (hlast : ∀ c, s.dependents.contains c ↔ c = contract) (hmanual : s.manual = false)
    (hhold : s.holdSteps = 0) : Released release 0 (leave release contract s) := by
  have hcontract : s.dependents.contains contract := (hlast contract).2 rfl
  have hfree : ∀ c, SortedMap.contains (s.dependents.erase contract) c = false := by
    intro c
    rw [SortedSet.contains_erase]
    by_cases hc : c = contract
    · simp [hc]
    · have hother : ¬ s.dependents.contains c := fun hmem => hc ((hlast c).1 hmem)
      simp [hother]
  have hempty : (s.dependents.erase contract).isEmpty := SortedMap.isEmpty_iff.2 hfree
  have hleave : leave release contract s =
      UnderlyingRelease.apply release { s with dependents := s.dependents.erase contract } := by
    simp [leave, hcontract, hempty, hmanual]
  rw [hleave]
  cases release with
  | withContract => exact ⟨hfree, hmanual, hhold⟩
  | afterSteps n => exact ⟨hfree, hmanual, rfl⟩
  | retain => exact ⟨hfree, rfl, hhold⟩

/-- A contract that is no dependent of a record leaves it as it is. -/
theorem leave_of_not_contains (release : UnderlyingRelease) {contract : Symbol} {s : Security}
    (h : s.dependents.contains contract = false) : leave release contract s = s := by
  simp [leave, h]

section Subscribed

variable {u : Universe}

/-- Under linked records a contract is subscribed exactly when it is so by hand. -/
theorem Linked.isSubscribed_contract (h : u.Linked) {contract underlying : Symbol}
    (hunderlying : contract.underlying? = some underlying) :
    (u.record contract).isSubscribed = (u.record contract).manual := by
  have hfree : (u.record contract).dependents.isEmpty := by
    refine SortedMap.isEmpty_iff.2 fun c => Bool.eq_false_iff.2 fun hc => ?_
    -- A contract on the contract would make this the underlying of another symbol.
    have hon := ((h.dependents_iff contract c).1 hc).1
    rw [Symbol.underlying?_of_underlying? hon] at hunderlying
    cases hunderlying
  have hhold : (u.record contract).holdSteps = 0 := by
    refine Nat.eq_zero_of_not_pos fun hpos => ?_
    have hnone := (h.held contract hpos).2.2
    rw [hunderlying] at hnone
    cases hnone
  simp [Security.isSubscribed, hfree, hhold]

/-- A record with dependents is not on hold. -/
theorem Linked.holdSteps_eq_zero (h : u.Linked) {s contract : Symbol}
    (hcontract : (u.record s).dependents.contains contract) : (u.record s).holdSteps = 0 := by
  refine Nat.eq_zero_of_not_pos fun hpos => ?_
  have hempty := (h.held s hpos).2.1
  rw [SortedMap.isEmpty_iff.1 hempty contract] at hcontract
  cases hcontract

/-- What has a record can be removed. -/
theorem exists_removeInstrument {symbol : Symbol} (h : u.contains symbol) :
    ∃ tracked, u.removeInstrument symbol = .ok tracked := by
  obtain ⟨s, hs⟩ := Option.isSome_iff_exists.1 h
  have hget : u.get? symbol = some s := hs
  unfold removeInstrument
  rw [hget]
  exact ⟨_, rfl⟩

end Subscribed

/-! ### What leaves a released underlying alone -/

/-- Whether an action selects a symbol, subscribes it or a contract on it, or removes it. -/
def Action.Touches (u : Universe) (s : Symbol) : Action → Prop
  | .resolve now selector state => (u.selection now selector state).1.contains s
  | .addInstrument q =>
    (q = s ∨ q.underlying? = some s) ∧ ∃ tracked, u.addInstrument q = .ok tracked
  | .addContract q => (q = s ∨ q.underlying? = some s) ∧ ∃ tracked, u.addContract q = .ok tracked
  | .removeInstrument q => q = s ∧ ∃ tracked, u.removeInstrument q = .ok tracked
  | .updatePrices _ => False

/-- Whether an action is a resolution. -/
def Action.resolves : Action → Bool
  | .resolve .. => true
  | _ => false

/-- The number of resolutions among actions. -/
def resolutions (actions : List Action) : Nat := actions.countP Action.resolves

section Commands

variable {u u' : Universe} {s q : Symbol}

/-- Subscribing another contract on another underlying leaves a record alone. -/
theorem record_addContract_of_ne (h : u.addContract q = .ok u') (hq : q ≠ s)
    (hunderlying : q.underlying? ≠ some s) : u'.record s = u.record s := by
  obtain ⟨underlying, hsome⟩ := exists_underlying_of_addContract h
  have hother : s ≠ underlying := fun heq => hunderlying (heq ▸ hsome)
  rw [record_addContract h hsome, if_neg (Ne.symm hq), if_neg hother]

/-- Subscribing another symbol, no contract on it, leaves a record alone. -/
theorem record_addInstrument_of_ne (h : u.addInstrument q = .ok u') (hq : q ≠ s)
    (hunderlying : q.underlying? ≠ some s) : u'.record s = u.record s := by
  cases hsome : q.underlying? with
  | some underlying =>
      rw [addInstrument_of_underlying? hsome] at h
      exact record_addContract_of_ne h hq hunderlying
  | none => rw [record_addInstrument h hsome, if_neg (Ne.symm hq)]

/-- Removing another symbol leaves a record without dependents alone. -/
theorem record_removeInstrument_of_ne (h : u.removeInstrument q = .ok u') (hq : q ≠ s)
    (hfree : ∀ contract, (u.record s).dependents.contains contract = false) :
    u'.record s = u.record s := by
  rw [record_removeInstrument h, if_neg (Ne.symm hq)]
  split
  · exact leave_of_not_contains _ (hfree q)
  · rfl

end Commands

namespace History

/-- Whether no action of a list, taken in turn, selects a symbol, subscribes it or a contract on it,
or removes it. -/
def Untouched (h : History) (s : Symbol) : List Action → Prop
  | [] => True
  | a :: rest => ¬ a.Touches h.tracked s ∧ (h.act a).Untouched s rest

/-- Actions one after others leave a symbol alone if both do. -/
theorem untouched_append {h : History} {s : Symbol} {first second : List Action} :
    h.Untouched s (first ++ second) ↔
      h.Untouched s first ∧ (h.run first).Untouched s second := by
  induction first generalizing h with
  | nil => exact ⟨fun hsecond => ⟨trivial, hsecond⟩, And.right⟩
  | cons a rest ih => exact (and_congr_right fun _ => ih).trans and_assoc.symm

variable {h : History} {s : Symbol} {release : UnderlyingRelease} {passed : Nat}

/-- An action that leaves a released underlying alone changes its hold if it is a resolution, and
nothing else about its subscription. -/
theorem released_act (hs : Released release passed (h.tracked.record s)) {a : Action}
    (ha : ¬ a.Touches h.tracked s) :
    Released release (passed + resolutions [a]) ((h.act a).tracked.record s) := by
  cases a with
  | resolve now selector state =>
      have hrecord := h.tracked.record_resolve now selector state s
      show Released release (passed + 1) ((h.tracked.resolve now selector state).2.1.record s)
      rw [hrecord]
      refine ⟨hs.free, hs.manual_eq, ?_⟩
      show (h.tracked.record s).holdSteps - 1 = _
      rw [hs.holdSteps_eq, Nat.sub_sub]
  | addInstrument q =>
      refine of_command (P := fun u => Released release passed (u.record s)) hs
        fun tracked hadd => ?_
      have hother := not_or.1 fun hq => ha ⟨hq, tracked, hadd⟩
      rw [record_addInstrument_of_ne hadd hother.1 hother.2]
      exact hs
  | addContract q =>
      refine of_command (P := fun u => Released release passed (u.record s)) hs
        fun tracked hadd => ?_
      have hother := not_or.1 fun hq => ha ⟨hq, tracked, hadd⟩
      rw [record_addContract_of_ne hadd hother.1 hother.2]
      exact hs
  | removeInstrument q =>
      refine of_command (P := fun u => Released release passed (u.record s)) hs
        fun tracked hremove => ?_
      rw [record_removeInstrument_of_ne hremove (fun hq => ha ⟨hq, tracked, hremove⟩) hs.free]
      exact hs
  | updatePrices slice =>
      obtain ⟨hmanual, hdependents, hhold⟩ := h.tracked.subscription_updatePrices slice s
      refine ⟨fun c => ?_, hmanual.trans hs.manual_eq, hhold.trans hs.holdSteps_eq⟩
      show ((h.tracked.updatePrices slice).record s).dependents.contains c = false
      rw [hdependents]
      exact hs.free c

/-- Actions that leave a released underlying alone shorten its hold by the resolutions among
them. -/
theorem released_run {actions : List Action} (hs : Released release passed (h.tracked.record s))
    (hkept : h.Untouched s actions) :
    Released release (passed + resolutions actions) ((h.run actions).tracked.record s) := by
  induction actions generalizing h passed with
  | nil => exact hs
  | cons a rest ih =>
      have hrest := ih (released_act hs hkept.1) hkept.2
      have hcount : passed + resolutions [a] + resolutions rest =
          passed + resolutions (a :: rest) := by
        simp [resolutions, List.countP_cons]
        omega
      rwa [hcount] at hrest

/-- A contract that is not subscribed by hand stays so while no contract on its underlying is. -/
theorem unsubscribed_act {contract underlying : Symbol}
    (hunderlying : contract.underlying? = some underlying)
    (hs : (h.tracked.record contract).manual = false) {a : Action}
    (ha : ¬ a.Touches h.tracked underlying) :
    ((h.act a).tracked.record contract).manual = false := by
  cases a with
  | resolve now selector state =>
      have hrecord := h.tracked.record_resolve now selector state contract
      show ((h.tracked.resolve now selector state).2.1.record contract).manual = false
      rw [hrecord]
      exact hs
  | addInstrument q =>
      refine of_command (P := fun u => (u.record contract).manual = false) hs
        fun tracked hadd => ?_
      have hne : contract ≠ q := by
        rintro rfl
        exact ha ⟨.inr hunderlying, tracked, hadd⟩
      rw [manual_addInstrument hadd, hs, decide_eq_false hne, Bool.or_false]
  | addContract q =>
      refine of_command (P := fun u => (u.record contract).manual = false) hs
        fun tracked hadd => ?_
      have hne : contract ≠ q := by
        rintro rfl
        exact ha ⟨.inr hunderlying, tracked, hadd⟩
      rw [manual_addContract hadd, hs, decide_eq_false hne, Bool.or_false]
  | removeInstrument q =>
      refine of_command (P := fun u => (u.record contract).manual = false) hs
        fun tracked hremove => ?_
      by_cases hq : contract = q
      · subst hq
        exact (record_removed hremove).1
      · rw [manual_removeInstrument_contract hremove hq hunderlying]
        exact hs
  | updatePrices slice =>
      exact (h.tracked.subscription_updatePrices slice contract).1.trans hs

/-- A contract that is not subscribed by hand stays so under actions that leave its underlying
alone. -/
theorem unsubscribed_run {contract underlying : Symbol} {actions : List Action}
    (hunderlying : contract.underlying? = some underlying)
    (hs : (h.tracked.record contract).manual = false) (hkept : h.Untouched underlying actions) :
    ((h.run actions).tracked.record contract).manual = false := by
  induction actions generalizing h with
  | nil => exact hs
  | cons a rest ih => exact ih (unsubscribed_act hunderlying hs hkept.1) hkept.2

end History

/-! ### The policy -/

section Policy

variable {u u' : Universe}

/-- A subscription keeps the policy. -/
theorem release_addContract {contract : Symbol} (h : u.addContract contract = .ok u') :
    u'.release = u.release := by
  unfold addContract at h
  split at h
  · cases h
  · obtain rfl := Except.ok.inj h
    rfl

theorem release_addInstrument {symbol : Symbol} (h : u.addInstrument symbol = .ok u') :
    u'.release = u.release := by
  unfold addInstrument at h
  split at h
  · exact release_addContract h
  · obtain rfl := Except.ok.inj h
    rfl

/-- A removal keeps the policy. -/
theorem release_removeInstrument {symbol : Symbol} (h : u.removeInstrument symbol = .ok u') :
    u'.release = u.release := by
  obtain ⟨-, rfl⟩ := removeInstrument_eq h
  cases symbol.underlying? with
  | none => rfl
  | some underlying =>
      simp only [releaseUnderlying]
      split <;> rfl

end Policy

namespace History

/-- Every action keeps the policy. -/
theorem release_act (h : History) (a : Action) :
    (h.act a).tracked.release = h.tracked.release := by
  have hcommand : ∀ result : Except UniverseError Universe,
      (∀ tracked, result = .ok tracked → tracked.release = h.tracked.release) →
      (h.command result).tracked.release = h.tracked.release := fun _ hresult =>
    of_command (P := fun u => u.release = h.tracked.release) rfl hresult
  cases a with
  | resolve now selector state => exact (h.tracked.selection_keeps now selector state).2.2
  | addInstrument symbol => exact hcommand _ fun _ => release_addInstrument
  | addContract contract => exact hcommand _ fun _ => release_addContract
  | removeInstrument symbol => exact hcommand _ fun _ => release_removeInstrument
  | updatePrices slice => rfl

/-- Every sequence of actions keeps the policy. -/
theorem release_run (h : History) (actions : List Action) :
    (h.run actions).tracked.release = h.tracked.release := by
  induction actions generalizing h with
  | nil => rfl
  | cons a rest ih => exact (ih (h.act a)).trans (h.release_act a)

end History

/-- The universe with another release policy. -/
def underRelease (π : UnderlyingRelease) (u : Universe) : Universe := { u with release := π }

theorem underRelease_apart (π : UnderlyingRelease) : ApartFromRecords (underRelease π) :=
  ⟨fun _ => rfl, fun _ _ => rfl⟩

/-- A hold of no resolution releases a record that is not on hold as if there were none. -/
theorem leave_afterSteps_zero {contract : Symbol} {s : Security}
    (h : s.dependents.contains contract → s.holdSteps = 0) :
    leave (.afterSteps 0) contract s = leave .withContract contract s := by
  unfold leave
  cases hcontract : s.dependents.contains contract with
  | false => rfl
  | true =>
      have hhold := h hcontract
      simp only [UnderlyingRelease.apply, Bool.not_true, Bool.false_eq_true, if_false]
      rw [← hhold]

/-- A contract leaves an underlying that is not on hold alike without a hold and with a hold of no
resolution. -/
theorem releaseUnderlying_underRelease {u : Universe} (hrelease : u.release = .withContract)
    {underlying contract : Symbol}
    (hhold : (u.record underlying).dependents.contains contract →
      (u.record underlying).holdSteps = 0) :
    (u.underRelease (.afterSteps 0)).releaseUnderlying underlying contract =
      (u.releaseUnderlying underlying contract).underRelease (.afterSteps 0) := by
  have hget : (u.underRelease (.afterSteps 0)).get? underlying = u.get? underlying := rfl
  unfold releaseUnderlying
  rw [hget]
  cases hlookup : u.get? underlying with
  | none => rfl
  | some s =>
      have hrecord : u.record underlying = s := by simp [record, hlookup]
      rw [hrecord] at hhold
      have hleave : leave (u.underRelease (.afterSteps 0)).release contract s =
          leave u.release contract s := by
        rw [hrelease]
        exact leave_afterSteps_zero hhold
      simp only [hleave]
      rfl

/-- A removal from linked records does the same without a hold and with a hold of no
resolution. -/
theorem Linked.removeInstrument_underRelease {u : Universe} (h : u.Linked)
    (hrelease : u.release = .withContract) (symbol : Symbol) :
    (u.underRelease (.afterSteps 0)).removeInstrument symbol =
      (u.removeInstrument symbol).map (underRelease (.afterSteps 0)) := by
  have hget : (u.underRelease (.afterSteps 0)).get? symbol = u.get? symbol := rfl
  unfold Universe.removeInstrument
  rw [hget]
  cases u.get? symbol with
  | none => rfl
  | some s =>
      cases hunderlying : symbol.underlying? with
      | none => rfl
      | some underlying =>
          let cleared := u.keepMember symbol { s with manual := false, holdSteps := 0 }
          have hrecord : cleared.record underlying = u.record underlying := by
            rw [record_keepMember, if_neg (Symbol.ne_of_underlying? hunderlying).symm]
          refine congrArg Except.ok (releaseUnderlying_underRelease (u := cleared) hrelease ?_)
          rw [hrecord]
          exact h.holdSteps_eq_zero

/-- A resolution does the same under every policy. -/
theorem resolve_underRelease (π : UnderlyingRelease) (u : Universe) (now : Instant)
    (selector : Selector) (state : selector.State) :
    (u.underRelease π).resolve now selector state =
      ((u.resolve now selector state).1, (u.resolve now selector state).2.1.underRelease π,
        (u.resolve now selector state).2.2) := by
  have hselection : (u.underRelease π).selection now selector state =
      ((u.selection now selector state).1,
        (u.selection now selector state).2.1.underRelease π,
        (u.selection now selector state).2.2) := by
    have hcadence : (u.underRelease π).cadence = u.cadence := rfl
    have hkept : (u.underRelease π).daySelection = u.daySelection := rfl
    unfold selection
    rw [hcadence, hkept]
    cases u.cadence with
    | everyStep => rfl
    | daily => cases u.daySelection.filter fun kept => kept.1 = now.date <;> rfl
  unfold resolve
  rw [hselection]
  rfl

namespace History

/-- The history of a universe with another release policy. -/
def underRelease (π : UnderlyingRelease) (h : History) : History :=
  { h with tracked := h.tracked.underRelease π }

/-- A command that does the same under another policy does so to a history. -/
theorem command_underRelease (π : UnderlyingRelease) (h : History)
    (result : Except UniverseError Universe) :
    (h.underRelease π).command (result.map (Universe.underRelease π)) =
      (h.command result).underRelease π := by
  cases result <;> rfl

/-- An action does the same without a hold and with a hold of no resolution. -/
theorem act_underRelease {h : History} (hlinked : h.tracked.Linked)
    (hrelease : h.tracked.release = .withContract) (a : Action) :
    (h.underRelease (.afterSteps 0)).act a = (h.act a).underRelease (.afterSteps 0) := by
  cases a with
  | resolve now selector state =>
      exact congrArg
        (fun result => (⟨result.2.1, h.announcements ++ [result.1]⟩ : History))
        (resolve_underRelease (.afterSteps 0) h.tracked now selector state)
  | addInstrument symbol =>
      exact (congrArg _ ((underRelease_apart _).addInstrument h.tracked symbol)).trans
        (command_underRelease _ h _)
  | addContract contract =>
      exact (congrArg _ ((underRelease_apart _).addContract h.tracked contract)).trans
        (command_underRelease _ h _)
  | removeInstrument symbol =>
      exact (congrArg _ (hlinked.removeInstrument_underRelease hrelease symbol)).trans
        (command_underRelease _ h _)
  | updatePrices slice => rfl

/-- Actions in turn do the same without a hold and with a hold of no resolution. -/
theorem run_underRelease {h : History} (hlinked : h.tracked.Linked)
    (hrelease : h.tracked.release = .withContract) (actions : List Action) :
    (h.underRelease (.afterSteps 0)).run actions =
      (h.run actions).underRelease (.afterSteps 0) := by
  induction actions generalizing h with
  | nil => rfl
  | cons a rest ih =>
      have hrest := ih (linked_act hlinked a) ((h.release_act a).trans hrelease)
      show ((h.underRelease (.afterSteps 0)).act a).run rest = _
      rw [act_underRelease hlinked hrelease]
      exact hrest

/-- After any actions, take a contract that is the only one on an underlying not subscribed by hand.
It can be removed. After each later resolution, if no action has selected the underlying, subscribed
it or a contract on it, or removed it, the release policy tells from the number of resolutions
between whether the underlying is a data symbol, and the contract is one exactly if it is selected
then. To release an underlying at once and to hold it for no resolution is the same after all
actions. -/
theorem released_in_time (release : UnderlyingRelease) (cadence : SelectionCadence)
    (past : List Action) :
    let h := (start release cadence).run past
    (∀ contract underlying, contract.underlying? = some underlying →
      (∀ c, (h.tracked.record underlying).dependents.contains c ↔ c = contract) →
      (h.tracked.record underlying).manual = false →
      ∃ tracked, h.tracked.removeInstrument contract = .ok tracked ∧
        ∀ during now selector state,
          Untouched ⟨tracked, h.announcements⟩ underlying
            (during ++ [.resolve now selector state]) →
          let before := run ⟨tracked, h.announcements⟩ during
          let resolved := (before.act (.resolve now selector state)).tracked
          (underlying ∈ resolved.dataSymbols ↔ release.holds (resolutions during)) ∧
            (contract ∈ resolved.dataSymbols ↔
              contract ∈ (before.tracked.selection now selector state).1.toList)) ∧
    (start (.afterSteps 0) cadence).run past =
      ((start .withContract cadence).run past).underRelease (.afterSteps 0) := by
  intro h
  have hlinked : h.tracked.Linked := linked_run (linked_start release cadence) past
  have hrelease : h.tracked.release = release := release_run _ past
  refine ⟨fun contract underlying hunderlying hlast hmanual => ?_,
    run_underRelease (h := start .withContract cadence) (linked_start .withContract cadence)
      rfl past⟩
  -- The contract is subscribed by hand, as it is a dependent, so it has a record.
  have hdependent := (hlast contract).2 rfl
  have hmarked := ((hlinked.dependents_iff underlying contract).1 hdependent).2
  have hcontains : h.tracked.contains contract := by
    refine contains_of_isSubscribed ?_
    rw [hlinked.isSubscribed_contract hunderlying]
    exact hmarked
  obtain ⟨tracked, hremove⟩ := exists_removeInstrument hcontains
  refine ⟨tracked, hremove, ?_⟩
  intro during now selector state hkept before resolved
  obtain ⟨hduring, hlater⟩ := untouched_append.1 hkept
  have hreleased : Released release 0 (tracked.record underlying) := by
    rw [record_removeInstrument hremove, if_neg (Symbol.ne_of_underlying? hunderlying).symm,
      if_pos hunderlying, hrelease]
    exact released_leave release hlast hmanual (hlinked.holdSteps_eq_zero hdependent)
  have hbefore := released_run (h := ⟨tracked, h.announcements⟩) hreleased hduring
  have hcontract := unsubscribed_run (h := ⟨tracked, h.announcements⟩) hunderlying
    (record_removed hremove).1 hduring
  have hlinks := linked_run (h := ⟨tracked, h.announcements⟩)
    (hlinked.removeInstrument hremove) during
  have hmember := before.tracked.mem_dataSymbols_resolve now selector state
  refine ⟨(hmember underlying).trans ?_, (hmember contract).trans ?_⟩
  · have hunselected : ¬ underlying ∈ (before.tracked.selection now selector state).1.toList :=
      fun hselected => hlater.1 (SortedSet.mem_toList.1 hselected)
    rw [hbefore.isSubscribed_eq, Nat.zero_add]
    exact or_iff_right hunselected
  · rw [hlinks.isSubscribed_contract hunderlying, hcontract]
    exact or_iff_left Bool.false_ne_true

/-- An underlying on hold for one resolution is a data symbol after the first resolution since its
only option was removed, whatever else is subscribed meanwhile, and none after the second. -/
theorem option_released :
    let twx := Symbol.equity "TWX"
    let call := Symbol.option
      ⟨"TWX", ⟨735404, by decide, by decide⟩, 70000000, .call, .american⟩
    let midnight : Instant := .startOf ⟨735388, by decide, by decide⟩ .daily
    let past := [.resolve midnight (.static [twx]) (), .addContract call]
    let h := (start (.afterSteps 1) .everyStep).run past
    let subscribe := Action.addInstrument (.equity "SPY")
    let resolve := Action.resolve midnight (.static [.equity "QQQ"]) ()
    ∃ tracked, h.tracked.removeInstrument call = .ok tracked ∧
      let first := run ⟨tracked, h.announcements⟩ [subscribe, resolve]
      let second := first.act resolve
      twx ∈ first.tracked.dataSymbols ∧ ¬ call ∈ first.tracked.dataSymbols ∧
        ¬ twx ∈ second.tracked.dataSymbols := by
  intro twx call midnight past h subscribe resolve
  have hlast : ∀ c, (h.tracked.record twx).dependents.contains c ↔ c = call := by
    intro c
    have hdependents : (h.tracked.record twx).dependents = SortedSet.ofList [call] := rfl
    rw [hdependents, SortedSet.contains_ofList]
    simp
  obtain ⟨tracked, hremove, hreleased⟩ :=
    (released_in_time (.afterSteps 1) .everyStep past).1 call twx rfl hlast rfl
  -- Every resolution selects QQQ only, whatever the records, as the selector is asked each time.
  have hselection : ∀ u : Universe, u.cadence = .everyStep →
      (u.selection midnight (.static [.equity "QQQ"]) ()).1 = .ofList [.equity "QQQ"] := by
    intro u hu
    unfold selection
    rw [hu]
    rfl
  have hunselected : ∀ u : Universe, u.cadence = .everyStep → ¬ resolve.Touches u twx := by
    intro u hu hselected
    have hcontains : (u.selection midnight (.static [.equity "QQQ"]) ()).1.contains twx :=
      hselected
    rw [hselection u hu] at hcontains
    exact absurd hcontains (by decide)
  have hother : ¬ (Symbol.equity "SPY" = twx ∨ (Symbol.equity "SPY").underlying? = some twx) := by
    decide
  let before := run ⟨tracked, h.announcements⟩ [subscribe]
  have hbefore : before.tracked.cadence = .everyStep := by
    obtain rfl := Except.ok.inj hremove
    rfl
  have hfirst : (before.act resolve).tracked.cadence = .everyStep := by
    show (before.tracked.resolve midnight (.static [.equity "QQQ"]) ()).2.1.cadence = _
    unfold Universe.resolve selection
    rw [hbefore]
    exact hbefore
  have honce : Untouched ⟨tracked, h.announcements⟩ twx [subscribe, resolve] :=
    ⟨fun hadd => hother hadd.1, hunselected _ hbefore, trivial⟩
  have htwice : Untouched ⟨tracked, h.announcements⟩ twx [subscribe, resolve, resolve] :=
    ⟨fun hadd => hother hadd.1, hunselected _ hbefore, hunselected _ hfirst, trivial⟩
  obtain ⟨htwx, hcall⟩ := hreleased [subscribe] midnight (.static [.equity "QQQ"]) () honce
  have hlater := (hreleased [subscribe, resolve] midnight (.static [.equity "QQQ"]) () htwice).1
  refine ⟨tracked, hremove, htwx.2 rfl, fun hmember => ?_, fun hmember => ?_⟩
  · have hselected := hcall.1 hmember
    rw [hselection _ hbefore] at hselected
    exact absurd hselected (by decide)
  · exact absurd (hlater.1 hmember) (by decide)

end History

end Universe

end MarketReplay
