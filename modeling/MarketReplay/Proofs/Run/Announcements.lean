import MarketReplay.Proofs.Run.NoLookAhead
import MarketReplay.Proofs.Universe.History

/-!
# Announcements of members

After any actions on a universe its announcements name exactly its members
(`Universe.History.members_announced`). In the journal of a run a slice holds only symbols that the
strategy was last told of as added (`AnnouncedFirst`). What carries this through a run is that the
changes told so far name exactly the members (`Journaled`): a resolution is told before the slice is
given, and no command changes the members.
-/

namespace MarketReplay

/-! ### Members and commands -/

/-- A subscription command announces nothing. -/
theorem Universe.Subscribed.announced_eq {u u' : Universe} (h : u.Subscribed u') :
    u'.announced = u.announced := by
  obtain ⟨symbol, hadd | hadd | hremove⟩ := h
  · exact announced_addInstrument hadd
  · exact announced_addContract hadd
  · exact announced_removeInstrument hremove

/-- Programs announce nothing. -/
theorem Program.run_announced {κ α : Type} (now : Instant) (p : Program κ α) (k : Kernel κ) :
    (p.run now k).2.tracked.announced = k.tracked.announced := by
  induction p generalizing k with
  | done a => rfl
  | perform c resume ih =>
      have hcommand : (c.execute now k).2.tracked.announced = k.tracked.announced := by
        rcases c.execute_tracked now k with hkept | hsubscribed
        · rw [hkept]
        · exact hsubscribed.announced_eq
      exact (ih _ _).trans hcommand

/-- A slice has quotes of requested symbols only. -/
theorem Feed.contains_collect (f : Feed) (slice : DataSlice) (symbols : List Symbol) {s : Symbol}
    (h : (f.collect slice symbols).1.contains s) : slice.contains s ∨ s ∈ symbols := by
  induction symbols generalizing f slice with
  | nil => exact .inl h
  | cons symbol rest ih =>
      rw [collect_cons] at h
      rcases ih _ _ h with hslice | hrest
      · unfold DataSlice.contains SortedMap.contains at hslice ⊢
        have hquote := get?_withQuote slice symbol s (f.request symbol slice.instant.time).1
        unfold DataSlice.get? at hquote
        by_cases hs : s = symbol
        · exact .inr (hs ▸ List.mem_cons_self)
        · rw [hquote, if_neg hs] at hslice
          exact .inl hslice
      · exact .inr (List.mem_cons_of_mem _ hrest)

/-! ### Journals -/

section Journals

variable {κ : Type}

namespace JournalEntry

/-- The changes that the strategy was told with a callback. -/
def announcement? (entry : JournalEntry κ) : Option Changes :=
  match entry.occasion with
  | .changes changes => some changes
  | _ => none

/-- The slice that the strategy was given with a callback. -/
def slice? (entry : JournalEntry κ) : Option DataSlice :=
  match entry.occasion with
  | .data slice => some slice
  | _ => none

end JournalEntry

/-- What the strategy was told of a symbol. -/
def toldIn (journal : List (JournalEntry κ)) (s : Symbol) : List Change :=
  Changes.told (journal.filterMap JournalEntry.announcement?) s

/-- Whether a symbol was last told of as added whenever a slice has its quote. -/
def AnnouncedFirst (journal : List (JournalEntry κ)) : Prop :=
  ∀ front entry back, journal = front ++ entry :: back →
    ∀ slice, entry.slice? = some slice →
    ∀ s, slice.contains s → (toldIn front s).getLast? = some .added

/-- Whether the symbols last told of as added are the members, and were when slices were given. -/
structure Journaled (journal : List (JournalEntry κ)) (members : SortedSet Symbol) : Prop where
  told_iff : ∀ s, (toldIn journal s).getLast? = some .added ↔ members.contains s
  announcedFirst : AnnouncedFirst journal

variable {journal : List (JournalEntry κ)} {members : SortedSet Symbol}

/-- One more callback tells of a symbol what its changes say, if it has some. -/
theorem toldIn_concat (journal : List (JournalEntry κ)) (entry : JournalEntry κ) (s : Symbol) :
    toldIn (journal ++ [entry]) s =
      toldIn journal s ++ (entry.announcement?.bind fun c => c.entries.get? s).toList := by
  unfold toldIn
  rw [List.filterMap_append]
  cases hchanges : entry.announcement? with
  | none => simp [hchanges]
  | some changes =>
      have hone : [entry].filterMap JournalEntry.announcement? = [changes] := by simp [hchanges]
      rw [hone, Changes.told_concat]
      rfl

/-- A callback whose slice has quotes of members only comes after their announcements. -/
theorem Journaled.announcedFirst_concat (h : Journaled journal members) {entry : JournalEntry κ}
    (hentry : ∀ slice, entry.slice? = some slice → ∀ s, slice.contains s → members.contains s) :
    AnnouncedFirst (journal ++ [entry]) := by
  intro front e back hsplit slice hslice s hs
  rcases split_concat hsplit with ⟨rfl, rfl⟩ | ⟨init, -, hjournal⟩
  · exact (h.told_iff s).2 (hentry slice hslice s hs)
  · exact h.announcedFirst front e init hjournal slice hslice s hs

/-- A callback that tells of no changes leaves the members as told. -/
theorem Journaled.concat (h : Journaled journal members) {entry : JournalEntry κ}
    (hquiet : entry.announcement? = none)
    (hentry : ∀ slice, entry.slice? = some slice → ∀ s, slice.contains s → members.contains s) :
    Journaled (journal ++ [entry]) members := by
  refine ⟨fun s => ?_, h.announcedFirst_concat hentry⟩
  rw [toldIn_concat, hquiet]
  simpa using h.told_iff s

/-- Once the strategy is told how the members change, the new members are as told. -/
theorem Journaled.concat_changes (h : Journaled journal members) {entry : JournalEntry κ}
    {changes : Changes} (hchanges : entry.announcement? = some changes)
    (hnone : entry.slice? = none) {members' : SortedSet Symbol}
    (hbetween : ∀ s, changes.entries.get? s =
      Change.between (members.contains s) (members'.contains s)) :
    Journaled (journal ++ [entry]) members' := by
  refine ⟨fun s => ?_, h.announcedFirst_concat (by simp [hnone])⟩
  have htold := h.told_iff s
  rw [toldIn_concat, hchanges, Option.bind_some, hbetween]
  cases hbefore : members.contains s <;> cases hafter : members'.contains s <;>
    simp [Change.between, htold, hbefore]

end Journals

/-! ### Steps -/

namespace RunState

variable {S : Strategy} {sel : Selector}

/-- Whether the journal of a state has announced its members. -/
def Announced (r : RunState S.journaled sel) : Prop :=
  Journaled r.strategy.2 r.kernel.tracked.announced

/-- A journaled callback adds its record to the journal and announces nothing. -/
theorem call_journaled (r : RunState S.journaled sel) (now : Instant) (label : String)
    (occasion : Occasion S.Code) (program : S.State → Program S.Code (Outcome S.State)) :
    ∃ exchanges error,
      (r.call now label fun state => (program state.1).journaled occasion state.2).1.strategy.2 =
        r.strategy.2 ++ [⟨now, occasion, exchanges, error⟩] ∧
      (r.call now label fun state => (program state.1).journaled occasion
        state.2).1.kernel.tracked.announced = r.kernel.tracked.announced := by
  let p := program r.strategy.1
  let logged := (p.logged []).run now r.kernel
  have hrun := p.run_journaled occasion r.strategy.2 now r.kernel
  refine ⟨logged.1.2, logged.1.1.error, ?_, Program.run_announced now _ r.kernel⟩
  exact congrArg (fun result => result.1.state.2) hrun

/-- A callback that is told of nothing keeps the members announced. -/
theorem Announced.call {r : RunState S.journaled sel} (h : r.Announced) (now : Instant)
    (label : String) {occasion : Occasion S.Code}
    (program : S.State → Program S.Code (Outcome S.State))
    (hquiet : ∀ exchanges error,
      (⟨now, occasion, exchanges, error⟩ : JournalEntry S.Code).announcement? = none)
    (hentry : ∀ slice, occasion = .data slice →
      ∀ s, slice.contains s → r.kernel.tracked.announced.contains s) :
    (r.call now label fun state =>
      (program state.1).journaled occasion state.2).1.Announced := by
  obtain ⟨exchanges, error, hjournal, hannounced⟩ := r.call_journaled now label occasion program
  unfold Announced
  rw [hjournal, hannounced]
  refine Journaled.concat h (hquiet exchanges error) fun slice hslice => ?_
  cases occasion with
  | data given => exact hentry slice (congrArg Occasion.data (Option.some.inj hslice))
  | start | changes | event | scheduled | callback => cases hslice

/-- Once the strategy is told of the changes of a resolution, the members are announced; where
there are none, they are announced without. -/
theorem notifyChanges_announced {r : RunState S.journaled sel} {members : SortedSet Symbol}
    (h : Journaled r.strategy.2 members) (now : Instant) {changes : Changes}
    (hbetween : ∀ s, changes.entries.get? s =
      Change.between (members.contains s) (r.kernel.tracked.announced.contains s)) :
    (r.notifyChanges now changes).1.Announced ∧
      (r.notifyChanges now changes).1.kernel.tracked.announced = r.kernel.tracked.announced := by
  unfold notifyChanges
  by_cases hempty : changes.isEmpty
  · rw [if_pos hempty]
    -- Nothing has changed, so what was told is still so.
    have hsame : ∀ s, members.contains s = r.kernel.tracked.announced.contains s := by
      intro s
      have hentry := hbetween s
      rw [Changes.isEmpty_iff.1 hempty s] at hentry
      cases hbefore : members.contains s <;>
        cases hafter : r.kernel.tracked.announced.contains s <;>
        simp [Change.between, hbefore, hafter] at hentry ⊢
    exact ⟨⟨fun s => hsame s ▸ h.told_iff s, h.announcedFirst⟩, rfl⟩
  · rw [if_neg hempty]
    obtain ⟨exchanges, error, hjournal, hannounced⟩ :=
      call_journaled { r with merged := r.merged.merge changes } now "on_securities_changed"
        (.changes changes) fun state => S.onSecuritiesChanged state changes
    have hnext : Journaled (r.strategy.2 ++ [⟨now, .changes changes, exchanges, error⟩])
        r.kernel.tracked.announced := h.concat_changes rfl rfl hbetween
    exact ⟨(congrArg₂ Journaled hjournal hannounced).mpr hnext, hannounced⟩

/-- A slice with quotes of members only is given after their announcements. -/
theorem Announced.notifyData {r : RunState S.journaled sel} (h : r.Announced) (now : Instant)
    {slice : DataSlice}
    (hslice : ∀ s, slice.contains s → r.kernel.tracked.announced.contains s) :
    (r.notifyData now slice).1.Announced := by
  unfold RunState.notifyData
  split
  · exact h
  · refine h.call now "on_data" (fun state => S.onData state slice) (fun _ _ => rfl) ?_
    intro given hgiven s hs
    obtain rfl := Occasion.data.inj hgiven
    exact hslice s hs

/-- Changes and slice keep the members announced. -/
theorem notify_announced {r : RunState S.journaled sel} {members : SortedSet Symbol}
    (h : Journaled r.strategy.2 members) (now : Instant) {changes : Changes} {slice : DataSlice}
    (hbetween : ∀ s, changes.entries.get? s =
      Change.between (members.contains s) (r.kernel.tracked.announced.contains s))
    (hslice : ∀ s, slice.contains s → r.kernel.tracked.announced.contains s) :
    (r.notify now changes slice).1.Announced := by
  obtain ⟨hchanges, hkept⟩ := notifyChanges_announced h now hbetween
  unfold notify
  split <;> rename_i hresult <;> rw [hresult] at hchanges hkept
  · exact hchanges
  · exact hchanges.notifyData now (hkept ▸ hslice)

/-- A delivery keeps the members announced. -/
theorem Announced.deliver {r : RunState S.journaled sel} (h : r.Announced) (now : Instant)
    (d : Delivery) : (r.deliver now d).1.Announced := by
  cases d with
  | event e =>
      have hrecorded : Announced { r with delivered := r.delivered ++ [e] } := h
      exact hrecorded.call now "on_order_event" (fun state => S.onOrderEvent state e)
        (fun _ _ => rfl) (fun _ hdata => by cases hdata)
  | fire due =>
      show (r.call now (r.scheduler.label due)
        (Scheduler.fire S.journaled r.scheduler due)).1.Announced
      cases hentry : r.scheduler.entry? due.entry with
      | none =>
          have hidle : Scheduler.fire S.journaled r.scheduler due = Strategy.idle := by
            funext state
            simp only [Scheduler.fire, hentry]
          rw [hidle]
          exact h
      | some entry =>
          have hfire : Scheduler.fire S.journaled r.scheduler due = fun state =>
              S.journaled.onDue state entry.action := by
            funext state
            simp only [Scheduler.fire, hentry]
          rw [hfire]
          cases entry.action with
          | callback code =>
              exact h.call now _ (fun state => S.onCallback state code) (fun _ _ => rfl)
                (fun _ hdata => by cases hdata)
          | named name =>
              exact h.call now _ (fun state => S.onScheduled state name) (fun _ _ => rfl)
                (fun _ hdata => by cases hdata)

/-- Deliveries in turn keep the members announced. -/
theorem Announced.deliverAll (now : Instant) (deliveries : List Delivery)
    {r : RunState S.journaled sel} (h : r.Announced) :
    (deliverAll now deliveries r).1.Announced := by
  induction deliveries generalizing r with
  | nil => exact h
  | cons d rest ih =>
      have hdeliver := h.deliver now d
      rw [RunState.deliverAll]
      split <;> rename_i hresult <;> rw [hresult] at hdeliver
      · exact hdeliver
      · exact ih hdeliver

/-- The market's part of a step announces the change from the members before to those after it,
takes a slice of members only, and calls no one. -/
theorem market_announces (r : RunState S sel) (now : Instant) :
    (∀ s, (r.market now).1.entries.get? s = Change.between (r.kernel.tracked.announced.contains s)
      ((r.market now).2.2.kernel.tracked.announced.contains s)) ∧
    (∀ s, (r.market now).2.1.contains s →
      (r.market now).2.2.kernel.tracked.announced.contains s) ∧
    (r.market now).2.2.strategy = r.strategy := by
  refine ⟨fun s => r.kernel.tracked.get?_resolve now sel r.selector s, fun s hs => ?_, rfl⟩
  rcases Feed.contains_collect _ _ _ hs with hempty | hmember
  · cases hempty
  · exact SortedSet.mem_toList.1 hmember

/-- Every step keeps the members announced. -/
theorem Announced.step {r r' : RunState S.journaled sel} (h : r.Announced) {now : Instant}
    {failure : Option RunFailure} (hstep : r.step now = .ok (r', failure)) : r'.Announced := by
  obtain ⟨hbetween, hslice, hstrategy⟩ := r.market_announces now
  have htold : Journaled (r.market now).2.2.strategy.2 r.kernel.tracked.announced := by
    rw [hstrategy]
    exact h
  have hnotify := notify_announced htold now hbetween hslice
  obtain ⟨q, f, hfailed, -, rfl⟩ | ⟨q, q', hdone, hdispatch, rfl⟩ := step_cases hstep
  · rw [hfailed] at hnotify
    exact hnotify
  · rw [hdone] at hnotify
    obtain ⟨due, scheduler, -, hresult⟩ := dispatch_eq hdispatch
    have hdrained : (q.drained scheduler).Announced := hnotify
    have hdeliver := hdrained.deliverAll now (interleave q.kernel.book.drain.1 due)
    rw [hresult] at hdeliver
    exact hdeliver

/-- An initialized strategy was told of no member, and there is none. -/
theorem launch_announced (S : Strategy) (sel : Selector) (settings : RunSettings)
    (prices : SeriesLookup) (contracts : ContractLookup) (now : Instant) :
    ((start S.journaled sel settings prices contracts).launch now).1.Announced := by
  have hstart : (start S.journaled sel settings prices contracts).Announced := by
    refine ⟨fun s => ?_, fun front entry back hsplit => ?_⟩
    · constructor <;> intro h <;> cases h
    · exact absurd hsplit (by simp [start, Strategy.journaled])
  exact hstart.call now "initialize" S.onStart (fun _ _ => rfl) (fun _ hdata => by cases hdata)

end RunState

namespace Engine

/-- In the journal of a run the symbols of every slice were announced before. -/
theorem journal_announcedFirst {e : Engine} {S : Strategy} {steps : Nat}
    {journal : List (JournalEntry S.Code)} (h : e.journal S steps = .ok journal) :
    AnnouncedFirst journal := by
  unfold Engine.journal at h
  cases hafter : e.after S.journaled steps with
  | error failure =>
      rw [hafter] at h
      cases h
  | ok p =>
      rw [hafter] at h
      obtain rfl := Except.ok.inj h
      have hannounced := after_induction (P := fun _ p => p.state.Announced)
        (RunState.launch_announced S e.selector e.settings e.prices e.contracts _)
        (fun past s hbefore _ hstep => hbefore.step (RunProgress.step_eq hstep).1) hafter
      exact hannounced.announcedFirst

end Engine

/-- Resolutions announce how the members change, whatever is done between them: after each one the
members are as `Universe.Resolved` says. So additions and removals of a symbol are announced in
turn, an addition first, and the announcements combined, one after another or two by two in any
bracketing, name the members as added and the symbols that were once members as removed. In a run
the symbols of every slice given to the strategy were announced before. -/
theorem Universe.History.members_announced (release : UnderlyingRelease)
    (cadence : SelectionCadence) (actions : List Action) :
    let h := (start release cadence).run actions
    (∀ now selector state, ∃ changes tracked,
      h.act (.resolve now selector state) = ⟨tracked, h.announcements ++ [changes]⟩ ∧
      h.tracked.Resolved (h.tracked.selection now selector state).1 changes tracked) ∧
    (∀ s, Changes.told h.announcements s =
      Change.turns (Changes.told h.announcements s).length) ∧
    (∀ combined, combined = h.announcements.foldl Changes.merge .none ∨
        (∃ t : Bracketing, t.parts = h.announcements ∧ combined = t.merged) →
      ∀ s, (combined.isAdded s ↔ s ∈ h.tracked.dataSymbols) ∧
        (combined.isRemoved s ↔
          s ∉ h.tracked.dataSymbols ∧ ∃ c ∈ h.announcements, c.isAdded s)) ∧
    ∀ (e : Engine) (S : Strategy) steps journal, e.journal S steps = .ok journal →
      AnnouncedFirst journal := by
  intro h
  have htracks : h.Tracks := (tracks_start release cadence).run actions
  refine ⟨fun now selector state => ?_, fun s => ?_, fun combined hcombined => ?_,
    fun e S steps journal => Engine.journal_announcedFirst⟩
  · exact ⟨_, _, rfl, h.tracked.resolve_resolved now selector state⟩
  · obtain ⟨n, htold, -⟩ := htracks s
    rw [htold, Change.length_turns]
  · refine htracks.combined fun s => ?_
    rcases hcombined with rfl | ⟨t, hparts, rfl⟩
    · rw [Changes.get?_foldl_merge]
      exact Option.or_none
    · rw [t.get?_merged, hparts]

/-- A symbol is subscribed and then announced. In a run of one step it is announced before the slice
of the step is given. -/
theorem Universe.History.subscription_announced :
    let spy := Symbol.equity "SPY"
    let changes := Changes.ofLists [spy] []
    let h := (start .withContract .everyStep).run
      [.addInstrument spy, .resolve (.startOf RunSettings.sampleStart .daily) (.static []) ()]
    (h.announcements = [changes] ∧ changes.isAdded spy ∧ spy ∈ h.tracked.dataSymbols) ∧
    ∃ journal front entry back slice, Engine.rising.journal Engine.holder 1 = .ok journal ∧
      journal = front ++ entry :: back ∧ entry.slice? = some slice ∧ slice.contains spy ∧
      (toldIn front spy).getLast? = some .added := by
  intro spy changes h
  obtain ⟨-, -, hcombined, hrun⟩ := members_announced .withContract .everyStep
    [.addInstrument spy, .resolve (.startOf RunSettings.sampleStart .daily) (.static []) ()]
  refine ⟨⟨rfl, rfl, ?_⟩, ?_⟩
  · exact ((hcombined changes (.inr ⟨.single changes, rfl, rfl⟩)) spy).1.1 rfl
  · have hthird : ((Engine.rising.journal Engine.holder 1).toOption.bind fun journal =>
        journal[2]?.bind JournalEntry.slice?).map (fun slice => slice.contains spy) =
          some true := by
      decide +kernel
    obtain ⟨slice, hslice, hspy⟩ := Option.map_eq_some_iff.1 hthird
    obtain ⟨journal, hjournal, hentry⟩ := Option.bind_eq_some_iff.1 hslice
    obtain ⟨entry, hentry, hslice⟩ := Option.bind_eq_some_iff.1 hentry
    have hsplit : journal = journal.take 2 ++ entry :: journal.drop 3 := split_getElem? hentry
    have hok : Engine.rising.journal Engine.holder 1 = .ok journal := eq_ok_of_toOption hjournal
    exact ⟨journal, _, entry, _, slice, hok, hsplit, hslice, hspy,
      hrun Engine.rising Engine.holder 1 journal hok _ entry _ hsplit slice hslice spy hspy⟩

end MarketReplay
