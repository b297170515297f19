import MarketReplay.Proofs.Universe.Records

/-!
# What a universe announces

A history is a universe with the changes that its resolutions announced, under any sequence of
actions. Each resolution announces the difference of memberships (`get?_resolve`), so the
announcements of a symbol take turns, and their count tells whether it is a member
(`History.Tracks`, kept by every action). Merging the announcements two by two, in any bracketing,
keeps the last one of each symbol (`Bracketing.get?_merged`).
-/

namespace MarketReplay

/-- What happens to a symbol that was or was not a member, and now is or is not. -/
def Change.between : (before after : Bool) → Option Change
  | false, true => some .added
  | true, false => some .removed
  | _, _ => none

/-- The first `n` of additions and removals in turn, an addition first. -/
def Change.turns (n : Nat) : List Change :=
  (List.range n).map fun i => if i % 2 = 0 then .added else .removed

theorem Change.length_turns (n : Nat) : (turns n).length = n := by simp [turns]

theorem Change.turns_succ (n : Nat) :
    turns (n + 1) = turns n ++ [if n % 2 = 0 then .added else .removed] := by
  simp [turns, List.range_succ]

/-- The last of an odd number of turns is an addition, that of an even number is a removal. -/
theorem Change.getLast?_turns (n : Nat) :
    (turns n).getLast? =
      if n = 0 then none else some (if n % 2 = 1 then .added else .removed) := by
  cases n with
  | zero => rfl
  | succ n =>
      rw [turns_succ, List.getLast?_concat]
      rcases Nat.mod_two_eq_zero_or_one n with h | h
      · have hnext : (n + 1) % 2 = 1 := by omega
        simp [h, hnext]
      · have hnext : (n + 1) % 2 = 0 := by omega
        simp [h, hnext]

/-- An addition is among the turns unless there are none. -/
theorem Change.added_mem_turns {n : Nat} : Change.added ∈ turns n ↔ n ≠ 0 := by
  constructor
  · rintro h rfl
    cases h
  · intro h
    exact List.mem_map.2 ⟨0, List.mem_range.2 (Nat.pos_of_ne_zero h), rfl⟩

/-- What happens to a symbol after a number of turns is the next turn, or nothing. -/
theorem Change.turns_between (n : Nat) (after : Bool) :
    ∃ m, turns n ++ (between (decide (n % 2 = 1)) after).toList = turns m ∧
      after = decide (m % 2 = 1) := by
  rcases Nat.mod_two_eq_zero_or_one n with hn | hn
  · cases after with
    | false => exact ⟨n, by simp [hn, between], by simp [hn]⟩
    | true =>
        have hnext : (n + 1) % 2 = 1 := by omega
        exact ⟨n + 1, by simp [turns_succ, hn, between], by simp [hnext]⟩
  · cases after with
    | true => exact ⟨n, by simp [hn, between], by simp [hn]⟩
    | false =>
        have hnext : (n + 1) % 2 = 0 := by omega
        exact ⟨n + 1, by simp [turns_succ, hn, between], by simp [hnext]⟩

namespace Changes

/-- The entries of a symbol in changes, in their order. -/
def told (announcements : List Changes) (s : Symbol) : List Change :=
  announcements.filterMap fun c => c.entries.get? s

theorem told_append (earlier later : List Changes) (s : Symbol) :
    told (earlier ++ later) s = told earlier s ++ told later s :=
  List.filterMap_append

theorem told_concat (announcements : List Changes) (c : Changes) (s : Symbol) :
    told (announcements ++ [c]) s = told announcements s ++ (c.entries.get? s).toList := by
  rw [told_append]
  cases hentry : c.entries.get? s <;> simp [told, hentry]

/-- A symbol was announced as added if some of the changes says so. -/
theorem added_mem_told {announcements : List Changes} {s : Symbol} :
    Change.added ∈ told announcements s ↔ ∃ c ∈ announcements, c.isAdded s := by
  unfold told isAdded
  rw [List.mem_filterMap]
  exact exists_congr fun c => and_congr_right fun _ => beq_iff_eq.symm

/-- Changes merged in turn over earlier ones keep the last entry of each symbol. -/
theorem get?_foldl_merge (announcements : List Changes) (earlier : Changes) (s : Symbol) :
    (announcements.foldl merge earlier).entries.get? s =
      (told announcements s).getLast?.or (earlier.entries.get? s) := by
  induction announcements generalizing earlier with
  | nil => rfl
  | cons c rest ih =>
      have htold : told (c :: rest) s = (c.entries.get? s).toList ++ told rest s := by
        unfold told
        cases hentry : c.entries.get? s <;> simp [hentry]
      rw [List.foldl_cons, ih, get?_merge, htold, List.getLast?_append, ← Option.or_assoc]
      cases c.entries.get? s <;> rfl

end Changes

/-- A way to merge changes two by two. -/
inductive Bracketing where
  | none
  | single (changes : Changes)
  | both (earlier later : Bracketing)

namespace Bracketing

/-- The changes that are merged, the earliest first. -/
def parts : Bracketing → List Changes
  | none => []
  | single changes => [changes]
  | both earlier later => earlier.parts ++ later.parts

/-- The changes merged as the bracketing says. -/
def merged : Bracketing → Changes
  | none => .none
  | single changes => changes
  | both earlier later => earlier.merged.merge later.merged

/-- Whatever the bracketing, the last entry of each symbol is kept. -/
theorem get?_merged (t : Bracketing) (s : Symbol) :
    t.merged.entries.get? s = (Changes.told t.parts s).getLast? := by
  induction t with
  | none => rfl
  | single changes =>
      unfold merged parts Changes.told
      cases hentry : changes.entries.get? s <;> simp [hentry]
  | both earlier later ihe ihl =>
      rw [merged, parts, Changes.get?_merge, Changes.told_append, List.getLast?_append, ihe, ihl]

end Bracketing

namespace Universe

/-- A resolution announces the difference between the memberships before and after it. -/
theorem get?_resolve (u : Universe) (now : Instant) (selector : Selector) (state : selector.State)
    (q : Symbol) :
    (u.resolve now selector state).1.entries.get? q =
      Change.between (u.announced.contains q)
        ((u.resolve now selector state).2.1.announced.contains q) := by
  let selected := (u.selection now selector state).1
  let asked := (u.selection now selector state).2.1
  let members := (asked.resolveTo selected).2.announced
  have hbefore : asked.announced = u.announced := (u.selection_keeps now selector state).2.1
  show (Changes.ofLists (SortedSet.diff members asked.announced).toList
    (SortedSet.diff asked.announced members).toList).entries.get? q =
      Change.between (u.announced.contains q) (members.contains q)
  rw [Changes.get?_ofLists, hbefore]
  simp only [SortedSet.mem_toList, SortedSet.contains_diff]
  cases u.announced.contains q <;> cases members.contains q <;> rfl

/-- A universe, a selection and the changes that a resolution to it announces, and the universe
after it. Its members are the records that are selected, subscribed by hand, kept by a contract, or
were on hold when it began; the changes are the difference to the members before. -/
structure Resolved (u : Universe) (selected : SortedSet Symbol) (changes : Changes)
    (u' : Universe) : Prop where
  members : ∀ s, s ∈ u'.dataSymbols ↔ u'.contains s ∧
    (s ∈ selected.toList ∨ (u'.record s).manual ∨
      (∃ contract, (u'.record s).dependents.contains contract) ∨ 0 < (u.record s).holdSteps)
  added : ∀ s, s ∈ changes.added ↔ s ∈ u'.dataSymbols ∧ s ∉ u.dataSymbols
  removed : ∀ s, s ∈ changes.removed ↔ s ∈ u.dataSymbols ∧ s ∉ u'.dataSymbols

/-- A record is subscribed by hand, by a contract on it, or while it is on hold. -/
theorem isSubscribed_iff (s : Security) : s.isSubscribed ↔
    s.manual ∨ (∃ contract, s.dependents.contains contract) ∨ 0 < s.holdSteps := by
  rw [← SortedMap.isEmpty_eq_false_iff]
  simp [Security.isSubscribed, or_assoc]

/-- Every resolution announces its members and changes. -/
theorem resolve_resolved (u : Universe) (now : Instant) (selector : Selector)
    (state : selector.State) :
    u.Resolved (u.selection now selector state).1 (u.resolve now selector state).1
      (u.resolve now selector state).2.1 := by
  refine ⟨fun s => ?_, fun s => ?_, fun s => ?_⟩
  · have hrecord := u.record_resolve now selector state s
    have hcontains := u.contains_resolve now selector state s
    rw [mem_dataSymbols_resolve, hrecord, hcontains, isSubscribed_iff, SortedSet.mem_toList,
      Bool.or_eq_true]
    constructor
    · rintro (hselected | hsubscribed)
      · exact ⟨.inl hselected, .inl hselected⟩
      · have hcontains := contains_of_isSubscribed ((isSubscribed_iff _).2 hsubscribed)
        exact ⟨.inr hcontains, .inr hsubscribed⟩
    · exact And.right
  · rw [Changes.added, Changes.mem_symbolsOf, get?_resolve, dataSymbols, dataSymbols,
      SortedSet.mem_toList, SortedSet.mem_toList]
    cases u.announced.contains s <;>
      cases (u.resolve now selector state).2.1.announced.contains s <;> simp [Change.between]
  · rw [Changes.removed, Changes.mem_symbolsOf, get?_resolve, dataSymbols, dataSymbols,
      SortedSet.mem_toList, SortedSet.mem_toList]
    cases u.announced.contains s <;>
      cases (u.resolve now selector state).2.1.announced.contains s <;> simp [Change.between]

/-- What is done to a universe. -/
inductive Action where
  | resolve (now : Instant) (selector : Selector) (state : selector.State)
  | addInstrument (symbol : Symbol)
  | addContract (contract : Symbol)
  | removeInstrument (symbol : Symbol)
  | updatePrices (slice : DataSlice)

/-- A universe and what its resolutions announced, the first one first. -/
structure History where
  tracked : Universe
  announcements : List Changes

namespace History

/-- The history of a universe without securities. -/
def start (release : UnderlyingRelease) (cadence : SelectionCadence) : History :=
  ⟨.start release cadence, []⟩

/-- The history after a command; a refused one leaves it alone. -/
def command (h : History) : Except UniverseError Universe → History
  | .error _ => h
  | .ok tracked => { h with tracked }

/-- The history after an action. -/
def act (h : History) : Action → History
  | .resolve now selector state =>
    let (changes, tracked, _) := h.tracked.resolve now selector state
    ⟨tracked, h.announcements ++ [changes]⟩
  | .addInstrument symbol => h.command (h.tracked.addInstrument symbol)
  | .addContract contract => h.command (h.tracked.addContract contract)
  | .removeInstrument symbol => h.command (h.tracked.removeInstrument symbol)
  | .updatePrices slice => { h with tracked := h.tracked.updatePrices slice }

/-- The history after actions in turn. -/
def run (h : History) (actions : List Action) : History := actions.foldl act h

/-- What holds of a universe before a command, and after it if it is accepted, holds after it. -/
theorem of_command {P : Universe → Prop} {h : History} (hbefore : P h.tracked)
    {result : Except UniverseError Universe}
    (hresult : ∀ tracked, result = .ok tracked → P tracked) : P (h.command result).tracked := by
  cases result with
  | error e => exact hbefore
  | ok tracked => exact hresult tracked rfl

/-- What was told of a symbol takes turns, and it is a member if the last was an addition. -/
def Tracks (h : History) : Prop :=
  ∀ q, ∃ n, Changes.told h.announcements q = Change.turns n ∧
    h.tracked.announced.contains q = decide (n % 2 = 1)

/-- Without announcements there are no members. -/
theorem tracks_start (release : UnderlyingRelease) (cadence : SelectionCadence) :
    (start release cadence).Tracks := fun _ => ⟨0, rfl, rfl⟩

/-- A command that announces nothing keeps track. -/
theorem Tracks.command {h : History} (hh : h.Tracks) {result : Except UniverseError Universe}
    (hresult : ∀ tracked, result = .ok tracked → tracked.announced = h.tracked.announced) :
    (h.command result).Tracks := by
  cases result with
  | error e => exact hh
  | ok tracked =>
      intro q
      obtain ⟨n, htold, hmember⟩ := hh q
      refine ⟨n, htold, ?_⟩
      show tracked.announced.contains q = _
      rw [hresult tracked rfl]
      exact hmember

/-- A resolution keeps track: it tells of a symbol exactly when its membership turns. -/
theorem Tracks.resolve {h : History} (hh : h.Tracks) (now : Instant) (selector : Selector)
    (state : selector.State) : (h.act (.resolve now selector state)).Tracks := by
  intro q
  obtain ⟨n, htold, hmember⟩ := hh q
  have hentry := h.tracked.get?_resolve now selector state q
  rw [hmember] at hentry
  obtain ⟨m, hturns, hafter⟩ := Change.turns_between n
    ((h.tracked.resolve now selector state).2.1.announced.contains q)
  refine ⟨m, ?_, hafter⟩
  show Changes.told (h.announcements ++ [(h.tracked.resolve now selector state).1]) q = _
  rw [Changes.told_concat, htold, hentry, hturns]

/-- Every action keeps track. -/
theorem Tracks.act {h : History} (hh : h.Tracks) (a : Action) : (h.act a).Tracks := by
  cases a with
  | resolve now selector state => exact hh.resolve now selector state
  | addInstrument symbol => exact hh.command fun _ => announced_addInstrument
  | addContract contract => exact hh.command fun _ => announced_addContract
  | removeInstrument symbol => exact hh.command fun _ => announced_removeInstrument
  | updatePrices slice => exact hh

/-- Every sequence of actions keeps track. -/
theorem Tracks.run {h : History} (hh : h.Tracks) (actions : List Action) :
    (h.run actions).Tracks := by
  induction actions generalizing h with
  | nil => exact hh
  | cons a rest ih => exact ih (hh.act a)

/-- The announcements combined tell of the members as added, and of the other symbols that were ever
added as removed. -/
theorem Tracks.combined {h : History} (hh : h.Tracks) {combined : Changes}
    (hlast : ∀ s, combined.entries.get? s = (Changes.told h.announcements s).getLast?)
    (s : Symbol) :
    (combined.isAdded s ↔ s ∈ h.tracked.dataSymbols) ∧
      (combined.isRemoved s ↔
        s ∉ h.tracked.dataSymbols ∧ ∃ c ∈ h.announcements, c.isAdded s) := by
  obtain ⟨n, htold, hmember⟩ := hh s
  have hdata : s ∈ h.tracked.dataSymbols ↔ n % 2 = 1 := by
    unfold dataSymbols
    rw [SortedSet.mem_toList, hmember, decide_eq_true_eq]
  have hentry : combined.entries.get? s =
      if n = 0 then none else some (if n % 2 = 1 then .added else .removed) := by
    rw [hlast, htold, Change.getLast?_turns]
  rw [← Changes.added_mem_told, htold, Change.added_mem_turns, hdata, Changes.isAdded,
    Changes.isRemoved, hentry]
  by_cases hzero : n = 0
  · subst hzero
    simp
  · rcases Nat.mod_two_eq_zero_or_one n with heven | hodd
    · simp [hzero, heven]
    · simp [hzero, hodd]

end History

end Universe

end MarketReplay
