import MarketReplay.Proofs.Universe.Records

/-!
# Selectors that look at the date only

If the answers of a selector are one set per date (`Selector.Answers`), it makes no difference
whether it is asked at every resolution or once per date: two universes that differ in what is kept
of the selector only (`Session.Twins`) make the same resolutions, and no command looks at it
(`Session.Twins.perform`). So the same is seen of both under any operations.
-/

namespace MarketReplay

namespace Selector

/-- The states that a selector comes to by being asked. -/
inductive Reached (sel : Selector) : sel.State → Prop where
  | initial : Reached sel sel.initial
  | asked {state : sel.State} (now : Instant) (h : Reached sel state) :
      Reached sel (sel.select state now).2

/-- Whether the answer at an instant is a given set of its date, whatever was asked before. -/
def Answers (sel : Selector) (answer : Date → SortedSet Symbol) : Prop :=
  ∀ state, sel.Reached state → ∀ now, SortedSet.ofList (sel.select state now).1 = answer now.date

/-- Whether the answers are one set per date. -/
def ByDate (sel : Selector) : Prop := ∃ answer, sel.Answers answer

/-- What is kept of a selector: how often it is asked, the selection kept for a date, and its own
state. -/
structure Memory (sel : Selector) where
  cadence : SelectionCadence
  kept : Option (Date × SortedSet Symbol)
  state : sel.State

/-- Whether the selection kept for a date is the answer of that date. -/
structure Memory.Recalls {sel : Selector} (m : sel.Memory) (answer : Date → SortedSet Symbol) :
    Prop where
  reached : sel.Reached m.state
  kept_eq : ∀ date selected, m.kept = some (date, selected) → selected = answer date

/-- What is kept of a selector that was never asked. -/
def unasked (sel : Selector) (cadence : SelectionCadence) : sel.Memory :=
  ⟨cadence, none, sel.initial⟩

theorem unasked_recalls (sel : Selector) (cadence : SelectionCadence)
    (answer : Date → SortedSet Symbol) : (sel.unasked cadence).Recalls answer where
  reached := .initial
  kept_eq date selected h := by cases h

end Selector

namespace Universe

variable {sel : Selector} {answer : Date → SortedSet Symbol} {m : sel.Memory}

/-- The universe with what is kept of its selector replaced. -/
def asking (m : sel.Memory) (u : Universe) : Universe :=
  { u with cadence := m.cadence, daySelection := m.kept }

theorem asking_apart (m : sel.Memory) : ApartFromRecords (asking m) :=
  ⟨fun _ => rfl, fun _ _ => rfl⟩

/-- A removal does not look at what is kept of the selector. -/
theorem removeInstrument_asking (m : sel.Memory) (u : Universe) (symbol : Symbol) :
    (u.asking m).removeInstrument symbol = (u.removeInstrument symbol).map (asking m) := by
  have hget : ∀ (v : Universe) q, (v.asking m).get? q = v.get? q := fun _ _ => rfl
  have hrelease : ∀ (v : Universe) (underlying : Symbol),
      (v.asking m).releaseUnderlying underlying symbol =
        (v.releaseUnderlying underlying symbol).asking m := by
    intro v underlying
    unfold releaseUnderlying
    rw [hget]
    cases v.get? underlying <;> rfl
  unfold removeInstrument
  rw [hget]
  cases u.get? symbol with
  | none => rfl
  | some s =>
      cases symbol.underlying? with
      | none => rfl
      | some underlying =>
          exact congrArg Except.ok
            (hrelease (u.keepMember symbol { s with manual := false, holdSteps := 0 }) underlying)

/-- The selection of an instant is the answer of its date, kept or asked for. -/
theorem selection_asking (hanswers : sel.Answers answer) (hm : m.Recalls answer) (now : Instant) :
    ∃ m' : sel.Memory, m'.Recalls answer ∧ ∀ u : Universe,
      (u.asking m).selection now sel m.state = (answer now.date, u.asking m', m'.state) := by
  have hanswer := hanswers m.state hm.reached now
  obtain ⟨cadence, kept, state⟩ := m
  cases cadence with
  | everyStep =>
      refine ⟨⟨.everyStep, kept, _⟩, ⟨.asked now hm.reached, hm.kept_eq⟩, fun u => ?_⟩
      rw [← hanswer]
      rfl
  | daily =>
      cases hfilter : kept.filter fun kept => kept.1 = now.date with
      | some found =>
          obtain ⟨hkept, hdate⟩ := Option.filter_eq_some_iff.1 hfilter
          have hselected : found.2 = answer now.date := by
            rw [← of_decide_eq_true hdate]
            exact hm.kept_eq found.1 found.2 hkept
          refine ⟨⟨.daily, kept, state⟩, hm, fun u => ?_⟩
          simp only [selection, asking, hfilter, hselected]
      | none =>
          refine ⟨⟨.daily, some (now.date, answer now.date), _⟩, ⟨.asked now hm.reached, ?_⟩,
            fun u => ?_⟩
          · rintro date selected heq
            obtain ⟨rfl, rfl⟩ := Prod.mk.inj (Option.some.inj heq)
            rfl
          · simp only [selection, asking, hfilter, hanswer]

/-- A resolution is one to the answer of its date, kept or asked for. -/
theorem resolve_asking (hanswers : sel.Answers answer) (hm : m.Recalls answer) (now : Instant) :
    ∃ m' : sel.Memory, m'.Recalls answer ∧ ∀ u : Universe,
      (u.asking m).resolve now sel m.state =
        ((u.resolveTo (answer now.date)).1, (u.resolveTo (answer now.date)).2.asking m',
          m'.state) := by
  obtain ⟨m', hm', hselection⟩ := selection_asking hanswers hm now
  refine ⟨m', hm', fun u => ?_⟩
  unfold resolve
  rw [hselection]
  rfl

end Universe

/-! ### Sessions -/

/-- An operation on a universe with a selector. -/
inductive Operation where
  | resolve (now : Instant)
  | addInstrument (symbol : Symbol)
  | addContract (contract : Symbol)
  | removeInstrument (symbol : Symbol)
  | updatePrices (slice : DataSlice)

/-- A universe with the state of the selector that it asks. -/
structure Session (sel : Selector) where
  tracked : Universe
  selector : sel.State

/-- What is seen of an operation: the changes of a resolution or the error of a command, and the
records and data symbols after it. -/
structure Observation where
  reply : Except UniverseError (Option Changes)
  securities : SortedMap Symbol Security
  dataSymbols : List Symbol

namespace Session

variable {sel : Selector}

/-- The session before the first operation. -/
def start (sel : Selector) (release : UnderlyingRelease) (cadence : SelectionCadence) :
    Session sel :=
  ⟨.start release cadence, sel.initial⟩

/-- The session after a command, which may be refused. -/
def command (s : Session sel) :
    Except UniverseError Universe → Except UniverseError (Option Changes) × Session sel
  | .error e => (.error e, s)
  | .ok tracked => (.ok none, { s with tracked })

/-- The reply to an operation and the session after it. -/
def perform (s : Session sel) : Operation → Except UniverseError (Option Changes) × Session sel
  | .resolve now =>
    let (changes, tracked, selector) := s.tracked.resolve now sel s.selector
    (.ok (some changes), ⟨tracked, selector⟩)
  | .addInstrument symbol => s.command (s.tracked.addInstrument symbol)
  | .addContract contract => s.command (s.tracked.addContract contract)
  | .removeInstrument symbol => s.command (s.tracked.removeInstrument symbol)
  | .updatePrices slice => (.ok none, { s with tracked := s.tracked.updatePrices slice })

/-- What is seen of operations in turn. -/
def observations : List Operation → Session sel → List Observation
  | [], _ => []
  | op :: rest, s =>
    let s' := (s.perform op).2
    ⟨(s.perform op).1, s'.tracked.securities, s'.tracked.dataSymbols⟩ :: observations rest s'

/-- The session of a universe with what is kept of its selector. -/
def asking (m : sel.Memory) (u : Universe) : Session sel := ⟨u.asking m, m.state⟩

/-- Whether two sessions differ in nothing but what is kept of the selector, and both recall given
answers. -/
def Twins (answer : Date → SortedSet Symbol) (s s' : Session sel) : Prop :=
  ∃ (u : Universe) (m m' : sel.Memory),
    s = asking m u ∧ s' = asking m' u ∧ m.Recalls answer ∧ m'.Recalls answer

variable {answer : Date → SortedSet Symbol} {s s' : Session sel}

theorem twins_start (answer : Date → SortedSet Symbol) (release : UnderlyingRelease)
    (cadence cadence' : SelectionCadence) :
    Twins answer (start sel release cadence) (start sel release cadence') :=
  ⟨.start release cadence, sel.unasked cadence, sel.unasked cadence', rfl, rfl,
    sel.unasked_recalls cadence answer, sel.unasked_recalls cadence' answer⟩

/-- A command that does not look at what is kept of the selector is accepted or refused for both. -/
theorem Twins.command (h : Twins answer s s') {f : Universe → Except UniverseError Universe}
    (hf : ∀ (m : sel.Memory) u, f (u.asking m) = (f u).map (Universe.asking m)) :
    (s.command (f s.tracked)).1 = (s'.command (f s'.tracked)).1 ∧
      Twins answer (s.command (f s.tracked)).2 (s'.command (f s'.tracked)).2 := by
  obtain ⟨u, m, m', rfl, rfl, hm, hm'⟩ := h
  simp only [asking, hf]
  cases f u with
  | error e => exact ⟨rfl, u, m, m', rfl, rfl, hm, hm'⟩
  | ok v => exact ⟨rfl, v, m, m', rfl, rfl, hm, hm'⟩

/-- The same resolution is made for both. -/
theorem Twins.resolve (hanswers : sel.Answers answer) (h : Twins answer s s') (now : Instant) :
    (s.perform (.resolve now)).1 = (s'.perform (.resolve now)).1 ∧
      Twins answer (s.perform (.resolve now)).2 (s'.perform (.resolve now)).2 := by
  obtain ⟨u, m, m', rfl, rfl, hm, hm'⟩ := h
  obtain ⟨left, hleft, hresolve⟩ := Universe.resolve_asking hanswers hm now
  obtain ⟨right, hright, hresolve'⟩ := Universe.resolve_asking hanswers hm' now
  simp only [perform, asking, hresolve u, hresolve' u, true_and]
  exact ⟨_, left, right, rfl, rfl, hleft, hright⟩

/-- An operation gives the same reply to both, and leaves twins. -/
theorem Twins.perform (hanswers : sel.Answers answer) (h : Twins answer s s') (op : Operation) :
    (s.perform op).1 = (s'.perform op).1 ∧ Twins answer (s.perform op).2 (s'.perform op).2 := by
  cases op with
  | resolve now => exact h.resolve hanswers now
  | addInstrument symbol =>
      exact h.command (f := fun u => u.addInstrument symbol) fun m u =>
        (Universe.asking_apart m).addInstrument u symbol
  | addContract contract =>
      exact h.command (f := fun u => u.addContract contract) fun m u =>
        (Universe.asking_apart m).addContract u contract
  | removeInstrument symbol =>
      exact h.command (f := fun u => u.removeInstrument symbol) fun m u =>
        u.removeInstrument_asking m symbol
  | updatePrices slice =>
      obtain ⟨u, m, m', rfl, rfl, hm, hm'⟩ := h
      exact ⟨rfl, u.updatePrices slice, m, m', rfl, rfl, hm, hm'⟩

/-- The same is seen of twins under any operations. -/
theorem Twins.observations_eq (hanswers : sel.Answers answer) (h : Twins answer s s')
    (ops : List Operation) : observations ops s = observations ops s' := by
  induction ops generalizing s s' with
  | nil => rfl
  | cons op rest ih =>
      obtain ⟨hreply, hnext⟩ := h.perform hanswers op
      have hrest := ih hnext
      obtain ⟨u, m, m', hs, hs', -, -⟩ := hnext
      rw [observations, observations, hreply, hrest, hs, hs']
      rfl

end Session

end MarketReplay
