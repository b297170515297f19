import MarketReplay.Run

/-!
# The steps of a run

A run is the sequence of the steps it takes, each with the progress before and after it. What holds
before the first step and is kept by each holds after any number of them (`loop_induction`); the
property may speak of the steps taken so far. What one more step can be is said once (`loop_cases`).
-/

namespace MarketReplay

/-- An item with others before and behind it is in the list. -/
theorem mem_of_split {α : Type} {l front back : List α} {x : α} (h : l = front ++ x :: back) :
    x ∈ l := by
  rw [h]
  exact List.mem_append_cons_self

/-- An item with others before and behind it, in a list with a last item, is the last one or stands
in the list without it. -/
theorem split_concat {α : Type} {l front back : List α} {last x : α}
    (h : l ++ [last] = front ++ x :: back) :
    (front = l ∧ x = last) ∨ ∃ init, back = init ++ [last] ∧ l = front ++ x :: init := by
  rcases List.eq_nil_or_concat back with rfl | ⟨init, y, rfl⟩
  · obtain ⟨hfront, hlast⟩ := List.append_inj' h rfl
    exact .inl ⟨hfront.symm, (List.singleton_inj.1 hlast).symm⟩
  · rw [List.concat_eq_append, ← List.cons_append, ← List.append_assoc] at h
    obtain ⟨hinit, hlast⟩ := List.append_inj' h rfl
    obtain rfl := List.singleton_inj.1 hlast
    exact .inr ⟨init, List.concat_eq_append, hinit⟩

/-- An item of a list has those of lower index before it and the others behind it. -/
theorem split_getElem? {α : Type} {l : List α} {n : Nat} {x : α} (h : l[n]? = some x) :
    l = l.take n ++ x :: l.drop (n + 1) := by
  obtain ⟨hlength, hget⟩ := List.getElem?_eq_some_iff.1 h
  rw [← hget, ← List.drop_eq_getElem_cons hlength, List.take_append_drop]

/-- A mapped result is an error if the result is. -/
theorem map_eq_error_iff {ε α β : Type} {f : α → β} {result : Except ε α} {failure : ε} :
    result.map f = .error failure ↔ result = .error failure := by
  cases result with
  | error e => exact ⟨fun h => congrArg Except.error (Except.error.inj h),
      fun h => congrArg Except.error (Except.error.inj h)⟩
  | ok a => exact ⟨nofun, nofun⟩

/-- What has a value is that value. -/
theorem eq_ok_of_toOption {ε α : Type} {result : Except ε α} {value : α}
    (h : result.toOption = some value) : result = .ok value := by
  cases result with
  | error failure => cases h
  | ok other => exact congrArg Except.ok (Option.some.inj h)

/-- The parts of a computation that has a value have values. -/
theorem exists_of_bind_eq_ok {ε α β : Type} {x : Except ε α} {f : α → Except ε β} {b : β}
    (h : x >>= f = .ok b) : ∃ a, x = .ok a ∧ f a = .ok b := by
  cases x with
  | error failure => cases h
  | ok a => exact ⟨a, rfl, h⟩

/-- One step of a run: the progress before it, its instant with what is then left of the clock, and
the progress after it. -/
structure StepTaken (S : Strategy) (sel : Selector) where
  before : RunProgress S sel
  clock : Clock
  now : Instant
  after : RunProgress S sel

/-- The instants of a clock, at most `steps` of them. -/
def Clock.instants : (steps : Nat) → Clock → List Instant
  | 0, _ => []
  | steps + 1, c =>
    match c.advance with
    | (none, _) => []
    | (some now, rest) => now :: instants steps rest

variable {S : Strategy} {sel : Selector}

namespace RunProgress

/-- The steps taken by at most `fuel` steps of a clock. -/
def taken : (fuel : Nat) → Clock → RunProgress S sel → List (StepTaken S sel)
  | 0, _, _ => []
  | fuel + 1, clock, p =>
    if p.failure.isSome then []
    else
      match clock.advance with
      | (none, _) => []
      | (some now, rest) =>
        match p.step rest now with
        | .error _ => []
        | .ok p' => ⟨p, rest, now, p'⟩ :: taken fuel rest p'

/-- A step of a run is a step of its state; unless it fails, the last one of a date samples the
portfolio. -/
theorem step_eq {p p' : RunProgress S sel} {clock : Clock} {now : Instant}
    (h : p.step clock now = .ok p') :
    p.state.step now = .ok (p'.state, p'.failure) ∧ p'.steps = p.steps + 1 ∧
      p'.curve = if p'.failure.isNone && dayEnds clock now.date then
        p.curve ++ [p'.state.equityPoint now.date] else p.curve := by
  unfold step at h
  split at h
  · exact absurd h (by simp)
  · rename_i hstep
    obtain rfl := Except.ok.inj h
    exact ⟨hstep, rfl, rfl⟩
  · rename_i hstep
    obtain rfl := Except.ok.inj h
    exact ⟨hstep, rfl, by simp⟩

/-- A run that has failed, or whose clock has no instant left, takes no further step. -/
theorem loop_stopped {clock : Clock} {p : RunProgress S sel}
    (h : p.failure.isSome ∨ clock.advance.1 = none) (fuel : Nat) :
    loop fuel clock p = .ok p ∧ taken fuel clock p = [] := by
  cases fuel with
  | zero => exact ⟨rfl, rfl⟩
  | succ fuel =>
      rw [loop, taken]
      rcases h with hfailed | hnext
      · rw [if_pos hfailed, if_pos hfailed]
        exact ⟨rfl, rfl⟩
      · cases hadvance : clock.advance with
        | mk next rest =>
            rw [hadvance] at hnext
            obtain rfl : next = none := hnext
            exact ⟨ite_self _, ite_self _⟩

/-- A run that takes a step goes on from the progress after it, with the rest of the clock. -/
theorem loop_stepped {clock rest : Clock} {now : Instant} {p q : RunProgress S sel}
    (hnone : p.failure = none) (hadvance : clock.advance = (some now, rest))
    (hstep : p.step rest now = .ok q) (fuel : Nat) :
    loop (fuel + 1) clock p = loop fuel rest q ∧
      taken (fuel + 1) clock p = ⟨p, rest, now, q⟩ :: taken fuel rest q := by
  have hgoes : ¬ p.failure.isSome := by simp [hnone]
  rw [loop, taken, if_neg hgoes, if_neg hgoes, hadvance]
  simp only [hstep, and_self]

/-- What one more step of a run can be: none, one that an offset out of range breaks off, and one
from which the run goes on. -/
theorem loop_cases (fuel : Nat) (clock : Clock) (p : RunProgress S sel) :
    ((p.failure.isSome ∨ clock.advance.1 = none) ∧ loop (fuel + 1) clock p = .ok p ∧
      taken (fuel + 1) clock p = []) ∨
    ∃ now rest, p.failure = none ∧ clock.advance = (some now, rest) ∧
      ((∃ o, loop (fuel + 1) clock p = .error o ∧ taken (fuel + 1) clock p = []) ∨
        ∃ q, p.step rest now = .ok q ∧ loop (fuel + 1) clock p = loop fuel rest q ∧
          taken (fuel + 1) clock p = ⟨p, rest, now, q⟩ :: taken fuel rest q) := by
  by_cases hstopped : p.failure.isSome ∨ clock.advance.1 = none
  · exact .inl ⟨hstopped, loop_stopped hstopped (fuel + 1)⟩
  · obtain ⟨hgoes, hnext⟩ := not_or.1 hstopped
    have hnone : p.failure = none := Option.not_isSome_iff_eq_none.1 hgoes
    obtain ⟨now, hnow⟩ := Option.ne_none_iff_exists'.1 hnext
    have hadvance : clock.advance = (some now, clock.advance.2) := Prod.ext hnow rfl
    refine .inr ⟨now, _, hnone, hadvance, ?_⟩
    cases hstep : p.step clock.advance.2 now with
    | error o =>
        refine .inl ⟨o, ?_⟩
        rw [loop, taken, if_neg hgoes, if_neg hgoes, hadvance]
        simp only [hstep, and_self]
    | ok q => exact .inr ⟨q, rfl, loop_stepped hnone hadvance hstep fuel⟩

/-- A run that comes to a progress has stopped there, or takes a step and goes on to it. -/
theorem loop_succ {fuel : Nat} {clock : Clock} {p p' : RunProgress S sel}
    (h : loop (fuel + 1) clock p = .ok p') :
    ((p.failure.isSome ∨ clock.advance.1 = none) ∧ p = p' ∧ taken (fuel + 1) clock p = []) ∨
    ∃ now rest q, p.failure = none ∧ clock.advance = (some now, rest) ∧ p.step rest now = .ok q ∧
      loop fuel rest q = .ok p' ∧
      taken (fuel + 1) clock p = ⟨p, rest, now, q⟩ :: taken fuel rest q := by
  rcases loop_cases fuel clock p with ⟨hstopped, hloop, htaken⟩ | ⟨now, rest, hnone, hadvance,
    ⟨o, hloop, -⟩ | ⟨q, hstep, hloop, htaken⟩⟩
  · rw [hloop] at h
    exact .inl ⟨hstopped, Except.ok.inj h, htaken⟩
  · rw [hloop] at h
    cases h
  · rw [hloop] at h
    exact .inr ⟨now, rest, q, hnone, hadvance, hstep, h, htaken⟩

/-- The first of some steps takes the next instant of the clock, and the others what is left. -/
theorem taken_succ (fuel : Nat) (clock : Clock) (p : RunProgress S sel) :
    taken (fuel + 1) clock p = [] ∨ ∃ now rest q, p.failure = none ∧
      clock.advance = (some now, rest) ∧ p.step rest now = .ok q ∧
      taken (fuel + 1) clock p = ⟨p, rest, now, q⟩ :: taken fuel rest q := by
  rcases loop_cases fuel clock p with ⟨-, -, htaken⟩ | ⟨now, rest, hnone, hadvance,
    ⟨o, -, htaken⟩ | ⟨q, hstep, -, htaken⟩⟩
  · exact .inl htaken
  · exact .inl htaken
  · exact .inr ⟨now, rest, q, hnone, hadvance, hstep, htaken⟩

/-- What holds of the progress before the first step and of the clock then, and is kept by every
step that is taken, holds of the progress after any number of steps, with the steps taken by then
and what is left of the clock. -/
theorem loop_induction_clock {P : List (StepTaken S sel) → Clock → RunProgress S sel → Prop}
    (hstep : ∀ (past : List (StepTaken S sel)) (clock : Clock) (s : StepTaken S sel),
      P past clock s.before → s.before.failure = none → clock.advance = (some s.now, s.clock) →
      s.before.step s.clock s.now = .ok s.after → P (past ++ [s]) s.clock s.after)
    {fuel : Nat} {clock : Clock} {p p' : RunProgress S sel} (past : List (StepTaken S sel))
    (hp : P past clock p) (hloop : loop fuel clock p = .ok p') :
    ∃ rest, P (past ++ taken fuel clock p) rest p' := by
  -- The steps taken before grow with the induction, so that `P` is asked of all of them at once.
  induction fuel generalizing clock p past with
  | zero =>
      obtain rfl := Except.ok.inj hloop
      exact ⟨clock, by rwa [taken, List.append_nil]⟩
  | succ fuel ih =>
      rcases loop_succ hloop with ⟨-, rfl, hnil⟩ | ⟨now, rest, q, hnone, hadvance, hq, hrest, hcons⟩
      · exact ⟨clock, by rwa [hnil, List.append_nil]⟩
      · rw [hcons, List.append_cons]
        exact ih _ (hstep past clock ⟨p, rest, now, q⟩ hp hnone hadvance hq) hrest

/-- What holds of the progress before the first step with no step taken, and is kept by every step
that is taken, holds of the progress after any number of steps with the steps taken by then. -/
theorem loop_induction {P : List (StepTaken S sel) → RunProgress S sel → Prop}
    (hstep : ∀ (past : List (StepTaken S sel)) (s : StepTaken S sel), P past s.before →
      s.before.failure = none → s.before.step s.clock s.now = .ok s.after →
      P (past ++ [s]) s.after)
    {fuel : Nat} {clock : Clock} {p p' : RunProgress S sel} (past : List (StepTaken S sel))
    (hp : P past p) (hloop : loop fuel clock p = .ok p') : P (past ++ taken fuel clock p) p' := by
  obtain ⟨-, hall⟩ := loop_induction_clock (P := fun past _ p => P past p)
    (fun past _ s hbefore hnone _ htaken => hstep past s hbefore hnone htaken) past hp hloop
  exact hall

end RunProgress

namespace Engine

/-- The instants of the first steps of the clock of a run, at most `steps` of them. -/
def instants (e : Engine) (steps : Nat) : List Instant :=
  match e.clock with
  | .error _ => []
  | .ok clock => clock.instants steps

/-- The steps among the first `fuel` that a run takes. -/
def taken (e : Engine) (S : Strategy) (fuel : Nat) : List (StepTaken S e.selector) :=
  match e.clock with
  | .error _ => []
  | .ok clock => RunProgress.taken fuel clock (e.begin S)

/-- The progress of a run is that of the steps of its clock, from the strategy initialized. -/
theorem after_eq_ok {e : Engine} {fuel : Nat} {p : RunProgress S e.selector} :
    e.after S fuel = .ok p ↔
      StrategyHost.checkSpec S.spec e.settings.resolution = .ok () ∧
        ∃ clock, e.clock = .ok clock ∧ RunProgress.loop fuel clock (e.begin S) = .ok p := by
  unfold after
  cases StrategyHost.checkSpec S.spec e.settings.resolution with
  | error refusal => exact ⟨nofun, fun h => nomatch h.1⟩
  | ok =>
      cases e.clock with
      | error failure => exact ⟨nofun, fun ⟨_, _, h, _⟩ => nomatch h⟩
      | ok clock =>
          cases hloop : RunProgress.loop fuel clock (e.begin S) with
          | error o => simp [hloop]
          | ok q => simp [hloop]

/-- The steps of a run are those of its clock. -/
theorem taken_eq {e : Engine} {clock : Clock} (h : e.clock = .ok clock) (S : Strategy)
    (fuel : Nat) : e.taken S fuel = RunProgress.taken fuel clock (e.begin S) := by
  unfold taken
  rw [h]

/-- What holds of a strategy that is initialized, and is kept by every step, holds after any number
of steps of a run. -/
theorem after_induction {e : Engine}
    {P : List (StepTaken S e.selector) → RunProgress S e.selector → Prop}
    (hbegin : P [] (e.begin S))
    (hstep : ∀ (past : List (StepTaken S e.selector)) (s : StepTaken S e.selector),
      P past s.before → s.before.failure = none → s.before.step s.clock s.now = .ok s.after →
      P (past ++ [s]) s.after)
    {fuel : Nat} {p : RunProgress S e.selector} (h : e.after S fuel = .ok p) :
    P (e.taken S fuel) p := by
  obtain ⟨-, clock, hclock, hloop⟩ := after_eq_ok.1 h
  rw [taken_eq hclock]
  exact RunProgress.loop_induction hstep [] hbegin hloop

/-- A result is that of the registered strategy after all steps of the clock. -/
theorem run_eq {e : Engine} {result : RunResult} (h : e.run = .ok result) :
    ∃ (S : Strategy) (p : RunProgress S e.selector),
      e.host.strategy = .ok S ∧ e.after S e.span = .ok p ∧ result = e.result S p := by
  unfold run at h
  split at h
  · exact absurd h (by simp)
  · rename_i S hS
    cases hp : e.progress S with
    | error failure => rw [hp] at h; exact absurd h (by simp [Except.map])
    | ok p =>
        rw [hp] at h
        exact ⟨S, p, hS, hp, (Except.ok.inj h).symm⟩

/-- Prints of a symbol on the dates of the sample week, at the given prices. -/
def samplePrints (symbol : Symbol) (prices : List Int) : List PricePoint :=
  prices.zipIdx.filterMap fun (price, n) =>
    (RunSettings.sampleStart.addDays? n).map fun date =>
      ⟨symbol, .midnight date, price, none, PricePoint.unitFactor⟩

/-- The daily run of a strategy over the sample week, with one symbol and its price on each date. -/
def sample (S : Strategy) (symbol : Symbol) (prices : List Int) : Engine where
  settings := { RunSettings.sample with resolution := .daily }
  selector := .static [symbol]
  prices other := if other = symbol then some (samplePrints symbol prices) else none
  contracts _ _ := []
  host := ⟨some S⟩

end Engine

end MarketReplay
