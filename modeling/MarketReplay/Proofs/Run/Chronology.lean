import MarketReplay.Proofs.Run.Reconciliation
import MarketReplay.Proofs.Tape.AsOf

/-!
# Time in a run

The instants of a clock rise, so the steps of a run are in the order of their instants, none before
the start of its first date (`Engine.taken_chronological`). So a slice of a run has no other quotes
than those of the points up to its instant (`Engine.slice_asOf`), although its feed never reads a
point twice.
-/

namespace MarketReplay

/-- Steps of a clock are at least a second apart. -/
theorem Resolution.seconds_pos (r : Resolution) : 0 < r.seconds := by cases r <;> decide

/-- An instant that a clock gives is the next one of the clock, and the clock goes on later. -/
theorem Clock.advance_eq_some {c rest : Clock} {now : Instant}
    (h : c.advance = (some now, rest)) :
    c.next = some now.time ∧ ∀ t, rest.next = some t → now.time < t := by
  unfold advance peek at h
  cases hnext : c.next with
  | none =>
      rw [hnext] at h
      cases h
  | some first =>
      rw [hnext] at h
      simp only at h
      split at h
      · rename_i hpeek
        cases h
      · rename_i hpeek
        split at hpeek
        · obtain rfl := Option.some.inj hpeek
          obtain ⟨hnow, rfl⟩ := Prod.mk.inj h
          obtain rfl := Option.some.inj hnow
          refine ⟨rfl, fun t ht => ?_⟩
          exact DateTime.lt_of_addSeconds? ht (Int.natCast_pos.2 c.resolution.seconds_pos)
        · cases hpeek

variable {S : Strategy} {sel : Selector}

/-- Whether steps are in the order of their instants, none before a moment. -/
structure Chronological (start : DateTime) (taken : List (StepTaken S sel)) : Prop where
  start_le : ∀ s ∈ taken, start ≤ s.now.time
  rising : taken.Pairwise fun t s => t.now.time < s.now.time

namespace Chronological

variable {start : DateTime} {past : List (StepTaken S sel)} {s : StepTaken S sel}

/-- The steps before one more are in order, and earlier than it. -/
theorem of_concat (h : Chronological start (past ++ [s])) :
    Chronological start past ∧ (∀ t ∈ past, t.now.time < s.now.time) ∧ start ≤ s.now.time := by
  obtain ⟨hpast, -, hbefore⟩ := List.pairwise_append.1 h.rising
  exact ⟨⟨fun t ht => h.start_le t (List.mem_append_left _ ht), hpast⟩,
    fun t ht => hbefore t ht s List.mem_cons_self,
    h.start_le s List.mem_concat_self⟩

/-- No step is later than the last one. -/
theorem le_last (h : Chronological start (past ++ [s])) :
    ∀ t ∈ past ++ [s], t.now.time ≤ s.now.time := by
  intro t ht
  rcases List.mem_append.1 ht with ht | ht
  · exact Int.le_of_lt (h.of_concat.2.1 t ht)
  · obtain rfl := List.mem_singleton.1 ht
    exact Int.le_refl _

/-- Steps up to one of them are in order. -/
theorem of_split {later : List (StepTaken S sel)}
    (h : Chronological start (past ++ s :: later)) : Chronological start (past ++ [s]) := by
  have hsplit : past ++ s :: later = (past ++ [s]) ++ later := by simp
  rw [hsplit] at h
  exact ⟨fun t ht => h.start_le t (List.mem_append_left _ ht), (List.pairwise_append.1 h.rising).1⟩

end Chronological

namespace RunProgress

/-- No step of a clock is earlier than its next instant. -/
theorem le_of_mem_taken {fuel : Nat} {clock : Clock} {p : RunProgress S sel}
    {s : StepTaken S sel} (hs : s ∈ taken fuel clock p) :
    ∃ t, clock.next = some t ∧ t ≤ s.now.time := by
  induction fuel generalizing clock p with
  | zero => cases hs
  | succ fuel ih =>
      rcases taken_succ fuel clock p with hnil | ⟨now, rest, p', -, hadvance, -, hcons⟩
      · rw [hnil] at hs
        cases hs
      · rw [hcons] at hs
        obtain ⟨hnext, hlater⟩ := Clock.advance_eq_some hadvance
        refine ⟨now.time, hnext, ?_⟩
        rcases List.mem_cons.1 hs with rfl | hs
        · exact Int.le_refl _
        · obtain ⟨t, ht, hle⟩ := ih hs
          exact Int.le_trans (Int.le_of_lt (hlater t ht)) hle

/-- The steps of a clock are in the order of their instants. -/
theorem taken_rising (fuel : Nat) (clock : Clock) (p : RunProgress S sel) :
    (taken fuel clock p).Pairwise fun t s => t.now.time < s.now.time := by
  induction fuel generalizing clock p with
  | zero => exact .nil
  | succ fuel ih =>
      rcases taken_succ fuel clock p with hnil | ⟨now, rest, p', -, hadvance, -, hcons⟩
      · rw [hnil]
        exact .nil
      · rw [hcons]
        refine .cons (fun s hs => ?_) (ih rest p')
        obtain ⟨t, ht, hle⟩ := le_of_mem_taken hs
        exact Int.lt_of_lt_of_le ((Clock.advance_eq_some hadvance).2 t ht) hle

end RunProgress

namespace Engine

/-- The instant at which a strategy is initialized: the start of the first date. -/
def initial (e : Engine) : Instant := .startOf e.settings.start e.settings.resolution

/-- The clock of a run goes from the start of its first date to that of a later one. -/
theorem clock_eq {e : Engine} {clock : Clock} (h : e.clock = .ok clock) :
    ∃ stop : Date, e.settings.start < stop ∧
      clock = ⟨some e.initial.time, .midnight stop, e.settings.resolution⟩ := by
  unfold Engine.clock Clock.spanning at h
  split at h
  · cases h
  · rename_i spanned hspan
    obtain rfl := Except.ok.inj h
    split at hspan
    · cases hspan
    · rename_i hordered
      split at hspan
      · cases hspan
      · rename_i stop hstop
        refine ⟨stop, ?_, (Except.ok.inj hspan).symm⟩
        have hday := Date.next?_eq_some_iff.1 hstop
        have hstart : e.settings.start.day ≤ e.settings.stop.day := Int.not_lt.1 hordered
        show e.settings.start.day < stop.day
        omega

/-- The first instant of a run is that of the initialization. -/
theorem exists_instants {e : Engine} {clock : Clock} (hclock : e.clock = .ok clock) :
    ∃ rest, e.instants e.span = e.initial :: rest := by
  obtain ⟨stop, hlt, rfl⟩ := clock_eq hclock
  have hpeek : e.initial.time < DateTime.midnight stop := DateTime.lt_of_date_lt hlt
  obtain ⟨steps, hsteps⟩ : ∃ steps, e.span = steps + 1 := by
    -- A day is at least one step long.
    have hday : e.settings.start.day < stop.day := hlt
    have hsecond : ∀ d : Date, Clock.secondsOf (.midnight d) = d.day * 86400 :=
      fun d => Int.add_zero _
    have hstep : 0 < (e.settings.resolution.seconds : Int) :=
      Int.natCast_pos.2 e.settings.resolution.seconds_pos
    have hone : 1 ≤ (Clock.secondsOf (.midnight stop) - Clock.secondsOf e.initial.time +
        (e.settings.resolution.seconds - 1)) / e.settings.resolution.seconds := by
      rw [Int.le_ediv_iff_mul_le hstep, hsecond, initial, Instant.startOf, hsecond]
      omega
    refine ⟨e.span - 1, ?_⟩
    have hspan : e.span = ((Clock.secondsOf (.midnight stop) - Clock.secondsOf e.initial.time +
        (e.settings.resolution.seconds - 1)) / e.settings.resolution.seconds).toNat := by
      unfold span
      rw [hclock]
      rfl
    omega
  unfold instants
  rw [hclock, hsteps]
  simp only [Clock.instants, Clock.advance, Clock.peek, hpeek, if_true]
  exact ⟨_, rfl⟩

/-- A run that comes to a progress has a clock. -/
theorem exists_clock {e : Engine} {S : Strategy} {fuel : Nat} {p : RunProgress S e.selector}
    (h : e.after S fuel = .ok p) : ∃ clock, e.clock = .ok clock := by
  obtain ⟨-, clock, hclock, -⟩ := after_eq_ok.1 h
  exact ⟨clock, hclock⟩

/-- The steps of a run are in the order of their instants, none before the initialization. -/
theorem taken_chronological (e : Engine) (S : Strategy) (fuel : Nat) :
    Chronological e.initial.time (e.taken S fuel) := by
  unfold Engine.taken
  cases hclock : e.clock with
  | error failure => exact ⟨fun _ hs => absurd hs List.not_mem_nil, .nil⟩
  | ok clock =>
      obtain ⟨stop, -, rfl⟩ := clock_eq hclock
      refine ⟨fun s hs => ?_, RunProgress.taken_rising fuel _ _⟩
      obtain ⟨t, ht, hle⟩ := RunProgress.le_of_mem_taken hs
      obtain rfl := Option.some.inj ht
      exact hle

end Engine

/-! ### What slices are made of -/

/-- The data symbols of the universe that a step resolves; the feed is asked for their quotes. -/
def StepTaken.requested (s : StepTaken S sel) : List Symbol :=
  (s.before.state.resolve s.now).2.kernel.tracked.dataSymbols

/-- The market's part of a step takes its slice from the feed, and nothing else reads the feed. -/
theorem StepTaken.slice_eq {s : StepTaken S sel}
    (h : s.before.step s.clock s.now = .ok s.after) :
    s.slice = (s.before.state.feed.slice s.now s.requested).1 ∧
      s.after.state.feed = (s.before.state.feed.slice s.now s.requested).2 :=
  ⟨rfl, RunState.step_feed (RunProgress.step_eq h).1⟩

namespace Engine

variable {e : Engine} {S : Strategy}

/-- The quote that the series of a source give a symbol at a moment. -/
def quoteAt (e : Engine) (moment : DateTime) (s : Symbol) : Option Quote :=
  Quote.asOf e.settings.calendar e.settings.normalization
    (upTo moment (Feed.seriesOf e.prices s))

/-- Whether a feed has read of the series of a source nothing later than the steps of a list. -/
def HasRead (e : Engine) (past : List (StepTaken S e.selector)) (f : Feed) : Prop :=
  ∃ reach, f.ReadTo e.prices e.settings.calendar e.settings.normalization reach ∧
    ∀ s t, reach s t → ∃ step ∈ past, t ≤ step.now.time

/-- One more step reads up to its instant, and its slice has the quotes of the series then. -/
theorem HasRead.step (hsorted : ∀ s, TimeSorted (Feed.seriesOf e.prices s))
    {past : List (StepTaken S e.selector)} {step : StepTaken S e.selector}
    (h : e.HasRead past step.before.state.feed) (hlater : ∀ t ∈ past, t.now.time < step.now.time)
    (htaken : step.before.step step.clock step.now = .ok step.after) :
    e.HasRead (past ++ [step]) step.after.state.feed ∧
      ∀ s, step.slice.get? s =
        if s ∈ step.requested then e.quoteAt step.now.time s else none := by
  obtain ⟨reach, hread, hreach⟩ := h
  obtain ⟨hslice, hfeed⟩ := StepTaken.slice_eq htaken
  obtain ⟨hread', hquotes⟩ := hread.slice hsorted step.now step.requested
  refine ⟨⟨Feed.reachBy reach step.requested step.now.time, hfeed ▸ hread', fun s t ht => ?_⟩,
    fun s => ?_⟩
  · simp only [Feed.reachBy, Bool.or_eq_true, Bool.and_eq_true, decide_eq_true_eq] at ht
    rcases ht with hpast | ⟨-, hnow⟩
    · obtain ⟨other, hother, hle⟩ := hreach s t hpast
      exact ⟨other, List.mem_append_left _ hother, hle⟩
    · exact ⟨step, List.mem_concat_self, hnow⟩
  · rw [hslice, hquotes s]
    by_cases hmember : s ∈ step.requested
    · rw [if_pos hmember, if_pos hmember, quoteAt]
      refine congrArg (Quote.asOf _ _) (List.filter_congr fun p _ => ?_)
      -- What was reached before is not later than this step either.
      have hearlier : reach s p.time → p.time ≤ step.now.time := by
        intro hp
        obtain ⟨other, hother, hle⟩ := hreach s p.time hp
        exact Int.le_trans hle (Int.le_of_lt (hlater other hother))
      rw [Bool.eq_iff_iff, decide_eq_true_eq]
      simp only [Feed.reachBy, Bool.or_eq_true, Bool.and_eq_true, decide_eq_true_eq]
      exact ⟨fun hp => hp.elim hearlier And.right, fun hnow => .inr ⟨hmember, hnow⟩⟩
    · rw [if_neg hmember, if_neg hmember]

/-- The slice of a step has the quotes of the series up to its instant, for the data symbols of the
universe that it resolves. -/
theorem slice_get? (hsorted : ∀ s, TimeSorted (Feed.seriesOf e.prices s)) {fuel : Nat}
    {p : RunProgress S e.selector} (h : e.after S fuel = .ok p) :
    ∀ step ∈ e.taken S fuel, ∀ s, step.slice.get? s =
      if s ∈ step.requested then e.quoteAt step.now.time s else none := by
  have hall := after_induction (P := fun past p => Chronological e.initial.time past →
    e.HasRead past p.state.feed ∧ ∀ step ∈ past, ∀ s, step.slice.get? s =
      if s ∈ step.requested then e.quoteAt step.now.time s else none) ?_ ?_ h
  · exact (hall (e.taken_chronological S fuel)).2
  · intro _
    refine ⟨⟨fun _ _ => false, ?_, fun _ _ hreached => absurd hreached Bool.false_ne_true⟩,
      fun _ hmem => absurd hmem List.not_mem_nil⟩
    exact Feed.readTo_start e.prices e.settings.calendar e.settings.normalization
  · intro past step hbefore _ htaken hchron
    obtain ⟨hpast, hlater, -⟩ := hchron.of_concat
    obtain ⟨hread, hquotes⟩ := hbefore hpast
    obtain ⟨hread', hquotes'⟩ := hread.step hsorted hlater htaken
    refine ⟨hread', fun other hother => ?_⟩
    rcases List.mem_append.1 hother with hother | hother
    · exact hquotes other hother
    · obtain rfl := List.mem_singleton.1 hother
      exact hquotes'

/-- The quotes of every slice of a run are those of its series up to the instant of the step. -/
theorem slice_asOf (hsorted : ∀ s, TimeSorted (Feed.seriesOf e.prices s)) {fuel : Nat}
    {p : RunProgress S e.selector} (h : e.after S fuel = .ok p) :
    ∀ step ∈ e.taken S fuel, ∀ s quote, step.slice.get? s = some quote →
      e.quoteAt step.now.time s = some quote := by
  intro step hstep s quote hquote
  rw [slice_get? hsorted h step hstep s] at hquote
  split at hquote
  · exact hquote
  · cases hquote

end Engine

end MarketReplay
