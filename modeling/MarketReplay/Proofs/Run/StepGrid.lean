import MarketReplay.Proofs.Run.Completion

/-!
# The grid of a run

The instants of a clock are the start of its first date and whole steps after it, through the end of
its last date (`Clock.peek_skip`). A run that does not fail takes a step at each of them and samples
the portfolio once for each date; one that fails at a step has sampled it for the dates before
(`Engine.runs_on_grid`).
-/

namespace MarketReplay

/-! ### The instants of a clock -/

namespace Resolution

/-- Steps of a day. -/
def perDay (r : Resolution) : Nat := 86400 / r.seconds

/-- A day is a whole number of steps. -/
theorem perDay_mul_seconds (r : Resolution) : r.perDay * r.seconds = 86400 := by cases r <;> rfl

/-- A day has a step. -/
theorem perDay_pos (r : Resolution) : 0 < r.perDay := by cases r <;> decide

end Resolution

/-- The number of dates from one through another. -/
def Date.through (start last : Date) : Nat := (last.day + 1 - start.day).toNat

/-- The instant some steps after the start of a date. -/
def gridInstant? (start : Date) (r : Resolution) (k : Nat) : Option Instant :=
  ((DateTime.midnight start).addSeconds? (k * r.seconds)).map fun t => ⟨t, r⟩

/-- The number of steps over the dates from one through another. -/
def gridSize (start last : Date) (r : Resolution) : Nat := start.through last * 86400 / r.seconds

section Grid

variable {start last stop : Date} {r : Resolution} {k : Nat} {t : DateTime}

/-- The dates of a grid have as many steps each. -/
theorem gridSize_eq (start last : Date) (r : Resolution) :
    gridSize start last r = start.through last * r.perDay := by
  rw [gridSize, ← r.perDay_mul_seconds, ← Nat.mul_assoc,
    Nat.mul_div_cancel _ r.seconds_pos]

/-- A day has passed every so many steps. -/
theorem mul_seconds_div (r : Resolution) (k : Nat) :
    (k * r.seconds : Int) / 86400 = (k / r.perDay : Nat) := by
  have hnat : k * r.seconds / 86400 = k / r.perDay := by
    rw [← r.perDay_mul_seconds, Nat.mul_div_mul_right _ _ r.seconds_pos]
  rw [← hnat]
  push_cast
  rfl

/-- The date of a step of a grid. -/
theorem day_of_grid (h : (DateTime.midnight start).addSeconds? (k * r.seconds) = some t) :
    t.date.day = start.day + (k / r.perDay : Nat) := by
  rw [DateTime.day_of_addSeconds?_midnight h, mul_seconds_div]

/-- A grid has a moment for every step through the start of the date after its last one. -/
theorem exists_grid (hstop : stop.day = last.day + 1) (hle : start ≤ last)
    (hk : k ≤ gridSize start last r) :
    ∃ t, (DateTime.midnight start).addSeconds? (k * r.seconds) = some t := by
  have hdays : k / r.perDay ≤ start.through last := by
    rw [gridSize_eq] at hk
    exact Nat.div_le_of_le_mul (by rwa [Nat.mul_comm])
  have hfirst := start.first_le
  have hlast := stop.le_last
  have hordered : start.day ≤ last.day := hle
  unfold Date.through at hdays
  have hday := mul_seconds_div r k
  generalize k / r.perDay = days at hdays hday
  let date : Date := ⟨start.day + (days : Nat), by omega, by omega⟩
  have hdate : date.day = start.day + (k * r.seconds : Int) / 86400 := by rw [hday]
  exact DateTime.exists_addSeconds?_midnight hdate

/-- The steps of a grid are those before the end of its last date. -/
theorem grid_lt_iff (hstop : stop.day = last.day + 1) (hle : start ≤ last)
    (h : (DateTime.midnight start).addSeconds? (k * r.seconds) = some t) :
    t < DateTime.midnight stop ↔ k < gridSize start last r := by
  have hstamp := DateTime.stamp_addSeconds? h
  have hmidnight : ∀ d : Date, (DateTime.midnight d).stamp = d.day * 86400 * 2000000000 := by
    intro d
    show (d.day * 86400 + 0) * 2000000000 + 0 = _
    omega
  rw [hmidnight] at hstamp
  have hordered : start.day ≤ last.day := hle
  have hseconds : k < gridSize start last r ↔ k * r.seconds < start.through last * 86400 := by
    rw [gridSize_eq, ← r.perDay_mul_seconds, ← Nat.mul_assoc]
    exact (Nat.mul_lt_mul_right r.seconds_pos).symm
  rw [hseconds]
  unfold Date.through
  show t.stamp < (DateTime.midnight stop).stamp ↔ _
  rw [hstamp, hmidnight]
  have hcast : (k * r.seconds : Int) = (k * r.seconds : Nat) := by push_cast; rfl
  rw [hcast]
  generalize k * r.seconds = seconds
  omega

/-- The date of an instant of a grid. -/
theorem date_of_gridInstant? {now : Instant} (h : gridInstant? start r k = some now) :
    start.addDays? (k / r.perDay : Nat) = some now.date := by
  obtain ⟨t, ht, rfl⟩ := Option.map_eq_some_iff.1 h
  exact Date.addDays?_eq_some_iff.2 (day_of_grid ht)

/-- The instants of a grid are there. -/
theorem isSome_gridInstant? (hstop : stop.day = last.day + 1) (hle : start ≤ last)
    (hk : k < gridSize start last r) : (gridInstant? start r k).isSome := by
  obtain ⟨t, ht⟩ := exists_grid hstop hle (Nat.le_of_lt hk)
  rw [gridInstant?, ht]
  rfl

end Grid

namespace Clock

/-- The clock after some advances. -/
def skip : Nat → Clock → Clock
  | 0, c => c
  | n + 1, c => (skip n c).advance.2

variable {c : Clock} {start last : Date} {r : Resolution}

/-- An advance gives the instant that was shown before it. -/
theorem advance_fst (c : Clock) : c.advance.1 = c.peek := by
  unfold advance
  split <;> rename_i hpeek <;> rw [hpeek]

/-- An advance from a shown instant goes on one step after it. -/
theorem advance_of_peek {now : Instant} (h : c.peek = some now) :
    c.advance = (some now, { c with next := now.time.addSeconds? c.resolution.seconds }) := by
  unfold advance
  rw [h]

/-- An exhausted clock stays exhausted. -/
theorem peek_advance_of_none (h : c.peek = none) : c.advance.2.peek = none := by
  unfold advance
  rw [h]
  rfl

/-- A clock goes from the start of its first date to that of the date after its last one. -/
theorem spanning_eq_ok (h : spanning start last r = .ok c) :
    start ≤ last ∧ ∃ stop : Date, stop.day = last.day + 1 ∧
      c = ⟨some (.midnight start), .midnight stop, r⟩ := by
  unfold spanning at h
  split at h
  · cases h
  · rename_i hordered
    split at h
    · cases h
    · rename_i stop hstop
      exact ⟨Int.not_lt.1 hordered, stop, Date.next?_eq_some_iff.1 hstop,
        (Except.ok.inj h).symm⟩

/-- There is a clock over dates in order that end before the last date. -/
theorem exists_spanning (hle : start ≤ last) (hlast : last < .last) (r : Resolution) :
    ∃ c, spanning start last r = .ok c := by
  obtain ⟨next, hnext⟩ : ∃ next, last.next? = some next := by
    refine Option.ne_none_iff_exists'.1 fun hnone => ?_
    have hday : last.day < Civil.lastDay := hlast
    rw [Date.next?_eq_none_iff.1 hnone] at hday
    exact Int.lt_irrefl _ hday
  have hordered : ¬ last < start := Int.not_lt.2 hle
  unfold spanning
  rw [if_neg hordered, hnext]
  exact ⟨_, rfl⟩

/-- A clock stands at the step that comes next. -/
theorem next_skip (h : spanning start last r = .ok c) {n : Nat} (hn : n ≤ gridSize start last r) :
    c.skip n = { c with next := (DateTime.midnight start).addSeconds? (n * r.seconds) } := by
  obtain ⟨hle, stop, hstop, rfl⟩ := spanning_eq_ok h
  induction n with
  | zero =>
      obtain ⟨t, ht⟩ := exists_grid (r := r) hstop hle (Nat.zero_le _)
      have hstart : t = .midnight start :=
        DateTime.ext_stamp (by simpa using DateTime.stamp_addSeconds? ht)
      rw [ht, hstart]
      rfl
  | succ n ih =>
      obtain ⟨t, ht⟩ := exists_grid (r := r) hstop hle (Nat.le_of_succ_le hn)
      have hbefore : t < .midnight stop := (grid_lt_iff hstop hle ht).2 hn
      have hskip := ih (Nat.le_of_succ_le hn)
      rw [ht] at hskip
      have hpeek : (skip n ⟨some (.midnight start), .midnight stop, r⟩).peek = some ⟨t, r⟩ := by
        rw [hskip]
        exact if_pos hbefore
      have hseconds : (n * r.seconds + r.seconds : Int) = (n + 1 : Nat) * r.seconds := by
        push_cast
        ring
      rw [skip, advance_of_peek hpeek, hskip]
      simp only
      rw [DateTime.addSeconds?_addSeconds? ht, hseconds]

/-- A clock has as many instants as its grid. -/
theorem remaining_eq (h : spanning start last r = .ok c) :
    c.remaining = gridSize start last r := by
  obtain ⟨hle, stop, hstop, rfl⟩ := spanning_eq_ok h
  have hordered : start.day ≤ last.day := hle
  have hseconds : (0 : Int) < r.seconds := Int.natCast_pos.2 r.seconds_pos
  have hspan : (stop.day - start.day) * 86400 =
      ((start.through last * r.perDay : Nat) : Int) * r.seconds := by
    rw [Nat.cast_mul, Int.mul_assoc, ← Nat.cast_mul, r.perDay_mul_seconds, Date.through]
    omega
  have hsecond : ∀ d : Date, secondsOf (.midnight d) = d.day * 86400 := fun d => Int.add_zero _
  show ((secondsOf (.midnight stop) - secondsOf (.midnight start) + (r.seconds - 1)) /
    r.seconds).toNat = _
  rw [hsecond, hsecond, ← Int.sub_mul, hspan, gridSize_eq]
  generalize start.through last * r.perDay = size
  rw [Int.add_comm, Int.add_mul_ediv_right _ _ (ne_of_gt hseconds),
    Int.ediv_eq_zero_of_lt (by omega) (by omega)]
  omega

/-- After some advances a clock shows the next instant of its grid, and none after the last. -/
theorem peek_skip (h : spanning start last r = .ok c) (n : Nat) :
    (c.skip n).peek = if n < gridSize start last r then gridInstant? start r n else none := by
  obtain ⟨hle, stop, hstop, hc⟩ := spanning_eq_ok h
  have hshown : ∀ n ≤ gridSize start last r, (c.skip n).peek =
      if n < gridSize start last r then gridInstant? start r n else none := by
    intro n hn
    obtain ⟨t, ht⟩ := exists_grid (r := r) hstop hle hn
    rw [next_skip h hn, gridInstant?, ht, hc]
    exact if_congr (grid_lt_iff hstop hle ht) rfl rfl
  by_cases hn : n ≤ gridSize start last r
  · exact hshown n hn
  · -- After the last instant the clock is exhausted, and stays so.
    rw [if_neg (by omega)]
    induction n with
    | zero => exact absurd (Nat.zero_le _) hn
    | succ n ih =>
        refine peek_advance_of_none ?_
        by_cases hlast : n ≤ gridSize start last r
        · rw [hshown n hlast, if_neg (by omega)]
        · exact ih hlast

/-- As long as a grid lasts, a clock gives its instants. -/
theorem length_instants (h : spanning start last r = .ok c) {n k : Nat}
    (hk : k + n ≤ gridSize start last r) : ((c.skip k).instants n).length = n := by
  obtain ⟨hle, stop, hstop, -⟩ := spanning_eq_ok h
  induction n generalizing k with
  | zero => rfl
  | succ n ih =>
      have hlt : k < gridSize start last r := by omega
      obtain ⟨now, hnow⟩ := Option.isSome_iff_exists.1 (isSome_gridInstant? hstop hle hlt)
      have hpeek : (c.skip k).peek = some now := by rw [peek_skip h, if_pos hlt, hnow]
      have hadvance : (c.skip k).advance = (some now, c.skip (k + 1)) := by
        rw [skip, advance_of_peek hpeek]
      rw [instants, hadvance, List.length_cons, ih (by omega)]

/-- A date ends with a step if a whole number of days has passed by then. -/
theorem dayEnds_skip (h : spanning start last r = .ok c) {n : Nat} {now : Instant}
    (hnow : (c.skip n).peek = some now) :
    RunProgress.dayEnds (c.skip (n + 1)) now.date = decide (r.perDay ∣ n + 1) := by
  obtain ⟨hle, stop, hstop, -⟩ := spanning_eq_ok h
  rw [peek_skip h] at hnow
  split at hnow
  swap
  · cases hnow
  rename_i hn
  unfold RunProgress.dayEnds
  rw [peek_skip h]
  by_cases hlast : n + 1 < gridSize start last r
  · obtain ⟨next, hnext⟩ := Option.isSome_iff_exists.1 (isSome_gridInstant? hstop hle hlast)
    have hday := Date.addDays?_eq_some_iff.1 (date_of_gridInstant? hnow)
    have hday' := Date.addDays?_eq_some_iff.1 (date_of_gridInstant? hnext)
    rw [Nat.succ_div] at hday'
    rw [if_pos hlast, hnext]
    show (next.date != now.date) = _
    by_cases hdvd : r.perDay ∣ n + 1
    · rw [if_pos hdvd] at hday'
      have hne : next.date ≠ now.date := fun heq => by
        rw [heq] at hday'
        omega
      simp [hne, hdvd]
    · rw [if_neg hdvd, Nat.add_zero, ← hday] at hday'
      simp [Date.ext_day hday', hdvd]
  · -- The last step ends the last date.
    have hsize : n + 1 = start.through last * r.perDay := by
      rw [← gridSize_eq]
      omega
    rw [if_neg hlast, hsize]
    simp

end Clock

/-! ### The steps of a run -/

variable {S : Strategy} {sel : Selector}

/-- Whether steps are at the first instants of a grid, with the portfolio sampled once for each date
whose steps did not fail. -/
structure OnGrid (start last : Date) (r : Resolution) (past : List (StepTaken S sel))
    (p : RunProgress S sel) : Prop where
  steps_eq : p.steps = past.length
  le_size : past.length ≤ gridSize start last r
  instants_eq : past.map (fun s => some s.now) =
    (List.range past.length).map (gridInstant? start r)
  curve_eq : p.curve.map (fun point => some point.date) =
    (List.range ((past.countP fun s => s.after.failure.isNone) / r.perDay)).map
      fun (i : Nat) => start.addDays? i
  unfailed : p.failure = none → ∀ s ∈ past, s.after.failure = none
  last_eq : ∀ init s, past = init ++ [s] → (∀ t ∈ init, t.after.failure = none) ∧ s.after = p

namespace OnGrid

variable {start last : Date} {r : Resolution} {c : Clock} {past : List (StepTaken S sel)}

/-- One more step is at the next instant of the grid. -/
theorem step (hc : Clock.spanning start last r = .ok c) {s : StepTaken S sel}
    (h : OnGrid start last r past s.before) (hnone : s.before.failure = none)
    (hadvance : (c.skip past.length).advance = (some s.now, s.clock))
    (hstep : s.before.step s.clock s.now = .ok s.after) :
    OnGrid start last r (past ++ [s]) s.after := by
  have hnow : (c.skip past.length).peek = some s.now := by
    rw [← Clock.advance_fst, hadvance]
  have hclock : s.clock = c.skip (past.length + 1) := by rw [Clock.skip, hadvance]
  obtain ⟨hlt, hgrid⟩ : past.length < gridSize start last r ∧
      gridInstant? start r past.length = some s.now := by
    rw [Clock.peek_skip hc] at hnow
    split at hnow
    · rename_i hlt
      exact ⟨hlt, hnow⟩
    · cases hnow
  obtain ⟨-, hsteps, hcurve⟩ := RunProgress.step_eq hstep
  rw [hclock, Clock.dayEnds_skip hc hnow] at hcurve
  have hunfailed := h.unfailed hnone
  have hcount : (past.countP fun s => s.after.failure.isNone) = past.length :=
    List.countP_eq_length.2 fun t ht => by rw [hunfailed t ht]; rfl
  constructor
  case steps_eq => rw [hsteps, h.steps_eq, List.length_append, List.length_singleton]
  case le_size =>
    rw [List.length_append, List.length_singleton]
    exact hlt
  case instants_eq =>
    rw [List.map_append, h.instants_eq, List.length_append, List.length_singleton,
      List.range_succ, List.map_append, List.map_singleton, List.map_singleton, hgrid]
  case curve_eq =>
    have hbefore := h.curve_eq
    rw [hcount] at hbefore
    rw [List.countP_append, hcount, List.countP_singleton, hcurve]
    by_cases hfailed : s.after.failure.isNone
    · rw [if_pos hfailed, hfailed, Bool.true_and, Nat.succ_div]
      by_cases hdvd : r.perDay ∣ past.length + 1
      · rw [if_pos hdvd, if_pos (decide_eq_true hdvd), List.map_append, hbefore, List.range_succ,
          List.map_append, List.map_singleton, List.map_singleton, date_of_gridInstant? hgrid]
        rfl
      · rw [if_neg hdvd, if_neg (by simpa using hdvd), hbefore, Nat.add_zero]
    · rw [if_neg hfailed, if_neg (by simp [hfailed]), hbefore, Nat.add_zero]
  case unfailed =>
    intro hgoes t ht
    rcases List.mem_append.1 ht with ht | ht
    · exact hunfailed t ht
    · rwa [List.mem_singleton.1 ht]
  case last_eq =>
    intro init t hsplit
    obtain ⟨rfl, hlast⟩ := List.append_inj' hsplit rfl
    obtain rfl := List.singleton_inj.1 hlast
    exact ⟨hunfailed, rfl⟩

/-- The steps of a clock, from the first one on, are on its grid. -/
theorem loop (hc : Clock.spanning start last r = .ok c) {fuel : Nat} {p p' : RunProgress S sel}
    (hsteps : p.steps = 0) (hcurve : p.curve = []) (hloop : RunProgress.loop fuel c p = .ok p') :
    OnGrid start last r (RunProgress.taken fuel c p) p' := by
  have hbegin : OnGrid start last r ([] : List (StepTaken S sel)) p :=
    ⟨hsteps, Nat.zero_le _, rfl, by simp [hcurve], fun _ _ hs => absurd hs List.not_mem_nil,
      fun init s hnil => absurd hnil.symm (by simp)⟩
  have hstep : ∀ (past : List (StepTaken S sel)) (clock : Clock) (s : StepTaken S sel),
      (clock = c.skip past.length ∧ OnGrid start last r past s.before) →
      s.before.failure = none → clock.advance = (some s.now, s.clock) →
      s.before.step s.clock s.now = .ok s.after →
      s.clock = c.skip (past ++ [s]).length ∧ OnGrid start last r (past ++ [s]) s.after := by
    rintro past _ s ⟨rfl, hgrid⟩ hnone hadvance htaken
    refine ⟨?_, hgrid.step hc hnone hadvance htaken⟩
    rw [List.length_append, List.length_singleton, Clock.skip, hadvance]
  obtain ⟨rest, -, hall⟩ := RunProgress.loop_induction_clock
    (P := fun past clock p => clock = c.skip past.length ∧ OnGrid start last r past p)
    hstep [] ⟨rfl, hbegin⟩ hloop
  exact hall

/-- The date of the last one of some steps, by the number of days that passed before it. -/
theorem day_of_last {init : List (StepTaken S sel)} {s : StepTaken S sel}
    {p : RunProgress S sel} (h : OnGrid start last r (init ++ [s]) p) :
    s.now.date.day = start.day + (init.length / r.perDay : Nat) := by
  have hinstants := h.instants_eq
  rw [List.length_append, List.length_singleton, List.range_succ, List.map_append,
    List.map_append, List.map_singleton, List.map_singleton] at hinstants
  have hgrid := List.singleton_inj.1 (List.append_inj' hinstants rfl).2
  exact Date.addDays?_eq_some_iff.1 (date_of_gridInstant? hgrid.symm)

/-- Once all steps of a grid were taken without a failure, the portfolio was sampled once for each
date. -/
theorem curve_of_unfailed {p : RunProgress S sel} (h : OnGrid start last r past p)
    (hnone : p.failure = none) (hlength : past.length = gridSize start last r) :
    p.curve.map (fun point => some point.date) =
      (List.range (start.through last)).map fun (i : Nat) => start.addDays? i := by
  have hcount : (past.countP fun s => s.after.failure.isNone) = gridSize start last r := by
    rw [← hlength]
    exact List.countP_eq_length.2 fun s hs => by rw [h.unfailed hnone s hs]; rfl
  rw [h.curve_eq, hcount, gridSize_eq, Nat.mul_div_cancel _ r.perDay_pos]

/-- Before a step that failed, the portfolio was sampled once for each date before its own. -/
theorem curve_of_failed {init : List (StepTaken S sel)} {s : StepTaken S sel}
    {p : RunProgress S sel} (h : OnGrid start last r (init ++ [s]) p) {f : RunFailure}
    (hf : p.failure = some f) :
    p.curve.map (fun point => some point.date) =
      (List.range (s.now.date.day - start.day).toNat).map fun (i : Nat) => start.addDays? i := by
  obtain ⟨hinit, hlast⟩ := h.last_eq init s rfl
  have hcount : ((init ++ [s]).countP fun s => s.after.failure.isNone) = init.length := by
    rw [List.countP_append, List.countP_singleton, hlast, hf,
      List.countP_eq_length.2 fun t ht => by rw [hinit t ht]; rfl]
    rfl
  have hpassed : (s.now.date.day - start.day).toNat = init.length / r.perDay := by
    rw [h.day_of_last, add_sub_cancel_left, Int.toNat_natCast]
  rw [h.curve_eq, hcount, hpassed]

end OnGrid

namespace RunProgress

/-- A run that takes a step had not failed before. -/
theorem unfailed_of_taken {fuel : Nat} {clock : Clock} {p : RunProgress S sel}
    (h : taken fuel clock p ≠ []) : p.failure = none :=
  Option.not_isSome_iff_eq_none.1 fun hsome => h (loop_stopped (.inl hsome) fuel).2

/-- A run that took no step is as it began. -/
theorem eq_of_taken_nil {fuel : Nat} {clock : Clock} {p p' : RunProgress S sel}
    (hloop : loop fuel clock p = .ok p') (hnil : taken fuel clock p = []) : p' = p := by
  cases fuel with
  | zero => exact (Except.ok.inj hloop).symm
  | succ fuel =>
      rcases loop_succ hloop with ⟨-, heq, -⟩ | ⟨now, rest, q, -, -, -, -, hcons⟩
      · exact heq.symm
      · rw [hnil] at hcons
        cases hcons

/-- A run over the dates of a clock that does not fail takes all steps of the grid. -/
theorem length_taken {start last : Date} {r : Resolution} {c : Clock} {p p' : RunProgress S sel}
    (hc : Clock.spanning start last r = .ok c)
    (hloop : loop (gridSize start last r) c p = .ok p') (hnone : p'.failure = none) :
    (taken (gridSize start last r) c p).length = gridSize start last r := by
  have hinstants := (loop_unfailed hloop hnone).2.1
  have hall : (c.instants (gridSize start last r)).length = gridSize start last r :=
    Clock.length_instants (k := 0) hc (Nat.zero_add _).le
  rw [← hinstants, List.length_map] at hall
  exact hall

end RunProgress

namespace Engine

/-- An engine is configured only with dates in order. -/
theorem configure_eq_ok {settings : RunSettings} {selector : Option Selector}
    {prices : SeriesLookup} {contracts : ContractLookup} {e : Engine}
    (h : configure settings selector prices contracts = .ok e) :
    settings.start ≤ settings.stop ∧ e.settings = settings := by
  unfold configure RunSettings.validate at h
  by_cases hreversed : settings.stop < settings.start
  · simp [hreversed] at h
  · refine ⟨Int.not_lt.1 hreversed, ?_⟩
    rw [if_neg hreversed] at h
    split at h
    · cases h
    · cases h
    · split at h
      · cases h
      · obtain rfl := Except.ok.inj h
        rfl

/-- The engine that a strategy is added to runs this one. -/
theorem addStrategy_eq_ok {e e' : Engine} (h : e.addStrategy S = .ok e') :
    e'.settings = e.settings ∧ e'.host.strategy = .ok S := by
  unfold addStrategy StrategyHost.register at h
  split at h
  · cases h
  · obtain rfl := Except.ok.inj h
    exact ⟨rfl, rfl⟩

/-- The run of a registered strategy is its progress through all steps of the clock. -/
theorem run_eq_map {e : Engine} (hhost : e.host.strategy = .ok S) :
    e.run = (e.after S e.span).map (e.result S) := by
  unfold run
  rw [hhost]
  rfl

/-- A run of a registered strategy is refused because of its resolution, broken off by an offset out
of range, or comes to the result of its steps. -/
theorem run_cases {e : Engine} {clock : Clock} (hhost : e.host.strategy = .ok S)
    (hclock : e.clock = .ok clock) :
    (∃ refusal, StrategyHost.checkSpec S.spec e.settings.resolution = .error refusal ∧
      e.run = .error (.host refusal)) ∨
    (∃ overflow, e.run = .error (.offset overflow)) ∨
    ∃ p, RunProgress.loop e.span clock (e.begin S) = .ok p ∧ e.run = .ok (e.result S p) := by
  rw [run_eq_map hhost]
  unfold after
  rw [hclock]
  cases StrategyHost.checkSpec S.spec e.settings.resolution with
  | error refusal => exact .inl ⟨refusal, rfl, rfl⟩
  | ok =>
      cases hloop : RunProgress.loop e.span clock (e.begin S) with
      | error overflow => exact .inr (.inl ⟨overflow, by simp [hloop, Except.map]⟩)
      | ok p => exact .inr (.inr ⟨p, rfl, by simp [hloop, Except.map]⟩)

/-- A clock shows at any time what it gives next, which is the next instant of a grid, and after the
last of them nothing any more. -/
structure Walks (grid : Nat → Option Instant) (size : Nat) (clock : Clock) : Prop where
  peek_eq_advance : ∀ n, (clock.skip n).peek = (clock.skip n).advance.1
  peek_eq_grid : ∀ n, (clock.skip n).peek = if n < size then grid n else none

/-- Why a run of a strategy gives no result: it asks for another resolution, or for a schedule whose
offset is no span of time. -/
inductive BrokenOff (S : Strategy) (r : Resolution) : RunError → Prop
  | refused {refusal : HostError} (h : StrategyHost.checkSpec S.spec r = .error refusal) :
      BrokenOff S r (.host refusal)
  | offset (overflow : OffsetOverflow) : BrokenOff S r (.offset overflow)

/-- The portfolio was sampled once for each of some days from a date on. -/
def SampledFor (days : Nat) (start : Date) (curve : List EquityPoint) : Prop :=
  curve.map (fun point => some point.date) =
    (List.range days).map fun (i : Nat) => start.addDays? i

/-- A run that failed when the strategy was initialized has no step and no sample. -/
structure FailedAtStart (e : Engine) (S : Strategy) (result : RunResult) (f : RunFailure) :
    Prop where
  begin_failure : (e.begin S).failure = some f
  steps_eq : result.steps = 0
  curve_eq : result.equityCurve = []

/-- A run that failed in a step took none after it, and has sampled the portfolio for exactly the
dates before that of the step. -/
structure FailedInStep (e : Engine) (S : Strategy) (start : Date) (size : Nat) (result : RunResult)
    (f : RunFailure) (past : List (StepTaken S e.selector)) (s : StepTaken S e.selector) :
    Prop where
  begin_failure : (e.begin S).failure = none
  taken_eq : e.taken S e.span = past ++ [s]
  past_failure : ∀ t ∈ past, t.after.failure = none
  failure_eq : s.after.failure = some f
  steps_eq : result.steps = past.length + 1
  steps_le : result.steps ≤ size
  sampled : SampledFor (s.now.date.day - start.day).toNat start result.equityCurve

/-- The result of a run with settings: its steps are at the first instants of the grid. If it did
not fail they are all of the grid, and the portfolio was sampled once for each date. If it failed,
it did so when the strategy was initialized or in its last step. -/
structure EndsOnGrid (e : Engine) (S : Strategy) (settings : RunSettings) (result : RunResult) :
    Prop where
  instants_eq : (e.taken S e.span).map (fun s => some s.now) =
    (List.range result.steps).map (gridInstant? settings.start settings.resolution)
  steps_of_unfailed : result.failure = none →
    result.steps = gridSize settings.start settings.stop settings.resolution
  sampled_of_unfailed : result.failure = none →
    SampledFor (settings.start.through settings.stop) settings.start result.equityCurve
  of_failed : ∀ f, result.failure = some f → FailedAtStart e S result f ∨
    ∃ past s, FailedInStep e S settings.start
      (gridSize settings.start settings.stop settings.resolution) result f past s

/-- The result of the steps of a clock ends on its grid. -/
theorem endsOnGrid_of_loop {e : Engine} {clock : Clock} (hclock : e.clock = .ok clock)
    (hspanning : Clock.spanning e.settings.start e.settings.stop e.settings.resolution = .ok clock)
    {p : RunProgress S e.selector} (hloop : RunProgress.loop e.span clock (e.begin S) = .ok p) :
    EndsOnGrid e S e.settings (e.result S p) := by
  have hspan : e.span = gridSize e.settings.start e.settings.stop e.settings.resolution := by
    unfold span
    rw [hclock]
    exact Clock.remaining_eq hspanning
  have htaken : e.taken S e.span = RunProgress.taken e.span clock (e.begin S) :=
    taken_eq hclock S e.span
  have hgrid := OnGrid.loop hspanning rfl rfl hloop
  rw [← htaken] at hgrid
  have hsteps : (e.result S p).steps = (e.taken S e.span).length := hgrid.steps_eq
  have hall : (e.result S p).failure = none → (e.taken S e.span).length =
      gridSize e.settings.start e.settings.stop e.settings.resolution := by
    intro hnone
    rw [htaken, hspan]
    exact RunProgress.length_taken hspanning (hspan ▸ hloop) hnone
  refine ⟨hsteps ▸ hgrid.instants_eq, fun hnone => hsteps.trans (hall hnone),
    fun hnone => hgrid.curve_of_unfailed hnone (hall hnone), fun f hf => ?_⟩
  rcases List.eq_nil_or_concat (e.taken S e.span) with hnil | ⟨past, s, hsplit⟩
  · obtain rfl := RunProgress.eq_of_taken_nil hloop (htaken ▸ hnil)
    exact .inl ⟨hf, rfl, rfl⟩
  · rw [List.concat_eq_append] at hsplit
    have hstarted : RunProgress.taken e.span clock (e.begin S) ≠ [] := by
      rw [← htaken, hsplit]
      exact List.append_ne_nil_of_right_ne_nil _ (List.cons_ne_nil s [])
    rw [hsplit] at hgrid hsteps
    obtain ⟨hpast, hlast⟩ := hgrid.last_eq past s rfl
    refine .inr ⟨past, s, ?_⟩
    constructor
    case begin_failure => exact RunProgress.unfailed_of_taken hstarted
    case taken_eq => exact hsplit
    case past_failure => exact hpast
    case failure_eq => rw [hlast]; exact hf
    case steps_eq => rw [hsteps, List.length_append, List.length_singleton]
    case steps_le => rw [hsteps]; exact hgrid.le_size
    case sampled => exact hgrid.curve_of_failed hf

/-- The steps of a run, its instants and its samples, for every configured engine that ends before
the last date, and every strategy.

The grid is the start of the first date and whole steps after it, as many as fit into the dates, and
the clock walks through it. A run gives no result only if it is broken off, and one of a strategy
that completes does. A result ends on the grid: its steps are at the first instants of the grid, all
of them if it does not fail, with one sample for each date in order; if it fails, it does so when
the strategy is initialized, with no step and no sample, or at its last step, with samples for
exactly the dates before that of the step. -/
theorem runs_on_grid {settings : RunSettings} {selector : Option Selector} {prices : SeriesLookup}
    {contracts : ContractLookup} {configured e : Engine}
    (hconfigure : configure settings selector prices contracts = .ok configured)
    (hadd : configured.addStrategy S = .ok e) (hstop : settings.stop < .last) :
    let size := gridSize settings.start settings.stop settings.resolution
    let grid := gridInstant? settings.start settings.resolution
    (∀ k < size, (grid k).isSome) ∧
    (∃ clock, e.clock = .ok clock ∧ Walks grid size clock) ∧
    (StrategyHost.checkSpec S.spec settings.resolution = .ok () → S.Completes →
      ∃ result, e.run = .ok result ∧ result.failure = none) ∧
    match e.run with
    | .error failure => BrokenOff S settings.resolution failure
    | .ok result => EndsOnGrid e S settings result := by
  obtain ⟨hle, hsettings⟩ := configure_eq_ok hconfigure
  obtain ⟨hsame, hhost⟩ := addStrategy_eq_ok hadd
  obtain rfl : e.settings = settings := hsame.trans hsettings
  intro size grid
  obtain ⟨clock, hspanning⟩ := Clock.exists_spanning hle hstop e.settings.resolution
  obtain ⟨-, next, hnext, -⟩ := Clock.spanning_eq_ok hspanning
  have hclock : e.clock = .ok clock := by
    unfold Engine.clock
    rw [hspanning]
  refine ⟨fun k => isSome_gridInstant? hnext hle, ⟨clock, hclock,
    fun n => (clock.skip n).advance_fst.symm, Clock.peek_skip hspanning⟩, ?_, ?_⟩
  · intro hspec hS
    obtain ⟨p, hafter, hnone⟩ := after_completes hS ⟨hspec, clock, hclock⟩ e.span
    exact ⟨e.result S p, by rw [run_eq_map hhost, hafter]; rfl, hnone⟩
  rcases run_cases hhost hclock with
    ⟨refusal, hspec, hrun⟩ | ⟨overflow, hrun⟩ | ⟨p, hloop, hrun⟩
  · rw [hrun]
    exact .refused hspec
  · rw [hrun]
    exact .offset overflow
  · rw [hrun]
    exact endsOnGrid_of_loop hclock hspanning hloop

/-- A strategy that fails at its slice of a number; its state counts them. -/
def failsAt (n : Nat) : Strategy where
  State := Nat
  Code := Empty
  spec := ⟨"fails-at", none⟩
  initial := 0
  onStart state := Strategy.idle state
  onSecuritiesChanged state _ := Strategy.idle state
  onData state _ := .done ⟨state + 1, if state + 1 = n then some (.message "stop") else none⟩
  onOrderEvent state _ := Strategy.idle state
  onScheduled state _ := Strategy.idle state
  onCallback state _ := Strategy.idle state

/-- An hourly run over the sample week that fails at 05:00 of the second date. -/
def failing : Engine where
  settings := { RunSettings.sample with resolution := .hour }
  selector := .static [.equity "SPY"]
  prices _ := some (samplePrints (.equity "SPY") [100000000])
  contracts _ _ := []
  host := ⟨some (failsAt 30)⟩

/-- The failing run takes 30 of its 120 steps, the last one 29 hours after the first, and has
sampled the portfolio for the first date only. -/
theorem failing_sampled_once : ∃ result, failing.run = .ok result ∧ result.steps = 30 ∧
    (failing.taken (failsAt 30) failing.span).map (fun s => some s.now) =
      (List.range 30).map (gridInstant? RunSettings.sampleStart .hour) ∧
    result.equityCurve.map (fun point => some point.date) = [some RunSettings.sampleStart] := by
  have hevaluated : failing.run.toOption.map (fun r => (r.steps, r.failure.isSome)) =
      some (30, true) := by decide +kernel
  have hconfigure : configure failing.settings (some failing.selector) failing.prices
      failing.contracts = .ok { failing with host := .empty } := rfl
  have hadd : addStrategy { failing with host := .empty } (failsAt 30) = .ok failing := rfl
  obtain ⟨-, -, -, hrun⟩ := runs_on_grid hconfigure hadd (by decide)
  cases hresult : failing.run with
  | error failure =>
      rw [hresult] at hevaluated
      cases hevaluated
  | ok result =>
      rw [hresult] at hevaluated hrun
      obtain ⟨hsteps, hsome⟩ := Prod.mk.inj (Option.some.inj hevaluated)
      obtain ⟨f, hf⟩ := Option.isSome_iff_exists.1 hsome
      have hinstants := hrun.instants_eq
      rw [hsteps] at hinstants
      refine ⟨result, rfl, hsteps, hinstants, ?_⟩
      rcases hrun.of_failed f hf with hstart | ⟨past, s, hstep⟩
      · rw [hstart.steps_eq] at hsteps
        cases hsteps
      · -- The last instant of the grid is on the second date.
        rw [hstep.taken_eq, List.range_succ, List.map_append, List.map_append, List.map_singleton,
          List.map_singleton] at hinstants
        have hlast := List.singleton_inj.1 (List.append_inj' hinstants rfl).2
        have hday := Date.addDays?_eq_some_iff.1 (date_of_gridInstant? hlast.symm)
        have hone : (s.now.date.day - failing.settings.start.day).toNat = 1 := by
          rw [hday]
          rfl
        rw [hstep.sampled, hone]
        decide

end Engine

end MarketReplay
