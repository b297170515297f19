import MarketReplay.Proofs.Civil.DateRanges
import MarketReplay.Proofs.Run.ClosingHours
import MarketReplay.Proofs.Run.Dispatch
import MarketReplay.Proofs.Run.OpeningFills

/-!
# The orders of the daily strategy

The daily strategy has one schedule, due an hour before the close of every trading day. A step that
does not fail places an order if it is at such a moment, and none otherwise (`Builtin.Daily.step`).
A clock with steps of at most an hour gives each of these moments, so a run that comes to its end
has one order for each of its trading days (`Engine.daily_orders`), and those that are filled are
filled on a later date (`Engine.opening_filled_later`).
-/

namespace MarketReplay

namespace RunState

variable {S : Strategy} {sel : Selector}

/-- A callback has the outcome and the kernel of its program. -/
theorem call_of_run {r : RunState S sel} {now : Instant} (label : String)
    {program : S.State → Program S.Code (Outcome S.State)} {outcome : Outcome S.State}
    {kernel : Kernel S.Code} (h : (program r.strategy).run now r.kernel = (outcome, kernel)) :
    r.call now label program = ({ r with kernel, strategy := outcome.state },
      outcome.error.map fun error => ⟨now, label, error.text⟩) := by
  unfold call
  rw [h]

/-- Where no schedule was asked for, none is installed. -/
theorem install_scheduler {r : RunState S sel} (h : r.kernel.pending = []) :
    r.install.scheduler = r.scheduler := by
  unfold install Kernel.install
  rw [h]
  rfl

end RunState

namespace Builtin

variable {params : Params} {sel : Selector}

/-- What an order of the daily strategy says: symbol, quantity, type and the instant of its
submission, and no tag. -/
def Params.placed (params : Params) (now : Instant) :
    Symbol × Int × OrderType × Instant × Option String :=
  (params.symbol, params.quantity, .marketOnOpen, now, none)

/-- What the orders of a book say besides their numbers. -/
def placements (b : OrderBook) : List (Symbol × Int × OrderType × Instant × Option String) :=
  b.orders.map fun o => o.terms.2

section Programs

variable {κ σ : Type}

/-- A subscription that is refused fails; after one that is not the program goes on. -/
theorem run_subscribeThen (symbol : Symbol) (state : σ) (next : Program κ (Outcome σ))
    (now : Instant) (k : Kernel κ) :
    (subscribeThen symbol state next).run now k =
      match k.tracked.addInstrument symbol with
      | .error refusal => (⟨state, some (.subscription refusal)⟩, k)
      | .ok tracked => next.run now { k with tracked } := by
  show (let (reply, k') := k.subscribe (k.tracked.addInstrument symbol); Program.run now _ k') = _
  cases k.tracked.addInstrument symbol <;> rfl

/-- An order that is refused fails; one that is accepted is in the book. -/
theorem run_orderThen (request : OrderRequest) (state after : σ) (now : Instant) (k : Kernel κ) :
    (orderThen request state after : Program κ (Outcome σ)).run now k =
      match k.book.submit request k.tracked k.portfolio.cash now with
      | .error refusal => (⟨state, some (.order refusal)⟩, k)
      | .ok (_, book) => (⟨after, none⟩, { k with book }) := by
  show (let (reply, k') := k.submit now request; Program.run now _ k') = _
  unfold Kernel.submit
  cases k.book.submit request k.tracked k.portfolio.cash now <;> rfl

end Programs

/-! ### One step -/

/-- A state of the daily strategy and what callbacks at an instant make of it: a number of orders
are placed, and the schedules stay. -/
structure Places (params : Params) (now : Instant) (n : Nat)
    (r r' : RunState (mooDaily params) sel) : Prop where
  scheduler_eq : r'.scheduler = r.scheduler
  pending_eq : r'.kernel.pending = r.kernel.pending
  placements_eq : placements r'.kernel.book =
    placements r.kernel.book ++ List.replicate n (params.placed now)

variable {now : Instant} {r r' r'' : RunState (mooDaily params) sel}

theorem Places.trans {n n' : Nat} (h : Places params now n r r')
    (h' : Places params now n' r' r'') : Places params now (n + n') r r'' := by
  refine ⟨h'.scheduler_eq.trans h.scheduler_eq, h'.pending_eq.trans h.pending_eq, ?_⟩
  rw [h'.placements_eq, h.placements_eq, List.append_assoc, List.replicate_append_replicate]

/-- The market's part of a step places no order. -/
theorem market_places (r : RunState (mooDaily params) sel) (now : Instant) :
    Places params now 0 r (r.market now).2.2 := by
  refine ⟨rfl, rfl, ?_⟩
  have hterms := congrArg (List.map Prod.snd) (r.market_terms now)
  rw [List.map_map, List.map_map] at hterms
  exact hterms.trans (List.append_nil _).symm

/-- The strategy does nothing about changes and data. -/
theorem notify_places (r : RunState (mooDaily params) sel) (now : Instant) (changes : Changes)
    (slice : DataSlice) :
    (r.notify now changes slice).2 = none ∧
      Places params now 0 r (r.notify now changes slice).1 := by
  have hdata : ∀ q : RunState (mooDaily params) sel, q.notifyData now slice = (q, none) := by
    intro q
    unfold RunState.notifyData
    split <;> rfl
  have hchanges : ∃ merged, r.notifyChanges now changes = ({ r with merged }, none) := by
    unfold RunState.notifyChanges
    split
    · exact ⟨r.merged, rfl⟩
    · exact ⟨r.merged.merge changes, rfl⟩
  obtain ⟨merged, hdone⟩ := hchanges
  have hnotify : r.notify now changes slice = ({ r with merged }, none) := by
    unfold RunState.notify
    rw [hdone]
    exact hdata _
  rw [hnotify]
  exact ⟨rfl, rfl, rfl, (List.append_nil _).symm⟩

/-- The strategy answers a report of its schedule by one order, unless this is refused. -/
theorem deliver_fire {due : DueCallback} {entry : ScheduleEntry Empty} {name : String}
    (hentry : r.scheduler.entry? due.entry = some entry) (haction : entry.action = .named name)
    (h : r.deliver now (.fire due) = (r', none)) : Places params now 1 r r' := by
  have hfire : r.scheduler.fire (mooDaily params) due r.strategy =
      orderThen ⟨params.symbol, params.quantity, .marketOnOpen, none⟩ r.strategy r.strategy := by
    unfold Scheduler.fire
    simp only [hentry, Strategy.onDue, haction]
    rfl
  have hprogram := run_orderThen ⟨params.symbol, params.quantity, .marketOnOpen, none⟩ r.strategy
    r.strategy now r.kernel
  rw [← hfire] at hprogram
  cases hsubmit : r.kernel.book.submit ⟨params.symbol, params.quantity, .marketOnOpen, none⟩
      r.kernel.tracked r.kernel.portfolio.cash now with
  | error refusal =>
      rw [hsubmit] at hprogram
      rw [RunState.deliver, RunState.call_of_run _ hprogram] at h
      cases h
  | ok accepted =>
      obtain ⟨order, book⟩ := accepted
      rw [hsubmit] at hprogram
      rw [RunState.deliver, RunState.call_of_run _ hprogram] at h
      obtain ⟨rfl, -⟩ := Prod.mk.inj h
      obtain ⟨-, rfl, horders⟩ := OrderBook.submit_edit hsubmit
      refine ⟨rfl, rfl, ?_⟩
      unfold placements
      rw [horders, List.map_append]
      rfl

/-- Deliveries that do not fail place an order for each report among them. -/
theorem deliverAll_places {deliveries : List Delivery}
    (hnamed : ∀ due ∈ RunState.firesOf deliveries, ∃ entry name,
      r.scheduler.entry? due.entry = some entry ∧ entry.action = .named name)
    (h : RunState.deliverAll now deliveries r = (r', none)) :
    Places params now (RunState.firesOf deliveries).length r r' := by
  induction deliveries generalizing r with
  | nil =>
      obtain ⟨rfl, -⟩ := Prod.mk.inj h
      exact ⟨rfl, rfl, (List.append_nil _).symm⟩
  | cons d rest ih =>
      rw [RunState.deliverAll] at h
      split at h
      · cases h
      · rename_i q hdeliver
        cases d with
        | event e =>
            obtain ⟨rfl, -⟩ := Prod.mk.inj hdeliver
            have hrest := ih (r := { r with delivered := r.delivered ++ [e] }) hnamed h
            exact ⟨hrest.scheduler_eq, hrest.pending_eq, hrest.placements_eq⟩
        | fire due =>
            obtain ⟨entry, name, hentry, haction⟩ := hnamed due List.mem_cons_self
            have hfirst := deliver_fire hentry haction hdeliver
            have hrest := ih (fun x hx => by
              rw [hfirst.scheduler_eq]
              exact hnamed x (List.mem_cons_of_mem _ hx)) h
            have hall := hfirst.trans hrest
            rwa [Nat.add_comm] at hall

/-- A state of the daily strategy after steps at some instants: its one schedule was followed
through them, and an order was placed at each of them that is an hour before a close. -/
structure Daily (calendar : Calendar) (registered : DateTime) (params : Params)
    (asked : List Instant) (r : RunState (mooDaily params) sel) : Prop where
  calendar_eq : r.scheduler.calendar = calendar
  entry : ∃ entry, r.scheduler.entries = [entry] ∧ entry.action = .named "moo" ∧
    Scheduler.History.Followed calendar hourBeforeClose registered (asked.map Instant.time) entry
  pending_eq : r.kernel.pending = []
  placements_eq : placements r.kernel.book =
    (asked.filter fun i => hourBeforeClose.isMoment calendar i.time).map params.placed

/-- One more step that does not fail places an order if it is at an hour before a close. -/
theorem Daily.step {calendar : Calendar} {registered : DateTime} {asked : List Instant}
    (h : Daily calendar registered params asked r)
    (hpunctual : Scheduler.Punctual calendar hourBeforeClose registered
      (asked.map Instant.time) now.time)
    (hstep : r.step now = .ok (r', none)) :
    Daily calendar registered params (asked ++ [now]) r' := by
  obtain ⟨hnone, htold⟩ := notify_places (r.market now).2.2 now (r.market now).1
    (r.market now).2.1
  obtain ⟨q, f, hfailed, -, -⟩ | ⟨q, q', hdone, hdispatch, rfl⟩ := RunState.step_cases hstep
  · rw [hfailed] at hnone
    cases hnone
  rw [hdone] at htold
  have hbefore := (market_places r now).trans htold
  obtain ⟨due, scheduler, hdue, hresult⟩ := RunState.dispatch_eq hdispatch
  obtain ⟨entry, hentries, haction, hfollowed⟩ := h.entry
  obtain rfl := h.calendar_eq
  rw [hbefore.scheduler_eq] at hdue
  obtain ⟨entry', hcalendar, hentries', hid, haction', hfollowed', hreports⟩ :=
    Scheduler.due_punctual hentries hfollowed hpunctual hdue
  -- Every report is one of the schedule.
  have hnamed : ∀ d ∈ due, ∃ entry name,
      scheduler.entry? d.entry = some entry ∧ entry.action = .named name := by
    intro d hd
    refine ⟨entry', "moo", ?_, haction'.trans haction⟩
    rw [hreports] at hd
    split at hd
    · rw [List.mem_singleton.1 hd, ← hid]
      exact Scheduler.entry?_of_single hentries'
    · cases hd
  have hplaces := deliverAll_places (by rwa [firesOf_interleave]) hresult
  rw [firesOf_interleave] at hplaces
  have hpending : q'.kernel.pending = [] :=
    hplaces.pending_eq.trans (hbefore.pending_eq.trans h.pending_eq)
  have hinstalled : q'.install.scheduler = scheduler :=
    (RunState.install_scheduler hpending).trans hplaces.scheduler_eq
  refine ⟨?_, ⟨entry', ?_, haction'.trans haction, ?_⟩, rfl, ?_⟩
  · rw [hinstalled, hcalendar]
  · rw [hinstalled, hentries']
  · rw [List.map_append]
    exact hfollowed'
  · have hbook : placements q'.install.kernel.book = placements q.kernel.book ++
        List.replicate due.length (params.placed now) := hplaces.placements_eq
    rw [hbook, hbefore.placements_eq, h.placements_eq, List.filter_append, List.map_append,
      hreports, List.filter_singleton]
    cases hourBeforeClose.isMoment r.scheduler.calendar now.time <;> simp

/-! ### The run -/

variable {e : Engine} {fuel : Nat}

/-- The daily strategy is initialized with its schedule and no order, or fails. -/
theorem begin_daily (hnone : (e.begin (mooDaily params)).failure = none) :
    Daily e.settings.calendar e.initial.time params [] (e.begin (mooDaily params)).state := by
  let start := RunState.start (mooDaily params) e.selector e.settings e.prices e.contracts
  let schedule : Program Empty (Outcome Unit) :=
    .perform (.schedule hourBeforeClose (.named "moo")) fun _ => Strategy.idle ()
  have hprogram := run_subscribeThen params.symbol () schedule e.initial start.kernel
  -- What the initialization leaves is what its program does to the kernel.
  have hbegin : ∀ {outcome kernel},
      (subscribeThen params.symbol () schedule).run e.initial start.kernel = (outcome, kernel) →
        e.begin (mooDaily params) =
          ⟨RunState.install { start with kernel, strategy := outcome.state }, 0, [],
            outcome.error.map fun error => ⟨e.initial, "initialize", error.text⟩⟩ := by
    intro outcome kernel hrun
    have hcall : start.call e.initial "initialize" (mooDaily params).onStart =
        ({ start with kernel, strategy := outcome.state },
          outcome.error.map fun error => ⟨e.initial, "initialize", error.text⟩) :=
      RunState.call_of_run "initialize" hrun
    exact congrArg (fun result => (⟨result.1.install, 0, [], result.2⟩ :
      RunProgress (mooDaily params) e.selector)) hcall
  cases hadd : start.kernel.tracked.addInstrument params.symbol with
  | error refusal =>
      rw [hadd] at hprogram
      rw [hbegin hprogram] at hnone
      cases hnone
  | ok tracked =>
      rw [hadd] at hprogram
      rw [hbegin hprogram]
      exact ⟨rfl, ⟨_, rfl, rfl, Scheduler.History.Followed.start _ _ _ _ _⟩, rfl, rfl⟩

/-- After the steps of a run that does not fail, the daily strategy has placed an order at each of
them that is an hour before a close. -/
theorem after_daily {p : RunProgress (mooDaily params) e.selector}
    (hr : e.settings.resolution ≠ .daily) (h : e.after (mooDaily params) fuel = .ok p)
    (hnone : p.failure = none)
    (hgrid : FirstOfGrid e.settings.start e.settings.resolution
      ((e.taken (mooDaily params) fuel).map StepTaken.now)) :
    Daily e.settings.calendar e.initial.time params
      ((e.taken (mooDaily params) fuel).map StepTaken.now) p.state := by
  refine Engine.after_induction (P := fun past p =>
    FirstOfGrid e.settings.start e.settings.resolution (past.map StepTaken.now) →
      p.failure = none → Daily e.settings.calendar e.initial.time params
        (past.map StepTaken.now) p.state) ?_ ?_ h hgrid hnone
  · exact fun _ hbegin => begin_daily hbegin
  · intro past s hpast hbefore htaken hgrid hafter
    have hnow : (past ++ [s]).map StepTaken.now = past.map StepTaken.now ++ [s.now] :=
      List.map_append
    have hstep := (RunProgress.step_eq htaken).1
    rw [hafter] at hstep
    rw [hnow] at hgrid ⊢
    exact (hpast hgrid.of_concat.1 hbefore).step (hgrid.punctual hr e.settings.calendar) hstep

end Builtin

namespace Engine

variable {e : Engine} {S : Strategy} {fuel : Nat}

/-- In every run an order for the opening is filled on a later date than that of its submission. -/
theorem opening_filled_later {p : RunProgress S e.selector} (h : e.after S fuel = .ok p) {o : Order}
    (ho : o ∈ p.state.kernel.book.orders) (htype : o.orderType = .marketOnOpen)
    (hfilled : o.status = .filled) :
    ∃ time, o.fillTime = some time ∧ o.submitted.date < time.date := by
  obtain ⟨s, hs, hfills⟩ := (filled_iff_fills h ho).1 hfilled
  obtain ⟨past, later, hsplit⟩ := List.append_of_mem hs
  obtain ⟨b, -, hbecomes, hfill⟩ := fills_at h ho hsplit hfills
  obtain ⟨-, -, quote, -, price, time, hby, hvalue⟩ := OrderBook.fill?_eq_some_iff.1 hfill
  obtain ⟨due, opening, hdue, -, hreached, -, rfl⟩ :=
    (OrderBook.fillBy_marketOnOpen (hbecomes.orderType_eq.symm.trans htype)).1 hby
  rw [← hbecomes.submitted_eq] at hdue
  refine ⟨opening.time, ?_, Calendar.lt_date_of_nextSessionOpen hdue hreached⟩
  rw [hvalue]

/-- The orders of a run of the daily strategy that comes to its end without a failure, where the
steps are at most an hour: one for the opening, of the quantity of the strategy, for each trading
day of the run, in the order of the dates, submitted sixty minutes before the close of the session.
Those that are filled are filled on a later date than that of their submission. -/
theorem daily_orders {params : Builtin.Params} {result : RunResult}
    (hhost : e.host.strategy = .ok (Builtin.mooDaily params))
    (hresolution : e.settings.resolution ≠ .daily) (h : e.run = .ok result)
    (hok : result.failure = none) :
    result.orders.map (fun o => (o.symbol, o.quantity, o.orderType, some o.submitted.time)) =
      ((e.settings.start.datesThrough e.settings.stop).filter e.settings.calendar.isTradingDay).map
        (fun date => (params.symbol, params.quantity, OrderType.marketOnOpen,
          (e.settings.calendar.sessionClose date).bind fun close => close.addSeconds? (-3600))) ∧
    ∀ o ∈ result.orders, o.status = .filled →
      ∃ time, o.fillTime = some time ∧ o.submitted.date < time.date := by
  obtain ⟨S, p, hS, hafter, rfl⟩ := run_eq h
  rw [hhost] at hS
  obtain rfl := Except.ok.inj hS
  have hnone : p.failure = none := hok
  obtain ⟨hgrid, hlength, hlast⟩ := takes_grid hafter hnone
  have hdaily := Builtin.after_daily hresolution hafter hnone hgrid
  generalize (e.taken (Builtin.mooDaily params) e.span).map StepTaken.now = instants
    at hgrid hlength hdaily
  have hplaced := hdaily.placements_eq
  refine ⟨?_, fun o ho hfilled => opening_filled_later hafter ho ?_ hfilled⟩
  · let moments := instants.filter fun i =>
      Builtin.hourBeforeClose.isMoment e.settings.calendar i.time
    have hdates : moments.map Instant.date =
        (e.settings.start.datesThrough e.settings.stop).filter e.settings.calendar.isTradingDay :=
      hgrid.dates_of_moments hresolution hlength hlast e.settings.calendar
    -- The moment of an order is the one an hour before the close of its date.
    have hmoments : moments.map (fun i => some i.time) =
        (moments.map Instant.date).map e.settings.calendar.closingHour := by
      rw [List.map_map]
      refine List.map_congr_left fun i hi => ?_
      exact (Builtin.isMoment_hourBeforeClose.1 (List.mem_filter.1 hi).2).symm
    let placedAt : Option DateTime → Symbol × Int × OrderType × Option DateTime :=
      fun t => (params.symbol, params.quantity, .marketOnOpen, t)
    calc p.state.kernel.book.orders.map
          (fun o => (o.symbol, o.quantity, o.orderType, some o.submitted.time))
        = (Builtin.placements p.state.kernel.book).map
            (fun x => (x.1, x.2.1, x.2.2.1, some x.2.2.2.1.time)) := by
          rw [Builtin.placements, List.map_map]
          rfl
      _ = (moments.map fun i => some i.time).map placedAt := by
          rw [hplaced, List.map_map, List.map_map]
          rfl
      _ = (((e.settings.start.datesThrough e.settings.stop).filter
            e.settings.calendar.isTradingDay).map e.settings.calendar.closingHour).map
              placedAt := by
          rw [hmoments, hdates]
      _ = _ := List.map_map
  · have hmem : o.terms.2 ∈ Builtin.placements p.state.kernel.book := List.mem_map_of_mem ho
    rw [hplaced] at hmem
    obtain ⟨i, -, hterms⟩ := List.mem_map.1 hmem
    exact (congrArg (fun terms => terms.2.2.1) hterms).symm

/-- A bar of a Monday that opens at 108 and closes at 110. -/
def mondayBar : PricePoint :=
  ⟨.equity "SPY", .midnight (.civil 2013 10 14), 110000000, some 108000000, PricePoint.unitFactor⟩

/-- The hourly run of the daily strategy from a Friday through the Monday after it, over this
bar. -/
def overWeekend : Engine :=
  { sample (Builtin.mooDaily ⟨.equity "SPY", 2⟩) (.equity "SPY") [] with
    settings :=
      { RunSettings.sample with
        start := .civil 2013 10 11
        stop := .civil 2013 10 14
        resolution := .hour }
    prices := fun symbol => if symbol = .equity "SPY" then some [mondayBar] else none }

/-- There is an order on each of the two trading days, at three in the afternoon, and none on the
weekend. That of the Friday is filled on the Monday. -/
theorem overWeekend_orders :
    overWeekend.host.strategy = .ok (Builtin.mooDaily ⟨.equity "SPY", 2⟩) ∧
    overWeekend.settings.resolution ≠ .daily ∧
    ∃ result, overWeekend.run = .ok result ∧ result.failure = none ∧
      result.orders.map (fun o => (o.symbol, o.quantity, o.orderType, some o.submitted.time)) =
        [(.equity "SPY", 2, .marketOnOpen, some (.clock (.civil 2013 10 11) 15 0)),
          (.equity "SPY", 2, .marketOnOpen, some (.clock (.civil 2013 10 14) 15 0))] ∧
      ∃ o ∈ result.orders, o.status = .filled ∧
        ∃ time, o.fillTime = some time ∧ o.submitted.date < time.date := by
  have hhost : overWeekend.host.strategy = .ok (Builtin.mooDaily ⟨.equity "SPY", 2⟩) := rfl
  have hresolution : overWeekend.settings.resolution ≠ .daily := by decide
  have hrun : overWeekend.run.toOption.map (fun r => (r.failure, r.orders.any fun o =>
      o.status = .filled)) = some (none, true) := by
    decide +kernel
  obtain ⟨result, hresult, hfacts⟩ := Option.map_eq_some_iff.1 hrun
  obtain ⟨hnone, hany⟩ := Prod.mk.inj hfacts
  have hok := eq_ok_of_toOption hresult
  obtain ⟨horders, hlater⟩ := daily_orders hhost hresolution hok hnone
  obtain ⟨o, ho, hfilled⟩ := List.any_eq_true.1 hany
  have hstatus : o.status = .filled := of_decide_eq_true hfilled
  refine ⟨hhost, hresolution, result, hok, hnone, horders.trans ?_, o, ho, hstatus,
    hlater o ho hstatus⟩
  decide +kernel

end Engine

end MarketReplay
