import MarketReplay.Proofs.Strategy.Commands
import MarketReplay.Run.State

/-!
# What the phases of a step change

`step_cases` says once what a step is: the market's part, then callbacks up to the first that
fails. Callbacks only command the kernel (`RunState.Called`); the dispatch phase drains the book
and records the events that it delivers, all of them unless a callback fails.
-/

namespace MarketReplay.RunState

variable {S : Strategy} {sel : Selector} {past : List OrderEvent}

/-- The state before the deliveries of a dispatch: the book is drained, and the scheduler has
reported what is due. -/
def drained (r : RunState S sel) (scheduler : Scheduler S.Code) : RunState S sel :=
  { r with kernel := { r.kernel with book := r.kernel.book.drain.2 }, scheduler }

/-- A dispatch delivers the drained events and the due reports in turn. -/
theorem dispatch_eq {r r' : RunState S sel} {now : Instant} {failure : Option RunFailure}
    (h : r.dispatch now = .ok (r', failure)) :
    ∃ due scheduler, r.scheduler.due now.time = .ok (due, scheduler) ∧
      deliverAll now (interleave r.kernel.book.drain.1 due) (r.drained scheduler) =
        (r', failure) := by
  unfold dispatch at h
  simp only at h
  split at h
  · exact absurd h (by simp)
  · rename_i due scheduler hdue
    exact ⟨due, scheduler, hdue, Except.ok.inj h⟩

/-- A step takes the market's part and calls the strategy with changes and data; it ends there with
a failure, or goes on to the dispatch. At its end it installs schedules. -/
theorem step_cases {r r' : RunState S sel} {now : Instant} {failure : Option RunFailure}
    (h : r.step now = .ok (r', failure)) :
    (∃ q f, (r.market now).2.2.notify now (r.market now).1 (r.market now).2.1 = (q, some f) ∧
      failure = some f ∧ r' = q.install) ∨
    ∃ q q', (r.market now).2.2.notify now (r.market now).1 (r.market now).2.1 = (q, none) ∧
      q.dispatch now = .ok (q', failure) ∧ r' = q'.install := by
  unfold step phases at h
  simp only at h
  split at h
  · rename_i q f hfailed
    obtain ⟨rfl, rfl⟩ := Prod.mk.inj (Except.ok.inj h)
    exact .inl ⟨q, f, hfailed, rfl, rfl⟩
  · rename_i q hdone
    cases hdispatch : q.dispatch now with
    | error o => rw [hdispatch] at h; exact absurd h (by simp [Except.map])
    | ok result =>
        obtain ⟨q', f⟩ := result
        rw [hdispatch] at h
        obtain ⟨rfl, rfl⟩ := Prod.mk.inj (Except.ok.inj h)
        exact .inr ⟨q, q', hdone, hdispatch, rfl⟩

/-- A run state and what callbacks make of it: the kernel was commanded, and what the strategy
cannot reach stays. -/
structure Called (r r' : RunState S sel) : Prop where
  kernel : Kernel.Commanded r.kernel r'.kernel
  scheduler_eq : r'.scheduler = r.scheduler
  feed_eq : r'.feed = r.feed
  marks_eq : r'.marks = r.marks
  selector_eq : r'.selector = r.selector

theorem Called.refl (r : RunState S sel) : Called r r := ⟨.refl r.kernel, rfl, rfl, rfl, rfl⟩

theorem Called.trans {r r' r'' : RunState S sel} (h : Called r r') (h' : Called r' r'') :
    Called r r'' :=
  ⟨h.kernel.trans h'.kernel, h'.scheduler_eq.trans h.scheduler_eq, h'.feed_eq.trans h.feed_eq,
    h'.marks_eq.trans h.marks_eq, h'.selector_eq.trans h.selector_eq⟩

/-- A callback that fails is reported by its label. -/
theorem call_callback {r : RunState S sel} {now : Instant} {label : String}
    {program : S.State → Program S.Code (Outcome S.State)} {failure : RunFailure}
    (h : (r.call now label program).2 = some failure) : failure.callback = label := by
  obtain ⟨e, -, rfl⟩ := Option.map_eq_some_iff.1 h
  rfl

/-- A callback commands the kernel. -/
theorem call_called {r : RunState S sel} (hr : r.kernel.book.Consistent past) (now : Instant)
    (label : String) (program : S.State → Program S.Code (Outcome S.State)) :
    Called r (r.call now label program).1 :=
  ⟨(program r.strategy).run_commanded now hr, rfl, rfl, rfl, rfl⟩

/-- Telling the strategy of changes commands the kernel. -/
theorem notifyChanges_called {r : RunState S sel} (hr : r.kernel.book.Consistent past)
    (now : Instant) (changes : Changes) : Called r (r.notifyChanges now changes).1 := by
  unfold notifyChanges
  split
  · exact .refl r
  · have hcall := call_called (r := { r with merged := r.merged.merge changes }) hr now
      "on_securities_changed" fun state => S.onSecuritiesChanged state changes
    exact ⟨hcall.kernel, rfl, rfl, rfl, rfl⟩

/-- Giving a slice to the strategy commands the kernel. -/
theorem notifyData_called {r : RunState S sel} (hr : r.kernel.book.Consistent past)
    (now : Instant) (slice : DataSlice) : Called r (r.notifyData now slice).1 := by
  unfold notifyData
  split
  · exact .refl r
  · exact call_called hr now _ _

/-- Changes and slice together command the kernel. -/
theorem notify_called {r : RunState S sel} (hr : r.kernel.book.Consistent past) (now : Instant)
    (changes : Changes) (slice : DataSlice) : Called r (r.notify now changes slice).1 := by
  have hchanges := notifyChanges_called hr now changes
  unfold notify
  split
  · rename_i hfailed
    rwa [hfailed] at hchanges
  · rename_i r' hdone
    rw [hdone] at hchanges
    exact hchanges.trans (notifyData_called (hchanges.kernel.consistent hr) now slice)

/-- Changes and slice deliver no order event and read nothing from the feed. -/
theorem notify_keeps (r : RunState S sel) (now : Instant) (changes : Changes)
    (slice : DataSlice) : (r.notify now changes slice).1.delivered = r.delivered ∧
      (r.notify now changes slice).1.feed = r.feed := by
  have hdata : ∀ q : RunState S sel, (q.notifyData now slice).1.delivered = q.delivered ∧
      (q.notifyData now slice).1.feed = q.feed := by
    intro q
    unfold notifyData
    split <;> exact ⟨rfl, rfl⟩
  have hchanges : (r.notifyChanges now changes).1.delivered = r.delivered ∧
      (r.notifyChanges now changes).1.feed = r.feed := by
    unfold notifyChanges
    split <;> exact ⟨rfl, rfl⟩
  unfold notify
  split <;> rename_i hresult <;> rw [hresult] at hchanges
  · exact hchanges
  · exact ⟨(hdata _).1.trans hchanges.1, (hdata _).2.trans hchanges.2⟩

/-- Changes and slice keep the book in agreement with the delivered events. -/
theorem notify_consistent {r q : RunState S sel} {now : Instant} {changes : Changes}
    {slice : DataSlice} {failure : Option RunFailure}
    (hr : r.kernel.book.Consistent r.delivered)
    (h : r.notify now changes slice = (q, failure)) : q.kernel.book.Consistent q.delivered := by
  have hcalled := notify_called hr now changes slice
  have hkeeps := notify_keeps r now changes slice
  rw [h] at hcalled hkeeps
  rw [hkeeps.1]
  exact hcalled.kernel.consistent hr

/-! ### The dispatch phase -/

/-- The drained events leave the queue and are still to be delivered. -/
theorem drained_consistent {r : RunState S sel} (hr : r.kernel.book.Consistent r.delivered)
    (scheduler : Scheduler S.Code) : (r.drained scheduler).kernel.book.Consistent
      (r.delivered ++ r.kernel.book.drain.1) :=
  hr.drain

/-- The order events among deliveries. -/
def eventsOf (deliveries : List Delivery) : List OrderEvent :=
  deliveries.filterMap fun
    | .event e => some e
    | .fire _ => none

/-- The order events of deliveries are those of the first and then the others. -/
theorem eventsOf_cons (d : Delivery) (rest : List Delivery) :
    eventsOf (d :: rest) = eventsOf [d] ++ eventsOf rest := by
  rw [eventsOf, ← List.singleton_append, List.filterMap_append]
  rfl

/-- Fires are no order events. -/
theorem eventsOf_map_fire (due : List DueCallback) : eventsOf (due.map .fire) = [] := by
  induction due with
  | nil => rfl
  | cons d rest ih => exact ih

/-- The order events among interleaved deliveries are the events, in their order. -/
theorem eventsOf_interleave (events : List OrderEvent) (due : List DueCallback) :
    eventsOf (interleave events due) = events := by
  induction events generalizing due with
  | nil => exact eventsOf_map_fire due
  | cons e rest ih =>
      have hfires := eventsOf_map_fire (due.takeWhile fun d => decide (d.time < e.time))
      have hrest := ih (due.dropWhile fun d => decide (d.time < e.time))
      simp only [eventsOf] at hfires hrest ⊢
      rw [interleave, List.filterMap_append, hfires, List.nil_append, List.filterMap_cons, hrest]

/-- The events left over by a list of deliveries: those after the first one that fails. -/
def leftOver (now : Instant) : List Delivery → RunState S sel → List OrderEvent
  | [], _ => []
  | d :: rest, r =>
    match r.deliver now d with
    | (_, some _) => eventsOf rest
    | (r', none) => leftOver now rest r'

/-- A delivery commands the kernel. -/
theorem deliver_called {r : RunState S sel} (hr : r.kernel.book.Consistent past) (now : Instant)
    (d : Delivery) : Called r (r.deliver now d).1 := by
  cases d with
  | event e =>
      have hcall := call_called (r := { r with delivered := r.delivered ++ [e] }) hr now
        "on_order_event" fun state => S.onOrderEvent state e
      exact ⟨hcall.kernel, rfl, rfl, rfl, rfl⟩
  | fire due => exact call_called hr now _ _

/-- A delivery records its order event, if it has one, whether or not the callback fails. -/
theorem deliver_delivered (r : RunState S sel) (now : Instant) (d : Delivery) :
    (r.deliver now d).1.delivered = r.delivered ++ eventsOf [d] := by
  cases d with
  | event e => rfl
  | fire due => exact (List.append_nil _).symm

/-- Deliveries in turn command the kernel. -/
theorem deliverAll_called (now : Instant) (deliveries : List Delivery) {r : RunState S sel}
    (hr : r.kernel.book.Consistent past) : Called r (deliverAll now deliveries r).1 := by
  induction deliveries generalizing r with
  | nil => exact .refl r
  | cons d rest ih =>
      have hdeliver := deliver_called hr now d
      rw [deliverAll]
      split
      · rename_i hfailed
        rwa [hfailed] at hdeliver
      · rename_i r' hdone
        rw [hdone] at hdeliver
        exact hdeliver.trans (ih (hdeliver.kernel.consistent hr))

/-- Deliveries in turn record their order events in order, up to those left over. -/
theorem deliverAll_delivered (now : Instant) (deliveries : List Delivery) (r : RunState S sel) :
    (deliverAll now deliveries r).1.delivered ++ leftOver now deliveries r =
      r.delivered ++ eventsOf deliveries := by
  induction deliveries generalizing r with
  | nil => rfl
  | cons d rest ih =>
      have hdeliver := deliver_delivered r now d
      rw [deliverAll, leftOver, eventsOf_cons, ← List.append_assoc, ← hdeliver]
      split
      · rename_i hfailed
        rw [hfailed]
      · rename_i r' hdone
        rw [hdone]
        exact ih r'

/-- Deliveries in turn read nothing from the feed. -/
theorem deliverAll_feed (now : Instant) (deliveries : List Delivery) (r : RunState S sel) :
    (deliverAll now deliveries r).1.feed = r.feed := by
  induction deliveries generalizing r with
  | nil => rfl
  | cons d rest ih =>
      have hdeliver : (r.deliver now d).1.feed = r.feed := by cases d <;> rfl
      rw [deliverAll]
      split <;> rename_i hresult <;> rw [hresult] at hdeliver
      · exact hdeliver
      · exact (ih _).trans hdeliver

/-- The feed of a step is read by the market's part alone. -/
theorem step_feed {r r' : RunState S sel} {now : Instant} {failure : Option RunFailure}
    (h : r.step now = .ok (r', failure)) : r'.feed = (r.market now).2.2.feed := by
  have hnotify := (notify_keeps (r.market now).2.2 now (r.market now).1 (r.market now).2.1).2
  obtain ⟨q, f, hfailed, -, rfl⟩ | ⟨q, q', hdone, hdispatch, rfl⟩ := step_cases h
  · rw [hfailed] at hnotify
    exact hnotify
  · rw [hdone] at hnotify
    obtain ⟨due, scheduler, -, hresult⟩ := dispatch_eq hdispatch
    have hdeliver := deliverAll_feed now (interleave q.kernel.book.drain.1 due)
      (q.drained scheduler)
    rw [hresult] at hdeliver
    exact hdeliver.trans hnotify

/-- Where no delivery fails nothing is left over. -/
theorem leftOver_eq_nil {now : Instant} {deliveries : List Delivery} {r : RunState S sel}
    (h : (deliverAll now deliveries r).2 = none) : leftOver now deliveries r = [] := by
  induction deliveries generalizing r with
  | nil => rfl
  | cons d rest ih =>
      rw [deliverAll] at h
      rw [leftOver]
      cases hdeliver : r.deliver now d with
      | mk r' failure =>
          rw [hdeliver] at h
          cases failure with
          | some failure => exact absurd h (by simp)
          | none => exact ih h

/-- The label of a schedule is made of its name or its number. -/
theorem label_eq {κ : Type} (s : Scheduler κ) (due : DueCallback) :
    (∃ name, s.label due = "scheduled:" ++ name) ∨
      ∃ id : Nat, s.label due = "scheduled#" ++ toString id := by
  unfold Scheduler.label
  split
  · exact .inl ⟨_, rfl⟩
  · exact .inr ⟨_, rfl⟩

/-- Whether a failure is that of a callback of the dispatch phase. -/
def InDispatch (failure : RunFailure) : Prop :=
  failure.callback = "on_order_event" ∨ (∃ name, failure.callback = "scheduled:" ++ name) ∨
    ∃ id : Nat, failure.callback = "scheduled#" ++ toString id

/-- A delivery that fails was that of an order event or of a schedule. -/
theorem deliverAll_inDispatch {now : Instant} {deliveries : List Delivery} {r : RunState S sel}
    {failure : RunFailure} (h : (deliverAll now deliveries r).2 = some failure) :
    InDispatch failure := by
  induction deliveries generalizing r with
  | nil => exact absurd h (by simp [deliverAll])
  | cons d rest ih =>
      rw [deliverAll] at h
      split at h
      · rename_i hfailed
        obtain rfl := Option.some.inj h
        have hfailed := congrArg Prod.snd hfailed
        cases d with
        | event e => exact .inl (call_callback hfailed)
        | fire due =>
            have hlabel := call_callback hfailed
            exact .inr (hlabel ▸ label_eq r.scheduler due)
      · exact ih h

end MarketReplay.RunState
