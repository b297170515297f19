import MarketReplay.Proofs.Run.Chronology
import MarketReplay.Proofs.Run.NoLookAhead
import MarketReplay.Proofs.Run.OrderSteps

/-!
# When market orders are filled

A step offers an order a print if it is later than the submission and the quote in its slice is not
older (`StepTaken.Offers`). A market order is filled by the first step that does, unless it was
canceled before (`Engine.filled_at_first_offer`). What carries this through a run is that an open
market order was offered nothing so far, and a filled one was (`Traced`).
-/

namespace MarketReplay

variable {S : Strategy} {sel : Selector}

/-- The status of the order of a number, if there is one. -/
def RunProgress.status? (p : RunProgress S sel) (id : Nat) : Option OrderStatus :=
  (p.state.kernel.book.get? id).map Order.status

namespace StepTaken

/-- Whether a step fills the order of a number. -/
def Fills (s : StepTaken S sel) (id : Nat) : Prop :=
  s.before.status? id ≠ some .filled ∧ s.after.status? id = some .filled

/-- Whether a step cancels the order of a number. -/
def Cancels (s : StepTaken S sel) (id : Nat) : Prop :=
  s.before.status? id ≠ some .canceled ∧ s.after.status? id = some .canceled

/-- Whether a step offers an order a print: it is later than the submission, and its slice has a
quote of the symbol with a print that is not older. -/
def Offers (s : StepTaken S sel) (o : Order) : Prop :=
  o.submitted.time < s.now.time ∧
    ∃ quote, s.slice.get? o.symbol = some quote ∧ o.submitted.time ≤ quote.time

/-- An order is offered what it is offered as it is later on. -/
theorem offers_congr {s : StepTaken S sel} {o o' : Order} (h : o.Becomes o') :
    s.Offers o' ↔ s.Offers o := by
  unfold Offers
  rw [h.symbol_eq, h.submitted_eq]

end StepTaken

namespace OrderBook

/-- A slice fills an open order by its quote, if the instant is later than the submission. -/
theorem fill?_eq_some_iff {calendar : Calendar} {now : Instant} {slice : DataSlice}
    {order filled : Order} :
    fill? calendar now slice order = some filled ↔
      order.status = .submitted ∧ order.submitted.time < now.time ∧
        ∃ quote, slice.get? order.symbol = some quote ∧
          ∃ price time, fillBy calendar order quote = some (price, time) ∧
            filled = { order with
              status := .filled, fillPrice := some price, fillTime := some time } := by
  constructor
  · intro h
    have hopen := (fill?_closes h).1
    unfold fill? at h
    split at h
    · rename_i hcan
      rw [Bool.and_eq_true] at hcan
      refine ⟨hopen, of_decide_eq_true hcan.2, ?_⟩
      split at h
      · cases h
      · rename_i quote hquote
        obtain ⟨⟨price, time⟩, hby, rfl⟩ := Option.map_eq_some_iff.1 h
        exact ⟨quote, hquote, price, time, hby, rfl⟩
    · cases h
  · rintro ⟨hopen, hlater, quote, hquote, price, time, hby, rfl⟩
    have hcan : (order.isOpen && order.submitted.before now) = true := by
      simp [Order.isOpen, hopen, OrderStatus.isTerminal, Instant.before, hlater]
    unfold fill?
    simp only [hcan, hquote, hby, if_true, Option.map_some]

/-- A slice fills only orders that were submitted before its instant. -/
theorem fill?_later {calendar : Calendar} {now : Instant} {slice : DataSlice}
    {order filled : Order} (h : fill? calendar now slice order = some filled) :
    order.submitted.time < now.time :=
  (fill?_eq_some_iff.1 h).2.1

/-- A quote fills a market order if its print is not older than the submission. -/
theorem fillBy_market (calendar : Calendar) {order : Order} (hmarket : order.orderType = .market)
    (quote : Quote) : fillBy calendar order quote =
      if order.submitted.time ≤ quote.time then some (quote.price, quote.time) else none := by
  unfold fillBy
  rw [hmarket]

/-- A slice fills an open market order at its quote, if the instant is later than the submission and
the print is not older. -/
theorem fill?_market {calendar : Calendar} {now : Instant} {slice : DataSlice} {order : Order}
    (hmarket : order.orderType = .market) {filled : Order} :
    fill? calendar now slice order = some filled ↔
      order.status = .submitted ∧ order.submitted.time < now.time ∧
        ∃ quote, slice.get? order.symbol = some quote ∧ order.submitted.time ≤ quote.time ∧
          filled = { order with
            status := .filled, fillPrice := some quote.price, fillTime := some quote.time } := by
  rw [fill?_eq_some_iff]
  refine and_congr_right fun _ => and_congr_right fun _ => exists_congr fun quote =>
    and_congr_right fun _ => ?_
  rw [fillBy_market calendar hmarket]
  constructor
  · rintro ⟨price, time, hby, rfl⟩
    obtain ⟨hprint, hvalues⟩ := Option.ite_none_right_eq_some.1 hby
    obtain ⟨rfl, rfl⟩ := Prod.mk.inj (Option.some.inj hvalues)
    exact ⟨hprint, rfl⟩
  · rintro ⟨hprint, rfl⟩
    exact ⟨quote.price, quote.time, if_pos hprint, rfl⟩

end OrderBook

/-! ### Steps -/

/-- What is known of the orders of a run after some of its steps, started from a progress at a
moment: none is older than the moment, nor than a step before which it was not in the book; an open
market order was offered nothing so far, while a filled one was; and a canceled one was canceled in
the beginning or by a step. -/
structure Traced (start : DateTime) (first : RunProgress S sel)
    (past : List (StepTaken S sel)) (p : RunProgress S sel) : Prop where
  start_le : ∀ o ∈ p.state.kernel.book.orders, start ≤ o.submitted.time
  accepted : ∀ o ∈ p.state.kernel.book.orders, ∀ t ∈ past, t.before.status? o.id = none →
    t.now.time ≤ o.submitted.time
  waiting : ∀ o ∈ p.state.kernel.book.orders, o.orderType = .market → o.status = .submitted →
    ∀ t ∈ past, ¬ t.Offers o
  filled : ∀ o ∈ p.state.kernel.book.orders, o.status = .filled → ∃ t ∈ past, t.Fills o.id ∧
    (o.orderType = .market → t.Offers o)
  canceled : ∀ o ∈ p.state.kernel.book.orders, o.status = .canceled →
    first.status? o.id = some .canceled ∨ ∃ t ∈ past, t.Cancels o.id

namespace StepTaken

variable {s : StepTaken S sel} {events events' : List OrderEvent}

/-- A step of a run, with books that fit events before and after it. -/
structure Sound (s : StepTaken S sel) : Prop where
  taken : s.before.step s.clock s.now = .ok s.after
  before : ∃ events, s.before.state.kernel.book.Consistent events
  after : ∃ events, s.after.state.kernel.book.Consistent events

/-- What the slice of a step makes of an order. -/
def Moves (s : StepTaken S sel) (o o' : Order) : Prop :=
  o.Moves s.before.state.kernel.book.calendar s.now s.slice o'

/-- An order after a step is new, or comes from one before it. -/
theorem Sound.origin (h : s.Sound) {o' : Order} (ho' : o' ∈ s.after.state.kernel.book.orders) :
    (o'.submitted = s.now ∧ o'.status ≠ .filled ∧ s.before.status? o'.id = none) ∨
      ∃ o ∈ s.before.state.kernel.book.orders, s.Moves o o' := by
  obtain ⟨events, hbefore⟩ := h.before
  refine (RunState.step_origin hbefore (RunProgress.step_eq h.taken).1 ho').imp_left ?_
  rintro ⟨hnow, hstatus, hnew⟩
  refine ⟨hnow, hstatus, ?_⟩
  unfold RunProgress.status?
  rw [hnew]
  rfl

/-- An order before a step is in the book after it. -/
theorem Sound.moves (h : s.Sound) {o : Order} (ho : o ∈ s.before.state.kernel.book.orders) :
    ∃ o' ∈ s.after.state.kernel.book.orders, s.Moves o o' := by
  obtain ⟨events, hbefore⟩ := h.before
  exact RunState.step_moves hbefore (RunProgress.step_eq h.taken).1 ho

/-- The status of an order that a consistent book holds. -/
theorem status?_of_mem {p : RunProgress S sel}
    (hp : ∃ events, p.state.kernel.book.Consistent events) {o : Order}
    (ho : o ∈ p.state.kernel.book.orders) : p.status? o.id = some o.status := by
  obtain ⟨events, hconsistent⟩ := hp
  unfold RunProgress.status?
  rw [hconsistent.get?_eq_some_iff.2 ⟨ho, rfl⟩]
  rfl

/-- A number that has a status is that of an order with it. -/
theorem mem_of_status? {p : RunProgress S sel} {id : Nat} {status : OrderStatus}
    (h : p.status? id = some status) :
    ∃ o ∈ p.state.kernel.book.orders, o.id = id ∧ o.status = status := by
  obtain ⟨o, hget, hstatus⟩ := Option.map_eq_some_iff.1 h
  exact ⟨o, List.mem_of_find?_eq_some hget, by simpa using List.find?_some hget, hstatus⟩

/-- The slice of a step fills a market order if it is open and the step offers it a print. -/
theorem isSome_fill?_iff {o : Order} (hmarket : o.orderType = .market) :
    (OrderBook.fill? s.before.state.kernel.book.calendar s.now s.slice o).isSome ↔
      o.status = .submitted ∧ s.Offers o := by
  rw [Option.isSome_iff_exists]
  constructor
  · rintro ⟨filled, hfill⟩
    obtain ⟨hopen, hlater, quote, hquote, hprint, -⟩ := (OrderBook.fill?_market hmarket).1 hfill
    exact ⟨hopen, hlater, quote, hquote, hprint⟩
  · rintro ⟨hopen, hlater, quote, hquote, hprint⟩
    exact ⟨_, (OrderBook.fill?_market hmarket).2 ⟨hopen, hlater, quote, hquote, hprint, rfl⟩⟩

/-- A step fills an order if its slice does. -/
theorem Sound.fills_iff (h : s.Sound) {o : Order}
    (ho : o ∈ s.before.state.kernel.book.orders) :
    s.Fills o.id ↔
      (OrderBook.fill? s.before.state.kernel.book.calendar s.now s.slice o).isSome := by
  obtain ⟨o', ho', hmoves⟩ := h.moves ho
  have hbefore := status?_of_mem h.before ho
  have hafter := status?_of_mem h.after ho'
  rw [hmoves.becomes.id_eq] at hafter
  unfold Fills
  rw [hbefore, hafter]
  cases hmoves with
  | fill _ hfill =>
      obtain ⟨hopen, -, hstatus⟩ := OrderBook.fill?_closes hfill
      simp [hfill, hopen, hstatus]
  | keep hnone =>
      rw [hnone]
      simp
  | cancel hnone hopen =>
      rw [hnone]
      simp

/-- An order that a step fills is in the book before it, and the slice of the step fills it. -/
theorem Sound.of_fills (h : s.Sound) {id : Nat} (hfills : s.Fills id) :
    ∃ o ∈ s.before.state.kernel.book.orders, ∃ o' ∈ s.after.state.kernel.book.orders,
      o.id = id ∧
        OrderBook.fill? s.before.state.kernel.book.calendar s.now s.slice o = some o' := by
  obtain ⟨o', ho', rfl, hfilled⟩ := mem_of_status? hfills.2
  rcases h.origin ho' with ⟨-, hstatus, -⟩ | ⟨o, ho, hmoves⟩
  · exact absurd hfilled hstatus
  · refine ⟨o, ho, o', ho', hmoves.becomes.id_eq.symm, ?_⟩
    cases hmoves with
    | fill _ hfill => exact hfill
    | keep =>
        have hbefore := status?_of_mem h.before ho
        rw [hfilled] at hbefore
        exact absurd hbefore hfills.1
    | cancel => cases hfilled

end StepTaken

/-- No step offers an order a print up to the one in which it is submitted. -/
theorem Chronological.not_offers {start : DateTime} {past : List (StepTaken S sel)}
    {s : StepTaken S sel} (h : Chronological start (past ++ [s])) {o : Order}
    (hsubmitted : o.submitted = s.now) : ∀ t ∈ past ++ [s], ¬ t.Offers o := by
  rintro t ht ⟨hlater, -⟩
  rw [hsubmitted] at hlater
  exact Int.not_lt.2 (h.le_last t ht) hlater

namespace Traced

variable {start : DateTime} {first : RunProgress S sel} {past : List (StepTaken S sel)}
  {s : StepTaken S sel}

/-- An open market order that the slice of a step does not fill was offered nothing up to it. -/
theorem not_offers_of_not_filled (h : Traced start first past s.before) {o : Order}
    (ho : o ∈ s.before.state.kernel.book.orders) (hmarket : o.orderType = .market)
    (hopen : o.status = .submitted)
    (hnone : OrderBook.fill? s.before.state.kernel.book.calendar s.now s.slice o = none) :
    ∀ t ∈ past ++ [s], ¬ t.Offers o := by
  intro t ht
  rcases List.mem_append.1 ht with ht | ht
  · exact h.waiting o ho hmarket hopen t ht
  · obtain rfl := List.mem_singleton.1 ht
    intro hoffers
    have hfill := (StepTaken.isSome_fill?_iff hmarket).2 ⟨hopen, hoffers⟩
    rw [hnone] at hfill
    cases hfill

/-- An order after a step is not older than the start, nor than a step before which it was not in
the book. -/
theorem submitted_step (h : Traced start first past s.before) (hs : s.Sound)
    (hchron : Chronological start (past ++ [s])) {o' : Order}
    (ho' : o' ∈ s.after.state.kernel.book.orders) :
    start ≤ o'.submitted.time ∧
      ∀ t ∈ past ++ [s], t.before.status? o'.id = none → t.now.time ≤ o'.submitted.time := by
  rcases hs.origin ho' with ⟨hsubmitted, -, -⟩ | ⟨o, ho, hmoves⟩
  · rw [hsubmitted]
    exact ⟨hchron.start_le s List.mem_concat_self, fun t ht _ => hchron.le_last t ht⟩
  · rw [hmoves.becomes.submitted_eq, hmoves.becomes.id_eq]
    refine ⟨h.start_le o ho, fun t ht hnew => ?_⟩
    rcases List.mem_append.1 ht with ht | ht
    · exact h.accepted o ho t ht hnew
    · obtain rfl := List.mem_singleton.1 ht
      rw [StepTaken.status?_of_mem hs.before ho] at hnew
      cases hnew

/-- A market order that is open after a step was offered nothing up to it. -/
theorem waiting_step (h : Traced start first past s.before) (hs : s.Sound)
    (hchron : Chronological start (past ++ [s])) {o' : Order}
    (ho' : o' ∈ s.after.state.kernel.book.orders) (hmarket : o'.orderType = .market)
    (hopen : o'.status = .submitted) : ∀ t ∈ past ++ [s], ¬ t.Offers o' := by
  rcases hs.origin ho' with ⟨hsubmitted, -, -⟩ | ⟨o, ho, hmoves⟩
  · exact hchron.not_offers hsubmitted
  · cases hmoves with
    | fill _ hfill =>
        rw [(OrderBook.fill?_closes hfill).2.2] at hopen
        cases hopen
    | keep hnone => exact h.not_offers_of_not_filled ho hmarket hopen hnone
    | cancel => cases hopen

/-- An order that is filled after a step was filled by it or by one before, which offered it a print
if it is a market order. -/
theorem filled_step (h : Traced start first past s.before) (hs : s.Sound) {o' : Order}
    (ho' : o' ∈ s.after.state.kernel.book.orders) (hfilled : o'.status = .filled) :
    ∃ t ∈ past ++ [s], t.Fills o'.id ∧ (o'.orderType = .market → t.Offers o') := by
  rcases hs.origin ho' with ⟨-, hstatus, -⟩ | ⟨o, ho, hmoves⟩
  · exact absurd hfilled hstatus
  · have hbecomes := hmoves.becomes
    cases hmoves with
    | fill _ hfill =>
        have hsome : (OrderBook.fill? s.before.state.kernel.book.calendar s.now s.slice o).isSome :=
          Option.isSome_of_eq_some hfill
        refine ⟨s, List.mem_concat_self, ?_, fun hmarket => ?_⟩
        · rw [hbecomes.id_eq, hs.fills_iff ho]
          exact hsome
        · have htype : o.orderType = .market := hbecomes.orderType_eq.symm.trans hmarket
          rw [StepTaken.offers_congr hbecomes]
          exact ((StepTaken.isSome_fill?_iff htype).1 hsome).2
    | keep =>
        obtain ⟨t, ht, hfills⟩ := h.filled o' ho hfilled
        exact ⟨t, List.mem_append_left _ ht, hfills⟩
    | cancel => cases hfilled

/-- An order that is canceled after a step was canceled at first, by the step or by one before. -/
theorem canceled_step (h : Traced start first past s.before) (hs : s.Sound) {o' : Order}
    (ho' : o' ∈ s.after.state.kernel.book.orders) (hcanceled : o'.status = .canceled) :
    first.status? o'.id = some .canceled ∨ ∃ t ∈ past ++ [s], t.Cancels o'.id := by
  have hafter := StepTaken.status?_of_mem hs.after ho'
  rw [hcanceled] at hafter
  rcases hs.origin ho' with ⟨-, -, hnew⟩ | ⟨o, ho, hmoves⟩
  · refine .inr ⟨s, List.mem_concat_self, ?_, hafter⟩
    rw [hnew]
    exact nofun
  · cases hmoves with
    | fill _ hfill =>
        rw [(OrderBook.fill?_closes hfill).2.2] at hcanceled
        cases hcanceled
    | keep =>
        refine (h.canceled o' ho hcanceled).imp_right ?_
        rintro ⟨t, ht, hcancels⟩
        exact ⟨t, List.mem_append_left _ ht, hcancels⟩
    | cancel _ hopen =>
        refine .inr ⟨s, List.mem_concat_self, ?_, hafter⟩
        show s.before.status? o.id ≠ some .canceled
        rw [StepTaken.status?_of_mem hs.before ho, hopen]
        exact nofun

/-- One more step, later than those before, keeps what is known of the orders. -/
theorem step (h : Traced start first past s.before) (hs : s.Sound)
    (hchron : Chronological start (past ++ [s])) :
    Traced start first (past ++ [s]) s.after where
  start_le _ ho' := (h.submitted_step hs hchron ho').1
  accepted _ ho' := (h.submitted_step hs hchron ho').2
  waiting _ ho' := h.waiting_step hs hchron ho'
  filled _ ho' := h.filled_step hs ho'
  canceled _ ho' := h.canceled_step hs ho'

/-- A step fills a market order if it is the first to offer it a print, and the order was not
canceled before. The order is taken as it is later on. -/
theorem fills_iff (h : Traced start first past s.before) (hs : s.Sound) {o : Order}
    (hmarket : o.orderType = .market)
    (hbecomes : ∀ b ∈ s.before.state.kernel.book.orders, b.id = o.id → b.Becomes o)
    (hnew : s.before.status? o.id = none → s.now.time ≤ o.submitted.time) :
    s.Fills o.id ↔ s.Offers o ∧ (∀ t ∈ past, ¬ t.Offers o) ∧
      s.before.status? o.id ≠ some .canceled := by
  cases hstatus : s.before.status? o.id with
  | none =>
      -- The order is not in the book yet, so the step is not later than its submission.
      constructor
      · intro hfills
        obtain ⟨b, hb, -, -, hid, -⟩ := hs.of_fills hfills
        rw [← hid, StepTaken.status?_of_mem hs.before hb] at hstatus
        cases hstatus
      · rintro ⟨⟨hlater, -⟩, -⟩
        exact absurd hlater (Int.not_lt.2 (hnew hstatus))
  | some status =>
      obtain ⟨b, hb, hid, rfl⟩ := StepTaken.mem_of_status? hstatus
      have hlater := hbecomes b hb hid
      have htype : b.orderType = .market := hlater.orderType_eq.symm.trans hmarket
      have hoffers : ∀ t : StepTaken S sel, t.Offers o ↔ t.Offers b := fun t =>
        StepTaken.offers_congr hlater
      simp only [hoffers]
      rw [← hid, hs.fills_iff hb, StepTaken.isSome_fill?_iff htype]
      constructor
      · rintro ⟨hopen, hoffer⟩
        refine ⟨hoffer, h.waiting b hb htype hopen, ?_⟩
        rw [hopen]
        exact nofun
      · rintro ⟨hoffer, hnone, hkept⟩
        refine ⟨?_, hoffer⟩
        cases hopen : b.status with
        | submitted => rfl
        | filled =>
            obtain ⟨t, ht, -, hearlier⟩ := h.filled b hb hopen
            exact absurd (hearlier htype) (hnone t ht)
        | canceled => exact absurd (congrArg some hopen) hkept

/-- No step up to the one that cancels a market order offers it a print. -/
theorem not_offers_of_cancels (h : Traced start first past s.before) (hs : s.Sound)
    (hchron : Chronological start (past ++ [s])) {o : Order} (hmarket : o.orderType = .market)
    (hbecomes : ∀ a ∈ s.after.state.kernel.book.orders, a.id = o.id → a.Becomes o)
    (hcancels : s.Cancels o.id) : ∀ t ∈ past ++ [s], ¬ t.Offers o := by
  obtain ⟨a, ha, hid, hcanceled⟩ := StepTaken.mem_of_status? hcancels.2
  have hafter := hbecomes a ha hid
  rcases hs.origin ha with ⟨hsubmitted, -, -⟩ | ⟨b, hb, hmoves⟩
  · exact hchron.not_offers (hafter.submitted_eq.trans hsubmitted)
  · have hbecomes := hmoves.becomes.trans hafter
    have htype : b.orderType = .market := hbecomes.orderType_eq.symm.trans hmarket
    cases hmoves with
    | fill _ hfill =>
        rw [(OrderBook.fill?_closes hfill).2.2] at hcanceled
        cases hcanceled
    | keep =>
        have hbefore := StepTaken.status?_of_mem hs.before hb
        rw [hid, hcanceled] at hbefore
        exact absurd hbefore hcancels.1
    | cancel hnone hopen =>
        intro t ht
        rw [StepTaken.offers_congr hbecomes]
        exact h.not_offers_of_not_filled hb htype hopen hnone t ht

end Traced

/-! ### Runs -/

/-- The orders of a book are those of another at a later time. -/
def OrderBook.Followed (b b' : OrderBook) : Prop :=
  ∀ o ∈ b.orders, ∃ o' ∈ b'.orders, o.Becomes o'

/-- What an order of a book is later on is the order of its number. -/
theorem OrderBook.Followed.becomes {b b' : OrderBook} (h : b.Followed b')
    {events : List OrderEvent} (hb' : b'.Consistent events) {o o' : Order} (ho : o ∈ b.orders)
    (ho' : o' ∈ b'.orders) (hid : o.id = o'.id) : o.Becomes o' := by
  obtain ⟨other, hother, hbecomes⟩ := h o ho
  have hsame : other = o' := List.inj_on_of_nodup_map hb'.ids_nodup hother ho'
    (hbecomes.id_eq.trans hid)
  rwa [← hsame]

/-- The orders before a step are followed by those after it. -/
theorem StepTaken.Sound.followed {s : StepTaken S sel} (h : s.Sound) :
    s.before.state.kernel.book.Followed s.after.state.kernel.book := by
  intro o ho
  obtain ⟨o', ho', hmoves⟩ := h.moves ho
  exact ⟨o', ho', hmoves.becomes⟩

theorem OrderBook.Followed.trans {b b' b'' : OrderBook} (h : b.Followed b')
    (h' : b'.Followed b'') : b.Followed b'' := by
  intro o ho
  obtain ⟨o', ho', hbecomes⟩ := h o ho
  obtain ⟨o'', ho'', hbecomes'⟩ := h' o' ho'
  exact ⟨o'', ho'', hbecomes.trans hbecomes'⟩

namespace Engine

variable {e : Engine} {S : Strategy} {fuel : Nat} {p : RunProgress S e.selector}

/-- The orders of a strategy that is initialized were submitted then and are not filled. -/
theorem begin_orders (e : Engine) (S : Strategy) {o : Order}
    (ho : o ∈ (e.begin S).state.kernel.book.orders) :
    o.submitted = e.initial ∧ o.status ≠ .filled := by
  let start := RunState.start S e.selector e.settings e.prices e.contracts
  have hstart : ∃ past, start.kernel.book.Consistent past := ⟨[], OrderBook.consistent_start _ _⟩
  obtain ⟨-, hplaced⟩ := RunState.call_book (OrderBook.placed_keptAt e.initial start.kernel.book)
    ⟨hstart, .refl e.initial start.kernel.book⟩ "initialize" S.onStart
  rcases hplaced.origin o ho with ⟨hsubmitted, hstatus, -⟩ | ⟨old, hold, -⟩
  · exact ⟨hsubmitted, hstatus⟩
  · cases hold

/-- What is known of the orders of a run, at its end and before each of its steps; the steps are
sound, and the orders before a step are followed by those at the end. -/
theorem after_traced (h : e.after S fuel = .ok p) :
    Traced e.initial.time (e.begin S) (e.taken S fuel) p ∧
      ∀ past s later, e.taken S fuel = past ++ s :: later →
        Traced e.initial.time (e.begin S) past s.before ∧ s.Sound ∧
          s.after.state.kernel.book.Followed p.state.kernel.book := by
  have hall := after_consistent_induction (P := fun past p =>
    Chronological e.initial.time past → Traced e.initial.time (e.begin S) past p ∧
      ∀ front s back, past = front ++ s :: back →
        Traced e.initial.time (e.begin S) front s.before ∧ s.Sound ∧
          s.after.state.kernel.book.Followed p.state.kernel.book) ?_ ?_ h
  · exact hall (e.taken_chronological S fuel)
  · intro _
    have hconsistent : ∃ events, (e.begin S).state.kernel.book.Consistent events :=
      ⟨_, (e.begin_accounts S).consistent⟩
    refine ⟨⟨fun o ho => ?_, fun _ _ _ ht => absurd ht List.not_mem_nil,
      fun _ _ _ _ _ ht => absurd ht List.not_mem_nil, fun o ho hfilled => ?_,
      fun o ho hcanceled => ?_⟩, fun front s back hsplit => ?_⟩
    · rw [(e.begin_orders S ho).1]
      exact Int.le_refl _
    · exact absurd hfilled (e.begin_orders S ho).2
    · rw [StepTaken.status?_of_mem hconsistent ho, hcanceled]
      exact .inl rfl
    · exact absurd hsplit (by simp)
  · intro past s hbook hbefore htaken hchron
    obtain ⟨htraced, hsplits⟩ := hbefore hchron.of_concat.1
    have hsound : s.Sound := ⟨htaken, ⟨_, hbook⟩,
      ⟨_, (RunState.step_accounts hbook (RunProgress.step_eq htaken).1).consistent⟩⟩
    refine ⟨htraced.step hsound hchron, fun front t back hsplit => ?_⟩
    -- The step is the new one, or one of those before it, and then what follows it is longer.
    rcases split_concat hsplit with ⟨rfl, rfl⟩ | ⟨init, -, hearlier⟩
    · exact ⟨htraced, hsound, fun o ho => ⟨o, ho, .refl o⟩⟩
    · obtain ⟨hfront, ht, hfollowed⟩ := hsplits front t init hearlier
      exact ⟨hfront, ht, hfollowed.trans hsound.followed⟩

/-- What an order is before and after a step becomes what it is at the end of the run; and it is
not older than a step before which it is not in the book. -/
theorem becomes_at (h : e.after S fuel = .ok p) {o : Order}
    (ho : o ∈ p.state.kernel.book.orders) {past later : List (StepTaken S e.selector)}
    {s : StepTaken S e.selector} (hsplit : e.taken S fuel = past ++ s :: later) :
    (∀ b ∈ s.before.state.kernel.book.orders, b.id = o.id → b.Becomes o) ∧
      (∀ a ∈ s.after.state.kernel.book.orders, a.id = o.id → a.Becomes o) ∧
      (s.before.status? o.id = none → s.now.time ≤ o.submitted.time) := by
  obtain ⟨htraced, hsplits⟩ := after_traced h
  obtain ⟨-, hsound, hfollowed⟩ := hsplits past s later hsplit
  have hconsistent := (after_accounts h).consistent
  refine ⟨fun b hb hid => ?_, fun a ha hid => ?_, fun hnew => ?_⟩
  · exact (hsound.followed.trans hfollowed).becomes hconsistent hb ho hid
  · exact hfollowed.becomes hconsistent ha ho hid
  · have hs : s ∈ e.taken S fuel := mem_of_split hsplit
    exact htraced.accepted o ho s hs hnew

/-- A step that fills an order has it in its book before, and its slice makes of it what it is at
the end of the run. -/
theorem fills_at (h : e.after S fuel = .ok p) {o : Order}
    (ho : o ∈ p.state.kernel.book.orders) {past later : List (StepTaken S e.selector)}
    {s : StepTaken S e.selector} (hsplit : e.taken S fuel = past ++ s :: later)
    (hfills : s.Fills o.id) :
    ∃ b ∈ s.before.state.kernel.book.orders, b.Becomes o ∧
      OrderBook.fill? s.before.state.kernel.book.calendar s.now s.slice b = some o := by
  obtain ⟨hbefore, hafter, -⟩ := becomes_at h ho hsplit
  obtain ⟨b, hb, a, ha, hid, hfill⟩ := ((after_traced h).2 past s later hsplit).2.1.of_fills hfills
  -- A filled order stays as it is, so the order at the end is that of the fill.
  have hsame : o = a := by
    refine (hafter a ha ?_).eq_of_closed ?_
    · rw [(OrderBook.fill?_closes hfill).2.1.id_eq, hid]
    · rw [(OrderBook.fill?_closes hfill).2.2]
      exact nofun
  rw [← hsame] at hfill
  exact ⟨b, hb, hbefore b hb hid, hfill⟩

/-- A step that fills a market order fills it at the quote of its slice. Over sorted series this is
the latest print of the symbol at the instant of the step. -/
theorem fill_eq_quote (h : e.after S fuel = .ok p) {o : Order}
    (ho : o ∈ p.state.kernel.book.orders) (hmarket : o.orderType = .market)
    {past later : List (StepTaken S e.selector)} {s : StepTaken S e.selector}
    (hsplit : e.taken S fuel = past ++ s :: later) (hfills : s.Fills o.id) :
    ∃ quote, s.slice.get? o.symbol = some quote ∧
      o.fillPrice = some quote.price ∧ o.fillTime = some quote.time ∧
      ((∀ symbol, TimeSorted (Feed.seriesOf e.prices symbol)) →
        ∃ print, (upTo s.now.time (Feed.seriesOf e.prices o.symbol)).getLast? = some print ∧
          quote.time = print.time ∧ quote.price = print.priceIn e.settings.normalization) := by
  obtain ⟨b, -, hbecomes, hfill⟩ := fills_at h ho hsplit hfills
  have htype : b.orderType = .market := hbecomes.orderType_eq.symm.trans hmarket
  obtain ⟨-, -, quote, hquote, -, hfilled⟩ := (OrderBook.fill?_market htype).1 hfill
  rw [← hbecomes.symbol_eq] at hquote
  refine ⟨quote, hquote, ?_, ?_, fun hsorted => ?_⟩
  · rw [hfilled]
  · rw [hfilled]
  · have hs : s ∈ e.taken S fuel := mem_of_split hsplit
    have hasOf := slice_asOf hsorted h s hs o.symbol quote hquote
    unfold quoteAt Quote.asOf at hasOf
    obtain ⟨print, hlast, rfl⟩ := Option.map_eq_some_iff.1 hasOf
    exact ⟨print, hlast, rfl, rfl⟩

/-- An order is filled at the end of a run if and only if a step of the run fills it. -/
theorem filled_iff_fills (h : e.after S fuel = .ok p) {o : Order}
    (ho : o ∈ p.state.kernel.book.orders) :
    o.status = .filled ↔ ∃ s ∈ e.taken S fuel, s.Fills o.id := by
  constructor
  · intro hfilled
    obtain ⟨s, hs, hfills, -⟩ := (after_traced h).1.filled o ho hfilled
    exact ⟨s, hs, hfills⟩
  · rintro ⟨s, hs, hfills⟩
    obtain ⟨past, later, hsplit⟩ := List.append_of_mem hs
    obtain ⟨a, ha, hid, hfilled⟩ := StepTaken.mem_of_status? hfills.2
    have hsame : o = a := by
      refine ((becomes_at h ho hsplit).2.1 a ha hid).eq_of_closed ?_
      rw [hfilled]
      exact nofun
    rw [hsame]
    exact hfilled

/-- An order that is canceled at the end of a run was canceled when the strategy was initialized,
and then no step offers it a print up to that instant, or by a step of the run. -/
theorem canceled_at (h : e.after S fuel = .ok p) {o : Order}
    (ho : o ∈ p.state.kernel.book.orders) (hcanceled : o.status = .canceled) :
    (e.begin S).status? o.id = some .canceled ∧
        (∀ t ∈ e.taken S fuel, t.now.time ≤ e.initial.time → ¬ t.Offers o) ∨
      ∃ s ∈ e.taken S fuel, s.Cancels o.id := by
  have htraced := (after_traced h).1
  refine (htraced.canceled o ho hcanceled).imp_left fun hbegin => ⟨hbegin, ?_⟩
  rintro t - hearly ⟨hoffer, -⟩
  exact Int.not_lt.2 (Int.le_trans hearly (htraced.start_le o ho)) hoffer

/-- No step fills an order that was not open before it, or that was not submitted before its
instant. A market order is filled by a step if and only if the step is the first to offer it a
print, and it was not canceled before; price and time are those of the step's quote, which over
sorted series is the latest print. Up to the step that cancels it, or to the end if it stays open,
no step offers it one. -/
theorem filled_at_first_offer (h : e.after S fuel = .ok p) {o : Order}
    (ho : o ∈ p.state.kernel.book.orders) :
    (∀ past s later, e.taken S fuel = past ++ s :: later → s.Fills o.id →
      o.submitted.time < s.now.time ∧ s.before.status? o.id = some .submitted) ∧
    (o.orderType = .market →
      (∀ past s later, e.taken S fuel = past ++ s :: later →
        (s.Fills o.id ↔ s.Offers o ∧ (∀ t ∈ past, ¬ t.Offers o) ∧
          s.before.status? o.id ≠ some .canceled) ∧
        (s.Fills o.id → ∃ quote, s.slice.get? o.symbol = some quote ∧
          o.fillPrice = some quote.price ∧ o.fillTime = some quote.time ∧
          ((∀ symbol, TimeSorted (Feed.seriesOf e.prices symbol)) →
            ∃ print, (upTo s.now.time (Feed.seriesOf e.prices o.symbol)).getLast? = some print ∧
              quote.time = print.time ∧
              quote.price = print.priceIn e.settings.normalization)) ∧
        (s.Cancels o.id → ∀ t ∈ past ++ [s], ¬ t.Offers o)) ∧
      (o.status = .filled ↔ ∃ s ∈ e.taken S fuel, s.Fills o.id) ∧
      (o.status = .submitted → ∀ t ∈ e.taken S fuel, ¬ t.Offers o) ∧
      (o.status = .canceled →
        (e.begin S).status? o.id = some .canceled ∧
            (∀ t ∈ e.taken S fuel, t.now.time ≤ e.initial.time → ¬ t.Offers o) ∨
          ∃ s ∈ e.taken S fuel, s.Cancels o.id)) := by
  obtain ⟨htraced, hsplits⟩ := after_traced h
  refine ⟨fun past s later hsplit hfills => ?_, fun hmarket =>
    ⟨fun past s later hsplit => ?_, filled_iff_fills h ho, htraced.waiting o ho hmarket,
      canceled_at h ho⟩⟩
  · obtain ⟨-, hsound, -⟩ := hsplits past s later hsplit
    obtain ⟨b, hb, _, -, hid, hfill⟩ := hsound.of_fills hfills
    have hbecomes := (becomes_at h ho hsplit).1 b hb hid
    refine ⟨?_, ?_⟩
    · rw [hbecomes.submitted_eq]
      exact OrderBook.fill?_later hfill
    · rw [← hid, StepTaken.status?_of_mem hsound.before hb, (OrderBook.fill?_closes hfill).1]
  · obtain ⟨hpast, hsound, -⟩ := hsplits past s later hsplit
    obtain ⟨hbefore, hafter, hnew⟩ := becomes_at h ho hsplit
    have hchron : Chronological e.initial.time (past ++ s :: later) := by
      rw [← hsplit]
      exact e.taken_chronological S fuel
    exact ⟨hpast.fills_iff hsound hmarket hbefore hnew, fill_eq_quote h ho hmarket hsplit,
      hpast.not_offers_of_cancels hsound hchron.of_split hmarket hafter⟩

/-- A print at 100 on the day before the sample week, and one at 110 on its third date. -/
def delayedPrints : List PricePoint :=
  [⟨.equity "SPY", .midnight ⟨735146, by decide, by decide⟩, 100000000, none,
      PricePoint.unitFactor⟩,
    ⟨.equity "SPY", .midnight ⟨735149, by decide, by decide⟩, 110000000, none,
      PricePoint.unitFactor⟩]

/-- A run over these prints. -/
def delayed : Engine :=
  { rising with
    prices := fun symbol => if symbol = .equity "SPY" then some delayedPrints else none }

/-- The order of the first date is not filled at the old print, which the slice of the second date
still has, but at that of the third date. -/
theorem delayed_filled :
    ∃ p o past s later, delayed.after holder 5 = .ok p ∧ o ∈ p.state.kernel.book.orders ∧
      o.orderType = .market ∧ delayed.taken holder 5 = past ++ s :: later ∧
      past.map (fun t => t.slice.price? (.equity "SPY")) = [some 100000000, some 100000000] ∧
      s.Offers o ∧ (∀ t ∈ past, ¬ t.Offers o) ∧ o.fillPrice = some 110000000 ∧
      ∃ print, (upTo s.now.time (Feed.seriesOf delayed.prices o.symbol)).getLast? = some print ∧
        o.fillTime = some print.time := by
  have hslices : (delayed.taken holder 5).map (fun t => t.slice.price? (.equity "SPY")) =
      [some 100000000, some 100000000, some 110000000, some 110000000, some 110000000] := by
    decide +kernel
  have hfills : (delayed.taken holder 5)[2]?.map (fun s =>
      (s.before.status? 1, s.after.status? 1)) = some (some .submitted, some .filled) := by
    decide +kernel
  have horder : ((delayed.after holder 5).toOption.bind fun p =>
      p.state.kernel.book.orders.head?).map (fun o => (o.id, o.orderType, o.fillPrice)) =
        some (1, .market, some 110000000) := by
    decide +kernel
  have hprints : TimeSorted delayedPrints := by
    unfold TimeSorted
    decide +kernel
  have hsorted : ∀ symbol, TimeSorted (Feed.seriesOf delayed.prices symbol) :=
    Feed.timeSorted_single hprints (.equity "SPY")
  obtain ⟨s, hget, hstatus⟩ := Option.map_eq_some_iff.1 hfills
  obtain ⟨hbefore, hafter⟩ := Prod.mk.inj hstatus
  obtain ⟨o, ho, hvalues⟩ := Option.map_eq_some_iff.1 horder
  obtain ⟨hid, hrest⟩ := Prod.mk.inj hvalues
  obtain ⟨hmarket, hprice⟩ := Prod.mk.inj hrest
  obtain ⟨p, hp, hhead⟩ := Option.bind_eq_some_iff.1 ho
  have hok : delayed.after holder 5 = .ok p := eq_ok_of_toOption hp
  have hsplit : delayed.taken holder 5 =
      (delayed.taken holder 5).take 2 ++ s :: (delayed.taken holder 5).drop 3 :=
    split_getElem? hget
  have hmem : o ∈ p.state.kernel.book.orders := List.mem_of_mem_head? hhead
  have hfill : s.Fills o.id := by
    unfold StepTaken.Fills
    rw [hid, hbefore, hafter]
    exact ⟨nofun, rfl⟩
  obtain ⟨hrule, hquote, -⟩ := ((filled_at_first_offer hok hmem).2 hmarket).1 _ _ _ hsplit
  obtain ⟨hoffers, hfirst, -⟩ := hrule.1 hfill
  obtain ⟨quote, -, -, htime, hlatest⟩ := hquote hfill
  obtain ⟨print, hlast, hprint, -⟩ := hlatest hsorted
  refine ⟨p, o, _, s, _, hok, hmem, hmarket, hsplit, ?_, hoffers, hfirst, hprice, print, hlast, ?_⟩
  · rw [List.map_take, hslices]
    rfl
  · rw [htime, hprint]

end Engine

end MarketReplay
