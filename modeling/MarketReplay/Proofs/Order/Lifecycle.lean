import MarketReplay.Proofs.Order.Log

/-!
# The life of orders in a book

A history is a book with the batches of events drained from it, under any sequence of actions.
`History.lifecycle` says what holds of every history from an empty book: numbers are given in the
order of acceptance, an order changes once at most, and the drained batches with the queue hold
exactly the events of the orders.
-/

namespace MarketReplay.OrderBook

/-- What is done to a book. -/
inductive Action where
  | submit (request : OrderRequest) (tracked : Universe) (cash : Int) (now : Instant)
  | cancel (id : Nat) (now : Instant)
  | cancelOpenFor (symbol : Symbol) (now : Instant)
  | evaluate (now : Instant) (slice : DataSlice)
  | drain

/-- A book and the batches drained from it, the first one first. -/
structure History where
  book : OrderBook
  batches : List (List OrderEvent)

namespace History

/-- The history of a book without orders. -/
def start (calendar : Calendar) (policy : BuyingPowerPolicy) : History :=
  ⟨.start calendar policy, []⟩

/-- The history after an action; a refused one leaves it alone. -/
def act (h : History) : Action → History
  | .submit request tracked cash now =>
    match h.book.submit request tracked cash now with
    | .error _ => h
    | .ok (_, book) => { h with book }
  | .cancel id now =>
    match h.book.cancel id now with
    | .error _ => h
    | .ok (_, book) => { h with book }
  | .cancelOpenFor symbol now => { h with book := (h.book.cancelOpenFor symbol now).2 }
  | .evaluate now slice => { h with book := (h.book.evaluate now slice).2 }
  | .drain => ⟨h.book.drain.2, h.batches ++ [h.book.drain.1]⟩

/-- The history after actions in turn. -/
def run (h : History) (actions : List Action) : History := actions.foldl act h

/-- The drained events in the order of their batches, then those in the queue. -/
def events (h : History) : List OrderEvent := h.book.log h.batches.flatten

/-- The book fits its drained events, and every batch is sorted. -/
structure Sound (h : History) : Prop where
  consistent : h.book.Consistent h.batches.flatten
  sorted : ∀ batch ∈ h.batches, batch.Pairwise Before

/-- The empty history is sound. -/
theorem sound_start (calendar : Calendar) (policy : BuyingPowerPolicy) :
    (start calendar policy).Sound :=
  ⟨consistent_start calendar policy, by simp [start]⟩

/-- Edits of the book keep a history sound. -/
theorem Sound.edits {h : History} (hs : h.Sound) {kind : OrderStatus → Prop}
    {book : OrderBook} (hedits : Edits kind h.book book) :
    Sound { h with book } ∧ h.book.Precedes book :=
  ⟨⟨hedits.consistent hs.consistent, hs.sorted⟩, hedits.precedes⟩

/-- A drain keeps a history sound: the batch is what was queued, sorted. -/
theorem Sound.drain {h : History} (hs : h.Sound) : (h.act .drain).Sound := by
  refine ⟨?_, fun batch hbatch => ?_⟩
  · have hflat : (h.act .drain).batches.flatten = h.batches.flatten ++ h.book.drain.1 := by
      simp [act]
    rw [hflat]
    exact hs.consistent.drain
  · rcases List.mem_append.1 hbatch with hbatch | hbatch
    · exact hs.sorted batch hbatch
    · rw [List.mem_singleton.1 hbatch]
      exact drain_pairwise hs.consistent.pending_nodup

/-- Every action keeps a history sound, and the orders before it precede those after it. -/
theorem Sound.act {h : History} (hs : h.Sound) (a : Action) :
    (h.act a).Sound ∧ h.book.Precedes (h.act a).book := by
  cases a with
  | submit request tracked cash now =>
      simp only [History.act]
      split
      · exact ⟨hs, .refl _⟩
      · rename_i order book hsubmit
        exact hs.edits ((submit_edit hsubmit).1.edits (fun _ => True) trivial)
  | cancel id now =>
      simp only [History.act]
      split
      · exact ⟨hs, .refl _⟩
      · rename_i e book hcancel
        exact hs.edits ((cancel_edit hs.consistent.ids_nodup hcancel).edits (fun _ => True) trivial)
  | cancelOpenFor symbol now => exact hs.edits (cancelAll_edits _ hs.consistent)
  | evaluate now slice => exact hs.edits (evaluate_edits h.book now slice)
  | drain => exact ⟨hs.drain, .refl _⟩

/-- Every sequence of actions keeps a history sound, and the orders before it precede those after
it. -/
theorem Sound.run {h : History} (hs : h.Sound) (actions : List Action) :
    (h.run actions).Sound ∧ h.book.Precedes (h.run actions).book := by
  induction actions generalizing h with
  | nil => exact ⟨hs, .refl _⟩
  | cons a rest ih =>
      obtain ⟨hact, hfirst⟩ := hs.act a
      obtain ⟨hrun, hrest⟩ := ih hact
      exact ⟨hrun, hfirst.trans hrest⟩

/-- The life of orders, for every history of an empty book and every continuation of it.

Numbers are 1 to the count of orders in the order of acceptance, and an order of a history keeps
its place and terms in every later one, and all of itself once it is closed. It has a fill price
and a fill time exactly when it is filled. The drained batches and the queue hold every sequence
number once; the events of an order in them are that of its submission and, exactly when it is
closed, a later one with its final status and fill; and there are no other events. Every batch is
sorted by submission, order number and sequence number. A request or cancellation that is refused
changes nothing; an accepted request appends its order. -/
theorem lifecycle (calendar : Calendar) (policy : BuyingPowerPolicy)
    (actions more : List Action) :
    let h := (start calendar policy).run actions
    h.book.orders.map Order.id = List.range' 1 h.book.orders.length ∧
    (∀ (i : Nat) (o : Order), h.book.orders[i]? = some o →
      ∃ o', (h.run more).book.orders[i]? = some o' ∧ o'.terms = o.terms ∧
        (o.status = .submitted ∨ o' = o)) ∧
    (∀ o ∈ h.book.orders, (o.fillPrice.isSome ↔ o.status = .filled) ∧
      (o.fillTime.isSome ↔ o.status = .filled)) ∧
    (h.events.map OrderEvent.seq).Perm (List.range h.book.nextSeq) ∧
    (∀ o ∈ h.book.orders, o.Logged (h.events.filter fun e => e.orderId = o.id)) ∧
    (∀ e ∈ h.events, ∃ o ∈ h.book.orders, e.orderId = o.id) ∧
    (∀ batch ∈ h.batches, batch.Pairwise Before) ∧
    (∀ (request : OrderRequest) (tracked : Universe) (cash : Int) (now : Instant),
      match h.book.submit request tracked cash now with
      | .error _ => h.act (.submit request tracked cash now) = h
      | .ok (order, book) => h.act (.submit request tracked cash now) = { h with book } ∧
          order.status = .submitted ∧ order.terms = (h.book.orders.length + 1, request.symbol,
            request.quantity, request.orderType, now, request.tag) ∧
          book.orders = h.book.orders ++ [order]) ∧
    (∀ (id : Nat) (now : Instant),
      match h.book.cancel id now with
      | .error _ => h.act (.cancel id now) = h
      | .ok (e, book) => h.act (.cancel id now) = { h with book } ∧
          book.pending = h.book.pending ++ [e]) := by
  intro h
  obtain ⟨hsound, -⟩ := (sound_start calendar policy).run actions
  obtain ⟨-, hlater⟩ := hsound.run more
  obtain ⟨hids, hfills, hseqs, hlogged, howned⟩ := hsound.consistent
  refine ⟨hids, fun i o hi => ?_, hfills, hseqs, hlogged, howned, hsound.sorted, ?_, ?_⟩
  · obtain ⟨o', hi', hbecomes⟩ := hlater i o hi
    exact ⟨o', hi', hbecomes.terms_eq, Decidable.or_iff_not_imp_left.2 hbecomes.eq_of_closed⟩
  · intro request tracked cash now
    split
    · rename_i hsubmit
      simp [act, h, hsubmit]
    · rename_i order book hsubmit
      obtain ⟨-, rfl, horders⟩ := submit_edit hsubmit
      exact ⟨by simp [act, h, hsubmit], rfl, rfl, horders⟩
  · intro id now
    split
    · rename_i hcancel
      simp [act, h, hcancel]
    · rename_i e book hcancel
      exact ⟨by simp [act, h, hcancel], cancel_pending hcancel⟩

end History

end MarketReplay.OrderBook
