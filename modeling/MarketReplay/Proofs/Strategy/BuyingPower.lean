import MarketReplay.Proofs.Strategy.Commands
import MarketReplay.Proofs.Strategy.Journal

/-!
# Commands and buying power

The policy of a book decides what becomes of a buy whose estimated cost exceeds the cash
(`OrderBook.Short`), and nothing else. So a program runs alike under every policy, or it shows under
its own that cash was short: by a refusal, or by a warning (`Program.logged_agrees_or`).
-/

namespace MarketReplay

namespace OrderBook

/-- The book under another policy. -/
def underPolicy (π : BuyingPowerPolicy) (b : OrderBook) : OrderBook := { b with policy := π }

/-- Whether a request is a buy of a tracked symbol whose estimated cost exceeds the cash. -/
def Short (request : OrderRequest) (tracked : Universe) (cash : Int) : Prop :=
  ∃ security, tracked.get? request.symbol = some security ∧ 0 < request.quantity ∧
    cash < estimatedCost request security

section Submissions

variable {request : OrderRequest} {tracked : Universe} {cash : Int}

/-- The policy matters to a submission only if cash is short. -/
theorem submit_underPolicy (h : ¬ Short request tracked cash) (π : BuyingPowerPolicy)
    (b : OrderBook) (now : Instant) : (b.underPolicy π).submit request tracked cash now =
      (b.submit request tracked cash now).map fun result => (result.1, result.2.underPolicy π) := by
  have hcheck : (b.underPolicy π).check request tracked cash now =
      b.check request tracked cash now := by
    unfold check
    cases hget : tracked.get? request.symbol with
    | none => rfl
    | some security =>
        simp only
        split
        · rfl
        · split
          · rfl
          · rename_i hzero hnegative
            have henough : estimatedCost request security ≤ cash := by
              refine Int.not_lt.1 fun hshort => h ⟨security, hget, ?_, hshort⟩
              omega
            rw [if_pos henough, if_pos henough]
            rfl
  unfold submit
  rw [hcheck]
  cases b.check request tracked cash now <;> rfl

/-- If cash is short, a submission is refused or accepted with a warning, as the policy says. -/
theorem submit_of_short (h : Short request tracked cash) (b : OrderBook) (now : Instant) :
    match b.policy with
    | .enforce => ∃ required, b.submit request tracked cash now =
        .error (.insufficientFunds required cash)
    | .warnOnly => ∃ order b', b.submit request tracked cash now = .ok (order, b') ∧
        b'.warnings.length = b.warnings.length + 1 := by
  obtain ⟨security, hget, hbuy, hshort⟩ := h
  have hzero : ¬ request.quantity = 0 := by omega
  have hnegative : ¬ request.quantity < 0 := by omega
  have hexceeds : ¬ estimatedCost request security ≤ cash := Int.not_le.2 hshort
  unfold submit check
  simp only [hget, if_neg hzero, if_neg hnegative, if_neg hexceeds]
  cases b.policy with
  | enforce => exact ⟨_, rfl⟩
  | warnOnly => exact ⟨_, _, rfl, List.length_append⟩

/-- An accepted request adds no warning, or one if the policy is to warn only. -/
theorem warnings_of_check {b : OrderBook} {now : Instant} {warnings : List String}
    (h : b.check request tracked cash now = .ok warnings) :
    warnings = b.warnings ∨
      b.policy = .warnOnly ∧ warnings.length = b.warnings.length + 1 := by
  unfold check at h
  split at h
  · cases h
  · split at h
    · cases h
    · split at h
      · exact .inl (Except.ok.inj h).symm
      · simp only at h
        split at h
        · exact .inl (Except.ok.inj h).symm
        · split at h
          · cases h
          · rename_i hpolicy
            rw [← Except.ok.inj h]
            exact .inr ⟨hpolicy, List.length_append⟩

end Submissions

/-- No policy matters to a cancellation. -/
theorem cancel_underPolicy (π : BuyingPowerPolicy) (b : OrderBook) (id : Nat) (now : Instant) :
    (b.underPolicy π).cancel id now =
      (b.cancel id now).map fun result => (result.1, result.2.underPolicy π) := by
  have hget : (b.underPolicy π).get? id = b.get? id := rfl
  unfold cancel
  rw [hget]
  cases b.get? id with
  | none => rfl
  | some order =>
      simp only
      cases order.transition .canceled <;> rfl

/-- No policy matters to cancellations in turn. -/
theorem cancelAll_underPolicy (π : BuyingPowerPolicy) (now : Instant) (ids : List Nat)
    (b : OrderBook) : cancelAll now ids (b.underPolicy π) =
      ((cancelAll now ids b).1, (cancelAll now ids b).2.underPolicy π) := by
  induction ids generalizing b with
  | nil => rfl
  | cons id rest ih =>
      rw [cancelAll, cancelAll, cancel_underPolicy]
      cases b.cancel id now with
      | error e => exact ih b
      | ok result =>
          simp only [Except.map]
          rw [ih]

/-- Whether a book and what is made of it show that cash was short: by a refusal or by a warning, as
the policy of the book says. -/
def Shows (b : OrderBook) (refused : Bool) (b' : OrderBook) : Prop :=
  match b.policy with
  | .enforce => refused
  | .warnOnly => b.warnings.length < b'.warnings.length

/-- A book and what is made of it by submissions and cancellations: the policy is kept, and no
warning is taken back. -/
structure Warned (b b' : OrderBook) : Prop where
  policy_eq : b'.policy = b.policy
  length_le : b.warnings.length ≤ b'.warnings.length

variable {b b' b'' : OrderBook} {refused refused' : Bool}

/-- What is shown at first is shown in the end. -/
theorem Shows.trans_warned (h : Shows b refused b') (h' : Warned b' b'')
    (hrefused : refused → refused') : Shows b refused' b'' := by
  unfold Shows at h ⊢
  cases hpolicy : b.policy with
  | enforce =>
      rw [hpolicy] at h
      exact hrefused h
  | warnOnly =>
      rw [hpolicy] at h
      exact Nat.lt_of_lt_of_le h h'.length_le

/-- What is shown in the end is shown. -/
theorem Warned.trans_shows (h : Warned b b') (h' : Shows b' refused b'')
    (hrefused : refused → refused') : Shows b refused' b'' := by
  unfold Shows at h' ⊢
  rw [h.policy_eq] at h'
  cases hpolicy : b.policy with
  | enforce =>
      rw [hpolicy] at h'
      exact hrefused h'
  | warnOnly =>
      rw [hpolicy] at h'
      exact Nat.lt_of_le_of_lt h.length_le h'

/-- Submissions and cancellations warn. -/
theorem warned_keptAt (now : Instant) (b : OrderBook) : KeptAt now (Warned b) where
  submit := by
    intro b' b'' request tracked cash order h hsubmit
    obtain ⟨warnings, hcheck, -, rfl⟩ := submit_eq_ok hsubmit
    refine ⟨h.policy_eq, Nat.le_trans h.length_le ?_⟩
    rcases warnings_of_check hcheck with hsame | ⟨-, hmore⟩
    · exact Nat.le_of_eq (congrArg List.length hsame.symm)
    · exact Nat.le_of_lt (Nat.lt_of_lt_of_eq (Nat.lt_succ_self _) hmore.symm)
  cancel := by
    intro b' b'' id e h hcancel
    obtain ⟨order, -, -, -, rfl⟩ := cancel_eq_ok hcancel
    exact ⟨h.policy_eq, h.length_le⟩

/-- A book that refuses requests has no warning. -/
theorem unwarned_keptAt (now : Instant) :
    KeptAt now fun b => b.policy = .enforce ∧ b.warnings = [] where
  submit := by
    intro b b' request tracked cash order ⟨hpolicy, hnone⟩ hsubmit
    obtain ⟨warnings, hcheck, -, rfl⟩ := submit_eq_ok hsubmit
    rcases warnings_of_check hcheck with hsame | ⟨hwarns, -⟩
    · exact ⟨hpolicy, hsame.trans hnone⟩
    · rw [hpolicy] at hwarns
      cases hwarns
  cancel := by
    intro b b' id e ⟨hpolicy, hnone⟩ hcancel
    obtain ⟨order, -, -, -, rfl⟩ := cancel_eq_ok hcancel
    exact ⟨hpolicy, hnone⟩

end OrderBook

/-! ### Commands -/

variable {κ α : Type}

/-- Whether an order command is refused because cash is short. -/
def OrderError.isFunds : OrderError → Bool
  | .insufficientFunds .. => true
  | _ => false

/-- Whether a reply refuses a request because cash is short. -/
def refusesFunds : Except OrderError α → Bool
  | .error e => e.isFunds
  | .ok _ => false

/-- Whether the reply to a command says that a request was refused because cash is short. -/
def Exchange.refusesFunds : Exchange κ → Bool
  | ⟨.submit _, reply⟩ => MarketReplay.refusesFunds (α := Order) reply
  | ⟨.liquidate _, reply⟩ => MarketReplay.refusesFunds (α := List Order) reply
  | _ => false

/-- A mapped reply refuses if the reply does. -/
theorem refusesFunds_map {β : Type} (f : α → β) (reply : Except OrderError α) :
    refusesFunds (reply.map f) = refusesFunds reply := by
  cases reply <;> rfl

namespace Kernel

/-- The kernel under another policy. -/
def underPolicy (π : BuyingPowerPolicy) (k : Kernel κ) : Kernel κ :=
  { k with book := k.book.underPolicy π }

/-- Whether what is run on a kernel gives the same under every policy. -/
def Agrees (f : Kernel κ → α × Kernel κ) (k : Kernel κ) : Prop :=
  ∀ π, f (k.underPolicy π) = ((f k).1, (f k).2.underPolicy π)

/-- A request is answered alike under every policy, or shows that cash is short. -/
theorem submit_agrees_or (now : Instant) (request : OrderRequest) (k : Kernel κ) :
    Agrees (fun k => k.submit now request) k ∨
      k.book.Shows (refusesFunds (k.submit now request).1) (k.submit now request).2.book := by
  by_cases hshort : OrderBook.Short request k.tracked k.portfolio.cash
  · refine .inr ?_
    have hresult := OrderBook.submit_of_short hshort k.book now
    unfold OrderBook.Shows submit
    cases hpolicy : k.book.policy with
    | enforce =>
        rw [hpolicy] at hresult
        obtain ⟨required, hrefused⟩ := hresult
        rw [hrefused]
        rfl
    | warnOnly =>
        rw [hpolicy] at hresult
        obtain ⟨order, book, haccepted, hlength⟩ := hresult
        rw [haccepted]
        exact Nat.lt_of_lt_of_eq (Nat.lt_succ_self _) hlength.symm
  · refine .inl fun π => ?_
    have hbook : (k.underPolicy π).book.submit request (k.underPolicy π).tracked
        (k.underPolicy π).portfolio.cash now =
          (k.book.submit request k.tracked k.portfolio.cash now).map fun result =>
            (result.1, result.2.underPolicy π) :=
      OrderBook.submit_underPolicy hshort π k.book now
    show (k.underPolicy π).submit now request =
      ((k.submit now request).1, (k.submit now request).2.underPolicy π)
    unfold submit
    rw [hbook]
    cases k.book.submit request k.tracked k.portfolio.cash now <;> rfl

/-- Positions are closed alike under every policy, or show that cash is short. -/
theorem closeAll_agrees_or (now : Instant) (positions : List (Symbol × Int)) (k : Kernel κ) :
    Agrees (closeAll now positions) k ∨
      k.book.Shows (refusesFunds (closeAll now positions k).1)
        (closeAll now positions k).2.book := by
  induction positions generalizing k with
  | nil => exact .inl fun _ => rfl
  | cons position rest ih =>
      obtain ⟨symbol, quantity⟩ := position
      by_cases hflat : quantity = 0
      · have hskip : closeAll now ((symbol, quantity) :: rest) = closeAll (κ := κ) now rest := by
          funext k
          rw [closeAll, if_pos hflat]
        rw [hskip]
        exact ih k
      · have hwarned := (OrderBook.warned_keptAt now k.book).kernel_submit (k := k)
          ⟨rfl, Nat.le_refl _⟩ ⟨symbol, wrap64 (-quantity), .market, none⟩
        have hfirst := k.submit_agrees_or now ⟨symbol, wrap64 (-quantity), .market, none⟩
        unfold Agrees at hfirst ⊢
        simp only [closeAll, if_neg hflat] at hfirst ⊢
        cases hsubmit : k.submit now ⟨symbol, wrap64 (-quantity), .market, none⟩ with
        | mk reply k' =>
            rw [hsubmit] at hfirst hwarned
            cases reply with
            | error e =>
                simp only at hfirst ⊢
                refine hfirst.imp_left fun hagrees π => ?_
                rw [hagrees π]
            | ok order =>
                simp only [refusesFunds_map] at hfirst ⊢
                rcases hfirst with hagrees | hshows
                · refine (ih k').imp (fun hrest π => ?_) fun hrest => ?_
                  · rw [hagrees π]
                    simp only
                    rw [hrest π]
                  · exact hwarned.trans_shows hrest fun hrefused => hrefused
                · have hrest := (OrderBook.warned_keptAt now k'.book).closeAll rest (k := k')
                    ⟨rfl, Nat.le_refl _⟩
                  exact .inr (hshows.trans_warned hrest fun hnone =>
                    absurd hnone Bool.false_ne_true)

/-- No policy matters to a subscription. -/
theorem subscribe_agrees (result : Except UniverseError Universe) (k : Kernel κ) :
    Agrees (fun k => k.subscribe result) k := by
  intro π
  cases result <;> rfl

end Kernel

/-- A command is answered alike under every policy, or shows that cash is short. -/
theorem Command.execute_agrees_or (now : Instant) (c : Command κ) (k : Kernel κ) :
    Kernel.Agrees (fun k => c.execute now k) k ∨
      k.book.Shows (Exchange.refusesFunds ⟨c, (c.execute now k).1⟩) (c.execute now k).2.book := by
  cases c with
  | submit request => exact k.submit_agrees_or now request
  | liquidate target =>
      let canceled : Kernel κ :=
        { k with book := (OrderBook.cancelAll now (k.openIds target) k.book).2 }
      have hcanceled : ∀ π, (k.underPolicy π).liquidate now target =
          Kernel.closeAll now (k.targets target) (canceled.underPolicy π) := by
        intro π
        have hbook : OrderBook.cancelAll now ((k.underPolicy π).openIds target)
            (k.underPolicy π).book = ((OrderBook.cancelAll now (k.openIds target) k.book).1,
              (OrderBook.cancelAll now (k.openIds target) k.book).2.underPolicy π) :=
          OrderBook.cancelAll_underPolicy π now (k.openIds target) k.book
        unfold Kernel.liquidate
        rw [hbook]
        rfl
      have hwarned : k.book.Warned canceled.book :=
        (OrderBook.warned_keptAt now k.book).cancelAll (k.openIds target) ⟨rfl, Nat.le_refl _⟩
      refine (Kernel.closeAll_agrees_or now (k.targets target) canceled).imp
        (fun hagrees π => ?_) fun hshows => ?_
      · exact (hcanceled π).trans (hagrees π)
      · exact hwarned.trans_shows hshows fun hrefused => hrefused
  | cancel id =>
      refine .inl fun π => ?_
      have hbook : (k.underPolicy π).book.cancel id now =
          (k.book.cancel id now).map fun result => (result.1, result.2.underPolicy π) :=
        OrderBook.cancel_underPolicy π k.book id now
      simp only [Command.execute]
      rw [hbook]
      cases k.book.cancel id now <;> rfl
  | removeInstrument symbol =>
      refine .inl fun π => ?_
      show (k.underPolicy π).removeInstrument now symbol =
        ((k.removeInstrument now symbol).1, (k.removeInstrument now symbol).2.underPolicy π)
      have hbook : (k.underPolicy π).book.cancelOpenFor symbol now =
          ((k.book.cancelOpenFor symbol now).1,
            (k.book.cancelOpenFor symbol now).2.underPolicy π) :=
        OrderBook.cancelAll_underPolicy π now _ k.book
      have htracked : (k.underPolicy π).tracked = k.tracked := rfl
      unfold Kernel.removeInstrument
      rw [hbook, htracked]
      cases k.tracked.removeInstrument symbol <;> rfl
  | addInstrument symbol => exact .inl (k.subscribe_agrees (k.tracked.addInstrument symbol))
  | addContract contract => exact .inl (k.subscribe_agrees (k.tracked.addContract contract))
  | addDerivedContract underlying expiry right style =>
      refine .inl fun π => ?_
      show (k.underPolicy π).addDerivedContract now underlying expiry right style =
        ((k.addDerivedContract now underlying expiry right style).1,
          (k.addDerivedContract now underlying expiry right style).2.underPolicy π)
      have hcontracts : (k.underPolicy π).contracts = k.contracts := rfl
      have htracked : (k.underPolicy π).tracked = k.tracked := rfl
      unfold Kernel.addDerivedContract
      rw [hcontracts, htracked]
      cases (k.contracts underlying now.date).find? (Kernel.hasTerms expiry right style) with
      | none => rfl
      | some contract =>
          simp only
          cases k.tracked.addContract contract <;> rfl
  | optionChain underlying => exact .inl fun _ => rfl
  | schedule rule action => exact .inl fun _ => rfl
  | clock => exact .inl fun _ => rfl
  | security symbol => exact .inl fun _ => rfl
  | securities => exact .inl fun _ => rfl
  | portfolio => exact .inl fun _ => rfl
  | order id => exact .inl fun _ => rfl
  | openOrders => exact .inl fun _ => rfl

/-! ### Programs -/

namespace Program

/-- A log keeps what is in it. -/
theorem mem_logged {x : Exchange κ} (now : Instant) (p : Program κ α) {log : List (Exchange κ)}
    (hx : x ∈ log) (k : Kernel κ) : x ∈ ((p.logged log).run now k).1.2 := by
  induction p generalizing log k with
  | done a => exact hx
  | perform c resume ih => exact ih _ (List.mem_append_left _ hx) _

/-- A program is run alike under every policy, with the same commands and replies, or it shows that
cash is short. -/
theorem logged_agrees_or (now : Instant) (p : Program κ α) (log : List (Exchange κ))
    (k : Kernel κ) : Kernel.Agrees ((p.logged log).run now) k ∨
      k.book.Shows (((p.logged log).run now k).1.2.any Exchange.refusesFunds)
        ((p.logged log).run now k).2.book := by
  induction p generalizing log k with
  | done a => exact .inl fun _ => rfl
  | perform c resume ih =>
      let reply := (c.execute now k).1
      let k' := (c.execute now k).2
      have hrun : ((perform c resume).logged log).run now k =
          ((resume reply).logged (log ++ [⟨c, reply⟩])).run now k' := rfl
      have hwarned : k.book.Warned k'.book :=
        (OrderBook.warned_keptAt now k.book).execute c ⟨rfl, Nat.le_refl _⟩
      rw [hrun]
      rcases c.execute_agrees_or now k with hagrees | hshows
      · refine (ih reply (log ++ [⟨c, reply⟩]) k').imp (fun hrest π => ?_) fun hrest => ?_
        · have hcommand : c.execute now (k.underPolicy π) = (reply, k'.underPolicy π) := hagrees π
          have hother : ((perform c resume).logged log).run now (k.underPolicy π) =
              ((resume (c.execute now (k.underPolicy π)).1).logged
                (log ++ [⟨c, (c.execute now (k.underPolicy π)).1⟩])).run now
                  (c.execute now (k.underPolicy π)).2 := rfl
          rw [hother, hcommand, hrun]
          exact hrest π
        · exact hwarned.trans_shows hrest fun hrefused => hrefused
      · refine .inr (hshows.trans_warned ?_ fun hrefused => ?_)
        · exact (OrderBook.warned_keptAt now k'.book).run _ ⟨rfl, Nat.le_refl _⟩
        · exact List.any_eq_true.2
            ⟨⟨c, reply⟩, mem_logged now (resume reply) List.mem_concat_self k', hrefused⟩

end Program

end MarketReplay
