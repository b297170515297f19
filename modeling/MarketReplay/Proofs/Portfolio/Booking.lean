import Mathlib.Tactic.Ring
import MarketReplay.Proofs.Grouping
import MarketReplay.Proofs.Order.Matching

/-!
# Booked orders and the portfolio

As long as no amount of cash and no quantity saturates or overflows (`Portfolio.booksFit`), cash is
the initial cash without the cost of the booked orders, and the holding of a symbol is the sum of
its booked quantities (`Reconciled.bookAll`). Then the value of the portfolio at any prices is the
initial cash with the gain of every booked order at these prices (`Reconciled.equity_eq`).
-/

namespace MarketReplay

theorem wrap64_of_fits {x : Int} (h : fitsInt64 x) : wrap64 x = x := by
  unfold fitsInt64 at h
  simp only [Bool.and_eq_true, decide_eq_true_eq] at h
  exact wrap64_eq_self h.1 h.2

theorem clamp64_of_fits {x : Int} (h : fitsInt64 x) : clamp64 x = x := by
  unfold fitsInt64 at h
  simp only [Bool.and_eq_true, decide_eq_true_eq] at h
  exact clamp64_eq_self h.1 h.2

namespace Order

/-- The cash that a filled order costs. -/
def cost (o : Order) : Int := o.quantity * o.fillPrice.getD 0 * o.symbol.multiplier

/-- What a filled order has gained at a price. -/
def gain (o : Order) (price : Int) : Int :=
  o.quantity * (price - o.fillPrice.getD 0) * o.symbol.multiplier

/-- What the quantity of an order is worth at a price is its cost and its gain. -/
theorem worth_eq (o : Order) (price : Int) :
    o.quantity * (price * o.symbol.multiplier) = o.gain price + o.cost := by
  rw [gain, cost]
  ring

end Order

/-- The net quantity of orders on a symbol. -/
def netQuantity (orders : List Order) (symbol : Symbol) : Int :=
  ((orders.filter fun o => o.symbol = symbol).map Order.quantity).sum

/-- One more order adds its quantity to that of its symbol. -/
theorem netQuantity_append (orders : List Order) (o : Order) (symbol : Symbol) :
    netQuantity (orders ++ [o]) symbol =
      netQuantity orders symbol + if o.symbol = symbol then o.quantity else 0 := by
  unfold netQuantity
  rw [List.filter_append, List.map_append, List.sum_append]
  by_cases hsymbol : o.symbol = symbol <;> simp [hsymbol]

namespace Portfolio

/-- Whether the fill of an order is booked without saturation or overflow of an amount of cash or
of a quantity: its own quantity can be negated, and its worth, the cash after it and the quantity
held after it fit their width. -/
def bookFits (p : Portfolio) (o : Order) : Bool :=
  minInt64 < o.quantity && o.quantity ≤ maxInt64 &&
    fitsInt64 (o.quantity.natAbs * o.fillPrice.getD 0 * o.symbol.multiplier) &&
    fitsInt64 (p.cash - o.cost) && fitsInt64 (p.quantity o.symbol + o.quantity)

/-- Whether the fill of an order is booked without overflow of a quantity, whatever its price. -/
def quantityFits (p : Portfolio) (o : Order) : Bool :=
  minInt64 < o.quantity && o.quantity ≤ maxInt64 && fitsInt64 (p.quantity o.symbol + o.quantity)

/-- Whether the fills of orders are booked in turn without saturation or overflow. -/
def booksFit : Portfolio → List Order → Bool
  | _, [] => true
  | p, o :: rest => p.bookFits o && booksFit (p.book o) rest

/-- Whether the values of holdings are added to a total without saturation or overflow. -/
def valuesFit (mark : Symbol → Option Int) : (total : Int) → List (Symbol × Holding) → Bool
  | total, [] => fitsInt64 total
  | total, (symbol, h) :: rest =>
    let value := holdingValue symbol h.quantity ((mark symbol).getD h.averagePrice)
    fitsInt128 value && fitsInt128 (total + value) && valuesFit mark (total + value) rest

/-- Whether the value of the portfolio is computed without saturation or overflow. -/
def equityFits (p : Portfolio) (mark : Symbol → Option Int) : Bool :=
  valuesFit mark p.cash p.holdings.entries

end Portfolio

/-- The magnitude of a quantity that can be negated. -/
theorem abs64_eq_natAbs {x : Int} (hlo : minInt64 < x) (hhi : x ≤ maxInt64) :
    abs64 x = x.natAbs := by
  unfold minInt64 maxInt64 at *
  exact wrap64_eq_self (by unfold minInt64; omega) (by unfold maxInt64; omega)

/-- A trade adds to the open quantity. -/
theorem Holding.trade_quantity (h : Holding) (delta price multiplier : Int) :
    (h.trade delta price multiplier).1.quantity = wrap64 (h.quantity + delta) := by
  unfold trade
  split <;> rfl

namespace Fill

variable {symbol : Symbol} {quantity price : Int}

/-- A fill's signed quantity is that of its order. -/
theorem signedQuantity_ofSigned (hlo : minInt64 < quantity) (hhi : quantity ≤ maxInt64) :
    (ofSigned symbol quantity price).signedQuantity = quantity := by
  unfold ofSigned signedQuantity Side.ofQuantity
  rw [abs64_eq_natAbs hlo hhi]
  unfold minInt64 maxInt64 at *
  by_cases hsign : quantity < 0
  · rw [if_pos hsign]
    show wrap64 (-(quantity.natAbs : Int)) = quantity
    rw [wrap64_eq_self (by unfold minInt64; omega) (by unfold maxInt64; omega)]
    omega
  · rw [if_neg hsign]
    show (quantity.natAbs : Int) = quantity
    omega

/-- A fill's cash is its magnitude at its price. -/
theorem cash_ofSigned (hlo : minInt64 < quantity) (hhi : quantity ≤ maxInt64)
    (hworth : fitsInt64 (quantity.natAbs * price * symbol.multiplier)) :
    (ofSigned symbol quantity price).cash = quantity.natAbs * price * symbol.multiplier := by
  unfold ofSigned cash worth
  simp only
  rw [abs64_eq_natAbs hlo hhi, clamp64_of_fits hworth]

end Fill

namespace Portfolio

variable {p : Portfolio} {o : Order}

/-- What it takes for a fill to be booked exactly. -/
theorem bookFits_iff : p.bookFits o = true ↔
    minInt64 < o.quantity ∧ o.quantity ≤ maxInt64 ∧
      fitsInt64 (o.quantity.natAbs * o.fillPrice.getD 0 * o.symbol.multiplier) ∧
      fitsInt64 (p.cash - o.cost) ∧ fitsInt64 (p.quantity o.symbol + o.quantity) := by
  simp only [bookFits, Bool.and_eq_true, decide_eq_true_eq, and_assoc]

/-- What it takes for the quantity of a fill to be booked exactly. -/
theorem quantityFits_iff : p.quantityFits o = true ↔
    minInt64 < o.quantity ∧ o.quantity ≤ maxInt64 ∧
      fitsInt64 (p.quantity o.symbol + o.quantity) := by
  simp only [quantityFits, Bool.and_eq_true, decide_eq_true_eq, and_assoc]

/-- Where a fill is booked exactly, its quantity is. -/
theorem quantityFits_of_bookFits (hfits : p.bookFits o) : p.quantityFits o := by
  obtain ⟨hlo, hhi, -, -, hquantity⟩ := bookFits_iff.1 hfits
  exact quantityFits_iff.2 ⟨hlo, hhi, hquantity⟩

/-- Booking a fill takes its cost from the cash. -/
theorem cash_book (hprice : o.fillPrice.isSome) (hfits : p.bookFits o) :
    (p.book o).cash = p.cash - o.cost := by
  obtain ⟨price, hprice⟩ := Option.isSome_iff_exists.1 hprice
  obtain ⟨hlo, hhi, hworth, hcash, -⟩ := bookFits_iff.1 hfits
  have hcost : o.cost = o.quantity * price * o.symbol.multiplier := by
    rw [Order.cost, hprice, Option.getD_some]
  rw [hprice, Option.getD_some] at hworth
  rw [hcost] at hcash ⊢
  have hbook : p.book o = p.apply (.ofSigned o.symbol o.quantity price) := by
    rw [book, hprice]
  rw [hbook, apply, Fill.cash_ofSigned hlo hhi hworth]
  -- A sale adds its worth to the cash, which is to take its negative cost.
  by_cases hsign : o.quantity < 0
  · have hside : Side.ofQuantity o.quantity = .sell := if_pos hsign
    have habs : (o.quantity.natAbs : Int) = -o.quantity := by omega
    simp only [Fill.ofSigned, hside, habs]
    rw [Int.neg_mul, Int.neg_mul, ← Int.sub_eq_add_neg]
    exact clamp64_of_fits hcash
  · have hside : Side.ofQuantity o.quantity = .buy := if_neg hsign
    have habs : (o.quantity.natAbs : Int) = o.quantity := by omega
    simp only [Fill.ofSigned, hside, habs]
    exact clamp64_of_fits hcash

/-- Booking a fill adds its quantity to the holding of its symbol, which is dropped when it becomes
flat. -/
theorem holdings_book (hprice : o.fillPrice.isSome) (hfits : p.quantityFits o) :
    ∃ h : Holding, h.quantity = p.quantity o.symbol + o.quantity ∧
      (p.book o).holdings =
        if h.isFlat then p.holdings.erase o.symbol else p.holdings.insert o.symbol h := by
  obtain ⟨price, hprice⟩ := Option.isSome_iff_exists.1 hprice
  obtain ⟨hlo, hhi, hquantity⟩ := quantityFits_iff.1 hfits
  have hbook : p.book o = p.apply (.ofSigned o.symbol o.quantity price) := by
    rw [book, hprice]
  have hbefore : ((p.holdings.get? o.symbol).getD .flat).quantity = p.quantity o.symbol := by
    unfold quantity
    cases p.holdings.get? o.symbol <;> rfl
  refine ⟨(((p.holdings.get? o.symbol).getD .flat).trade
    (Fill.ofSigned o.symbol o.quantity price).signedQuantity price o.symbol.multiplier).1, ?_, ?_⟩
  · rw [Holding.trade_quantity, Fill.signedQuantity_ofSigned hlo hhi, hbefore,
      wrap64_of_fits hquantity]
  · rw [hbook]
    rfl

/-- The holdings after a fill is booked: that of its symbol holds the quantity before it and its
own, and is dropped when it becomes flat; the others stay. -/
theorem get?_book (hprice : o.fillPrice.isSome) (hfits : p.quantityFits o) :
    ∃ h : Holding, h.quantity = p.quantity o.symbol + o.quantity ∧
      ∀ symbol, (p.book o).holdings.get? symbol =
        if symbol = o.symbol then (if h.quantity = 0 then none else some h)
        else p.holdings.get? symbol := by
  obtain ⟨h, hquantity, hholdings⟩ := holdings_book hprice hfits
  refine ⟨h, hquantity, fun symbol => ?_⟩
  rw [hholdings]
  by_cases hflat : h.quantity = 0
  · have hdrop : h.isFlat = true := by simpa [Holding.isFlat] using hflat
    rw [if_pos hdrop, if_pos hflat, SortedMap.get?_erase]
  · have hkeep : ¬ h.isFlat = true := by simpa [Holding.isFlat] using hflat
    rw [if_neg hkeep, if_neg hflat, SortedMap.get?_insert]

/-- Booking a fill adds its quantity to that of its symbol. -/
theorem quantity_book (hprice : o.fillPrice.isSome) (hfits : p.quantityFits o)
    (symbol : Symbol) :
    (p.book o).quantity symbol =
      p.quantity symbol + if o.symbol = symbol then o.quantity else 0 := by
  obtain ⟨h, hquantity, hget⟩ := get?_book hprice hfits
  rw [quantity, hget]
  by_cases hsymbol : symbol = o.symbol
  · subst hsymbol
    rw [if_pos rfl, if_pos rfl, ← hquantity]
    by_cases hflat : h.quantity = 0 <;> simp [hflat]
  · have hne : o.symbol ≠ symbol := fun heq => hsymbol heq.symm
    rw [if_neg hsymbol, if_neg hne, Int.add_zero, quantity]

/-- Booking fills of other symbols leaves a holding alone. -/
theorem get?_foldl_book_of_ne {symbol : Symbol} {fills : List Order}
    (hne : ∀ o ∈ fills, o.symbol ≠ symbol) (p : Portfolio) :
    (fills.foldl book p).holdings.get? symbol = p.holdings.get? symbol := by
  induction fills generalizing p with
  | nil => rfl
  | cons o rest ih =>
      obtain ⟨ho, hrest⟩ := List.forall_mem_cons.1 hne
      rw [List.foldl_cons, ih hrest]
      unfold book
      split
      · rfl
      · rename_i price _
        have hother : symbol ≠ (Fill.ofSigned o.symbol o.quantity price).symbol := Ne.symm ho
        simp only [apply]
        split
        · rw [SortedMap.get?_erase, if_neg hother]
        · rw [SortedMap.get?_insert, if_neg hother]

/-- A position that can be negated is gone once a fill of its negative is booked, whatever fills of
other symbols are booked before and after. -/
theorem get?_foldl_book_closing {front back : List Order}
    (hfront : ∀ x ∈ front, x.symbol ≠ o.symbol) (hback : ∀ x ∈ back, x.symbol ≠ o.symbol)
    (hprice : o.fillPrice.isSome) (hlo : minInt64 < p.quantity o.symbol)
    (hhi : p.quantity o.symbol ≤ maxInt64) (hclosing : o.quantity = -p.quantity o.symbol) :
    ((front ++ o :: back).foldl book p).holdings.get? o.symbol = none := by
  have hbefore : (front.foldl book p).quantity o.symbol = p.quantity o.symbol := by
    rw [quantity, get?_foldl_book_of_ne hfront p, quantity]
  have hfits : (front.foldl book p).quantityFits o := by
    rw [quantityFits_iff, hbefore, hclosing]
    unfold fitsInt64 minInt64 maxInt64 at *
    refine ⟨by omega, by omega, ?_⟩
    simp only [Bool.and_eq_true, decide_eq_true_eq]
    omega
  obtain ⟨held, hheld, hget⟩ := get?_book hprice hfits
  have hflat : held.quantity = 0 := by omega
  rw [List.foldl_append, List.foldl_cons, get?_foldl_book_of_ne hback, hget, if_pos rfl,
    if_pos hflat]

/-- Values that fit are added to a total exactly. -/
theorem foldl_of_valuesFit {mark : Symbol → Option Int} {entries : List (Symbol × Holding)}
    {total : Int} (h : valuesFit mark total entries) :
    clamp64 (entries.foldl (fun total (symbol, held) =>
      total + holdingValue symbol held.quantity ((mark symbol).getD held.averagePrice)) total) =
      total + (entries.map fun e =>
        holdingValue e.1 e.2.quantity ((mark e.1).getD e.2.averagePrice)).sum := by
  induction entries generalizing total with
  | nil =>
      rw [valuesFit] at h
      simpa using clamp64_of_fits h
  | cons e rest ih =>
      obtain ⟨symbol, held⟩ := e
      rw [valuesFit, Bool.and_eq_true, Bool.and_eq_true] at h
      rw [List.foldl_cons, ih h.2, List.map_cons, List.sum_cons, Int.add_assoc]

/-- Where values fit, the portfolio is worth its cash and the values of its holdings. -/
theorem equity_of_fits {mark : Symbol → Option Int} (h : p.equityFits mark) :
    p.equity mark = p.cash + (p.holdings.entries.map fun e =>
      holdingValue e.1 e.2.quantity ((mark e.1).getD e.2.averagePrice)).sum :=
  foldl_of_valuesFit h

end Portfolio

/-- Cash and holdings of a portfolio are what filled orders make of its initial cash: a symbol is
held exactly when its net quantity is not zero. -/
structure Reconciled (initial : Int) (filled : List Order) (p : Portfolio) : Prop where
  cash_eq : p.cash = initial - (filled.map Order.cost).sum
  quantity_eq : ∀ symbol, p.quantity symbol = netQuantity filled symbol
  held_iff : ∀ symbol, p.holdings.contains symbol ↔ netQuantity filled symbol ≠ 0

namespace Reconciled

variable {initial : Int} {filled : List Order} {p : Portfolio}

/-- Where quantities agree, it is enough that no holding is flat. -/
theorem of_not_flat (hcash : p.cash = initial - (filled.map Order.cost).sum)
    (hquantity : ∀ symbol, p.quantity symbol = netQuantity filled symbol)
    (hopen : ∀ symbol h, p.holdings.get? symbol = some h → h.quantity ≠ 0) :
    Reconciled initial filled p := by
  refine ⟨hcash, hquantity, fun symbol => ?_⟩
  rw [← hquantity, SortedMap.contains, Portfolio.quantity]
  cases hget : p.holdings.get? symbol with
  | none => simp
  | some held => simpa using hopen symbol held hget

/-- No holding is flat. -/
theorem not_flat (h : Reconciled initial filled p) {symbol : Symbol} {held : Holding}
    (hget : p.holdings.get? symbol = some held) : held.quantity ≠ 0 := by
  have hcontains : p.holdings.contains symbol := by
    rw [SortedMap.contains, hget]
    rfl
  have hquantity : p.quantity symbol = held.quantity := by
    rw [Portfolio.quantity, hget]
    rfl
  rw [← hquantity, h.quantity_eq]
  exact (h.held_iff symbol).1 hcontains

/-- What is held was filled. -/
theorem exists_filled (h : Reconciled initial filled p) {symbol : Symbol}
    (hcontains : p.holdings.contains symbol) : ∃ o ∈ filled, o.symbol = symbol := by
  by_contra hnone
  refine (h.held_iff symbol).1 hcontains ?_
  have hnil : (filled.filter fun o => o.symbol = symbol) = [] :=
    List.filter_eq_nil_iff.2 fun o ho heq => hnone ⟨o, ho, of_decide_eq_true heq⟩
  rw [netQuantity, hnil]
  rfl

/-- A portfolio of cash alone agrees with no order. -/
theorem ofCash (cash : Int) : Reconciled cash [] (.ofCash cash) := by
  refine .of_not_flat ?_ (fun _ => rfl) fun symbol h hget => ?_
  · exact (Int.sub_zero cash).symm
  · exact absurd hget (by simp [Portfolio.ofCash])

/-- The order in which the orders are listed does not matter. -/
theorem perm {filled' : List Order} (h : Reconciled initial filled p)
    (hperm : filled.Perm filled') : Reconciled initial filled' p := by
  refine .of_not_flat ?_ (fun symbol => ?_) fun _ _ => h.not_flat
  · rw [h.cash_eq, (hperm.map Order.cost).sum_eq]
  · rw [h.quantity_eq, netQuantity, ((hperm.filter _).map Order.quantity).sum_eq, netQuantity]

/-- Booking one more fill keeps the agreement. -/
theorem book {o : Order} (h : Reconciled initial filled p) (hprice : o.fillPrice.isSome)
    (hfits : p.bookFits o) : Reconciled initial (filled ++ [o]) (p.book o) := by
  have hquantity := Portfolio.quantityFits_of_bookFits hfits
  refine .of_not_flat ?_ (fun symbol => ?_) fun symbol found hfound => ?_
  · rw [Portfolio.cash_book hprice hfits, h.cash_eq, List.map_append, List.sum_append]
    simp only [List.map_cons, List.map_nil, List.sum_cons, List.sum_nil]
    omega
  · rw [Portfolio.quantity_book hprice hquantity, h.quantity_eq, netQuantity_append]
  · obtain ⟨held, -, hget⟩ := Portfolio.get?_book hprice hquantity
    rw [hget] at hfound
    split at hfound
    · split at hfound
      · exact absurd hfound (by simp)
      · rename_i hopen
        obtain rfl := Option.some.inj hfound
        exact hopen
    · exact h.not_flat hfound

/-- Booking fills in turn keeps the agreement. -/
theorem bookAll {fills : List Order} (h : Reconciled initial filled p)
    (hprice : ∀ o ∈ fills, o.fillPrice.isSome) (hfits : p.booksFit fills) :
    Reconciled initial (filled ++ fills) (fills.foldl Portfolio.book p) := by
  induction fills generalizing filled p with
  | nil => simpa using h
  | cons o rest ih =>
      rw [Portfolio.booksFit, Bool.and_eq_true] at hfits
      have hbook := h.book (hprice o List.mem_cons_self) hfits.1
      have hrest := ih hbook (fun o' ho' => hprice o' (List.mem_cons_of_mem _ ho')) hfits.2
      rw [List.foldl_cons]
      simpa using hrest

/-- The holdings of a symbol, as a list of at most one. -/
theorem held_eq (h : Reconciled initial filled p) (symbol : Symbol) :
    (p.holdings.entries.filter fun e => e.1 = symbol).map (fun e => e.2.quantity) =
      if netQuantity filled symbol = 0 then [] else [netQuantity filled symbol] := by
  have hquantity := h.quantity_eq symbol
  rw [SortedMap.filter_entries, ← hquantity, Portfolio.quantity]
  cases hget : p.holdings.get? symbol with
  | none => rfl
  | some held =>
      have hopen : held.quantity ≠ 0 := h.not_flat hget
      simp [hopen]

/-- What the holdings are worth is what the filled orders are worth, whatever a unit of each symbol
is worth. -/
theorem sum_worth (h : Reconciled initial filled p) (worth : Symbol → Int) :
    (p.holdings.entries.map fun e => e.2.quantity * worth e.1).sum =
      (filled.map fun o => o.quantity * worth o.symbol).sum := by
  -- Both sums are taken by symbol, over the symbols that occur on either side.
  let symbols := (p.holdings.keys ++ filled.map Order.symbol).dedup
  have hheld : ∀ e ∈ p.holdings.entries, e.1 ∈ symbols := fun e he =>
    List.mem_dedup.2 (List.mem_append_left _ (List.mem_map_of_mem he))
  have hfilled : ∀ o ∈ filled, o.symbol ∈ symbols := fun o ho =>
    List.mem_dedup.2 (List.mem_append_right _ (List.mem_map_of_mem ho))
  rw [sum_map_eq_sum_groups Prod.fst _ (List.nodup_dedup _) hheld,
    sum_map_eq_sum_groups Order.symbol _ (List.nodup_dedup _) hfilled]
  refine congrArg List.sum (List.map_congr_left fun symbol _ => ?_)
  have hentries : ((p.holdings.entries.filter fun e => e.1 = symbol).map
      fun e => e.2.quantity * worth e.1).sum = p.quantity symbol * worth symbol := by
    rw [SortedMap.filter_entries, Portfolio.quantity]
    cases p.holdings.get? symbol <;> simp
  have horders : ((filled.filter fun o => o.symbol = symbol).map
      fun o => o.quantity * worth o.symbol).sum = netQuantity filled symbol * worth symbol := by
    rw [netQuantity, ← List.sum_map_mul_right]
    refine congrArg List.sum (List.map_congr_left fun o ho => ?_)
    obtain ⟨-, ho⟩ := List.mem_filter.1 ho
    rw [of_decide_eq_true ho]
  rw [hentries, horders, h.quantity_eq]

/-- At prices that every held symbol has, the portfolio is worth the initial cash with the gain of
every filled order. -/
theorem equity_eq (h : Reconciled initial filled p) {mark : Symbol → Option Int}
    (hmark : ∀ symbol, p.holdings.contains symbol → (mark symbol).isSome)
    (hfits : p.equityFits mark) :
    p.equity mark = initial + (filled.map fun o => o.gain ((mark o.symbol).getD 0)).sum := by
  have hvalues : ∀ e ∈ p.holdings.entries,
      Portfolio.holdingValue e.1 e.2.quantity ((mark e.1).getD e.2.averagePrice) =
        e.2.quantity * ((mark e.1).getD 0 * e.1.multiplier) := by
    intro e he
    have hheld : p.holdings.contains e.1 := by
      rw [SortedMap.contains, SortedMap.mem_entries.1 he]
      rfl
    obtain ⟨price, hprice⟩ := Option.isSome_iff_exists.1 (hmark e.1 hheld)
    rw [hprice, Portfolio.holdingValue, Int.mul_assoc]
    rfl
  have hworth := h.sum_worth fun symbol => (mark symbol).getD 0 * symbol.multiplier
  rw [Portfolio.equity_of_fits hfits, List.map_congr_left hvalues, hworth, h.cash_eq]
  -- The costs in the worth of the orders cancel those taken from the cash.
  simp only [Order.worth_eq]
  rw [List.sum_map_add]
  omega

end Reconciled

end MarketReplay
