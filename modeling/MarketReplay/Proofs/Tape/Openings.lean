import MarketReplay.Proofs.Calendar.Sessions
import MarketReplay.Proofs.Tape.AsOf

/-!
# Prints that open sessions

`firstOpener?` is the first print of a series on a date that can open the session of the date. The
session opening of a quote is that of the last date which has one among the points that were read
(`LastOpener`): `lastSession_upTo` says so of the points up to a moment.
-/

namespace MarketReplay

/-- A print can open the session of its own date only, which is a trading day, and not before the
session opens. -/
theorem openingTime_eq {calendar : Calendar} {p : PricePoint} {time : DateTime}
    (h : openingTime calendar p = some time) :
    time.date = p.time.date ∧
      ∃ opening, calendar.sessionOpen p.time.date = some opening ∧ opening ≤ time := by
  unfold openingTime at h
  split at h
  · -- The print lies in the session.
    rename_i hsession
    obtain rfl := Option.some.inj h
    refine ⟨rfl, ?_⟩
    unfold Calendar.isOpen at hsession
    split at hsession
    · rename_i opening close hopening hclose
      rw [Bool.and_eq_true, decide_eq_true_eq] at hsession
      exact ⟨opening, hopening, hsession.1⟩
    · cases hsession
  · -- The print is a bar that stands for the session.
    split at h
    · cases h
    · split at h
      · cases h
      · split at h
        · exact ⟨(Calendar.sessionOpen_eq h).2, time, h, Int.le_refl _⟩
        · cases h

/-- Whether a print can open the session of a date. -/
def PricePoint.opens (calendar : Calendar) (date : Date) (p : PricePoint) : Bool :=
  p.time.date = date && (openingTime calendar p).isSome

/-- The first print of a series that can open the session of a date. -/
def firstOpener? (calendar : Calendar) (series : List PricePoint) (date : Date) :
    Option PricePoint :=
  series.find? (PricePoint.opens calendar date)

/-- Whether a print, at a time, opened the last session of a series up to a moment: it is the first
opener of its date, and no print up to the moment can open the session of a later date. -/
structure LastOpener (calendar : Calendar) (series : List PricePoint) (moment : DateTime)
    (p : PricePoint) (time : DateTime) : Prop where
  first : firstOpener? calendar series p.time.date = some p
  time_eq : openingTime calendar p = some time
  reached : p.time ≤ moment
  last : ∀ q ∈ series, q.time ≤ moment → (openingTime calendar q).isSome →
    q.time.date ≤ p.time.date

variable {calendar : Calendar} {series : List PricePoint} {date : Date} {moment : DateTime}
  {p q : PricePoint} {time : DateTime}

/-- The first opener of a date is a print of the series on that date that can open its session. -/
theorem firstOpener?_sound (h : firstOpener? calendar series date = some p) :
    p ∈ series ∧ p.time.date = date ∧ ∃ time, openingTime calendar p = some time := by
  have hopens := List.find?_some h
  unfold PricePoint.opens at hopens
  rw [Bool.and_eq_true, decide_eq_true_eq] at hopens
  exact ⟨List.mem_of_find?_eq_some h, hopens.1, Option.isSome_iff_exists.1 hopens.2⟩

/-- Where a print can open the session of its date, the date has a first opener, which is not later
if the series is in the order of time. -/
theorem exists_firstOpener? (hsorted : TimeSorted series) (hq : q ∈ series)
    (hopens : (openingTime calendar q).isSome) :
    ∃ p, firstOpener? calendar series q.time.date = some p ∧ p.time ≤ q.time := by
  have hmatch : q.opens calendar q.time.date = true := by simp [PricePoint.opens, hopens]
  cases hfirst : firstOpener? calendar series q.time.date with
  | none => exact absurd hmatch (List.find?_eq_none.1 hfirst q hq)
  | some p =>
      refine ⟨p, rfl, ?_⟩
      obtain ⟨-, front, back, rfl, hfront⟩ := List.find?_eq_some_iff_append.1 hfirst
      -- No print before `p` is an opener of the date, so `q` is `p` or comes after it.
      rcases List.mem_append.1 hq with hbefore | hafter
      · have hnot := hfront q hbefore
        rw [hmatch] at hnot
        cases hnot
      · rcases List.mem_cons.1 hafter with rfl | hafter
        · exact Int.le_refl _
        · have hback := (List.pairwise_append.1 hsorted).2.1
          exact (List.pairwise_cons.1 hback).1 q hafter

/-- Among the points up to a moment the first opener of a date is that of the series. -/
theorem firstOpener?_upTo (hsorted : TimeSorted series)
    (h : firstOpener? calendar (upTo moment series) date = some p) :
    firstOpener? calendar series date = some p ∧ p.time ≤ moment := by
  obtain ⟨hmem, rfl, time, htime⟩ := firstOpener?_sound h
  obtain ⟨hp, hreached⟩ := List.mem_filter.1 hmem
  have hreached : p.time ≤ moment := of_decide_eq_true hreached
  refine ⟨?_, hreached⟩
  have hsome : (openingTime calendar p).isSome := Option.isSome_of_eq_some htime
  obtain ⟨first, hfirst, hle⟩ := exists_firstOpener? hsorted hp hsome
  -- The first opener of the series is reached too, so it is the first one up to the moment.
  have hfilter : (upTo moment series).find? (PricePoint.opens calendar p.time.date) =
      some first := by
    obtain ⟨hopens, front, back, rfl, hfront⟩ := List.find?_eq_some_iff_append.1 hfirst
    have hle : first.time ≤ moment := Int.le_trans hle hreached
    have hnone : (upTo moment front).find? (PricePoint.opens calendar p.time.date) = none :=
      List.find?_eq_none.2 fun x hx => by simpa using hfront x (List.mem_filter.1 hx).1
    unfold upTo at hnone ⊢
    simp [hle, hnone, hopens]
  rw [hfirst, ← h]
  exact hfilter.symm

/-- The openings on a date come from the prints that can open its session. -/
theorem find?_openings (calendar : Calendar) (mode : Normalization) (series : List PricePoint)
    (date : Date) :
    ((series.filterMap (PricePoint.opening? calendar mode)).find? fun o => o.date = date) =
      (firstOpener? calendar series date).bind (PricePoint.opening? calendar mode) := by
  rw [List.find?_filterMap]
  unfold firstOpener?
  congr 2
  funext p
  unfold PricePoint.opening? PricePoint.opens
  cases openingTime calendar p <;> simp

/-- A print up to a moment that can open a session has an opening among those up to it. -/
theorem mem_openings_upTo (mode : Normalization) (hq : q ∈ series) (hreached : q.time ≤ moment)
    (htime : openingTime calendar q = some time) :
    (⟨q.time.date, time, q.openIn mode⟩ : SessionOpening) ∈
      (upTo moment series).filterMap (PricePoint.opening? calendar mode) := by
  refine List.mem_filterMap.2 ⟨q, List.mem_filter.2 ⟨hq, decide_eq_true hreached⟩, ?_⟩
  unfold PricePoint.opening?
  rw [htime, Option.map_some]

/-- The last session of the points up to a moment is that of its opener. -/
theorem lastSession_upTo (hsorted : TimeSorted series) (mode : Normalization) {o : SessionOpening}
    (h : lastSession ((upTo moment series).filterMap (PricePoint.opening? calendar mode)) =
      some o) :
    ∃ p time, LastOpener calendar series moment p time ∧
      o = ⟨p.time.date, time, p.openIn mode⟩ := by
  have hread : TimeSorted (upTo moment series) := hsorted.filter _
  obtain ⟨last, hlast, hfind⟩ := Option.bind_eq_some_iff.1 h
  rw [find?_openings] at hfind
  obtain ⟨p, hp, hopening⟩ := Option.bind_eq_some_iff.1 hfind
  obtain ⟨time, htime, rfl⟩ := Option.map_eq_some_iff.1 hopening
  obtain ⟨hfirst, hreached⟩ := firstOpener?_upTo hsorted hp
  have hdate := (firstOpener?_sound hfirst).2.1
  refine ⟨p, time, ⟨by rw [hdate]; exact hfirst, htime, hreached, fun q hq hqm hopens => ?_⟩, rfl⟩
  -- The opening of `q` is among those whose last one is `last`.
  obtain ⟨timeq, htimeq⟩ := Option.isSome_iff_exists.1 hopens
  have hmem := mem_openings_upTo mode hq hqm htimeq
  obtain ⟨init, hinit⟩ := List.getLast?_eq_some_iff.1 hlast
  have hdates := hread.openings calendar mode
  rw [hinit] at hdates hmem
  rw [hdate]
  rcases List.mem_append.1 hmem with hmem | hmem
  · exact (List.pairwise_append.1 hdates).2.2 _ hmem last List.mem_cons_self
  · obtain rfl := List.mem_singleton.1 hmem
    exact Int.le_refl _

/-- The last session is that of a date before it if and only if no print up to the moment can open
a later one. -/
theorem LastOpener.same_iff {first : PricePoint} (h : LastOpener calendar series moment p time)
    (mode : Normalization) (hfirst : firstOpener? calendar series date = some first)
    (hle : date ≤ p.time.date) :
    (some (p.openIn mode) = some (first.openIn mode) ∧ some time = openingTime calendar first) ↔
      ∀ q ∈ series, q.time ≤ moment → (openingTime calendar q).isSome → q.time.date ≤ date := by
  constructor
  · rintro ⟨-, hsame⟩ q hq hreached hopens
    -- A session opens on its date.
    have hlast := h.last q hq hreached hopens
    rw [← (openingTime_eq h.time_eq).1, (openingTime_eq hsame.symm).1,
      (firstOpener?_sound hfirst).2.1] at hlast
    exact hlast
  · intro hnoLater
    have hback : p.time.date ≤ date :=
      hnoLater p (firstOpener?_sound h.first).1 h.reached (Option.isSome_of_eq_some h.time_eq)
    have hopener := h.first
    rw [Date.ext_day (Int.le_antisymm hback hle), hfirst] at hopener
    obtain rfl := Option.some.inj hopener
    exact ⟨rfl, h.time_eq.symm⟩

/-- Where a print up to a moment can open a session, the points up to it have a last session. -/
theorem exists_lastSession (mode : Normalization) (hq : q ∈ series) (hreached : q.time ≤ moment)
    (hopens : (openingTime calendar q).isSome) :
    ∃ o, lastSession ((upTo moment series).filterMap (PricePoint.opening? calendar mode)) =
      some o := by
  obtain ⟨timeq, htimeq⟩ := Option.isSome_iff_exists.1 hopens
  have hmem := mem_openings_upTo mode hq hreached htimeq
  unfold lastSession
  cases hlast : ((upTo moment series).filterMap
      (PricePoint.opening? calendar mode)).getLast? with
  | none =>
      rw [List.getLast?_eq_none_iff.1 hlast] at hmem
      cases hmem
  | some last =>
      rw [Option.bind_some]
      cases hfind : (((upTo moment series).filterMap
          (PricePoint.opening? calendar mode)).find? fun o => o.date = last.date) with
      | none =>
          have hnot := List.find?_eq_none.1 hfind last (List.mem_of_getLast? hlast)
          simp at hnot
      | some o => exact ⟨o, rfl⟩

end MarketReplay
