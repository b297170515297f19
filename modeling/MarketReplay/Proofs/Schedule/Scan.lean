import MarketReplay.Proofs.Calendar.Sessions
import MarketReplay.Schedule

/-!
# What a scan of dates reports

A rule is due at later moments on later dates (`ScheduleRule.fireTime_lt`), so what was reported of
an entry is everything up to its last report (`ScheduleEntry.Past`). A scan reports the moments of
its dates that are neither past, nor before the registration, nor in the future
(`ScheduleEntry.Scanned`); scans of earlier and later dates make up one scan of both.
-/

namespace MarketReplay

/-- Whether the offset of a rule, if it has one, is a span of time. -/
def TimeRule.fits : TimeRule → Bool
  | midnight => true
  | clock _ _ => true
  | afterOpen minutes => offsetFits minutes
  | beforeClose minutes => offsetFits minutes

/-- An offset is a span of time in both directions or in none. -/
theorem offsetFits_neg (minutes : Int) : offsetFits (-minutes) = offsetFits minutes := by
  unfold offsetFits
  rw [Bool.eq_iff_iff]
  simp only [Bool.and_eq_true, decide_eq_true_eq]
  omega

namespace ScheduleRule

variable {rule : ScheduleRule} {calendar : Calendar} {d d' : Date} {t t' : DateTime}

/-- A moment shifted by an offset was shifted by its seconds. -/
theorem shiftMinutes_eq_some {moment : Option DateTime} {minutes : Int}
    (h : shiftMinutes moment minutes = .ok (some t)) :
    ∃ start, moment = some start ∧ start.addSeconds? (minutes * 60) = some t := by
  cases moment with
  | none => cases h
  | some start =>
      refine ⟨start, rfl, ?_⟩
      unfold shiftMinutes at h
      simp only at h
      split at h
      · exact Except.ok.inj h
      · cases h

/-- A shift by an offset that is a span of time does not overflow. -/
theorem exists_shiftMinutes (moment : Option DateTime) {minutes : Int}
    (h : offsetFits minutes) : ∃ shifted, shiftMinutes moment minutes = .ok shifted := by
  cases moment with
  | none => exact ⟨none, rfl⟩
  | some start => exact ⟨_, if_pos h⟩

/-- The moments on a rule's dates follow the order of the dates. -/
theorem fireTime_lt (hd : d < d') (h : rule.fireTime calendar d = .ok (some t))
    (h' : rule.fireTime calendar d' = .ok (some t')) : t < t' := by
  have hon : ∀ {date moment}, rule.fireTime calendar date = .ok (some moment) →
      rule.time.on calendar date = .ok (some moment) := by
    intro date moment hfire
    unfold fireTime at hfire
    split at hfire
    · exact hfire
    · cases hfire
  have h := hon h
  have h' := hon h'
  unfold TimeRule.on at h h'
  cases htime : rule.time with
  | midnight =>
      rw [htime] at h h'
      obtain rfl := Option.some.inj (Except.ok.inj h)
      obtain rfl := Option.some.inj (Except.ok.inj h')
      exact DateTime.lt_of_date_lt hd
  | clock hour minute =>
      rw [htime] at h h'
      obtain ⟨_, _, rfl⟩ := Option.map_eq_some_iff.1 (Except.ok.inj h)
      obtain ⟨_, _, rfl⟩ := Option.map_eq_some_iff.1 (Except.ok.inj h')
      exact DateTime.lt_of_date_lt hd
  | afterOpen minutes =>
      rw [htime] at h h'
      obtain ⟨opening, hopening, hshift⟩ := shiftMinutes_eq_some h
      obtain ⟨opening', hopening', hshift'⟩ := shiftMinutes_eq_some h'
      exact DateTime.addSeconds?_lt (Calendar.sessionOpen_lt hd hopening hopening') hshift hshift'
  | beforeClose minutes =>
      rw [htime] at h h'
      obtain ⟨close, hclose, hshift⟩ := shiftMinutes_eq_some h
      obtain ⟨close', hclose', hshift'⟩ := shiftMinutes_eq_some h'
      exact DateTime.addSeconds?_lt (Calendar.sessionClose_lt hd hclose hclose') hshift hshift'

/-- Of two moments of a rule in order the dates are in order. -/
theorem date_le_of_fireTime (h : rule.fireTime calendar d = .ok (some t))
    (h' : rule.fireTime calendar d' = .ok (some t')) (ht : t ≤ t') : d ≤ d' :=
  Int.not_lt.1 fun hd => absurd (fireTime_lt hd h' h) (Int.not_lt.2 ht)

/-- A rule whose offset fits does not overflow. -/
theorem exists_fireTime (hfits : rule.time.fits) (calendar : Calendar) (d : Date) :
    ∃ moment, rule.fireTime calendar d = .ok moment := by
  unfold fireTime
  split
  · unfold TimeRule.on
    cases htime : rule.time with
    | midnight => exact ⟨_, rfl⟩
    | clock hour minute => exact ⟨_, rfl⟩
    | afterOpen minutes =>
        rw [htime] at hfits
        exact exists_shiftMinutes _ hfits
    | beforeClose minutes =>
        rw [htime] at hfits
        exact exists_shiftMinutes _ ((offsetFits_neg minutes).trans hfits)
  · exact ⟨none, rfl⟩

end ScheduleRule

namespace ScheduleEntry

variable {κ : Type} {calendar : Calendar} {now : DateTime}

/-- Whether a moment is not later than the last report of an entry. -/
def Past (e : ScheduleEntry κ) (t : DateTime) : Prop :=
  ∃ last, e.firedThrough = some last ∧ t ≤ last

/-- Moments before one that is past are past. -/
theorem Past.mono {e : ScheduleEntry κ} {t t' : DateTime} (h : e.Past t) (hle : t' ≤ t) :
    e.Past t' := by
  obtain ⟨last, hlast, hpast⟩ := h
  exact ⟨last, hlast, Int.le_trans hle hpast⟩

/-- A moment is reported unless it is past, before the registration or in the future. -/
theorem reports_iff {e : ScheduleEntry κ} {t : DateTime} :
    e.reports now t ↔ ¬ e.Past t ∧ e.registered ≤ t ∧ t ≤ now := by
  unfold reports Past
  cases e.firedThrough with
  | none => simp
  | some last =>
      have hfresh : last < t ↔ ¬ t ≤ last := Int.not_le.symm
      simp [hfresh, and_assoc]

/-- The entry after a report, if there is one. -/
def reporting (e : ScheduleEntry κ) : Option DateTime → ScheduleEntry κ
  | none => e
  | some t => { e with firedThrough := some t }

/-- A scan of some dates by an entry: it reports the moments of its rule on these dates, in order,
that are to be reported; afterwards what it reported is past, and nothing else has changed. -/
structure Scanned (calendar : Calendar) (now : DateTime) (dates : Date → Prop)
    (e : ScheduleEntry κ) (ts : List DateTime) (e' : ScheduleEntry κ) : Prop where
  rising : ts.Pairwise (· < ·)
  mem_iff : ∀ t, t ∈ ts ↔
    (∃ d, dates d ∧ e.rule.fireTime calendar d = .ok (some t)) ∧ e.reports now t
  past_iff : ∀ t, e'.Past t ↔ e.Past t ∨ ∃ t' ∈ ts, t ≤ t'
  kept : e' = { e with firedThrough := e'.firedThrough }

namespace Scanned

variable {dates later : Date → Prop} {e e' e'' : ScheduleEntry κ} {ts more : List DateTime}

theorem rule_eq (h : Scanned calendar now dates e ts e') : e'.rule = e.rule := by rw [h.kept]

theorem registered_eq (h : Scanned calendar now dates e ts e') : e'.registered = e.registered := by
  rw [h.kept]

theorem id_eq (h : Scanned calendar now dates e ts e') : e'.id = e.id := by rw [h.kept]

/-- A scan of other words for the same dates. -/
theorem congr (h : Scanned calendar now dates e ts e') (hdates : ∀ d, dates d ↔ later d) :
    Scanned calendar now later e ts e' := by
  obtain rfl : dates = later := funext fun d => propext (hdates d)
  exact h

/-- A scan of no dates reports nothing. -/
theorem none (calendar : Calendar) (now : DateTime) (e : ScheduleEntry κ) :
    Scanned calendar now (fun _ => False) e [] e where
  rising := .nil
  mem_iff t := by simp
  past_iff t := by simp
  kept := rfl

/-- A scan of one date reports its moment, if this is to be reported. -/
theorem one {d : Date} {moment : Option DateTime}
    (h : e.rule.fireTime calendar d = .ok moment) :
    Scanned calendar now (· = d) e (moment.filter (e.reports now)).toList
      (e.reporting (moment.filter (e.reports now))) := by
  have hfires : ∀ t, (∃ d', d' = d ∧ e.rule.fireTime calendar d' = .ok (some t)) ↔
      moment = some t := by
    intro t
    constructor
    · rintro ⟨d', rfl, hfire⟩
      rw [h] at hfire
      exact Except.ok.inj hfire
    · rintro rfl
      exact ⟨d, rfl, h⟩
  cases hdue : moment.filter (e.reports now) with
  | none =>
      refine ⟨.nil, fun t => ?_, fun t => ?_, rfl⟩
      · rw [hfires]
        constructor
        · exact nofun
        · rintro ⟨rfl, hreports⟩
          rw [Option.filter_some_pos hreports] at hdue
          cases hdue
      · simp [reporting]
  | some first =>
      obtain ⟨rfl, hreports⟩ := Option.filter_eq_some_iff.1 hdue
      refine ⟨List.pairwise_singleton _ _, fun t => ?_, fun t => ?_, rfl⟩
      · rw [hfires, Option.toList_some, List.mem_singleton, Option.some.injEq]
        constructor
        · rintro rfl
          exact ⟨rfl, hreports⟩
        · exact fun ht => ht.1.symm
      · -- What was past before is not later than the moment, which was not.
        have hpast : e.Past t → t ≤ first := by
          rintro ⟨last, hlast, hle⟩
          have hnot := (reports_iff.1 hreports).1
          have hlater : last < first := Int.not_le.1 fun hfirst => hnot ⟨last, hlast, hfirst⟩
          exact Int.le_trans hle (Int.le_of_lt hlater)
        have hafter : (e.reporting (some first)).Past t ↔ t ≤ first := by
          simp [reporting, Past]
        rw [hafter]
        constructor
        · exact fun hle => .inr ⟨first, List.mem_singleton.2 rfl, hle⟩
        · rintro (hbefore | ⟨t', ht', hle⟩)
          · exact hpast hbefore
          · obtain rfl := List.mem_singleton.1 ht'
            exact hle

/-- A scan of dates and then one of later dates are a scan of both. -/
theorem append (h : Scanned calendar now dates e ts e')
    (h' : Scanned calendar now later e' more e'') (hlater : ∀ d d', dates d → later d' → d < d') :
    Scanned calendar now (fun d => dates d ∨ later d) e (ts ++ more) e'' := by
  -- The moments of the later dates are later.
  have hlt : ∀ {t t' d d'}, dates d → e.rule.fireTime calendar d = .ok (some t) → later d' →
      e.rule.fireTime calendar d' = .ok (some t') → t < t' :=
    fun hd hfire hd' hfire' => ScheduleRule.fireTime_lt (hlater _ _ hd hd') hfire hfire'
  have hmore : ∀ t, t ∈ more ↔
      (∃ d, later d ∧ e.rule.fireTime calendar d = .ok (some t)) ∧ e'.reports now t := by
    intro t
    rw [h'.mem_iff, h.rule_eq]
  refine ⟨List.pairwise_append.2 ⟨h.rising, h'.rising, fun t ht t' ht' => ?_⟩, fun t => ?_,
    fun t => ?_, ?_⟩
  · obtain ⟨⟨d, hd, hfire⟩, -⟩ := (h.mem_iff t).1 ht
    obtain ⟨⟨d', hd', hfire'⟩, -⟩ := (hmore t').1 ht'
    exact hlt hd hfire hd' hfire'
  · rw [List.mem_append, hmore, reports_iff, h.registered_eq]
    constructor
    · rintro (ht | ⟨⟨d, hd, hfire⟩, hnot, hbounds⟩)
      · obtain ⟨⟨d, hd, hfire⟩, hreports⟩ := (h.mem_iff t).1 ht
        exact ⟨⟨d, .inl hd, hfire⟩, hreports⟩
      · refine ⟨⟨d, .inr hd, hfire⟩, reports_iff.2 ⟨fun hpast => hnot ?_, hbounds⟩⟩
        exact (h.past_iff t).2 (.inl hpast)
    · rintro ⟨⟨d, hd | hd, hfire⟩, hreports⟩
      · exact .inl ((h.mem_iff t).2 ⟨⟨d, hd, hfire⟩, hreports⟩)
      · obtain ⟨hnot, hbounds⟩ := reports_iff.1 hreports
        refine .inr ⟨⟨d, hd, hfire⟩, fun hpast => ?_, hbounds⟩
        rcases (h.past_iff t).1 hpast with hpast | ⟨t', ht', hle⟩
        · exact hnot hpast
        · obtain ⟨⟨d', hd', hfire'⟩, -⟩ := (h.mem_iff t').1 ht'
          exact absurd (hlt hd' hfire' hd hfire) (Int.not_lt.2 hle)
  · rw [h'.past_iff, h.past_iff]
    simp only [List.mem_append, or_and_right, exists_or, or_assoc]
  · rw [h'.kept, h.kept]

end Scanned

/-- A scan of one more date reports its moment first. -/
theorem scan_succ (calendar : Calendar) (now : DateTime) (dates : Nat) (d : Date)
    (e : ScheduleEntry κ) :
    scan calendar now (dates + 1) d e =
      match e.rule.fireTime calendar d with
      | .error o => .error o
      | .ok moment =>
        let due := moment.filter (e.reports now)
        match d.next? with
        | none => .ok (due.toList, e.reporting due)
        | some next =>
          match scan calendar now dates next (e.reporting due) with
          | .error o => .error o
          | .ok (ts, e') => .ok (due.toList ++ ts, e') := rfl

/-- A scan of a rule whose offset fits does not overflow. -/
theorem exists_scan (calendar : Calendar) (now : DateTime) (dates : Nat) (d : Date)
    {e : ScheduleEntry κ} (hfits : e.rule.time.fits) :
    ∃ result, scan calendar now dates d e = .ok result := by
  induction dates generalizing d e with
  | zero => exact ⟨_, rfl⟩
  | succ dates ih =>
      obtain ⟨moment, hmoment⟩ := ScheduleRule.exists_fireTime hfits calendar d
      have hkept : (e.reporting (moment.filter (e.reports now))).rule = e.rule := by
        cases moment.filter (e.reports now) <;> rfl
      rw [scan_succ, hmoment]
      simp only
      split
      · exact ⟨_, rfl⟩
      · rename_i next hnext
        obtain ⟨result, hrest⟩ := ih next (hkept ▸ hfits)
        rw [hrest]
        exact ⟨_, rfl⟩

/-- A scan that does not overflow reports what is to be reported of its dates. -/
theorem scan_scanned {dates : Nat} {d : Date} {e e' : ScheduleEntry κ} {ts : List DateTime}
    (h : scan calendar now dates d e = .ok (ts, e')) :
    Scanned calendar now (fun x => d ≤ x ∧ x.day < d.day + dates) e ts e' := by
  induction dates generalizing d e ts with
  | zero =>
      obtain ⟨rfl, rfl⟩ := Prod.mk.inj (Except.ok.inj h)
      refine (Scanned.none calendar now e).congr fun x => ⟨False.elim, ?_⟩
      rintro ⟨hfrom, hto⟩
      have hfrom : d.day ≤ x.day := hfrom
      omega
  | succ dates ih =>
      rw [scan_succ] at h
      split at h
      · cases h
      · rename_i moment hmoment
        have hone : Scanned calendar now (· = d) e _ _ := .one hmoment
        simp only at h
        split at h
        · -- There is no later date to look at.
          rename_i hnext
          obtain ⟨rfl, rfl⟩ := Prod.mk.inj (Except.ok.inj h)
          refine Scanned.congr hone fun x => ?_
          have hday := Date.next?_eq_none_iff.1 hnext
          have hlast := x.le_last
          constructor
          · rintro rfl
            exact ⟨Int.le_refl _, by omega⟩
          · rintro ⟨hfrom, -⟩
            have hfrom : d.day ≤ x.day := hfrom
            exact Date.ext_day (by omega)
        · rename_i next hnext
          have hday := Date.next?_eq_some_iff.1 hnext
          split at h
          · cases h
          · rename_i more e'' hrest
            obtain ⟨rfl, rfl⟩ := Prod.mk.inj (Except.ok.inj h)
            have hmore := ih hrest
            refine (Scanned.append hone hmore ?_).congr fun x => ?_
            · rintro first x rfl ⟨hfrom, -⟩
              have hfrom : next.day ≤ x.day := hfrom
              show first.day < x.day
              omega
            · constructor
              · rintro (rfl | ⟨hfrom, hto⟩)
                · exact ⟨Int.le_refl _, by omega⟩
                · have hfrom : next.day ≤ x.day := hfrom
                  refine ⟨?_, by omega⟩
                  show d.day ≤ x.day
                  omega
              · rintro ⟨hfrom, hto⟩
                have hfrom : d.day ≤ x.day := hfrom
                by_cases hsame : x.day = d.day
                · exact .inl (Date.ext_day hsame)
                · refine .inr ⟨?_, by omega⟩
                  show next.day ≤ x.day
                  omega

end ScheduleEntry

end MarketReplay
