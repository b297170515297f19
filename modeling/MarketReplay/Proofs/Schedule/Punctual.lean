import MarketReplay.Proofs.Schedule.History

/-!
# Requests at the moments of a rule

A rule is due on a date at a moment of this date (`ScheduleRule.SameDay`) unless its offset leads
out of it. If requests are made at all moments of such a rule, among others, each request reports
its own moment if this is one of the rule, and nothing else (`Scheduler.due_punctual`).
-/

namespace MarketReplay

variable {κ : Type}

/-- Whether the moments of a rule are on the dates for which they are due. -/
def ScheduleRule.SameDay (rule : ScheduleRule) (calendar : Calendar) : Prop :=
  ∀ d t, rule.fireTime calendar d = .ok (some t) → t.date = d

/-- Whether a moment is one of a rule, due for its own date. -/
def ScheduleRule.isMoment (rule : ScheduleRule) (calendar : Calendar) (t : DateTime) : Bool :=
  match rule.fireTime calendar t.date with
  | .ok (some due) => due = t
  | _ => false

theorem ScheduleRule.isMoment_iff {rule : ScheduleRule} {calendar : Calendar} {t : DateTime} :
    rule.isMoment calendar t ↔ rule.fireTime calendar t.date = .ok (some t) := by
  unfold isMoment
  split
  · rename_i due hfire
    rw [hfire]
    simp
  · rename_i hnone
    exact ⟨nofun, fun hfire => absurd hfire (hnone t)⟩

namespace Scheduler

/-- Whether requests, the last of them at `now`, rise and are made at all moments of a rule from
the registration up to then. -/
structure Punctual (calendar : Calendar) (rule : ScheduleRule) (registered : DateTime)
    (asked : List DateTime) (now : DateTime) : Prop where
  sameDay : rule.SameDay calendar
  registered_le : registered ≤ now
  later : ∀ m ∈ asked, m < now
  reached : ∀ d t, rule.fireTime calendar d = .ok (some t) → registered ≤ t → t ≤ now →
    t ∈ asked ∨ t = now

variable {calendar : Calendar} {rule : ScheduleRule} {registered now : DateTime}
  {asked : List DateTime} {e e' : ScheduleEntry κ} {ts : List DateTime}

namespace History.Followed

/-- A moment on the date of its rule is reported by the first request that has reached it. -/
theorem mem_iff (h : Followed calendar rule registered asked e)
    (hscanned : ScheduleEntry.Scanned calendar now (fun d => e.scanFrom ≤ d ∧ d ≤ now.date)
      { e with scanFrom := now.date } ts e')
    {t : DateTime} (hfire : rule.fireTime calendar t.date = .ok (some t))
    (hregistered : registered ≤ t) : t ∈ ts ↔ t ≤ now ∧ ∀ m ∈ asked, m < t := by
  rw [hscanned.mem_iff, ScheduleEntry.reports_iff]
  show (∃ d, (e.scanFrom ≤ d ∧ d ≤ now.date) ∧ e.rule.fireTime calendar d = .ok (some t)) ∧
    ¬ e.Past t ∧ e.registered ≤ t ∧ t ≤ now ↔ _
  rw [h.rule_eq, h.registered_eq]
  constructor
  · rintro ⟨⟨d, ⟨hfrom, -⟩, hfire'⟩, hnot, -, hnow⟩
    -- No other date of the rule has the same moment.
    obtain rfl : d = t.date := Date.ext_day (Int.le_antisymm
      (ScheduleRule.date_le_of_fireTime hfire' hfire (Int.le_refl _))
      (ScheduleRule.date_le_of_fireTime hfire hfire' (Int.le_refl _)))
    rw [h.past_iff hfire hregistered hfrom] at hnot
    exact ⟨hnow, fun m hm => Int.not_le.1 fun hle => hnot ⟨m, hm, hle, DateTime.day_le hle⟩⟩
  · rintro ⟨hnow, hlater⟩
    have hlast : asked.getLast?.getD registered ≤ t := by
      cases hasked : asked.getLast? with
      | none => exact hregistered
      | some last => exact Int.le_of_lt (hlater last (List.mem_of_getLast? hasked))
    have hfrom : e.scanFrom ≤ t.date := by
      rw [h.scanFrom_eq]
      exact DateTime.day_le hlast
    refine ⟨⟨t.date, ⟨hfrom, DateTime.day_le hnow⟩, hfire⟩, ?_, hregistered, hnow⟩
    rw [h.past_iff hfire hregistered hfrom]
    rintro ⟨m, hm, hreached, -⟩
    exact Int.not_le.2 (hlater m hm) hreached

/-- If requests are made at all moments of a rule, the last one reports its own moment, if this is
one of the rule. -/
theorem mem_punctual (h : Followed calendar rule registered asked e)
    (hpunctual : Punctual calendar rule registered asked now)
    (hscanned : ScheduleEntry.Scanned calendar now (fun d => e.scanFrom ≤ d ∧ d ≤ now.date)
      { e with scanFrom := now.date } ts e') (t : DateTime) :
    t ∈ ts ↔ t = now ∧ rule.isMoment calendar now := by
  rw [ScheduleRule.isMoment_iff]
  constructor
  · intro ht
    obtain ⟨⟨d, -, hfire⟩, hreports⟩ := (hscanned.mem_iff t).1 ht
    obtain ⟨-, hregistered, hnow⟩ := ScheduleEntry.reports_iff.1 hreports
    change e.rule.fireTime calendar d = .ok (some t) at hfire
    change e.registered ≤ t at hregistered
    rw [h.rule_eq] at hfire
    rw [h.registered_eq] at hregistered
    have hdate := hpunctual.sameDay d t hfire
    rw [← hdate] at hfire
    have hfirst := ((h.mem_iff hscanned hfire hregistered).1 ht).2
    rcases hpunctual.reached _ t hfire hregistered hnow with hasked | rfl
    · exact absurd (hfirst t hasked) (Int.lt_irrefl _)
    · exact ⟨rfl, hfire⟩
  · rintro ⟨rfl, hfire⟩
    exact (h.mem_iff hscanned hfire hpunctual.registered_le).2
      ⟨Int.le_refl _, hpunctual.later⟩

end History.Followed

/-- The only schedule is found by its number. -/
theorem entry?_of_single {s : Scheduler κ} (h : s.entries = [e]) : s.entry? e.id = some e := by
  unfold entry?
  rw [h]
  simp

/-- A request to a scheduler with one schedule, made like the earlier ones at all moments of its
rule: it reports its own moment, if this is one of the rule, and the schedule is followed on. -/
theorem due_punctual {s s' : Scheduler κ} {reports : List DueCallback} (hentries : s.entries = [e])
    (h : History.Followed s.calendar rule registered asked e)
    (hpunctual : Punctual s.calendar rule registered asked now)
    (hdue : s.due now = .ok (reports, s')) :
    ∃ e', s'.calendar = s.calendar ∧ s'.entries = [e'] ∧ e'.id = e.id ∧ e'.action = e.action ∧
      History.Followed s.calendar rule registered (asked ++ [now]) e' ∧
      reports = if rule.isMoment s.calendar now then [⟨e.id, now⟩] else [] := by
  have hids : (s.entries.map ScheduleEntry.id).Nodup := by
    rw [hentries]
    exact List.pairwise_singleton _ _
  obtain ⟨hcalendar, hanswered, -⟩ := due_answered hids hdue
  have hlength := hanswered.length_eq
  rw [hentries] at hanswered hlength
  obtain ⟨e', hentries'⟩ := List.length_eq_one_iff.1 hlength
  obtain ⟨ts, last, hlast, hts, hscanned⟩ := hanswered.answer 0 e rfl
  rw [hentries'] at hlast
  obtain rfl : e' = last := Option.some.inj hlast
  have haction : e'.action = e.action := by rw [hscanned.kept]
  have hfollowed := h.due (fun m hm => Int.le_of_lt (hpunctual.later m hm)) hscanned
  refine ⟨e', hcalendar, hentries', hscanned.id_eq, haction, hfollowed, ?_⟩
  have hmem : ∀ r, r ∈ reports ↔
      r = ⟨e.id, now⟩ ∧ rule.isMoment s.calendar now := by
    rintro ⟨entry, t⟩
    constructor
    · intro hr
      obtain rfl : entry = e.id := List.mem_singleton.1 (hanswered.owned _ hr)
      obtain ⟨rfl, hfire⟩ := (h.mem_punctual hpunctual hscanned t).1 ((hts t).1 hr)
      exact ⟨rfl, hfire⟩
    · rintro ⟨hsame, hfire⟩
      obtain ⟨rfl, rfl⟩ := DueCallback.mk.inj hsame
      exact (hts t).2 ((h.mem_punctual hpunctual hscanned t).2 ⟨rfl, hfire⟩)
  split
  · rename_i hfire
    refine List.perm_singleton.1 ((List.perm_ext_iff_of_nodup hanswered.nodup
      (List.pairwise_singleton _ _)).2 fun r => ?_)
    rw [hmem, List.mem_singleton]
    exact and_iff_left hfire
  · rename_i hfire
    exact List.eq_nil_iff_forall_not_mem.2 fun r hr => hfire ((hmem r).1 hr).2

end Scheduler

end MarketReplay
