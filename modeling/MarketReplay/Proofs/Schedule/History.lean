import MarketReplay.Proofs.Schedule.Requests

/-!
# What a scheduler reports

A history is a scheduler with everything that it reported, under any sequence of registrations and
requests. Nothing is reported twice, and nothing but moments of rules between the registration and
the request (`Scheduler.History.reported_once`). While requests do not go back in time, a moment on
the date of its rule is reported by the first request that has reached it. One on another date is
reported by the first request that has reached both, unless there was a request on a later date than
that of the rule before (`Scheduler.History.reported_iff`).
-/

namespace MarketReplay.Scheduler

/-- What is done to a scheduler. -/
inductive Action (κ : Type) where
  | register (rule : ScheduleRule) (action : ScheduledAction κ) (registered : DateTime)
  | due (now : DateTime)

variable {κ : Type}

/-- The rules that actions register, each with its moment. -/
def registrations (actions : List (Action κ)) : List (ScheduleRule × DateTime) :=
  actions.filterMap fun
    | .register rule _ registered => some (rule, registered)
    | .due _ => none

/-- The moments of the requests among actions. -/
def requests (actions : List (Action κ)) : List DateTime :=
  actions.filterMap fun
    | .register _ _ _ => none
    | .due now => some now

/-- The offsets that some actions register fit if they do with those of the actions behind them. -/
theorem fits_of_append {actions more : List (Action κ)}
    (h : ∀ r ∈ registrations (actions ++ more), r.1.time.fits) :
    ∀ r ∈ registrations actions, r.1.time.fits := by
  intro r hr
  refine h r ?_
  unfold registrations
  rw [List.filterMap_append]
  exact List.mem_append_left _ hr

/-- A scheduler and what it reported, the first report first. -/
structure History (κ : Type) where
  scheduler : Scheduler κ
  reported : List DueCallback

namespace History

/-- The history of a scheduler without schedules. -/
def start (calendar : Calendar) : History κ := ⟨.start calendar, []⟩

/-- The history after an action. -/
def act (h : History κ) : Action κ → Except OffsetOverflow (History κ)
  | .register rule action registered =>
    .ok { h with scheduler := h.scheduler.register rule action registered }
  | .due now =>
    match h.scheduler.due now with
    | .error o => .error o
    | .ok (reports, scheduler) => .ok ⟨scheduler, h.reported ++ reports⟩

/-- The history after actions in turn, up to the first that overflows. -/
def run (h : History κ) : List (Action κ) → Except OffsetOverflow (History κ)
  | [] => .ok h
  | a :: rest =>
    match h.act a with
    | .error o => .error o
    | .ok h' => h'.run rest

/-- Actions and then others are all of them in turn. -/
theorem run_append {h h' : History κ} {actions : List (Action κ)} (hrun : h.run actions = .ok h')
    (more : List (Action κ)) : h.run (actions ++ more) = h'.run more := by
  induction actions generalizing h with
  | nil =>
      obtain rfl := Except.ok.inj hrun
      rfl
  | cons a rest ih =>
      rw [run] at hrun
      rw [List.cons_append, run]
      split at hrun
      · cases hrun
      · exact ih hrun

/-- The entries are those of the registrations, with their indices as numbers; what was reported of
an entry is past, and its moments rise. -/
structure Sound (calendar : Calendar) (past : List (Action κ)) (h : History κ) : Prop where
  calendar_eq : h.scheduler.calendar = calendar
  ids : h.scheduler.entries.map ScheduleEntry.id = List.range h.scheduler.entries.length
  terms : h.scheduler.entries.map (fun e => (e.rule, e.registered)) = registrations past
  past : ∀ r ∈ h.reported, ∃ e, h.scheduler.entries[r.entry]? = some e ∧ e.Past r.time
  rising : h.reported.Pairwise fun a b => a.entry = b.entry → a.time < b.time

namespace Sound

variable {calendar : Calendar} {past : List (Action κ)} {h h' : History κ}

theorem ids_nodup (hs : h.Sound calendar past) :
    (h.scheduler.entries.map ScheduleEntry.id).Nodup := by
  rw [hs.ids]
  exact List.nodup_range

/-- The number of an entry is its index. -/
theorem id_eq (hs : h.Sound calendar past) {i : Nat} {e : ScheduleEntry κ}
    (he : h.scheduler.entries[i]? = some e) : e.id = i := by
  have hid : (h.scheduler.entries.map ScheduleEntry.id)[i]? = some e.id := by
    rw [List.getElem?_map, he]
    rfl
  rw [hs.ids] at hid
  obtain ⟨hlt, hget⟩ := List.getElem?_eq_some_iff.1 hid
  rw [List.getElem_range] at hget
  exact hget.symm

/-- The rule and the moment of registration of an entry are those of its registration. -/
theorem terms_eq (hs : h.Sound calendar past) {i : Nat} {e : ScheduleEntry κ}
    (he : h.scheduler.entries[i]? = some e) :
    (registrations past)[i]? = some (e.rule, e.registered) := by
  rw [← hs.terms, List.getElem?_map, he]
  rfl

/-- There are as many entries as registrations. -/
theorem length_eq (hs : h.Sound calendar past) :
    h.scheduler.entries.length = (registrations past).length := by
  rw [← hs.terms, List.length_map]

/-- A reported number is that of an entry. -/
theorem exists_entry (hs : h.Sound calendar past) {i : Nat}
    (hi : i ∈ h.scheduler.entries.map ScheduleEntry.id) :
    ∃ e, h.scheduler.entries[i]? = some e := by
  rw [hs.ids, List.mem_range] at hi
  exact ⟨_, List.getElem?_eq_getElem hi⟩

/-- A registration keeps a history sound. -/
theorem register (hs : h.Sound calendar past) (rule : ScheduleRule) (action : ScheduledAction κ)
    (registered : DateTime) :
    Sound calendar (past ++ [.register rule action registered])
      { h with scheduler := h.scheduler.register rule action registered } where
  calendar_eq := hs.calendar_eq
  ids := by
    show (h.scheduler.entries ++ [_]).map ScheduleEntry.id = List.range (_ ++ [_]).length
    rw [List.map_append, hs.ids, List.length_append, List.length_singleton, List.range_succ]
    rfl
  terms := by
    unfold registrations
    rw [List.filterMap_append, Scheduler.register, List.map_append, hs.terms]
    rfl
  past := by
    intro r hr
    obtain ⟨e, he, hpast⟩ := hs.past r hr
    refine ⟨e, ?_, hpast⟩
    obtain ⟨hlt, -⟩ := List.getElem?_eq_some_iff.1 he
    exact (List.getElem?_append_left hlt).trans he
  rising := hs.rising

/-- A report of a request is that of an entry that scans its dates. -/
theorem report (hs : h.Sound calendar past) {now : DateTime} {reports : List DueCallback}
    {s' : Scheduler κ} (hdue : h.scheduler.due now = .ok (reports, s')) {r : DueCallback}
    (hr : r ∈ reports) :
    ∃ e ts e', h.scheduler.entries[r.entry]? = some e ∧ s'.entries[r.entry]? = some e' ∧
      r.time ∈ ts ∧ ScheduleEntry.Scanned calendar now (fun d => e.scanFrom ≤ d ∧ d ≤ now.date)
        { e with scanFrom := now.date } ts e' := by
  obtain ⟨-, hanswered, -⟩ := due_answered hs.ids_nodup hdue
  obtain ⟨e, he⟩ := hs.exists_entry (hanswered.owned r hr)
  obtain ⟨ts, e', he', hts, hscanned⟩ := hanswered.answer r.entry e he
  rw [hs.calendar_eq] at hscanned
  rw [hs.id_eq he] at hts
  exact ⟨e, ts, e', he, he', (hts r.time).1 hr, hscanned⟩

/-- A request keeps a history sound. -/
theorem due (hs : h.Sound calendar past) {now : DateTime} {reports : List DueCallback}
    {s' : Scheduler κ} (hdue : h.scheduler.due now = .ok (reports, s')) :
    Sound calendar (past ++ [.due now]) ⟨s', h.reported ++ reports⟩ := by
  obtain ⟨hcalendar, hanswered, hbefore⟩ := due_answered hs.ids_nodup hdue
  refine ⟨hcalendar.trans hs.calendar_eq, ?_, ?_, fun r hr => ?_,
    List.pairwise_append.2 ⟨hs.rising, ?_, fun a ha b hb hentry => ?_⟩⟩
  · rw [hanswered.ids_eq, hanswered.length_eq, hs.ids]
  · rw [hanswered.terms_eq, hs.terms]
    simp [registrations]
  · rcases List.mem_append.1 hr with hr | hr
    · obtain ⟨e, he, hpast⟩ := hs.past r hr
      obtain ⟨ts, e', he', -, hscanned⟩ := hanswered.answer r.entry e he
      exact ⟨e', he', (hscanned.past_iff r.time).2 (.inl hpast)⟩
    · obtain ⟨e, ts, e', -, he', ht, hscanned⟩ := hs.report hdue hr
      exact ⟨e', he', (hscanned.past_iff r.time).2 (.inr ⟨r.time, ht, Int.le_refl _⟩)⟩
  · refine hbefore.imp fun hab hentry => ?_
    rcases hab with hlt | ⟨-, hlt⟩
    · exact hlt
    · exact absurd hentry (Nat.ne_of_lt hlt)
  · -- What was reported before is past, and what is reported now was not.
    obtain ⟨e, he, hpast⟩ := hs.past a ha
    obtain ⟨e₁, ts, e', he₁, -, ht, hscanned⟩ := hs.report hdue hb
    rw [hentry, he₁] at he
    obtain rfl := Option.some.inj he
    obtain ⟨-, hreports⟩ := (hscanned.mem_iff b.time).1 ht
    have hnot := (ScheduleEntry.reports_iff.1 hreports).1
    exact Int.not_le.1 fun hle => hnot (ScheduleEntry.Past.mono hpast hle)

/-- Every action keeps a history sound. -/
theorem act (hs : h.Sound calendar past) {a : Action κ} (hact : h.act a = .ok h') :
    h'.Sound calendar (past ++ [a]) := by
  cases a with
  | register rule action registered =>
      obtain rfl := Except.ok.inj hact
      exact hs.register rule action registered
  | due now =>
      unfold History.act at hact
      simp only at hact
      split at hact
      · cases hact
      · rename_i reports s' hdue
        obtain rfl := Except.ok.inj hact
        exact hs.due hdue

/-- Every sequence of actions keeps a history sound. -/
theorem run (hs : h.Sound calendar past) {actions : List (Action κ)}
    (hrun : h.run actions = .ok h') : h'.Sound calendar (past ++ actions) := by
  induction actions generalizing past h with
  | nil =>
      obtain rfl := Except.ok.inj hrun
      rw [List.append_nil]
      exact hs
  | cons a rest ih =>
      rw [History.run] at hrun
      split at hrun
      · cases hrun
      · rename_i h₁ hact
        have hrest := ih (hs.act hact) hrun
        rwa [List.append_assoc, List.singleton_append] at hrest

/-- A request does not overflow if the registered offsets fit. -/
theorem exists_due (hs : h.Sound calendar past)
    (hfits : ∀ r ∈ registrations past, r.1.time.fits) (now : DateTime) :
    ∃ reports s', h.scheduler.due now = .ok (reports, s') := by
  refine Scheduler.exists_due now fun e he => hfits (e.rule, e.registered) ?_
  rw [← hs.terms]
  exact List.mem_map_of_mem he

/-- Actions in turn do not overflow if the offsets that they register fit, and those before. -/
theorem exists_run (hs : h.Sound calendar past) (actions : List (Action κ))
    (hfits : ∀ r ∈ registrations (past ++ actions), r.1.time.fits) :
    ∃ h', h.run actions = .ok h' := by
  induction actions generalizing past h with
  | nil => exact ⟨h, rfl⟩
  | cons a rest ih =>
      have hact : ∃ h₁, h.act a = .ok h₁ := by
        cases a with
        | register rule action registered => exact ⟨_, rfl⟩
        | due now =>
            obtain ⟨reports, s', hdue⟩ := hs.exists_due (fits_of_append hfits) now
            unfold History.act
            simp only [hdue]
            exact ⟨_, rfl⟩
      obtain ⟨h₁, hact⟩ := hact
      rw [History.run, hact]
      refine ih (hs.act hact) ?_
      rw [List.append_assoc]
      exact hfits

end Sound

/-- The history of an empty scheduler is sound. -/
theorem sound_start (calendar : Calendar) : (start calendar : History κ).Sound calendar [] :=
  ⟨rfl, rfl, rfl, fun _ hr => absurd hr List.not_mem_nil, .nil⟩

/-- Through any actions the reports of an entry are at rising moments, so none is made twice. What a
request then reports is sorted by time and then by registration, and each is a moment of the rule of
its entry, neither before the registration nor after the request. -/
theorem reported_once {calendar : Calendar} {actions : List (Action κ)} {h : History κ}
    (hrun : (start calendar).run actions = .ok h) :
    (h.reported.Pairwise fun a b => a.entry = b.entry → a.time < b.time) ∧
      ∀ now reports s', h.scheduler.due now = .ok (reports, s') →
        (h.reported ++ reports).Pairwise (fun a b => a.entry = b.entry → a.time < b.time) ∧
        reports.Pairwise Before ∧
        ∀ r ∈ reports, ∃ rule registered,
          (registrations actions)[r.entry]? = some (rule, registered) ∧
          (∃ d, rule.fireTime calendar d = .ok (some r.time)) ∧ registered ≤ r.time ∧
          r.time ≤ now := by
  have hs : h.Sound calendar actions := (sound_start calendar).run hrun
  refine ⟨hs.rising, fun now reports s' hdue => ⟨(hs.due hdue).rising,
    (due_answered hs.ids_nodup hdue).2.2, fun r hr => ?_⟩⟩
  obtain ⟨e, ts, e', he, -, ht, hscanned⟩ := hs.report hdue hr
  obtain ⟨⟨d, -, hfire⟩, hreports⟩ := (hscanned.mem_iff r.time).1 ht
  obtain ⟨-, hregistered, hnow⟩ := ScheduleEntry.reports_iff.1 hreports
  exact ⟨e.rule, e.registered, hs.terms_eq he, ⟨d, hfire⟩, hregistered, hnow⟩

/-- The start of a Monday. -/
def monday : DateTime := .midnight (.civil 2013 10 7)

/-- The start of the Tuesday after it. -/
def tuesday : DateTime := .midnight (.civil 2013 10 8)

/-- The start of the Wednesday after it. -/
def wednesday : DateTime := .midnight (.civil 2013 10 9)

/-- A schedule for every midnight, and requests at the first two after its registration. -/
def midnights : List (Action Empty) :=
  [.register ⟨.everyDay, .midnight⟩ (.named "midnight") monday, .due monday, .due tuesday]

/-- The schedule is reported by both requests, and once again at the next midnight. -/
theorem midnights_reported :
    ∃ h reports s', (start .alwaysOn).run midnights = .ok h ∧
      h.scheduler.due wednesday = .ok (reports, s') ∧
      (h.reported ++ reports).map DueCallback.time = [monday, tuesday, wednesday] ∧
      (h.reported ++ reports).Pairwise (fun a b => a.entry = b.entry → a.time < b.time) ∧
      reports.Pairwise Before ∧ ∀ r ∈ reports, monday ≤ r.time ∧ r.time ≤ wednesday := by
  have hvalue : ((start .alwaysOn).run midnights).toOption.bind (fun h =>
      (h.scheduler.due wednesday).toOption.map fun result =>
        (h.reported ++ result.1).map DueCallback.time) = some [monday, tuesday, wednesday] := by
    decide +kernel
  have hfits : ∀ r ∈ registrations midnights, r.1.time.fits := by decide
  obtain ⟨h, hrun⟩ := (sound_start .alwaysOn).exists_run midnights hfits
  obtain ⟨reports, s', hdue⟩ := ((sound_start .alwaysOn).run hrun).exists_due hfits wednesday
  have htimes : (h.reported ++ reports).map DueCallback.time = [monday, tuesday, wednesday] := by
    simpa [hrun, hdue, Except.toOption] using hvalue
  obtain ⟨hrising, hbefore, hreports⟩ := (reported_once hrun).2 wednesday reports s' hdue
  refine ⟨h, reports, s', hrun, hdue, htimes, hrising, hbefore, fun r hr => ?_⟩
  obtain ⟨rule, registered, hregistered, -, hle, hnow⟩ := hreports r hr
  -- There is one registration.
  have hmem : (rule, registered) ∈ registrations midnights := List.mem_of_getElem? hregistered
  obtain ⟨-, rfl⟩ := Prod.mk.inj (List.mem_singleton.1 hmem)
  exact ⟨hle, hnow⟩

/-! ### Requests that do not go back in time -/

/-- The entry of a registration after requests at some moments: it looks at dates from that of the
last one on; the past ends with a moment that a request has reached on a date that it looked at; and
of the dates still to be looked at a moment is past if a request has reached it with its date. -/
structure Followed (calendar : Calendar) (rule : ScheduleRule) (registered : DateTime)
    (asked : List DateTime) (e : ScheduleEntry κ) : Prop where
  rule_eq : e.rule = rule
  registered_eq : e.registered = registered
  scanFrom_eq : e.scanFrom = (asked.getLast?.getD registered).date
  reached : ∀ t, e.Past t → ∃ d t', rule.fireTime calendar d = .ok (some t') ∧ t ≤ t' ∧
    ∃ m ∈ asked, t' ≤ m ∧ d ≤ m.date
  seen : ∀ d t, rule.fireTime calendar d = .ok (some t) → registered ≤ t → e.scanFrom ≤ d →
    (∃ m ∈ asked, t ≤ m ∧ d ≤ m.date) → e.Past t

namespace Followed

variable {calendar : Calendar} {rule : ScheduleRule} {registered : DateTime}
  {asked : List DateTime} {e e' : ScheduleEntry κ}

/-- The entry is new before the first request. -/
theorem start (calendar : Calendar) (id : Nat) (rule : ScheduleRule) (action : ScheduledAction κ)
    (registered : DateTime) :
    Followed calendar rule registered [] ⟨id, rule, action, registered, registered.date, none⟩ where
  rule_eq := rfl
  registered_eq := rfl
  scanFrom_eq := rfl
  reached := by
    rintro t ⟨last, hlast, -⟩
    cases hlast
  seen := by
    rintro d t - - - ⟨m, hm, -⟩
    cases hm

/-- One more request, not before the others, is followed. -/
theorem due (h : Followed calendar rule registered asked e) {now : DateTime}
    (hlater : ∀ m ∈ asked, m ≤ now) {ts : List DateTime}
    (hscanned : ScheduleEntry.Scanned calendar now (fun d => e.scanFrom ≤ d ∧ d ≤ now.date)
      { e with scanFrom := now.date } ts e') :
    Followed calendar rule registered (asked ++ [now]) e' := by
  have hscanFrom : e'.scanFrom = now.date := by rw [hscanned.kept]
  refine ⟨hscanned.rule_eq.trans h.rule_eq, hscanned.registered_eq.trans h.registered_eq, ?_,
    fun t hpast => ?_, fun d t hfire hregistered hfrom hasked => ?_⟩
  · rw [hscanFrom, List.getLast?_concat]
    rfl
  · rcases (hscanned.past_iff t).1 hpast with hpast | ⟨t', ht', hle⟩
    · obtain ⟨d, t', hfire, hle, m, hm, hreached⟩ := h.reached t hpast
      exact ⟨d, t', hfire, hle, m, List.mem_append_left _ hm, hreached⟩
    · obtain ⟨⟨d, ⟨-, hd⟩, hfire⟩, hreports⟩ := (hscanned.mem_iff t').1 ht'
      have hfire : e.rule.fireTime calendar d = .ok (some t') := hfire
      rw [h.rule_eq] at hfire
      obtain ⟨-, -, hnow⟩ := ScheduleEntry.reports_iff.1 hreports
      exact ⟨d, t', hfire, hle, now, List.mem_concat_self, hnow, hd⟩
  · rw [hscanFrom] at hfrom
    -- The only date still to be looked at that a request has reached is that of this request.
    obtain ⟨m, hm, htm, hdm⟩ := hasked
    have hmnow : m ≤ now := by
      rcases List.mem_append.1 hm with hm | hm
      · exact hlater m hm
      · obtain rfl := List.mem_singleton.1 hm
        exact Int.le_refl _
    have hdnow : d ≤ now.date := Int.le_trans hdm (DateTime.day_le hmnow)
    have htnow : t ≤ now := Int.le_trans htm hmnow
    have hlast : (asked.getLast?.getD registered) ≤ now := by
      cases hasked : asked.getLast? with
      | none => exact Int.le_trans hregistered htnow
      | some last => exact hlater last (List.mem_of_getLast? hasked)
    have hscan : e.scanFrom ≤ d := by
      rw [h.scanFrom_eq]
      exact Int.le_trans (DateTime.day_le hlast) hfrom
    refine (hscanned.past_iff t).2 ?_
    by_cases hpast : e.Past t
    · exact .inl hpast
    · refine .inr ⟨t, (hscanned.mem_iff t).2 ⟨⟨d, ⟨hscan, hdnow⟩, ?_⟩, ?_⟩, Int.le_refl _⟩
      · show e.rule.fireTime calendar d = .ok (some t)
        rw [h.rule_eq]
        exact hfire
      · refine ScheduleEntry.reports_iff.2 ⟨hpast, ?_, htnow⟩
        show e.registered ≤ t
        rw [h.registered_eq]
        exact hregistered

/-- A moment of a date still to be looked at is past if and only if a request has reached both. -/
theorem past_iff (h : Followed calendar rule registered asked e) {d : Date} {t : DateTime}
    (hfire : rule.fireTime calendar d = .ok (some t)) (hregistered : registered ≤ t)
    (hfrom : e.scanFrom ≤ d) : e.Past t ↔ ∃ m ∈ asked, t ≤ m ∧ d ≤ m.date := by
  constructor
  · intro hpast
    obtain ⟨d', t', hfire', hle, m, hm, htm, hdm⟩ := h.reached t hpast
    have hdates : d ≤ d' := ScheduleRule.date_le_of_fireTime hfire hfire' hle
    exact ⟨m, hm, Int.le_trans hle htm, Int.le_trans hdates hdm⟩
  · exact h.seen d t hfire hregistered hfrom

/-- An entry is followed through actions whose requests do not go back in time. -/
theorem run (h : Followed calendar rule registered asked e) {past actions : List (Action κ)}
    {g g' : History κ} (hs : g.Sound calendar past) {i : Nat}
    (he : g.scheduler.entries[i]? = some e)
    (hrising : (asked ++ requests actions).Pairwise (· ≤ ·)) (hrun : g.run actions = .ok g') :
    ∃ e', g'.scheduler.entries[i]? = some e' ∧
      Followed calendar rule registered (asked ++ requests actions) e' := by
  induction actions generalizing g past asked e with
  | nil =>
      obtain rfl := Except.ok.inj hrun
      refine ⟨e, he, ?_⟩
      rw [requests, List.filterMap_nil, List.append_nil]
      exact h
  | cons a rest ih =>
      rw [History.run] at hrun
      split at hrun
      · cases hrun
      · rename_i g₁ hact
        have hs₁ := hs.act hact
        cases a with
        | register rule action registered =>
            obtain rfl := Except.ok.inj hact
            obtain ⟨hlt, -⟩ := List.getElem?_eq_some_iff.1 he
            exact ih h hs₁ ((List.getElem?_append_left hlt).trans he) hrising hrun
        | due now =>
            have hrequests : asked ++ requests (.due now :: rest) =
                (asked ++ [now]) ++ requests rest := by
              simp [requests]
            rw [hrequests] at hrising ⊢
            have hlater : ∀ m ∈ asked, m ≤ now := by
              intro m hm
              have hasked := (List.pairwise_append.1 hrising).1
              exact (List.pairwise_append.1 hasked).2.2 m hm now List.mem_cons_self
            unfold History.act at hact
            simp only at hact
            split at hact
            · cases hact
            · rename_i reports s' hdue
              obtain rfl := Except.ok.inj hact
              obtain ⟨-, hanswered, -⟩ := due_answered hs.ids_nodup hdue
              obtain ⟨ts, e', he', -, hscanned⟩ := hanswered.answer i e he
              rw [hs.calendar_eq] at hscanned
              exact ih (h.due hlater hscanned) hs₁ he' hrising hrun

end Followed

/-- Take a registration among actions whose requests after it do not go back in time, with offsets
that are spans of time; so no action overflows. A request then reports a moment of the rule, not
before the registration, if and only if it is the first that has reached the moment and its date,
and the last request before it, or the registration if there was none, was not on a later date. If
the moment is on its date, this is the first request that has reached it. -/
theorem reported_iff (calendar : Calendar) (before after : List (Action κ)) (rule : ScheduleRule)
    (action : ScheduledAction κ) (registered now : DateTime)
    (hfits : ∀ r ∈ registrations (before ++ .register rule action registered :: after),
      r.1.time.fits)
    (hrising : (requests after ++ [now]).Pairwise (· ≤ ·)) :
    ∃ h reports s',
      (start calendar).run (before ++ .register rule action registered :: after) = .ok h ∧
      h.scheduler.due now = .ok (reports, s') ∧
      ∀ d t, rule.fireTime calendar d = .ok (some t) → registered ≤ t →
        (⟨(registrations before).length, t⟩ ∈ reports ↔
          t ≤ now ∧ d ≤ now.date ∧ (∀ m ∈ requests after, ¬ (t ≤ m ∧ d ≤ m.date)) ∧
            ((requests after).getLast?.getD registered).date ≤ d) ∧
        (t.date = d → (⟨(registrations before).length, t⟩ ∈ reports ↔
          t ≤ now ∧ ∀ m ∈ requests after, m < t)) := by
  obtain ⟨h₀, hbefore⟩ := (sound_start calendar).exists_run before (fits_of_append hfits)
  have hs₀ : h₀.Sound calendar before := (sound_start calendar).run hbefore
  obtain ⟨h, hafter⟩ := hs₀.exists_run (.register rule action registered :: after) hfits
  have hs := hs₀.run hafter
  obtain ⟨reports, s', hdue⟩ := hs.exists_due hfits now
  refine ⟨h, reports, s', (run_append hbefore _).trans hafter, hdue,
    fun d t hfire hregistered => ?_⟩
  -- The entry of the registration is followed up to the request.
  have hentry :
      (h₀.scheduler.register rule action registered).entries[(registrations before).length]? =
        some ⟨h₀.scheduler.size, rule, action, registered, registered.date, none⟩ := by
    rw [← hs₀.length_eq]
    exact List.getElem?_concat_length
  have hasked : (requests after).Pairwise (· ≤ ·) := (List.pairwise_append.1 hrising).1
  obtain ⟨e, he, hfollowed⟩ := (Followed.start calendar h₀.scheduler.size rule action
    registered).run (hs₀.register rule action registered) hentry hasked hafter
  rw [List.nil_append] at hfollowed
  obtain ⟨-, hanswered, -⟩ := due_answered hs.ids_nodup hdue
  obtain ⟨ts, e', -, hts, hscanned⟩ := hanswered.answer _ e he
  rw [hs.id_eq he] at hts
  rw [hs.calendar_eq] at hscanned
  have hscan : t ∈ ts ↔ (e.scanFrom ≤ d ∧ d ≤ now.date) ∧ ¬ e.Past t ∧ t ≤ now := by
    rw [hscanned.mem_iff, ScheduleEntry.reports_iff]
    show (∃ x, (e.scanFrom ≤ x ∧ x ≤ now.date) ∧ e.rule.fireTime calendar x = .ok (some t)) ∧
      ¬ e.Past t ∧ e.registered ≤ t ∧ t ≤ now ↔ _
    rw [hfollowed.rule_eq, hfollowed.registered_eq]
    constructor
    · rintro ⟨⟨x, hx, hfire'⟩, hnot, -, hnow⟩
      -- No other date of the rule has the same moment.
      obtain rfl : x = d := Date.ext_day (Int.le_antisymm
        (ScheduleRule.date_le_of_fireTime hfire' hfire (Int.le_refl _))
        (ScheduleRule.date_le_of_fireTime hfire hfire' (Int.le_refl _)))
      exact ⟨hx, hnot, hnow⟩
    · rintro ⟨hd, hnot, hnow⟩
      exact ⟨⟨d, hd, hfire⟩, hnot, hregistered, hnow⟩
  have hreported : ⟨(registrations before).length, t⟩ ∈ reports ↔
      t ≤ now ∧ d ≤ now.date ∧ (∀ m ∈ requests after, ¬ (t ≤ m ∧ d ≤ m.date)) ∧
        ((requests after).getLast?.getD registered).date ≤ d := by
    rw [hts, hscan, ← hfollowed.scanFrom_eq]
    constructor
    · rintro ⟨⟨hfrom, hd⟩, hnot, hnow⟩
      rw [hfollowed.past_iff hfire hregistered hfrom] at hnot
      exact ⟨hnow, hd, fun m hm hreached => hnot ⟨m, hm, hreached⟩, hfrom⟩
    · rintro ⟨hnow, hd, hnot, hfrom⟩
      refine ⟨⟨hfrom, hd⟩, ?_, hnow⟩
      rw [hfollowed.past_iff hfire hregistered hfrom]
      rintro ⟨m, hm, hreached⟩
      exact hnot m hm hreached
  refine ⟨hreported, fun hsame => ?_⟩
  subst hsame
  rw [hreported]
  constructor
  · rintro ⟨hnow, -, hnot, -⟩
    exact ⟨hnow, fun m hm => Int.not_le.1 fun hle => hnot m hm ⟨hle, DateTime.day_le hle⟩⟩
  · rintro ⟨hnow, hlater⟩
    refine ⟨hnow, DateTime.day_le hnow, fun m hm hreached => ?_, ?_⟩
    · exact Int.not_lt.2 hreached.1 (hlater m hm)
    · cases hlast : (requests after).getLast? with
      | none => exact DateTime.day_le hregistered
      | some last =>
          exact DateTime.day_le (Int.le_of_lt (hlater last (List.mem_of_getLast? hlast)))

/-- Ten hours after the close of every trading day, on the next date. -/
def afterMidnight : ScheduleRule := ⟨.everyTradingDay, .beforeClose (-600)⟩

/-- The moment of the rule for the Monday, at two in the morning of the Tuesday. -/
def tuesdayAtTwo : DateTime := .clock tuesday.date 2 0

/-- A request between the date of the rule and its moment comes too early for the moment, and the
next one, which is the first that has reached it, looks at later dates only. -/
theorem afterMidnight_lost :
    ∃ h reports s',
      (start .exchangeWeekdays).run
        [.register afterMidnight (.named "late" : ScheduledAction Empty) monday, .due tuesday] =
          .ok h ∧
      h.scheduler.due wednesday = .ok (reports, s') ∧
      afterMidnight.fireTime .exchangeWeekdays monday.date = .ok (some tuesdayAtTwo) ∧
      monday ≤ tuesdayAtTwo ∧ tuesday < tuesdayAtTwo ∧ tuesdayAtTwo ≤ wednesday ∧
      ⟨0, tuesdayAtTwo⟩ ∉ reports := by
  have hfire : afterMidnight.fireTime .exchangeWeekdays monday.date = .ok (some tuesdayAtTwo) := by
    rfl
  obtain ⟨h, reports, s', hrun, hdue, hreported⟩ := reported_iff .exchangeWeekdays [] [.due tuesday]
    afterMidnight (.named "late" : ScheduledAction Empty) monday wednesday
    (by decide) (by decide +kernel)
  have hmonday : monday ≤ tuesdayAtTwo := by decide +kernel
  have htuesday : tuesday < tuesdayAtTwo ∧ tuesdayAtTwo ≤ wednesday := by decide +kernel
  refine ⟨h, reports, s', hrun, hdue, hfire, hmonday, htuesday.1, htuesday.2, fun hmem => ?_⟩
  -- The request on the Tuesday was on a later date than that of the rule.
  have hdate := ((hreported monday.date tuesdayAtTwo hfire hmonday).1.1 hmem).2.2.2
  have hafter : ¬ tuesday.date ≤ monday.date := by decide +kernel
  exact hafter hdate

end History

end MarketReplay.Scheduler
