import MarketReplay.Proofs.Schedule.Scan

/-!
# What one request reports

A request to an entry is a scan of the dates from the last one looked at to its own
(`ScheduleEntry.due_scanned`). A request to a scheduler is one to each entry, and its reports are
strictly sorted by time and then by registration (`Scheduler.due_answered`). Each is the report of a
schedule, as the numbers of schedules are those of their registrations (`Scheduler.Numbered`).
-/

namespace MarketReplay

variable {κ : Type}

namespace ScheduleEntry

variable {calendar : Calendar} {now : DateTime} {e e' : ScheduleEntry κ}

/-- A request scans the dates from the last one looked at to its own, which is looked at next. -/
theorem due_scanned {reports : List DueCallback} (h : e.due calendar now = .ok (reports, e')) :
    ∃ ts, reports = ts.map (DueCallback.mk e.id) ∧
      Scanned calendar now (fun d => e.scanFrom ≤ d ∧ d ≤ now.date)
        { e with scanFrom := now.date } ts e' := by
  unfold due at h
  simp only at h
  split at h
  · cases h
  · rename_i ts scanned hscan
    obtain ⟨rfl, rfl⟩ := Prod.mk.inj (Except.ok.inj h)
    have hscanned := scan_scanned hscan
    refine ⟨ts, rfl, Scanned.congr ⟨hscanned.rising, hscanned.mem_iff, hscanned.past_iff, ?_⟩ ?_⟩
    · rw [hscanned.kept]
    · intro d
      refine and_congr_right fun hfrom => ?_
      have hfrom : e.scanFrom.day ≤ d.day := hfrom
      have hto : d ≤ now.date ↔ d.day ≤ now.date.day := Iff.rfl
      rw [hto]
      omega

/-- A request to an entry whose offset fits does not overflow. -/
theorem exists_due (calendar : Calendar) (now : DateTime) (hfits : e.rule.time.fits) :
    ∃ reports e', e.due calendar now = .ok (reports, e') := by
  obtain ⟨⟨ts, e'⟩, hscan⟩ := exists_scan calendar now
    (now.date.day - e.scanFrom.day + 1).toNat e.scanFrom hfits
  unfold due
  simp only [hscan]
  exact ⟨_, _, rfl⟩

end ScheduleEntry

namespace Scheduler

variable {calendar : Calendar} {now : DateTime} {s s' : Scheduler κ}
  {entries entries' : List (ScheduleEntry κ)} {reports : List DueCallback}

/-- A request to entries: each scans its dates, and has its reports under its number. -/
structure Answered (calendar : Calendar) (now : DateTime) (entries : List (ScheduleEntry κ))
    (reports : List DueCallback) (entries' : List (ScheduleEntry κ)) : Prop where
  ids_eq : entries'.map ScheduleEntry.id = entries.map ScheduleEntry.id
  answer : ∀ (i : Nat) (e : ScheduleEntry κ), entries[i]? = some e → ∃ ts e',
    entries'[i]? = some e' ∧ (∀ t, ⟨e.id, t⟩ ∈ reports ↔ t ∈ ts) ∧
      ScheduleEntry.Scanned calendar now (fun d => e.scanFrom ≤ d ∧ d ≤ now.date)
        { e with scanFrom := now.date } ts e'
  owned : ∀ r ∈ reports, r.entry ∈ entries.map ScheduleEntry.id
  nodup : reports.Nodup

namespace Answered

/-- There are as many entries after a request as before. -/
theorem length_eq (h : Answered calendar now entries reports entries') :
    entries'.length = entries.length := by
  have hlength := congrArg List.length h.ids_eq
  rwa [List.length_map, List.length_map] at hlength

/-- The entries have the same rules and moments of registration as before. -/
theorem terms_eq (h : Answered calendar now entries reports entries') :
    entries'.map (fun e => (e.rule, e.registered)) =
      entries.map fun e => (e.rule, e.registered) := by
  refine List.ext_getElem? fun i => ?_
  rw [List.getElem?_map, List.getElem?_map]
  cases he : entries[i]? with
  | none =>
      have hlength : entries'[i]? = none := by
        rw [List.getElem?_eq_none_iff, h.length_eq]
        exact List.getElem?_eq_none_iff.1 he
      rw [hlength]
  | some e =>
      obtain ⟨ts, e', he', -, hscanned⟩ := h.answer i e he
      rw [he', Option.map_some, Option.map_some, hscanned.rule_eq, hscanned.registered_eq]

end Answered

/-- Entries with numbers of their own are answered in turn. -/
theorem dueEntries_answered (hids : (entries.map ScheduleEntry.id).Nodup)
    (h : dueEntries calendar now entries = .ok (reports, entries')) :
    Answered calendar now entries reports entries' := by
  induction entries generalizing reports entries' with
  | nil =>
      obtain ⟨rfl, rfl⟩ := Prod.mk.inj (Except.ok.inj h)
      exact ⟨rfl, fun i e he => absurd he (by simp), fun r hr => absurd hr (by simp), .nil⟩
  | cons e rest ih =>
      rw [dueEntries] at h
      split at h
      · cases h
      · rename_i due e' hdue
        split at h
        · cases h
        · rename_i more rest' hrest
          obtain ⟨rfl, rfl⟩ := Prod.mk.inj (Except.ok.inj h)
          obtain ⟨ts, rfl, hscanned⟩ := ScheduleEntry.due_scanned hdue
          obtain ⟨hnew, hids⟩ := List.nodup_cons.1 hids
          have hmore := ih hids hrest
          -- The reports of the first entry are told from the others by its number.
          have hother : ∀ t, (⟨e.id, t⟩ : DueCallback) ∉ more :=
            fun t hmem => hnew (hmore.owned _ hmem)
          have hfirst : ∀ r ∈ ts.map (DueCallback.mk e.id), r.entry = e.id := by
            intro r hr
            obtain ⟨t, -, rfl⟩ := List.mem_map.1 hr
            rfl
          refine ⟨?_, fun i x hx => ?_, fun r hr => ?_, ?_⟩
          · rw [List.map_cons, List.map_cons, hmore.ids_eq, hscanned.id_eq]
          · cases i with
            | zero =>
                obtain rfl := Option.some.inj hx
                refine ⟨ts, e', rfl, fun t => ?_, hscanned⟩
                simp [hother]
            | succ i =>
                obtain ⟨ts', x', hx', hts', hscanned'⟩ := hmore.answer i x hx
                refine ⟨ts', x', hx', fun t => ?_, hscanned'⟩
                have hne : (⟨x.id, t⟩ : DueCallback) ∉ ts.map (DueCallback.mk e.id) := by
                  intro hmem
                  have hid : x.id = e.id := hfirst _ hmem
                  have hxmem : x.id ∈ rest.map ScheduleEntry.id :=
                    List.mem_map_of_mem (List.mem_of_getElem? hx)
                  rw [hid] at hxmem
                  exact hnew hxmem
                rw [List.mem_append, or_iff_right hne, hts']
          · rcases List.mem_append.1 hr with hr | hr
            · rw [hfirst r hr]
              exact List.mem_cons_self
            · exact List.mem_cons_of_mem _ (hmore.owned r hr)
          · have hdistinct : (ts.map (DueCallback.mk e.id)).Nodup := by
              refine List.pairwise_map.2 (hscanned.rising.imp ?_)
              intro t t' hlt hsame
              have hsame : t = t' := congrArg DueCallback.time hsame
              rw [hsame] at hlt
              exact Int.lt_irrefl _ hlt
            refine List.nodup_append.2 ⟨hdistinct, hmore.nodup, ?_⟩
            rintro r hr r' hr' rfl
            obtain ⟨t, -, rfl⟩ := List.mem_map.1 hr
            exact hother t hr'

/-- The strict order of reports: by time, then by registration. -/
def Before (a b : DueCallback) : Prop := a.time < b.time ∨ a.time = b.time ∧ a.entry < b.entry

/-- Reports are compared by two numbers in turn. -/
theorem precedes_iff (a b : DueCallback) :
    precedes a b ↔ a.time.stamp < b.time.stamp ∨
      a.time.stamp = b.time.stamp ∧ a.entry ≤ b.entry := by
  have hstamp : a.time = b.time ↔ a.time.stamp = b.time.stamp :=
    ⟨congrArg DateTime.stamp, DateTime.ext_stamp⟩
  simp only [precedes, Bool.or_eq_true, Bool.and_eq_true, decide_eq_true_eq, hstamp]
  exact Iff.rfl

theorem precedes_trans (a b c : DueCallback) (hab : precedes a b) (hbc : precedes b c) :
    precedes a c := by
  rw [precedes_iff] at *
  omega

theorem precedes_total (a b : DueCallback) : precedes a b || precedes b a := by
  rw [Bool.or_eq_true, precedes_iff, precedes_iff]
  omega

/-- Sorted reports without repetitions are strictly sorted. -/
theorem mergeSort_before (h : reports.Nodup) : (reports.mergeSort precedes).Pairwise Before := by
  have hsorted : (reports.mergeSort precedes).Pairwise fun a b => precedes a b :=
    List.pairwise_mergeSort precedes_trans precedes_total reports
  have hnodup : (reports.mergeSort precedes).Nodup :=
    (List.mergeSort_perm reports precedes).nodup_iff.2 h
  refine (hsorted.and hnodup).imp ?_
  rintro ⟨entry, time⟩ ⟨entry', time'⟩ ⟨hle, hne⟩
  rw [precedes_iff] at hle
  rcases hle with hlt | ⟨hstamp, hentry⟩
  · exact .inl hlt
  · have htime : time = time' := DateTime.ext_stamp hstamp
    refine .inr ⟨htime, Nat.lt_of_le_of_ne hentry fun hsame => hne ?_⟩
    have hsame : entry = entry' := hsame
    rw [htime, hsame]

/-- A request answers every entry; its reports are strictly sorted. -/
theorem due_answered (hids : (s.entries.map ScheduleEntry.id).Nodup)
    (h : s.due now = .ok (reports, s')) :
    s'.calendar = s.calendar ∧ Answered s.calendar now s.entries reports s'.entries ∧
      reports.Pairwise Before := by
  unfold due at h
  split at h
  · cases h
  · rename_i unsorted entries hdue
    obtain ⟨rfl, rfl⟩ := Prod.mk.inj (Except.ok.inj h)
    obtain ⟨hsame, hanswer, howned, hnodup⟩ := dueEntries_answered hids hdue
    have hmem : ∀ r, r ∈ unsorted.mergeSort precedes ↔ r ∈ unsorted :=
      fun r => (List.mergeSort_perm unsorted precedes).mem_iff
    refine ⟨rfl, ⟨hsame, fun i e he => ?_, fun r hr => howned r ((hmem r).1 hr), ?_⟩,
      mergeSort_before hnodup⟩
    · obtain ⟨ts, e', he', hts, hscanned⟩ := hanswer i e he
      exact ⟨ts, e', he', fun t => (hmem _).trans (hts t), hscanned⟩
    · exact (List.mergeSort_perm unsorted precedes).nodup_iff.2 hnodup

/-- A request to entries whose offsets fit does not overflow. -/
theorem exists_due (now : DateTime) (hfits : ∀ e ∈ s.entries, e.rule.time.fits) :
    ∃ reports s', s.due now = .ok (reports, s') := by
  have hentries : ∃ result, dueEntries s.calendar now s.entries = .ok result := by
    revert hfits
    induction s.entries with
    | nil => exact fun _ => ⟨_, rfl⟩
    | cons e rest ih =>
        intro hfits
        obtain ⟨due, e', hdue⟩ := ScheduleEntry.exists_due s.calendar now
          (hfits e List.mem_cons_self)
        obtain ⟨result, hrest⟩ := ih fun x hx => hfits x (List.mem_cons_of_mem _ hx)
        rw [dueEntries, hdue]
        simp only [hrest]
        exact ⟨_, rfl⟩
  obtain ⟨⟨unsorted, entries⟩, hdue⟩ := hentries
  unfold due
  simp only [hdue]
  exact ⟨_, _, rfl⟩

/-- A request leaves the rules as they are. -/
theorem due_rules (h : s.due now = .ok (reports, s')) :
    s'.entries.map ScheduleEntry.rule = s.entries.map ScheduleEntry.rule := by
  have hentries : ∀ {entries entries' : List (ScheduleEntry κ)} {reports : List DueCallback},
      dueEntries s.calendar now entries = .ok (reports, entries') →
        entries'.map ScheduleEntry.rule = entries.map ScheduleEntry.rule := by
    intro entries
    induction entries with
    | nil =>
        intro entries' reports h
        obtain ⟨-, rfl⟩ := Prod.mk.inj (Except.ok.inj h)
        rfl
    | cons e rest ih =>
        intro entries' reports h
        rw [dueEntries] at h
        split at h
        · cases h
        · rename_i due e' hdue
          split at h
          · cases h
          · rename_i more rest' hrest
            obtain ⟨-, rfl⟩ := Prod.mk.inj (Except.ok.inj h)
            obtain ⟨ts, -, hscanned⟩ := ScheduleEntry.due_scanned hdue
            rw [List.map_cons, List.map_cons, hscanned.rule_eq, ih hrest]
  unfold due at h
  split at h
  · cases h
  · rename_i unsorted entries hdue
    obtain ⟨-, rfl⟩ := Prod.mk.inj (Except.ok.inj h)
    exact hentries hdue

/-! ### Numbered schedules -/

/-- Whether the number of every schedule is the count of those registered before it. -/
def Numbered (s : Scheduler κ) : Prop :=
  s.entries.map ScheduleEntry.id = List.range s.entries.length

namespace Numbered

theorem ids_nodup (h : s.Numbered) : (s.entries.map ScheduleEntry.id).Nodup := by
  rw [h]
  exact List.nodup_range

/-- A registration numbers its schedule in turn. -/
theorem register (h : s.Numbered) (rule : ScheduleRule) (action : ScheduledAction κ)
    (registered : DateTime) : (s.register rule action registered).Numbered := by
  unfold Numbered Scheduler.register
  rw [List.map_append, List.length_append, h]
  exact List.range_succ.symm

/-- A request keeps the numbers. -/
theorem due (h : s.Numbered) (hdue : s.due now = .ok (reports, s')) : s'.Numbered := by
  obtain ⟨-, hanswered, -⟩ := due_answered h.ids_nodup hdue
  unfold Numbered
  rw [hanswered.ids_eq, hanswered.length_eq]
  exact h

end Numbered

/-- A report of a request is that of a schedule. -/
theorem exists_entry_of_due (h : s.Numbered) (hdue : s.due now = .ok (reports, s'))
    {r : DueCallback} (hr : r ∈ reports) : ∃ e, s'.entry? r.entry = some e := by
  obtain ⟨-, hanswered, -⟩ := due_answered h.ids_nodup hdue
  have hmem := hanswered.owned r hr
  rw [← hanswered.ids_eq] at hmem
  obtain ⟨e, he, hid⟩ := List.mem_map.1 hmem
  refine Option.isSome_iff_exists.1 (List.find?_isSome.2 ⟨e, he, ?_⟩)
  exact decide_eq_true hid

end Scheduler

end MarketReplay
