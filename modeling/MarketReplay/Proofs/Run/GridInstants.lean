import MarketReplay.Proofs.Run.StepGrid

/-!
# The instants of a run as a list

The instants of a run are the first ones of its grid, in turn (`FirstOfGrid`), so they rise, and an
instant is among them by its place. A run that does not fail takes all of them
(`Engine.takes_grid`).
-/

namespace MarketReplay

/-- The instants of a grid by their moments. -/
theorem gridInstant?_eq_some_iff {start : Date} {r : Resolution} {k : Nat} {now : Instant} :
    gridInstant? start r k = some now ↔
      now.time.stamp = (start.day * 86400 + k * r.seconds) * 2000000000 ∧ now.resolution = r := by
  have hstart : (DateTime.midnight start).stamp = start.day * 86400 * 2000000000 := by
    show (start.day * 86400 + 0) * 2000000000 + 0 = _
    omega
  unfold gridInstant?
  rw [Option.map_eq_some_iff]
  simp only [DateTime.addSeconds?_eq_some_iff, hstart, ← Int.add_mul]
  constructor
  · rintro ⟨t, hstamp, rfl⟩
    exact ⟨hstamp, rfl⟩
  · rintro ⟨hstamp, rfl⟩
    exact ⟨now.time, hstamp, rfl⟩

/-- Whether instants are the first ones of a grid, in turn. -/
def FirstOfGrid (start : Date) (r : Resolution) (instants : List Instant) : Prop :=
  instants.map some = (List.range instants.length).map (gridInstant? start r)

namespace FirstOfGrid

variable {start : Date} {r : Resolution} {instants : List Instant}
  {now : Instant}

theorem mem_iff (h : FirstOfGrid start r instants) :
    now ∈ instants ↔ ∃ k < instants.length, gridInstant? start r k = some now := by
  have hmem : some now ∈ instants.map some ↔
      some now ∈ (List.range instants.length).map (gridInstant? start r) := iff_of_eq (by rw [h])
  simpa using hmem

/-- The instants before one more are the first ones, and it is the next one. -/
theorem of_concat (h : FirstOfGrid start r (instants ++ [now])) :
    FirstOfGrid start r instants ∧ gridInstant? start r instants.length = some now := by
  unfold FirstOfGrid at h
  rw [List.length_append, List.length_singleton, List.range_succ, List.map_append,
    List.map_append, List.map_singleton, List.map_singleton] at h
  obtain ⟨hfirst, hlast⟩ := List.append_inj' h rfl
  exact ⟨hfirst, (List.singleton_inj.1 hlast).symm⟩

/-- They rise. -/
theorem rising (h : FirstOfGrid start r instants) :
    instants.Pairwise fun i j => i.time < j.time := by
  have hmoments : (instants.map some).Pairwise fun i j : Option Instant =>
      ∀ x ∈ i, ∀ y ∈ j, x.time < y.time := by
    rw [h]
    refine List.pairwise_map.2 (List.pairwise_lt_range.imp ?_)
    intro k k' hlt x hx y hy
    have hstamp := (gridInstant?_eq_some_iff.1 hx).1
    have hstamp' := (gridInstant?_eq_some_iff.1 hy).1
    have hseconds : k * r.seconds < k' * r.seconds := Nat.mul_lt_mul_of_pos_right hlt r.seconds_pos
    show x.time.stamp < y.time.stamp
    rw [hstamp, hstamp', ← Nat.cast_mul, ← Nat.cast_mul]
    omega
  exact (List.pairwise_map.1 hmoments).imp fun h => h _ rfl _ rfl

end FirstOfGrid

namespace Engine

variable {e : Engine} {S : Strategy}

/-- A run that does not fail takes its steps at all instants of its grid, which does not end with
the last date. -/
theorem takes_grid {p : RunProgress S e.selector} (h : e.after S e.span = .ok p)
    (hnone : p.failure = none) :
    let instants := (e.taken S e.span).map StepTaken.now
    FirstOfGrid e.settings.start e.settings.resolution instants ∧
      instants.length = gridSize e.settings.start e.settings.stop e.settings.resolution ∧
      e.settings.stop < .last := by
  obtain ⟨-, clock, hclock, hloop⟩ := after_eq_ok.1 h
  have hspanning :
      Clock.spanning e.settings.start e.settings.stop e.settings.resolution = .ok clock := by
    unfold Engine.clock at hclock
    split at hclock
    · cases hclock
    · rename_i spanned hspanning
      rw [hspanning, Except.ok.inj hclock]
  have hspan : e.span = gridSize e.settings.start e.settings.stop e.settings.resolution := by
    unfold span
    rw [hclock]
    exact Clock.remaining_eq hspanning
  have hgrid := OnGrid.loop hspanning rfl rfl hloop
  rw [← taken_eq hclock] at hgrid
  refine ⟨?_, ?_, ?_⟩
  · unfold FirstOfGrid
    rw [List.map_map, List.length_map]
    exact hgrid.instants_eq
  · rw [hspan] at hloop ⊢
    rw [List.length_map, taken_eq hclock]
    exact RunProgress.length_taken hspanning hloop hnone
  · obtain ⟨-, next, hnext, -⟩ := Clock.spanning_eq_ok hspanning
    have hle := next.le_last
    show e.settings.stop.day < Civil.lastDay
    omega

end Engine

end MarketReplay
