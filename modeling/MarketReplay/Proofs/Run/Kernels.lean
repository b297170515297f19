import MarketReplay.Proofs.Run.Phases
import MarketReplay.Proofs.Run.Steps

/-!
# The kernels of a run

Everything that a run does to its kernel is the market's part of a step, a command of a callback,
the drain of a dispatch or the installation of schedules. `Engine.Commands` lists the commands of a
run, each with the kernel that it is given to, and `Engine.Visits` the kernels before and after
each command and after each step. What these four keep holds of all of them
(`Engine.Visits.induction`).
-/

namespace MarketReplay

variable {κ α : Type}

/-- A command that a program gives when it is run on a kernel, with the kernel that it acts on. -/
inductive Program.Gives (now : Instant) :
    Program κ α → Kernel κ → Command κ → Kernel κ → Prop where
  | first (c : Command κ) (resume : c.Reply → Program κ α) (k : Kernel κ) :
      Gives now (.perform c resume) k c k
  | later {c c' : Command κ} {resume : c.Reply → Program κ α} {k k' : Kernel κ}
      (h : Gives now (resume (c.execute now k).1) (c.execute now k).2 c' k') :
      Gives now (.perform c resume) k c' k'

/-- Whether commands at an instant keep a property of kernels. -/
def Kernel.Commandable (now : Instant) (P : Kernel κ → Prop) : Prop :=
  ∀ (c : Command κ) (k : Kernel κ), P k → P (c.execute now k).2

namespace Kernel.Commandable

variable {now : Instant} {P : Kernel κ → Prop} {k : Kernel κ}

/-- A program gives commands in turn. -/
theorem run (h : Commandable now P) (p : Program κ α) (hk : P k) : P (p.run now k).2 := by
  induction p generalizing k with
  | done a => exact hk
  | perform c resume ih => exact ih _ (h c k hk)

/-- Every command of a program acts on a kernel that earlier ones have left. -/
theorem gives (h : Commandable now P) {p : Program κ α} {c : Command κ} {k' : Kernel κ}
    (hgives : p.Gives now k c k') (hk : P k) : P k' := by
  induction hgives with
  | first => exact hk
  | later _ ih => exact ih (h _ _ hk)

end Kernel.Commandable

/-- Whether commands, drains and installations at an instant keep a property of kernels. -/
structure Kernel.KeptAt (now : Instant) (P : Kernel κ → Prop) : Prop where
  command : Commandable now P
  drain : ∀ {k : Kernel κ}, P k → P { k with book := k.book.drain.2 }
  install : ∀ {k : Kernel κ}, P k → P { k with pending := [] }

variable {S : Strategy} {sel : Selector}

/-- The program of the callback that a delivery makes. -/
def Delivery.program (r : RunState S sel) : Delivery → Program S.Code (Outcome S.State)
  | .event e => S.onOrderEvent r.strategy e
  | .fire due => r.scheduler.fire S due r.strategy

namespace RunState

variable {now : Instant} {P : Kernel S.Code → Prop}

/-- A callback of a step from a state: its program, and the kernel that the program is run on. The
strategy is told of changes and given a slice if these are not empty, and gets each delivery if
none before it fails. -/
inductive Calls (r : RunState S sel) (now : Instant) :
    Program S.Code (Outcome S.State) → Kernel S.Code → Prop where
  | changes (hsome : (r.market now).1.isEmpty = false) :
      Calls r now (S.onSecuritiesChanged (r.market now).2.2.strategy (r.market now).1)
        (r.market now).2.2.kernel
  | data {q : RunState S sel}
      (hchanges : (r.market now).2.2.notifyChanges now (r.market now).1 = (q, none))
      (hsome : (r.market now).2.1.isEmpty = false) :
      Calls r now (S.onData q.strategy (r.market now).2.1) q.kernel
  | delivery {q q' : RunState S sel} {due : List DueCallback} {scheduler : Scheduler S.Code}
      {front back : List Delivery} {d : Delivery}
      (hnotify : (r.market now).2.2.notify now (r.market now).1 (r.market now).2.1 = (q, none))
      (hdue : q.scheduler.due now.time = .ok (due, scheduler))
      (hsplit : interleave q.kernel.book.drain.1 due = front ++ d :: back)
      (hfront : deliverAll now front (q.drained scheduler) = (q', none)) :
      Calls r now (d.program q') q'.kernel

/-- The strategy is told of changes by a callback. -/
theorem notifyChanges_kernel (h : Kernel.Commandable now P) {r : RunState S sel} (hr : P r.kernel)
    (changes : Changes) : P (r.notifyChanges now changes).1.kernel := by
  unfold notifyChanges
  split
  · exact hr
  · exact h.run (S.onSecuritiesChanged r.strategy changes) hr

/-- Changes and slice are told by callbacks. -/
theorem notify_kernel (h : Kernel.Commandable now P) {r : RunState S sel} (hr : P r.kernel)
    (changes : Changes) (slice : DataSlice) : P (r.notify now changes slice).1.kernel := by
  have hchanges := notifyChanges_kernel h hr changes
  unfold notify
  split <;> rename_i hresult <;> rw [hresult] at hchanges
  · exact hchanges
  · rename_i r'
    unfold notifyData
    split
    · exact hchanges
    · exact h.run (S.onData r'.strategy slice) hchanges

/-- A delivery runs the program of its callback. -/
theorem deliver_kernel (r : RunState S sel) (now : Instant) (d : Delivery) :
    (r.deliver now d).1.kernel = ((d.program r).run now r.kernel).2 := by
  cases d <;> rfl

/-- Deliveries are made by callbacks. -/
theorem deliverAll_kernel (h : Kernel.Commandable now P) (deliveries : List Delivery)
    {r : RunState S sel} (hr : P r.kernel) : P (deliverAll now deliveries r).1.kernel := by
  induction deliveries generalizing r with
  | nil => exact hr
  | cons d rest ih =>
      have hdeliver : P (r.deliver now d).1.kernel := by
        rw [deliver_kernel]
        exact h.run (d.program r) hr
      rw [deliverAll]
      split <;> rename_i hresult <;> rw [hresult] at hdeliver
      · exact hdeliver
      · exact ih hdeliver

/-- What holds after the market's part of a step holds after the step. -/
theorem step_kernel (h : Kernel.KeptAt now P) {r r' : RunState S sel}
    (hmarket : P (r.market now).2.2.kernel) {failure : Option RunFailure}
    (hstep : r.step now = .ok (r', failure)) : P r'.kernel := by
  have hnotify := notify_kernel h.command hmarket (r.market now).1 (r.market now).2.1
  obtain ⟨q, f, hfailed, -, rfl⟩ | ⟨q, q', hdone, hdispatch, rfl⟩ := step_cases hstep
  · rw [hfailed] at hnotify
    exact h.install hnotify
  · rw [hdone] at hnotify
    obtain ⟨due, scheduler, -, hresult⟩ := dispatch_eq hdispatch
    have hdrained : P (q.drained scheduler).kernel := h.drain hnotify
    have hdeliver := deliverAll_kernel h.command (interleave q.kernel.book.drain.1 due) hdrained
    rw [hresult] at hdeliver
    exact h.install hdeliver

/-- What holds after the market's part of a step holds where its callbacks begin. -/
theorem Calls.kernel (h : Kernel.KeptAt now P) {r : RunState S sel}
    (hmarket : P (r.market now).2.2.kernel) {program : Program S.Code (Outcome S.State)}
    {k : Kernel S.Code} (hcalls : r.Calls now program k) : P k := by
  cases hcalls with
  | changes => exact hmarket
  | data hchanges =>
      have hnotify := notifyChanges_kernel h.command hmarket (r.market now).1
      rwa [hchanges] at hnotify
  | @delivery q q' due scheduler front back d hnotify _ _ hfront =>
      have hnotified := notify_kernel h.command hmarket (r.market now).1 (r.market now).2.1
      rw [hnotify] at hnotified
      have hdrained : P (q.drained scheduler).kernel := h.drain hnotified
      have hdeliver := deliverAll_kernel h.command front hdrained
      rwa [hfront] at hdeliver

end RunState

namespace Engine

/-- A command of a run, with its instant and the kernel that it acts on: one of the initialization,
or one of a callback of a step that the run takes or breaks off. -/
inductive Commands (e : Engine) (S : Strategy) :
    Instant → Command S.Code → Kernel S.Code → Prop where
  | start {p : RunProgress S e.selector} {c : Command S.Code} {k : Kernel S.Code}
      (hbegin : e.after S 0 = .ok p)
      (hgives : (S.onStart S.initial).Gives (.startOf e.settings.start e.settings.resolution)
        (RunState.start S e.selector e.settings e.prices e.contracts).kernel c k) :
      Commands e S (.startOf e.settings.start e.settings.resolution) c k
  | step {steps : Nat} {p : RunProgress S e.selector} {now : Instant}
      {program : Program S.Code (Outcome S.State)} {begin k : Kernel S.Code} {c : Command S.Code}
      (hafter : e.after S steps = .ok p) (hgoes : p.failure = none)
      (hnow : (e.instants (steps + 1))[steps]? = some now)
      (hcalls : p.state.Calls now program begin) (hgives : program.Gives now begin c k) :
      Commands e S now c k

/-- A kernel that a run passes through: before or after a command, or after the initialization or
a step. -/
inductive Visits (e : Engine) (S : Strategy) : Kernel S.Code → Prop where
  | before {now : Instant} {c : Command S.Code} {k : Kernel S.Code} (h : e.Commands S now c k) :
      Visits e S k
  | behind {now : Instant} {c : Command S.Code} {k : Kernel S.Code} (h : e.Commands S now c k) :
      Visits e S (c.execute now k).2
  | after {steps : Nat} {p : RunProgress S e.selector} (h : e.after S steps = .ok p) :
      Visits e S p.state.kernel

variable {e : Engine} {P : Kernel S.Code → Prop}

section Kept

variable
  (hstart : P (RunState.start S e.selector e.settings e.prices e.contracts).kernel)
  (hkept : ∀ now, Kernel.KeptAt now P)
  (hmarket : ∀ (r : RunState S e.selector) now, P r.kernel → P (r.market now).2.2.kernel)

include hstart hkept hmarket

/-- What holds at the start and is kept holds after any number of steps. -/
theorem after_kernel {steps : Nat} {p : RunProgress S e.selector} (h : e.after S steps = .ok p) :
    P p.state.kernel := by
  refine after_induction (P := fun _ p => P p.state.kernel) ?_ ?_ h
  · have hlaunch := hkept (.startOf e.settings.start e.settings.resolution)
    exact hlaunch.install (hlaunch.command.run (S.onStart S.initial) hstart)
  · intro past s hbefore _ hstep
    exact RunState.step_kernel (hkept s.now) (hmarket _ _ hbefore) (RunProgress.step_eq hstep).1

/-- What holds at the start and is kept holds of every kernel that a command acts on. -/
theorem Commands.kernel {now : Instant} {c : Command S.Code} {k : Kernel S.Code}
    (h : e.Commands S now c k) : P k := by
  cases h with
  | start _ hgives => exact (hkept _).command.gives hgives hstart
  | step hafter _ _ hcalls hgives =>
      have hbefore := after_kernel hstart hkept hmarket hafter
      exact (hkept _).command.gives hgives (hcalls.kernel (hkept _) (hmarket _ _ hbefore))

/-- What holds at the start, and is kept by the market's part of a step, by commands, drains and
installations, holds of every kernel that a run passes through. -/
theorem Visits.induction {k : Kernel S.Code} (h : e.Visits S k) : P k := by
  cases h with
  | before hgiven => exact hgiven.kernel hstart hkept hmarket
  | behind hgiven => exact (hkept _).command _ _ (hgiven.kernel hstart hkept hmarket)
  | after hafter => exact after_kernel hstart hkept hmarket hafter

end Kept

end Engine

end MarketReplay
