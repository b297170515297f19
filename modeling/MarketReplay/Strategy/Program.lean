import MarketReplay.Strategy.Command

/-!
# Programs of commands

A callback is a program: it either has its result or performs a command and goes on with the reply.
So a strategy acts on a kernel by commands only, and a program's run is determined by the replies.
-/

namespace MarketReplay

/-- A program with a result. -/
inductive Program (κ α : Type) where
  | done (result : α)
  | perform (command : Command κ) (resume : command.Reply → Program κ α)

namespace Program

variable {κ α β : Type}

/-- One program after another. -/
def bind : Program κ α → (α → Program κ β) → Program κ β
  | done a, next => next a
  | perform c resume, next => perform c fun reply => (resume reply).bind next

instance : Monad (Program κ) where
  pure := done
  bind := bind

/-- The program of one command. -/
def command (c : Command κ) : Program κ c.Reply := perform c done

/-- The result of a program run at an instant, and the kernel after it. -/
def run (now : Instant) : Program κ α → Kernel κ → α × Kernel κ
  | done a, k => (a, k)
  | perform c resume, k =>
    let (reply, k') := c.execute now k
    (resume reply).run now k'

/-- Whether every command of a program run at an instant is in range. -/
def inRange (now : Instant) : Program κ α → Kernel κ → Bool
  | done _, _ => true
  | perform c resume, k =>
    c.inRange now k &&
      let (reply, k') := c.execute now k
      (resume reply).inRange now k'

end Program

end MarketReplay
