import MarketReplay.Run.Plan
import MarketReplay.Text.Split

/-!
# Invocations

What the program is asked to do, and how that is read from arguments. The value of an option stands
in the next argument, or after an equals sign in its own.
-/

namespace MarketReplay

/-- A run that is asked for: the layers of its configuration, what is given beside them, the
directory for its artifacts, and whether unused keys are refused. -/
structure RunRequest where
  configs : List String
  overrides : RunOverrides
  directory : Option String
  strict : Bool
  deriving DecidableEq

/-- What the program is asked to do. -/
inductive Invocation where
  | backtest (request : RunRequest)
  | configHash (paths : List String)
  | strategies
  | help
  deriving DecidableEq

namespace Invocation

/-- Whether an argument is an option or cannot be told from one. -/
def isOption (arg : String) : Bool := 1 < arg.length && arg.toList.head? == some '-'

/-- Whether an argument asks for help. -/
def asksHelp (arg : String) : Bool := arg == "--help" || arg == "-h"

/-- A value put where there is none yet. -/
def setOnce (old : Option String) (value : String) : Option (Option String) :=
  if old.isSome then none else some (some value)

/-- The request with the value of an option; only configurations may be given more than once. -/
def setOption (r : RunRequest) (name value : String) : Option RunRequest :=
  let o := r.overrides
  match name with
  | "--config" => some { r with configs := r.configs ++ [value] }
  | "--prices" =>
    (setOnce o.prices value).map fun prices => { r with overrides := { o with prices := prices } }
  | "--universe" =>
    (setOnce o.members value).map fun listed => { r with overrides := { o with members := listed } }
  | "--strategy" =>
    (setOnce o.strategy value).map fun name => { r with overrides := { o with strategy := name } }
  | "--symbol" =>
    (setOnce o.symbol value).map fun symbol => { r with overrides := { o with symbol := symbol } }
  | "--out" => (setOnce r.directory value).map fun directory => { r with directory := directory }
  | _ => none

/-- The name of an option and the value after its equals sign. -/
def attachedValue? (arg : String) : Option (String × String) :=
  match arg.toList.span (· != '=') with
  | (name, _ :: value) => some (String.ofList name, String.ofList value)
  | (_, []) => none

/-- A request needs a configuration. -/
def complete (r : RunRequest) : Option Invocation :=
  if r.configs.isEmpty then none else some (.backtest r)

/-- The invocation of a request and the options that follow. -/
def readOptions (r : RunRequest) : List String → Option Invocation
  | [] => complete r
  | ["--"] => complete r
  | arg :: rest =>
    if asksHelp arg then some .help
    else if arg == "--strict" then
      if r.strict then none else readOptions { r with strict := true } rest
    else
      match attachedValue? arg, rest with
      | some (name, value), rest =>
        match setOption r name value with
        | some r => readOptions r rest
        | none => none
      | none, [] => none
      | none, value :: rest =>
        if isOption value then none
        else
          match setOption r arg value with
          | some r => readOptions r rest
          | none => none
termination_by args => args.length

/-- The paths among arguments, after those in `acc`, the last one first. -/
def readPaths (acc : List String) : List String → Option Invocation
  | [] => if acc.isEmpty then none else some (.configHash acc.reverse)
  | "--" :: rest => if (acc ++ rest).isEmpty then none else some (.configHash (acc.reverse ++ rest))
  | arg :: rest =>
    if asksHelp arg then some .help
    else if isOption arg then none
    else readPaths (arg :: acc) rest

/-- The invocation of arguments, unless they are misused. -/
def ofArguments? : List String → Option Invocation
  | "backtest" :: rest => readOptions ⟨[], ⟨none, none, none, none⟩, none, false⟩ rest
  | "config-hash" :: rest => readPaths [] rest
  | ["strategies"] => some .strategies
  | ["strategies", "--"] => some .strategies
  | "strategies" :: arg :: _ => if asksHelp arg then some .help else none
  | "help" :: _ => some .help
  | arg :: _ => if asksHelp arg then some .help else none
  | [] => none

end Invocation

end MarketReplay
