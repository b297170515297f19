import MarketReplay.Civil.NewYork
import MarketReplay.CommandLine.Invocation
import MarketReplay.PriceTable
import MarketReplay.Run.Artifacts
import MarketReplay.Run.Range
import MarketReplay.Strategy.Builtin
import MarketReplay.Tape.Source

/-!
# Responses

What an invocation prints, the code it ends with and the artifacts it leaves, given the files that
it reads. `Invocation.reads` lists these: the layers of the configuration, and the price table once
the layers tell its path.
-/

namespace MarketReplay

/-- The text of a file, or why it cannot be read. -/
abbrev FileLookup := String → Except String String

/-- Why an invocation fails, and what caused that, the outermost cause first. -/
structure CommandError where
  message : String
  causes : List String
  deriving DecidableEq

namespace CommandError

/-- A text with its lines after the first indented. -/
def indented (indent : String) (s : String) : String :=
  ("\n" ++ indent).intercalate ((Text.split '\n' s.toList).map String.ofList)

/-- The causes, numbered where there are several. -/
def causeLines (causes : List String) : List String :=
  match causes with
  | [cause] => ["    " ++ indented "    " cause]
  | causes => causes.zipIdx.map fun (cause, i) =>
    Text.padLeft 5 ' ' (toString i) ++ ": " ++ indented "       " cause

/-- The printed form. -/
def text (e : CommandError) : String :=
  let causes := if e.causes.isEmpty then "" else
    "\n\nCaused by:\n" ++ "\n".intercalate (causeLines e.causes)
  "Error: " ++ e.message ++ causes ++ "\n"

/-- A failure without a cause. -/
def plain (message : String) : CommandError := ⟨message, []⟩

/-- The failure to load a configuration, less the YAML reader's own text. -/
def ofConfig (e : ConfigError) : CommandError :=
  match e with
  | .unreadable _ reason => ⟨e.message, [reason]⟩
  | .invalidSection _ cause => ⟨e.message, [cause.message]⟩
  | e => plain e.message

/-- The failure to make a plan. -/
def ofPlan (e : PlanError) : CommandError :=
  match e with
  | .config e => ofConfig e
  | .symbol _ cause => ⟨e.message, [cause.message]⟩
  | e => plain e.message

end CommandError

/-- What tells one execution of a run from another. -/
structure Execution where
  runId : String
  createdAt : String
  sourceHash : String

namespace Execution

/-- The text of a moment: a second of the epoch and billionths, in universal time. -/
def momentText (second : Int) (nanos : Nat) : String :=
  match NewYork.universal? second with
  | none => ""
  | some t =>
    let time : TimeOfDay :=
      ⟨t.time.second, nanos % 1000000000, t.time.second_lt, TimeOfDay.emod_nanos_lt nanos⟩
    DateTime.isoText ⟨t.date, time⟩ ++ "Z"

/-- The source of a program that was not built from a known state. -/
def unknownSource : String := "UNKNOWN"

end Execution

/-- What an invocation leaves: its code, what it prints, and the artifacts with their directory. -/
structure Response where
  code : Nat
  output : String
  errors : String
  artifacts : Option (String × List (String × String))

namespace Response

/-- Lines of output. -/
def printed (lines : List String) : Response := ⟨0, String.join (lines.map (· ++ "\n")), "", none⟩

/-- A failure. -/
def failed (e : CommandError) : Response := ⟨1, "", e.text, none⟩

/-- How the program is used. -/
def usageText : String :=
  "usage: backtest --config PATH... [--prices PATH] [--universe SYMBOLS] [--strategy NAME]\n" ++
  "                [--symbol SYMBOL] [--out DIRECTORY] [--strict]\n" ++
  "       config-hash PATH...\n" ++
  "       strategies\n"

/-- The directory for artifacts cannot be made. -/
def unwritable (directory reason : String) : Response :=
  failed ⟨"write run artifacts failed: " ++ directory,
    ["create artifacts dir failed: " ++ directory, reason]⟩

/-- The program stopped at a result that does not fit its width. -/
def overflowed : Response := ⟨101, "", "arithmetic overflow\n", none⟩

/-- The arguments are misused. -/
def misused : Response := ⟨2, "", usageText, none⟩

/-- A response, or that of the failure in its place. -/
def ofExcept (r : Except CommandError Response) : Response :=
  match r with
  | .ok o => o
  | .error e => failed e

end Response

namespace RunRequest

/-- The configuration of a request, its unused keys refused if it is strict. -/
def config (file : FileLookup) (r : RunRequest) : Except ConfigError Config := do
  let c ← Config.ofFiles file r.configs
  let _ ← c.checkUnused r.strict UnusedKeys.consumedPointers
  return c

/-- The plan of a request and its configuration. -/
def plan (file : FileLookup) (r : RunRequest) : Except CommandError (Config × RunPlan) := do
  let c ← (r.config file).mapError CommandError.ofConfig
  return (c, ← (RunPlan.ofConfig c r.overrides).mapError CommandError.ofPlan)

end RunRequest

namespace RunPlan

/-- The points of the price table. -/
def points (file : FileLookup) (p : RunPlan) : Except CommandError (List PricePoint) :=
  (((file p.prices).mapError LoadError.unreadable).bind PriceTable.parse).mapError fun e =>
    ⟨"load prices csv failed: " ++ p.prices, [e.message]⟩

/-- The engine of the plan over points, with its strategy. -/
def engine (p : RunPlan) (points : List PricePoint) : Except CommandError Engine :=
  let source := PriceSource.ofPoints points
  match (Builtin.catalogue ⟨p.symbol, p.quantity⟩).instantiate p.strategy with
  | .error e => .error (.plain e.message)
  | .ok strategy =>
    match Engine.configure p.settings (some (.static p.members)) source.seriesOf
        source.contractsOn with
    | .error e => .error ⟨"invalid backtest config", [e.message]⟩
    | .ok engine => (engine.addStrategy strategy).mapError fun e => .plain e.message

/-- The run of the plan over points, or the overflow at which the program stops. -/
def run (p : RunPlan) (points : List PricePoint) :
    Except CommandError (Except Overflow RunResult) :=
  match p.engine points with
  | .error e => .error e
  | .ok engine =>
    match engine.checkedRun with
    | .error o => .ok (.error o)
    | .ok (.error e) => .error ⟨"backtest run failed", [e.message]⟩
    | .ok (.ok result) => .ok (.ok result)

end RunPlan

namespace RunResult

/-- The lines that report a run over a number of points. -/
def reportLines (r : RunResult) (configHash : String) (points : Nat) : List String :=
  ["backtest_ok=" ++ (if r.isComplete then "true" else "false"),
   "strategy=" ++ r.strategy,
   "config_hash=" ++ configHash,
   "points_loaded=" ++ toString points,
   "steps=" ++ toString r.steps,
   "orders=" ++ toString r.orders.length,
   "fills=" ++ toString r.fills.length,
   "final_cash=" ++ Price.format r.finalCash,
   "final_equity=" ++ Price.format r.finalEquity] ++
  r.warnings.map ("warning=" ++ ·)

end RunResult

namespace Invocation

/-- The line that tells where the artifacts are. -/
def artifactsLine (execution : Execution) (directory : Option String) : String :=
  match directory with
  | some directory =>
    "artifacts_written=true out_dir=" ++ directory ++ " run_id=" ++ execution.runId
  | none => "artifacts_written=false"

end Invocation

/-- The response to the run of a plan that was made from a configuration of the given hash; one that
was aborted is reported and then fails. -/
def RunPlan.respond (file : FileLookup) (execution : Execution) (request : RunRequest)
    (hash : String) (plan : RunPlan) : Except CommandError Response := do
  let points ← plan.points file
  match ← plan.run points with
  | .error _ => return .overflowed
  | .ok result =>
    let identity := ⟨execution.runId, execution.createdAt, hash, execution.sourceHash⟩
    let report := Response.printed (Invocation.artifactsLine execution request.directory ::
      result.reportLines hash points.length)
    let failure := result.failure.map fun f => CommandError.plain ("backtest aborted: " ++ f.text)
    return { report with
      code := if failure.isSome then 1 else 0
      errors := (failure.map CommandError.text).getD ""
      artifacts := request.directory.map fun directory =>
        (directory, Artifacts.files result identity) }

namespace Invocation

/-- The response to a request for a run. -/
def runResponse (file : FileLookup) (execution : Execution) (request : RunRequest) :
    Except CommandError Response := do
  let (config, plan) ← request.plan file
  plan.respond file execution request config.hash

/-- The strategies as they are listed; what they trade does not matter. -/
def listed : List StrategyMeta := (Builtin.catalogue ⟨.equity "SPY", 1⟩).list

/-- The response to an invocation. -/
def respond (file : FileLookup) (execution : Execution) : Invocation → Response
  | backtest request => .ofExcept (runResponse file execution request)
  | configHash paths =>
    match Config.ofFiles file paths with
    | .ok c => .printed ["config_hash=" ++ c.hash, c.canonical]
    | .error e => .failed (.ofConfig e)
  | strategies =>
    .printed (listed.map fun s => "\t".intercalate [s.name, s.version, s.description])
  | help => .printed [Response.usageText]

/-- The response to arguments. -/
def respondTo (file : FileLookup) (execution : Execution) (arguments : List String) : Response :=
  match ofArguments? arguments with
  | some invocation => invocation.respond file execution
  | none => .misused

/-- The files that an invocation reads, as far as the files known so far tell. -/
def reads (file : FileLookup) : Invocation → List String
  | backtest request =>
    match request.plan file with
    | .ok (_, plan) => request.configs ++ [plan.prices]
    | .error _ => request.configs
  | configHash paths => paths
  | _ => []

end Invocation

end MarketReplay
