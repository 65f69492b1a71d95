import EngineHost.CommandLine.Param
import EngineHost.CommandLine.Request
import EngineHost.Config.Settings
import EngineHost.Engine.Catalog
import EngineHost.Host.Operations
import EngineHost.Json.Writer

/-!
Carrying out what a command line asks for: find the settings, load the engine, evaluate or type the
source, and print the answer. Log records go to the error output, in between what is printed there.
-/
namespace EngineHost.CommandLine

open Host

/-- What has been printed so far. -/
structure Console where
  output : String
  errors : String
  /-- Log records below this level are not shown. -/
  level : LogLevel

/-- A program without host functions. -/
def embedding (σ : Type) : Embedding := ⟨σ, Console, Empty⟩

abbrev Program (σ : Type) := Host (embedding σ)

inductive Outcome where
  | finished (exit : Nat) (output errors : String)
  /-- Stopped by the words of the command line themselves. -/
  | stopped (stop : Stop)

variable {σ : Type}

def logLine (e : LogEvent) : String :=
  e.text ++ "\n"

/-- Shows the log records that are not shown yet. -/
def showLog (w : World (embedding σ)) : World (embedding σ) :=
  let shown := w.log.filter fun e => w.own.level.number ≤ e.level.number
  { w with
    own := { w.own with errors := w.own.errors ++ String.join (shown.map logLine) }
    log := [] }

def printLine (text : String) : Program σ Unit :=
  modify fun w => { w with own := { w.own with output := w.own.output ++ text ++ "\n" } }

def printErrorLine (text : String) : Program σ Unit :=
  modify fun w =>
    let w := showLog w
    { w with own := { w.own with errors := w.own.errors ++ text ++ "\n" } }

/-- No function of the host can be called. -/
def noBody : RunBody (embedding σ) :=
  fun body _ => nomatch body

/-- The inputs by name; of equal names the last counts. -/
def readInputs (params : List String) : Checked Value := do
  let entries ← params.mapM Param.read
  return .mapping .plain (Value.collectEntries (entries.map fun (name, v) => (.str name, v)))

def evalSource (E : Engine σ) (evaluator : ObjectId) (source : String) (params : List String) :
    Program σ Nat := do
  let inputs ← check (readInputs params)
  let result ← Evaluator.eval E noBody evaluator (.str source) inputs
  printLine (← check (Json.write .indented 0 result))
  pure 0

/-- Type errors are shown and counted as a failure of the program. -/
def typeSource (E : Engine σ) (evaluator : ObjectId) (source : String) : Program σ Nat := do
  let info ← Evaluator.typeOf E evaluator (.str source)
  printLine (← check (Json.write .indented 0 info.toData))
  if info.hasErrors then
    check (info.errors.forM Diagnostic.checkRuns)
    printErrorLine info.formatErrors
    pure 1
  else pure 0

def runCommand (E : Engine σ) (r : Request) (evaluator : ObjectId) : Program σ Nat :=
  match r.command with
  | .eval params => evalSource E evaluator r.source params
  | .typeOf => typeSource E evaluator r.source

/-- The evaluator is released at the end, whatever happens before. -/
def withEvaluator (E : Engine σ) (action : ObjectId → Program σ Nat) : Program σ Nat := do
  let evaluator ← Evaluator.create E
  let outcome ← attempt (action evaluator)
  close E evaluator
  check outcome

def messageText (f : Failure) : String :=
  (f.message?.map Value.text).getD ""

/-- What is reported to the user, and its message. All other failures leave the program. -/
def reported? (f : Failure) : Option (Checked String) :=
  match f with
  | .host _ =>
    match f.message? with
    | some message => some (pure message.text)
    | none => some (throw (.shape .wrongKind))
  | _ =>
    if ["ValueError", "UnicodeDecodeError"].contains f.family then some (pure (messageText f))
    else none

/-- The end of a program that failed after it had printed something. -/
def conclude (console : Console) : Except Failure Nat → Checked Outcome
  | .ok exit => pure (.finished exit console.output console.errors)
  | .error f =>
    match reported? f with
    | none => throw f
    | some message => do
      let errors := console.errors ++ "Error: " ++ (← message) ++ "\n"
      pure (.finished 1 console.output errors)

def startWorld (engine : σ) (level : LogLevel) (loaded : LogEvent) : World (embedding σ) :=
  ⟨[], [], [], engine, ⟨"", "", level⟩, [loaded]⟩

/-- An engine named on the command line goes before that of the settings. -/
def engineSpec (r : Request) (settings : Settings) : Value :=
  (((r.engine.filter (!·.isEmpty)).map Value.str).or settings.engine).getD .null

def levelOf (r : Request) (settings : Settings) : LogLevel :=
  if r.verbose then .debug else settings.level

/-- Everything up to the loaded engine, with the level for the log. -/
def prepare (catalog : Catalog σ) (s : Surroundings) (r : Request) :
    Checked (World (embedding σ)) := do
  let settings ← Settings.load s r.config
  let spec := engineSpec r settings
  let loaded ← catalog.load spec
  return startWorld loaded.engine (levelOf r settings) (.loadedEngine loaded.className spec.text)

def carryOut (E : Engine σ) (catalog : Catalog σ) (s : Surroundings) (r : Request) :
    Checked Outcome :=
  match prepare catalog s r with
  | .error f => conclude ⟨"", "", .debug⟩ (.error f)
  | .ok world =>
    let (result, world) := (withEvaluator E (runCommand E r)).run.run world
    conclude (showLog world).own result

def run (E : Engine σ) (catalog : Catalog σ) (s : Surroundings) (args : List String) :
    Checked Outcome :=
  match Request.ofArgs args with
  | .error stop => pure (.stopped stop)
  | .ok r => carryOut E catalog s r

end EngineHost.CommandLine
