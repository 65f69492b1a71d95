import EngineHost.Session.Actions

/-!
Running a session step by step. Every step answers on its own, with the engine calls it made, what ran
inside it, what it logged and which handles are live after it.
-/
namespace EngineHost.Session

open Host

def pushTrace (place : Value) (name : String) : SessionM Nat :=
  modifyGet fun w =>
    (w.own.trace.length,
     { w with own := { w.own with trace := w.own.trace ++ [⟨place, name, none⟩] } })

def fillTrace (index : Nat) (outcome : Except Failure Outcome) : SessionM Unit :=
  modify fun w =>
    { w with own := { w.own with
        trace := w.own.trace.modify index fun e => { e with outcome := some outcome } } }

/-- Runs steps inside a place. A step that fails ends them unless it says that it catches. -/
def runInside (runOne : Step → SessionM Outcome) (place : Value) : List Step → SessionM Unit
  | [] => pure ()
  | .mk name target keepAs catches action :: rest => do
    let index ← pushTrace place name
    match ← attempt (runOne (.mk name target keepAs catches action)) with
    | .ok outcome => do fillTrace index (.ok (← snapshot outcome))
    | .error f => do
      fillTrace index (.error (snapshotFailure (← get) f))
      if catches then pure () else fail f
    runInside runOne place rest

/-- Runs a function's steps with the call's arguments in the variable `args`, which is put back. -/
def runBodyWith (runOne : Step → SessionM Outcome) : Body → ObjectId → SessionM Value
  | .mk steps result, args => do
    let place := ((← callOf args).signature.name?).getD .null
    let outer ← held? "args"
    setVariable "args" ⟨objectOf "Args" args, .step 0⟩
    let outcome ← attempt do
      runInside runOne place steps
      build result
    match outer with
    | some o => setVariable "args" o
    | none => clearVariable "args"
    check outcome

/-- Statements inside a block that releases its resource at the end, whatever happens in it. -/
def runWithin (runOne : Step → SessionM Outcome) (ref : ObjectRef) (steps : List Step) :
    SessionM Outcome := do
  if ref.className = "Args" then fail (.shape .wrongKind)
  else
    let outcome ← attempt (runInside runOne (.str "with") steps)
    close Scripted.engine ref.id
    check outcome
    return flag true

/-- The deepest nesting of steps. -/
def maxNesting : Nat := 400

def runStep : Nat → Option String → Step → SessionM Outcome
  | 0, _, _ => fail .tooDeep
  | fuel + 1, standard, .mk name target keepAs _ action => do
    let target := target.orElse fun _ => standard
    let outcome ←
      match action with
      | .within steps => do
        let ref ← owner name target
        runWithin (runStep fuel standard) ref steps
      | action => act (runBodyWith (runStep fuel (some "args"))) name target action
    let origin ← passedOn? name target action
    let own := (← get).own
    modify fun w => { w with own := { w.own with stepsEnded := own.stepsEnded + 1 } }
    match keepAs with
    | some kept => setVariable kept ⟨outcome, origin.getD (.step own.stepsEnded)⟩
    | none => pure ()
    pure outcome

/-- What one step of a session answers. -/
structure Answer where
  outcome : Except Failure Outcome
  calls : List (List Value)
  trace : List TraceEntry
  logs : List LogEvent
  live : List (List Value)

def liveHandles (s : Scripted.State) : List (List Value) :=
  [s.scopes.map Prod.fst, s.scripts.map Prod.fst, s.blocks.map Prod.fst, s.evaluators.map Prod.fst]

def initialWorld (programs : Scripted.ProgramTable) : World embedding :=
  ⟨[], [], [], Scripted.State.initial programs, ⟨[], [], 1, []⟩, []⟩

/-- Forgets what the steps before have recorded. -/
def freshRecords (w : World embedding) : World embedding :=
  { w with own := { w.own with trace := [] }, engine := { w.engine with calls := [] }, log := [] }

def answerStep (step : Step) (w : World embedding) : Answer × World embedding :=
  let action : SessionM Outcome := runStep maxNesting none step >>= snapshot
  let (outcome, w) := action.run (freshRecords w)
  let calls := w.engine.calls.map (·.map (reveal w))
  let live := (liveHandles w.engine).map (·.map (reveal w))
  (⟨outcome.mapError (snapshotFailure w), calls, w.own.trace, w.log, live⟩, w)

def answerSteps : List Step → World embedding → List Answer
  | [], _ => []
  | step :: rest, w =>
    let (answer, w) := answerStep step w
    answer :: answerSteps rest w

def run (programs : Scripted.ProgramTable) (steps : List Step) : List Answer :=
  answerSteps steps (initialWorld programs)

end EngineHost.Session
