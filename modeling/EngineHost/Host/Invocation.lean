import EngineHost.Host.Arguments
import EngineHost.Engine.Envelope

/-!
Calls in both directions. The engine calls a host function with raw arguments and is answered with an
envelope; an evaluation of the engine runs until it is done, and every call it makes on the way is
answered in between.
-/
namespace EngineHost.Host

variable {S : Embedding}

/-- How the body of a host function runs on the arguments of one call. -/
abbrev RunBody (S : Embedding) := S.Body → ObjectId → Host S Value

/-- A failure as the engine is told: its message, or its family when the message is empty. A message
that is no text cannot be told. -/
def failureEnvelope (f : Failure) : Host S Value :=
  match f.message? with
  | some (.str "") => pure (Envelope.err (.str f.family))
  | some message => pure (Envelope.err message)
  | none => fail (.shape .wrongKind)

/-- Runs an implementation. A callback refuses the arguments of a call, which cannot cross the boundary;
any other value is refused as any caller would refuse it. -/
def runCallee (run : RunBody S) (callee : Callee S.Body) (args : ObjectId) : Host S Value :=
  match callee with
  | .function body => run body args
  | .value (.object ref) => do
    let _ ← liveHandle ref.id
    encode (Place.top.atIndex 0) (refOf args .args)
  | .value _ => fail (.shape .wrongKind)

def callee? (id : FunctionId) : Host S (HostFunction S.Body) := do
  match (← get).functions[id]? with
  | some f => pure f
  | none => fail (.shape .wrongKind)

/-- The answer of a host function; its failures become envelopes, and one declared never to fail is
reported in the log. -/
def answer (run : RunBody S) (definition : Definition S.Body) (args : ObjectId) : Host S Value := do
  let outcome ← attempt (runCallee run definition.implementation args >>= encode .top)
  match outcome with
  | .ok wire => pure (Envelope.ok wire)
  | .error f => do
    match definition.signature.total, definition.signature.name?, f.message? with
    | true, some name, some message => write (.neverFailsRaised name message)
    | _, _, _ => pure ()
    failureEnvelope f

/-- Releases what the arguments hold unless the function has done so itself. -/
def releaseArgs (E : Engine S.State) (args : ObjectId) : Host S Unit := do
  if (← callOf args).released then pure () else Args.release E args

/-- A call of a host function by the engine. -/
def invoke (E : Engine S.State) (run : RunBody S) (id : FunctionId) (raw : List RawArg) :
    Host S Value := do
  let f ← callee? id
  let args ← newArgs E f.scope f.definition.signature raw
  let result ← answer run f.definition args
  match ← attempt (releaseArgs E args) with
  | .ok () => pure result
  | .error failure => do
    match f.definition.signature.name?, failure.message? with
    | some name, some message => write (.releaseFailed name message)
    | _, _ => pure ()
    failureEnvelope failure

/-- Runs an evaluation to its end. -/
def runEvaluation (invoke : FunctionId → List RawArg → Host S Value) :
    Evaluation S.State (Checked Value) → Host S Value
  | .done result state => do
    modify fun w => { w with engine := state }
    check result
  | .ask id raw state resume => do
    modify fun w => { w with engine := state }
    let outcome ← attempt (invoke id raw)
    runEvaluation invoke (resume outcome (← get).engine)

/-- Starts an evaluation in the engine's present state. -/
def evaluating (E : Engine S.State) (run : RunBody S)
    (start : S.State → Evaluation S.State (Checked Value)) : Host S Value := do
  runEvaluation (invoke E run) (start (← get).engine)

end EngineHost.Host
