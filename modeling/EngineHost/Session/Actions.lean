import EngineHost.Session.Variables

/-!
What the single steps of a session do, apart from those that run steps of their own.
-/
namespace EngineHost.Session

open Host

def objectOf (className : String) (id : ObjectId) : Outcome :=
  .value (.object ⟨id, className⟩)

def done : Outcome := .value .null

def flag (b : Bool) : Outcome := .value (.bool b)

def ownerClasses : List String :=
  ["Namespace", "Script", "Block", "Evaluator", "Args"]

def wrongKind {α : Type} (step : String) : SessionM α :=
  fail (.raised "WrongKind" step)

def noSuchPart {α : Type} : SessionM α :=
  fail (.shape .noSuchPart)

/-- The object a step works on; `accepts` says which classes it takes. -/
def targetObject (step : String) (accepts : String → Bool) (target : Option String) :
    SessionM ObjectRef := do
  match (← held (target.getD "")).outcome with
  | .value (.object ref) => if accepts ref.className then pure ref else wrongKind step
  | _ => wrongKind step

def owner (step : String) (target : Option String) : SessionM ObjectRef :=
  targetObject step ownerClasses.contains target

/-- The target, if it is of the class that has the operation; `otherwise` says what the rest does. -/
def ownerOf (step : String) (target : Option String) (className : String) (otherwise : ShapeFault) :
    SessionM ObjectId := do
  let ref ← owner step target
  if ref.className = className then pure ref.id else fail (.shape otherwise)

/-- How an owner lists what it owns: a callback by its text, all others by their kind. -/
def ownedText : Value → SessionM Value
  | .object ref =>
    if ownerClasses.contains ref.className then do
      let n ← node ref.id
      match n.role.kind with
      | .block => pure (.str (reveal (← get) (.object ref)).display)
      | kind => pure (.str kind.text)
    else noSuchPart
  | _ => noSuchPart

def scriptSource? : Value → SessionM (Option Value)
  | .object ⟨id, "Script"⟩ => do
    match (← node id).role with
    | .script _ source => pure (some source)
    | _ => pure none
  | _ => pure none

def stateOf (id : ObjectId) : SessionM Outcome := do
  let n ← node id
  let owned ← n.owned.mapM ownedText
  let common := [("kind", .str n.role.kind.text), ("owned", .list owned)]
  let destroyed := ("destroyed", .bool n.handle.isNone)
  match n.role with
  | .args call => do
    let name ← check call.signature.name
    return .fields (common ++ [("released", .bool call.released), ("function", name)])
  | .scope _ types symbols => do
    let sources ← n.owned.filterMapM scriptSource?
    return .fields (common ++
      [ destroyed, ("scripts", .list sources), ("symbols", .int symbols.size),
        ("aliases", .mapping .plain (types.aliases.map fun (name, t) => (name, .type t))) ])
  | .script home source => do
    let gone := (← node home).handle.isNone
    return .fields (common ++
      [destroyed, ("source", source), ("namespace_destroyed", .bool gone)])
  | .block _ => do
    let shown := (reveal (← get) (refOf id .block)).display
    return .fields (common ++ [destroyed, ("repr", .str shown)])
  | .evaluator => return .fields (common ++ [destroyed])

/-- A key is shown as it would be written; other messages stand for themselves. -/
def raisedMessage (family message : String) : String :=
  if family = "KeyError" then (Value.str message).display else message

def onScripted {α : Type} (action : Scripted.Action α) : SessionM α :=
  onEngine action

def rawEntry (scope : ObjectId) (e : RawEntry) : SessionM RawArg := do
  let symbol ← do
    let given ← build e.symbol
    if given.isText then internIn Scripted.engine scope given else pure given
  let value ← build e.value
  match e.block with
  | .handle h => return ⟨symbol, value, ← build h⟩
  | .closure params body =>
    return ⟨symbol, value, ← onScripted (Scripted.addBlock (.closure params body [] none))⟩

def buildLine (scope : ObjectId) (b : Builder Body) (line : Line) : SessionM (Builder Body) := do
  match line with
  | .declare name expr required variadic =>
    Scope.declare scope b (.declare (← build name) (← build expr) required variadic)
  | .setTotal total => Scope.declare scope b (.setTotal total)
  | .returns expr => Scope.declare scope b (.returns (← build expr))
  | .implement body => Scope.declare scope b (.implement (some (.function body)))
  | .implementValue value =>
    match ← build value with
    | .null => Scope.declare scope b (.implement none)
    | v => Scope.declare scope b (.implement (some (.value v)))
  | .validate => do
    let _ ← check b.validate
    pure b
  | .unknown => noSuchPart

def buildLines (scope : ObjectId) (lines : List Line) : SessionM (Builder Body) :=
  lines.foldlM (buildLine scope) Builder.empty

/-- An action that runs no steps of its own. `run` answers the engine's calls of host functions. -/
def act (run : RunBody embedding) (step : String) (target : Option String) :
    Action → SessionM Outcome
  | .newScope => return objectOf "Namespace" (← Scope.create Scripted.engine)
  | .newEvaluator => return objectOf "Evaluator" (← Evaluator.create Scripted.engine)
  | .defineType name expr => do
    let id ← ownerOf step target "Namespace" .noSuchPart
    return .value (.type (← Scope.defineType id (← build name) (← build expr)))
  | .define lines => do
    let id ← ownerOf step target "Namespace" .noSuchPart
    return .signature (← Scope.define Scripted.engine id (buildLines id lines))
  | .getSignature name => do
    let id ← ownerOf step target "Namespace" .noSuchPart
    match ← Scope.getSignature Scripted.engine id (← build name) with
    | some s => return .signature s
    | none => return done
  | .compile source => do
    let id ← ownerOf step target "Namespace" .noSuchPart
    return objectOf "Script" (← Scope.compile Scripted.engine id (← build source))
  | .recompile source => do
    let id ← ownerOf step target "Script" .noSuchPart
    Script.recompile Scripted.engine id (← build source)
    return done
  | .eval source inputs => do
    let ref ← owner step target
    let inputs ← build inputs
    match ref.className, source with
    | "Script", _ => return .value (← Script.eval Scripted.engine run ref.id inputs)
    | "Evaluator", some source =>
      return .value (← Evaluator.eval Scripted.engine run ref.id (← build source) inputs)
    | "Evaluator", none => fail (.shape .wrongKind)
    | _, _ => noSuchPart
  | .typeInfo => do
    let id ← ownerOf step target "Script" .noSuchPart
    return .typeInfo (← Script.typeInfo Scripted.engine id)
  | .typeOf source => do
    let id ← ownerOf step target "Evaluator" .noSuchPart
    return .typeInfo (← Evaluator.typeOf Scripted.engine id (← build source))
  | .set name value => do
    let id ← ownerOf step target "Evaluator" .noSuchPart
    Evaluator.set Scripted.engine id (← build name) (← build value)
    return done
  | .vars => do
    let id ← ownerOf step target "Evaluator" .noSuchPart
    return .value (.mapping .plain (← Evaluator.vars Scripted.engine id))
  | .destroy => do
    let ref ← owner step target
    if ref.className = "Args" then noSuchPart
    else
      destroy Scripted.engine ref.id
      return done
  | .release => do
    let ref ← owner step target
    if ref.className = "Args" then Args.release Scripted.engine ref.id
    else destroy Scripted.engine ref.id
    return done
  | .call args => do
    let ref ← targetObject step (· == "Block") target
    let values ← args.mapM build
    return .value (← Block.call Scripted.engine run ref.id values)
  | .within _ => return done
  | .args raw signature => do
    let id ← ownerOf step target "Namespace" .noSuchPart
    match (← held signature).outcome with
    | .signature s => do
      let entries ← raw.mapM (rawEntry id)
      return objectOf "Args" (← newArgs Scripted.engine id s entries)
    | _ => noSuchPart
  | .demand name => do
    let id ← ownerOf step target "Args" .noSuchPart
    return .value (← Args.demand id (← build name))
  | .maybe name fallback => do
    let id ← ownerOf step target "Args" .noSuchPart
    let name ← build name
    let otherwise ← build fallback
    match fallback.soleVariable, ← Args.lookup id name with
    | some source, .null => return (← held source).outcome
    | none, .null => return .value otherwise
    | _, v => return .value v
  | .items => do
    let id ← ownerOf step target "Args" .wrongKind
    return .value (← Args.items id)
  | .iter => do
    let id ← ownerOf step target "Args" .wrongKind
    return .value (← Args.iterate id)
  | .next => do
    match (← held (target.getD "")).outcome with
    | .value (.object ⟨cursor, "generator"⟩) =>
      match ← Args.next cursor with
      | some v => return .value v
      | none => return .fields [("end", .bool true)]
    | _ => fail (.shape .wrongKind)
  | .size => do
    let id ← ownerOf step target "Args" .wrongKind
    return .value (.int (← Args.size id))
  | .contains name => do
    let id ← ownerOf step target "Args" .wrongKind
    return flag (← Args.contains id (← build name))
  | .intern name => do
    let id ← ownerOf step target "Namespace" .noSuchPart
    return .value (← internIn Scripted.engine id (← build name))
  | .nameOf symbol => do
    let id ← ownerOf step target "Namespace" .noSuchPart
    return .value (← nameIn Scripted.engine id (← build symbol))
  | .adopt what => do
    let ref ← owner step target
    adopt ref.id (← held what).outcome.toValue
    return flag true
  | .disown what => do
    let ref ← owner step target
    disown ref.id (← held what).outcome.toValue
    return done
  | .wrapBlock handle => do
    let ref ← owner step target
    return .value (← wrapBlock ref.id (← build handle))
  | .same first second => do
    let a ← held first
    return flag (a.isSame (← held second))
  | .copyOf source => return (← held source).outcome
  | .raise family message =>
    fail (.raised family ((message.map (raisedMessage family)).getD ""))
  | .setFault method message => do
    onScripted <| modify fun s =>
      { s with faults := match message with
          | some m => Scripted.putName method m s.faults
          | none => s.faults.filter (·.1 != method) }
    return done
  | .setAnswer method answer => do
    let answer ← answer.mapM build
    onScripted <| modify fun s =>
      { s with answers := match answer with
          | some v => Scripted.putName method v s.answers
          | none => s.answers.filter (·.1 != method) }
    return done
  | .state => do
    let ref ← owner step target
    stateOf ref.id

/-- Where the type that an expression stands for was made, if it was not made for this. -/
def typeOrigin? (scope : ObjectId) (expr : Template) : SessionM (Option Origin) := do
  match ← build expr, expr.soleVariable with
  | .type _, some source => return some (← held source).origin
  | .type _, none => return none
  | v, _ =>
    return ((← get).own.aliasOrigins.find? fun (home, name, _) => home == scope && name.equals v).map
      (·.2.2)

/-- Where the only value of an argument was made, if it was given. -/
def argumentOrigin? (args : ObjectId) (name : Template) : SessionM (Option Origin) := do
  let name ← build name
  let call ← callOf args
  match call.signature.arg? name, Args.positions name call.entries with
  | some spec, position :: _ => return if spec.variadic then none else some (.argument args position)
  | _, _ => return none

/-- Where the outcome of an action was made, if the action only passed it on. -/
def passedOn? (step : String) (target : Option String) :
    Action → SessionM (Option Origin)
  | .copyOf source => return some (← held source).origin
  | .demand name => do argumentOrigin? (← owner step target).id name
  | .maybe name fallback => do
    match ← Args.lookup (← owner step target).id (← build name), fallback.soleVariable with
    | .null, some source => return some (← held source).origin
    | .null, none => return none
    | _, _ => argumentOrigin? (← owner step target).id name
  | .defineType name expr => do
    let scope := (← owner step target).id
    let origin ← typeOrigin? scope expr
    let made := origin.getD (.step (← get).own.stepsEnded)
    let name ← build name
    modify fun w => { w with own := { w.own with
      aliasOrigins := (scope, name, made) :: w.own.aliasOrigins } }
    return origin
  | _ => return none

end EngineHost.Session
