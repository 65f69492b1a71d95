import EngineHost.Host.World
import EngineHost.Value.Objects
import EngineHost.Wire.Encode
import EngineHost.Wire.Decode

/-!
Who releases what. Every handle that the engine hands out is held by one object, and an object releases
what it owns before itself, the last adopted first. What has been released refuses every further use.
-/
namespace EngineHost.Host

variable {S : Embedding}

def encode (place : Place) (v : Value) : Host S Value :=
  check (Wire.encode place v)

def useAfterDestroy {α : Type} (kind : ResourceKind) : Host S α :=
  fail (.host (.useAfterDestroy kind))

def checkLive (id : ObjectId) : Host S Unit := do
  let n ← node id
  if n.isLive then pure () else useAfterDestroy n.role.kind

/-- The handle of a resource that has not been destroyed. -/
def liveHandle (id : ObjectId) : Host S Value := do
  let n ← node id
  match n.handle with
  | some h => pure h
  | none => useAfterDestroy n.role.kind

/-- Inputs by name. The arguments of a call stand for no inputs when they are empty, and are no mapping
otherwise. -/
def encodeInputs (inputs : Value) : Host S (List (Value × Value)) := do
  match inputs with
  | .object ref =>
    match ref.className, (← get).nodes[ref.id]?.map Node.role with
    | "Args", some (.args call) => do
      checkLive ref.id
      if call.entries.isEmpty then pure [] else fail (.shape .noSuchPart)
    | _, _ => fail (.shape .noSuchPart)
  | v => check (Wire.encodeInputs v)

/-- Takes ownership, if the new owner is live. -/
def adopt (owner : ObjectId) (resource : Value) : Host S Unit := do
  checkLive owner
  modifyNode owner fun n => { n with owned := n.owned ++ [resource] }

/-- A list without the first entry that equals a value. -/
def withoutFirst (v : Value) : List Value → List Value
  | [] => []
  | w :: rest => if w.equals v then rest else w :: withoutFirst v rest

/-- Forgets what was released on its own. -/
def disown (owner : ObjectId) (resource : Value) : Host S Unit :=
  modifyNode owner fun n => { n with owned := withoutFirst resource n.owned }

/-- The value that stands for an object of a role. -/
def refOf (id : ObjectId) (kind : ResourceKind) : Value :=
  .object ⟨id, kind.className⟩

/-- A callback handle from the engine, wrapped and owned. -/
def wrapBlock (owner : ObjectId) (handle : Value) : Host S Value := do
  checkLive owner
  let id ← addNode (.block owner) (handleOf handle)
  adopt owner (refOf id .block)
  pure (refOf id .block)

/-- A value from the engine: a callback if there is a handle for one, else a decoded wire value. -/
def receive (owner : ObjectId) (value block : Value) : Host S Value :=
  match block with
  | .null => check (Wire.decode value)
  | handle => wrapBlock owner handle

/-- Gives a handle back to the engine. -/
def dropHandle (E : Engine S.State) (kind : ResourceKind) (handle : Value) : Host S Unit :=
  match kind with
  | .scope => onEngine (E.dropScope handle)
  | .script => onEngine (E.dropScript handle)
  | .block => onEngine (E.dropBlock handle)
  | .evaluator => onEngine (E.dropEvaluator handle)
  | .args => fail (.shape .noSuchPart)

/-- Empties the owned list and gives what was in it. -/
def takeOwned (id : ObjectId) : Host S (List Value) := do
  let n ← node id
  modifyNode id fun n => { n with owned := [] }
  pure n.owned

/-- Something owned as a resource, which can be destroyed. The arguments of a call cannot, nor can what
is no object. -/
def resource (v : Value) : Host S (ObjectId × Node) := do
  match v with
  | .object ref =>
    match (← get).nodes[ref.id]? with
    | some n =>
      if ref.className = n.role.kind.className ∧ n.role.kind ≠ .args then pure (ref.id, n)
      else fail (.shape .noSuchPart)
    | none => fail (.shape .noSuchPart)
  | _ => fail (.shape .noSuchPart)

/-- Releases the taken resources, the last adopted first, and skips those already destroyed. -/
def releaseEach (destroy : ObjectId → Host S Unit) : List Value → Host S Unit
  | [] => pure ()
  | v :: rest => do
    let (id, n) ← resource v
    if n.handle.isSome then destroy id else pure ()
    releaseEach destroy rest

def releaseOwnedWith (destroy : ObjectId → Host S Unit) (id : ObjectId) : Host S Unit := do
  let owned ← takeOwned id
  releaseEach destroy owned.reverse

/-- A resource enters with its owned list full at most once, so the nesting is bounded by the number of
objects. -/
def destroyWithin (E : Engine S.State) : Nat → ObjectId → Host S Unit
  | 0, _ => fail .tooDeep
  | fuel + 1, id => do
    let handle ← liveHandle id
    releaseOwnedWith (destroyWithin E fuel) id
    modifyNode id fun n => { n with handle := none }
    let role := (← node id).role
    write (.releasing role.kind handle)
    dropHandle E role.kind handle
    match role.parent? with
    | some parent => disown parent (refOf id role.kind)
    | none => pure ()

/-- Releases everything a resource owns, then the resource itself. -/
def destroy (E : Engine S.State) (id : ObjectId) : Host S Unit := do
  destroyWithin E ((← get).nodes.length + 1) id

def releaseOwned (E : Engine S.State) (id : ObjectId) : Host S Unit :=
  releaseOwnedWith (destroy E) id

/-- Leaving the block of statements that a resource was opened for. -/
def close (E : Engine S.State) (id : ObjectId) : Host S Unit := do
  if (← node id).handle.isSome then destroy E id else pure ()

end EngineHost.Host
