import EngineHost.Host.Ownership

/-!
The arguments of one call of a host function. They are decoded when they are first read and kept;
callbacks among them belong to the call and are released with it, whether they were read or not.
-/
namespace EngineHost.Host

variable {S : Embedding}

def callOf (id : ObjectId) : Host S Call := do
  match (← node id).role with
  | .args call => pure call
  | _ => fail (.shape .noSuchPart)

def liveCall (id : ObjectId) : Host S Call := do
  checkLive id
  callOf id

def symbolsOf (scope : ObjectId) : Host S (Value × Registry × SymbolTable) := do
  match (← node scope).role with
  | .scope issued types symbols => pure (issued, types, symbols)
  | _ => fail (.shape .noSuchPart)

/-- The symbol of a name in a scope, remembered there. -/
def internIn (E : Engine S.State) (scope : ObjectId) (name : Value) : Host S Value := do
  let (issued, types, symbols) ← symbolsOf scope
  let (symbol, symbols) ← symbols.intern (fun n => onEngine (E.internSymbol issued n)) name
  setRole scope (.scope issued types symbols)
  check symbol

/-- The name behind a symbol in a scope, remembered there. -/
def nameIn (E : Engine S.State) (scope : ObjectId) (symbol : Value) : Host S Value := do
  let (issued, types, symbols) ← symbolsOf scope
  let (name, symbols) ← symbols.nameOf (fun s => onEngine (E.lookupSymbol issued s)) symbol
  setRole scope (.scope issued types symbols)
  check name

def newArgs (E : Engine S.State) (scope : ObjectId) (signature : Signature) (raw : List RawArg) :
    Host S ObjectId := do
  let entries ← raw.mapM fun r => do pure (Entry.mk (← nameIn E scope r.symbol) r.value r.block)
  addNode (.args ⟨signature, entries, [], false⟩) none

namespace Args

/-- The value at a position, decoded once. -/
def valueAt (id : ObjectId) (position : Nat) : Host S Value := do
  let call ← callOf id
  match call.decoded.lookup position, call.entries[position]? with
  | some v, _ => pure v
  | none, none => fail (.shape .emptySequence)
  | none, some entry => do
    let v ← receive id entry.value entry.block
    let call ← callOf id
    setRole id (.args { call with decoded := call.decoded ++ [(position, v)] })
    pure v

/-- Where the entries of a name stand. -/
def positions (name : Value) (entries : List Entry) : List Nat :=
  (List.range entries.length).filter fun i => entries[i]?.any (·.name.equals name)

def valuesAt (id : ObjectId) : List Nat → Host S (List Value)
  | [] => pure []
  | i :: rest => do
    let v ← valueAt id i
    return v :: (← valuesAt id rest)

/-- The value of a name, the list of all of them if the name may repeat, or null if it was not given. -/
def lookup (id : ObjectId) (name : Value) : Host S Value := do
  let call ← liveCall id
  match call.signature.arg? name with
  | none => fail (.host (.unknownArgument name (← check call.signature.name)))
  | some spec =>
    match positions name call.entries with
    | [] => pure .null
    | first :: rest =>
      if spec.variadic then return .list (← valuesAt id (first :: rest)) else valueAt id first

/-- A null value counts as missing. -/
def demand (id : ObjectId) (name : Value) : Host S Value := do
  match ← lookup id name with
  | .null => fail (.host (.missingArgument name))
  | v => pure v

def maybe (id : ObjectId) (name fallback : Value) : Host S Value := do
  match ← lookup id name with
  | .null => pure fallback
  | v => pure v

def size (id : ObjectId) : Host S Nat := do
  return (← liveCall id).entries.length

def contains (id : ObjectId) (name : Value) : Host S Bool := do
  return (← liveCall id).entries.any (·.name.equals name)

/-- A new iteration; nothing is looked at before its first step. -/
def iterate (id : ObjectId) : Host S Value :=
  modifyGet fun w =>
    (.object ⟨w.cursors.length, "generator"⟩,
     { w with cursors := w.cursors ++ [⟨id, 0, false, false⟩] })

def setCursor (cursor : Nat) (c : Cursor) : Host S Unit :=
  modify fun w => { w with cursors := w.cursors.modify cursor fun _ => c }

/-- The next name and value, or nothing at the end. Only the first step looks at whether the arguments
have been released; a step that fails ends the iteration. -/
def next (cursor : Nat) : Host S (Option Value) := do
  match (← get).cursors[cursor]? with
  | none => fail (.shape .wrongKind)
  | some c =>
    if c.finished then pure none
    else
      setCursor cursor { c with finished := true }
      if c.started then pure () else checkLive c.args
      match (← callOf c.args).entries[c.position]? with
      | none => pure none
      | some entry => do
        let v ← valueAt c.args c.position
        setCursor cursor { c with position := c.position + 1, started := true }
        return some (.tuple [entry.name, v])

/-- Every name and value in the order they were given. -/
def items (id : ObjectId) : Host S Value := do
  let call ← liveCall id
  let values ← valuesAt id (List.range call.entries.length)
  return .list ((call.entries.zip values).map fun (entry, v) => .tuple [entry.name, v])

/-- The callback handles of entries that were never read. -/
def unreadBlocks (call : Call) : List Value :=
  (List.range call.entries.length).filterMap fun i =>
    match call.decoded.lookup i, call.entries[i]? with
    | none, some entry =>
      match entry.block with
      | .null => none
      | handle => some handle
    | _, _ => none

def dropAll (E : Engine S.State) : List Value → Host S Unit
  | [] => pure ()
  | handle :: rest => do
    onEngine (E.dropBlock handle)
    dropAll E rest

/-- Releases the callbacks that were read, then the handles of those that were not. -/
def release (E : Engine S.State) (id : ObjectId) : Host S Unit := do
  let call ← liveCall id
  setRole id (.args { call with released := true })
  releaseOwned E id
  dropAll E (unreadBlocks (← callOf id))

end Args

end EngineHost.Host
