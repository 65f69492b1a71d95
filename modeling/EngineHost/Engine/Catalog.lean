import EngineHost.Failure
import EngineHost.Text.Quoted

/-!
Finding an engine by its specification: the name of a module and, after a colon, the name of a factory
in it. `ε` is what a program knows of an engine.
-/
namespace EngineHost

open Text

/-- What calling a factory gives. -/
inductive Product (ε : Type) where
  | engine (className : String) (engine : ε)
  | value (v : Value)

/-- Something that can be called, or a value that cannot. -/
inductive Attribute (ε : Type) where
  | factory (product : Product ε)
  | value (v : Value)

structure Module (ε : Type) where
  name : String
  attributes : List (String × Attribute ε)

/-- The modules that can be imported. -/
abbrev Catalog (ε : Type) := List (Module ε)

/-- A loaded engine and what its class is called. -/
structure LoadedEngine (ε : Type) where
  className : String
  engine : ε

namespace Catalog

variable {ε : Type}

def find? (catalog : Catalog ε) (name : String) : Option (Module ε) :=
  List.find? (fun (m : Module ε) => m.name == name) catalog

/-- The name up to its last dot, if it has one. -/
def parentOf? (name : String) : Option String :=
  match name.toList.reverse.dropWhile (· != '.') with
  | _ :: parent => some (String.ofList parent.reverse)
  | [] => none

def missing (name : String) : String :=
  "No module named " ++ quoted name

/-- Why an unknown module cannot be imported: its outermost parent that is missing, or a parent that has
no modules inside. The fuel bounds the number of parents. -/
def missingReason (catalog : Catalog ε) : Nat → String → String
  | 0, name => missing name
  | fuel + 1, name =>
    match parentOf? name with
    | none => missing name
    | some parent =>
      match catalog.find? parent with
      | some _ => missing name ++ "; " ++ quoted parent ++ " is not a package"
      | none => missingReason catalog fuel parent

/-- A name is looked up as a whole. One that starts with a dot is relative to nothing. -/
def importModule (catalog : Catalog ε) (name : String) : Checked (Module ε) :=
  if name.startsWith "." then throw (.shape .wrongKind)
  else if name.isEmpty then throw (.shape .emptyName)
  else
    match catalog.find? name with
    | some m => pure m
    | none =>
      throw (.host (.configuration (.cannotImport name (catalog.missingReason name.length name))))

/-- The attribute that every module has: its own name. -/
def ownName? (m : Module ε) (name : String) : Option (Attribute ε) :=
  if name == "__name__" then some (.value (.str m.name)) else none

def attribute? (m : Module ε) (name : String) : Option (Attribute ε) :=
  (m.attributes.lookup name).orElse fun _ => ownName? m name

/-- The parts before and after the first colon; the default factory when there is none. -/
def splitSpec (spec : String) : String × String :=
  let cs := spec.toList
  match cs.dropWhile (· != ':') with
  | _ :: factory => (String.ofList (cs.takeWhile (· != ':')), String.ofList factory)
  | [] => (spec, "create_engine")

def configurationError {α : Type} (problem : ConfigProblem) : Checked α :=
  throw (.host (.configuration problem))

/-- Calls the factory found under an attribute. -/
def produce (module factory : String) : Option (Attribute ε) → Checked (Product ε)
  | some (.factory product) => pure product
  | _ => configurationError (.noFactory module factory)

/-- The engine that a text names. -/
def loadNamed (catalog : Catalog ε) (spec : String) : Checked (LoadedEngine ε) := do
  let (module, factory) := splitSpec spec
  let m ← catalog.importModule module
  match ← produce module factory (attribute? m factory) with
  | .engine className engine => pure ⟨className, engine⟩
  | .value v => configurationError (.notAnEngine spec v.className)

/-- What counts as false names no engine, and only texts name any. -/
def load (catalog : Catalog ε) (spec : Value) : Checked (LoadedEngine ε) :=
  if !spec.isTruthy then configurationError .noEngine
  else
    match spec with
    | .list _ | .tuple _ | .mapping _ _ => throw (.shape .noSuchPart)
    | v => if v.isText then catalog.loadNamed v.text else throw (.shape .wrongKind)

end Catalog

end EngineHost
