import EngineHost.Diagnostic.Basic
import EngineHost.LogLevel

/-!
Everything that can go wrong, by cause. A `HostError` carries a diagnostic for the user of the
library; a `ShapeFault` is a value of the wrong shape that stopped an operation; the rest is raised by
the engine or by the host program itself.
-/
namespace EngineHost

/-- What an owner of resources is. -/
inductive ResourceKind
  | scope
  | script
  | block
  | evaluator
  | args
  deriving DecidableEq, Repr

def ResourceKind.text : ResourceKind → String
  | .scope => "namespace"
  | .script => "script"
  | .block => "block"
  | .evaluator => "evaluator"
  | .args => "args"

/-- The name of the class of such owners. -/
def ResourceKind.className : ResourceKind → String
  | .scope => "Namespace"
  | .script => "Script"
  | .block => "Block"
  | .evaluator => "Evaluator"
  | .args => "Args"

/-- Why a function declaration is refused. -/
inductive BuilderProblem
  | noArguments
  | declaredTwice (argument : Value)
  | noReturnType
  | noImplementation
  | notCallable

def BuilderProblem.text : BuilderProblem → String
  | .noArguments => "at least one argument is required"
  | .declaredTwice argument => "argument '" ++ argument.text ++ "' is declared twice"
  | .noReturnType => "no return type declared"
  | .noImplementation => "no implementation provided"
  | .notCallable => "implementation is not callable"

/-- Why a configuration or an engine specification is refused. -/
inductive ConfigProblem
  | noEngine
  | cannotImport (module reason : String)
  | noFactory (module factory : String)
  | notAnEngine (spec className : String)
  | missingFile (path : String)
  | missingEnvironmentFile (path : String)
  | invalidYaml (path : String)
  | notAMapping (path : String)
  | unknownKeys (path keys : String)
  | unknownLevel (level : String)
  deriving DecidableEq, Repr

def ConfigProblem.text : ConfigProblem → String
  | .noEngine => "no engine configured"
  | .cannotImport module reason => "cannot import engine module '" ++ module ++ "': " ++ reason
  | .noFactory module factory =>
    "engine module '" ++ module ++ "' has no factory '" ++ factory ++ "'"
  | .notAnEngine spec className => "'" ++ spec ++ "' produced " ++ className ++ ", not an Engine"
  | .missingFile path => "config file not found: " ++ path
  | .missingEnvironmentFile path => "CORVUS_CONFIG points to a missing file: " ++ path
  | .invalidYaml path => "invalid YAML in " ++ path
  | .notAMapping path => "invalid config format in " ++ path ++ ": expected a mapping at root"
  | .unknownKeys path keys => "unknown config keys in " ++ path ++ ": " ++ keys
  | .unknownLevel level =>
    "unknown log level '" ++ level ++ "' (expected one of " ++ commaSeparated (LogLevel.all.map LogLevel.text) ++ ")"

/-- Where a value stands inside another. The outermost may have a name that counts as none. -/
structure Place where
  text : String
  isNamed : Bool
  deriving DecidableEq, Repr

namespace Place

def ofText (text : String) : Place :=
  ⟨text, !text.isEmpty⟩

def top : Place := ofText ""

/-- Any value may name the outermost place. -/
def ofValue (name : Value) : Place :=
  ⟨name.text, name.isTruthy⟩

def atIndex (p : Place) (index : Nat) : Place :=
  ofText (p.text ++ "[" ++ toString index ++ "]")

/-- The bare key where the place around it has no name. -/
def atKey (p : Place) (key : String) : Place :=
  if p.isNamed then ofText (p.text ++ "." ++ key) else ofText key

/-- What a message adds about a place. -/
def phrase (p : Place) : String :=
  if p.isNamed then " at " ++ p.text else ""

end Place

inductive HostError
  /-- A value that cannot cross the boundary, and where it stood. -/
  | invalidValue (value : Value) (place : Place)
  | invalidRecordKey (key : Value) (place : Place)
  | malformedWire (value : Value)
  | unknownType (expr : Value)
  | duplicateAlias (name : Value)
  | builder (function : Value) (problem : BuilderProblem)
  | missingArgument (name : Value)
  | unknownArgument (name function : Value)
  | useAfterDestroy (kind : ResourceKind)
  /-- The engine's own message, kept as it is. -/
  | engine (message : Value)
  | configuration (problem : ConfigProblem)

namespace HostError

def describe : Value → String
  | .null => "None"
  | v => v.className ++ " " ++ v.display

def code : HostError → String
  | .invalidValue _ _ => "E101"
  | .invalidRecordKey _ _ => "E102"
  | .malformedWire _ => "E103"
  | .unknownType _ => "E201"
  | .duplicateAlias _ => "E202"
  | .builder _ _ => "E301"
  | .missingArgument _ => "E401"
  | .unknownArgument _ _ => "E402"
  | .useAfterDestroy _ => "E501"
  | .engine _ => "E601"
  | .configuration _ => "E701"

/-- An engine's message may be any value; all others are texts. -/
def message : HostError → Value
  | .invalidValue value place => .str ("cannot encode " ++ describe value ++ place.phrase)
  | .invalidRecordKey key place =>
    .str ("record keys must be strings, found " ++ describe key ++ place.phrase)
  | .malformedWire value => .str ("malformed engine value: " ++ value.display)
  | .unknownType expr =>
    .str (if expr.isText then "unknown type '" ++ expr.text ++ "'"
      else "cannot resolve type expression " ++ expr.display)
  | .duplicateAlias name => .str ("type alias '" ++ name.text ++ "' is already defined")
  | .builder function problem => .str ("function '" ++ function.text ++ "': " ++ problem.text)
  | .missingArgument name => .str ("missing argument '" ++ name.text ++ "'")
  | .unknownArgument name function =>
    .str ("function '" ++ function.text ++ "' declares no argument '" ++ name.text ++ "'")
  | .useAfterDestroy kind => .str (kind.text ++ " has been destroyed")
  | .engine message => message
  | .configuration problem => .str problem.text

def hints : HostError → List String
  | .invalidValue .null _ =>
    ["absent values cannot cross the boundary; pass an explicit value"]
  | .unknownType expr =>
    if expr.isText then ["primitive types: string, boolean, number, time, date"] else []
  | .missingArgument _ => ["use maybe(name, fallback) for arguments that may be omitted"]
  | _ => []

def diagnostic (e : HostError) : Diagnostic :=
  ⟨.str e.code, e.message, .error, none, none, e.hints.map .str⟩

/-- The error with its values replaced, all but an engine's message. -/
def mapValues (f : Value → Value) : HostError → HostError
  | .invalidValue value place => .invalidValue (f value) place
  | .invalidRecordKey key place => .invalidRecordKey (f key) place
  | .malformedWire value => .malformedWire (f value)
  | .unknownType expr => .unknownType (f expr)
  | .duplicateAlias name => .duplicateAlias (f name)
  | .builder function (.declaredTwice argument) => .builder (f function) (.declaredTwice (f argument))
  | .builder function problem => .builder (f function) problem
  | .missingArgument name => .missingArgument (f name)
  | .unknownArgument name function => .unknownArgument (f name) (f function)
  | e => e

/-- The family of an error, which is also its name when its message is empty. -/
def family : HostError → String
  | .invalidValue _ _ | .invalidRecordKey _ _ | .malformedWire _ => "InvalidValueError"
  | .unknownType _ => "UnknownTypeError"
  | .duplicateAlias _ => "DuplicateAliasError"
  | .builder _ _ => "BuilderError"
  | .missingArgument _ => "MissingArgumentError"
  | .unknownArgument _ _ => "UnknownArgumentNameError"
  | .useAfterDestroy _ => "UseAfterDestroyError"
  | .engine _ => "EngineError"
  | .configuration _ => "ConfigurationError"

end HostError

/-- A value of a shape that an operation cannot work on. -/
inductive ShapeFault
  /-- The value is of a kind without this operation. -/
  | wrongKind
  /-- A mapping has no such key. -/
  | missingKey (key : Value)
  /-- The value has no such part. -/
  | noSuchPart
  /-- The kind is right, the content is not. -/
  | badContent
  | outOfRange
  | outOfMemory
  | emptySequence
  /-- A module without a name. -/
  | emptyName
  | isDirectory
  | noSuchFile
  | notUtf8
  /-- A home directory that nobody knows. -/
  | noHome

def ShapeFault.family : ShapeFault → String
  | .wrongKind => "TypeError"
  | .missingKey _ => "KeyError"
  | .noSuchPart => "AttributeError"
  | .badContent => "ValueError"
  | .outOfRange => "OverflowError"
  | .outOfMemory => "MemoryError"
  | .emptySequence => "IndexError"
  | .emptyName => "ValueError"
  | .isDirectory => "IsADirectoryError"
  | .noSuchFile => "FileNotFoundError"
  | .notUtf8 => "UnicodeDecodeError"
  | .noHome => "RuntimeError"

inductive Failure
  | host (e : HostError)
  | shape (fault : ShapeFault)
  /-- A value refused with a message of this library. -/
  | refused (message : String)
  /-- A kind of value refused with a message of this library. -/
  | wrongType (message : String)
  /-- The engine broke off. -/
  | engineFault (message : String)
  /-- Raised by the host program. -/
  | raised (family message : String)
  /-- Calls nested beyond the limit. -/
  | tooDeep

namespace Failure

def family : Failure → String
  | .host e => e.family
  | .shape fault => fault.family
  | .refused _ => "ValueError"
  | .wrongType _ => "TypeError"
  | .engineFault _ => "EngineFault"
  | .raised family _ => family
  | .tooDeep => "RecursionError"

/-- The message as a text; an engine's message that is no text has none. -/
def message? : Failure → Option Value
  | .host e => if e.message.isText then some e.message else none
  | .shape (.missingKey key) => some (.str key.display)
  | .shape .emptyName => some (.str "Empty module name")
  | .shape _ => some (.str "")
  | .refused message | .wrongType message | .engineFault message | .raised _ message =>
    some (.str message)
  | .tooDeep => some (.str "maximum recursion depth exceeded")

end Failure

/-- Computations that may fail. -/
abbrev Checked := Except Failure

end EngineHost
