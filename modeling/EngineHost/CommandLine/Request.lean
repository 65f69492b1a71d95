import EngineHost.CommandLine.Options

/-!
What a command line asks for: a source to evaluate with inputs, or a source to type.
-/
namespace EngineHost.CommandLine

inductive Command where
  | eval (inputs : List String)
  | typeOf
  deriving DecidableEq, Repr

structure Request where
  engine : Option String
  config : Option String
  verbose : Bool
  command : Command
  source : String
  deriving DecidableEq, Repr

namespace Request

def helpOption : OptionSpec := ⟨["-h", "--help"], .help⟩

def mainGrammar : Grammar where
  options :=
    [ helpOption, ⟨["--engine"], .value⟩, ⟨["--config"], .value⟩, ⟨["-v", "--verbose"], .switch⟩ ]
  positional := .rest

def evalGrammar : Grammar where
  options := [helpOption, ⟨["--input", "-i"], .value⟩]
  positional := .one

def typeOfGrammar : Grammar where
  options := [helpOption]
  positional := .one

/-- A command with its own words, and whether some of them were left over. -/
def readCommand (name : String) (words : List String) : Except Stop (Command × List String × Bool) :=
  match name with
  | "eval" => do
    let (a, taken) ← evalGrammar.read words
    return (.eval (a.all "--input"), taken, a.hasLeftover)
  | "typeof" => do
    let (a, taken) ← typeOfGrammar.read words
    return (.typeOf, taken, a.hasLeftover)
  | _ => .error .usage

/-- Words left over are an error, but only after a request for help. -/
def ofArgs (args : List String) : Except Stop Request := do
  let (a, words) ← mainGrammar.read args
  let (command, taken, hasLeftover) ← readCommand (words.headD "") words.tail
  if a.hasLeftover || hasLeftover then .error .usage
  else
    return {
      engine := a.last? "--engine"
      config := a.last? "--config"
      verbose := !(a.all "-v").isEmpty
      command
      source := taken.headD "" }

end Request

end EngineHost.CommandLine
