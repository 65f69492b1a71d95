import EngineHost.Text.Digit

/-!
Reading the words of a command line by a grammar of options and one positional argument. Long options
may be shortened as long as they stay unambiguous; short ones may be joined, the last with its value. No
option of a word takes effect before the whole word is understood.
-/
namespace EngineHost.CommandLine

open Text

/-- Why reading ends early. -/
inductive Stop where
  | help
  | usage
  deriving DecidableEq, Repr

inductive OptionKind where
  | help
  | switch
  | value
  deriving DecidableEq, Repr

structure OptionSpec where
  /-- Its first name is the one it is known by. -/
  names : List String
  kind : OptionKind

def OptionSpec.name (o : OptionSpec) : String :=
  o.names.headD ""

/-- One word, or a word with all that come after it. -/
inductive Positional where
  | one
  | rest
  deriving DecidableEq, Repr

structure Grammar where
  options : List OptionSpec
  positional : Positional

/-- An option as it is written: under a name, perhaps with more in the same word. -/
structure OptionUse where
  option : OptionSpec
  name : String
  attached : Option String

inductive WordRole where
  | text
  /-- The mark after which no word is an option. -/
  | separator
  | option (use : OptionUse)
  | unknownOption

structure Word where
  raw : String
  role : WordRole

/-- What was read: the values of options in their order, and the words of the positional argument. -/
structure Arguments where
  values : List (String × String)
  positional : Option (List String)
  /-- There were words that nothing asks for. -/
  hasLeftover : Bool

namespace Grammar

def named (g : Grammar) : List (String × OptionSpec) :=
  g.options.flatMap fun o => o.names.map (·, o)

def find? (g : Grammar) (name : String) : Option OptionSpec :=
  g.named.lookup name

/-- The part before the first equals sign, and what is attached by it. -/
def splitValue (word : String) : String × Option String :=
  let cs := word.toList
  match cs.dropWhile (· != '=') with
  | _ :: value => (String.ofList (cs.takeWhile (· != '=')), some (String.ofList value))
  | [] => (word, none)

def isDash (c : Char) : Bool := c == '-'

/-- A short option: one dash in front. -/
def isShort (name : String) : Bool :=
  (name.toList.drop 1).head?.any (!isDash ·)

/-- All options that a word may be short for. -/
def candidates (g : Grammar) (word : String) : List OptionUse :=
  if isShort word then
    let short := String.ofList (word.toList.take 2)
    let value := String.ofList (word.toList.drop 2)
    g.named.filterMap fun (name, o) =>
      if name == short then some ⟨o, name, some value⟩
      else if name.startsWith word then some ⟨o, name, none⟩
      else none
  else
    let (front, attached) := splitValue word
    g.named.filterMap fun (name, o) =>
      if name.startsWith front then some ⟨o, name, attached⟩ else none

def isDigit (c : Char) : Bool :=
  (digitValue? c).isSome

/-- Digits, perhaps with a point before the last of them. -/
def isUnsignedNumber (body : List Char) : Bool :=
  match body.dropWhile isDigit with
  | [] => !body.isEmpty
  | '.' :: part => !part.isEmpty && part.all isDigit
  | _ => false

/-- A minus sign and a number; a line feed may end it. -/
def isNegativeNumber (word : String) : Bool :=
  match word.toList with
  | '-' :: body =>
    isUnsignedNumber (if body.getLast? == some '\n' then body.dropLast else body)
  | _ => false

/-- Whether a word that is no option of the grammar is meant as a text. -/
def looksLikeText (word : String) : Bool :=
  isNegativeNumber word || word.toList.contains ' '

def guess (g : Grammar) (word : String) : Except Stop WordRole :=
  match g.candidates word with
  | [use] => .ok (.option use)
  | [] => .ok (if looksLikeText word then .text else .unknownOption)
  | _ => .error .usage

def roleOf (g : Grammar) (word : String) : Except Stop WordRole :=
  if !word.startsWith "-" || word == "-" then .ok .text
  else
    match g.find? word with
    | some o => .ok (.option ⟨o, word, none⟩)
    | none =>
      let (front, attached) := splitValue word
      match g.find? front, attached with
      | some o, some value => .ok (.option ⟨o, front, some value⟩)
      | _, _ => g.guess word

/-- The roles of all words. -/
def words (g : Grammar) : List String → Except Stop (List Word)
  | [] => .ok []
  | word :: rest =>
    if word == "--" then .ok (⟨word, .separator⟩ :: rest.map fun w => ⟨w, .text⟩)
    else do
      let role ← g.roleOf word
      return ⟨word, role⟩ :: (← g.words rest)

/-- What one word uses: options with their values, and the words after it. -/
structure Use where
  found : List (OptionSpec × String)
  rest : List Word

/-- A short option that takes no value may be followed by others in the same word, also after an equals
sign. -/
def uses (g : Grammar) : Nat → OptionUse → List Word → Except Stop Use
  | 0, _, _ => .error .usage
  | fuel + 1, use, rest =>
    match use.option.kind, use.attached, rest with
    | .value, some value, _ => .ok ⟨[(use.option, value)], rest⟩
    | .value, none, ⟨value, .text⟩ :: rest => .ok ⟨[(use.option, value)], rest⟩
    | .value, none, _ => .error .usage
    | _, none, _ => .ok ⟨[(use.option, "")], rest⟩
    | _, some text, _ =>
      match isShort use.name, text.toList with
      | true, c :: more =>
        let name := String.ofList ['-', c]
        match g.find? name with
        | none => .error .usage
        | some o => do
          let attached := if more.isEmpty then none else some (String.ofList more)
          let others ← g.uses fuel ⟨o, name, attached⟩ rest
          return { others with found := (use.option, "") :: others.found }
      | _, _ => .error .usage

def record (a : Arguments) : List (OptionSpec × String) → Except Stop Arguments
  | [] => .ok a
  | (o, value) :: rest =>
    match o.kind with
    | .help => .error .help
    | _ => record { a with values := a.values ++ [(o.name, value)] } rest

/-- The positional argument at the front of the words, and the words after it. -/
def takePositional? (g : Grammar) (words : List Word) : Option (List String × List Word) :=
  match g.positional, words with
  | .rest, ⟨_, .text⟩ :: _ => some (words.map (·.raw), [])
  | .rest, ⟨_, .separator⟩ :: ⟨_, .text⟩ :: _ => some (words.map (·.raw), [])
  | .one, ⟨word, .text⟩ :: ⟨_, .separator⟩ :: rest => some ([word], rest)
  | .one, ⟨word, .text⟩ :: rest => some ([word], rest)
  | .one, ⟨_, .separator⟩ :: ⟨word, .text⟩ :: rest => some ([word], rest)
  | _, _ => none

/-- Every step passes at least one word. -/
def fold (g : Grammar) : Nat → Arguments → List Word → Except Stop Arguments
  | 0, a, _ => .ok a
  | _, a, [] => .ok a
  | fuel + 1, a, word :: rest =>
    match word.role with
    | .option use => do
      let used ← g.uses (word.raw.length + 1) use rest
      g.fold fuel (← record a used.found) used.rest
    | .unknownOption => g.fold fuel { a with hasLeftover := true } rest
    | _ =>
      match a.positional, g.takePositional? (word :: rest) with
      | none, some (taken, rest) => g.fold fuel { a with positional := some taken } rest
      | _, _ => g.fold fuel { a with hasLeftover := true } rest

/-- Reads all words. The positional argument has to be there. -/
def read (g : Grammar) (args : List String) : Except Stop (Arguments × List String) := do
  let words ← g.words args
  let a ← g.fold words.length ⟨[], none, false⟩ words
  match a.positional with
  | some taken => return (a, taken)
  | none => .error .usage

end Grammar

namespace Arguments

/-- All values of an option. -/
def all (a : Arguments) (name : String) : List String :=
  (a.values.filter (·.1 == name)).map Prod.snd

/-- The last value of an option. -/
def last? (a : Arguments) (name : String) : Option String :=
  (a.all name).getLast?

end Arguments

end EngineHost.CommandLine
