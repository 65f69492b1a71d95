import EngineHost.Config.Surroundings
import EngineHost.Text.UpperCase
import EngineHost.Sorting
import EngineHost.Yaml.Source

/-!
The settings of a program. They come from the first configuration file found: one that is asked for, one
that a variable names, or the user's own. A variable overrides the engine of any file.
-/
namespace EngineHost

open Text Yaml

structure Settings where
  /-- A text. -/
  engine : Option Value
  level : LogLevel
  /-- The file the settings were read from. -/
  source : Option Path

namespace Settings

def refuse {α : Type} (problem : ConfigProblem) : Checked α :=
  throw (.host (.configuration problem))

/-- The configuration file, if there is one. A file that is named has to exist. -/
def findFile (s : Surroundings) (path : Option String) : Checked (Option Path) := do
  match path, s.setting? "CORVUS_CONFIG" with
  | some path, _ => do
    let p ← s.expandHome (.ofText path)
    if s.contains p then return some p else refuse (.missingFile p.text)
  | none, some path => do
    let p ← s.expandHome (.ofText path)
    if s.contains p then return some p else refuse (.missingEnvironmentFile p.text)
  | none, none => do
    let p ← s.userConfigPath
    if s.isFile p then return some p else return none

/-- The files that the settings may come from. -/
def possibleFiles (s : Surroundings) (path : Option String) : List Path :=
  let named := [path, s.setting? "CORVUS_CONFIG"].filterMap fun path =>
    path.bind fun path => (s.expandHome (.ofText path)).toOption
  named ++ s.userConfigPath.toOption.toList

def readDocument (p : Path) (content : ByteArray) : Checked Document :=
  match (Source.ofBytes content).read with
  | .ok d => pure d
  | .error .malformed | .error .unfinished => refuse (.invalidYaml p.text)
  | .error (.scalar fault) | .error (.badNumber _ fault) => throw (.shape fault)
  | .error .tooDeep => throw .tooDeep

def shown {α : Type} : Document.Shown α → Checked α
  | .ok a => pure a
  | .error fault => throw (.shape fault)

def isNamed (name : String) (key : Datum) : Bool :=
  key.equals (.ofString name)

def unknownKeys (entries : List (Datum × Datum)) : List Datum :=
  (entries.map Prod.fst).filter fun key => !(isNamed "engine" key || isNamed "log_level" key)

/-- The entries of a configuration. All keys have to be known; unknown ones are listed in order. -/
def entriesOf (p : Path) (d : Document) : Checked (List (Datum × Datum)) :=
  match d.entries? with
  | none => refuse (.notAMapping p.text)
  | some entries =>
    if (unknownKeys entries).isEmpty then pure entries
    else
      match Sorting.sort? Datum.less? (unknownKeys entries) with
      | some sorted => do
        let keys ← shown (sorted.mapM d.display)
        refuse (.unknownKeys p.text (bracketed keys))
      | none => throw (.shape .wrongKind)

/-- The text of an entry that is there and not null. -/
def textAt? (d : Document) (key : String) (entries : List (Datum × Datum)) :
    Checked (Option Value) :=
  match (entries.find? fun (known, _) => isNamed key known).map Prod.snd with
  | none | some .null => pure none
  | some v => some <$> shown (d.text v)

/-- The level of a name in any letter case, or the standard level. -/
def levelOf (name : Option Value) : Checked LogLevel :=
  match name.map fun v => upper v.text with
  | none => pure .warning
  | some name =>
    match LogLevel.ofText? name with
    | some level => pure level
    | none => refuse (.unknownLevel name)

/-- A variable overrides the engine. -/
def combine (s : Surroundings) (source : Option Path) (engine level : Option Value) :
    Checked Settings :=
  return ⟨((s.setting? "CORVUS_ENGINE").map Value.str).or engine, ← levelOf level, source⟩

def load (s : Surroundings) (path : Option String) : Checked Settings := do
  match ← findFile s path with
  | none => combine s none none none
  | some p => do
    let d ← s.content p >>= readDocument p
    let entries ← entriesOf p d
    combine s (some p) (← textAt? d "engine" entries) (← textAt? d "log_level" entries)

end Settings

end EngineHost
