import EngineHost.Files.Tree

/-!
What a program finds around it: files, environment variables and the kind of system.
-/
namespace EngineHost

structure Surroundings where
  /-- What stands at a path. -/
  files : Path → Option FileEntry
  environment : List (String × String)
  isWindows : Bool

namespace Surroundings

def contains (s : Surroundings) (p : Path) : Bool :=
  (s.files p).isSome

def isFile (s : Surroundings) (p : Path) : Bool :=
  match s.files p with
  | some (.file _) => true
  | _ => false

/-- The bytes of a file. -/
def content (s : Surroundings) (p : Path) : Checked ByteArray :=
  match s.files p with
  | some (.file content) => pure content
  | some .directory => throw (.shape .isDirectory)
  | none => throw (.shape .noSuchFile)

def valueOf? (s : Surroundings) (name : String) : Option String :=
  s.environment.lookup name

/-- A variable that is set to something. -/
def setting? (s : Surroundings) (name : String) : Option String :=
  (s.valueOf? name).filter (!·.isEmpty)

def expandHome (s : Surroundings) (p : Path) : Checked Path :=
  p.expandHome (s.valueOf? "HOME")

/-- The directory that keeps the settings of the user's programs. -/
def settingsDirectory (s : Surroundings) : Checked Path :=
  if s.isWindows then s.expandHome (.ofText ((s.valueOf? "APPDATA").getD "~"))
  else return (← s.expandHome (.ofText "~")).extend [".config"]

def userConfigPath (s : Surroundings) : Checked Path :=
  return (← s.settingsDirectory).extend ["corvus", "config.yaml"]

end Surroundings

end EngineHost
