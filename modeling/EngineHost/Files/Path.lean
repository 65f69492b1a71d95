import EngineHost.Failure

/-!
Names of files. Empty parts and parts that mean the place itself are dropped when a path is read; a part
that means the place above stays.
-/
namespace EngineHost

structure Path where
  /-- Empty for a relative path; else one slash, or exactly two. -/
  root : String
  parts : List String
  deriving DecidableEq, Repr

namespace Path

def rootOf (text : List Char) : String :=
  match (text.takeWhile (· == '/')).length with
  | 0 => ""
  | 2 => "//"
  | _ => "/"

def isPart (s : String) : Bool :=
  s != "" && s != "."

def ofText (text : String) : Path :=
  ⟨rootOf text.toList, (text.splitOn "/").filter isPart⟩

/-- The place itself is a dot. -/
def text (p : Path) : String :=
  let s := p.root ++ "/".intercalate p.parts
  if s.isEmpty then "." else s

def extend (p : Path) (parts : List String) : Path :=
  { p with parts := p.parts ++ parts }

def dropSlashes (s : String) : String :=
  String.ofList (s.toList.reverse.dropWhile (· == '/')).reverse

/-- The directory that a tilde stands for. -/
def homeDirectory (home : String) : String :=
  let s := dropSlashes home
  if s.isEmpty then "/" else s

/-- What a first part with a tilde stands for; only the user's own home is known. -/
def home (home? : Option String) (part : String) : Checked Path :=
  match home? with
  | some h =>
    if part == "~" && !(homeDirectory h).startsWith "~" then pure (ofText (homeDirectory h))
    else throw (.shape .noHome)
  | none => throw (.shape .noHome)

/-- A tilde counts only at the front of a relative path. -/
def expandHome (home? : Option String) (p : Path) : Checked Path :=
  match p.root, p.parts with
  | "", first :: rest =>
    if first.startsWith "~" then return (← home home? first).extend rest else pure p
  | _, _ => pure p

end Path

end EngineHost
