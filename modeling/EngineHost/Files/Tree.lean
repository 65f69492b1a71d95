import EngineHost.Files.Path

/-!
The files below the current directory. What lies above it is not known, except that it is there.
-/
namespace EngineHost

inductive FileEntry where
  | file (content : ByteArray)
  | directory

/-- Entries by their parts; a directory is there as soon as something is in it. -/
structure FileTree where
  entries : List (List String × FileEntry)

namespace FileTree

def isDirectory (t : FileTree) (parts : List String) : Bool :=
  parts.isEmpty || t.entries.any fun (known, _) => parts.isPrefixOf known && known != parts

def at? (t : FileTree) (parts : List String) : Option FileEntry :=
  match t.entries.lookup parts with
  | some entry => some entry
  | none => if t.isDirectory parts then some .directory else none

/-- Walks from a directory, given by its parts in reverse order; `none` is a place above the current
directory. -/
def walk (t : FileTree) : Option (List String) → List String → Option FileEntry
  | none, [] => some .directory
  | none, part :: rest => if part == ".." then walk t none rest else none
  | some here, [] => t.at? here.reverse
  | some here, part :: rest =>
    match t.at? here.reverse with
    | some .directory =>
      if part == ".." then
        match here with
        | [] => walk t none rest
        | _ :: above => walk t (some above) rest
      else walk t (some (part :: here)) rest
    | _ => none

/-- What stands at a path. -/
def find? (t : FileTree) (p : Path) : Option FileEntry :=
  if p.root.isEmpty then t.walk (some []) p.parts else t.walk none p.parts

end FileTree

end EngineHost
