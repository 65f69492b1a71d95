import EngineHost.Text.Letter
import EngineHost.Yaml.Cursor

/-!
The pieces of a YAML text: its marks and words, and the begin and end of its blocks, which follow from
the indentation.
-/
namespace EngineHost.Yaml

open Text

/-- A tag as it is written: a handle that stands for the front of a name, and the rest of the name. -/
structure WrittenTag where
  handle? : Option String
  suffix : String

inductive Directive where
  | version (major : Nat)
  | handle (name front : String)
  | other

inductive Token where
  | streamEnd
  | directive (d : Directive)
  | documentStart
  | documentEnd
  | blockSequenceStart
  | blockMappingStart
  | blockEnd
  | flowSequenceStart
  | flowSequenceEnd
  | flowMappingStart
  | flowMappingEnd
  | blockEntry
  | flowEntry
  | key
  | value
  | reference (name : String)
  | anchor (name : String)
  | tag (written : WrittenTag)
  /-- `isPlain` for a scalar without quotes. -/
  | scalar (text : List Letter) (isPlain : Bool)

end EngineHost.Yaml
