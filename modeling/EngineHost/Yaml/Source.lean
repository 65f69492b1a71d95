import EngineHost.Yaml.Composition
import EngineHost.Yaml.Construction

/-!
Reading a document from the bytes of a file. The file is looked at piece by piece, and a piece only when
the text before it has been split into tokens. So a fault at the front is found before one further on,
be it a character that may not stand in a text or bytes that are no text at all.
-/
namespace EngineHost.Yaml

/-- Characters that may stand in a text. -/
def isAllowed (c : Char) : Bool :=
  let n := c.toNat
  n == 0x9 || n == 0xA || n == 0xD || (0x20 ≤ n && n ≤ 0x7E) || n == 0x85 ||
    (0xA0 ≤ n && n ≤ 0xFFFD) || 0x10000 ≤ n

/-- A carriage return, also together with a line feed after it, is a line feed. -/
def unifyBreaks : List Char → List Char
  | '\r' :: '\n' :: rest => '\n' :: unifyBreaks rest
  | '\r' :: rest => '\n' :: unifyBreaks rest
  | c :: rest => c :: unifyBreaks rest
  | [] => []

/-- The characters of a file as far as they are looked at before bytes that are no text. -/
structure Source where
  text : List Char
  /-- Bytes that are no text come next. -/
  isBroken : Bool

namespace Source

/-- Bytes are decoded, and the first characters are looked at, in pieces of this size. -/
def firstPiece : Nat := 8192

def laterPiece : Nat := 4096

/-- The end of the piece with a place in it: a long piece comes first. -/
def pieceEnd (index : Nat) : Nat :=
  if index ≤ firstPiece then firstPiece
  else firstPiece + (index - firstPiece + laterPiece - 1) / laterPiece * laterPiece

/-- The values that the second byte of a character may have. -/
def isSecondByte (first second : UInt8) : Bool :=
  match first with
  | 0xE0 => 0xA0 ≤ second && second ≤ 0xBF
  | 0xED => 0x80 ≤ second && second ≤ 0x9F
  | 0xF0 => 0x90 ≤ second && second ≤ 0xBF
  | 0xF4 => 0x80 ≤ second && second ≤ 0x8F
  | _ => 0x80 ≤ second && second ≤ 0xBF

/-- Bytes that begin a character and do not end it. -/
def isBegun : List UInt8 → Bool
  | [a] => 0xC2 ≤ a && a ≤ 0xF4
  | [a, b] => 0xE0 ≤ a && a ≤ 0xF4 && isSecondByte a b
  | [a, b, c] => 0xF0 ≤ a && a ≤ 0xF4 && isSecondByte a b && 0x80 ≤ c && c ≤ 0xBF
  | _ => false

/-- The characters in the first bytes; the last of them may be cut off. -/
def charsWithin (content : ByteArray) (count : Nat) : Option (List Char) :=
  (List.range 4).findSome? fun cut =>
    if cut = 0 || isBegun (content.extract (count - cut) count).toList then
      (String.fromUTF8? (content.extract 0 (count - cut))).map String.toList
    else none

/-- The characters in as many whole pieces of bytes as can be decoded. -/
def charsInPieces (content : ByteArray) : Nat → List Char
  | 0 => []
  | pieces + 1 =>
    (charsWithin content (firstPiece * (pieces + 1))).getD (charsInPieces content pieces)

/-- The characters before the bytes that are no text. A character that is cut off by the end is one only
there. -/
def charsBefore (content : ByteArray) : List Char :=
  (charsWithin content content.size).getD (charsInPieces content (content.size / firstPiece))

/-- A carriage return at the end is not known to be a break of its own yet. -/
def withoutOpenReturn (cs : List Char) : List Char :=
  if cs.getLast? == some '\r' then cs.dropLast else cs

/-- Only whole pieces of characters are looked at before the bytes that are no text. -/
def wholePieces (cs : List Char) : List Char :=
  if cs.length < firstPiece then []
  else cs.take (firstPiece + (cs.length - firstPiece) / laterPiece * laterPiece)

def ofBytes (content : ByteArray) : Source :=
  match String.fromUTF8? content with
  | some text => ⟨unifyBreaks text.toList, false⟩
  | none => ⟨wholePieces (unifyBreaks (withoutOpenReturn (charsBefore content))), true⟩

def isAllowedUpTo (s : Source) (index : Nat) : Bool :=
  (s.text.take index).all isAllowed

/-- The data of a source with at most one document; no document is null. -/
def read (s : Source) : Reading Document :=
  let bad : Reading Document := badScalar .notUtf8
  if s.isBroken && s.text.isEmpty then bad
  else
    match Composer.run s.text with
    | (.error (.badNumber index fault), _) =>
      if s.isAllowedUpTo (pieceEnd index) then badScalar fault else malformed
    | (.error e, _) =>
      match e, s.text.all isAllowed, s.isBroken with
      | _, false, _ => malformed
      | .unfinished, true, true => bad
      | e, true, _ => .error e
    | (.ok root, state) =>
      if !s.text.all isAllowed then malformed
      else if s.isBroken then bad
      else state.graph.toDocument root

end Source

end EngineHost.Yaml
