import EngineHost.Yaml.Cursor
import EngineHost.Text.Quoted

/-!
Bytes written as letters and digits, four characters for three bytes. Other characters are skipped.
-/
namespace EngineHost.Yaml.Bytes

open Text

def sextet? (c : Char) : Option Nat :=
  if 'A' ≤ c && c ≤ 'Z' then some (c.toNat - 'A'.toNat)
  else if 'a' ≤ c && c ≤ 'z' then some (c.toNat - 'a'.toNat + 26)
  else if '0' ≤ c && c ≤ '9' then some (c.toNat - '0'.toNat + 52)
  else if c == '+' then some 62
  else if c == '/' then some 63
  else none

/-- What has been read of a group of four. -/
structure Group where
  count : Nat
  bits : Nat
  padding : Nat

/-- Padding ends the bytes once it completes a group; without it the last group has to be complete. -/
def decodeFrom (g : Group) : List Char → Option (List Nat)
  | [] => if g.count = 0 then some [] else none
  | '=' :: rest =>
    if 2 ≤ g.count then
      if 4 ≤ g.count + g.padding + 1 then some [] else decodeFrom { g with padding := g.padding + 1 } rest
    else decodeFrom g rest
  | c :: rest =>
    match sextet? c with
    | none => decodeFrom g rest
    | some b =>
      match g.count with
      | 0 => decodeFrom ⟨1, b, 0⟩ rest
      | 1 => (decodeFrom ⟨2, b % 16, 0⟩ rest).map ((g.bits * 4 + b / 16) :: ·)
      | 2 => (decodeFrom ⟨3, b % 4, 0⟩ rest).map ((g.bits * 16 + b / 4) :: ·)
      | _ => (decodeFrom ⟨0, 0, 0⟩ rest).map ((g.bits * 64 + b) :: ·)

def decode (text : List Char) : Reading (List Nat) :=
  match if text.all (·.toNat < 128) then decodeFrom ⟨0, 0, 0⟩ text else none with
  | some bytes => .ok bytes
  | none => malformed

def displayByte (quote : Char) (n : Nat) : List Char :=
  if n < 0x20 || 0x7E < n then
    match n with
    | 9 => ['\\', 't']
    | 10 => ['\\', 'n']
    | 13 => ['\\', 'r']
    | _ => '\\' :: 'x' :: hex 2 n
  else
    let c := Char.ofNat n
    if c == quote || c == '\\' then ['\\', c] else [c]

/-- Bytes between quotes, with the letter b in front. -/
def display (bytes : List Nat) : String :=
  let quote := chooseQuote (bytes.map Char.ofNat)
  String.ofList ('b' :: quote :: bytes.flatMap (displayByte quote) ++ [quote])

end EngineHost.Yaml.Bytes
