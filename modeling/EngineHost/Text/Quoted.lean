import EngineHost.Text.Letter
import EngineHost.Text.Printable

/-!
A text between quotes on one line. Apostrophes enclose it unless it holds an apostrophe and no
double quote; what cannot be shown is written as an escape.
-/
namespace EngineHost.Text

def apostrophe : Char := Char.ofNat 0x27

def doubleQuote : Char := Char.ofNat 0x22

/-- Lower-case hexadecimal, filled with zeros up to `width`. -/
def hex (width n : Nat) : List Char :=
  let digits := Nat.toDigits 16 n
  List.replicate (width - digits.length) '0' ++ digits

def chooseQuote (s : List Char) : Char :=
  if s.contains apostrophe && !s.contains doubleQuote then doubleQuote else apostrophe

def escapeChar (quote c : Char) : List Char :=
  if c == quote || c == '\\' then ['\\', c]
  else if c == '\n' then ['\\', 'n']
  else if c == '\r' then ['\\', 'r']
  else if c == '\t' then ['\\', 't']
  else if isPrintable c then [c]
  else if c.toNat < 0x100 then '\\' :: 'x' :: hex 2 c.toNat
  else if c.toNat < 0x10000 then '\\' :: 'u' :: hex 4 c.toNat
  else '\\' :: 'U' :: hex 8 c.toNat

def escapeLetter (quote : Char) : Letter → List Char
  | .char c => escapeChar quote c
  | .half n => '\\' :: 'u' :: hex 4 n

def quotedLetters (s : List Letter) : String :=
  let quote := chooseQuote (s.map Letter.visible)
  String.ofList (quote :: s.flatMap (escapeLetter quote) ++ [quote])

def quoted (s : String) : String :=
  quotedLetters (Letter.ofChars s.toList)

end EngineHost.Text
