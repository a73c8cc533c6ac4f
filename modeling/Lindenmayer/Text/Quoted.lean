import Lindenmayer.Text.Printable
import Lindenmayer.Text.Symbol

/-!
Quotation of a text in a message. The quote is single unless only a double one needs no escape, and
what is not printable is written by its number.
-/

namespace Lindenmayer.Text

def hexDigit (n : Nat) : Char := "0123456789abcdef".toList.getD (n % 16) '0'

def hexDigits : Nat → Nat → List Char
  | 0, _ => []
  | k + 1, n => hexDigits k (n / 16) ++ [hexDigit n]

def numberEscape (n : Nat) : List Char :=
  if n < 0x100 then '\\' :: 'x' :: hexDigits 2 n
  else if n < 0x10000 then '\\' :: 'u' :: hexDigits 4 n
  else '\\' :: 'U' :: hexDigits 8 n

def quoteMark (s : Text) : Char :=
  if s.contains '\'' && !s.contains '"' then '"' else '\''

def escape (mark : Char) : Symbol → List Char
  | .half n => numberEscape (firstHalf + n)
  | .char c =>
    if c == mark || c == '\\' then ['\\', c]
    else if c == '\n' then ['\\', 'n']
    else if c == '\r' then ['\\', 'r']
    else if c == '\t' then ['\\', 't']
    else if isPrintable c then [c]
    else numberEscape c.toNat

def quoted (s : Text) : List Char :=
  let mark := quoteMark s
  mark :: s.flatMap (escape mark) ++ [mark]

def quote (s : Text) : String := String.ofList (quoted s)

/-- A text where there is no other way to write a half than by its number. -/
def escaped (s : Text) : String :=
  .ofList (s.flatMap fun
    | .half n => numberEscape (firstHalf + n)
    | .char c => [c])

end Lindenmayer.Text
