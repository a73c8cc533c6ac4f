import Lindenmayer.Binary64.Nearest
import Lindenmayer.Decimal.Digit
import Lindenmayer.Text.Blank

/-!
Reading numbers that a person typed: blanks around them, a sign, digits of any script, and single
underscores between digits.
-/

namespace Lindenmayer.Decimal

/-- The blanks that may stand around a number: of ASCII, not the information separators. -/
def isPadding (c : Char) : Bool := Text.isBlank c && !(0x1C ≤ c.toNat && c.toNat ≤ 0x1F)

def plainDigit (c : Char) : Char :=
  match digitValue c with
  | some d => Nat.digitChar d
  | none => c

def unpadded (s : List Char) : List Char :=
  ((s.dropWhile isPadding).reverse.dropWhile isPadding).reverse.map plainDigit

def splitSign : List Char → Bool × List Char
  | '+' :: s => (false, s)
  | '-' :: s => (true, s)
  | s => (false, s)

def dropUnderscores : Char → List Char → Option (List Char)
  | previous, [] => if previous = '_' then none else some []
  | previous, c :: s =>
    if c = '_' then if previous.isDigit then dropUnderscores c s else none
    else if previous = '_' && !c.isDigit then none
    else (dropUnderscores c s).map (c :: ·)

def digitValues (s : List Char) : List Nat := s.map (·.toNat - 48)

def readInt (s : List Char) : Option Int := do
  let (negative, body) := splitSign (unpadded s)
  let ds ← dropUnderscores ' ' body
  if ds.isEmpty || !ds.all Char.isDigit || maxDigits < ds.length then none
  else
    let n : Int := ofDigits (digitValues ds)
    some (if negative then -n else n)

def readExponent : List Char → Option Int
  | [] => some 0
  | c :: s =>
    if c = 'e' || c = 'E' then
      let (negative, ds) := splitSign s
      if ds.isEmpty || !ds.all Char.isDigit then none
      else
        let n : Int := ofDigits (digitValues ds)
        some (if negative then -n else n)
    else none

def splitPoint : List Char → List Char × List Char
  | '.' :: s => s.span Char.isDigit
  | s => ([], s)

def readMagnitude (negative : Bool) (s : List Char) : Option Float := do
  let (whole, rest) := s.span Char.isDigit
  let (decimals, rest) := splitPoint rest
  if whole.isEmpty && decimals.isEmpty then none
  else
    let e ← readExponent rest
    some (Binary64.ofDecimal negative (ofDigits (digitValues (whole ++ decimals)))
      (e - decimals.length))

def readFloat (s : List Char) : Option Float := do
  let plain ← dropUnderscores ' ' (unpadded s)
  let (negative, body) := splitSign plain
  let name := String.ofList (body.map Char.toLower)
  if name = "inf" || name = "infinity" then some (Binary64.infinity negative)
  else if name = "nan" then some (0 / 0)
  else readMagnitude negative body

end Lindenmayer.Decimal
