/-!
Symbols and the texts made of them. A symbol is a character, or one half of a surrogate pair that
stands without the other half. A text may hold such a half, but then it has no encoding.
-/

namespace Lindenmayer

/-- What has a code point. -/
class Coded (γ : Type) where
  code : γ → Nat

instance : Coded Char := ⟨Char.toNat⟩

@[simp] theorem code_char (c : Char) : Coded.code c = c.toNat := rfl

def firstHalf : Nat := 0xD800

def halfCount : Nat := 0x800

inductive Symbol
  | char (c : Char)
  | half (n : Fin halfCount)
  deriving DecidableEq

namespace Symbol

instance : Coe Char Symbol := ⟨.char⟩

instance : Inhabited Symbol := ⟨.char ' '⟩

def code : Symbol → Nat
  | .char c => c.toNat
  | .half n => firstHalf + n

instance : Coded Symbol := ⟨code⟩

instance : LE Symbol := ⟨fun a b => a.code ≤ b.code⟩

instance : LT Symbol := ⟨fun a b => a.code < b.code⟩

instance : DecidableLT Symbol := fun a b => inferInstanceAs (Decidable (a.code < b.code))

def ofCode (n : Nat) : Symbol :=
  if h : firstHalf ≤ n ∧ n < firstHalf + halfCount then .half ⟨n - firstHalf, by omega⟩
  else .char (Char.ofNat n)

def isChar : Symbol → Bool
  | .char _ => true
  | .half _ => false

/-- The character, or the one that replaces what is none. -/
def toChar : Symbol → Char
  | .char c => c
  | .half _ => Char.ofNat 0xFFFD

end Symbol

abbrev Text := List Symbol

namespace Text

def ofChars (s : List Char) : Text := s.map .char

def ofString (s : String) : Text := ofChars s.toList

instance : Coe String Text := ⟨ofString⟩

def toList (s : Text) : List Char := s.map Symbol.toChar

def toString (s : Text) : String := .ofList s.toList

/-- Only such a text can be encoded. -/
def isWhole (s : Text) : Bool := s.all Symbol.isChar

@[simp] theorem isWhole_ofChars (s : List Char) : isWhole (ofChars s) = true := by
  simp [isWhole, ofChars, Symbol.isChar]

@[simp] theorem toList_ofChars (s : List Char) : toList (ofChars s) = s := by
  simp [toList, ofChars, Function.comp_def, Symbol.toChar]

@[simp] theorem isWhole_ofString (s : String) : isWhole (ofString s) = true := isWhole_ofChars _

@[simp] theorem toString_ofString (s : String) : (ofString s).toString = s := by
  simp [toString, ofString]

end Text

end Lindenmayer
