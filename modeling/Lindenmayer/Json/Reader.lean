import Lindenmayer.Binary64.Nearest
import Lindenmayer.Decimal.Digit
import Lindenmayer.Json.Value

/-!
Reading JSON, in the dialect that also knows `NaN`, `Infinity` and `-Infinity`. A text that is no
JSON is refused with a reason and a place in it.
-/

namespace Lindenmayer.Json

inductive Reason
  | byteOrderMark
  | expectingValue
  | expectingName
  | expectingColon
  | expectingComma
  | extraData
  | unterminatedString
  | controlCharacter
  | escapeSequence
  | unicodeEscape
  deriving DecidableEq

def Reason.message : Reason → String
  | .byteOrderMark => "Unexpected UTF-8 BOM (decode using utf-8-sig)"
  | .expectingValue => "Expecting value"
  | .expectingName => "Expecting property name enclosed in double quotes"
  | .expectingColon => "Expecting ':' delimiter"
  | .expectingComma => "Expecting ',' delimiter"
  | .extraData => "Extra data"
  | .unterminatedString => "Unterminated string starting at"
  | .controlCharacter => "Invalid control character at"
  | .escapeSequence => "Invalid \\escape"
  | .unicodeEscape => "Invalid \\uXXXX escape"

/-- Most texts that are refused are no JSON. A whole number may be written with too many digits. -/
inductive Error
  | malformed (reason : Reason) (position : Nat)
  | tooManyDigits (count : Nat)
  deriving DecidableEq

def Error.message (text : List Char) : Error → String
  | .malformed reason position =>
    let before := text.take position
    let line := before.count '\n' + 1
    let column := (before.reverse.takeWhile (· != '\n')).length + 1
    reason.message ++ s!": line {line} column {column} (char {position})"
  | .tooManyDigits count =>
    s!"Exceeds the limit ({Decimal.maxDigits} digits) for integer string conversion: value has " ++
      s!"{count} digits; use sys.set_int_max_str_digits() to increase the limit"

structure Cursor where
  position : Nat
  rest : List Char

namespace Cursor

def fail {α : Type} (c : Cursor) (reason : Reason) : Except Error α :=
  .error (.malformed reason c.position)

def isSpace (c : Char) : Bool := c == ' ' || c == '\t' || c == '\n' || c == '\r'

def skipSpaces (c : Cursor) : Cursor :=
  let spaces := c.rest.takeWhile isSpace
  ⟨c.position + spaces.length, c.rest.dropWhile isSpace⟩

end Cursor

def hexValue (c : Char) : Option Nat :=
  if '0' ≤ c ∧ c ≤ '9' then some (c.toNat - 48)
  else if 'a' ≤ c ∧ c ≤ 'f' then some (c.toNat - 87)
  else if 'A' ≤ c ∧ c ≤ 'F' then some (c.toNat - 55)
  else none

def hexCode (a b c d : Char) : Option Nat := do
  let a ← hexValue a
  let b ← hexValue b
  let c ← hexValue c
  let d ← hexValue d
  some (((a * 16 + b) * 16 + c) * 16 + d)

def isHighSurrogate (n : Nat) : Bool := 0xD800 ≤ n && n < 0xDC00

def isLowSurrogate (n : Nat) : Bool := 0xDC00 ≤ n && n < 0xE000

def joinSurrogates (high low : Nat) : Char :=
  Char.ofNat (0x10000 + (high - 0xD800) * 0x400 + (low - 0xDC00))

/-- The text of the codes from the last one on. Two surrogates that are a pair are one character. -/
def joinCodes (done : Text) : List Nat → Text
  | [] => done
  | [n] => .ofCode n :: done
  | low :: high :: codes =>
    if isLowSurrogate low && isHighSurrogate high then
      joinCodes (joinSurrogates high low :: done) codes
    else joinCodes (.ofCode low :: done) (high :: codes)

def simpleEscape (c : Char) : Option Char :=
  if c = '"' ∨ c = '\\' ∨ c = '/' then some c
  else if c = 'b' then some (Char.ofNat 8)
  else if c = 'f' then some (Char.ofNat 12)
  else if c = 'n' then some '\n'
  else if c = 'r' then some '\r'
  else if c = 't' then some '\t'
  else none

/-- Reads a string up to its closing quote; `start` is the place of the opening one. A numeric
escape is refused at the end of the text even if its digits are complete. -/
def readString (start : Nat) (done : List Nat) (position : Nat) :
    List Char → Except Error (Text × Cursor)
  | [] => .error (.malformed .unterminatedString start)
  | '"' :: s => .ok (joinCodes [] done, ⟨position + 1, s⟩)
  | '\\' :: [] => .error (.malformed .unterminatedString start)
  | '\\' :: 'u' :: a :: b :: c :: d :: e :: s =>
    match hexCode a b c d with
    | none => .error (.malformed .unicodeEscape (position + 1))
    | some n => readString start (n :: done) (position + 6) (e :: s)
  | '\\' :: 'u' :: _ => .error (.malformed .unicodeEscape (position + 1))
  | '\\' :: c :: s =>
    match simpleEscape c with
    | none => .error (.malformed .escapeSequence position)
    | some c' => readString start (c'.toNat :: done) (position + 2) s
  | c :: s =>
    if c.toNat < 0x20 then .error (.malformed .controlCharacter position)
    else readString start (c.toNat :: done) (position + 1) s

def digitsOf (s : List Char) : Nat := Decimal.ofDigits (s.map (·.toNat - 48))

def wholeDigits : List Char → List Char
  | '0' :: _ => ['0']
  | s => s.takeWhile Char.isDigit

def decimalDigits : List Char → List Char
  | '.' :: s => '.' :: s.takeWhile Char.isDigit
  | _ => []

def isExponentMark (c : Char) : Bool := c == 'e' || c == 'E'

def exponentDigits : List Char → List Char
  | e :: c :: s =>
    if !isExponentMark e then []
    else if c == '+' || c == '-' then e :: c :: s.takeWhile Char.isDigit
    else e :: (c :: s).takeWhile Char.isDigit
  | _ => []

def exponentValue : List Char → Int
  | _ :: '-' :: ds => -digitsOf ds
  | _ :: '+' :: ds => digitsOf ds
  | _ :: ds => digitsOf ds
  | [] => 0

def endsInDigit (s : List Char) : Bool := s.getLast?.any Char.isDigit

def completed (s : List Char) : List Char := if endsInDigit s then s else []

def readMagnitude (start : Cursor) (negative : Bool) (c : Cursor) : Except Error (Json × Cursor) :=
  let whole := wholeDigits c.rest
  if whole.isEmpty then start.fail .expectingValue
  else
    let rest := c.rest.drop whole.length
    let decimals := completed (decimalDigits rest)
    let rest := rest.drop decimals.length
    let exponent := completed (exponentDigits rest)
    let size := whole.length + decimals.length + exponent.length
    let after : Cursor := ⟨c.position + size, rest.drop exponent.length⟩
    if decimals.isEmpty && exponent.isEmpty then
      if Decimal.maxDigits < whole.length then .error (.tooManyDigits whole.length)
      else
        let n : Int := digitsOf whole
        .ok (.int (if negative then -n else n), after)
    else
      let shift : Int := (decimals.length - 1 : Nat)
      .ok (.float (Binary64.ofDecimal negative (digitsOf (whole ++ decimals.drop 1))
        (exponentValue exponent - shift)), after)

def readNumber (c : Cursor) : Except Error (Json × Cursor) :=
  match c.rest with
  | '-' :: s => readMagnitude c true ⟨c.position + 1, s⟩
  | _ => readMagnitude c false c

def words : List (List Char × Json) :=
  [("null".toList, .null), ("true".toList, .bool true), ("false".toList, .bool false),
    ("NaN".toList, .float (0 / 0)), ("Infinity".toList, .float (Binary64.infinity false)),
    ("-Infinity".toList, .float (Binary64.infinity true))]

def readScalar (c : Cursor) : Except Error (Json × Cursor) :=
  match words.find? fun w => w.1.isPrefixOf c.rest with
  | some w => .ok (w.2, ⟨c.position + w.1.length, c.rest.drop w.1.length⟩)
  | none => readNumber c

def readName (c : Cursor) : Except Error (Text × Cursor) :=
  match c.rest with
  | '"' :: s =>
    match readString c.position [] (c.position + 1) s with
    | .error e => .error e
    | .ok (name, after) =>
      let c := after.skipSpaces
      match c.rest with
      | ':' :: s => .ok (name, Cursor.skipSpaces ⟨c.position + 1, s⟩)
      | _ => c.fail .expectingColon
  | _ => c.fail .expectingName

mutual

/-- Reads a value at the cursor. Two units of fuel for each character are enough. -/
def readValue : Nat → Cursor → Except Error (Json × Cursor)
  | 0, c => c.fail .expectingValue
  | fuel + 1, c =>
    match c.rest with
    | '"' :: s =>
      match readString c.position [] (c.position + 1) s with
      | .error e => .error e
      | .ok (text, after) => .ok (.string text, after)
    | '[' :: s =>
      let c := Cursor.skipSpaces ⟨c.position + 1, s⟩
      match c.rest with
      | ']' :: s => .ok (.array [], ⟨c.position + 1, s⟩)
      | _ => readItems fuel [] c
    | '\x7b' :: s =>
      let c := Cursor.skipSpaces ⟨c.position + 1, s⟩
      match c.rest with
      | '\x7d' :: s => .ok (.object [], ⟨c.position + 1, s⟩)
      | _ => readMembers fuel [] c
    | _ => readScalar c

def readItems : Nat → List Json → Cursor → Except Error (Json × Cursor)
  | 0, _, c => c.fail .expectingValue
  | fuel + 1, done, c =>
    match readValue fuel c with
    | .error e => .error e
    | .ok (item, after) =>
      let c := after.skipSpaces
      match c.rest with
      | ']' :: s => .ok (.array (item :: done).reverse, ⟨c.position + 1, s⟩)
      | ',' :: s => readItems fuel (item :: done) (Cursor.skipSpaces ⟨c.position + 1, s⟩)
      | _ => c.fail .expectingComma

def readMembers : Nat → List (Text × Json) → Cursor → Except Error (Json × Cursor)
  | 0, _, c => c.fail .expectingName
  | fuel + 1, done, c =>
    match readName c with
    | .error e => .error e
    | .ok (name, c) =>
      match readValue fuel c with
      | .error e => .error e
      | .ok (value, after) =>
        let c := after.skipSpaces
        match c.rest with
        | '\x7d' :: s => .ok (objectOf ((name, value) :: done).reverse, ⟨c.position + 1, s⟩)
        | ',' :: s =>
          readMembers fuel ((name, value) :: done) (Cursor.skipSpaces ⟨c.position + 1, s⟩)
        | _ => c.fail .expectingComma

end

def read (text : List Char) : Except Error Json :=
  if text.head? == some (Char.ofNat 0xFEFF) then .error (.malformed .byteOrderMark 0)
  else
    match readValue (2 * text.length + 2) (Cursor.skipSpaces ⟨0, text⟩) with
    | .error e => .error e
    | .ok (v, after) =>
      let c := after.skipSpaces
      if c.rest.isEmpty then .ok v else c.fail .extraData

end Lindenmayer.Json
