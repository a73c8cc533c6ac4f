/-!
Reading UTF-8, one octet at a time. Octets that are no encoded text are refused at the first
character that cannot be completed, together with the count of its octets that were still good.
-/

namespace Lindenmayer.Text.Utf8

-- The core power, whatever else is imported.
attribute [local instance (2000)] instPowNat

inductive Fault
  | invalidStart
  | invalidContinuation
  | unexpectedEnd
  deriving DecidableEq

structure Error where
  fault : Fault
  start : Nat
  octet : UInt8
  size : Nat
  deriving DecidableEq

def Fault.message : Fault → String
  | .invalidStart => "invalid start byte"
  | .invalidContinuation => "invalid continuation byte"
  | .unexpectedEnd => "unexpected end of data"

/-- A character that has begun: the octets still owed, the bounds of the next one, the bits read. -/
structure Pending where
  owed : Nat
  low : UInt8
  high : UInt8
  code : Nat
  start : Nat
  octet : UInt8
  size : Nat

def lead (b : UInt8) : Option (Nat × UInt8 × UInt8) :=
  if b < 0x80 then some (0, 0x80, 0xBF)
  else if b < 0xC2 then none
  else if b < 0xE0 then some (1, 0x80, 0xBF)
  else if b = 0xE0 then some (2, 0xA0, 0xBF)
  else if b = 0xED then some (2, 0x80, 0x9F)
  else if b < 0xF0 then some (2, 0x80, 0xBF)
  else if b = 0xF0 then some (3, 0x90, 0xBF)
  else if b < 0xF4 then some (3, 0x80, 0xBF)
  else if b = 0xF4 then some (3, 0x80, 0x8F)
  else none

structure State where
  done : List Char
  position : Nat
  pending : Option Pending

def State.emit (s : State) (code : Nat) : State :=
  ⟨Char.ofNat code :: s.done, s.position + 1, none⟩

def State.begin (s : State) (b : UInt8) : Except Error State :=
  match lead b with
  | none => .error ⟨.invalidStart, s.position, b, 1⟩
  | some (0, _, _) => .ok (s.emit b.toNat)
  | some (k, low, high) =>
    .ok { s with
      position := s.position + 1
      pending := some ⟨k, low, high, b.toNat % 2 ^ (6 - k), s.position, b, 1⟩ }

def State.resume (s : State) (p : Pending) (b : UInt8) : Except Error State :=
  if p.low ≤ b ∧ b ≤ p.high then
    let code := p.code * 64 + b.toNat % 64
    if p.owed ≤ 1 then .ok (s.emit code)
    else .ok { s with
      position := s.position + 1
      pending := some { p with
        owed := p.owed - 1, low := 0x80, high := 0xBF, code := code, size := p.size + 1 } }
  else .error ⟨.invalidContinuation, p.start, p.octet, p.size⟩

def State.step (s : State) (b : UInt8) : Except Error State :=
  match s.pending with
  | none => s.begin b
  | some p => s.resume p b

def State.finish (s : State) : Except Error (List Char) :=
  match s.pending with
  | none => .ok s.done.reverse
  | some p => .error ⟨.unexpectedEnd, p.start, p.octet, p.size⟩

def State.run (s : State) : List UInt8 → Except Error (List Char)
  | [] => s.finish
  | b :: bs =>
    match s.step b with
    | .ok s' => s'.run bs
    | .error e => .error e

def decode (bs : List UInt8) : Except Error (List Char) := State.run ⟨[], 0, none⟩ bs

def encode (s : List Char) : List UInt8 := s.flatMap String.utf8EncodeChar

end Lindenmayer.Text.Utf8
