import Lindenmayer.Grammar.Basic

/-!
Grammars that know where their angle came from. An angle that is not a number equals nothing, but a
grammar made from another with its angle has the same angle.
-/

namespace Lindenmayer

structure Sourced where
  grammar : Grammar
  origin : Nat

namespace Sourced

/-- The origin, where the angle does not tell itself from others. -/
def mark (s : Sourced) : Option Nat := if s.grammar.angle.isNaN then some s.origin else none

def settled (s : Sourced) : Grammar :=
  if s.grammar.angle.isNaN then { s.grammar with angle := 0 } else s.grammar

def same (a b : Sourced) : Bool := a.mark == b.mark && a.settled == b.settled

instance : BEq Sourced := ⟨same⟩

def key (s : Sourced) : Option Nat × Grammar.Parts := (s.mark, s.settled.key)

end Sourced

end Lindenmayer
