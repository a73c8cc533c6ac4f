import Lindenmayer.Grammar.Expansion

/-!
Grammars: a rule table, a seed and the angle of a turn in degrees, with a name and a count of
generations that may be left open.
-/

namespace Lindenmayer

structure Grammar where
  rules : RuleTable
  seed : Word
  angle : Float
  iterations : Option Int := none
  name : Option Text := none

namespace Grammar

-- The core order of words, whatever else is imported.
attribute [local instance (2000)] List.instLE List.decidableLE

/-- The same tables as finite maps and the same other fields; an angle of zero has no sign. -/
def same (g h : Grammar) : Bool :=
  g.rules.agree h.rules && g.seed == h.seed && g.angle == h.angle &&
    g.iterations == h.iterations && g.name == h.name

instance : BEq Grammar := ⟨same⟩

abbrev Parts := List (Word × Word) × Word × Float × Option Int × Option Text

def parts (g : Grammar) : Parts := (g.rules.entries, g.seed, g.angle, g.iterations, g.name)

def ofParts : Parts → Grammar
  | (entries, seed, angle, iterations, name) => ⟨.ofList entries, seed, angle, iterations, name⟩

/-- Parts in which the order of the rules is lost, so that equal grammars are looked up alike. -/
def key (g : Grammar) : Parts :=
  (g.rules.entries.mergeSort fun a b => decide (a.1 ≤ b.1), g.seed, g.angle, g.iterations, g.name)

def defaultIterations (g : Grammar) : Int := g.iterations.getD 0

def expand (g : Grammar) (iterations : Option Int) (limit : Option Int) :
    Except ExpansionError Word :=
  let n := iterations.getD g.defaultIterations
  match limit with
  | none => g.rules.expand g.seed n
  | some l => g.rules.expandWithin l g.seed n

end Grammar

def distinctCount {α : Type} [BEq α] (gs : List α) : Nat := gs.eraseDups.length

end Lindenmayer
