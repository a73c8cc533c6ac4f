import Lindenmayer.Binary64.Circular
import Lindenmayer.Grammar.Basic
import Lindenmayer.Turtle.Walk

/-!
Curves of grammars: the walk of an expanded word with double coordinates, at an angle in degrees.
-/

namespace Lindenmayer

instance : Compass Float := ⟨Binary64.cosSin⟩

def degree : Float := 0.017453292519943295

def radians (angle : Float) : Float := angle * degree

def trace (cs : List Command) (angle : Float) : Except WalkError (Drawing Float) :=
  draw (radians angle) cs

def Word.commands (w : Word) : List Command := w.map Command.ofSymbol

inductive CurveError
  | expansion (cause : ExpansionError)
  | walk (cause : WalkError)
  deriving DecidableEq

def Grammar.curve (g : Grammar) (iterations limit : Option Int) :
    Except CurveError (Drawing Float) :=
  match g.expand iterations limit with
  | .error e => .error (.expansion e)
  | .ok w =>
    match trace w.commands g.angle with
    | .error e => .error (.walk e)
    | .ok d => .ok d

end Lindenmayer
