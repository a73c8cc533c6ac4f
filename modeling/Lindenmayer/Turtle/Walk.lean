import Lindenmayer.Turtle.Command
import Lindenmayer.Turtle.Drawing

/-!
The walk of a turtle, over any numbers that have a compass. The pen is put down before every
command, a restored pose begins a new path, and the box grows with every step forward.
-/

namespace Lindenmayer

/-- The unit step at a heading, if the heading has a direction. -/
class Compass (α : Type) where
  stride : α → Option (Point α)

inductive WalkError
  | unmatchedClose (index : Nat)
  | noDirection (index : Nat)
  deriving DecidableEq

def WalkError.message : WalkError → String
  | .unmatchedClose index => s!"']' at position {index} has no matching '['"
  | .noDirection _ => "math domain error"

/-- A walk under way. The open path and the closed ones have their latest part in front. -/
structure Walk (α : Type) where
  pose : Pose α
  bounds : Bounds α
  saved : List (Pose α)
  path : Path α
  closed : List (Path α)
  deriving DecidableEq

namespace Walk

variable {α : Type}

def start [OfNat α 0] : Walk α := ⟨⟨0, 0, 0⟩, ⟨0, 0, 0, 0⟩, [], [], []⟩

def mark (s : Walk α) : Walk α := { s with path := s.pose.position :: s.path }

def face (s : Walk α) (heading : α) : Walk α := { s with pose := { s.pose with heading } }

def paths (s : Walk α) : List (Path α) :=
  match s.path with
  | [] => s.closed.reverse
  | p :: ps => ((s.pose.position :: p :: ps).reverse :: s.closed).reverse

def drawing (s : Walk α) : Drawing α := ⟨s.paths, s.bounds, s.pose⟩

variable [Add α] [Sub α] [LT α] [DecidableLT α] [Compass α]

def moveTo (s : Walk α) (p : Point α) : Walk α :=
  { s with pose := { s.pose with x := p.1, y := p.2 }, bounds := s.bounds.grow p }

def obey (turn : α) (index : Nat) (s : Walk α) : Command → Except WalkError (Walk α)
  | .idle => .ok s
  | .left => .ok (s.face (s.pose.heading + turn))
  | .right => .ok (s.face (s.pose.heading - turn))
  | .save => .ok { s with saved := s.pose :: s.saved }
  | .restore =>
    match s.saved with
    | [] => .error (.unmatchedClose index)
    | p :: ps => .ok ⟨p, s.bounds, ps, [], s.path.reverse :: s.closed⟩
  | .forward =>
    match Compass.stride s.pose.heading with
    | none => .error (.noDirection index)
    | some d => .ok (s.moveTo (s.pose.x + d.1, s.pose.y + d.2))

def step (turn : α) (index : Nat) (s : Walk α) (c : Command) : Except WalkError (Walk α) :=
  s.mark.obey turn index c

def run (turn : α) (index : Nat) (s : Walk α) : List Command → Except WalkError (Walk α)
  | [] => .ok s
  | c :: cs =>
    match s.step turn index c with
    | .ok s' => run turn (index + 1) s' cs
    | .error e => .error e

theorem run_append (turn : α) (index : Nat) (s : Walk α) (cs ds : List Command) :
    run turn index s (cs ++ ds) =
      match run turn index s cs with
      | .ok s' => run turn (index + cs.length) s' ds
      | .error e => .error e := by
  induction cs generalizing index s with
  | nil => rfl
  | cons c cs ih =>
    simp only [List.cons_append, run, List.length_cons]
    cases s.step turn index c with
    | error e => rfl
    | ok s' => simp only [ih]; rw [Nat.add_right_comm, Nat.add_assoc]

end Walk

def draw {α : Type} [OfNat α 0] [Add α] [Sub α] [LT α] [DecidableLT α] [Compass α] (turn : α)
    (cs : List Command) : Except WalkError (Drawing α) :=
  match Walk.start.run turn 0 cs with
  | .ok s => .ok s.drawing
  | .error e => .error e

end Lindenmayer
