import Lindenmayer.Turtle.Drawing

/-!
Fitting a drawing into a surface: each axis of its box is stretched to the room inside the margins.
An axis without extent is not stretched.
-/

namespace Lindenmayer

structure Surface (α : Type) where
  width : α
  height : α
  margin : α
  flip : Bool
  deriving DecidableEq

variable {α : Type} [OfNat α 0] [OfNat α 1] [OfNat α 2] [Add α] [Sub α] [Mul α] [Div α] [LT α]
  [DecidableLT α]

def stretch (extent length : α) : α := if 0 < extent then length / extent else 1

def Bounds.scale (b : Bounds α) (width height : α) : Point α :=
  (stretch b.width width, stretch b.height height)

namespace Surface

def innerWidth (s : Surface α) : α := s.width - 2 * s.margin

def innerHeight (s : Surface α) : α := s.height - 2 * s.margin

def hasRoom (s : Surface α) : Bool := decide (0 < s.innerWidth) && decide (0 < s.innerHeight)

def place (s : Surface α) (b : Bounds α) (factor p : Point α) : Point α :=
  (s.margin + (p.1 - b.minX) * factor.1,
    s.margin + (if s.flip then b.maxY - p.2 else p.2 - b.minY) * factor.2)

def fit (s : Surface α) (paths : List (Path α)) (b : Bounds α) : Option (List (Path α)) :=
  if s.hasRoom then
    let factor := b.scale s.innerWidth s.innerHeight
    some (paths.map fun path => path.map (s.place b factor))
  else none

end Surface

end Lindenmayer
