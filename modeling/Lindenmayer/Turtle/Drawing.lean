/-!
Drawings: polylines, the box around them, and where the turtle stands at the end.
-/

namespace Lindenmayer

abbrev Point (α : Type) := α × α

abbrev Path (α : Type) := List (Point α)

structure Pose (α : Type) where
  x : α
  y : α
  heading : α
  deriving DecidableEq

def Pose.position {α : Type} (p : Pose α) : Point α := (p.x, p.y)

structure Bounds (α : Type) where
  minX : α
  maxX : α
  minY : α
  maxY : α
  deriving DecidableEq

namespace Bounds

variable {α : Type}

def width [Sub α] (b : Bounds α) : α := b.maxX - b.minX

def height [Sub α] (b : Bounds α) : α := b.maxY - b.minY

def contains [LE α] [DecidableLE α] (b : Bounds α) (p : Point α) : Bool :=
  b.minX ≤ p.1 && p.1 ≤ b.maxX && b.minY ≤ p.2 && p.2 ≤ b.maxY

def grow [LT α] [DecidableLT α] (b : Bounds α) (p : Point α) : Bounds α where
  minX := if p.1 < b.minX then p.1 else b.minX
  maxX := if b.maxX < p.1 then p.1 else b.maxX
  minY := if p.2 < b.minY then p.2 else b.minY
  maxY := if b.maxY < p.2 then p.2 else b.maxY

end Bounds

structure Drawing (α : Type) where
  paths : List (Path α)
  bounds : Bounds α
  turtle : Pose α
  deriving DecidableEq

end Lindenmayer
