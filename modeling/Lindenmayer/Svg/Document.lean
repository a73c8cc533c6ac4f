import Lindenmayer.Decimal.Fixed
import Lindenmayer.Svg.Surface

/-!
Drawings as SVG documents: an optional title, an optional background, and a polyline for each path.
-/

namespace Lindenmayer.Svg

/-- A styling with texts of some kind. -/
structure Style (τ : Type := String) where
  stroke : τ
  strokeWidth : Float
  fill : τ
  linecap : τ
  linejoin : τ
  deriving DecidableEq

namespace Style

/-- The styling where nothing is said. -/
instance : EmptyCollection Style := ⟨⟨"#000", 1, "none", "round", "round"⟩⟩

def texts {τ : Type} (s : Style τ) : List τ := [s.stroke, s.fill, s.linecap, s.linejoin]

def map {τ υ : Type} (f : τ → υ) (s : Style τ) : Style υ :=
  ⟨f s.stroke, s.strokeWidth, f s.fill, f s.linecap, f s.linejoin⟩

end Style

structure Canvas (τ : Type := String) where
  surface : Surface Float
  precision : Int
  style : Style τ
  background : Option τ
  deriving DecidableEq

namespace Canvas

def texts {τ : Type} (c : Canvas τ) : List τ := c.style.texts ++ c.background.toList

def map {τ υ : Type} (f : τ → υ) (c : Canvas τ) : Canvas υ :=
  ⟨c.surface, c.precision, c.style.map f, c.background.map f⟩

end Canvas

inductive Error
  | noGeometry
  | noRoom
  | precision (cause : Decimal.PlacesError)
  deriving DecidableEq

def Error.message : Error → String
  | .noGeometry => "No drawable geometry produced."
  | .noRoom => "svg.margin leaves no room to draw"
  | .precision cause => cause.message

abbrev Line := List Char

def substitute (c : Char) (replacement s : List Char) : List Char :=
  s.flatMap fun d => if d = c then replacement else [d]

/-- Ampersands go first: the other two substitutions put new ones in. -/
def escapeTitle (s : List Char) : List Char :=
  substitute '>' "&gt;".toList (substitute '<' "&lt;".toList (substitute '&' "&amp;".toList s))

def attr (name : String) (value : List Char) : List Char :=
  name.toList ++ '=' :: '"' :: value ++ ['"']

def spaced (ws : List (List Char)) : List Char := [' '].intercalate ws

def declarationLine : Line := "<?xml version=\"1.0\" encoding=\"UTF-8\"?>".toList

def openLine (width height : List Char) : Line :=
  spaced ["<svg".toList, attr "xmlns" "http://www.w3.org/2000/svg".toList,
    attr "version" "1.1".toList,
    attr "viewBox" (spaced [['0'], ['0'], width, height]),
    attr "width" width, attr "height" height] ++ ['>']

def closeLine : Line := "</svg>".toList

def titleLine : Option String → List Line
  | none => []
  | some title =>
    if title.isEmpty then []
    else ["  <title>".toList ++ escapeTitle title.toList ++ "</title>".toList]

def isPainted (background : String) : Bool :=
  !background.isEmpty && background.toList.map Char.toLower != "none".toList

def backgroundLine (width height : List Char) : Option String → List Line
  | none => []
  | some background =>
    if isPainted background then
      [spaced ["  <rect".toList, attr "x" ['0'], attr "y" ['0'],
        attr "width" width, attr "height" height,
        attr "fill" background.toList, "/>".toList]]
    else []

def Style.attributes (style : Style) (places : Nat) : List Char :=
  spaced [attr "stroke" style.stroke.toList,
    attr "stroke-width" (Decimal.fixed places style.strokeWidth),
    attr "fill" style.fill.toList,
    attr "stroke-linecap" style.linecap.toList,
    attr "stroke-linejoin" style.linejoin.toList]

def pointText (places : Nat) (p : Point Float) : List Char :=
  Decimal.fixed places p.1 ++ ',' :: Decimal.fixed places p.2

def pointsText (places : Nat) (path : Path Float) : List Char :=
  spaced (path.map (pointText places))

def polylineLine (places : Nat) (style : List Char) (path : Path Float) : Line :=
  spaced ["  <polyline".toList, attr "points" (pointsText places path), style, "/>".toList]

def lines (canvas : Canvas) (places : Nat) (title : Option String) (paths : List (Path Float)) :
    List Line :=
  let width := Decimal.fixed places canvas.surface.width
  let height := Decimal.fixed places canvas.surface.height
  let style := canvas.style.attributes places
  declarationLine :: openLine width height :: titleLine title ++
    backgroundLine width height canvas.background ++
    paths.map (polylineLine places style) ++ [closeLine]

def textOfLines (ls : List Line) : List Char := ls.flatMap (· ++ ['\n'])

def document (canvas : Canvas) (title : Option String) (paths : List (Path Float))
    (bounds : Bounds Float) : Except Error (List Char) :=
  if paths.isEmpty then .error .noGeometry
  else
    match canvas.surface.fit paths bounds with
    | none => .error .noRoom
    | some placed =>
      match Decimal.placesOf canvas.precision with
      | .error e => .error (.precision e)
      | .ok places => .ok (textOfLines (lines canvas places title placed))

end Lindenmayer.Svg
