import Lindenmayer.Grammar.Basic
import Lindenmayer.Text.Quoted

/-!
The catalog of known curves, by key, in the order in which it is listed.
-/

namespace Lindenmayer.Catalog

def rulesOf (es : List (String × String)) : RuleTable :=
  .ofList (es.map fun e => (Text.ofString e.1, Text.ofString e.2))

def koch : Grammar :=
  ⟨rulesOf [("f", "f+f-f-f+f")], "f", 90, some 4, some "Koch curve"⟩

def kochIsland : Grammar :=
  ⟨rulesOf [("f", "f+f-f-ff+f+f-f")], "f+f+f+f", 90, some 2, some "Quadratic Koch island"⟩

def dragon : Grammar :=
  ⟨rulesOf [("x", "x+yf+"), ("y", "-fx-y")], "fx", 90, some 10, some "Dragon curve"⟩

def hilbert : Grammar :=
  ⟨rulesOf [("a", "+bf-afa-fb+"), ("b", "-af+bfb+fa-")], "a", 90, some 5,
    some "Hilbert curve"⟩

def levy : Grammar :=
  ⟨rulesOf [("f", "+f--f+")], "f", 45, some 10, some "Levy C curve"⟩

def plant : Grammar :=
  ⟨rulesOf [("x", "f+[[x]-x]-f[-fx]+x"), ("f", "ff")], "x", 25, some 5,
    some "Fractal plant"⟩

def all : List (String × Grammar) :=
  [("koch", koch), ("koch-island", kochIsland), ("dragon", dragon), ("hilbert", hilbert),
    ("levy", levy), ("plant", plant)]

def find? (key : Text) : Option Grammar :=
  (all.map fun p => (Text.ofString p.1, p.2)).lookup key

def sortedKeys : List String := (all.map Prod.fst).mergeSort (fun a b => decide (a ≤ b))

def unknownMessage (key : Text) : String :=
  "unknown preset " ++ Text.quote key ++ " (known: " ++ ", ".intercalate sortedKeys ++ ")"

end Lindenmayer.Catalog
