import Lindenmayer.Json.Value

/-!
Strings in the place of texts, for callers that know no others. A half of a pair is replaced there,
so the library itself does without these conversions.
-/

namespace Lindenmayer

instance : Coe Text String := ⟨Text.toString⟩

instance : Coe Text (List Char) := ⟨Text.toList⟩

instance : Coe (List Char) Text := ⟨Text.ofChars⟩

instance : Coe (Option Text) (Option String) := ⟨Option.map Text.toString⟩

instance : Coe (Option String) (Option Text) := ⟨Option.map Text.ofString⟩

instance : Coe (List (Text × Json)) (List (String × Json)) :=
  ⟨List.map fun m => (m.1.toString, m.2)⟩

end Lindenmayer
