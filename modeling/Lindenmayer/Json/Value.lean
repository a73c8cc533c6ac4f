import Lindenmayer.Text.Symbol

/-!
JSON values. Whole numbers are kept apart from those written with a point or an exponent, and an
object keeps its members in order.
-/

namespace Lindenmayer

inductive Json
  | null
  | bool (b : Bool)
  | int (n : Int)
  | float (x : Float)
  | string (s : Text)
  | array (items : List Json)
  | object (members : List (Text × Json))

namespace Json

def insertMember (k : Text) (v : Json) : List (Text × Json) → List (Text × Json)
  | [] => [(k, v)]
  | m :: ms => if m.1 = k then (k, v) :: ms else m :: insertMember k v ms

mutual

def same : Json → Json → Bool
  | .null, .null => true
  | .bool a, .bool b => a == b
  | .int m, .int n => m == n
  | .float x, .float y => decide (x = y)
  | .string s, .string t => s == t
  | .array vs, .array ws => sameItems vs ws
  | .object ms, .object ns => sameMembers ms ns
  | _, _ => false
termination_by structural v => v

def sameItems : List Json → List Json → Bool
  | [], [] => true
  | v :: vs, w :: ws => same v w && sameItems vs ws
  | _, _ => false
termination_by structural vs => vs

def sameMembers : List (Text × Json) → List (Text × Json) → Bool
  | [], [] => true
  | m :: ms, n :: ns => sameMember m n && sameMembers ms ns
  | _, _ => false
termination_by structural ms => ms

def sameMember : Text × Json → Text × Json → Bool
  | (k, v), (l, w) => k == l && same v w
termination_by structural m => m

end

mutual

theorem same_iff : ∀ v w : Json, same v w = true ↔ v = w
  | .null, w | .bool _, w | .int _, w | .float _, w | .string _, w => by cases w <;> simp [same]
  | .array vs, w => by cases w <;> simp [same, sameItems_iff vs]
  | .object ms, w => by cases w <;> simp [same, sameMembers_iff ms]

theorem sameItems_iff : ∀ vs ws : List Json, sameItems vs ws = true ↔ vs = ws
  | [], ws => by cases ws <;> simp [sameItems]
  | v :: vs, ws => by cases ws <;> simp [sameItems, same_iff v, sameItems_iff vs]

theorem sameMembers_iff : ∀ ms ns : List (Text × Json), sameMembers ms ns = true ↔ ms = ns
  | [], ns => by cases ns <;> simp [sameMembers]
  | (k, v) :: ms, ns => by
    cases ns with
    | nil => simp [sameMembers]
    | cons n ns =>
      obtain ⟨l, w⟩ := n
      simp [sameMembers, sameMember, same_iff v, sameMembers_iff ms]

end

instance : DecidableEq Json := fun v w => decidable_of_iff _ (same_iff v w)

def objectOf (ms : List (Text × Json)) : Json :=
  .object (ms.foldl (fun done m => insertMember m.1 m.2 done) [])

end Json

end Lindenmayer
