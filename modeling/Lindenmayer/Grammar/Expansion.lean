import Lindenmayer.Rules.Table

/-!
Rewriting of words. A generation replaces every symbol at once; an expansion may be held to a length
that no generation may pass.
-/

namespace Lindenmayer

namespace RuleTable

def rewrite (t : RuleTable) (w : Word) : Word := w.flatMap t.replacement

def generation (t : RuleTable) : Nat → Word → Word
  | 0, w => w
  | n + 1, w => t.generation n (t.rewrite w)

@[simp] theorem rewrite_nil (t : RuleTable) : t.rewrite [] = [] := rfl

@[simp] theorem rewrite_append (t : RuleTable) (u v : Word) :
    t.rewrite (u ++ v) = t.rewrite u ++ t.rewrite v := List.flatMap_append

@[simp] theorem generation_append (t : RuleTable) (n : Nat) (u v : Word) :
    t.generation n (u ++ v) = t.generation n u ++ t.generation n v := by
  induction n generalizing u v with
  | zero => rfl
  | succ n ih => simp [generation, ih]

theorem generation_add (t : RuleTable) (m n : Nat) (w : Word) :
    t.generation (m + n) w = t.generation n (t.generation m w) := by
  induction m generalizing w with
  | zero => simp [generation]
  | succ m ih => rw [Nat.succ_add]; exact ih _

theorem generation_succ (t : RuleTable) (n : Nat) (w : Word) :
    t.generation (n + 1) w = t.rewrite (t.generation n w) := generation_add t n 1 w

end RuleTable

inductive ExpansionError
  | negativeIterations
  | limitNotPositive
  | tooLong (limit : Int) (generation : Nat) (total : Nat)
  deriving DecidableEq

def ExpansionError.message : ExpansionError → String
  | .negativeIterations => "iterations must be >= 0"
  | .limitNotPositive => "max_symbols must be > 0"
  | .tooLong limit generation total =>
    s!"expansion exceeds {limit} symbols at generation {generation} of {total}; " ++
      "lower the iteration count"

namespace RuleTable

def expand (t : RuleTable) (seed : Word) : Int → Except ExpansionError Word
  | .ofNat n => .ok (t.generation n seed)
  | .negSucc _ => .error .negativeIterations

/-- Makes the generations left to make; the last one made has the given number. A generation is made
first and its length looked at afterwards, and each one that is made is added to what was seen. -/
def expandFrom {α : Type} (t : RuleTable) (see : α → Word → α) (limit : Int) (total : Nat) :
    Nat → Nat → Word → α → Except ExpansionError Word × α
  | 0, _, w, seen => (.ok w, seen)
  | left + 1, made, w, seen =>
    let next := t.rewrite w
    if next.length ≤ limit then
      t.expandFrom see limit total left (made + 1) next (see seen next)
    else (.error (.tooLong limit (made + 1) total), see seen next)

def expandSeen {α : Type} (t : RuleTable) (see : α → Word → α) (seen : α) (limit : Int)
    (seed : Word) : Int → Except ExpansionError Word × α
  | .negSucc _ => (.error .negativeIterations, seen)
  | .ofNat n =>
    if limit ≤ 0 then (.error .limitNotPositive, seen)
    else t.expandFrom see limit n n 0 seed seen

/-- An expansion that looks at none of the words on the way. -/
def expandWithin (t : RuleTable) (limit : Int) (seed : Word) (n : Int) :
    Except ExpansionError Word :=
  (t.expandSeen (fun _ _ => ()) () limit seed n).1

end RuleTable

def defaultLimit : Int := 1000000

end Lindenmayer
