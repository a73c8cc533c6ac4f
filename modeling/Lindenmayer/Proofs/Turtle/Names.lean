import Lindenmayer.Proofs.Turtle.Balance

/-! Symbols that are given by their names. A name is a command if it has one character and this is
one. -/

namespace Lindenmayer

namespace Command

def names : List Word := [[.char '['], [.char ']'], [.char '+'], [.char '-'], [.char 'f']]

lemma ofSymbol_eq_forward_iff (c : Symbol) : ofSymbol c = .forward ↔ c = 'f' := by
  grind [ofSymbol]

lemma ofSymbol_eq_left_iff (c : Symbol) : ofSymbol c = .left ↔ c = '+' := by
  grind [ofSymbol]

lemma ofSymbol_eq_right_iff (c : Symbol) : ofSymbol c = .right ↔ c = '-' := by
  grind [ofSymbol]

lemma ofName_eq_iff {c : Command} {x : Symbol} (h : ∀ y, ofSymbol y = c ↔ y = x) (hc : c ≠ .idle)
    (n : Word) : ofName n = c ↔ n = [x] := by
  match n with
  | [y] => simpa [ofName] using h y
  | [] => simpa [ofName] using hc.symm
  | y :: z :: rest => simpa [ofName] using hc.symm

lemma ofName_eq_save_iff (n : Word) : ofName n = .save ↔ n = [.char '['] :=
  ofName_eq_iff ofSymbol_eq_save_iff nofun n

lemma ofName_eq_restore_iff (n : Word) : ofName n = .restore ↔ n = [.char ']'] :=
  ofName_eq_iff ofSymbol_eq_restore_iff nofun n

lemma ofName_eq_forward_iff (n : Word) : ofName n = .forward ↔ n = [.char 'f'] :=
  ofName_eq_iff ofSymbol_eq_forward_iff nofun n

lemma ofName_eq_left_iff (n : Word) : ofName n = .left ↔ n = [.char '+'] :=
  ofName_eq_iff ofSymbol_eq_left_iff nofun n

lemma ofName_eq_right_iff (n : Word) : ofName n = .right ↔ n = [.char '-'] :=
  ofName_eq_iff ofSymbol_eq_right_iff nofun n

lemma ofName_ne_idle_iff (n : Word) : ofName n ≠ .idle ↔ n ∈ names := by
  match n with
  | [y] =>
    simp only [ofName, ofSymbol, names, List.mem_cons, List.cons.injEq, and_true, List.not_mem_nil,
      or_false]
    grind
  | [] => simp [ofName, names]
  | y :: z :: rest => simp [ofName, names]

end Command

end Lindenmayer
