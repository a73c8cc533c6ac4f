import Lindenmayer.Text.Symbol

/-!
Lines of a text. A carriage return with the line feed behind it is one break, and the last line
needs no break: a text that ends in one has no empty line behind it.
-/

namespace Lindenmayer.Text

section Lines

variable {γ : Type} [Coded γ]

def isBreak (c : γ) : Bool :=
  let n := Coded.code c
  (0x0A ≤ n && n ≤ 0x0D) || (0x1C ≤ n && n ≤ 0x1E) || n == 0x85 || n == 0x2028 || n == 0x2029

def isFeed (c : γ) : Bool := Coded.code c == 0x0A

/-- A carriage return that leaves the break to the line feed behind it. -/
def isMute (c : γ) (s : List γ) : Bool := Coded.code c == 0x0D && s.head?.any isFeed

def consFirst (c : γ) : List (List γ) → List (List γ)
  | [] => [[c]]
  | l :: ls => (c :: l) :: ls

def lines : List γ → List (List γ)
  | [] => []
  | c :: s =>
    if isMute c s then lines s
    else if isBreak c then [] :: lines s
    else consFirst c (lines s)

theorem lines_nil : lines ([] : List γ) = [] := rfl

theorem not_isMute_of_not_break {c : γ} (s : List γ) (h : isBreak c = false) :
    isMute c s = false := by
  simp only [isBreak, Bool.or_eq_false_iff, Bool.and_eq_false_iff, decide_eq_false_iff_not] at h
  simp only [isMute, Bool.and_eq_false_iff, beq_eq_false_iff_ne]
  omega

theorem lines_cons_of_not_break {c : γ} (s : List γ) (h : isBreak c = false) :
    lines (c :: s) = consFirst c (lines s) := by
  rw [lines, not_isMute_of_not_break s h, h]
  rfl

end Lines

def joinLines (ls : List Text) : Text := ([Symbol.char '\n'] : Text).intercalate ls

def unifyBreaks : List Char → List Char → List Char
  | done, [] => done.reverse
  | done, '\r' :: '\n' :: s => unifyBreaks ('\n' :: done) s
  | done, '\r' :: s => unifyBreaks ('\n' :: done) s
  | done, c :: s => unifyBreaks (c :: done) s

end Lindenmayer.Text
