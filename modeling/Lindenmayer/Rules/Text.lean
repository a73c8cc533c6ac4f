import Lindenmayer.Rules.Table
import Lindenmayer.Text.Blank
import Lindenmayer.Text.Lines
import Lindenmayer.Text.Quoted

/-!
The text form of a rule table: one line `symbol -> replacement` for each rule. Empty lines and those
that begin with `#` say nothing.
-/

namespace Lindenmayer.Rules

open Text

inductive TextError
  | missingArrow (line : Nat) (text : Text)
  | notOneSymbol (line : Nat) (text : Text)
  deriving DecidableEq

def TextError.message : TextError → String
  | .missingArrow line text =>
    s!"rule line {line}: missing '->' in " ++ .ofList (quoted text)
  | .notOneSymbol line text =>
    s!"rule line {line}: left side must be a single symbol, got " ++ .ofList (quoted text)

def splitArrow : Text → Option (Text × Text)
  | [] => none
  | .char '-' :: .char '>' :: s => some ([], s)
  | c :: s => (splitArrow s).map fun p => (c :: p.1, p.2)

def parseRule (line : Nat) (raw s : Text) : Except TextError (Symbol × Word) :=
  match splitArrow s with
  | none => .error (.missingArrow line raw)
  | some (left, right) =>
    match trimRight left with
    | [c] => .ok (c, trimLeft right)
    | found => .error (.notOneSymbol line found)

def isSilent (s : Text) : Bool := s.isEmpty || s.head? == some (.char '#')

def parseLine (line : Nat) (raw : Text) (t : RuleTable) : Except TextError RuleTable :=
  let s := trim raw
  if isSilent s then .ok t
  else
    match parseRule line raw s with
    | .ok (c, w) => .ok (t.insert [c] w)
    | .error e => .error e

def parseLines (line : Nat) (t : RuleTable) : List Text → Except TextError RuleTable
  | [] => .ok t
  | l :: ls =>
    match parseLine line l t with
    | .ok t' => parseLines (line + 1) t' ls
    | .error e => .error e

def parse (s : Text) : Except TextError RuleTable := parseLines 1 .empty (lines s)

def arrow : Text := [' ', '-', '>', ' ']

def formatEntry (e : Word × Word) : Text := e.1 ++ (arrow ++ e.2)

def format (t : RuleTable) : Text := joinLines (t.entries.map formatEntry)

end Lindenmayer.Rules
