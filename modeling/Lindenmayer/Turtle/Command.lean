import Lindenmayer.Text.Symbol

/-!
What a turtle can be told. Five symbols are commands; every other one is idle.
-/

namespace Lindenmayer

inductive Command
  | forward
  | left
  | right
  | save
  | restore
  | idle
  deriving DecidableEq

namespace Command

def ofSymbol (c : Symbol) : Command :=
  if c = 'f' then .forward
  else if c = '+' then .left
  else if c = '-' then .right
  else if c = '[' then .save
  else if c = ']' then .restore
  else .idle

def ofName : Text → Command
  | [c] => ofSymbol c
  | _ => .idle

end Command

end Lindenmayer
