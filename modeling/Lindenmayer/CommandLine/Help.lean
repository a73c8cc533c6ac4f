import Lindenmayer.CommandLine.Invocation
import Lindenmayer.Text.Plain

/-!
The help of the program, one text for itself and one for each command.
-/

namespace Lindenmayer.CommandLine

def flagUsage (f : String × Flag) : Option String :=
  match f.2 with
  | .help => none
  | .iterations => some ("[" ++ f.1 ++ " ITERATIONS]")
  | .maxSymbols => some ("[" ++ f.1 ++ " MAX_SYMBOLS]")
  | .width => some ("[" ++ f.1 ++ " WIDTH]")
  | .height => some ("[" ++ f.1 ++ " HEIGHT]")

def Signature.usage (sig : Signature) : String :=
  " ".intercalate
    (["usage:", sig.program, "[-h]"] ++ sig.flags.filterMap flagUsage ++ sig.positionals) ++ "\n"

def topUsage : String :=
  "usage: " ++ programName ++ " [-h] \x7b" ++ ",".intercalate (Verb.all.map Prod.fst) ++ "\x7d ...\n"

def usageOf (program : String) : String :=
  match Verb.all.find? fun v => v.2.signature.program == program with
  | some v => v.2.signature.usage
  | none => topUsage

def topHelp : String :=
  topUsage ++ "\nL-system curve generator that outputs SVG.\n\n" ++
    "  render    Render a JSON config to an SVG file.\n" ++
    "  preset    Render a built-in grammar to an SVG file.\n" ++
    "  presets   List built-in grammars.\n" ++
    "  expand    Print the expanded symbol string.\n" ++
    "  validate  Validate a JSON config and print a brief summary.\n\n" ++
    "A config is an object with any of name, preset, seed, rules, angle, iterations, svg.\n" ++
    "Turtle alphabet: f forward, + and - turn, [ save state, ] restore it and start a new stroke.\n"

def helpOf (program : String) : String :=
  if program == programName then topHelp else usageOf program

structure Farewell where
  stdout : String
  stderr : String
  code : Nat

def Stop.farewell : Stop → Farewell
  | .help program => ⟨helpOf program, "", 0⟩
  | .usage program e => ⟨"", usageOf program ++ program ++ ": error: " ++ e.message ++ "\n", 2⟩

end Lindenmayer.CommandLine
