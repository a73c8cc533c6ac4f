import Lindenmayer.CommandLine.Arguments
import Lindenmayer.Grammar.Expansion

/-!
Invocations of the program: a command with its arguments.
-/

namespace Lindenmayer.CommandLine

inductive Invocation
  | render (config : String) (output : Option String) (iterations limit : Option Int)
  | preset (name : String) (output : Option String) (iterations : Option Int)
      (width height : Option Float) (limit : Option Int)
  | presets
  | expand (config : String) (iterations : Option Int)
  | validate (config : String)
  deriving DecidableEq

def programName : String := "elsy"

inductive Verb
  | render
  | preset
  | presets
  | expand
  | validate
  deriving DecidableEq

def Verb.all : List (String × Verb) :=
  [("render", .render), ("preset", .preset), ("presets", .presets), ("expand", .expand),
    ("validate", .validate)]

def helpFlags : List (String × Flag) := [("-h", .help), ("--help", .help)]

def iterationsFlag : String × Flag := ("--iterations", .iterations)

def limitFlag : String × Flag := ("--max-symbols", .maxSymbols)

def topSignature : Signature := ⟨programName, helpFlags, ["cmd"]⟩

def Verb.signature : Verb → Signature
  | .render => ⟨"elsy render", helpFlags ++ [iterationsFlag, limitFlag], ["config", "output"]⟩
  | .preset =>
    ⟨"elsy preset",
      helpFlags ++ [iterationsFlag, ("--width", .width), ("--height", .height), limitFlag],
      ["name", "output"]⟩
  | .presets => ⟨"elsy presets", helpFlags, []⟩
  | .expand => ⟨"elsy expand", helpFlags ++ [iterationsFlag], ["config"]⟩
  | .validate => ⟨"elsy validate", helpFlags, ["config"]⟩

/-- The values of all options; of one that is given twice the last counts. -/
structure Options where
  iterations : Option Int := none
  limit : Option Int := some defaultLimit
  width : Option Float := some 800
  height : Option Float := some 600

def Options.set (o : Options) : Setting → Options
  | .iterations n => { o with iterations := some n }
  | .maxSymbols n => { o with limit := n }
  | .width x => { o with width := x }
  | .height x => { o with height := x }

def Options.ofSettings (settings : List Setting) : Options := settings.foldl Options.set {}

/-- Only the second of two positional arguments can be left without a word. -/
def Verb.invocation (v : Verb) (a : Arguments) : Invocation :=
  let o := Options.ofSettings a.settings
  let first := (a.positionals.getD 0 none).getD ""
  let second := a.positionals.getD 1 none
  match v with
  | .render => .render first second o.iterations o.limit
  | .preset => .preset first second o.iterations o.width o.height o.limit
  | .presets => .presets
  | .expand => .expand first o.iterations
  | .validate => .validate first

def topStop {α : Type} (e : UsageError) : Except Stop α := .error (.usage programName e)

def readCommand (extras : List String) (verb : String) (args : List String) :
    Except Stop Invocation :=
  match Verb.all.lookup verb with
  | none => topStop (.invalidChoice verb (Verb.all.map Prod.fst))
  | some v => do
    let a ← readArguments v.signature args
    if (extras ++ a.extras).isEmpty then .ok (v.invocation a)
    else topStop (.unrecognized (extras ++ a.extras))

def findVerb (extras : List String) : List String → Except Stop Invocation
  | [] => topStop (.missing topSignature.positionals)
  | ["--"] => topStop (.missing topSignature.positionals)
  | a :: as =>
    if a = "--" then readCommand extras a as
    else
      match classify topSignature a with
      | .error e => topStop e
      | .ok (.option ⟨name, _, value⟩) => .error (helpStop topSignature name value)
      | .ok (.unknown u) => findVerb (extras ++ [u]) as
      | .ok _ => readCommand extras a as

def Invocation.ofArguments (args : List String) : Except Stop Invocation := findVerb [] args

def Invocation.source? : Invocation → Option String
  | .render config _ _ _ => some config
  | .preset .. => none
  | .presets => none
  | .expand config _ => some config
  | .validate config => some config

end Lindenmayer.CommandLine
