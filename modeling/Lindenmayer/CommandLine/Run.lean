import Lindenmayer.CommandLine.Invocation
import Lindenmayer.Config.Reader
import Lindenmayer.Decimal.General
import Lindenmayer.Files.Tree
import Lindenmayer.Turtle.Curve

/-!
Running the commands. A command reads at most one file before it does anything else, and writes at
most one after everything else, so that what it does is a function of what was read.
-/

namespace Lindenmayer.CommandLine

inductive Failure
  | noName
  | noLimit
  | file (cause : Files.Error)
  | config (cause : Config.FileError)
  | expansion (cause : ExpansionError)
  | walk (cause : WalkError)
  | svg (cause : Svg.Error)
  | noPaths
  | unencodable

def Failure.ofCurve : CurveError → Failure
  | .expansion cause => .expansion cause
  | .walk cause => .walk cause

def Failure.message : Failure → String
  | .noName => "expected str, bytes or os.PathLike object, not list"
  | .noLimit => "'>' not supported between instances of 'list' and 'int'"
  | .file cause => cause.message
  | .config cause => cause.message
  | .expansion cause => cause.message
  | .walk cause => cause.message
  | .svg cause => cause.message
  | .noPaths => "Config produces no drawable geometry"
  | .unencodable => "surrogates not allowed"

/-- Under what a failure is reported. Values that were left out, names that hold a NUL, numbers that
are too large or too long, headings without a direction and texts without an encoding are not
foreseen, and end the program. -/
def Failure.heading? : Failure → Option String
  | .noName => none
  | .noLimit => none
  | .file ⟨.nul, _⟩ => none
  | .file _ => some "File error"
  | .config (.content .numberTooLarge) => none
  | .config (.json _ _ (.tooManyDigits _)) => none
  | .config _ => some "Config error"
  | .expansion _ => some "Config error"
  | .walk (.unmatchedClose _) => some "Structure error"
  | .walk (.noDirection _) => none
  | .svg (.precision _) => none
  | .svg _ => some "Config error"
  | .noPaths => some "Config error"
  | .unencodable => none

/-- A text that is to be written may turn out to have no encoding. -/
inductive Reply
  | done (stdout stderr : String) (code : Nat)
  | write (output : String) (text : Option (List Char))
  | failed (stdout : String) (cause : Failure)

abbrev Source := Except Files.Error (List UInt8)

def loadConfig (path : String) (source : Source) : Except Failure Config :=
  match source with
  | .error e => .error (.file e)
  | .ok bytes => (Config.ofBytes path bytes).mapError .config

def lengthJson : Option Float → Json
  | some x => .float x
  | none => .array []

def presetConfig (name : String) (width height : Option Float) : Except Failure Config :=
  (Config.ofJson (.object [(.ofString "preset", .string name), (.ofString "svg", .object
    [(.ofString "width", lengthJson width), (.ofString "height", lengthJson height)])])).mapError
      (.config ∘ .content)

def isWritable (c : Config) : Bool := (c.name :: c.canvas.texts).all Text.isWhole

/-- The document of a drawing. In a text without an encoding something else stands for each half. -/
def documentOf (c : Config) (d : Drawing Float) : Except Svg.Error (List Char) :=
  Svg.document (c.canvas.map Text.toString) (some c.name.toString) d.paths d.bounds

def renderDocument (c : Config) (limit : Option Int) : Except Failure (Option (List Char)) :=
  match limit with
  | none => .error .noLimit
  | some limit =>
    match c.grammar.curve none (some limit) with
    | .error e => .error (.ofCurve e)
    | .ok d =>
      match documentOf c d with
      | .error e => .error (.svg e)
      | .ok text => .ok (if isWritable c then some text else none)

def writeReply (output : Option String) (text : Option (List Char)) : Reply :=
  match output with
  | none => .failed "" .noName
  | some output => .write output text

def renderConfig (c : Config) (output : Option String) (limit : Option Int) : Reply :=
  if c.iterations ≤ 0 then
    .done "" s!"Nothing rendered: iterations is {c.iterations}, need at least 1\n" 1
  else
    match renderDocument c limit with
    | .error e => .failed "" e
    | .ok text => writeReply output text

def general (x : Float) : String := .ofList (Decimal.general 6 x)

def unlines (ls : List String) : String := String.join (ls.map (· ++ "\n"))

def presetLine (key : String) (g : Grammar) : String :=
  key ++ ": " ++ (g.name.getD "None").toString ++ " (angle=" ++ general g.angle ++
    ", iterations=" ++ (g.iterations.map toString).getD "None" ++ ")"

def boolText (b : Bool) : String := if b then "True" else "False"

def summaryLines (c : Config) : List Text :=
  let g := c.grammar
  let s := c.canvas.surface
  [Text.ofString "name: " ++ c.name, s!"seed length: {g.seed.length}",
    s!"iterations: {c.iterations}", s!"rules: {g.rules.size}"] ++
  (Text.lines (Rules.format g.rules)).map (Text.ofString "  " ++ ·) ++
  [Text.ofString ("angle: " ++ general g.angle),
    Text.ofString ("svg: " ++ general s.width ++ "x" ++ general s.height ++ " margin=" ++
      general s.margin ++ s!" precision={c.canvas.precision} flip_y=" ++ boolText s.flip)]

/-- Lines are printed one by one, until there is one without an encoding. -/
def printed (ls : List Text) : String := unlines ((ls.takeWhile Text.isWhole).map Text.toString)

def interval (low high : Float) : String := "[" ++ general low ++ ", " ++ general high ++ "]"

def drawingLines (symbols : Nat) (d : Drawing Float) : List String :=
  [s!"symbols: {symbols}", s!"paths: {d.paths.length}",
    "bounds: x=" ++ interval d.bounds.minX d.bounds.maxX ++ " y=" ++
      interval d.bounds.minY d.bounds.maxY]

def expandConfig (c : Config) : Except Failure Word :=
  (c.grammar.rules.expandWithin defaultLimit c.grammar.seed c.iterations).mapError .expansion

def validateConfig (c : Config) : Reply :=
  let summary := printed (summaryLines c)
  if (summaryLines c).all Text.isWhole then
    match expandConfig c with
    | .error e => .failed summary e
    | .ok w =>
      match trace w.commands c.grammar.angle with
      | .error e => .failed summary (.walk e)
      | .ok d =>
        let stdout := summary ++ unlines (drawingLines w.length d)
        if d.paths.isEmpty then .failed stdout .noPaths else .done stdout "" 0
  else .failed summary .unencodable

def wordReply (w : Word) : Reply :=
  if Text.isWhole w then .done (Text.toString w ++ "\n") "" 0 else .failed "" .unencodable

def replyOf : Except Failure Reply → Reply
  | .ok r => r
  | .error e => .failed "" e

def Invocation.reply (source : Source) : Invocation → Reply
  | .render config output iterations limit =>
    replyOf ((loadConfig config source).map fun c =>
      renderConfig (c.withIterations iterations) output limit)
  | .preset name output iterations width height limit =>
    replyOf ((presetConfig name width height).map fun c =>
      renderConfig (c.withIterations iterations) output limit)
  | .presets => .done (unlines (Catalog.all.map fun p => presetLine p.1 p.2)) "" 0
  | .expand config iterations =>
    replyOf (do
      let c ← loadConfig config source
      let w ← expandConfig (c.withIterations iterations)
      .ok (wordReply w))
  | .validate config => replyOf ((loadConfig config source).map validateConfig)

inductive Exit
  | code (n : Nat)
  | escaped (cause : Failure)

structure Outcome where
  stdout : String
  stderr : String
  exit : Exit

def Outcome.ofFailure (stdout : String) (e : Failure) : Outcome :=
  match e.heading? with
  | some heading => ⟨stdout, heading ++ ": " ++ e.message ++ "\n", .code 2⟩
  | none => ⟨stdout, "", .escaped e⟩

/-- A file is opened before it is seen that a text has no encoding. -/
def Outcome.ofWrite (encoded : Bool) : Option Files.Error → Outcome
  | none => if encoded then ⟨"", "", .code 0⟩ else .ofFailure "" .unencodable
  | some e => .ofFailure "" (.file e)

def Invocation.sourceIn (i : Invocation) (t : Files.Tree) : Source :=
  match i.source? with
  | none => .ok []
  | some path => t.read path

def Invocation.run (i : Invocation) (t : Files.Tree) : Outcome × Files.Tree :=
  match i.reply (i.sourceIn t) with
  | .done stdout stderr code => (⟨stdout, stderr, .code code⟩, t)
  | .failed stdout e => (.ofFailure stdout e, t)
  | .write output text =>
    let (error, t) := t.write output (Text.Utf8.encode (text.getD []))
    (.ofWrite text.isSome error, t)

def run (args : List String) (t : Files.Tree) : Except Stop (Outcome × Files.Tree) :=
  (Invocation.ofArguments args).map (·.run t)

end Lindenmayer.CommandLine
