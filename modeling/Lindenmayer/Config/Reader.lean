import Lindenmayer.Config.Basic
import Lindenmayer.Json.Reader
import Lindenmayer.Text.Utf8

/-!
Reading a configuration from JSON. The fields are looked at in a fixed order, and the first that is
wrong is reported.
-/

namespace Lindenmayer.Config

abbrev Members := List (Text × Json)

def asNumber (field : Text) : Json → Except Error Float
  | .float x => .ok x
  | .int n =>
    match Binary64.ofInt? n with
    | some x => .ok x
    | none => .error .numberTooLarge
  | _ => .error (.wrongKind field .number)

def asInteger (field : Text) : Json → Except Error Int
  | .int n => .ok n
  | _ => .error (.wrongKind field .integer)

def asString (field : Text) : Json → Except Error Text
  | .string s => .ok s
  | _ => .error (.wrongKind field .string)

def asBoolean (field : Text) : Json → Except Error Bool
  | .bool b => .ok b
  | _ => .error (.wrongKind field .boolean)

def asObject (field : Text) : Json → Except Error Members
  | .object ms => .ok ms
  | _ => .error (.wrongKind field .object)

def member {α : Type} (ms : Members) (key : String) (read : Json → Except Error α) (absent : α) :
    Except Error α :=
  match ms.lookup (.ofString key) with
  | some v => read v
  | none => .ok absent

def require (holds : Bool) (e : Error) : Except Error Unit := if holds then .ok () else .error e

def rulesOfText (s : Text) : Except Error RuleTable := (Rules.parse s).mapError .ruleText

def readRuleLines (index : Nat) : List Json → Except Error (List Text)
  | [] => .ok []
  | v :: vs => do
    let line ← asString s!"rules[{index}]" v
    let lines ← readRuleLines (index + 1) vs
    .ok (line :: lines)

def readRuleMembers (t : RuleTable) : Members → Except Error RuleTable
  | [] => .ok t
  | (k, v) :: ms => do
    require (k.length == 1) .ruleKey
    let w ← asString (.ofString "rules['" ++ k ++ .ofString "']") v
    readRuleMembers (t.insert k w) ms

def readRules : Json → Except Error RuleTable
  | .string s => rulesOfText s
  | .array vs => do
    let lines ← readRuleLines 0 vs
    rulesOfText (Text.joinLines lines)
  | v => do
    let ms ← asObject "rules" v
    readRuleMembers .empty ms

def readPreset (v : Json) : Except Error (Option Grammar) := do
  let key ← asString "preset" v
  match Catalog.find? key with
  | some g => .ok (some g)
  | none => .error (.unknownPreset key)

def readSeed (base : Option Grammar) (ms : Members) : Except Error Word :=
  match ms.lookup (.ofString "seed"), base with
  | some v, _ => asString "seed" v
  | none, some g => .ok g.seed
  | none, none => .error .seedMissing

def readGrammar (ms : Members) : Except Error Grammar := do
  let base ← member ms "preset" readPreset none
  let name ← member ms "name" (asString "name") ((base.bind (·.name)).getD defaultName)
  let seed ← readSeed base ms
  require (!seed.isEmpty) .seedEmpty
  let rules ← member ms "rules" readRules ((base.map (·.rules)).getD .empty)
  let angle ← member ms "angle" (asNumber "angle") ((base.map (·.angle)).getD 90)
  let iterations ←
    member ms "iterations" (asInteger "iterations") ((base.bind (·.iterations)).getD 0)
  require (0 ≤ iterations) .negativeIterations
  .ok ⟨rules, seed, angle, some iterations, some name⟩

def readStyle (ms : Members) : Except Error (Svg.Style Text) := do
  let absent := ({} : Svg.Style).map Text.ofString
  let stroke ← member ms "stroke" (asString "svg.style.stroke") absent.stroke
  let width ← member ms "stroke_width" (asNumber "svg.style.stroke_width") absent.strokeWidth
  let fill ← member ms "fill" (asString "svg.style.fill") absent.fill
  let linecap ← member ms "stroke_linecap" (asString "svg.style.stroke_linecap") absent.linecap
  let linejoin ← member ms "stroke_linejoin" (asString "svg.style.stroke_linejoin") absent.linejoin
  .ok ⟨stroke, width, fill, linecap, linejoin⟩

def readBackground : Json → Except Error (Option Text)
  | .null => .ok none
  | v => do
    let s ← asString "svg.background" v
    .ok (some s)

def readCanvas (ms : Members) : Except Error (Svg.Canvas Text) := do
  let width ← member ms "width" (asNumber "svg.width") 800
  let height ← member ms "height" (asNumber "svg.height") 600
  require (0 < width) (.notPositive "svg.width")
  require (0 < height) (.notPositive "svg.height")
  let margin ← member ms "margin" (asNumber "svg.margin") 10
  require (0 ≤ margin) .negativeMargin
  let precision ← member ms "precision" (asInteger "svg.precision") 3
  require (0 ≤ precision ∧ precision ≤ 10) .precisionRange
  let flip ← member ms "flip_y" (asBoolean "svg.flip_y") true
  let styleMembers ← member ms "style" (asObject "svg.style") []
  let style ← readStyle styleMembers
  let background ← member ms "background" readBackground none
  .ok ⟨⟨width, height, margin, flip⟩, precision, style, background⟩

/-- Reads a configuration. The grammar is looked at before the canvas. -/
def ofJson (v : Json) : Except Error Config := do
  let ms ← asObject "root" v
  let grammar ← readGrammar ms
  let svg ← member ms "svg" (asObject "svg") []
  let canvas ← readCanvas svg
  .ok ⟨grammar, canvas⟩

inductive FileError
  | encoding (path : String) (cause : Text.Utf8.Error)
  | json (path : String) (text : List Char) (cause : Json.Error)
  | content (cause : Error)

def encodingMessage (e : Text.Utf8.Error) : String :=
  "'utf-8' codec can't decode " ++
    (if e.size = 1 then
      "byte 0x" ++ .ofList (Text.hexDigits 2 e.octet.toNat) ++ s!" in position {e.start}: "
    else s!"bytes in position {e.start}-{e.start + e.size - 1}: ") ++ e.fault.message

def FileError.message : FileError → String
  | .encoding path cause => path ++ " is not valid UTF-8: " ++ encodingMessage cause
  | .json path text (.malformed reason position) =>
    s!"Invalid JSON in {path}: " ++ (Json.Error.malformed reason position).message text
  | .json _ text (.tooManyDigits count) => (Json.Error.tooManyDigits count).message text
  | .content cause => cause.message

def ofText (path : String) (text : List Char) : Except FileError Config :=
  let text := Text.unifyBreaks [] text
  match Json.read text with
  | .error e => .error (.json path text e)
  | .ok v => (ofJson v).mapError .content

def ofBytes (path : String) (bytes : List UInt8) : Except FileError Config :=
  match Text.Utf8.decode bytes with
  | .error e => .error (.encoding path e)
  | .ok text => ofText path text

end Lindenmayer.Config
