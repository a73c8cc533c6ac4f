import Lindenmayer.Grammar.Catalog
import Lindenmayer.Rules.Text
import Lindenmayer.Svg.Document

/-!
Configurations: a grammar and the canvas that its curve is drawn on, and what can be wrong with the
description of one.
-/

namespace Lindenmayer

structure Config where
  grammar : Grammar
  canvas : Svg.Canvas Text

namespace Config

def defaultName : Text := "L-System"

def name (c : Config) : Text :=
  match c.grammar.name with
  | none => defaultName
  | some name => if name.isEmpty then defaultName else name

def iterations (c : Config) : Int := c.grammar.defaultIterations

def withIterations (c : Config) : Option Int → Config
  | none => c
  | some n => { c with grammar := { c.grammar with iterations := some n } }

inductive Kind
  | number
  | integer
  | string
  | boolean
  | object
  deriving DecidableEq

def Kind.name : Kind → String
  | .number => "a number"
  | .integer => "an integer"
  | .string => "a string"
  | .boolean => "a boolean"
  | .object => "an object"

inductive Error
  | wrongKind (field : Text) (kind : Kind)
  | numberTooLarge
  | unknownPreset (key : Text)
  | seedMissing
  | seedEmpty
  | ruleKey
  | ruleText (cause : Rules.TextError)
  | negativeIterations
  | notPositive (field : String)
  | negativeMargin
  | precisionRange
  deriving DecidableEq

def Error.message : Error → String
  | .wrongKind field kind => field.escaped ++ " must be " ++ kind.name
  | .numberTooLarge => "int too large to convert to float"
  | .unknownPreset key => Catalog.unknownMessage key
  | .seedMissing => "seed is required unless a preset is given"
  | .seedEmpty => "seed must be non-empty"
  | .ruleKey => "rules keys must be single-character strings"
  | .ruleText cause => cause.message
  | .negativeIterations => ExpansionError.negativeIterations.message
  | .notPositive field => field ++ " must be > 0"
  | .negativeMargin => "svg.margin must be >= 0"
  | .precisionRange => "svg.precision must be between 0 and 10"

end Config

end Lindenmayer
