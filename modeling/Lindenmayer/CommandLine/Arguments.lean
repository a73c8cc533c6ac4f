import Lindenmayer.Decimal.Reading
import Lindenmayer.Text.Quoted

/-!
Arguments of a command: positional ones, and options that may stand anywhere between them, may be
shortened as long as that is unambiguous, and may have their value behind an equals sign.
-/

namespace Lindenmayer.CommandLine

inductive Flag
  | help
  | iterations
  | maxSymbols
  | width
  | height
  deriving DecidableEq

structure Signature where
  program : String
  flags : List (String × Flag)
  positionals : List String

inductive Setting
  | iterations (n : Int)
  | maxSymbols (n : Option Int)
  | width (x : Option Float)
  | height (x : Option Float)

inductive UsageError
  | ambiguous (argument : String) (names : List String)
  | expectedOne (flag : Flag)
  | ignoredValue (value : String)
  | invalidInt (flag : Flag) (value : String)
  | invalidFloat (flag : Flag) (value : String)
  | invalidChoice (value : String) (choices : List String)
  | missing (names : List String)
  | unrecognized (arguments : List String)
  deriving DecidableEq

def Flag.name : Flag → String
  | .help => "-h/--help"
  | .iterations => "--iterations"
  | .maxSymbols => "--max-symbols"
  | .width => "--width"
  | .height => "--height"

def commaList (names : List String) : String := ", ".intercalate names

def UsageError.message : UsageError → String
  | .ambiguous argument names =>
    "ambiguous option: " ++ argument ++ " could match " ++ commaList names
  | .expectedOne flag => "argument " ++ flag.name ++ ": expected one argument"
  | .ignoredValue value =>
    "argument " ++ Flag.help.name ++ ": ignored explicit argument " ++ Text.quote value
  | .invalidInt flag value =>
    "argument " ++ flag.name ++ ": invalid int value: " ++ Text.quote value
  | .invalidFloat flag value =>
    "argument " ++ flag.name ++ ": invalid float value: " ++ Text.quote value
  | .invalidChoice value choices =>
    "argument cmd: invalid choice: " ++ Text.quote value ++ " (choose from " ++
      commaList (choices.map fun choice : String => Text.quote choice) ++ ")"
  | .missing names => "the following arguments are required: " ++ commaList names
  | .unrecognized arguments => "unrecognized arguments: " ++ " ".intercalate arguments

inductive Stop
  | help (program : String)
  | usage (program : String) (error : UsageError)
  deriving DecidableEq

structure Candidate where
  name : String
  flag : Flag
  value : Option (List Char)

inductive Token
  | word (text : String)
  | separator
  | option (meaning : Candidate)
  | unknown (text : String)

def startsWith (s beginning : List Char) : Bool := beginning.isPrefixOf s

def splitEquals (s : List Char) : List Char × Option (List Char) :=
  match s.dropWhile (· != '=') with
  | [] => (s, none)
  | _ :: value => (s.takeWhile (· != '='), some value)

def longCandidates (sig : Signature) (s : List Char) : List Candidate :=
  let (name, value) := splitEquals s
  (sig.flags.filter fun f => startsWith f.1.toList name).map fun f => ⟨f.1, f.2, value⟩

def shortCandidates (sig : Signature) (s : List Char) : List Candidate :=
  sig.flags.filterMap fun f =>
    if f.1.toList = s.take 2 then some ⟨f.1, f.2, some (s.drop 2)⟩
    else if startsWith f.1.toList s then some ⟨f.1, f.2, none⟩
    else none

def isDecimalDigit (c : Char) : Bool := (Decimal.digitValue c).isSome

def isUnsigned (s : List Char) : Bool :=
  let s := if s.getLast? == some '\n' then s.dropLast else s
  match s.span isDecimalDigit with
  | (ds, []) => !ds.isEmpty
  | (_, '.' :: ds) => !ds.isEmpty && ds.all isDecimalDigit
  | _ => false

/-- What an argument is that begins with a dash and has more behind it. A number below zero and a
text with a space are words unless they mean an option. -/
def classifyDashed (sig : Signature) (c : Char) (s : List Char) : Except UsageError Token :=
  let chars := '-' :: c :: s
  let text := String.ofList chars
  match sig.flags.lookup text, splitEquals chars with
  | some flag, _ => .ok (.option ⟨text, flag, none⟩)
  | none, (name, value) =>
    match value, sig.flags.lookup (.ofList name) with
    | some value, some flag => .ok (.option ⟨.ofList name, flag, some value⟩)
    | _, _ =>
      match if c = '-' then longCandidates sig chars else shortCandidates sig chars with
      | [] => .ok (if isUnsigned (c :: s) || (c :: s).contains ' ' then .word text else .unknown text)
      | [x] => .ok (.option x)
      | xs => .error (.ambiguous text (xs.map (·.name)))

def classify (sig : Signature) (text : String) : Except UsageError Token :=
  match text.toList with
  | '-' :: c :: s => classifyDashed sig c s
  | _ => .ok (.word text)

def tokens (sig : Signature) : List String → Except UsageError (List Token)
  | [] => .ok []
  | a :: as =>
    if a = "--" then .ok (.separator :: as.map .word)
    else do
      let t ← classify sig a
      let ts ← tokens sig as
      .ok (t :: ts)

def readInt (flag : Flag) (value : String) : Except UsageError Int :=
  match Decimal.readInt value.toList with
  | some n => .ok n
  | none => .error (.invalidInt flag value)

def readFloat (flag : Flag) (value : String) : Except UsageError Float :=
  match Decimal.readFloat value.toList with
  | some x => .ok x
  | none => .error (.invalidFloat flag value)

def wordOf (text : String) : Option String := if text = "--" then none else some text

/-- Reads the value of an option. Iterations without a value are none at all; the others stay
without one. -/
def readSetting (flag : Flag) (value : Option String) : Except UsageError (List Setting) :=
  match flag with
  | .help => .ok []
  | .iterations => do
    let n ← value.mapM (readInt flag)
    .ok [.iterations (n.getD 0)]
  | .maxSymbols => do
    let n ← value.mapM (readInt flag)
    .ok [.maxSymbols n]
  | .width => do
    let x ← value.mapM (readFloat flag)
    .ok [.width x]
  | .height => do
    let x ← value.mapM (readFloat flag)
    .ok [.height x]

def attachedError? (letters : List Char) : Option UsageError :=
  match letters.dropWhile (· == 'h') with
  | [] => if letters.isEmpty then some (.ignoredValue "") else none
  | rest => some (.ignoredValue (.ofList rest))

def helpStop (sig : Signature) (name : String) : Option (List Char) → Stop
  | none => .help sig.program
  | some value =>
    match if name = "-h" then attachedError? value else some (.ignoredValue (.ofList value)) with
    | none => .help sig.program
    | some e => .usage sig.program e

/-- Arguments that have been read, the latest first, and the positional ones still missing. -/
structure Progress where
  missing : List String
  found : List (Option String) := []
  settings : List Setting := []
  extras : List String := []

namespace Progress

def extra (p : Progress) (text : String) : Progress := { p with extras := text :: p.extras }

/-- Takes a word for the next positional argument, whose value it may leave open. -/
def word (p : Progress) (text : String) (value : Option String) : Progress :=
  match p.missing with
  | [] => p.extra text
  | _ :: missing => { p with missing, found := value :: p.found }

def set (p : Progress) (settings : List Setting) : Progress :=
  { p with settings := settings ++ p.settings }

end Progress

def setFlag (sig : Signature) (p : Progress) (flag : Flag) (value : String) : Except Stop Progress :=
  match readSetting flag (wordOf value) with
  | .ok settings => .ok (p.set settings)
  | .error e => .error (.usage sig.program e)

/-- Reads the tokens. A separator is used up by a positional argument in front of it, or else by one
behind it; no other dashes are then taken from that argument. -/
def scan (sig : Signature) (p : Progress) (afterPositional : Bool) :
    List Token → Except Stop Progress
  | [] => .ok p
  | .word w :: ts => scan sig (p.word w (wordOf w)) (!p.missing.isEmpty) ts
  | .separator :: ts =>
    if afterPositional then scan sig p false ts
    else
      match ts with
      | .word w :: ts' =>
        if p.missing.isEmpty then scan sig ((p.extra "--").extra w) false ts'
        else scan sig (p.word w (some w)) true ts'
      | ts => scan sig (p.extra "--") false ts
  | .unknown u :: ts => scan sig (p.extra u) false ts
  | .option ⟨name, flag, value⟩ :: ts =>
    if flag = .help then .error (helpStop sig name value)
    else
      match value, ts with
      | some v, ts => do
        let p ← setFlag sig p flag (.ofList v)
        scan sig p false ts
      | none, .word w :: ts => do
        let p ← setFlag sig p flag w
        scan sig p false ts
      | none, _ => .error (.usage sig.program (.expectedOne flag))

structure Arguments where
  positionals : List (Option String)
  settings : List Setting
  extras : List String

def readArguments (sig : Signature) (args : List String) : Except Stop Arguments :=
  match tokens sig args with
  | .error e => .error (.usage sig.program e)
  | .ok ts => do
    let p ← scan sig ⟨sig.positionals, [], [], []⟩ false ts
    if p.missing.isEmpty then
      .ok ⟨p.found.reverse, p.settings.reverse, p.extras.reverse⟩
    else .error (.usage sig.program (.missing p.missing))

end Lindenmayer.CommandLine
