import Lindenmayer.CommandLine.Help
import Lindenmayer.CommandLine.Run

/-!
The program: its arguments and the real files go in, and the outcome comes out.
-/

namespace Lindenmayer.Main

open CommandLine

def faultOf : IO.Error → Files.Fault
  | .noFileOrDirectory .. => .missing
  | .alreadyExists .. => .exists
  | .inappropriateType _ 21 _ => .isDirectory
  | .inappropriateType .. => .notDirectory
  | .invalidArgument _ 36 _ => .tooLong
  | .permissionDenied .. => .other 13 "Permission denied"
  | e => .other 5 (toString e)

def attempt {α : Type} (name : String) (action : IO α) : IO (Except Files.Error α) := do
  match Files.nameFault? name with
  | some fault => return .error ⟨fault, name⟩
  | none =>
    try
      return .ok (← action)
    catch e =>
      return .error ⟨faultOf e, name⟩

def readSource (i : Invocation) : IO Source := do
  match i.source? with
  | none => return .ok []
  | some path => attempt path (return (← IO.FS.readBinFile path).toList)

def parentOf (path : String) : IO String := do
  let here := Files.Path.ofString (← IO.currentDir).toString
  let p := Files.Path.ofString path
  return Files.Place.name p.fullRoot (p.full here.segments).dropLast

def writeOutput (path : String) (text : List Char) : IO (Option Files.Error) := do
  let parent ← parentOf path
  match ← attempt parent (IO.FS.createDirAll parent) with
  | .error e => return some e
  | .ok () =>
    match ← attempt path (IO.FS.writeFile path (.ofList text)) with
    | .error e => return some e
    | .ok () => return none

def finish (o : Outcome) : IO UInt32 := do
  IO.print o.stdout
  IO.eprint o.stderr
  match o.exit with
  | .code n => return .ofNat n
  | .escaped e =>
    IO.eprintln e.message
    return 1

def runInvocation (i : Invocation) : IO UInt32 := do
  match i.reply (← readSource i) with
  | .done stdout stderr code => finish ⟨stdout, stderr, .code code⟩
  | .failed stdout e => finish (.ofFailure stdout e)
  | .write output text =>
    finish (.ofWrite text.isSome (← writeOutput output (text.getD [])))

def runArguments (args : List String) : IO UInt32 := do
  match Invocation.ofArguments args with
  | .ok i => runInvocation i
  | .error stop =>
    let f := stop.farewell
    IO.print f.stdout
    IO.eprint f.stderr
    return .ofNat f.code

end Lindenmayer.Main

def main (args : List String) : IO UInt32 := Lindenmayer.Main.runArguments args
