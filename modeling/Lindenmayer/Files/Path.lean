/-!
Names of files. A name is a list of segments between slashes, and one that begins with a slash does
not count from the current directory. Two slashes in front are kept, more of them are one.
-/

namespace Lindenmayer.Files

structure Path where
  /-- The slashes in front. -/
  root : String
  segments : List String
  /-- Whether a slash ends the name. -/
  closed : Bool
  deriving DecidableEq

namespace Path

def split : List Char → List (List Char)
  | [] => [[]]
  | c :: s =>
    if c = '/' then [] :: split s
    else
      match split s with
      | [] => [[c]]
      | p :: ps => (c :: p) :: ps

def rootOf : List Char → String
  | '/' :: '/' :: '/' :: _ => "/"
  | '/' :: '/' :: _ => "//"
  | '/' :: _ => "/"
  | _ => ""

def ofString (s : String) : Path where
  root := rootOf s.toList
  segments := ((split s.toList).filter (!·.isEmpty)).map String.ofList
  closed := s.toList.getLast? == some '/'

def absolute (p : Path) : Bool := !p.root.isEmpty

def fullRoot (p : Path) : String := if p.absolute then p.root else "/"

def isDots (segment : String) : Bool := segment == "." || segment == ".."

/-- Follows the dots without looking at the files: each pair of them takes one segment back, and
there is nothing above the first directory. -/
def normalize (done : List String) : List String → List String
  | [] => done.reverse
  | s :: ss =>
    if s = "." then normalize done ss
    else if s = ".." then normalize done.tail ss
    else normalize (s :: done) ss

def full (p : Path) (here : List String) : List String :=
  normalize [] (if p.absolute then p.segments else here ++ p.segments)

end Path

end Lindenmayer.Files
