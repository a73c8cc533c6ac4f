import Lindenmayer.Text.Lines
import Mathlib.Data.List.Basic
import Mathlib.Data.List.Nodup

/-! A reader of XML documents: a declaration and one root, with tags, attributes, references and
character data. Comments, instructions, marked sections and document types are not read. -/

namespace Lindenmayer.Xml

inductive Node
  | text (s : List Char)
  | element (name : List Char) (attributes : List (List Char × List Char)) (children : List Node)

namespace Node

def isNamed (n : List Char) : Node → Bool
  | text _ => false
  | element m _ _ => m == n

def children : Node → List Node
  | text _ => []
  | element _ _ ns => ns

end Node

def inRanges (ranges : List (ℕ × ℕ)) (c : Char) : Bool :=
  ranges.any fun r => r.1 ≤ c.toNat && c.toNat ≤ r.2

/-- The characters of a document. -/
def isChar (c : Char) : Bool :=
  inRanges [(0x9, 0xA), (0xD, 0xD), (0x20, 0xD7FF), (0xE000, 0xFFFD), (0x10000, 0x10FFFF)] c

def isSpace (c : Char) : Bool := c == ' ' || c == '\t' || c == '\n' || c == '\r'

def isNameStart (c : Char) : Bool :=
  c == ':' || c == '_' || c.isAlpha ||
    inRanges [(0xC0, 0xD6), (0xD8, 0xF6), (0xF8, 0x2FF), (0x370, 0x37D), (0x37F, 0x1FFF),
      (0x200C, 0x200D), (0x2070, 0x218F), (0x2C00, 0x2FEF), (0x3001, 0xD7FF), (0xF900, 0xFDCF),
      (0xFDF0, 0xFFFD), (0x10000, 0xEFFFF)] c

def isNameChar (c : Char) : Bool :=
  isNameStart c || c == '-' || c == '.' || c.isDigit ||
    inRanges [(0xB7, 0xB7), (0x300, 0x36F), (0x203F, 0x2040)] c

def name? (s : List Char) : Option (List Char × List Char) :=
  if s.head?.any isNameStart then some (s.span isNameChar) else none

def digit? (base : ℕ) (c : Char) : Option ℕ :=
  let d :=
    if c.isDigit then c.toNat - 48
    else if 'a' ≤ c && c ≤ 'f' then c.toNat - 87
    else if 'A' ≤ c && c ≤ 'F' then c.toNat - 55
    else base
  if d < base then some d else none

def numbered? (base : ℕ) (ds : List Char) : Option Char := do
  let n ← ds.foldlM (fun n c => (digit? base c).map (base * n + ·)) 0
  if ds.isEmpty || !(Char.ofNat n).toNat == n || !isChar (Char.ofNat n) then none
  else some (Char.ofNat n)

/-- The character that is referred to between an ampersand and a semicolon. -/
def reference? : List Char → Option Char
  | '#' :: 'x' :: ds => numbered? 16 ds
  | '#' :: ds => numbered? 10 ds
  | n => [("amp".toList, '&'), ("lt".toList, '<'), ("gt".toList, '>'), ("quot".toList, '"'),
      ("apos".toList, '\'')].lookup n

/-- Resolves references. A reference under way has its latest part in front. -/
def resolve (plain : Char → Option Char) : Option (List Char) → List Char → Option (List Char)
  | none, [] => some []
  | some _, [] => none
  | none, c :: s =>
    if c = '&' then resolve plain (some []) s
    else do
      let d ← plain c
      let ds ← resolve plain none s
      some (d :: ds)
  | some n, c :: s =>
    if c = ';' then do
      let d ← reference? n.reverse
      let ds ← resolve plain none s
      some (d :: ds)
    else resolve plain (some (c :: n)) s

def decode (plain : Char → Option Char) (s : List Char) : Option (List Char) :=
  resolve plain none (Text.unifyBreaks [] s)

def valueChar? (c : Char) : Option Char :=
  if isSpace c then some ' ' else if c = '<' || !isChar c then none else some c

def dataChar? (c : Char) : Option Char := if isChar c then some c else none

def value? : List Char → Option (List Char × List Char)
  | [] => none
  | q :: s =>
    if q = '"' || q = '\'' then
      match s.span (· != q) with
      | (_, []) => none
      | (raw, _ :: rest) => (decode valueChar? raw).map (·, rest)
    else none

def attribute? (s : List Char) : Option ((List Char × List Char) × List Char) := do
  let (n, s) ← name? s
  let s ← (s.dropWhile isSpace).dropPrefix? ['=']
  let (v, s) ← value? (s.dropWhile isSpace)
  some ((n, v), s)

def attributes? : ℕ → List Char → Option (List (List Char × List Char) × List Char)
  | 0, _ => none
  | fuel + 1, s =>
    let inner := s.dropWhile isSpace
    if s.head?.any isSpace && inner.head?.any isNameStart then do
      let (a, s) ← attribute? inner
      let (as, s) ← attributes? fuel s
      some (a :: as, s)
    else some ([], inner)

def isSectionEnd : List Char → Bool
  | [] => false
  | c :: s => "]]>".toList.isPrefixOf (c :: s) || isSectionEnd s

def texts? (raw : List Char) : Option (List Node) :=
  if isSectionEnd raw then none
  else (decode dataChar? raw).map fun s => if s.isEmpty then [] else [.text s]

def endTag? (n s : List Char) : Option (List Char) := do
  let s ← s.dropPrefix? ('<' :: '/' :: n)
  (s.dropWhile isSpace).dropPrefix? ['>']

/-- A tag up to where it is closed. No name of an attribute is given twice. -/
def openTag? (s : List Char) :
    Option ((List Char × List (List Char × List Char)) × List Char) := do
  let s ← s.dropPrefix? ['<']
  let (n, s) ← name? s
  let (as, s) ← attributes? (s.length + 1) s
  if (as.map Prod.fst).Nodup then some ((n, as), s) else none

/-- An element, with a reader for what stands between its tags. -/
def element? (content : List Char → Option (List Node × List Char)) (s : List Char) :
    Option (Node × List Char) := do
  let ((n, as), s) ← openTag? s
  match s with
  | '/' :: '>' :: s => some (.element n as [], s)
  | '>' :: s => do
    let (ns, s) ← content s
    let s ← endTag? n s
    some (.element n as ns, s)
  | _ => none

/-- What stands before an end tag. -/
def content? : ℕ → List Char → Option (List Node × List Char)
  | 0, _ => none
  | fuel + 1, s => do
    let (raw, s) := s.span (· != '<')
    let ts ← texts? raw
    if "</".toList.isPrefixOf s then some (ts, s)
    else do
      let (n, s) ← element? (content? fuel) s
      let (ns, s) ← content? fuel s
      some (ts ++ n :: ns, s)

def declaration? (s : List Char) : Option (List Char) :=
  match s.dropPrefix? "<?xml".toList with
  | none => some s
  | some s => do
    let (as, s) ← attributes? (s.length + 1) s
    if as.lookup "version".toList = some "1.0".toList &&
        (as.map Prod.fst).isPrefixOf ["version".toList, "encoding".toList, "standalone".toList] then
      s.dropPrefix? "?>".toList
    else none

/-- The root of a document. -/
def read (s : List Char) : Option Node := do
  let s ← declaration? s
  let (root, s) ← element? (content? (s.length + 1)) (s.dropWhile isSpace)
  if s.all isSpace then some root else none

end Lindenmayer.Xml
