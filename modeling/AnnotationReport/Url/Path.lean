import AnnotationReport.Url.Encoding

/-! # Paths

A path is a list of segments, each written after a slash. Segments are added one by one: a single
dot adds nothing, two dots take back the segment before, a dot at the end leaves an empty segment.
A segment that names a drive, such as `C:`, is never taken back. In the path of a file a drive may
make a segment of its own out of the beginning of another.
-/
namespace AnnotationReport.Url

/-- Tabs and line ends have no place in a URL and are left out. -/
def isBreak (c : Char) : Bool := c = '\t' || c = '\n' || c = '\r'

def significant (text : List Char) : List Char := text.filter (!isBreak ·)

abbrev Segment := List Char

/-- Segments after slashes, or, under a few schemes, a text that begins with no slash. -/
inductive Path where
  | segments (list : List Segment)
  | rootless (text : List Char)
deriving DecidableEq, Repr

namespace Path

def singleDots : List Segment := ["." , "%2e", "%2E"].map String.toList

def doubleDots : List Segment :=
  ["..", "%2e.", "%2E.", ".%2e", ".%2E", "%2e%2e", "%2e%2E", "%2E%2e", "%2E%2E"].map String.toList

def isDrive : Segment → Bool
  | [c, d] => c.isAlpha && (d = ':' || d = '|')
  | _ => false

/-- Whether a segment names a drive, or a place on it after a backslash. -/
def isOnDrive (s : Segment) : Bool :=
  isDrive (s.take 2) && (s.length = 2 || (s.drop 2).head? = some '\\')

def shorten (done : List Segment) : List Segment :=
  if done.getLast?.any isOnDrive then done else done.dropLast

/-- A drive that begins the path of a file is written with a colon. -/
def withDrive (file : Bool) (done : List Segment) (s : Segment) : Segment :=
  if file && done.isEmpty && isDrive s then s.take 1 ++ [':'] else s

/-- Adds a segment after which the path goes on. -/
def push (file : Bool) (done : List Segment) (s : Segment) : List Segment :=
  if doubleDots.contains s then shorten done
  else if singleDots.contains s then done
  else done ++ [withDrive file done s]

def pushLast (file : Bool) (done : List Segment) (s : Segment) : List Segment :=
  if doubleDots.contains s then shorten done ++ [[]]
  else if singleDots.contains s then done ++ [[]]
  else done ++ [withDrive file done s]

def pushAll (done : List Segment) : List Segment → List Segment
  | [] => done
  | [s] => pushLast false done s
  | s :: r => pushAll (push false done s) r

/-- A segment as the path of a file writes it: where `rest` is not empty, a break stands between a
drive and the rest. -/
structure Broken where
  start : Segment
  rest : Segment
deriving DecidableEq, Repr

/-- A segment as a text writes it, parted by a break right after the colon of a drive. -/
def Broken.ofText (set : EncodeSet) (raw : List Char) : Broken :=
  let text := significant raw
  let drive := raw.take (raw.length - (raw.dropWhile (· != ':')).length + 1)
  if isDrive (significant drive) && (raw.drop drive.length).head?.any isBreak then
    ⟨text.take 2, encode set (text.drop 2)⟩
  else ⟨encode set text, []⟩

def Broken.whole (b : Broken) : Segment := b.start ++ b.rest

/-- Whether a segment makes two, neither of which is then a matter of dots or drives. This is so at
the beginning of a path only. -/
def Broken.parts (b : Broken) (done : List Segment) : Bool := done.isEmpty && !b.rest.isEmpty

def pushFile (done : List Segment) : List Broken → List Segment
  | [] => done
  | [b] => if b.parts done then [b.start, b.rest] else pushLast true done b.whole
  | b :: r => pushFile (if b.parts done then [b.start, b.rest] else push true done b.whole) r

/-- Whether a drive comes to begin the path as a segment that no break made. -/
def beginsWithDrive (done : List Segment) : List Broken → Bool
  | [] => false
  | b :: r =>
    if b.parts done then false
    else done.isEmpty && isDrive b.whole || beginsWithDrive (push true done b.whole) r

/-- Adds a segment to a complete path, in place of the segment of the root. -/
def extend (file : Bool) (segments : List Segment) (b : Broken) : List Segment :=
  let base := if segments = [[]] then [] else segments
  if file then pushFile base [b] else pushLast false base b.whole

/-- A path without the empty segment that a slash at its end makes. -/
def trim (segments : List Segment) : List Segment :=
  if 1 < segments.length ∧ segments.getLast? = some [] then segments.dropLast else segments

def joined (segments : List Segment) : List Char := segments.flatMap ('/' :: ·)

@[simp] theorem joined_append (first second : List Segment) :
    joined (first ++ second) = joined first ++ joined second :=
  List.flatMap_append

def text : Path → List Char
  | .segments list => joined list
  | .rootless t => t

end Path
end AnnotationReport.Url
