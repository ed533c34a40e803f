import AnnotationReport.Json.Value

/-! # Jobs

The jobs of a workflow run, as the API lists them. Of an object only the known members count, each
at most once; other members may have any value at all, as long as their keys are text. An array
gives the known members by their places instead.
-/
namespace AnnotationReport

/-- A job; its id is also the id of its check run. -/
structure Job where
  id : Nat
  name : Option String
deriving DecidableEq, Repr

namespace Job

def textKeys? (members : List (Json.Key × Json.Document)) :
    Option (List (String × Json.Document)) :=
  members.mapM fun m => (Json.stringOf? m.1).map (·, m.2)

/-- The value of a known member, if it is there. `none` when it is there more than once. -/
def member? (key : String) (members : List (String × Json.Document)) :
    Option (Option Json.Document) :=
  match members.filter (·.1 = key) with
  | [] => some none
  | [m] => some (some m.2)
  | _ => none

/-- An id is a numeral of 64 bits without sign, fraction and exponent. -/
def idOf? : Json.Document → Option Nat
  | .number n =>
    match n.integer? with
    | some (.ofNat id) => some id
    | _ => none
  | _ => none

/-- A name is a string, null, or absent. -/
def nameOf? : Option Json.Document → Option (Option String)
  | none => some none
  | some .null => some none
  | some (.string parts) => (Json.stringOf? parts).map some
  | _ => none

def ofParts? (id : Json.Document) (name : Option Json.Document) : Option Job :=
  (idOf? id).bind fun id => (nameOf? name).map fun name => ⟨id, name⟩

def ofMembers? (members : List (String × Json.Document)) : Option Job :=
  (member? "id" members).bind fun id => (member? "name" members).bind fun name =>
    id.bind (ofParts? · name)

def ofDocument? : Json.Document → Option Job
  | .object members => (textKeys? members).bind ofMembers?
  | .array [id] => ofParts? id none
  | .array [id, name] => ofParts? id (some name)
  | _ => none

def read? (body : List UInt8) : Option Job := (Json.Document.read? body).bind ofDocument?

def collection? : Option Json.Document → Option (Option (List Job))
  | none => some none
  | some .null => some none
  | some (.array items) => (items.mapM ofDocument?).map some
  | _ => none

def answer? : Json.Document → Option (Option (List Job))
  | .object members => (textKeys? members).bind fun ms => (member? "jobs" ms).bind collection?
  | .array [] => some none
  | .array [jobs] => collection? (some jobs)
  | _ => none

def readAnswer? (body : List UInt8) : Option (Option (List Job)) :=
  (Json.Document.read? body).bind answer?

end Job
end AnnotationReport
