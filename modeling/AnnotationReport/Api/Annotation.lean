import AnnotationReport.Json.Printer

/-! # Annotations

An annotation is a JSON object of which every member is kept, in order. It is reported when its
level is a warning or an error, in any case.
-/
namespace AnnotationReport

structure Annotation where
  fields : List (String × Json)

namespace Annotation

def levelKey : String := "annotation_level"

def reportedLevels : List String := ["warning", "error"]

def level? (a : Annotation) : Option String :=
  match a.fields.lookup levelKey with
  | some (.string s) => some s
  | _ => none

/-- ASCII letters in lower case and other characters as they are. -/
def lowerCase (s : String) : String := String.ofList (s.toList.map Char.toLower)

def isReportable (a : Annotation) : Bool :=
  a.level?.any fun level => reportedLevels.contains (lowerCase level)

def text (a : Annotation) : List Char := Json.render (.object a.fields)

/-- The annotation of a document that nests at most `depth` containers. -/
def ofDocument? (depth : Nat) (d : Json.Document) : Option Annotation :=
  match Json.ofDocument? depth d with
  | some (.object fields) => some ⟨fields⟩
  | _ => none

def read? (body : List UInt8) : Option Annotation :=
  (Json.Document.read? body).bind (ofDocument? Json.maxDepth)

/-- The list of annotations in an answer of the API, which may be null. -/
def answer? : Json.Document → Option (Option (List Annotation))
  | .null => some none
  | .array items => (items.mapM (ofDocument? (Json.maxDepth - 1))).map some
  | _ => none

def readAnswer? (body : List UInt8) : Option (Option (List Annotation)) :=
  (Json.Document.read? body).bind answer?

end Annotation
end AnnotationReport
