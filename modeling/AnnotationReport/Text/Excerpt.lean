/-! # Given texts and excerpts

An optional text counts as given when it is present and not empty; blanks are text like any other.
An excerpt keeps the first characters of a text and marks with three dots that it left some out.
-/
namespace AnnotationReport.Text

def given? (text : Option String) : Option String :=
  text.filter (!·.isEmpty)

def ellipsis : List Char := ['.', '.', '.']

/-- At most `limit` characters of the text, then the ellipsis if any character was left out. -/
def excerpt (text : String) (limit : Nat) : String :=
  if text.toList.length ≤ limit then text
  else String.ofList (text.toList.take limit ++ ellipsis)

end AnnotationReport.Text
