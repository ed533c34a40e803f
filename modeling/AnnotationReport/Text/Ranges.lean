/-! # Ranges

A table of characters is a list of ranges of their numbers, with both ends.
-/
namespace AnnotationReport.Text

abbrev Range := Nat × Nat

def inRanges (n : Nat) (table : List Range) : Bool := table.any fun r => r.1 ≤ n && n ≤ r.2

end AnnotationReport.Text
