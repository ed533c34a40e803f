/-! # The product

The names and the version under which the program shows itself.
-/
namespace AnnotationReport.Product

def command : String := "annotations"

def name : String := "ci-annotations"

def version : String := "0.1.0"

/-- The commit that was built; a build outside a repository has none. -/
def commit : String := "N/A"

def userAgent : String := name ++ "/" ++ version

/-- Exit status of a complete report. -/
def success : Nat := 0

/-- Exit status of a report that was given up. -/
def terminated : Nat := 1

/-- Exit status after arguments that were refused. -/
def refused : Nat := 2

end AnnotationReport.Product
