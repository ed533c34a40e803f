/-! # Repositories

A repository is named by its owner and its own name with one slash between them, and neither is
empty.
-/
namespace AnnotationReport

structure Repository where
  owner : String
  name : String
deriving DecidableEq, Repr

namespace Repository

def ofChars? (text : List Char) : Option Repository :=
  let owner := text.takeWhile (· != '/')
  let name := (text.dropWhile (· != '/')).drop 1
  if owner.isEmpty || name.isEmpty || name.contains '/' then none
  else some ⟨String.ofList owner, String.ofList name⟩

def ofText? (text : String) : Option Repository := ofChars? text.toList

def text (r : Repository) : String := r.owner ++ "/" ++ r.name

end Repository
end AnnotationReport
