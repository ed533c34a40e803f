/-! # Traces

What a report tells about its progress, beside the report itself: notes at three levels, kept in
the order in which they were made.
-/
namespace AnnotationReport

namespace Trace

inductive Level where
  | info
  | verbose
  | error
deriving DecidableEq, Repr

structure Note where
  level : Level
  message : String
deriving DecidableEq, Repr

end Trace

abbrev Trace := List Trace.Note

namespace Trace

def record (t : Trace) (level : Level) (message : String) : Trace := t ++ [⟨level, message⟩]

/-- The messages at one level, oldest first. -/
def messagesAt (t : Trace) (level : Level) : List String :=
  (t.filter (·.level = level)).map Note.message

@[simp] theorem messagesAt_append (t u : Trace) (level : Level) :
    messagesAt (t ++ u) level = t.messagesAt level ++ messagesAt u level := by
  simp [messagesAt]

end Trace
end AnnotationReport
