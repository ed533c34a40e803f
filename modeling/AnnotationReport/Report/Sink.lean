/-! # Sinks

Where a report goes: a sink keeps the bytes written to it, up to a limit if it has one. A write that
does not fit keeps what still fits and fails.
-/
namespace AnnotationReport

structure Sink where
  limit : Option Nat
  canFlush : Bool
  bytes : List UInt8
deriving DecidableEq, Repr

namespace Sink

inductive Error where
  | full
  | noFlush
deriving DecidableEq, Repr

def Error.message : Error → String
  | full => "sink is full"
  | noFlush => "sink cannot flush"

/-- An empty sink that takes everything. -/
def unlimited : Sink := ⟨none, true, []⟩

/-- How many of `n` bytes still fit. -/
def room (s : Sink) (n : Nat) : Nat :=
  match s.limit with
  | none => n
  | some limit => min n (limit - s.bytes.length)

def write (s : Sink) (bytes : List UInt8) : Sink × Except Error Unit :=
  ({ s with bytes := s.bytes ++ bytes.take (s.room bytes.length) },
    if bytes.length ≤ s.room bytes.length then .ok () else .error .full)

def flush (s : Sink) : Except Error Unit := if s.canFlush then .ok () else .error .noFlush

end Sink
end AnnotationReport
