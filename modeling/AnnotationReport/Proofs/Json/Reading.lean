import AnnotationReport.Json.Document
import Mathlib.Data.List.Basic

/-! # Reading documents

The tokens of a document are read as that document, whatever containers are open around it.
-/
namespace AnnotationReport.Json.Document

section Run

theorem run_append {s t : Reader} {first : List Token} (h : s.run first = some t)
    (second : List Token) : s.run (first ++ second) = t.run second := by
  induction first generalizing s with
  | nil => exact congrArg (·.run second) (Option.some.inj h)
  | cons token r ih =>
    obtain ⟨u, hu, hr⟩ := Option.bind_eq_some_iff.mp h
    rw [List.cons_append, Reader.run, hu]
    exact ih hr

/-- The first item is read like any other: no value begins with the end of an array. -/
theorem run_firstItem (fs : List Frame) (items : List Document) (h : items ≠ []) (rest : List Token) :
    (Reader.firstItem fs).run (itemTokens items ++ rest) =
      (Reader.value (.array [] :: fs)).run (itemTokens items ++ rest) := by
  match items with
  | [d] => cases d <;> rfl
  | d :: _ :: _ => cases d <;> rfl

theorem run_firstKey (fs : List Frame) (members : List (Key × Document)) (h : members ≠ [])
    (rest : List Token) : (Reader.firstKey fs).run (memberTokens members ++ rest) =
      (Reader.nextKey [] fs).run (memberTokens members ++ rest) := by
  match members with
  | [(_, _)] => rfl
  | (_, _) :: _ :: _ => rfl

end Run

-- The induction follows `tokens`: a value in its place, items, members, one member. What is open around
-- the value is arbitrary, since each container opens one more frame.
mutual

theorem run_tokens (fs : List Frame) : ∀ d : Document,
    (Reader.value fs).run (tokens d) = some (Reader.complete fs d)
  | null => rfl
  | bool _ => rfl
  | number _ => rfl
  | string _ => rfl
  | array items => by
    cases items with
    | nil => rfl
    | cons d r =>
      have hitems := run_itemTokens fs [] (d :: r) (List.cons_ne_nil d r)
      calc (Reader.value fs).run (tokens (array (d :: r)))
        _ = (Reader.firstItem fs).run (itemTokens (d :: r) ++ [.arrayEnd]) := rfl
        _ = (Reader.afterItem ((d :: r).reverse ++ []) fs).run [.arrayEnd] := by
          rw [run_firstItem fs _ (List.cons_ne_nil d r), run_append hitems]
        _ = some (Reader.complete fs (array (d :: r))) := by
          simp only [Reader.run, Reader.step, List.append_nil, List.reverse_reverse, Option.bind_some]
  | object members => by
    cases members with
    | nil => rfl
    | cons m r =>
      have hmembers := run_memberTokens fs [] (m :: r) (List.cons_ne_nil m r)
      calc (Reader.value fs).run (tokens (object (m :: r)))
        _ = (Reader.firstKey fs).run (memberTokens (m :: r) ++ [.objectEnd]) := rfl
        _ = (Reader.afterMember ((m :: r).reverse ++ []) fs).run [.objectEnd] := by
          rw [run_firstKey fs _ (List.cons_ne_nil m r), run_append hmembers]
        _ = some (Reader.complete fs (object (m :: r))) := by
          simp only [Reader.run, Reader.step, List.append_nil, List.reverse_reverse, Option.bind_some]

theorem run_itemTokens (fs : List Frame) (done : List Document) : ∀ items : List Document,
    items ≠ [] → (Reader.value (.array done :: fs)).run (itemTokens items) =
      some (.afterItem (items.reverse ++ done) fs)
  | [], h => absurd rfl h
  | [d], _ => run_tokens (.array done :: fs) d
  | d :: e :: r, _ => by
    have hfirst := run_tokens (.array done :: fs) d
    have hrest := run_itemTokens fs (d :: done) (e :: r) (List.cons_ne_nil e r)
    rw [itemTokens, run_append hfirst]
    exact hrest.trans (by simp)

theorem run_memberTokens (fs : List Frame) (done : List (Key × Document)) :
    ∀ members : List (Key × Document), members ≠ [] →
      (Reader.nextKey done fs).run (memberTokens members) =
        some (.afterMember (members.reverse ++ done) fs)
  | [], h => absurd rfl h
  | [m], _ => run_memberToken fs done m
  | m :: n :: r, _ => by
    have hfirst := run_memberToken fs done m
    have hrest := run_memberTokens fs (m :: done) (n :: r) (List.cons_ne_nil n r)
    rw [memberTokens, run_append hfirst]
    exact hrest.trans (by simp)

theorem run_memberToken (fs : List Frame) (done : List (Key × Document)) : ∀ m : Key × Document,
    (Reader.nextKey done fs).run (memberToken m) = some (.afterMember (m :: done) fs)
  | (k, d) => run_tokens (.object done k :: fs) d

end

/-- Writing a document down and reading it again gives it back. -/
theorem ofTokens?_tokens (d : Document) : ofTokens? (tokens d) = some d := by
  rw [ofTokens?, run_tokens]
  rfl

theorem read?_of_tokens? {bytes : List UInt8} {d : Document} (h : tokens? bytes = some d.tokens) :
    read? bytes = some d := by
  rw [read?, h, Option.bind_some, ofTokens?_tokens]

end AnnotationReport.Json.Document
