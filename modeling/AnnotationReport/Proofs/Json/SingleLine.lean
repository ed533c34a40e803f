import AnnotationReport.Proofs.Json.Numerals

/-! # One line

The text of a value has no control characters below the space in it, and so no line feed, whatever its
strings hold: in strings they are escaped.
-/
namespace AnnotationReport.Json

abbrev NoControls (text : List Char) : Prop := ∀ c ∈ text, 0x20 ≤ c.toNat

/-- The texts that are always written the same are checked character by character. -/
theorem noControls_of_all {text : List Char} (h : text.all (0x20 ≤ ·.toNat) = true) :
    NoControls text :=
  fun c hc => of_decide_eq_true (List.all_eq_true.mp h c hc)

theorem noControls_cons {c : Char} {text : List Char} (hc : 0x20 ≤ c.toNat) (h : NoControls text) :
    NoControls (c :: text) :=
  List.forall_mem_cons.mpr ⟨hc, h⟩

theorem noControls_append {first second : List Char} (h : NoControls first) (h' : NoControls second) :
    NoControls (first ++ second) :=
  List.forall_mem_append.mpr ⟨h, h'⟩

theorem noControls_of_allNumeric {text : List Char} (h : Numeral.AllNumeric text) : NoControls text := by
  intro c hc
  have hn := h c hc
  simp only [Lexer.isNumeric, Bool.or_eq_true, decide_eq_true_eq] at hn
  rcases hn with ((((hn | rfl) | rfl) | rfl) | rfl) | rfl
  · simp only [Char.isDigit, Bool.and_eq_true, decide_eq_true_eq] at hn
    exact Nat.le_trans (by decide) hn.1
  all_goals decide

theorem escapeChar_noControls (c : Char) : NoControls (escapeChar c) := by
  unfold escapeChar
  split_ifs with h1 h2 h3 h4 h5 h6 h7 h8
  -- What is left after the fixed escapes: a number in hexadecimal digits, and the character itself.
  any_goals exact noControls_of_all rfl
  · have hhex : ∀ i : Fin 16, 0x20 ≤ (Nat.digitChar i).toNat := by decide
    have hdigit : ∀ n, 0x20 ≤ (hexDigit n).toNat := fun n => hhex ⟨n % 16, Nat.mod_lt n (by decide)⟩
    refine @noControls_append ['\\', 'u', '0', '0'] _ (noControls_of_all rfl) ?_
    exact noControls_cons (hdigit _) (noControls_cons (hdigit _) (noControls_of_all rfl))
  · exact noControls_cons (by omega) (noControls_of_all rfl)

theorem quote_noControls (s : String) : NoControls (quote s) := by
  refine noControls_append (noControls_cons (by decide) ?_) (noControls_of_all rfl)
  intro d hd
  obtain ⟨c, -, hc⟩ := List.mem_flatMap.mp hd
  exact escapeChar_noControls c d hc

mutual

theorem render_noControls : ∀ v : Json, NoControls (render v)
  | null => noControls_of_all rfl
  | bool true => noControls_of_all rfl
  | bool false => noControls_of_all rfl
  | integer n => noControls_of_allNumeric (Numeral.integerText_numeric n)
  | float x => noControls_of_allNumeric (Numeral.floatText_numeric x)
  | string s => quote_noControls s
  | array items =>
    noControls_append (noControls_cons (by decide) (renderItems_noControls items)) (noControls_of_all rfl)
  | object members =>
    noControls_append (noControls_cons (by decide) (renderMembers_noControls members))
      (noControls_of_all rfl)

theorem renderItems_noControls : ∀ items : List Json, NoControls (renderItems items)
  | [] => noControls_of_all rfl
  | [v] => render_noControls v
  | v :: w :: r =>
    noControls_append (render_noControls v) (noControls_cons (by decide) (renderItems_noControls (w :: r)))

theorem renderMembers_noControls : ∀ members : List (String × Json), NoControls (renderMembers members)
  | [] => noControls_of_all rfl
  | [m] => renderMember_noControls m
  | m :: n :: r =>
    noControls_append (renderMember_noControls m)
      (noControls_cons (by decide) (renderMembers_noControls (n :: r)))

theorem renderMember_noControls : ∀ m : String × Json, NoControls (renderMember m)
  | (k, v) => noControls_append (quote_noControls k) (noControls_cons (by decide) (render_noControls v))

end

end AnnotationReport.Json
