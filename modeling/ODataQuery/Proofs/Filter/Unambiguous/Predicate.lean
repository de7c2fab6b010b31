import ODataQuery.Proofs.Filter.Unambiguous.Form

namespace ODataQuery

namespace Expr

theorem argTexts_literals (type : DataType) (values : List Value) :
    argTexts (values.map (literal type)) = values.map Value.text := by
  induction values with
  | nil => rfl
  | cons v values ih => rw [List.map_cons, argTexts, text, ih, List.map_cons]

theorem argsExact_literals {type : DataType} {values : List Value}
    (h : ∀ v ∈ values, type.Exact v) : ArgsExact (values.map (literal type)) := by
  induction values with
  | nil => trivial
  | cons v values ih =>
    obtain ⟨hv, hvalues⟩ := List.forall_mem_cons.mp h
    exact ⟨hv, ih hvalues⟩

/-- The elements of a list tell its type, as there is at least one. -/
theorem literals_inj {type type' : DataType} {values values' : List Value} (hne : values ≠ [])
    (h : values.map (literal type) = values'.map (literal type')) :
    type = type' ∧ values = values' := by
  obtain ⟨v, values, rfl⟩ := List.exists_cons_of_ne_nil hne
  cases values' with
  | nil => cases h
  | cons v' values' =>
    simp only [List.map_cons, List.cons.injEq, literal.injEq] at h
    obtain ⟨⟨rfl, rfl⟩, htail⟩ := h
    have hvalues := (List.map_inj_right fun _ _ heq => (literal.inj heq).2).mp htail
    rw [hvalues]
    exact ⟨rfl, rfl⟩

theorem list_unique {e e' : Expr} (he : e.ExactList) (he' : e'.ExactList) {r r' : List Char}
    (h : e.operandText ++ r = e'.operandText ++ r') : e = e' ∧ r = r' := by
  unfold ExactList at he he'
  split at he
  · split at he'
    · rename_i type values _ type' values'
      rw [operandText, operandText, ← argTexts_literals type, ← argTexts_literals type'] at h
      obtain ⟨hvalues, hrest⟩ := joined_unique _ _ (argsExact_literals he.2)
        (argsExact_literals he'.2) (List.tail_eq_of_cons_eq h)
      obtain ⟨rfl, rfl⟩ := literals_inj he.1 hvalues
      exact ⟨rfl, hrest⟩
    · exact he'.elim
  · exact he.elim

end Expr

namespace Predicate

theorem operand_unique {op : BinaryOp} {right right' : Expr}
    (hright : if op = .isIn then right.ExactList else right.Exact)
    (hright' : if op = .isIn then right'.ExactList else right'.Exact) {r r' : List Char}
    (hr : Stops r) (hr' : Stops r') (h : right.operandText ++ r = right'.operandText ++ r') :
    right = right' ∧ r = r' := by
  by_cases hop : op = .isIn
  · rw [if_pos hop] at hright hright'
    exact Expr.list_unique hright hright' h
  · rw [if_neg hop] at hright hright'
    rw [hright.operandText_eq, hright'.operandText_eq] at h
    exact Expr.text_unique right right' hright hright' hr hr' h

theorem callArgs_unique {bound : Option Nat} {op : BinaryOp} {left right left' right' : Expr}
    (hleft : left.Exact) (hright : right.Exact) (hleft' : left'.Exact) (hright' : right'.Exact)
    {r r' : List Char}
    (h : callArgs op (lead bound ++ left.text) right.text ++ (callEnd ++ r) =
      callArgs op (lead bound ++ left'.text) right'.text ++ (callEnd ++ r')) :
    left = left' ∧ right = right' ∧ r = r' := by
  unfold callArgs callEnd at h
  split at h
  · simp only [List.append_assoc, List.cons_append] at h
    obtain ⟨rfl, -, hsubject⟩ := Expr.marked_unique hright hright' (by decide) (by decide) h
    obtain ⟨rfl, -, hrest⟩ := Expr.marked_unique hleft hleft' (by decide) (by decide)
      (List.append_cancel_left hsubject)
    simp only [List.cons.injEq, true_and, List.append_cancel_left_eq] at hrest
    exact ⟨rfl, rfl, hrest⟩
  · simp only [List.append_assoc, List.cons_append] at h
    obtain ⟨rfl, -, hneedle⟩ := Expr.marked_unique hleft hleft' (by decide) (by decide)
      (List.append_cancel_left h)
    obtain ⟨rfl, -, hrest⟩ := Expr.marked_unique hright hright' (by decide) (by decide) hneedle
    simp only [List.cons.injEq, true_and, List.append_cancel_left_eq] at hrest
    exact ⟨rfl, rfl, hrest⟩

theorem call_unique {bound : Option Nat} {op op' : BinaryOp} {left right left' right' : Expr}
    (hop : op.isFunction = true) (hop' : op'.isFunction = true)
    (hp : (binary op left right).Exact) (hq : (binary op' left' right').Exact) {r r' : List Char}
    (h : binaryText bound op left right ++ r = binaryText bound op' left' right' ++ r') :
    binary op left right = binary op' left' right' ∧ r = r' := by
  rw [binaryText_call bound hop, binaryText_call bound hop'] at h
  simp only [List.append_assoc, List.cons_append] at h
  obtain ⟨rfl, hargs⟩ := BinaryOp.key_unique (by decide) (by decide) h
  have hne : op ≠ .isIn := by
    rintro rfl
    cases hop
  obtain ⟨hleft, hright⟩ := hp
  obtain ⟨hleft', hright'⟩ := hq
  rw [if_neg hne] at hright hright'
  obtain ⟨rfl, rfl, hrest⟩ := callArgs_unique hleft hright hleft' hright' hargs
  exact ⟨rfl, hrest⟩

theorem comparison_unique {bound : Option Nat} {op op' : BinaryOp} {left right left' right' : Expr}
    (hop : op.isFunction = false) (hop' : op'.isFunction = false)
    (hp : (binary op left right).Exact) (hq : (binary op' left' right').Exact) {r r' : List Char}
    (hr : Ends r) (hr' : Ends r')
    (h : binaryText bound op left right ++ r = binaryText bound op' left' right' ++ r') :
    binary op left right = binary op' left' right' ∧ r = r' := by
  rw [binaryText_comparison bound hop, binaryText_comparison bound hop'] at h
  simp only [List.append_assoc, List.cons_append] at h
  obtain ⟨rfl, -, hbehind⟩ := Expr.marked_unique hp.1 hq.1 (by decide) (by decide)
    (List.append_cancel_left h)
  obtain ⟨rfl, hoperand⟩ := BinaryOp.key_unique (by decide) (by decide) hbehind
  obtain ⟨rfl, hrest⟩ := operand_unique hp.2 hq.2 hr.stops hr'.stops hoperand
  exact ⟨rfl, hrest⟩

theorem binary_unique {bound : Option Nat} {op op' : BinaryOp} {left right left' right' : Expr}
    (hform : op.form = op'.form) (hp : (binary op left right).Exact)
    (hq : (binary op' left' right').Exact) {r r' : List Char} (hr : Ends r) (hr' : Ends r')
    (h : binaryText bound op left right ++ r = binaryText bound op' left' right' ++ r') :
    binary op left right = binary op' left' right' ∧ r = r' := by
  unfold BinaryOp.form at hform
  cases hop : op.isFunction <;> cases hop' : op'.isFunction <;> rw [hop, hop'] at hform
  · exact comparison_unique hop hop' hp hq hr hr' h
  · cases hform
  · cases hform
  · exact call_unique hop hop' hp hq h

/-- Behind a subject a comparison has a blank where a quantifier has a slash. -/
theorem binary_ne_lambda {bound : Option Nat} {op : BinaryOp} {left right : Expr}
    {quantifier : Quantifier} {source : Expr} {body : Predicate} (hform : op.form = .subject)
    (hp : (binary op left right).Exact) (hq : (lambda quantifier source body).Exact)
    (r r' : List Char) :
    (binary op left right).text bound ++ r ≠ (lambda quantifier source body).text bound ++ r' := by
  intro h
  have hop : op.isFunction = false := by
    unfold BinaryOp.form at hform
    cases hop : op.isFunction with
    | false => rfl
    | true =>
      rw [hop] at hform
      cases hform
  rw [text, text, binaryText_comparison bound hop] at h
  simp only [List.append_assoc, List.cons_append] at h
  obtain ⟨-, hmark, -⟩ := Expr.marked_unique hp.1 hq.1 (by decide) (by decide)
    (List.append_cancel_left h)
  exact absurd hmark (by decide)

/-- The connective stands in front of the second operand. -/
theorem connective_unique {op op' : Connective} {p q : Predicate} {ps qs : List Predicate}
    {bound : Option Nat} {r r' : List Char} (hps : 2 ≤ (p :: ps).length)
    (hqs : 2 ≤ (q :: qs).length)
    (h : more (' ' :: (op.key.toList ++ [' '])) [] (operandTexts ps bound) ++ r =
      more (' ' :: (op'.key.toList ++ [' '])) [] (operandTexts qs bound) ++ r') : op = op' := by
  obtain ⟨p', ps, rfl⟩ := List.exists_cons_of_length_pos (Nat.lt_of_succ_lt_succ hps)
  obtain ⟨q', qs, rfl⟩ := List.exists_cons_of_length_pos (Nat.lt_of_succ_lt_succ hqs)
  simp only [operandTexts, more, List.append_assoc, List.cons_append, List.cons.injEq, true_and,
    List.nil_append] at h
  obtain ⟨hkey, -⟩ := Text.marked_unique op.key_isWord op'.key_isWord (by decide) (by decide) h
  exact Connective.key_inj (String.toList_inj.mp hkey)

mutual

/-- **No two exact filters are written alike**, whatever stands behind them. -/
theorem text_unique (p q : Predicate) (hp : p.Exact) (hq : q.Exact) {bound : Option Nat}
    {r r' : List Char} (hr : Ends r) (hr' : Ends r') (h : p.text bound ++ r = q.text bound ++ r') :
    p = q ∧ r = r' := by
  have hform := form_eq hp hq bound hr hr' h
  cases p with
  | passthrough t => exact hp.elim
  | not p =>
    cases q with
    | passthrough t => exact hq.elim
    | not q =>
      rw [text, text, List.append_assoc, List.append_assoc] at h
      have hbody := List.append_cancel_left h
      simp only [List.cons_append, List.append_assoc, List.cons.injEq, true_and,
        List.nil_append] at hbody
      obtain ⟨rfl, hrest⟩ := text_unique p q hp hq (ends_parenthesis r) (ends_parenthesis r') hbody
      exact ⟨rfl, List.tail_eq_of_cons_eq hrest⟩
    | binary op' left' right' => exact absurd hform.symm op'.form_ne_negation
    | junction | lambda => cases hform
  | binary op left right =>
    cases q with
    | passthrough t => exact hq.elim
    | not q => exact absurd hform op.form_ne_negation
    | binary op' left' right' => exact binary_unique hform hp hq hr hr' h
    | junction op' qs => exact absurd hform op.form_ne_junction
    | lambda op' source' body' => exact absurd h (binary_ne_lambda hform hp hq r r')
  | junction op ps =>
    cases q with
    | passthrough t => exact hq.elim
    | junction op' qs => exact junction_unique ps qs op op' hp hq hr hr' h
    | binary op' left' right' => exact absurd hform.symm op'.form_ne_junction
    | not | lambda => cases hform
  | lambda op source body =>
    cases q with
    | passthrough t => exact hq.elim
    | binary op' left' right' =>
      exact absurd h.symm (binary_ne_lambda hform.symm hq hp r' r)
    | lambda op' source' body' =>
      simp only [text, List.append_assoc, List.cons_append] at h
      obtain ⟨rfl, -, hbehind⟩ := Expr.marked_unique hp.1 hq.1 (by decide) (by decide)
        (List.append_cancel_left h)
      obtain ⟨hkey, -, hvariable⟩ := Text.marked_unique op.key_isWord op'.key_isWord (by decide)
        (by decide) hbehind
      obtain rfl := Quantifier.key_inj (String.toList_inj.mp hkey)
      have hbody := List.append_cancel_left hvariable
      simp only [List.cons.injEq, true_and, List.nil_append] at hbody
      obtain ⟨rfl, hrest⟩ := text_unique body body' hp.2 hq.2 (ends_parenthesis r)
        (ends_parenthesis r') hbody
      exact ⟨rfl, List.tail_eq_of_cons_eq hrest⟩
    | not | junction => cases hform

theorem junction_unique (ps qs : List Predicate) (op op' : Connective)
    (hp : (junction op ps).Exact) (hq : (junction op' qs).Exact) {bound : Option Nat}
    {r r' : List Char} (hr : Ends r) (hr' : Ends r')
    (h : (junction op ps).text bound ++ r = (junction op' qs).text bound ++ r') :
    junction op ps = junction op' qs ∧ r = r' := by
  cases ps with
  | nil => exact absurd hp.1 (by decide)
  | cons p ps =>
    cases qs with
    | nil => exact absurd hq.1 (by decide)
    | cons q qs =>
      simp only [text, operandTexts, joined, List.append_assoc, List.cons_append,
        List.cons.injEq, true_and, List.nil_append] at h
      obtain ⟨rfl, hrest⟩ := text_unique p q hp.2.1 hq.2.1 (ends_parenthesis _)
        (ends_parenthesis _) h
      have hmore := List.tail_eq_of_cons_eq hrest
      obtain rfl := connective_unique hp.1 hq.1 hmore
      obtain ⟨rfl, hend⟩ := operands_unique ps qs hp.2.2 hq.2.2 op hr hr' hmore
      exact ⟨rfl, hend⟩

theorem operands_unique (ps qs : List Predicate) (hps : AllExact ps) (hqs : AllExact qs)
    (op : Connective) {bound : Option Nat} {r r' : List Char} (hr : Ends r) (hr' : Ends r')
    (h : more (' ' :: (op.key.toList ++ [' '])) [] (operandTexts ps bound) ++ r =
      more (' ' :: (op.key.toList ++ [' '])) [] (operandTexts qs bound) ++ r') :
    ps = qs ∧ r = r' := by
  cases ps with
  | nil =>
    cases qs with
    | nil => exact ⟨rfl, h⟩
    | cons q qs => exact absurd h (hr.ne_blank _)
  | cons p ps =>
    cases qs with
    | nil => exact absurd h.symm (hr'.ne_blank _)
    | cons q qs =>
      simp only [operandTexts, more, List.append_assoc, List.cons_append, List.cons.injEq,
        true_and, List.nil_append] at h
      have hoperand := List.append_cancel_left h
      simp only [List.cons.injEq, true_and] at hoperand
      obtain ⟨rfl, hrest⟩ := text_unique p q hps.1 hqs.1 (ends_parenthesis _)
        (ends_parenthesis _) hoperand
      obtain ⟨rfl, hend⟩ := operands_unique ps qs hps.2 hqs.2 op hr hr'
        (List.tail_eq_of_cons_eq hrest)
      exact ⟨rfl, hend⟩

end

/-- **Rendering is injective.** Exact filters that version 4.01 renders without an
entity type to the same text are the same. -/
theorem render_injective {p q : Predicate} (hp : p.Exact) (hq : q.Exact) {limit : Nat} {t : String}
    (h : p.render (.root none .v401 limit) = .ok t)
    (h' : q.render (.root none .v401 limit) = .ok t) : p = q := by
  have hptext : t.toList = p.text none := toList_render p hp rfl rfl h
  have hqtext : t.toList = q.text none := toList_render q hq rfl rfl h'
  have htext : p.text none ++ [] = q.text none ++ [] := by rw [← hptext, hqtext]
  exact (text_unique p q hp hq ends_nil ends_nil htext).1

/-- A list with a quote in it, a call and a negation inside a lambda. -/
def nested : Predicate :=
  .lambda .any (.property ⟨["lines"]⟩) (.junction .and [
    .binary .isIn (.property ⟨["code"]⟩) (.literal .string (.list [.string "b')", .string "c"])),
    .not (.binary .contains (.function "trim" [.property ⟨["note"]⟩]) (.literal .int64 (.int 7)))])

def nestedText : String :=
  "lines/any(x1: (x1/code in ('b'')','c')) and (not (contains(x1/trim(note),7) eq true)))"

theorem render_nested :
    (Predicate.lambda .any (.property ⟨["lines"]⟩) (.and
      (.binary .isIn (.property ⟨["code"]⟩) (.literal .string (.list [.string "b')", .string "c"])))
      (.not (.binary .contains (.function "trim" [.property ⟨["note"]⟩])
        (.literal .int64 (.int 7)))))) = nested := by
  have hpath : ∀ name, Text.isIdentifier name → name ≠ "true" →
      (Expr.property ⟨[name]⟩).Exact := by
    intro name hname htrue
    exact ⟨by simp, by simpa using htrue, by simpa using hname⟩
  have hlist : (Expr.literal .string (.list [.string "b')", .string "c"])).ExactList := by
    simp [Expr.ExactList, DataType.Exact]
  have hcall : (Expr.function "trim" [.property ⟨["note"]⟩]).Exact :=
    ⟨by decide, hpath _ (by decide) (by decide), trivial⟩
  have hexact : nested.Exact :=
    ⟨hpath _ (by decide) (by decide), by decide, ⟨hpath _ (by decide) (by decide), hlist⟩,
      ⟨hcall, trivial⟩, trivial⟩
  have hrender : nested.render (.root none .v401 6) = .ok nestedText := by rfl
  exact render_injective hexact hexact hrender hrender

end Predicate

end ODataQuery
