import ODataQuery.Proofs.Filter.Unambiguous.Expr

/-!
# How a filter begins

The beginning of a filter tells its form. With a bound variable the first word and
the mark behind it do; without one a negation and a call begin like an expression,
and what stands behind that expression tells them from a subject.
-/

namespace ODataQuery

/-- What can stand behind a filter: nothing, or the parenthesis that closes it. -/
def Ends (r : List Char) : Prop := ∀ c, r.head? = some c → c = ')'

theorem ends_nil : Ends [] := nofun

theorem ends_parenthesis (r : List Char) : Ends (')' :: r) := by
  intro c hc
  cases hc
  rfl

theorem Ends.stops {r : List Char} (h : Ends r) : Stops r :=
  fun c hc => .inr (.inr (.inl (h c hc)))

theorem Ends.ne_blank {r : List Char} (h : Ends r) (cs : List Char) : r ≠ ' ' :: cs := by
  rintro rfl
  exact absurd (h _ rfl) (by decide)

theorem Connective.key_isWord (op : Connective) : op.key.toList.all Text.isWord := by
  cases op <;> decide

theorem Quantifier.key_isWord (op : Quantifier) : op.key.toList.all Text.isWord := by
  cases op <;> decide

theorem Connective.key_inj {op op' : Connective} (h : op.key = op'.key) : op = op' := by
  cases op <;> cases op' <;> first | rfl | exact absurd h (by decide)

theorem Quantifier.key_inj {op op' : Quantifier} (h : op.key = op'.key) : op = op' := by
  cases op <;> cases op' <;> first | rfl | exact absurd h (by decide)

namespace BinaryOp

theorem key_isWord (op : BinaryOp) : op.key.toList.all Text.isWord := by
  cases op <;> decide

theorem key_ne_nil (op : BinaryOp) : op.key.toList ≠ [] := by
  cases op <;> decide

theorem key_inj {op op' : BinaryOp} (h : op.key = op'.key) : op = op' := by
  have hkey := ofKey?_key op
  rw [h, ofKey?_key op'] at hkey
  exact (Option.some.inj hkey).symm

/-- An operator in front of a mark. -/
theorem key_unique {op op' : BinaryOp} {c d : Char} {r r' : List Char}
    (hc : Text.isWord c = false) (hd : Text.isWord d = false)
    (h : op.key.toList ++ c :: r = op'.key.toList ++ d :: r') : op = op' ∧ r = r' := by
  obtain ⟨hkey, -, hrest⟩ := Text.marked_unique op.key_isWord op'.key_isWord hc hd h
  exact ⟨key_inj (String.toList_inj.mp hkey), hrest⟩

theorem isIdentifier_key (op : BinaryOp) : Text.isIdentifier op.key := by
  cases op <;> decide

end BinaryOp

theorem Scope.variableName_isWord (n : Nat) : (variableName n).toList.all Text.isWord := by
  have hall := List.all_eq_true.mp (Integer.toText_all n)
  rw [variableName, String.toList_append, List.all_append, Bool.and_eq_true]
  refine ⟨by decide, List.all_eq_true.mpr fun c hc => ?_⟩
  exact Text.isWord_of_numeral (hall c hc)

theorem Scope.variableName_ne_nil (n : Nat) : (variableName n).toList ≠ [] := by
  rw [variableName, String.toList_append]
  exact nofun

inductive Form where
  | junction
  | negation
  | call
  /-- An expression, with a comparison, a membership or a quantifier behind it. -/
  | subject
  deriving DecidableEq

def BinaryOp.form (op : BinaryOp) : Form := if op.isFunction then .call else .subject

theorem BinaryOp.form_ne_negation (op : BinaryOp) : op.form ≠ .negation := by
  cases op <;> decide

theorem BinaryOp.form_ne_junction (op : BinaryOp) : op.form ≠ .junction := by
  cases op <;> decide

namespace Predicate

def form : Predicate → Form
  | .junction _ _ => .junction
  | .binary op _ _ => op.form
  | .lambda _ _ _ => .subject
  | _ => .negation

/-- The form that the first word and the mark behind it tell. -/
def formOf (w : List Char) (c : Char) : Form :=
  if w = [] then .junction else if c = ' ' then .negation else if c = '(' then .call else .subject

theorem exists_word {p : Predicate} (hp : p.Exact) (n : Nat) :
    ∃ w c cs, p.text (some n) = w ++ c :: cs ∧ w.all Text.isWord ∧ Text.isWord c = false ∧
      formOf w c = p.form := by
  cases p with
  | passthrough t => exact hp.elim
  | not p => exact ⟨"not".toList, ' ', _, rfl, by decide, by decide, by rfl⟩
  | binary op left right =>
    rw [text, form, BinaryOp.form]
    cases hop : op.isFunction with
    | true =>
      refine ⟨_, '(', _, binaryText_call _ hop left right, op.key_isWord, by decide, ?_⟩
      rw [formOf, if_neg op.key_ne_nil]
      rfl
    | false =>
      rw [binaryText_comparison _ hop, lead, List.append_assoc]
      refine ⟨_, '/', _, rfl, Scope.variableName_isWord n, by decide, ?_⟩
      rw [formOf, if_neg (Scope.variableName_ne_nil n)]
      rfl
  | junction op ps =>
    obtain ⟨p, ps, rfl⟩ := List.exists_cons_of_length_pos (Nat.lt_of_succ_lt hp.1)
    exact ⟨[], '(', _, rfl, by decide, by decide, by rfl⟩
  | lambda op source body =>
    rw [text, lead, List.append_assoc]
    refine ⟨_, '/', _, rfl, Scope.variableName_isWord n, by decide, ?_⟩
    rw [formOf, if_neg (Scope.variableName_ne_nil n)]
    rfl

theorem form_eq_of_bound {p q : Predicate} (hp : p.Exact) (hq : q.Exact) (n : Nat)
    {r r' : List Char} (h : p.text (some n) ++ r = q.text (some n) ++ r') : p.form = q.form := by
  obtain ⟨w, c, cs, htext, hw, hc, hform⟩ := exists_word hp n
  obtain ⟨w', c', cs', htext', hw', hc', hform'⟩ := exists_word hq n
  rw [htext, htext', List.append_assoc, List.append_assoc] at h
  obtain ⟨hword, hmark, -⟩ := Text.marked_unique hw hw' hc hc' h
  rw [← hform, ← hform', hword, hmark]

/-- What stands behind the expression that a filter begins with. -/
def Behind (t : List Char) : Form → Prop
  | .junction => False
  | .negation => ∃ cs, t = ' ' :: '(' :: cs
  | .call => ∃ r, Ends r ∧ t = ' ' :: ("eq".toList ++ ' ' :: ("true".toList ++ r))
  | .subject => (∃ cs, t = '/' :: cs) ∨ ∃ (op : BinaryOp) (right : Expr) (r : List Char),
    (op ≠ .isIn → right.Exact) ∧ Ends r ∧
      t = ' ' :: (op.key.toList ++ ' ' :: (right.operandText ++ r))

theorem Behind.stops {t : List Char} {form : Form} (h : Behind t form) : Stops t := by
  cases form with
  | junction => exact h.elim
  | negation =>
    obtain ⟨cs, rfl⟩ := h
    exact stops_cons (by decide) _
  | call =>
    obtain ⟨r, -, rfl⟩ := h
    exact stops_cons (by decide) _
  | subject =>
    obtain ⟨cs, rfl⟩ | ⟨op, right, r, -, -, rfl⟩ := h
    · exact stops_cons (by decide) _
    · exact stops_cons (by decide) _

theorem negation_ne_call {t : List Char} (h : Behind t .negation) : ¬ Behind t .call := by
  rintro ⟨r, -, rfl⟩
  obtain ⟨cs, hcs⟩ := h
  cases hcs

theorem negation_ne_subject {t : List Char} (h : Behind t .negation) : ¬ Behind t .subject := by
  obtain ⟨cs, rfl⟩ := h
  rintro (⟨cs', hcs⟩ | ⟨op, right, r, -, -, hcs⟩)
  · cases hcs
  · -- a parenthesis stands where an operator would begin
    have hword := Text.marked_unique (w := []) (by decide) op.key_isWord (by decide) (by decide)
      (List.tail_eq_of_cons_eq hcs)
    exact op.key_ne_nil hword.1.symm

theorem call_ne_subject {t : List Char} (h : Behind t .call) : ¬ Behind t .subject := by
  obtain ⟨r, hr, rfl⟩ := h
  rintro (⟨cs', hcs⟩ | ⟨op, right, r', hright, hr', hcs⟩)
  · cases hcs
  · -- only a comparison with the path `true` ends like a call
    have hkey : BinaryOp.eq.key.toList ++ ' ' :: ("true".toList ++ r) =
        op.key.toList ++ ' ' :: (right.operandText ++ r') := List.tail_eq_of_cons_eq hcs
    obtain ⟨rfl, htrue⟩ := BinaryOp.key_unique (by decide) (by decide) hkey
    have hexact := hright (by decide)
    rw [hexact.operandText_eq] at htrue
    exact Expr.text_ne_true hexact hr'.stops hr.stops htrue.symm

theorem Behind.unique {t : List Char} {form form' : Form} (h : Behind t form)
    (h' : Behind t form') : form = form' := by
  cases form with
  | junction => exact h.elim
  | negation =>
    cases form' with
    | junction => exact h'.elim
    | negation => rfl
    | call => exact absurd h' (negation_ne_call h)
    | subject => exact absurd h' (negation_ne_subject h)
  | call =>
    cases form' with
    | junction => exact h'.elim
    | negation => exact absurd h (negation_ne_call h')
    | call => rfl
    | subject => exact absurd h' (call_ne_subject h)
  | subject =>
    cases form' with
    | junction => exact h'.elim
    | negation => exact absurd h (negation_ne_subject h')
    | call => exact absurd h (call_ne_subject h')
    | subject => rfl

/-- Without a variable a call is written like a function that has its operands. -/
theorem call_eq_function {op : BinaryOp} (hop : op.isFunction = true) {left right : Expr}
    (hleft : left.Exact) (hright : right.Exact) (r : List Char) :
    ∃ args, Expr.ArgsExact args ∧ binaryText none op left right ++ r =
      (Expr.function op.key args).text ++ ' ' :: ("eq".toList ++ ' ' :: ("true".toList ++ r)) := by
  rw [binaryText_call none hop]
  by_cases hneedle : op = .substringOf
  · refine ⟨[right, left], ⟨hright, hleft, trivial⟩, ?_⟩
    simp [callArgs, hneedle, callEnd, lead, Expr.text, Expr.argTexts, joined, more]
  · refine ⟨[left, right], ⟨hleft, hright, trivial⟩, ?_⟩
    simp [callArgs, hneedle, callEnd, lead, Expr.text, Expr.argTexts, joined, more]

/-- Without a variable every filter but a junction begins with an expression. -/
theorem exists_expr {p : Predicate} (hp : p.Exact) (hform : p.form ≠ .junction) {r : List Char}
    (hr : Ends r) :
    ∃ (e : Expr) (t : List Char), p.text none ++ r = e.text ++ t ∧ e.Exact ∧ Behind t p.form := by
  cases p with
  | passthrough t => exact hp.elim
  | not p =>
    have hexact : (Expr.property ⟨["not"]⟩).Exact := ⟨by decide, by decide, by decide⟩
    exact ⟨.property ⟨["not"]⟩, _, rfl, hexact, _, rfl⟩
  | binary op left right =>
    obtain ⟨hleft, hright⟩ := hp
    rw [text, form, BinaryOp.form]
    cases hop : op.isFunction with
    | true =>
      have hne : op ≠ .isIn := by
        rintro rfl
        cases hop
      rw [if_neg hne] at hright
      obtain ⟨args, hargs, htext⟩ := call_eq_function hop hleft hright r
      exact ⟨_, _, htext, ⟨op.isIdentifier_key, hargs⟩, r, hr, rfl⟩
    | false =>
      rw [binaryText_comparison none hop, lead, List.nil_append, List.append_assoc]
      refine ⟨left, _, rfl, hleft, .inr ⟨op, right, r, ?_, hr, ?_⟩⟩
      · intro hne
        rwa [if_neg hne] at hright
      · simp
  | junction op ps => exact absurd rfl hform
  | lambda op source body =>
    rw [text, lead, List.nil_append, List.append_assoc]
    exact ⟨source, _, rfl, hp.1, .inl ⟨_, rfl⟩⟩

theorem text_of_junction {p : Predicate} (hp : p.Exact) (hform : p.form = .junction)
    (bound : Option Nat) : ∃ cs, p.text bound = '(' :: cs := by
  cases p with
  | passthrough t => exact hp.elim
  | junction op ps =>
    obtain ⟨p, ps, rfl⟩ := List.exists_cons_of_length_pos (Nat.lt_of_succ_lt hp.1)
    exact ⟨_, rfl⟩
  | binary op left right => exact absurd hform op.form_ne_junction
  | not | lambda => cases hform

theorem form_eq_of_unbound {p q : Predicate} (hp : p.Exact) (hq : q.Exact) {r r' : List Char}
    (hr : Ends r) (hr' : Ends r') (h : p.text none ++ r = q.text none ++ r') :
    p.form = q.form := by
  by_cases hpj : p.form = .junction
  · by_cases hqj : q.form = .junction
    · rw [hpj, hqj]
    · obtain ⟨cs, hcs⟩ := text_of_junction hp hpj none
      obtain ⟨e, t, htext, he, -⟩ := exists_expr hq hqj hr'
      rw [htext, hcs] at h
      exact absurd h.symm (Expr.text_ne_mark he (by decide) (by decide) _ _)
  · obtain ⟨e, t, htext, he, ht⟩ := exists_expr hp hpj hr
    by_cases hqj : q.form = .junction
    · obtain ⟨cs, hcs⟩ := text_of_junction hq hqj none
      rw [htext, hcs] at h
      exact absurd h (Expr.text_ne_mark he (by decide) (by decide) _ _)
    · obtain ⟨e', t', htext', he', ht'⟩ := exists_expr hq hqj hr'
      rw [htext, htext'] at h
      obtain ⟨-, rfl⟩ := Expr.text_unique e e' he he' ht.stops ht'.stops h
      exact ht.unique ht'

theorem form_eq {p q : Predicate} (hp : p.Exact) (hq : q.Exact) (bound : Option Nat)
    {r r' : List Char} (hr : Ends r) (hr' : Ends r') (h : p.text bound ++ r = q.text bound ++ r') :
    p.form = q.form := by
  cases bound with
  | none => exact form_eq_of_unbound hp hq hr hr' h
  | some n => exact form_eq_of_bound hp hq n h

end Predicate

end ODataQuery
