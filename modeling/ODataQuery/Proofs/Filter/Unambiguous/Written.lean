import ODataQuery.Proofs.Filter.Rendering
import ODataQuery.Proofs.Literal.Quote
import ODataQuery.Proofs.Text.Word

/-!
# The text of an exact filter

A filter is exact when its names are identifiers and its literals are strings or
64-bit integers under their own types. In version 4.01 and without an entity type
its text depends on the tree and the bound variable alone, and it is put together
so that every part ends at a mark that cannot belong to it.
-/

namespace ODataQuery

/-- A string of the string type or an integer of the widest integer type. -/
def DataType.Exact : DataType → Value → Prop
  | .string, .string _ | .int64, .int _ => True
  | _, _ => False

theorem DataType.Exact.eq {type : DataType} {v : Value} (h : type.Exact v) :
    (∃ s, type = .string ∧ v = .string s) ∨ ∃ n, type = .int64 ∧ v = .int n := by
  unfold Exact at h
  split at h
  · exact .inl ⟨_, rfl, rfl⟩
  · exact .inr ⟨_, rfl, rfl⟩
  · exact h.elim

namespace Expr

mutual

/-- The path `true` is left out: it is written like the end of a call. -/
def Exact : Expr → Prop
  | .literal type v => type.Exact v
  | .property path =>
    path.segments ≠ [] ∧ path.segments ≠ ["true"] ∧ ∀ s ∈ path.segments, Text.isIdentifier s
  | .function name args => Text.isIdentifier name ∧ ArgsExact args

def ArgsExact : List Expr → Prop
  | [] => True
  | e :: es => e.Exact ∧ ArgsExact es

end

/-- What stands behind a membership: a list that holds something. -/
def ExactList : Expr → Prop
  | .literal type (.list values) => values ≠ [] ∧ ∀ v ∈ values, type.Exact v
  | _ => False

end Expr

namespace Predicate

mutual

/-- Nothing is passed through, lists stand only behind memberships, and a
connective has something to connect. -/
def Exact : Predicate → Prop
  | .passthrough _ => False
  | .not p => p.Exact
  | .binary op left right => left.Exact ∧ if op = .isIn then right.ExactList else right.Exact
  | .junction _ ps => 2 ≤ ps.length ∧ AllExact ps
  | .lambda _ source body => source.Exact ∧ body.Exact

def AllExact : List Predicate → Prop
  | [] => True
  | p :: ps => p.Exact ∧ AllExact ps

end

end Predicate

/-- What follows the first of some texts that are joined and closed. -/
def more (separator closing : List Char) : List (List Char) → List Char
  | [] => closing
  | t :: ts => separator ++ (t ++ more separator closing ts)

/-- Texts joined by a separator, and then closed. -/
def joined (separator closing : List Char) : List (List Char) → List Char
  | [] => closing
  | t :: ts => t ++ more separator closing ts

theorem joined_map_toList (separator : String) (closing : List Char) (ts : List String) :
    joined separator.toList closing (ts.map String.toList) =
      (separator.intercalate ts).toList ++ closing := by
  induction ts with
  | nil => rfl
  | cons t ts ih =>
    cases ts with
    | nil => simp [joined, more]
    | cons u ts =>
      simp only [List.map_cons, joined, more] at ih ⊢
      rw [ih, String.intercalate_cons_cons, String.toList_append, String.toList_append,
        List.append_assoc, List.append_assoc]

def Value.text : Value → List Char
  | .string s => (DataType.quote s).toList
  | .int n => (Integer.toText n.toInt).toList
  | _ => []

namespace Expr

mutual

def text : Expr → List Char
  | .literal _ v => v.text
  | .property path => path.dotted.toList
  | .function name args => name.toList ++ '(' :: joined [','] [')'] (argTexts args)

def argTexts : List Expr → List (List Char)
  | [] => []
  | e :: es => e.text :: argTexts es

end

/-- A right operand, which is a list behind a membership. -/
def operandText : Expr → List Char
  | .literal _ (.list values) => '(' :: joined [','] [')'] (values.map Value.text)
  | e => e.text

theorem Exact.operandText_eq {e : Expr} (h : e.Exact) : e.operandText = e.text := by
  cases e with
  | literal type v =>
    cases v with
    | list values => cases type <;> exact h.elim
    | null | bool | int | float | string | timestamp => rfl
  | property path => rfl
  | function name args => rfl

end Expr

namespace Predicate

/-- What stands in front of a subject where a variable is bound. -/
def lead : Option Nat → List Char
  | some n => (Scope.variableName n).toList ++ ['/']
  | none => []

/-- The two arguments of a call in their order. -/
def callArgs (op : BinaryOp) (left right : List Char) : List Char :=
  if op = .substringOf then right ++ ',' :: left else left ++ ',' :: right

/-- What stands behind the arguments of a call. -/
def callEnd : List Char := ')' :: ' ' :: ("eq".toList ++ ' ' :: "true".toList)

def binaryText (bound : Option Nat) (op : BinaryOp) (left right : Expr) : List Char :=
  if op.isFunction then
    op.key.toList ++ '(' :: (callArgs op (lead bound ++ left.text) right.text ++ callEnd)
  else lead bound ++ (left.text ++ ' ' :: (op.key.toList ++ ' ' :: right.operandText))

theorem binaryText_call (bound : Option Nat) {op : BinaryOp} (h : op.isFunction = true)
    (left right : Expr) : binaryText bound op left right = op.key.toList ++ '(' ::
      (callArgs op (lead bound ++ left.text) right.text ++ callEnd) := if_pos h

theorem binaryText_comparison (bound : Option Nat) {op : BinaryOp} (h : op.isFunction = false)
    (left right : Expr) : binaryText bound op left right =
      lead bound ++ (left.text ++ ' ' :: (op.key.toList ++ ' ' :: right.operandText)) := by
  rw [binaryText, h]
  rfl

mutual

def text : Predicate → Option Nat → List Char
  | .passthrough t, _ => t.toList
  | .not p, bound => "not".toList ++ ' ' :: '(' :: (p.text bound ++ [')'])
  | .binary op left right, bound => binaryText bound op left right
  | .junction op ps, bound => joined (' ' :: (op.key.toList ++ [' '])) [] (operandTexts ps bound)
  | .lambda op source body, bound =>
    lead bound ++ (source.text ++ '/' :: (op.key.toList ++ '(' ::
      ((Scope.variableName (bound.getD 0 + 1)).toList ++ ':' :: ' ' ::
        (body.text (some (bound.getD 0 + 1)) ++ [')']))))

def operandTexts : List Predicate → Option Nat → List (List Char)
  | [], _ => []
  | p :: ps, bound => ('(' :: (p.text bound ++ [')'])) :: operandTexts ps bound

end

end Predicate

theorem DataType.Exact.toList_literal {type : DataType} {v : Value} {t : String}
    (he : type.Exact v) (h : type.literal v = .ok t) : t.toList = v.text := by
  obtain ⟨s, rfl, rfl⟩ | ⟨n, rfl, rfl⟩ := he.eq
  · cases h
    rfl
  · simp only [literal, isDate, longForm, scalarForm, bounded, integer, Bool.false_eq_true,
      ↓reduceIte, ok_bind] at h
    split at h
    · cases h
      rfl
    · cases h

namespace Expr

theorem toList_literals {type : DataType} {values : List Value} {ts : List String}
    (he : ∀ v ∈ values, type.Exact v) (h : values.mapM type.literal = .ok ts) :
    ts.map String.toList = values.map Value.text := by
  induction values generalizing ts with
  | nil =>
    cases h
    rfl
  | cons v values ih =>
    obtain ⟨hv, hvalues⟩ := List.forall_mem_cons.mp he
    simp only [List.mapM_cons, bind_eq_ok, pure_eq_ok, Except.ok.injEq] at h
    obtain ⟨t, ht, ts, hts, rfl⟩ := h
    rw [List.map_cons, List.map_cons, hv.toList_literal ht, ih hvalues hts]

theorem literal_of_literalFragment {type : DataType} {v : Value} {t : String}
    (h : literalFragment type v = .ok (.text t)) : type.literal v = .ok t := by
  cases v with
  | list items => simp [literalFragment, bind_eq_ok] at h
  | null | bool | int | float | string | timestamp =>
    simpa [literalFragment, bind_eq_ok] using h

theorem mapM_of_literalFragment {type : DataType} {values : List Value} {items : List String}
    (h : literalFragment type (.list values) = .ok (.list items)) :
    values.mapM type.literal = .ok items := by
  simpa [literalFragment, bind_eq_ok] using h

mutual

theorem toList_render (e : Expr) (he : e.Exact) {σ : Scope} (hσ : σ.entityType = none)
    {t : String} (h : e.render σ = .ok (.text t)) : t.toList = e.text := by
  cases e with
  | literal type v =>
    obtain ⟨-, h⟩ := render_literal.mp h
    rw [text]
    exact he.toList_literal (literal_of_literalFragment h)
  | property path =>
    obtain ⟨-, text, htext, heq⟩ := render_property.mp h
    obtain rfl := Fragment.text.inj heq
    rw [pathText, hσ] at htext
    cases htext
    rw [text]
  | function name args =>
    obtain ⟨-, texts, htexts, heq⟩ := render_function.mp h
    obtain rfl := Fragment.text.inj heq
    rw [Exact] at he
    have hjoined := joined_map_toList "," [')'] texts
    rw [toList_renderArgs args he.2 (show σ.deeper.entityType = none from hσ) htexts] at hjoined
    have hcomma : ",".toList = [','] := by rfl
    rw [text, ← hcomma, hjoined]
    simp

theorem toList_renderArgs (es : List Expr) (he : ArgsExact es) {σ : Scope}
    (hσ : σ.entityType = none) {ts : List String} (h : renderArgs es σ = .ok ts) :
    ts.map String.toList = argTexts es := by
  cases es with
  | nil =>
    cases h
    rfl
  | cons e es =>
    obtain ⟨t, ts, ht, hts, rfl⟩ := renderArgs_cons.mp h
    rw [List.map_cons, argTexts, toList_render e he.1 hσ ht, toList_renderArgs es he.2 hσ hts]

end

end Expr

theorem Scope.toList_qualify (σ : Scope) (s : String) :
    (σ.qualify s).toList = Predicate.lead σ.bound ++ s.toList := by
  unfold qualify Predicate.lead
  split <;> simp_all

namespace Predicate

theorem toList_comparison {op : BinaryOp} {σ : Scope} {left right : Expr}
    (hdialect : σ.dialect = .v401) (hright : right.Exact) {l r : String}
    (hl : l.toList = left.text) (hr : r.toList = right.text) :
    (comparisonText σ.dialect op (σ.qualify l) r).toList = binaryText σ.bound op left right := by
  have hneedle : Dialect.token .v401 op.key = "substringof" ↔ op = .substringOf := by
    cases op <;> decide
  rw [hdialect]
  simp only [comparisonText, binaryText, callArgs, callEnd, hneedle, hright.operandText_eq]
  split
  · split
    · simp [Scope.toList_qualify, hl, hr, Dialect.token]
    · simp [Scope.toList_qualify, hl, hr, Dialect.token]
  · simp [Scope.toList_qualify, hl, hr, Dialect.token]

theorem toList_membership {σ : Scope} {left : Expr} {type : DataType} {values : List Value}
    (hdialect : σ.dialect = .v401) {l : String} {items : List String} (hl : l.toList = left.text)
    (hne : values ≠ []) (hitems : items.map String.toList = values.map Value.text) :
    (membershipText σ.dialect (σ.qualify l) items).toList =
      binaryText σ.bound .isIn left (.literal type (.list values)) := by
  have hjoined := joined_map_toList "," [')'] items
  have hcomma : ",".toList = [','] := by rfl
  rw [hitems, hcomma] at hjoined
  have hitems' : items.isEmpty = false := by
    cases items with
    | nil => exact absurd (List.map_eq_nil_iff.mp hitems.symm) hne
    | cons item items => rfl
  rw [hdialect]
  simp [membershipText, hitems', Dialect.hasNativeIn, binaryText, BinaryOp.isFunction,
    Expr.operandText, hjoined, Scope.toList_qualify, hl, BinaryOp.key]

theorem toList_renderBinary {op : BinaryOp} {left right : Expr} {σ : Scope} {t : String}
    (hexact : (binary op left right).Exact) (htype : σ.entityType = none)
    (hdialect : σ.dialect = .v401) (h : (binary op left right).render σ = .ok t) :
    t.toList = binaryText σ.bound op left right := by
  obtain ⟨hleft, hright⟩ := hexact
  have hinner : σ.deeper.entityType = none := htype
  by_cases hop : op = .isIn
  · subst hop
    obtain ⟨-, l, items, hl, hr, rfl⟩ := render_membership.mp h
    obtain ⟨type, values, rfl⟩ := Expr.eq_literal_of_render_list hr
    rw [if_pos rfl] at hright
    have hitems := Expr.mapM_of_literalFragment (Expr.render_literal.mp hr).2
    exact toList_membership hdialect (Expr.toList_render left hleft hinner hl) hright.1
      (Expr.toList_literals hright.2 hitems)
  · obtain ⟨-, l, r, hl, hr, rfl⟩ := (render_comparison hop).mp h
    rw [if_neg hop] at hright
    exact toList_comparison hdialect hright (Expr.toList_render left hleft hinner hl)
      (Expr.toList_render right hright hinner hr)

mutual

theorem toList_render (p : Predicate) (hp : p.Exact) {σ : Scope} (htype : σ.entityType = none)
    (hdialect : σ.dialect = .v401) {t : String} (h : p.render σ = .ok t) :
    t.toList = p.text σ.bound := by
  cases p with
  | passthrough text => exact hp.elim
  | not p =>
    obtain ⟨-, s, hs, rfl⟩ := render_not.mp h
    have hbody : s.toList = p.text σ.bound := toList_render p hp (σ := σ.deeper) htype hdialect hs
    rw [text, ← hbody]
    simp
  | binary op left right =>
    rw [text]
    exact toList_renderBinary hp htype hdialect h
  | junction op ps =>
    obtain ⟨-, ts, hts, rfl⟩ := render_junction.mp h
    have hoperands : ts.map String.toList = operandTexts ps σ.bound :=
      toList_renderOperands ps hp.2 (σ := σ.deeper) htype hdialect hts
    have hjoined := joined_map_toList (" " ++ op.key ++ " ") [] ts
    rw [hoperands, List.append_nil] at hjoined
    rw [text, ← hjoined]
    simp
  | lambda op source body =>
    obtain ⟨-, s, b, hs, hb, rfl⟩ := render_lambda.mp h
    have hsource := Expr.toList_render source hp.1 (σ := σ.deeper) htype hs
    have helement : (σ.deeper.bind source).entityType = none := by
      have hnone : σ.deeper.entityType = none := htype
      cases source <;> simp [Scope.bind, Scope.elementType, hnone]
    have hbody : b.toList = body.text (some (σ.bound.getD 0 + 1)) :=
      toList_render body hp.2 helement hdialect hb
    have hqualify : (σ.qualify s).toList = lead σ.bound ++ source.text := by
      rw [σ.toList_qualify, hsource]
    rw [text, ← hbody]
    simp [hqualify, Scope.nextVariable]

theorem toList_renderOperands (ps : List Predicate) (hps : AllExact ps) {σ : Scope}
    (htype : σ.entityType = none) (hdialect : σ.dialect = .v401) {ts : List String}
    (h : renderOperands ps σ = .ok ts) : ts.map String.toList = operandTexts ps σ.bound := by
  cases ps with
  | nil =>
    cases h
    rfl
  | cons p ps =>
    obtain ⟨t, ts, ht, hts, rfl⟩ := renderOperands_cons.mp h
    rw [List.map_cons, operandTexts, toList_renderOperands ps hps.2 htype hdialect hts,
      ← toList_render p hps.1 htype hdialect ht]
    simp

end

end Predicate

end ODataQuery
