import ODataQuery.Proofs.Filter.Quoting
import ODataQuery.Proofs.Literal.Bare

/-!
# String literals keep their place

What a string literal holds is seen inside its own region and nowhere else. A
tree is compared with the one that has every string of the string type emptied:
both render or neither does, their texts are cut into the same regions, and the
regions stand for the strings that the tree quotes.
-/

namespace ODataQuery

theorem isPlain_of_bare {s : String} (h : s.toList.all isBare) : IsPlain s := by
  intro hmem
  have hquote := List.all_eq_true.mp h _ hmem
  revert hquote
  decide

namespace DataType

theorem string_together (v : Value) :
    Together (Mirrors (quoted .string v)) (literal .string v) (literal .string v.blank) := by
  cases v with
  | null => exact Mirrors.plain (by decide : IsPlain "null")
  | string s => exact Mirrors.region s ""
  | int | float => exact Mirrors.region _ _
  | bool | list | timestamp => trivial

/-- A type name in front of quotes, with nothing inside to double. -/
theorem wrapped_mirrors {label s : String} (hlabel : IsPlain label) (hs : IsPlain s) :
    Mirrors [s] (label ++ "'" ++ s ++ "'") (label ++ "'" ++ s ++ "'") := by
  have htext : label ++ "'" ++ s ++ "'" = label ++ quote s := by
    rw [← String.toList_inj]
    simp [toList_quote, doubled_eq_self hs]
  rw [htext]
  exact (Mirrors.region s s).after hlabel

theorem quoted_of_not_isQuoted {type : DataType} (h : type.isQuoted = false) (v : Value) :
    type.quoted v = [] := by
  cases type <;> first | rfl | cases h

theorem undefined_isPlain {v : Value} {t : String} (hplain : IsPlain v.display)
    (h : literal .undefined v = .ok t) : IsPlain t := by
  cases v with
  | null =>
    cases h
    decide
  | list items => cases h
  | bool | int | float | string | timestamp =>
    cases h
    exact hplain

theorem literal_mirrors {type : DataType} {v : Value} {t : String} (hstring : type ≠ .string)
    (hplain : type.CopiesPlain v) (h : type.literal v = .ok t) :
    Mirrors (type.quoted v) t t := by
  by_cases hquoted : type.isQuoted = true
  · cases type with
    | time | binary =>
      cases v with
      | null =>
        cases h
        exact .plain (by decide)
      | string s =>
        cases h
        exact wrapped_mirrors (by decide) hplain
      | bool | int | float | list | timestamp => cases h
    | string => exact absurd rfl hstring
    | _ => cases hquoted
  · have hbare := (Bool.not_eq_true _).mp hquoted
    rw [quoted_of_not_isQuoted hbare]
    by_cases hundefined : type = .undefined
    · subst hundefined
      exact .plain (undefined_isPlain hplain h)
    · exact .plain (isPlain_of_bare (literal_bare hbare hundefined h))

/-- A literal and the literal of the emptied value are written alike. -/
theorem literal_together {type : DataType} {v : Value} (h : type.CopiesPlain v) :
    Together (Mirrors (type.quoted v)) (type.literal v) (type.literal (type.blank v)) := by
  by_cases hstring : type = .string
  · subst hstring
    exact string_together v
  · rw [blank, if_neg hstring]
    exact Together.of_eq fun t ht => literal_mirrors hstring h ht

end DataType

/-- A node that enters its scope does so in both runs. -/
theorem Scope.enter_together {α β : Type} {R : α → β → Prop} {σ : Scope}
    {f : Scope → Except QueryError α} {g : Scope → Except QueryError β}
    (h : Together R (f σ.deeper) (g σ.deeper)) : Together R (σ.enter >>= f) (σ.enter >>= g) := by
  by_cases hroom : 0 < σ.room
  · rw [enter_of_room hroom]
    exact h
  · rw [enter_of_no_room hroom]
    trivial

namespace DataType

theorem mapM_literal_together {type : DataType} {items : List Value}
    (h : ∀ v ∈ items, type.CopiesPlain v) :
    Together (MirrorsAll (items.map type.quoted)) (items.mapM type.literal)
      ((items.map type.blank).mapM type.literal) := by
  induction items with
  | nil => exact .nil
  | cons v items ih =>
    obtain ⟨hv, hitems⟩ := List.forall_mem_cons.mp h
    simp only [List.map_cons, List.mapM_cons]
    refine (literal_together hv).bind fun t t' ht => ?_
    exact (ih hitems).bind fun ts ts' hts => .cons ht hts

end DataType

namespace Expr

/-- The fragments of an expression and of the emptied one. -/
def Shows (e : Expr) : Fragment → Fragment → Prop
  | .text t, .text t' => Mirrors e.quoted t t'
  | .list items, .list items' => ∃ type values, e = .literal type (.list values) ∧
    MirrorsAll (values.map type.quoted) items items'
  | _, _ => False

theorem asText_together {e : Expr} {f f' : Fragment} (h : e.Shows f f') (position : Position) :
    Together (Mirrors e.quoted) (f.asText position) (f'.asText position) := by
  cases f with
  | text t =>
    cases f' with
    | text t' => exact h
    | list items => exact h.elim
  | list items =>
    cases f' with
    | text t' => exact h.elim
    | list items => trivial

theorem asList_together {e : Expr} {f f' : Fragment} (h : e.Shows f f') :
    Together (fun items items' => ∃ type values, e = .literal type (.list values) ∧
      MirrorsAll (values.map type.quoted) items items') f.asList f'.asList := by
  cases f with
  | text t =>
    cases f' with
    | text t' => trivial
    | list items => exact h.elim
  | list items =>
    cases f' with
    | text t' => exact h.elim
    | list items => exact h

theorem literalFragment_scalar (type : DataType) {v : Value} (h : ∀ items, v ≠ .list items) :
    literalFragment type v = do return .text (← type.literal v) := by
  cases v with
  | list items => exact absurd rfl (h items)
  | null | bool | int | float | string | timestamp => rfl

theorem literalFragment_together {type : DataType} {v : Value} {σ : Scope}
    (h : (literal type v).CopiesPlain σ) :
    Together (literal type v).Shows (literalFragment type v)
      (literalFragment type (type.blank v)) := by
  by_cases hlist : ∃ items, v = .list items
  · obtain ⟨items, rfl⟩ := hlist
    rw [CopiesPlain] at h
    rw [DataType.blank_list]
    exact (DataType.mapM_literal_together h).bind fun ts ts' hts => ⟨type, items, rfl, hts⟩
  · have hscalar : ∀ items, v ≠ .list items := fun items heq => hlist ⟨items, heq⟩
    rw [literalFragment_scalar type hscalar,
      literalFragment_scalar type (type.blank_scalar hscalar)]
    refine (DataType.literal_together ((copiesPlain_scalar hscalar).mp h)).bind fun t t' ht => ?_
    change Mirrors (literal type v).quoted t t'
    rwa [quoted]

mutual

theorem render_together (e : Expr) {σ : Scope} (h : e.CopiesPlain σ) :
    Together e.Shows (e.render σ) (e.blank.render σ) := by
  cases e with
  | literal type v =>
    simp only [blank, render]
    exact Scope.enter_together (literalFragment_together h)
  | property path =>
    rw [CopiesPlain] at h
    simp only [blank, render]
    have hpath : Together (fun t t' => t' = t ∧ IsPlain t) (pathText σ path) (pathText σ path) :=
      Together.of_eq fun t ht => ⟨rfl, h t ht⟩
    refine Scope.enter_together (hpath.bind fun t t' ht => ?_)
    obtain ⟨rfl, hplain⟩ := ht
    change Mirrors (property path).quoted t' t'
    rw [quoted]
    exact .plain hplain
  | function name args =>
    rw [CopiesPlain] at h
    simp only [blank, render]
    refine Scope.enter_together ((renderArgs_together args h.2).bind fun ts ts' hts => ?_)
    change Mirrors (function name args).quoted _ _
    rw [quoted]
    have hargs : Mirrors (quotedArgs args).flatten (",".intercalate ts) (",".intercalate ts') :=
      hts.intercalate (by decide) (by decide)
    exact hargs.enclosed (h.1.append (by decide)) (by decide) (by decide)

theorem renderArgs_together (es : List Expr) {σ : Scope} (h : ArgsCopyPlain es σ) :
    Together (MirrorsAll (quotedArgs es)) (renderArgs es σ) (renderArgs (blankArgs es) σ) := by
  cases es with
  | nil => exact .nil
  | cons e es =>
    simp only [blankArgs, renderArgs]
    refine (render_together e h.1).bind fun f f' hf => ?_
    refine (asText_together hf .functionArgument).bind fun t t' ht => ?_
    exact (renderArgs_together es h.2).bind fun ts ts' hts => .cons ht hts

end

end Expr

theorem Scope.isPlain_variableName (n : Nat) : IsPlain (variableName n) :=
  (by decide : IsPlain "x").append (isPlain_of_bare (Integer.toText_bare n))

theorem Scope.qualify_mirrors {strings : List String} {t t' : String} (σ : Scope)
    (h : Mirrors strings t t') : Mirrors strings (σ.qualify t) (σ.qualify t') := by
  unfold qualify
  split
  · exact h.after ((isPlain_variableName _).append (by decide))
  · exact h

namespace Predicate

variable {strings strings' : List String} {l l' r r' : String}

theorem isFunction_of_needleFirst {dialect : Dialect} {op : BinaryOp}
    (h : needleFirst dialect op = true) : op.isFunction = true := by
  cases op <;> cases dialect <;> first | rfl | cases h

theorem token_eq_substringof {dialect : Dialect} {op : BinaryOp} :
    dialect.token op.key = "substringof" ↔ needleFirst dialect op = true := by
  cases op <;> cases dialect <;> decide

theorem isPlain_token (dialect : Dialect) (op : BinaryOp) : IsPlain (dialect.token op.key) := by
  cases op <;> cases dialect <;> decide

theorem comparisonText_mirrors (dialect : Dialect) (op : BinaryOp) (hl : Mirrors strings l l')
    (hr : Mirrors strings' r r') :
    Mirrors (if needleFirst dialect op then strings' ++ strings else strings ++ strings')
      (comparisonText dialect op l r) (comparisonText dialect op l' r') := by
  have htoken := isPlain_token dialect op
  have hopening : IsPlain (dialect.token op.key ++ "(") := htoken.append (by decide)
  have hclosing : IsPlain ") eq true" := by decide
  have hcomma : IsPlain "," := by decide
  simp only [comparisonText, token_eq_substringof]
  by_cases hneedle : needleFirst dialect op = true
  · simp only [isFunction_of_needleFirst hneedle, hneedle, ↓reduceIte]
    have hcall := (hr.between hcomma (by decide) hl).enclosed hopening hclosing (by decide)
    simpa only [String.append_assoc] using hcall
  · simp only [if_neg hneedle]
    split
    · have hcall := (hl.between hcomma (by decide) hr).enclosed hopening hclosing (by decide)
      simpa only [String.append_assoc] using hcall
    · have hspaced : IsPlain (" " ++ dialect.token op.key ++ " ") :=
        ((by decide : IsPlain " ").append htoken).append (by decide)
      have hcomparison := hl.between hspaced (by simp) hr
      simpa only [String.append_assoc] using hcomparison

theorem quotedBinary_of_ne {dialect : Dialect} {op : BinaryOp} {left right : Expr}
    (h : op ≠ .isIn) : quotedBinary dialect op left right =
      if needleFirst dialect op then right.quoted ++ left.quoted
      else left.quoted ++ right.quoted := by
  cases op <;> first | rfl | exact absurd rfl h

theorem disjuncts_mirror (hl : Mirrors strings l l') {items : List (List String)}
    {ts ts' : List String} (h : MirrorsAll items ts ts') :
    MirrorsAll (items.map (strings ++ ·)) (ts.map fun item => "(" ++ l ++ " eq " ++ item ++ ")")
      (ts'.map fun item => "(" ++ l' ++ " eq " ++ item ++ ")") := by
  induction h with
  | nil => exact .nil
  | cons ht hts ih =>
    refine .cons ?_ ih
    have hpair := (hl.between (by decide : IsPlain " eq ") (by decide) ht).enclosed
      (by decide : IsPlain "(") (by decide : IsPlain ")") (by decide)
    simpa only [String.append_assoc] using hpair

theorem membershipText_mirrors (dialect : Dialect) (hl : Mirrors strings l l')
    {items : List (List String)} {ts ts' : List String} (h : MirrorsAll items ts ts') :
    Mirrors (quotedMembership dialect strings items) (membershipText dialect l ts)
      (membershipText dialect l' ts') := by
  cases h with
  | nil => exact .empty
  | cons ht hts =>
    have hitems := MirrorsAll.cons ht hts
    simp only [quotedMembership, membershipText, List.isEmpty_cons, Bool.false_eq_true, ↓reduceIte]
    split
    · have hlist := hl.between (by decide : IsPlain " in (") (by decide)
        (hitems.intercalate (by decide : IsPlain ",") (by decide))
      exact hlist.before (by decide) (by decide)
    · exact (disjuncts_mirror hl hitems).intercalate (by decide) (by decide)

theorem renderBinary_together (op : BinaryOp) (left right : Expr) {σ : Scope}
    (hleft : left.CopiesPlain σ) (hright : right.CopiesPlain σ) :
    Together (Mirrors (quotedBinary σ.dialect op left right)) (renderBinary op left right σ)
      (renderBinary op left.blank right.blank σ) := by
  unfold renderBinary
  refine (Expr.render_together left hleft).bind fun f f' hf => ?_
  refine (Expr.asText_together hf .leftOperand).bind fun l l' hl => ?_
  refine (Expr.render_together right hright).bind fun g g' hg => ?_
  have hl' := σ.qualify_mirrors hl
  by_cases hop : op = .isIn
  · subst hop
    simp only [↓reduceIte]
    refine (Expr.asList_together hg).bind fun items items' hitems => ?_
    obtain ⟨type, values, rfl, hitems⟩ := hitems
    exact membershipText_mirrors σ.dialect hl' hitems
  · simp only [if_neg hop]
    refine (Expr.asText_together hg .rightOperand).bind fun r r' hr => ?_
    rw [quotedBinary_of_ne hop]
    exact comparisonText_mirrors σ.dialect op hl' hr

mutual

theorem render_together (p : Predicate) {σ : Scope} (h : p.CopiesPlain σ) :
    Together (Mirrors (p.quoted σ.dialect)) (p.render σ) (p.blank.render σ) := by
  cases p with
  | passthrough text =>
    simp only [blank, quoted, render]
    exact Scope.enter_together (Mirrors.plain h)
  | not p =>
    simp only [blank, quoted, render]
    refine Scope.enter_together ((render_together p h).bind fun t t' ht => ?_)
    exact ht.enclosed (by decide) (by decide) (by decide)
  | binary op left right =>
    simp only [blank, quoted, render]
    exact Scope.enter_together (renderBinary_together op left right h.1 h.2)
  | junction op ps =>
    simp only [blank, quoted, render]
    refine Scope.enter_together ((renderOperands_together ps h).bind fun ts ts' hts => ?_)
    exact hts.intercalate (by cases op <;> decide) (by cases op <;> decide)
  | lambda op source body =>
    simp only [blank, quoted, render]
    refine Scope.enter_together ((Expr.render_together source h.1).bind fun f f' hf => ?_)
    refine (Expr.asText_together hf .lambdaSource).bind fun s s' hs => ?_
    rw [Scope.bind_blank]
    refine (render_together body h.2).bind fun b b' hb => ?_
    have hbody : Mirrors (body.quoted σ.dialect) b b' := hb
    have hkey : IsPlain op.key := by cases op <;> decide
    have hopening :
        IsPlain ("/" ++ op.key ++ "(" ++ Scope.variableName σ.deeper.nextVariable ++ ": ") :=
      ((((by decide : IsPlain "/").append hkey).append (by decide)).append
        (Scope.isPlain_variableName _)).append (by decide)
    have hlambda := ((σ.deeper.qualify_mirrors hs).between hopening (by simp) hbody).before
      (by decide : IsPlain ")") (by decide)
    simpa only [pure_eq_ok, Together, String.append_assoc] using hlambda

theorem renderOperands_together (ps : List Predicate) {σ : Scope} (h : AllCopyPlain ps σ) :
    Together (MirrorsAll (quotedAll σ.dialect ps)) (renderOperands ps σ)
      (renderOperands (blankAll ps) σ) := by
  cases ps with
  | nil => exact .nil
  | cons p ps =>
    simp only [blankAll, renderOperands]
    refine (render_together p h.1).bind fun t t' ht => ?_
    refine (renderOperands_together ps h.2).bind fun ts ts' hts => ?_
    exact .cons (ht.enclosed (by decide) (by decide) (by decide)) hts

end

/-- **No string literal changes the structure of a filter.** Two filters that
differ only in strings of the string type render in the same scopes. Both texts
then end outside a region, they are the same but for what stands in regions, and
each region stands for the string that the filter has in its place. -/
theorem render_noninterference {p p' : Predicate} (hshape : p.blank = p'.blank) {σ : Scope}
    (h : p.CopiesPlain σ) :
    ((∃ t, p.render σ = .ok t) ↔ ∃ t', p'.render σ = .ok t') ∧
      ∀ t t', p.render σ = .ok t → p'.render σ = .ok t' →
        ∃ ts ts', Token.ofText t = some ts ∧ Token.ofText t' = some ts' ∧
          ts.map Token.hide = ts'.map Token.hide ∧
          Token.regions ts = p.quoted σ.dialect ∧ Token.regions ts' = p'.quoted σ.dialect := by
  have h' : p'.CopiesPlain σ := by
    rw [← blank_copiesPlain, ← hshape, blank_copiesPlain]
    exact h
  have hrun := render_together p h
  have hrun' := render_together p' h'
  rw [← hshape] at hrun'
  refine ⟨hrun.ok_iff.trans hrun'.ok_iff.symm, ?_⟩
  intro t t' ht ht'
  obtain ⟨b, hb, hmirror⟩ := hrun.related ht
  obtain ⟨b', hb', hmirror'⟩ := hrun'.related ht'
  obtain rfl := Except.ok.inj (hb.symm.trans hb')
  obtain ⟨ts, us, hts, hus, hhide, hregions⟩ := hmirror.scanned
  obtain ⟨ts', us', hts', hus', hhide', hregions'⟩ := hmirror'.scanned
  obtain rfl := Option.some.inj (hus.symm.trans hus')
  exact ⟨ts, ts', hts, hts', hhide.trans hhide'.symm, hregions, hregions'⟩

/-- A search for a text that may hold anything. -/
def searched (text : String) : Predicate :=
  .junction .or [
    .binary .contains (.property ⟨["note"]⟩) (.literal .string (.string text)),
    .binary .isIn (.property ⟨["tag"]⟩) (.literal .string (.list [.string text, .string "a"]))]

theorem render_searched :
    ∃ ts ts',
      Token.ofText "(substringof('x',note) eq true) or ((tag eq 'x') or (tag eq 'a'))" = some ts ∧
      Token.ofText
        "(substringof(''') or (''',note) eq true) or ((tag eq ''') or (''') or (tag eq 'a'))" =
          some ts' ∧
      ts.map Token.hide = ts'.map Token.hide ∧ Token.regions ts = ["x", "x", "a"] ∧
      Token.regions ts' = ["') or ('", "') or ('", "a"] := by
  have hpath : ∀ (σ : Scope) (name : String), σ.entityType = none → IsPlain name →
      (Expr.property ⟨[name]⟩).CopiesPlain σ := by
    intro σ name hnone hname
    rw [Expr.CopiesPlain, Expr.pathText, hnone]
    rintro text ⟨⟩
    simpa [PropertyPath.dotted] using hname
  have hplain : (searched "x").CopiesPlain (.root none .v4 3) :=
    ⟨⟨hpath _ _ rfl (by decide), Expr.copiesPlain_string _ _⟩,
      ⟨hpath _ _ rfl (by decide), Expr.copiesPlain_string _ _⟩, trivial⟩
  have hshape : (searched "x").blank = (searched "') or ('").blank := by rfl
  exact (render_noninterference hshape hplain).2 _ _ rfl rfl

end Predicate

end ODataQuery
