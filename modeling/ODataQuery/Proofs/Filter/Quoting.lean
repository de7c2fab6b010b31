import ODataQuery.Proofs.Filter.Regions
import ODataQuery.Proofs.Filter.Rendering

namespace ODataQuery

namespace DataType

/-- The string that a scalar's literal puts in quotes. -/
def quoted : DataType → Value → List String
  | .string, .string s => [s]
  | .string, .int n => [(Value.int n).display]
  | .string, .float x => [x.toText]
  | .time, .string s | .binary, .string s => [s]
  | _, _ => []

/-- What a scalar's literal copies holds no quote. -/
def CopiesPlain : DataType → Value → Prop
  | .undefined, v => IsPlain v.display
  | .time, .string s | .binary, .string s => IsPlain s
  | _, _ => True

end DataType

namespace Value

mutual

/-- The value with every string in it emptied. -/
def blank : Value → Value
  | .string _ => .string ""
  | .list items => .list (blankAll items)
  | v => v

def blankAll : List Value → List Value
  | [] => []
  | v :: vs => v.blank :: blankAll vs

end

end Value

/-- Only strings that are declared as such are emptied. -/
def DataType.blank (type : DataType) (v : Value) : Value :=
  if type = .string then v.blank else v

namespace Expr

mutual

/-- The strings that the text of an expression quotes, in the order of its text. -/
def quoted : Expr → List String
  | .literal type v => type.quoted v
  | .property _ => []
  | .function _ args => (quotedArgs args).flatten

def quotedArgs : List Expr → List (List String)
  | [] => []
  | e :: es => e.quoted :: quotedArgs es

end

mutual

def blank : Expr → Expr
  | .literal type v => .literal type (type.blank v)
  | .property path => .property path
  | .function name args => .function name (blankArgs args)

def blankArgs : List Expr → List Expr
  | [] => []
  | e :: es => e.blank :: blankArgs es

end

mutual

/-- Function names, the emitted names of properties and copied values hold no
quote. -/
def CopiesPlain : Expr → Scope → Prop
  | .literal type (.list items), _ => ∀ v ∈ items, type.CopiesPlain v
  | .literal type v, _ => type.CopiesPlain v
  | .property path, σ => ∀ text, pathText σ path = .ok text → IsPlain text
  | .function name args, σ => IsPlain name ∧ ArgsCopyPlain args σ.deeper

def ArgsCopyPlain : List Expr → Scope → Prop
  | [], _ => True
  | e :: es, σ => e.CopiesPlain σ ∧ ArgsCopyPlain es σ

end

end Expr

namespace Predicate

/-- Whether the right operand of a call is written before the left one. -/
def needleFirst : Dialect → BinaryOp → Bool
  | _, .substringOf | .v4, .contains => true
  | _, _ => false

/-- Every element of a chain repeats the left operand. -/
def quotedMembership (dialect : Dialect) (left : List String) (items : List (List String)) :
    List String :=
  if items.isEmpty then []
  else if dialect.hasNativeIn then left ++ items.flatten
  else (items.map (left ++ ·)).flatten

def quotedBinary (dialect : Dialect) : BinaryOp → Expr → Expr → List String
  | .isIn, left, .literal type (.list items) =>
    quotedMembership dialect left.quoted (items.map type.quoted)
  | op, left, right =>
    if needleFirst dialect op then right.quoted ++ left.quoted else left.quoted ++ right.quoted

mutual

/-- The strings that a filter quotes, in the order of its text. -/
def quoted (dialect : Dialect) : Predicate → List String
  | .passthrough _ => []
  | .not p => p.quoted dialect
  | .binary op left right => quotedBinary dialect op left right
  | .junction _ ps => (quotedAll dialect ps).flatten
  | .lambda _ source body => source.quoted ++ body.quoted dialect

def quotedAll (dialect : Dialect) : List Predicate → List (List String)
  | [] => []
  | p :: ps => p.quoted dialect :: quotedAll dialect ps

end

mutual

/-- The filter with every string of the string type emptied. -/
def blank : Predicate → Predicate
  | .passthrough text => .passthrough text
  | .not p => .not p.blank
  | .binary op left right => .binary op left.blank right.blank
  | .junction op ps => .junction op (blankAll ps)
  | .lambda op source body => .lambda op source.blank body.blank

def blankAll : List Predicate → List Predicate
  | [] => []
  | p :: ps => p.blank :: blankAll ps

end

mutual

/-- What is copied into the text of a filter, in the scopes where it is rendered,
holds no quote. -/
def CopiesPlain : Predicate → Scope → Prop
  | .passthrough text, _ => IsPlain text
  | .not p, σ => p.CopiesPlain σ.deeper
  | .binary _ left right, σ => left.CopiesPlain σ.deeper ∧ right.CopiesPlain σ.deeper
  | .junction _ ps, σ => AllCopyPlain ps σ.deeper
  | .lambda _ source body, σ =>
    source.CopiesPlain σ.deeper ∧ body.CopiesPlain (σ.deeper.bind source)

def AllCopyPlain : List Predicate → Scope → Prop
  | [], _ => True
  | p :: ps, σ => p.CopiesPlain σ ∧ AllCopyPlain ps σ

end

end Predicate

namespace DataType

theorem blank_list (type : DataType) (items : List Value) :
    type.blank (.list items) = .list (items.map type.blank) := by
  have hall : ∀ vs, Value.blankAll vs = vs.map Value.blank := by
    intro vs
    induction vs with
    | nil => rfl
    | cons v vs ih => rw [Value.blankAll, ih, List.map_cons]
  by_cases hstring : type = .string
  · subst hstring
    exact congrArg Value.list (hall items)
  · have hsame : type.blank = id := funext fun v => if_neg hstring
    rw [hsame, List.map_id, id]

theorem blank_scalar (type : DataType) {v : Value} (h : ∀ items, v ≠ .list items) :
    ∀ items, type.blank v ≠ .list items := by
  intro items
  unfold blank
  split
  · cases v with
    | list items => exact absurd rfl (h items)
    | null | bool | int | float | string | timestamp => simp [Value.blank]
  · exact h items

end DataType

theorem Scope.bind_blank (σ : Scope) (source : Expr) : σ.bind source.blank = σ.bind source := by
  cases source <;> simp only [Expr.blank, bind, elementType]

namespace Expr

theorem copiesPlain_scalar {type : DataType} {v : Value} {σ : Scope}
    (h : ∀ items, v ≠ .list items) : (literal type v).CopiesPlain σ ↔ type.CopiesPlain v := by
  cases v with
  | list items => exact absurd rfl (h items)
  | null | bool | int | float | string | timestamp => simp only [CopiesPlain]

/-- A literal of the string type copies nothing. -/
theorem copiesPlain_string (v : Value) (σ : Scope) : (literal .string v).CopiesPlain σ := by
  cases v with
  | list items =>
    rw [CopiesPlain]
    exact fun _ _ => trivial
  | null | bool | int | float | string | timestamp =>
    rw [CopiesPlain]
    · trivial
    · exact fun _ h => by cases h

mutual

theorem blank_copiesPlain (e : Expr) (σ : Scope) : e.blank.CopiesPlain σ ↔ e.CopiesPlain σ := by
  cases e with
  | literal type v =>
    rw [blank]
    by_cases hstring : type = .string
    · subst hstring
      exact iff_of_true (copiesPlain_string _ σ) (copiesPlain_string v σ)
    · rw [DataType.blank, if_neg hstring]
  | property path => rfl
  | function name args =>
    simp only [blank, CopiesPlain, blankArgs_copyPlain args]

theorem blankArgs_copyPlain (es : List Expr) (σ : Scope) :
    ArgsCopyPlain (blankArgs es) σ ↔ ArgsCopyPlain es σ := by
  cases es with
  | nil => rfl
  | cons e es =>
    simp only [blankArgs, ArgsCopyPlain, blank_copiesPlain e, blankArgs_copyPlain es]

end

end Expr

namespace Predicate

mutual

theorem blank_copiesPlain (p : Predicate) (σ : Scope) :
    p.blank.CopiesPlain σ ↔ p.CopiesPlain σ := by
  cases p with
  | passthrough text => rfl
  | not p => exact blank_copiesPlain p σ.deeper
  | binary op left right =>
    simp only [blank, CopiesPlain, Expr.blank_copiesPlain]
  | junction op ps => exact blankAll_copyPlain ps σ.deeper
  | lambda op source body =>
    simp only [blank, CopiesPlain, Expr.blank_copiesPlain, Scope.bind_blank,
      blank_copiesPlain body]

theorem blankAll_copyPlain (ps : List Predicate) (σ : Scope) :
    AllCopyPlain (blankAll ps) σ ↔ AllCopyPlain ps σ := by
  cases ps with
  | nil => rfl
  | cons p ps =>
    simp only [blankAll, AllCopyPlain, blank_copiesPlain p, blankAll_copyPlain ps]

end

end Predicate

end ODataQuery
