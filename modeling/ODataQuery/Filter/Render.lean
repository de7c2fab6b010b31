import ODataQuery.Dialect
import ODataQuery.Filter.Predicate
import ODataQuery.Literal
import ODataQuery.Schema.EntityType

/-!
# Filter text

A tree is rendered in a scope: the entity type that paths resolve against, the
lambda variable that is bound, and the depth reached so far. The scope is passed
down and never back, so no operand sees what another one bound.
-/

namespace ODataQuery

structure Scope where
  /-- Without a type every path is written as it stands. -/
  entityType : Option EntityType
  /-- The number of the bound variable `x1`, `x2`, … -/
  bound : Option Nat
  dialect : Dialect
  depth : Nat
  limit : Nat

namespace Scope

/-- The scope of a whole filter. -/
def root (entityType : Option EntityType) (dialect : Dialect) (limit : Nat) : Scope :=
  ⟨entityType, none, dialect, 0, limit⟩

/-- One level deeper, as long as the limit allows. -/
def enter (σ : Scope) : Except QueryError Scope :=
  if σ.limit ≤ σ.depth then .error (.depthExceeded σ.limit)
  else .ok { σ with depth := σ.depth + 1 }

def variableName (n : Nat) : String := "x" ++ Integer.toText n

/-- Write a text relative to the bound variable. -/
def qualify (σ : Scope) (text : String) : String :=
  match σ.bound with
  | some n => variableName n ++ "/" ++ text
  | none => text

/-- The number of the variable that a lambda in this scope binds. -/
def nextVariable (σ : Scope) : Nat := σ.bound.getD 0 + 1

/-- The type of a lambda's elements, known when the source is a property path
that ends on a navigation property. -/
def elementType (σ : Scope) : Expr → Option EntityType
  | .property path => σ.entityType.bind (·.element? path)
  | _ => none

/-- The scope of a lambda's body. -/
def bind (σ : Scope) (source : Expr) : Scope :=
  { σ with entityType := σ.elementType source, bound := some σ.nextVariable }

end Scope

/-- A rendered expression. A list literal gives one text for each element. -/
inductive Fragment where
  | text (s : String)
  | list (items : List String)
  deriving DecidableEq, Repr

/-- Where only a single text can stand. -/
inductive Position where
  | expression
  | leftOperand
  | rightOperand
  | lambdaSource
  | functionArgument
  deriving DecidableEq, Repr

def Position.phrase : Position → String
  | .expression => "an expression"
  | .leftOperand => "a left operand"
  | .rightOperand => "a right operand"
  | .lambdaSource => "a lambda source"
  | .functionArgument => "a function argument"

namespace Fragment

def asText (f : Fragment) (position : Position) : Except QueryError String :=
  match f with
  | .text s => .ok s
  | .list _ =>
    .error (.unsupportedNode ("list literal cannot be used as " ++ position.phrase))

/-- Only membership takes a list. -/
def asList : Fragment → Except QueryError (List String)
  | .list items => .ok items
  | .text s => .error (.invalidValue BinaryOp.isIn.key s)

end Fragment

namespace Expr

/-- A literal list is written element by element in the declared type. -/
def literalFragment (type : DataType) : Value → Except QueryError Fragment
  | .list items => do return .list (← items.mapM type.literal)
  | value => do return .text (← type.literal value)

def pathText (σ : Scope) (path : PropertyPath) : Except QueryError String :=
  match σ.entityType with
  | some t => t.serverPath path "/"
  | none => .ok path.dotted

mutual

def render : Expr → Scope → Except QueryError Fragment
  | .literal type value, σ => do
    let _ ← σ.enter
    literalFragment type value
  | .property path, σ => do
    let inner ← σ.enter
    return .text (← pathText inner path)
  | .function name args, σ => do
    let inner ← σ.enter
    let texts ← renderArgs args inner
    return .text (name ++ "(" ++ ",".intercalate texts ++ ")")

def renderArgs : List Expr → Scope → Except QueryError (List String)
  | [], _ => .ok []
  | e :: es, σ => do
    let fragment ← e.render σ
    let text ← fragment.asText .functionArgument
    let texts ← renderArgs es σ
    return text :: texts

end

/-- The text of an expression that stands alone. -/
def renderText (e : Expr) (σ : Scope) : Except QueryError String := do
  (← e.render σ).asText .expression

end Expr

namespace Predicate

/-- Membership: the native list, or a chain of comparisons. An empty list has no
disjuncts and gives the empty text. -/
def membershipText (dialect : Dialect) (left : String) (items : List String) : String :=
  if items.isEmpty then ""
  else if dialect.hasNativeIn then left ++ " in (" ++ ",".intercalate items ++ ")"
  else " or ".intercalate (items.map fun item => "(" ++ left ++ " eq " ++ item ++ ")")

/-- A comparison, or a call compared with `true`; `substringof` takes the needle
first. -/
def comparisonText (dialect : Dialect) (op : BinaryOp) (left right : String) : String :=
  let token := dialect.token op.key
  if op.isFunction then
    if token = "substringof" then token ++ "(" ++ right ++ "," ++ left ++ ") eq true"
    else token ++ "(" ++ left ++ "," ++ right ++ ") eq true"
  else left ++ " " ++ token ++ " " ++ right

def renderBinary (op : BinaryOp) (left right : Expr) (σ : Scope) : Except QueryError String := do
  let leftText ← (← left.render σ).asText .leftOperand
  let rightFragment ← right.render σ
  let leftText := σ.qualify leftText
  if op = .isIn then
    return membershipText σ.dialect leftText (← rightFragment.asList)
  else
    return comparisonText σ.dialect op leftText (← rightFragment.asText .rightOperand)

mutual

def render : Predicate → Scope → Except QueryError String
  | .passthrough text, σ => do
    let _ ← σ.enter
    return text
  | .not operand, σ => do
    let inner ← σ.enter
    return "not (" ++ (← operand.render inner) ++ ")"
  | .binary op left right, σ => do
    let inner ← σ.enter
    renderBinary op left right inner
  | .junction op operands, σ => do
    let inner ← σ.enter
    return (" " ++ op.key ++ " ").intercalate (← renderOperands operands inner)
  | .lambda op source body, σ => do
    let inner ← σ.enter
    let sourceText ← (← source.render inner).asText .lambdaSource
    let bodyText ← body.render (inner.bind source)
    return inner.qualify sourceText ++ "/" ++ op.key ++ "(" ++
      Scope.variableName inner.nextVariable ++ ": " ++ bodyText ++ ")"

/-- Every operand stands in parentheses. -/
def renderOperands : List Predicate → Scope → Except QueryError (List String)
  | [], _ => .ok []
  | p :: ps, σ => do
    let text ← p.render σ
    let texts ← renderOperands ps σ
    return ("(" ++ text ++ ")") :: texts

end

end Predicate

end ODataQuery
