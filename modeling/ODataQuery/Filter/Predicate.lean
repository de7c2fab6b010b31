import ODataQuery.PropertyPath
import ODataQuery.Value

namespace ODataQuery

inductive BinaryOp where
  | eq
  | ne
  | lt
  | le
  | gt
  | ge
  /-- Membership in a literal list. -/
  | isIn
  | startsWith
  | endsWith
  | contains
  | substringOf
  deriving DecidableEq, Repr

namespace BinaryOp

/-- The operator's name before any dialect renames it. -/
def key : BinaryOp → String
  | .eq => "eq"
  | .ne => "ne"
  | .lt => "lt"
  | .le => "le"
  | .gt => "gt"
  | .ge => "ge"
  | .isIn => "in"
  | .startsWith => "startswith"
  | .endsWith => "endswith"
  | .contains => "contains"
  | .substringOf => "substringof"

def all : List BinaryOp :=
  [.eq, .ne, .lt, .le, .gt, .ge, .isIn, .startsWith, .endsWith, .contains, .substringOf]

def ofKey? (s : String) : Option BinaryOp := all.find? (·.key == s)

/-- Whether the operator is written as a call that is compared with `true`. -/
def isFunction : BinaryOp → Bool
  | .startsWith | .endsWith | .contains | .substringOf => true
  | _ => false

theorem ofKey?_key (op : BinaryOp) : ofKey? op.key = some op := by cases op <;> decide

end BinaryOp

inductive Connective where
  | and
  | or
  deriving DecidableEq, Repr

def Connective.key : Connective → String
  | .and => "and"
  | .or => "or"

inductive Quantifier where
  | any
  | all
  deriving DecidableEq, Repr

def Quantifier.key : Quantifier → String
  | .any => "any"
  | .all => "all"

/-- A node that has a value. -/
inductive Expr where
  | literal (type : DataType) (value : Value)
  | property (path : PropertyPath)
  | function (name : String) (args : List Expr)

/-- A node that holds or does not. -/
inductive Predicate where
  /-- Filter text that is taken as it is. -/
  | passthrough (text : String)
  | not (operand : Predicate)
  | binary (op : BinaryOp) (left right : Expr)
  | junction (op : Connective) (operands : List Predicate)
  /-- Some or every element of the collection `source` satisfies `body`. -/
  | lambda (op : Quantifier) (source : Expr) (body : Predicate)

namespace Predicate

/-- A predicate that already is the same connective is extended and not nested. -/
def join (op : Connective) (first second : Predicate) : Predicate :=
  match first with
  | .junction op' operands =>
    if op' = op then .junction op (operands ++ [second]) else .junction op [first, second]
  | _ => .junction op [first, second]

def and (first second : Predicate) : Predicate := join .and first second

def or (first second : Predicate) : Predicate := join .or first second

end Predicate

end ODataQuery
