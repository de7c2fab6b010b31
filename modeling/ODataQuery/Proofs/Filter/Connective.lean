import ODataQuery.Proofs.Filter.Depth

/-!
# Predicates as Boolean combinations

Negations and connectives read as Boolean operations over the other nodes, the
atoms. To join a predicate onto another one adds it to the operands of a
connective of the same kind, so an operand by itself counts as a connective of
one. Meaning, order and depth of what is joined follow from that.
-/

namespace ODataQuery

namespace Connective

/-- The truth value of no operands. -/
def unit : Connective → Bool
  | .and => true
  | .or => false

def combine : Connective → Bool → Bool → Bool
  | .and => Bool.and
  | .or => Bool.or

theorem unit_combine (op : Connective) (b : Bool) : op.combine op.unit b = b := by
  cases op <;> rfl

theorem combine_unit (op : Connective) (b : Bool) : op.combine b op.unit = b := by
  cases op <;> cases b <;> rfl

theorem combine_assoc (op : Connective) (a b c : Bool) :
    op.combine (op.combine a b) c = op.combine a (op.combine b c) := by
  cases op
  · exact Bool.and_assoc a b c
  · exact Bool.or_assoc a b c

end Connective

namespace Predicate

mutual

/-- The truth value of a predicate under a valuation of its atoms. -/
def holds (v : Predicate → Bool) : Predicate → Bool
  | .not operand => !operand.holds v
  | .junction op operands => holdsAll v op operands
  | .passthrough text => v (.passthrough text)
  | .binary op left right => v (.binary op left right)
  | .lambda op source body => v (.lambda op source body)

/-- The truth value of operands under a connective. -/
def holdsAll (v : Predicate → Bool) (op : Connective) : List Predicate → Bool
  | [] => op.unit
  | p :: ps => op.combine (p.holds v) (holdsAll v op ps)

end

mutual

/-- The nodes below all negations and connectives, from left to right. -/
def atoms : Predicate → List Predicate
  | .not operand => operand.atoms
  | .junction _ operands => atomsAll operands
  | .passthrough text => [.passthrough text]
  | .binary op left right => [.binary op left right]
  | .lambda op source body => [.lambda op source body]

def atomsAll : List Predicate → List Predicate
  | [] => []
  | p :: ps => p.atoms ++ atomsAll ps

end

/-- What a predicate counts as under a connective: its own operands if it is this
connective, and itself otherwise. -/
def operands (op : Connective) : Predicate → List Predicate
  | .junction op' ps => if op' = op then ps else [.junction op' ps]
  | p => [p]

variable {v : Predicate → Bool} {op : Connective}

theorem holdsAll_append (ps qs : List Predicate) :
    holdsAll v op (ps ++ qs) = op.combine (holdsAll v op ps) (holdsAll v op qs) := by
  induction ps with
  | nil => exact (op.unit_combine _).symm
  | cons p ps ih => rw [List.cons_append, holdsAll, holdsAll, ih, op.combine_assoc]

theorem holdsAll_singleton (p : Predicate) : holdsAll v op [p] = p.holds v :=
  op.combine_unit _

theorem atomsAll_append (ps qs : List Predicate) :
    atomsAll (ps ++ qs) = atomsAll ps ++ atomsAll qs := by
  induction ps with
  | nil => rfl
  | cons p ps ih => rw [List.cons_append, atomsAll, atomsAll, ih, List.append_assoc]

theorem atomsAll_singleton (p : Predicate) : atomsAll [p] = p.atoms := List.append_nil _

theorem depthOperands_append (ps qs : List Predicate) :
    depthOperands (ps ++ qs) = max (depthOperands ps) (depthOperands qs) := by
  induction ps with
  | nil => exact (Nat.zero_max _).symm
  | cons p ps ih => rw [List.cons_append, depthOperands, depthOperands, ih, Nat.max_assoc]

theorem depthOperands_singleton (p : Predicate) : depthOperands [p] = p.depth := Nat.max_zero _

/-- A predicate under a connective is its operands, or one operand. -/
theorem operands_cases (op : Connective) (p : Predicate) :
    p = .junction op (p.operands op) ∨ p.operands op = [p] := by
  cases p with
  | junction op' ps =>
    by_cases hop : op' = op
    · subst hop
      exact .inl (by rw [operands, if_pos rfl])
    · exact .inr (if_neg hop)
  | passthrough | not | binary | lambda => exact .inr rfl

theorem operands_junction (ps : List Predicate) : (junction op ps).operands op = ps := if_pos rfl

/-- To join is to add one operand. -/
theorem join_eq (op : Connective) (p q : Predicate) :
    join op p q = .junction op (p.operands op ++ [q]) := by
  cases p with
  | junction op' ps =>
    rw [join, operands]
    split
    · rfl
    · rfl
  | passthrough | not | binary | lambda => rfl

theorem holdsAll_operands (p : Predicate) : holdsAll v op (p.operands op) = p.holds v := by
  obtain hp | hp := p.operands_cases op
  · rw [hp, holds, operands_junction]
  · rw [hp, holdsAll_singleton]

theorem atomsAll_operands (p : Predicate) : atomsAll (p.operands op) = p.atoms := by
  obtain hp | hp := p.operands_cases op
  · rw [hp, atoms, operands_junction]
  · rw [hp, atomsAll_singleton]

theorem depthOperands_operands_le (p : Predicate) : depthOperands (p.operands op) ≤ p.depth := by
  obtain hp | hp := p.operands_cases op
  · rw [hp, depth, operands_junction]
    exact Nat.le_succ _
  · exact Nat.le_of_eq (by rw [hp, depthOperands_singleton])

/-- A predicate is at most one level deeper than its operands. -/
theorem depth_le_depthOperands_operands (p : Predicate) :
    p.depth ≤ depthOperands (p.operands op) + 1 := by
  obtain hp | hp := p.operands_cases op
  · exact Nat.le_of_eq (by rw [hp, depth, operands_junction])
  · rw [hp, depthOperands_singleton]
    exact Nat.le_succ _

theorem holds_join (p q : Predicate) :
    (join op p q).holds v = op.combine (p.holds v) (q.holds v) := by
  rw [join_eq, holds, holdsAll_append, holdsAll_operands, holdsAll_singleton]

theorem atoms_join (p q : Predicate) : (join op p q).atoms = p.atoms ++ q.atoms := by
  rw [join_eq, atoms, atomsAll_append, atomsAll_operands, atomsAll_singleton]

/-- Joining adds at most one level. -/
theorem depth_join_le (p q : Predicate) : (join op p q).depth ≤ max p.depth q.depth + 1 := by
  have hfirst : depthOperands (p.operands op) ≤ p.depth := depthOperands_operands_le p
  rw [join_eq, depth, depthOperands_append, depthOperands_singleton]
  omega

/-- A chain of joins adds one operand after the other. -/
theorem operands_foldl_join (p : Predicate) (qs : List Predicate) :
    (qs.foldl (join op) p).operands op = p.operands op ++ qs := by
  induction qs generalizing p with
  | nil => exact (List.append_nil _).symm
  | cons q qs ih =>
    rw [List.foldl_cons, ih, join_eq, operands_junction, List.append_assoc, List.singleton_append]

end Predicate

/-- How a predicate is built from given ones. -/
inductive Combination where
  | given (p : Predicate)
  | and (first second : Combination)
  | or (first second : Combination)
  | not (operand : Combination)

namespace Combination

def build : Combination → Predicate
  | .given p => p
  | .and first second => first.build.and second.build
  | .or first second => first.build.or second.build
  | .not operand => operand.build.not

/-- The truth value of the expression. -/
def holds (v : Predicate → Bool) : Combination → Bool
  | .given p => p.holds v
  | .and first second => first.holds v && second.holds v
  | .or first second => first.holds v || second.holds v
  | .not operand => !operand.holds v

/-- The depth of the expression, with one level for each of its operations. -/
def depth : Combination → Nat
  | .given p => p.depth
  | .and first second => max first.depth second.depth + 1
  | .or first second => max first.depth second.depth + 1
  | .not operand => operand.depth + 1

/-- The predicates that the expression is built from, from left to right. -/
def inputs : Combination → List Predicate
  | .given p => [p]
  | .and first second => first.inputs ++ second.inputs
  | .or first second => first.inputs ++ second.inputs
  | .not operand => operand.inputs

theorem holds_build (e : Combination) (v : Predicate → Bool) : e.build.holds v = e.holds v := by
  induction e with
  | given p => rfl
  | and first second ih₁ ih₂ | or first second ih₁ ih₂ =>
    rw [holds, ← ih₁, ← ih₂]
    exact Predicate.holds_join _ _
  | not operand ih => rw [build, Predicate.holds, ih, holds]

theorem atoms_build (e : Combination) : e.build.atoms = e.inputs.flatMap Predicate.atoms := by
  induction e with
  | given p => exact (List.flatMap_singleton ..).symm
  | and first second ih₁ ih₂ | or first second ih₁ ih₂ =>
    rw [inputs, List.flatMap_append, ← ih₁, ← ih₂]
    exact Predicate.atoms_join _ _
  | not operand ih => rw [build, Predicate.atoms, ih, inputs]

theorem depth_build_le (e : Combination) : e.build.depth ≤ e.depth := by
  induction e with
  | given p => exact Nat.le_refl _
  | and first second ih₁ ih₂ | or first second ih₁ ih₂ =>
    refine Nat.le_trans (Predicate.depth_join_le _ _) ?_
    rw [depth]
    omega
  | not operand ih => exact Nat.succ_le_succ ih

end Combination

end ODataQuery
