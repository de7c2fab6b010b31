import ODataQuery.Proofs.Filter.Place

namespace ODataQuery

namespace Expr

mutual

def leaves : Expr → List Expr
  | .literal type value => [.literal type value]
  | .property path => [.property path]
  | .function _ args => argLeaves args

def argLeaves : List Expr → List Expr
  | [] => []
  | e :: es => e.leaves ++ argLeaves es

end

theorem argLeaves_append (es fs : List Expr) :
    argLeaves (es ++ fs) = argLeaves es ++ argLeaves fs := by
  induction es with
  | nil => rfl
  | cons e es ih => rw [List.cons_append, argLeaves, argLeaves, ih, List.append_assoc]

end Expr

namespace Predicate

mutual

def leaves : Predicate → List Expr
  | .passthrough _ => []
  | .not p => p.leaves
  | .binary _ left right => left.leaves ++ right.leaves
  | .junction _ ps => leavesAll ps
  | .lambda _ source body => source.leaves ++ body.leaves

def leavesAll : List Predicate → List Expr
  | [] => []
  | p :: ps => p.leaves ++ leavesAll ps

end

mutual

/-- The leaves of the bodies of lambdas. The source of a lambda is outside its body. -/
def bodyLeaves : Predicate → List Expr
  | .passthrough _ => []
  | .not p => p.bodyLeaves
  | .binary _ _ _ => []
  | .junction _ ps => bodyLeavesAll ps
  | .lambda _ _ body => body.leaves

def bodyLeavesAll : List Predicate → List Expr
  | [] => []
  | p :: ps => p.bodyLeaves ++ bodyLeavesAll ps

end

mutual

def hasLambda : Predicate → Bool
  | .passthrough _ => false
  | .not p => p.hasLambda
  | .binary _ _ _ => false
  | .junction _ ps => anyHasLambda ps
  | .lambda _ _ _ => true

def anyHasLambda : List Predicate → Bool
  | [] => false
  | p :: ps => p.hasLambda || anyHasLambda ps

end

theorem leavesAll_append (ps qs : List Predicate) :
    leavesAll (ps ++ qs) = leavesAll ps ++ leavesAll qs := by
  induction ps with
  | nil => rfl
  | cons p ps ih => rw [List.cons_append, leavesAll, leavesAll, ih, List.append_assoc]

theorem bodyLeavesAll_append (ps qs : List Predicate) :
    bodyLeavesAll (ps ++ qs) = bodyLeavesAll ps ++ bodyLeavesAll qs := by
  induction ps with
  | nil => rfl
  | cons p ps ih => rw [List.cons_append, bodyLeavesAll, bodyLeavesAll, ih, List.append_assoc]

theorem anyHasLambda_append (ps qs : List Predicate) :
    anyHasLambda (ps ++ qs) = (anyHasLambda ps || anyHasLambda qs) := by
  induction ps with
  | nil => rfl
  | cons p ps ih => rw [List.cons_append, anyHasLambda, anyHasLambda, ih, Bool.or_assoc]

end Predicate

variable {leaf : Expr}

theorem Call.mem_leaves_nest (calls : List Call) {e : Expr} (h : leaf ∈ e.leaves) :
    leaf ∈ (nest calls e).leaves := by
  induction calls with
  | nil => exact h
  | cons c calls ih =>
    have hfill : (nest (c :: calls) e).leaves =
        Expr.argLeaves (c.before ++ nest calls e :: c.after) := rfl
    rw [hfill, Expr.argLeaves_append, Expr.argLeaves]
    exact List.mem_append_right _ (List.mem_append_left _ ih)

theorem Slot.mem_leaves_fill (s : Slot) {e : Expr} (h : leaf ∈ e.leaves) :
    leaf ∈ (s.fill e).leaves := by
  cases s with
  | leftOperand op right => exact List.mem_append_left _ h
  | rightOperand op left => exact List.mem_append_right _ h
  | lambdaSource op body => exact List.mem_append_left _ h

theorem Frame.mem_leaves_fill (f : Frame) {p : Predicate} (h : leaf ∈ p.leaves) :
    leaf ∈ (f.fill p).leaves := by
  cases f with
  | not => exact h
  | junction op before after =>
    rw [fill, Predicate.leaves, Predicate.leavesAll_append, Predicate.leavesAll]
    exact List.mem_append_right _ (List.mem_append_left _ h)
  | lambda op source => exact List.mem_append_right _ h

theorem Frame.mem_bodyLeaves_fill (f : Frame) {p : Predicate} (hf : f.isLambda = false)
    (h : leaf ∈ p.bodyLeaves) : leaf ∈ (f.fill p).bodyLeaves := by
  cases f with
  | not => exact h
  | junction op before after =>
    rw [fill, Predicate.bodyLeaves, Predicate.bodyLeavesAll_append, Predicate.bodyLeavesAll]
    exact List.mem_append_right _ (List.mem_append_left _ h)
  | lambda op source => cases hf

theorem Frame.hasLambda_fill (f : Frame) {p : Predicate} (h : f.isLambda ∨ p.hasLambda) :
    (f.fill p).hasLambda := by
  cases f with
  | not =>
    rw [fill, Predicate.hasLambda]
    exact h.resolve_left (by decide)
  | junction op before after =>
    have hp := h.resolve_left Bool.false_ne_true
    rw [fill, Predicate.hasLambda, Predicate.anyHasLambda_append, Predicate.anyHasLambda, hp,
      Bool.true_or, Bool.or_true]
  | lambda op source => rfl

namespace Context

variable (C : Context)

theorem mem_leaves_fill {p : Predicate} (h : leaf ∈ p.leaves) : leaf ∈ (C.fill p).leaves := by
  induction C with
  | nil => exact h
  | cons f C ih => exact f.mem_leaves_fill ih

theorem lambdas_cons (f : Frame) : lambdas (f :: C) = C.lambdas + if f.isLambda then 1 else 0 :=
  List.countP_cons

/-- Below the outermost lambda every leaf counts as one of a body. -/
theorem mem_bodyLeaves_fill {p : Predicate} (hC : 0 < C.lambdas) (h : leaf ∈ p.leaves) :
    leaf ∈ (C.fill p).bodyLeaves := by
  induction C with
  | nil => exact absurd hC (Nat.lt_irrefl 0)
  | cons f C ih =>
    by_cases hf : f.isLambda
    · cases f with
      | lambda op source => exact mem_leaves_fill C h
      | not => cases hf
      | junction op before after => cases hf
    · rw [lambdas_cons, if_neg hf] at hC
      exact f.mem_bodyLeaves_fill ((Bool.not_eq_true _).mp hf) (ih hC)

theorem hasLambda_fill {p : Predicate} (hC : 0 < C.lambdas) : (C.fill p).hasLambda := by
  induction C with
  | nil => exact absurd hC (Nat.lt_irrefl 0)
  | cons f C ih =>
    apply f.hasLambda_fill
    by_cases hf : f.isLambda
    · exact .inl hf
    · rw [lambdas_cons, if_neg hf] at hC
      exact .inr (ih hC)

end Context

namespace Place

variable (X : Place)

theorem mem_bodyLeaves_fill (h : leaf.leaves = [leaf]) (hX : 0 < X.context.lambdas) :
    leaf ∈ (X.fill leaf).bodyLeaves := by
  have hleaf : leaf ∈ leaf.leaves := h ▸ List.mem_singleton_self leaf
  exact X.context.mem_bodyLeaves_fill hX
    (X.slot.mem_leaves_fill (Call.mem_leaves_nest X.calls hleaf))

end Place

end ODataQuery
