import ODataQuery.Proofs.Filter.Congruence
import ODataQuery.Proofs.Query.Congruence
import ODataQuery.Proofs.Schema.Walk

/-!
# Types that no query tells apart

Two types are alike when they answer every path with the same properties and every
navigation leads to types that are alike again. A query that starts on one of them then
compiles as it does on the other, to the same text or with the same error.
-/

namespace ODataQuery

/-- A relation of types that every path preserves. -/
structure EntityType.Bisimulation (R : EntityType → EntityType → Prop) : Prop where
  properties {t t' : EntityType} (path : PropertyPath) :
    R t t' → t.properties path = t'.properties path
  isDeclared {t t' : EntityType} : R t t' → t.isDeclared ∧ t'.isDeclared
  element? {t t' : EntityType} (path : PropertyPath) :
    R t t' → Option.Rel R (t.element? path) (t'.element? path)

namespace EntityType

namespace Bisimulation

variable {R : EntityType → EntityType → Prop} {t t' : EntityType}

theorem serverPath (hR : Bisimulation R) (h : R t t') (path : PropertyPath) (delimiter : String) :
    t.serverPath path delimiter = t'.serverPath path delimiter := by
  obtain ⟨ht, ht'⟩ := hR.isDeclared h
  rw [serverPath_declared ht, serverPath_declared ht', hR.properties path h]

theorem validatePaths (hR : Bisimulation R) (h : R t t') (paths : List PropertyPath) :
    t.validatePaths paths = t'.validatePaths paths := by
  obtain ⟨ht, ht'⟩ := hR.isDeclared h
  have hpaths : t.properties = t'.properties := funext fun path => hR.properties path h
  rw [validatePaths_declared ht, validatePaths_declared ht', hpaths]

/-- A definition is like itself in two schemas whose steps agree on it and on all types that
its steps lead to. -/
theorem of_steps {s s' : Schema} {P : TypeDefinition → Prop}
    (hstep : ∀ d, P d → ∀ segment, s'.step? d segment = s.step? d segment)
    (hnext : ∀ d segment info next, P d → s.step? d segment = some (info, some next) → P next) :
    Bisimulation fun t t' => ∃ d, P d ∧ t = .declared s' d ∧ t' = .declared s d := by
  have hstart {d : TypeDefinition} (hd : P d) : ∀ e ∈ some d, P e := by
    rintro e ⟨⟩
    exact hd
  have hwalk {d : TypeDefinition} (hd : P d) (path : PropertyPath) :
      s'.walk d path = s.walk d path :=
    Schema.walkFrom_eq_of_steps hstep hnext d path path.segments (hstart hd)
  refine ⟨?_, ?_, ?_⟩
  · rintro _ _ path ⟨d, hd, rfl, rfl⟩
    simp only [EntityType.properties, hwalk hd]
  · rintro _ _ ⟨d, hd, rfl, rfl⟩
    exact ⟨rfl, rfl⟩
  · rintro _ _ path ⟨d, hd, rfl, rfl⟩
    simp only [EntityType.element?, hwalk hd]
    cases hlast : s.walk d path with
    | error e => exact .none
    | ok walked =>
      obtain ⟨infos, last⟩ := walked
      cases last with
      | none => exact .none
      | some last =>
        have hend : P last := Schema.walkFrom_invariant hnext (hstart hd) hlast
        dsimp only
        split
        · exact .some ⟨last, hend, rfl, rfl⟩
        · exact .none

end Bisimulation

end EntityType

section

variable {R : EntityType → EntityType → Prop} (hR : EntityType.Bisimulation R)
  {t t' : Option EntityType}

include hR

/-- A node on the way down leads from related types to related types, or to none. -/
theorem Frame.elementType_rel (f : Frame) (h : Option.Rel R t t') :
    Option.Rel R (f.elementType t) (f.elementType t') := by
  cases f with
  | not => exact h
  | junction op before after => exact h
  | lambda op source =>
    cases source with
    | property path =>
      cases h with
      | none => exact .none
      | some h => exact hR.element? path h
    | literal type v => exact .none
    | function name args => exact .none

theorem Context.elementType_rel (C : Context) (h : Option.Rel R t t') :
    Option.Rel R (C.elementType t) (C.elementType t') := by
  induction C generalizing t t' with
  | nil => exact h
  | cons f C ih => exact ih (f.elementType_rel hR h)

theorem PropertyPath.textIn_eq (path : PropertyPath) (h : Option.Rel R t t') :
    path.textIn t = path.textIn t' := by
  cases h with
  | none => rfl
  | some h => exact hR.serverPath h path "/"

end

namespace EntityQuery

variable {R : EntityType → EntityType → Prop} {t t' : EntityType}

theorem options_eq_of_bisimulation (hR : EntityType.Bisimulation R) (h : R t t') (q : EntityQuery)
    (o : CompileOptions) : q.options t o = q.options t' o := by
  have hfilter (p : Predicate) (σ : Scope) :
      p.render (σ.over (some t)) = p.render (σ.over (some t')) := by
    apply Predicate.render_congr congruent_eq
    intro X path _
    exact path.textIn_eq hR (X.context.elementType_rel hR (.some h))
  apply options_congr congruent_eq q.filter
  · apply clauseText_congr congruent_eq
    intro p _
    exact hfilter p (.root none o.dialect o.maxDepth)
  · intro items _
    apply Clause.orderBy_congr congruent_eq
    · exact hR.validatePaths h _
    · exact fun item _ => hR.serverPath h item.path "/"
  · intro paths _
    exact Clause.expand_congr congruent_eq fun path _ => hR.properties path h
  · intro paths _
    apply Clause.select_congr congruent_eq
    · exact hR.validatePaths h paths
    · exact fun path _ => hR.serverPath h path "/"

/-- **Alike types compile alike.** -/
theorem compile_eq_of_bisimulation (hR : EntityType.Bisimulation R) {q : EntityQuery}
    {r r' : Resolver} (h : R (r.entityType q.resourcePath) (r'.entityType q.resourcePath))
    (o : CompileOptions) : q.compile r o = q.compile r' o :=
  compile_congr congruent_eq q.filter (options_eq_of_bisimulation hR h q o)

end EntityQuery

end ODataQuery
