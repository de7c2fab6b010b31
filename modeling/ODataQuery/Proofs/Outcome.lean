namespace ODataQuery

variable {ε α β : Type}

@[simp] theorem pure_eq_ok (a : α) : (pure a : Except ε α) = .ok a := rfl

@[simp] theorem ok_bind (a : α) (f : α → Except ε β) : (Except.ok a >>= f) = f a := rfl

@[simp] theorem error_bind (e : ε) (f : α → Except ε β) : (Except.error e >>= f) = .error e := rfl

@[simp] theorem map_ok (f : α → β) (a : α) : (Except.ok a : Except ε α).map f = .ok (f a) := rfl

@[simp] theorem map_error (f : α → β) (e : ε) :
    (Except.error e : Except ε α).map f = .error e := rfl

@[simp] theorem map_bind {γ : Type} (x : Except ε α) (f : α → γ) (g : γ → Except ε β) :
    (x.map f >>= g) = x >>= fun a => g (f a) := by
  cases x <;> rfl

/-- A sequence succeeds exactly when both of its steps do. -/
theorem bind_eq_ok {x : Except ε α} {f : α → Except ε β} {b : β} :
    (x >>= f) = .ok b ↔ ∃ a, x = .ok a ∧ f a = .ok b := by
  cases x <;> simp

theorem map_eq_ok {f : α → β} {x : Except ε α} {b : β} :
    x.map f = .ok b ↔ ∃ a, x = .ok a ∧ f a = b := by
  cases x <;> simp

/-- A list is gone through exactly when each of its elements succeeds. -/
theorem exists_mapM_eq_ok {f : α → Except ε β} {as : List α} :
    (∃ bs, as.mapM f = .ok bs) ↔ ∀ a ∈ as, ∃ b, f a = .ok b := by
  induction as with
  | nil => simp
  | cons a as ih =>
    simp only [List.mapM_cons, bind_eq_ok, pure_eq_ok, Except.ok.injEq, List.forall_mem_cons, ← ih]
    constructor
    · rintro ⟨_, b, hb, bs, hbs, rfl⟩
      exact ⟨⟨b, hb⟩, bs, hbs⟩
    · rintro ⟨⟨b, hb⟩, bs, hbs⟩
      exact ⟨_, b, hb, bs, hbs, rfl⟩

/-- Going through a list whose elements all succeed gives their results in order. -/
theorem mapM_eq_map {f : α → Except ε β} {g : α → β} {as : List α}
    (h : ∀ a ∈ as, f a = .ok (g a)) : as.mapM f = .ok (as.map g) := by
  induction as with
  | nil => rfl
  | cons a as ih =>
    obtain ⟨ha, has⟩ := List.forall_mem_cons.mp h
    rw [List.mapM_cons, ha, ih has]
    rfl

/-- Going through a list of writings reads each of them. -/
theorem mapM_map_eq_ok {γ : Type} {write : α → β} {read : β → Except ε γ} {f : α → γ}
    {as : List α} (h : ∀ a ∈ as, read (write a) = .ok (f a)) :
    (as.map write).mapM read = .ok (as.map f) := by
  rw [List.mapM_map]
  exact mapM_eq_map h

theorem length_of_mapM {f : α → Except ε β} {as : List α} {bs : List β}
    (h : as.mapM f = .ok bs) : bs.length = as.length := by
  induction as generalizing bs with
  | nil =>
    obtain rfl := Except.ok.inj h
    rfl
  | cons a as ih =>
    simp only [List.mapM_cons, bind_eq_ok, pure_eq_ok, Except.ok.injEq] at h
    obtain ⟨b, -, bs, hbs, rfl⟩ := h
    rw [List.length_cons, List.length_cons, ih hbs]

/-- A list of checks may be gone through for results that are then dropped. -/
theorem forM_discard (f : α → Except ε β) (as : List α) :
    (as.forM fun a => do let _ ← f a) = (as.mapM f).map fun _ => () := by
  induction as with
  | nil => rfl
  | cons a as ih =>
    rw [List.forM_eq_forM] at ih ⊢
    rw [List.forM_cons, List.mapM_cons, ih]
    cases f a with
    | error e => rfl
    | ok b => cases as.mapM f <;> rfl

/-- A list of checks is passed exactly when each of them is. -/
theorem forM_eq_ok {f : α → Except ε Unit} {as : List α} {u : Unit} :
    as.forM f = .ok u ↔ ∀ a ∈ as, f a = .ok () := by
  induction as with
  | nil => simp
  | cons a as ih =>
    have hcons : (a :: as).forM f = f a >>= fun _ => as.forM f := rfl
    rw [hcons, bind_eq_ok, List.forall_mem_cons]
    constructor
    · rintro ⟨⟨⟩, ha, has⟩
      exact ⟨ha, ih.mp has⟩
    · rintro ⟨ha, has⟩
      exact ⟨(), ha, ih.mpr has⟩

theorem bind_eq_error {x : Except ε α} {f : α → Except ε β} {e : ε} :
    (x >>= f) = .error e ↔ x = .error e ∨ ∃ a, x = .ok a ∧ f a = .error e := by
  cases x <;> simp

/-- Going through a list fails where its first element fails. -/
theorem mapM_eq_error {f : α → Except ε β} {as : List α} {e : ε} :
    as.mapM f = .error e ↔ ∃ before a behind, as = before ++ a :: behind ∧
      (∀ b ∈ before, ∃ c, f b = .ok c) ∧ f a = .error e := by
  induction as with
  | nil => simp
  | cons a as ih =>
    simp only [List.mapM_cons, bind_eq_error, pure_eq_ok, reduceCtorEq, and_false, exists_false,
      or_false, ih, List.cons_eq_append_iff]
    constructor
    · rintro (ha | ⟨b, hb, before, a', behind, rfl, hbefore, ha'⟩)
      · exact ⟨[], a, as, .inl ⟨rfl, rfl⟩, by simp, ha⟩
      · exact ⟨a :: before, a', behind, .inr ⟨before, rfl, rfl⟩,
          List.forall_mem_cons.mpr ⟨⟨b, hb⟩, hbefore⟩, ha'⟩
    · rintro ⟨before, a', behind, ⟨rfl, heq⟩ | ⟨tail, rfl, rfl⟩, hbefore, ha'⟩
      · obtain ⟨rfl, -⟩ := List.cons.inj heq
        exact .inl ha'
      · obtain ⟨⟨b, hb⟩, htail⟩ := List.forall_mem_cons.mp hbefore
        exact .inr ⟨b, hb, tail, a', behind, rfl, htail, ha'⟩

/-- A computation that fails has an error of one kind. -/
def FailsOnly (P : ε → Prop) (x : Except ε α) : Prop := ∀ e, x = .error e → P e

namespace FailsOnly

variable {P Q : ε → Prop} {x : Except ε α}

theorem ok (a : α) : FailsOnly P (.ok a) := nofun

theorem error {e : ε} (h : P e) : FailsOnly P (.error e : Except ε α) := by
  rintro _ ⟨⟩
  exact h

theorem mono (h : FailsOnly P x) (hPQ : ∀ e, P e → Q e) : FailsOnly Q x :=
  fun e he => hPQ e (h e he)

theorem bind {f : α → Except ε β} (h : FailsOnly P x)
    (hnext : ∀ a, x = .ok a → FailsOnly P (f a)) : FailsOnly P (x >>= f) := by
  intro e he
  obtain hx | ⟨a, ha, hfa⟩ := bind_eq_error.mp he
  · exact h e hx
  · exact hnext a ha e hfa

/-- What comes behind the last step cannot fail. -/
theorem bind_pure (h : FailsOnly P x) (f : α → β) : FailsOnly P (x >>= fun a => pure (f a)) :=
  h.bind fun a _ => ok (f a)

theorem map (h : FailsOnly P x) (f : α → β) : FailsOnly P (x.map f) := by
  cases x with
  | ok a => exact ok (f a)
  | error e => exact error (h e rfl)

theorem mapM {f : α → Except ε β} {as : List α} (h : ∀ a ∈ as, FailsOnly P (f a)) :
    FailsOnly P (as.mapM f) := by
  intro e he
  obtain ⟨before, a, behind, rfl, -, ha⟩ := mapM_eq_error.mp he
  exact h a (List.mem_append_right _ List.mem_cons_self) e ha

end FailsOnly

/-- Two computations fail with the same error or not at all. -/
def FailAlike : Except ε α → Except ε β → Prop
  | .ok _, .ok _ => True
  | .error e, .error e' => e = e'
  | _, _ => False

namespace FailAlike

variable {α' β' : Type} {x : Except ε α} {y : Except ε α'}

theorem of_eq {x y : Except ε α} (h : x = y) : FailAlike x y := by
  subst h
  cases x with
  | ok a => trivial
  | error e => exact rfl

theorem error_iff (h : FailAlike x y) (e : ε) : x = .error e ↔ y = .error e := by
  cases x <;> cases y <;> simp_all [FailAlike]

theorem bind {f : α → Except ε β} {g : α' → Except ε β'} (h : FailAlike x y)
    (hnext : ∀ a a', x = .ok a → y = .ok a' → FailAlike (f a) (g a')) :
    FailAlike (x >>= f) (y >>= g) := by
  cases x with
  | ok a =>
    cases y with
    | ok a' => exact hnext a a' rfl rfl
    | error e => exact h.elim
  | error e =>
    cases y with
    | ok a' => exact h.elim
    | error e' => exact h

/-- Putting a text together cannot fail. -/
theorem bind_pure {f : α → β} {g : α' → β'} (h : FailAlike x y) :
    FailAlike (x >>= fun a => pure (f a)) (y >>= fun a => pure (g a)) :=
  h.bind fun _ _ _ _ => trivial

end FailAlike

/-- Two computations both fail, or both succeed and their results are related. -/
def Together (R : α → β → Prop) : Except ε α → Except ε β → Prop
  | .ok a, .ok b => R a b
  | .error _, .error _ => True
  | _, _ => False

namespace Together

variable {α' β' : Type} {R : α → β → Prop} {x : Except ε α} {y : Except ε β}

theorem of_eq {R : α → α → Prop} {x : Except ε α} (h : ∀ a, x = .ok a → R a a) :
    Together R x x := by
  cases x with
  | ok a => exact h a rfl
  | error e => trivial

theorem ok_iff (h : Together R x y) : (∃ a, x = .ok a) ↔ ∃ b, y = .ok b := by
  cases x <;> cases y <;> simp_all [Together]

theorem related (h : Together R x y) {a : α} (ha : x = .ok a) : ∃ b, y = .ok b ∧ R a b := by
  subst ha
  cases y with
  | ok b => exact ⟨b, rfl, h⟩
  | error e => exact h.elim

theorem bind {S : α' → β' → Prop} {f : α → Except ε α'} {g : β → Except ε β'}
    (h : Together R x y) (hnext : ∀ a b, R a b → Together S (f a) (g b)) :
    Together S (x >>= f) (y >>= g) := by
  cases x with
  | ok a =>
    cases y with
    | ok b => exact hnext a b h
    | error e => exact h.elim
  | error e =>
    cases y with
    | ok b => exact h.elim
    | error e' => trivial

end Together

/-- A relation that every computation bears to itself and that the steps of a sequence
hand on to the whole. -/
structure Congruent (Q : ∀ {α : Type}, Except ε α → Except ε α → Prop) : Prop where
  refl {α : Type} (x : Except ε α) : Q x x
  bind {α β : Type} {x y : Except ε α} {f g : α → Except ε β} :
    Q x y → (∀ a, Q (f a) (g a)) → Q (x >>= f) (y >>= g)

/-- What the first computation gives, the second gives as well. -/
def PassesTo (x y : Except ε α) : Prop := ∀ a, x = .ok a → y = .ok a

/-- Two computations succeed with the same result or not at all. -/
def PassAlike (x y : Except ε α) : Prop := ∀ a, x = .ok a ↔ y = .ok a

theorem congruent_eq : Congruent (ε := ε) Eq where
  refl _ := rfl
  bind := by
    rintro α β x y f g rfl h
    have hfg : f = g := funext h
    rw [hfg]

theorem congruent_passesTo : Congruent (ε := ε) PassesTo where
  refl _ _ h := h
  bind := by
    intro α β x y f g hxy hfg b h
    obtain ⟨a, ha, hb⟩ := bind_eq_ok.mp h
    exact bind_eq_ok.mpr ⟨a, hxy a ha, hfg a b hb⟩

theorem congruent_passAlike : Congruent (ε := ε) PassAlike where
  refl _ _ := Iff.rfl
  bind := by
    intro α β x y f g hxy hfg b
    constructor
    · intro h
      obtain ⟨a, ha, hb⟩ := bind_eq_ok.mp h
      exact bind_eq_ok.mpr ⟨a, (hxy a).mp ha, (hfg a b).mp hb⟩
    · intro h
      obtain ⟨a, ha, hb⟩ := bind_eq_ok.mp h
      exact bind_eq_ok.mpr ⟨a, (hxy a).mpr ha, (hfg a b).mpr hb⟩

namespace Congruent

variable {Q : ∀ {α : Type}, Except ε α → Except ε α → Prop}

/-- What comes behind a step may read only the step's result. -/
theorem then_same (hQ : Congruent Q) {x y : Except ε α} (h : Q x y) (f : α → Except ε β) :
    Q (x >>= f) (y >>= f) :=
  hQ.bind h fun a => hQ.refl (f a)

theorem mapM (hQ : Congruent Q) {f g : α → Except ε β} {as : List α}
    (h : ∀ a ∈ as, Q (f a) (g a)) : Q (as.mapM f) (as.mapM g) := by
  induction as with
  | nil => exact hQ.refl _
  | cons a as ih =>
    obtain ⟨ha, has⟩ := List.forall_mem_cons.mp h
    simp only [List.mapM_cons]
    refine hQ.bind ha fun b => ?_
    exact hQ.then_same (ih has) _

end Congruent

end ODataQuery
