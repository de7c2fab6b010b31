/-!
# Parsers of text

A parser takes characters from the front of a text and leaves the rest. Where it
cannot, it says what it looked for and where it stood. An optional part and a
list take what they can, so text that does not fit is left rather than refused.
-/

namespace ODataQuery

namespace Parser

/-- What a parser looked for. -/
inductive Wanted where
  | char
  | takeSome
  | separatedList
  deriving DecidableEq, Repr

def Wanted.name : Wanted → String
  | .char => "Char"
  | .takeSome => "TakeWhile1"
  | .separatedList => "SeparatedList"

/-- The text that a parser could not take from. -/
structure Mismatch where
  rest : List Char
  wanted : Wanted
  deriving DecidableEq, Repr

end Parser

/-- What is left is the end of the text that was given. -/
structure Parser (α : Type) where
  run : List Char → Except Parser.Mismatch (α × List Char)
  suffix : ∀ {cs a rest}, run cs = .ok (a, rest) → rest <:+ cs

namespace Parser

variable {α β σ : Type} {cs rest left : List Char}

/-- One given character. -/
def char (c : Char) : Parser Char where
  run
    | d :: cs => if d = c then .ok (d, cs) else .error ⟨d :: cs, .char⟩
    | [] => .error ⟨[], .char⟩
  suffix := by
    intro cs a rest h
    cases cs with
    | nil => simp at h
    | cons d cs =>
      simp only at h
      split at h
      · obtain ⟨rfl, rfl⟩ := Prod.mk.inj (Except.ok.inj h)
        exact List.suffix_cons _ _
      · simp at h

/-- The longest run of a class of characters, even when it is empty. -/
def takeWhile (p : Char → Bool) : Parser (List Char) where
  run cs := .ok (cs.takeWhile p, cs.dropWhile p)
  suffix := by
    intro cs a rest h
    obtain ⟨rfl, rfl⟩ := Prod.mk.inj (Except.ok.inj h)
    exact List.dropWhile_suffix p

/-- The longest run of a class of characters, which must not be empty. -/
def takeSome (p : Char → Bool) : Parser (List Char) where
  run cs :=
    if cs.takeWhile p = [] then .error ⟨cs, .takeSome⟩
    else .ok (cs.takeWhile p, cs.dropWhile p)
  suffix := by
    intro cs a rest h
    split at h
    · simp at h
    · obtain ⟨rfl, rfl⟩ := Prod.mk.inj (Except.ok.inj h)
      exact List.dropWhile_suffix p

/-- An absent part takes nothing. -/
def optional (p : Parser α) : Parser (Option α) where
  run cs :=
    match p.run cs with
    | .ok (a, rest) => .ok (some a, rest)
    | .error _ => .ok (none, cs)
  suffix := by
    intro cs a rest h
    split at h
    · rename_i hrun
      obtain ⟨rfl, rfl⟩ := Prod.mk.inj (Except.ok.inj h)
      exact p.suffix hrun
    · obtain ⟨rfl, rfl⟩ := Prod.mk.inj (Except.ok.inj h)
      exact List.suffix_refl _

/-- One text behind the other. -/
def pair (p : Parser α) (q : Parser β) : Parser (α × β) where
  run cs :=
    match p.run cs with
    | .ok (a, rest) =>
      match q.run rest with
      | .ok (b, rest) => .ok ((a, b), rest)
      | .error m => .error m
    | .error m => .error m
  suffix := by
    intro cs ab rest h
    split at h
    · rename_i hp
      split at h
      · rename_i hq
        obtain ⟨rfl, rfl⟩ := Prod.mk.inj (Except.ok.inj h)
        exact (q.suffix hq).trans (p.suffix hp)
      · simp at h
    · simp at h

def map (f : α → β) (p : Parser α) : Parser β where
  run cs :=
    match p.run cs with
    | .ok (a, rest) => .ok (f a, rest)
    | .error m => .error m
  suffix := by
    intro cs b rest h
    split at h
    · rename_i hp
      obtain ⟨rfl, rfl⟩ := Prod.mk.inj (Except.ok.inj h)
      exact p.suffix hp
    · simp at h

/-- What stands behind a part that only marks the place. -/
def preceded (p : Parser α) (q : Parser β) : Parser β := (pair p q).map Prod.snd

/-- The items that a separator stands before. A separator without an item behind
it is left, and one that takes nothing is refused because it could be found for
ever. -/
def itemsBehind (sep : Parser σ) (item : Parser α) (cs : List Char) :
    Except Mismatch (List α × List Char) :=
  match sep.run cs with
  | .error _ => .ok ([], cs)
  | .ok (_, rest) =>
    if rest.length < cs.length then
      match h : item.run rest with
      | .error _ => .ok ([], cs)
      | .ok (a, left) =>
        have := (item.suffix h).length_le
        (itemsBehind sep item left).map fun r => (a :: r.1, r.2)
    else .error ⟨rest, .separatedList⟩
termination_by cs.length

theorem run_of_map_cons {a : α} {x : Except Mismatch (List α × List Char)} {as : List α}
    {rest : List Char} (h : (x.map fun r => (a :: r.1, r.2)) = .ok (as, rest)) :
    ∃ items, x = .ok (items, rest) := by
  cases x with
  | error m => simp [Except.map] at h
  | ok r =>
    obtain ⟨-, rfl⟩ := Prod.mk.inj (Except.ok.inj h)
    exact ⟨r.1, rfl⟩

theorem suffix_itemsBehind {sep : Parser σ} {item : Parser α} {cs : List Char} {as : List α}
    {rest : List Char} (h : itemsBehind sep item cs = .ok (as, rest)) : rest <:+ cs := by
  fun_induction itemsBehind sep item cs generalizing as rest with
  | case1 cs m hsep =>
    obtain ⟨-, rfl⟩ := Prod.mk.inj (Except.ok.inj h)
    exact List.suffix_refl _
  | case2 cs s behind hsep hlt m hitem =>
    obtain ⟨-, rfl⟩ := Prod.mk.inj (Except.ok.inj h)
    exact List.suffix_refl _
  | case3 cs s behind hsep hlt a left hitem hle ih =>
    obtain ⟨items, hitems⟩ := run_of_map_cons h
    exact (ih hitems).trans ((item.suffix hitem).trans (sep.suffix hsep))
  | case4 cs s behind hsep hge => simp at h

/-- Items with a separator between each two. No item at all is an empty list. -/
def separatedList (sep : Parser σ) (item : Parser α) : Parser (List α) where
  run cs :=
    match item.run cs with
    | .error _ => .ok ([], cs)
    | .ok (a, rest) => (itemsBehind sep item rest).map fun r => (a :: r.1, r.2)
  suffix := by
    intro cs as rest h
    split at h
    · obtain ⟨-, rfl⟩ := Prod.mk.inj (Except.ok.inj h)
      exact List.suffix_refl _
    · rename_i hitem
      obtain ⟨items, hitems⟩ := run_of_map_cons h
      exact (suffix_itemsBehind hitems).trans (item.suffix hitem)

theorem run_char (c : Char) (cs : List Char) : (char c).run (c :: cs) = .ok (c, cs) := by
  simp [char]

section

variable {p : Parser α} {q : Parser β} {a : α} {b : β} {m : Mismatch}

theorem run_optional_ok (h : p.run cs = .ok (a, rest)) :
    (optional p).run cs = .ok (some a, rest) := by
  simp [optional, h]

theorem run_optional_error (h : p.run cs = .error m) : (optional p).run cs = .ok (none, cs) := by
  simp [optional, h]

/-- An optional part never fails. -/
theorem exists_run_optional (p : Parser α) (cs : List Char) :
    ∃ a rest, (optional p).run cs = .ok (a, rest) := by
  cases h : p.run cs with
  | ok r => exact ⟨_, _, run_optional_ok h⟩
  | error m => exact ⟨_, _, run_optional_error h⟩

theorem run_pair_ok (hp : p.run cs = .ok (a, rest)) (hq : q.run rest = .ok (b, left)) :
    (pair p q).run cs = .ok ((a, b), left) := by
  simp [pair, hp, hq]

theorem run_pair_error (h : p.run cs = .error m) : (pair p q).run cs = .error m := by
  simp [pair, h]

theorem run_preceded_ok (hp : p.run cs = .ok (a, rest)) (hq : q.run rest = .ok (b, left)) :
    (preceded p q).run cs = .ok (b, left) := by
  simp [preceded, map, run_pair_ok hp hq]

theorem run_preceded_error (h : p.run cs = .error m) : (preceded p q).run cs = .error m := by
  have hpair : (pair p q).run cs = .error m := run_pair_error h
  simp [preceded, map, hpair]

end

section

variable {sep : Parser σ} {item : Parser α} {a : α}

theorem run_separatedList_last {m : Mismatch} (hitem : item.run cs = .ok (a, rest))
    (hsep : sep.run rest = .error m) : (separatedList sep item).run cs = .ok ([a], rest) := by
  have hbehind : itemsBehind sep item rest = .ok ([], rest) := by
    rw [itemsBehind, hsep]
  simp only [separatedList, hitem, hbehind]
  rfl

/-- A list with an item behind the first separator is the first item and a list. -/
theorem run_separatedList_cons {s : σ} {b : α} {more : List Char}
    (hitem : item.run cs = .ok (a, rest)) (hsep : sep.run rest = .ok (s, more))
    (hlt : more.length < rest.length) (hnext : item.run more = .ok (b, left)) :
    (separatedList sep item).run cs =
      ((separatedList sep item).run more).map fun r => (a :: r.1, r.2) := by
  have hbehind : itemsBehind sep item rest = (separatedList sep item).run more := by
    rw [itemsBehind, hsep]
    simp only [hlt, ↓reduceIte, separatedList]
    split <;> simp_all
  simp only [separatedList, hitem] at hbehind ⊢
  rw [hbehind]

end

end Parser

end ODataQuery
