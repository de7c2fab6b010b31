import ODataQuery.Proofs.Literal.Quote

/-!
# Quoted regions

A reader of filter text goes from left to right. A quote opens a region, two
quotes inside it stand for one, and a lone quote closes it. Regions are found
again as they were written when no two of them touch.
-/

namespace ODataQuery

inductive Token where
  /-- A character outside every region. -/
  | outside (c : Char)
  /-- A region, with the text that it stands for. -/
  | region (s : String)
  deriving DecidableEq, Repr

namespace Token

/-- Scan on, outside or in a region that has given some text so far. A region
must be closed. -/
def scan : Option (List Char) → List Char → Option (List Token)
  | none, [] => some []
  | none, c :: cs =>
    if c = '\'' then scan (some []) cs else (scan none cs).map (outside c :: ·)
  | some _, [] => none
  | some body, '\'' :: '\'' :: cs => scan (some (body ++ ['\''])) cs
  | some body, c :: cs =>
    if c = '\'' then (scan none cs).map (region (String.ofList body) :: ·)
    else scan (some (body ++ [c])) cs

def ofText (s : String) : Option (List Token) := scan none s.toList

def region? : Token → Option String
  | outside _ => none
  | region s => some s

/-- The texts that the regions stand for. -/
def regions (ts : List Token) : List String := ts.filterMap region?

@[simp] theorem regions_append (ts us : List Token) :
    regions (ts ++ us) = regions ts ++ regions us := List.filterMap_append

@[simp] theorem regions_outside (cs : List Char) : regions (cs.map outside) = [] := by
  induction cs with
  | nil => rfl
  | cons c cs ih => exact ih

/-- What a reader sees who cannot look into regions. -/
def hide : Token → Token
  | outside c => outside c
  | region _ => region ""

def write : Token → List Char
  | outside c => [c]
  | region s => (DataType.quote s).toList

def writeAll (ts : List Token) : List Char := ts.flatMap write

@[simp] theorem writeAll_nil : writeAll [] = [] := rfl

@[simp] theorem writeAll_cons (t : Token) (ts : List Token) :
    writeAll (t :: ts) = t.write ++ writeAll ts := List.flatMap_cons

@[simp] theorem writeAll_append (ts us : List Token) :
    writeAll (ts ++ us) = writeAll ts ++ writeAll us := List.flatMap_append

@[simp] theorem writeAll_outside (cs : List Char) : writeAll (cs.map outside) = cs := by
  induction cs with
  | nil => rfl
  | cons c cs ih => simp [ih, write]

/-- No region comes first. -/
def Loose (ts : List Token) : Prop := ∀ s, ts.head? ≠ some (region s)

/-- No region touches another one, and nothing outside is a quote. -/
def Apart : List Token → Prop
  | [] => True
  | outside c :: ts => c ≠ '\'' ∧ Apart ts
  | region _ :: ts => Loose ts ∧ Apart ts

theorem Apart.append {ts us : List Token} (hts : Apart ts) (hus : Apart us) (hloose : Loose us) :
    Apart (ts ++ us) := by
  induction ts with
  | nil => exact hus
  | cons t ts ih =>
    cases t with
    | outside c => exact ⟨hts.1, ih hts.2⟩
    | region s =>
      refine ⟨?_, ih hts.2⟩
      cases ts with
      | nil => exact hloose
      | cons t ts => exact hts.1

/-- Plain text in front keeps regions apart. -/
theorem Apart.after {cs : List Char} {ts : List Token} (h : '\'' ∉ cs) (hts : Apart ts) :
    Apart (cs.map outside ++ ts) := by
  induction cs with
  | nil => exact hts
  | cons c cs ih =>
    rw [List.mem_cons, not_or] at h
    exact ⟨Ne.symm h.1, ih h.2⟩

theorem loose_after {cs : List Char} (h : cs ≠ []) (ts : List Token) :
    Loose (cs.map outside ++ ts) := by
  cases cs with
  | nil => exact absurd rfl h
  | cons c cs =>
    intro s hhead
    cases hhead

/-- What follows a region does not begin with a quote. -/
theorem head?_writeAll {ts : List Token} (hloose : Loose ts) (hts : Apart ts) :
    (writeAll ts).head? ≠ some '\'' := by
  cases ts with
  | nil => simp
  | cons t ts =>
    cases t with
    | outside c => simpa [write] using hts.1
    | region s => exact absurd rfl (hloose s)

/-- The doubled quotes of a region are taken apart again. -/
theorem scan_body (cs body rest : List Char) (hrest : rest.head? ≠ some '\'') :
    scan (some body) (DataType.doubled cs ++ '\'' :: rest) =
      (scan none rest).map (region (String.ofList (body ++ cs)) :: ·) := by
  induction cs generalizing body with
  | nil =>
    cases rest with
    | nil => simp [scan]
    | cons c rest =>
      have hc : c ≠ '\'' := by simpa using hrest
      simp [scan, hc]
  | cons c cs ih =>
    by_cases hc : c = '\''
    · subst hc
      simp [DataType.doubled_quote, scan, ih]
    · simp [DataType.doubled_cons_of_ne hc, scan, hc, ih]

theorem scan_writeAll {ts : List Token} (h : Apart ts) : scan none (writeAll ts) = some ts := by
  induction ts with
  | nil => rfl
  | cons t ts ih =>
    cases t with
    | outside c =>
      rw [writeAll_cons, write, List.singleton_append, scan, if_neg h.1, ih h.2]
      rfl
    | region s =>
      have hbody := scan_body s.toList [] (writeAll ts) (head?_writeAll h.1 h.2)
      have htext : writeAll (region s :: ts) =
          '\'' :: (DataType.doubled s.toList ++ '\'' :: writeAll ts) := by
        simp [write, DataType.toList_quote]
      rw [htext, scan, if_pos rfl, hbody, ih h.2, List.nil_append, String.ofList_toList]
      rfl

end Token

/-- A text that holds no quote. -/
def IsPlain (s : String) : Prop := '\'' ∉ s.toList

instance (s : String) : Decidable (IsPlain s) := inferInstanceAs (Decidable (¬ '\'' ∈ s.toList))

theorem IsPlain.append {s t : String} (hs : IsPlain s) (ht : IsPlain t) : IsPlain (s ++ t) := by
  rw [IsPlain, String.toList_append, List.mem_append, not_or]
  exact ⟨hs, ht⟩

/-- Two texts agree outside their regions, which are in the same places; those of
the first stand for the given strings. -/
def Mirrors (strings : List String) (t t' : String) : Prop :=
  ∃ ts us, t.toList = Token.writeAll ts ∧ t'.toList = Token.writeAll us ∧
    Token.Apart ts ∧ Token.Apart us ∧ ts.map Token.hide = us.map Token.hide ∧
    Token.regions ts = strings

namespace Mirrors

variable {strings strings' : List String} {t t' u u' a b : String}

theorem region (s s' : String) : Mirrors [s] (DataType.quote s) (DataType.quote s') := by
  have hloose : Token.Loose [] := fun _ h => by cases h
  refine ⟨[.region s], [.region s'], ?_, ?_, ⟨hloose, trivial⟩, ⟨hloose, trivial⟩, rfl, rfl⟩
  · simp [Token.write]
  · simp [Token.write]

/-- Plain text between two texts keeps their regions apart. -/
theorem between (h : IsPlain a) (hne : a ≠ "") (ht : Mirrors strings t t')
    (hu : Mirrors strings' u u') : Mirrors (strings ++ strings') (t ++ a ++ u) (t' ++ a ++ u') := by
  obtain ⟨ts, ts', hts, hts', hapart, hapart', hhide, rfl⟩ := ht
  obtain ⟨us, us', hus, hus', hupart, hupart', huhide, rfl⟩ := hu
  have hne' : a.toList ≠ [] := fun hnil => hne (String.toList_eq_nil_iff.mp hnil)
  refine ⟨ts ++ (a.toList.map .outside ++ us), ts' ++ (a.toList.map .outside ++ us'), ?_, ?_,
    hapart.append (hupart.after h) (Token.loose_after hne' us),
    hapart'.append (hupart'.after h) (Token.loose_after hne' us'), ?_, ?_⟩
  · simp [hts, hus]
  · simp [hts', hus']
  · simp only [List.map_append, hhide, huhide]
  · simp only [Token.regions_append, Token.regions_outside, List.nil_append]

theorem after (h : IsPlain a) (ht : Mirrors strings t t') :
    Mirrors strings (a ++ t) (a ++ t') := by
  obtain ⟨ts, ts', hts, hts', hapart, hapart', hhide, rfl⟩ := ht
  refine ⟨a.toList.map .outside ++ ts, a.toList.map .outside ++ ts', ?_, ?_, hapart.after h,
    hapart'.after h, ?_, ?_⟩
  · simp [hts]
  · simp [hts']
  · simp only [List.map_append, hhide]
  · simp only [Token.regions_append, Token.regions_outside, List.nil_append]

theorem empty : Mirrors [] "" "" := ⟨[], [], rfl, rfl, trivial, trivial, rfl, rfl⟩

theorem plain (h : IsPlain a) : Mirrors [] a a := by
  have hafter := empty.after h
  rwa [String.append_empty] at hafter

theorem before (h : IsPlain b) (hne : b ≠ "") (ht : Mirrors strings t t') :
    Mirrors strings (t ++ b) (t' ++ b) := by
  have hbetween := ht.between h hne empty
  rwa [List.append_nil, String.append_empty, String.append_empty] at hbetween

theorem enclosed (ha : IsPlain a) (hb : IsPlain b) (hne : b ≠ "") (ht : Mirrors strings t t') :
    Mirrors strings (a ++ t ++ b) (a ++ t' ++ b) := (ht.after ha).before hb hne

/-- Both texts end outside a region. -/
theorem scanned (h : Mirrors strings t t') :
    ∃ ts us, Token.ofText t = some ts ∧ Token.ofText t' = some us ∧
      ts.map Token.hide = us.map Token.hide ∧ Token.regions ts = strings := by
  obtain ⟨ts, us, hts, hus, hapart, hapart', hhide, hregions⟩ := h
  refine ⟨ts, us, ?_, ?_, hhide, hregions⟩
  · rw [Token.ofText, hts, Token.scan_writeAll hapart]
  · rw [Token.ofText, hus, Token.scan_writeAll hapart']

end Mirrors

/-- Texts that mirror each other pairwise. -/
inductive MirrorsAll : List (List String) → List String → List String → Prop where
  | nil : MirrorsAll [] [] []
  | cons {strings : List String} {t t' : String} {rest : List (List String)}
      {ts ts' : List String} : Mirrors strings t t' → MirrorsAll rest ts ts' →
        MirrorsAll (strings :: rest) (t :: ts) (t' :: ts')

theorem MirrorsAll.intercalate {separator : String} {strings : List (List String)}
    {ts ts' : List String} (hplain : IsPlain separator) (hne : separator ≠ "")
    (h : MirrorsAll strings ts ts') :
    Mirrors strings.flatten (separator.intercalate ts) (separator.intercalate ts') := by
  induction h with
  | nil => exact .empty
  | @cons strings t t' rest ts ts' ht hts ih =>
    cases hts with
    | nil => simpa using ht
    | cons hnext hrest =>
      rw [String.intercalate_cons_cons, String.intercalate_cons_cons, List.flatten_cons]
      exact ht.between hplain hne ih

end ODataQuery
