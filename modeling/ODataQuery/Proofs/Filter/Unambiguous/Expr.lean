import ODataQuery.Proofs.Filter.Unambiguous.Written
import ODataQuery.Proofs.Number.Integer
import ODataQuery.Proofs.PropertyPath
import ODataQuery.Proofs.Text.Word

/-!
# No two expressions are written alike

The text of an exact expression tells which expression it is, and where it ends:
a word ends where no character of a word follows, a string where no second quote
follows, and an opening parenthesis behind a word makes it a call.
-/

namespace ODataQuery

/-- The marks that can stand behind an expression. -/
def IsMark (c : Char) : Prop := c = ' ' ∨ c = ',' ∨ c = ')' ∨ c = '/'

instance (c : Char) : Decidable (IsMark c) :=
  inferInstanceAs (Decidable (c = ' ' ∨ c = ',' ∨ c = ')' ∨ c = '/'))

/-- A text behind an expression: nothing, or what begins with a mark. -/
def Stops (r : List Char) : Prop := ∀ c, r.head? = some c → IsMark c

theorem stops_cons {c : Char} (h : IsMark c) (r : List Char) : Stops (c :: r) := by
  intro d hd
  cases hd
  exact h

namespace Stops

variable {r : List Char} (h : Stops r)
include h

theorem endsWord : Text.EndsWord r := by
  intro c hc
  obtain rfl | rfl | rfl | rfl := h c hc <;> decide

theorem head?_ne_quote : r.head? ≠ some '\'' := by
  intro hc
  exact absurd (h _ hc) (by decide)

theorem ne_parenthesis (cs : List Char) : r ≠ '(' :: cs := by
  rintro rfl
  exact absurd (h _ rfl) (by decide)

end Stops

theorem stops_more (ts : List (List Char)) (r : List Char) : Stops (more [','] [')'] ts ++ r) := by
  cases ts with
  | nil => exact stops_cons (by decide) _
  | cons t ts => exact stops_cons (by decide) _

inductive Opening where
  | quote
  | numeral
  | name
  deriving DecidableEq

/-- What a first character opens. -/
def Opening.of (c : Char) : Opening :=
  if c = '\'' then .quote else if c.isDigit || c == '-' then .numeral else .name

theorem Opening.of_alpha {c : Char} (h : c.isAlpha || c == '_') : of c = .name := by
  rw [Bool.or_eq_true, beq_iff_eq] at h
  obtain halpha | rfl := h
  · have hquote : c ≠ '\'' := by
      rintro rfl
      revert halpha
      decide
    have hminus : (c == '-') = false := by
      rw [beq_eq_false_iff_ne]
      rintro rfl
      revert halpha
      decide
    have hdigit : c.isDigit = false := by
      rw [Bool.eq_false_iff, ne_eq, Text.isDigit_iff]
      rw [Text.isAlpha_iff] at halpha
      omega
    simp [of, hquote, hdigit, hminus]
  · decide

theorem Opening.of_numeral {c : Char} (h : c.isDigit || c == '-') : of c = .numeral := by
  have hquote : c ≠ '\'' := by
    rintro rfl
    revert h
    decide
  rw [of, if_neg hquote, if_pos h]

namespace Expr

def opening : Expr → Opening
  | .literal .string _ => .quote
  | .literal _ _ => .numeral
  | _ => .name

/-- The word that an expression begins with, unless it is a string. -/
def word : Expr → List Char
  | .literal _ v => v.text
  | .property path => path.dotted.toList
  | .function name _ => name.toList

/-- What stands behind that word. -/
def behind : Expr → List Char
  | .function _ args => '(' :: joined [','] [')'] (argTexts args)
  | _ => []

theorem text_eq_word_behind (e : Expr) : e.text = e.word ++ e.behind := by
  cases e <;> simp [text, word, behind]

theorem head_word {e : Expr} (he : e.Exact) :
    ∃ c cs, e.word = c :: cs ∧ Opening.of c = e.opening := by
  cases e with
  | literal type v =>
    obtain ⟨s, rfl, rfl⟩ | ⟨n, rfl, rfl⟩ := he.eq
    · exact ⟨'\'', _, DataType.toList_quote s, rfl⟩
    · obtain ⟨c, cs, htext⟩ := List.exists_cons_of_ne_nil (Integer.toText_ne_nil n.toInt)
      have hall := Integer.toText_all n.toInt
      rw [htext, List.all_cons, Bool.and_eq_true] at hall
      exact ⟨c, cs, htext, Opening.of_numeral hall.1⟩
  | property path =>
    obtain ⟨hne, -, hsegments⟩ := he
    obtain ⟨s, rest, hpath⟩ := List.exists_cons_of_ne_nil hne
    obtain ⟨c, cs, hs, hc⟩ := Text.isIdentifier_head (hsegments s (by simp [hpath]))
    obtain ⟨ds, hdotted⟩ := PropertyPath.dotted_head hpath hs
    exact ⟨c, ds, hdotted, Opening.of_alpha hc⟩
  | function name args =>
    obtain ⟨c, cs, hname, hc⟩ := Text.isIdentifier_head he.1
    exact ⟨c, cs, hname, Opening.of_alpha hc⟩

theorem word_isWord {e : Expr} (he : e.Exact) (h : e.opening ≠ .quote) :
    e.word.all Text.isWord := by
  cases e with
  | literal type v =>
    obtain ⟨s, rfl, rfl⟩ | ⟨n, rfl, rfl⟩ := he.eq
    · exact absurd rfl h
    · have hall := List.all_eq_true.mp (Integer.toText_all n.toInt)
      rw [word, Value.text, List.all_eq_true]
      exact fun c hc => Text.isWord_of_numeral (hall c hc)
  | property path =>
    rw [word, PropertyPath.toList_dotted]
    refine Text.all_intercalate (by decide) fun part hpart => ?_
    obtain ⟨s, hs, rfl⟩ := List.mem_map.mp hpart
    exact Text.isIdentifier_isWord (he.2.2 s hs)
  | function name args => exact Text.isIdentifier_isWord he.1

theorem endsWord_behind {e : Expr} {r : List Char} (hr : Stops r) :
    Text.EndsWord (e.behind ++ r) := by
  cases e with
  | literal type v => exact hr.endsWord
  | property path => exact hr.endsWord
  | function name args => exact Text.EndsWord.cons (by decide) _

/-- Equal texts begin alike. -/
theorem opening_eq {e e' : Expr} (he : e.Exact) (he' : e'.Exact) {r r' : List Char}
    (h : e.text ++ r = e'.text ++ r') : e.opening = e'.opening := by
  obtain ⟨c, cs, hword, hc⟩ := head_word he
  obtain ⟨c', cs', hword', hc'⟩ := head_word he'
  rw [text_eq_word_behind, text_eq_word_behind, hword, hword'] at h
  have hhead : c = c' := List.head_eq_of_cons_eq h
  rw [← hc, ← hc', hhead]

/-- Expressions that do not begin with a quote have their words in common. -/
theorem word_eq {e e' : Expr} (he : e.Exact) (he' : e'.Exact) (hopening : e.opening ≠ .quote)
    {r r' : List Char} (hr : Stops r) (hr' : Stops r') (h : e.text ++ r = e'.text ++ r') :
    e.word = e'.word ∧ e.behind ++ r = e'.behind ++ r' := by
  have hopening' : e'.opening ≠ .quote := by
    rw [← opening_eq he he' h]
    exact hopening
  rw [text_eq_word_behind, text_eq_word_behind, List.append_assoc, List.append_assoc] at h
  exact Text.word_unique (word_isWord he hopening) (word_isWord he' hopening')
    (endsWord_behind hr) (endsWord_behind hr') h

/-- An expression begins with a quote or with a word. -/
theorem text_ne_mark {e : Expr} (he : e.Exact) {c : Char} (hword : Text.isWord c = false)
    (hquote : c ≠ '\'') (r cs : List Char) : e.text ++ r ≠ c :: cs := by
  intro h
  obtain ⟨d, ds, hd, hopening⟩ := head_word he
  rw [text_eq_word_behind, hd] at h
  obtain rfl : d = c := List.head_eq_of_cons_eq h
  by_cases hq : e.opening = .quote
  · rw [hq, Opening.of, if_neg hquote] at hopening
    split at hopening <;> cases hopening
  · have hall := word_isWord he hq
    rw [hd, List.all_cons, hword, Bool.false_and] at hall
    cases hall

theorem opening_literal_ne_name (type : DataType) (v : Value) :
    (literal type v).opening ≠ .name := by
  cases type <;> exact nofun

theorem literal_unique {type type' : DataType} {v v' : Value} (hv : (literal type v).Exact)
    (hv' : (literal type' v').Exact) {r r' : List Char} (hr : Stops r) (hr' : Stops r')
    (h : (literal type v).text ++ r = (literal type' v').text ++ r') :
    literal type v = literal type' v' ∧ r = r' := by
  have hopening := opening_eq hv hv' h
  obtain ⟨s, rfl, rfl⟩ | ⟨n, rfl, rfl⟩ := DataType.Exact.eq hv
  · obtain ⟨s', rfl, rfl⟩ | ⟨n', rfl, rfl⟩ := DataType.Exact.eq hv'
    · simp only [text, Value.text, DataType.toList_quote, List.cons_append, List.append_assoc,
        List.nil_append] at h
      obtain ⟨hs, hrest⟩ := DataType.doubled_unique hr.head?_ne_quote hr'.head?_ne_quote
        (List.tail_eq_of_cons_eq h)
      rw [String.toList_inj.mp hs]
      exact ⟨rfl, hrest⟩
    · cases hopening
  · obtain ⟨s', rfl, rfl⟩ | ⟨n', rfl, rfl⟩ := DataType.Exact.eq hv'
    · cases hopening
    · obtain ⟨hword, hrest⟩ := word_eq hv hv' nofun hr hr' h
      have hn : n = n' := Int64.toInt_inj.mp (Integer.toText_inj hword)
      rw [hn]
      exact ⟨rfl, hrest⟩

theorem property_unique {path path' : PropertyPath} (he : (property path).Exact)
    (he' : (property path').Exact) (h : path.dotted.toList = path'.dotted.toList) :
    path = path' :=
  PropertyPath.dotted_inj he.1 he'.1 (fun s hs => Text.isIdentifier_no_point (he.2.2 s hs))
    (fun s hs => Text.isIdentifier_no_point (he'.2.2 s hs)) h

mutual

/-- **No two expressions are written alike**, whatever stands behind them. -/
theorem text_unique (e e' : Expr) (he : e.Exact) (he' : e'.Exact) {r r' : List Char}
    (hr : Stops r) (hr' : Stops r') (h : e.text ++ r = e'.text ++ r') : e = e' ∧ r = r' := by
  have hopening := opening_eq he he' h
  cases e with
  | literal type v =>
    cases e' with
    | literal type' v' => exact literal_unique he he' hr hr' h
    | property | function => exact absurd hopening (opening_literal_ne_name type v)
  | property path =>
    obtain ⟨hword, hbehind⟩ := word_eq he he' nofun hr hr' h
    cases e' with
    | literal type' v' => exact absurd hopening.symm (opening_literal_ne_name type' v')
    | property path' =>
      rw [property_unique he he' hword]
      exact ⟨rfl, hbehind⟩
    | function name' args' => exact absurd hbehind (hr.ne_parenthesis _)
  | function name args =>
    obtain ⟨hword, hbehind⟩ := word_eq he he' nofun hr hr' h
    cases e' with
    | literal type' v' => exact absurd hopening.symm (opening_literal_ne_name type' v')
    | property path' => exact absurd hbehind.symm (hr'.ne_parenthesis _)
    | function name' args' =>
      obtain ⟨rfl, hrest⟩ := joined_unique args args' he.2 he'.2 (List.tail_eq_of_cons_eq hbehind)
      rw [String.toList_inj.mp hword]
      exact ⟨rfl, hrest⟩

theorem joined_unique (es es' : List Expr) (he : ArgsExact es) (he' : ArgsExact es')
    {r r' : List Char}
    (h : joined [','] [')'] (argTexts es) ++ r = joined [','] [')'] (argTexts es') ++ r') :
    es = es' ∧ r = r' := by
  cases es with
  | nil =>
    cases es' with
    | nil => exact ⟨rfl, List.tail_eq_of_cons_eq h⟩
    | cons e' es' =>
      rw [argTexts, argTexts, joined, joined, List.append_assoc] at h
      exact absurd h.symm (text_ne_mark he'.1 (by decide) (by decide) _ _)
  | cons e es =>
    cases es' with
    | nil =>
      rw [argTexts, argTexts, joined, joined, List.append_assoc] at h
      exact absurd h (text_ne_mark he.1 (by decide) (by decide) _ _)
    | cons e' es' =>
      simp only [argTexts, joined, List.append_assoc] at h
      obtain ⟨rfl, htail⟩ := text_unique e e' he.1 he'.1 (stops_more _ r) (stops_more _ r') h
      obtain ⟨rfl, hrest⟩ := more_unique es es' he.2 he'.2 htail
      exact ⟨rfl, hrest⟩

theorem more_unique (es es' : List Expr) (he : ArgsExact es) (he' : ArgsExact es')
    {r r' : List Char}
    (h : more [','] [')'] (argTexts es) ++ r = more [','] [')'] (argTexts es') ++ r') :
    es = es' ∧ r = r' := by
  cases es with
  | nil =>
    cases es' with
    | nil => exact ⟨rfl, List.tail_eq_of_cons_eq h⟩
    | cons e' es' => exact absurd (List.head_eq_of_cons_eq h) (by decide)
  | cons e es =>
    cases es' with
    | nil => exact absurd (List.head_eq_of_cons_eq h) (by decide)
    | cons e' es' =>
      simp only [argTexts, more, List.append_assoc] at h
      have hitem := List.append_cancel_left h
      obtain ⟨rfl, htail⟩ := text_unique e e' he.1 he'.1 (stops_more _ r) (stops_more _ r') hitem
      obtain ⟨rfl, hrest⟩ := more_unique es es' he.2 he'.2 htail
      exact ⟨rfl, hrest⟩

end

/-- Expressions with a mark behind each. -/
theorem marked_unique {e e' : Expr} (he : e.Exact) (he' : e'.Exact) {c d : Char}
    (hc : IsMark c) (hd : IsMark d) {r r' : List Char}
    (h : e.text ++ c :: r = e'.text ++ d :: r') : e = e' ∧ c = d ∧ r = r' := by
  obtain ⟨hexpr, hmark⟩ := text_unique e e' he he' (stops_cons hc r) (stops_cons hd r') h
  rw [List.cons.injEq] at hmark
  exact ⟨hexpr, hmark⟩

/-- Only the path that is left out is written `true`. -/
theorem text_ne_true {e : Expr} (he : e.Exact) {r r' : List Char} (hr : Stops r)
    (hr' : Stops r') : e.text ++ r ≠ "true".toList ++ r' := by
  intro h
  rw [text_eq_word_behind, List.append_assoc] at h
  have hname : e.opening = .name := by
    obtain ⟨c, cs, hword, hopening⟩ := head_word he
    rw [hword] at h
    obtain rfl : c = 't' := List.head_eq_of_cons_eq h
    exact hopening.symm
  have hword := word_isWord he (by rw [hname]; exact nofun)
  obtain ⟨htrue, hbehind⟩ :=
    Text.word_unique hword (by decide) (endsWord_behind hr) hr'.endsWord h
  cases e with
  | literal type v => exact opening_literal_ne_name type v hname
  | property path =>
    have hpath : path = ⟨["true"]⟩ :=
      PropertyPath.dotted_inj he.1 nofun (fun s hs => Text.isIdentifier_no_point (he.2.2 s hs))
        (by decide) htrue
    exact he.2.1 (congrArg PropertyPath.segments hpath)
  | function name args => exact hr'.ne_parenthesis _ hbehind.symm

end Expr

end ODataQuery
