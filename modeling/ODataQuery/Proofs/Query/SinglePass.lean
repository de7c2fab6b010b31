import Mathlib.Data.List.Induction
import ODataQuery.Proofs.Query.Component
import ODataQuery.Proofs.Query.Grammar

/-!
# Decoding in a single pass

A component is decoded byte by byte: an escape, with digits of either case, is replaced by the
byte that it spells, any other byte is kept, and nothing that was produced is looked at again.
The bytes have to be those of a text in the end and not before, so a character may be spelled
by escapes and bytes as they are together. Text that does not end inside an escape can be cut
off and decoded on its own.
-/

namespace ODataQuery

namespace Utf8

theorem encodeChar_length_pos (c : Char) : 0 < (encodeChar c).length := by
  rw [encodeChar_eq, String.length_utf8EncodeChar]
  exact c.utf8Size_pos

/-- An ASCII byte that ends the form of a text is the last character. -/
theorem exists_of_encode_eq_concat {cs : List Char} {front : List UInt8} {b : UInt8}
    (hb : b.toNat < 0x80) (h : encode cs = front ++ [b]) :
    ∃ before, cs = before ++ [Char.ofNat b.toNat] ∧ encode before = front := by
  obtain rfl | ⟨before, c, rfl⟩ := cs.eq_nil_or_concat
  · simp [encode] at h
  have hconcat : encode (before ++ [c]) = encode before ++ encodeChar c := by
    rw [encode_append, encode, encode, List.flatMap_singleton]
  rw [List.concat_eq_append, hconcat] at h
  by_cases hascii : c.toNat < 0x80
  · rw [encodeChar_ascii hascii] at h
    obtain ⟨hfront, hlast⟩ := List.append_inj' h rfl
    obtain rfl := List.singleton_inj.mp hlast
    refine ⟨before, ?_, hfront⟩
    rw [List.concat_eq_append, toNat_byte (by omega), Char.ofNat_toNat]
  · -- beyond ASCII the last byte would have its high bit set
    have hsuffix : [b] <:+ encodeChar c :=
      List.suffix_of_suffix_length_le ⟨front, h.symm⟩ (List.suffix_append ..)
        (encodeChar_length_pos c)
    have := high_bit_of_mem_encodeChar hascii (hsuffix.mem List.mem_cons_self)
    omega

/-- An ASCII ending of the form of a text is an ending of the text. -/
theorem suffix_of_suffix_encode {cs : List Char} {ending : List UInt8}
    (hascii : ∀ b ∈ ending, b.toNat < 0x80) (h : ending <:+ encode cs) :
    ending.map (fun b => Char.ofNat b.toNat) <:+ cs := by
  induction ending using List.reverseRecOn generalizing cs with
  | nil => exact List.nil_suffix
  | append_singleton ending b ih =>
    simp only [List.mem_append, List.mem_singleton] at hascii
    obtain ⟨front, hfront⟩ := h
    rw [← List.append_assoc] at hfront
    obtain ⟨before, rfl, hbefore⟩ :=
      exists_of_encode_eq_concat (hascii b (.inr rfl)) hfront.symm
    obtain ⟨rest, hrest⟩ := ih (fun d hd => hascii d (.inl hd)) ⟨front, hbefore.symm⟩
    exact ⟨rest, by rw [List.map_append, ← List.append_assoc, hrest]; rfl⟩

end Utf8

namespace Percent

/-- The digits of an escape in lower case by their values. -/
def lowerHex : List Char :=
  ['0', '1', '2', '3', '4', '5', '6', '7', '8', '9', 'a', 'b', 'c', 'd', 'e', 'f']

/-- A digit of either case and its value. -/
def IsHexDigit (c : Char) (n : Nat) : Prop := upperHex[n]? = some c ∨ lowerHex[n]? = some c

instance (c : Char) (n : Nat) : Decidable (IsHexDigit c n) := inferInstanceAs (Decidable (_ ∨ _))

/-- A percent sign with two digits, and the byte that they spell. -/
inductive IsEscape : List UInt8 → UInt8 → Prop
  | mk {high low : UInt8} {x y : Nat} : IsHexDigit (Char.ofNat high.toNat) x →
      IsHexDigit (Char.ofNat low.toNat) y → IsEscape [0x25, high, low] (UInt8.ofNat (16 * x + y))

/-- What one pass from the left makes of bytes. -/
inductive Unescapes : List UInt8 → List UInt8 → Prop
  | nil : Unescapes [] []
  | replace {spelling rest out : List UInt8} {b : UInt8} : IsEscape spelling b →
      Unescapes rest out → Unescapes (spelling ++ rest) (b :: out)
  | keep {rest out : List UInt8} {b : UInt8} :
      (∀ spelling x, IsEscape spelling x → ¬spelling <+: b :: rest) →
      Unescapes rest out → Unescapes (b :: rest) (b :: out)

/-- Text that breaks off behind the mark of an escape or behind its first digit. -/
def EndsInsideEscape (cs : List Char) : Prop :=
  ['%'] <:+ cs ∨ ∃ digit ∈ upperHex ++ lowerHex, ['%', digit] <:+ cs

instance (cs : List Char) : Decidable (EndsInsideEscape cs) :=
  @instDecidableOr _ _ _ (List.decidableBEx _ _)

theorem IsEscape.length_eq {spelling : List UInt8} {b : UInt8} (h : IsEscape spelling b) :
    spelling.length = 3 := by
  cases h
  rfl

theorem IsHexDigit.mem {c : Char} {n : Nat} (h : IsHexDigit c n) : c ∈ upperHex ++ lowerHex := by
  rw [List.mem_append]
  exact h.imp List.mem_of_getElem? List.mem_of_getElem?

theorem hexValue_ascii {b : UInt8} {n : Nat} (h : hexValue b = some n) : b.toNat < 0x80 := by
  unfold hexValue at h
  dsimp only at h
  split_ifs at h <;> cases h <;> omega

theorem isHexDigit_of_hexValue {b : UInt8} {n : Nat} (h : hexValue b = some n) :
    IsHexDigit (Char.ofNat b.toNat) n := by
  have hbytes : ∀ k < 256, ∀ n ∈ hexValue (UInt8.ofNat k), IsHexDigit (Char.ofNat k) n := by
    decide +kernel
  refine hbytes b.toNat b.toNat_lt n ?_
  rwa [UInt8.ofNat_toNat]

theorem hexValue_of_isHexDigit {b : UInt8} {n : Nat} (h : IsHexDigit (Char.ofNat b.toNat) n) :
    hexValue b = some n := by
  have hdigits : ∀ digits ∈ [upperHex, lowerHex], ∀ n < 16,
      digits[n]?.map (fun c => hexValue (UInt8.ofNat c.toNat)) = some (some n) := by
    decide
  have hbyte : UInt8.ofNat (Char.ofNat b.toNat).toNat = b := by
    rw [Utf8.toNat_ofNat_of_valid (.inl (Nat.lt_trans b.toNat_lt (by decide))), UInt8.ofNat_toNat]
  have hn : n < 16 := by
    obtain h | h := h <;> exact (List.getElem?_eq_some_iff.mp h).1
  obtain ⟨digits, hmem, hdigit⟩ :
      ∃ digits ∈ [upperHex, lowerHex], digits[n]? = some (Char.ofNat b.toNat) := by
    simpa [IsHexDigit] using h
  have hvalue := hdigits digits hmem n hn
  rw [hdigit, Option.map_some, hbyte] at hvalue
  exact Option.some.inj hvalue

theorem hexValue_eq_some_iff {b : UInt8} {n : Nat} :
    hexValue b = some n ↔ IsHexDigit (Char.ofNat b.toNat) n :=
  ⟨isHexDigit_of_hexValue, hexValue_of_isHexDigit⟩

theorem escaped?_eq_some_iff {mark high low b : UInt8} :
    escaped? mark high low = some b ↔ IsEscape [mark, high, low] b := by
  unfold escaped?
  constructor
  · intro h
    split_ifs at h with hmark
    obtain ⟨x, hx, hlow⟩ := Option.bind_eq_some_iff.mp h
    obtain ⟨y, hy, rfl⟩ := Option.map_eq_some_iff.mp hlow
    rw [hmark, Nat.mul_comm]
    exact .mk (hexValue_eq_some_iff.mp hx) (hexValue_eq_some_iff.mp hy)
  · rintro ⟨hx, hy⟩
    rw [if_pos rfl, hexValue_eq_some_iff.mpr hx, hexValue_eq_some_iff.mpr hy, Nat.mul_comm]
    rfl

theorem unescape_of_isEscape {spelling : List UInt8} {b : UInt8} (h : IsEscape spelling b)
    (rest : List UInt8) : unescape (spelling ++ rest) = b :: unescape rest := by
  cases h with
  | mk hx hy =>
    have hescaped := escaped?_eq_some_iff.mpr (IsEscape.mk hx hy)
    simp only [List.cons_append, List.nil_append, unescape, hescaped]

theorem unescape_of_no_escape {b : UInt8} {rest : List UInt8}
    (h : ∀ spelling x, IsEscape spelling x → ¬spelling <+: b :: rest) :
    unescape (b :: rest) = b :: unescape rest := by
  match rest with
  | [] => rfl
  | [_] => rfl
  | high :: low :: rest =>
    have hescaped : escaped? b high low = none := by
      refine Option.eq_none_iff_forall_ne_some.mpr fun x hx => ?_
      exact h _ x (escaped?_eq_some_iff.mp hx) (List.prefix_append [b, high, low] rest)
    simp only [unescape, hescaped]

theorem unescapes_unescape (bytes : List UInt8) : Unescapes bytes (unescape bytes) := by
  match bytes with
  | [] => exact .nil
  | b :: rest =>
    by_cases h : ∃ spelling x, IsEscape spelling x ∧ spelling <+: b :: rest
    · obtain ⟨spelling, x, hescape, behind, hbehind⟩ := h
      have : behind.length < rest.length + 1 := by
        have hlength := congrArg List.length hbehind
        rw [List.length_append, hescape.length_eq, List.length_cons] at hlength
        omega
      rw [← hbehind, unescape_of_isEscape hescape]
      exact .replace hescape (unescapes_unescape behind)
    · have hnone : ∀ spelling x, IsEscape spelling x → ¬spelling <+: b :: rest :=
        fun spelling x hescape hstarts => h ⟨spelling, x, hescape, hstarts⟩
      rw [unescape_of_no_escape hnone]
      exact .keep hnone (unescapes_unescape rest)
termination_by bytes.length

/-- The pass has one result, which is the one that is computed. -/
theorem unescapes_iff {bytes out : List UInt8} : Unescapes bytes out ↔ unescape bytes = out := by
  constructor
  · intro h
    induction h with
    | nil => rfl
    | replace hescape _ ih => rw [unescape_of_isEscape hescape, ih]
    | keep hnone _ ih => rw [unescape_of_no_escape hnone, ih]
  · rintro rfl
    exact unescapes_unescape bytes

/-- Bytes behind which others could complete an escape. -/
def BreaksOff (bytes : List UInt8) : Prop :=
  [0x25] <:+ bytes ∨ ∃ b n, IsHexDigit (Char.ofNat b.toNat) n ∧ [0x25, b] <:+ bytes

theorem BreaksOff.of_suffix {rest bytes : List UInt8} (h : BreaksOff rest)
    (hsuffix : rest <:+ bytes) : BreaksOff bytes := by
  obtain hmark | ⟨b, n, hb, hdigit⟩ := h
  · exact .inl (hmark.trans hsuffix)
  · exact .inr ⟨b, n, hb, hdigit.trans hsuffix⟩

/-- An escape that goes beyond the end of bytes finds them broken off. -/
theorem breaksOff_of_escape {spelling front back : List UInt8} {b : UInt8}
    (h : IsEscape spelling b) (hstarts : spelling <+: front ++ back) (hne : front ≠ [])
    (hlength : front.length < 3) : BreaksOff front := by
  cases h with
  | mk hx hy =>
    match front with
    | [] => exact absurd rfl hne
    | [mark] =>
      obtain ⟨rfl, -⟩ := List.cons_prefix_cons.mp hstarts
      exact .inl List.suffix_rfl
    | [mark, digit] =>
      obtain ⟨rfl, hdigits⟩ := List.cons_prefix_cons.mp hstarts
      obtain ⟨rfl, -⟩ := List.cons_prefix_cons.mp hdigits
      exact .inr ⟨_, _, hx, List.suffix_rfl⟩
    | _ :: _ :: _ :: _ =>
      simp only [List.length_cons] at hlength
      omega

theorem Unescapes.append {front back out more : List UInt8} (hfront : Unescapes front out)
    (hback : Unescapes back more) (hend : ¬BreaksOff front) :
    Unescapes (front ++ back) (out ++ more) := by
  induction hfront with
  | nil => exact hback
  | @replace spelling rest out b hescape _ ih =>
    rw [List.append_assoc]
    exact .replace hescape (ih fun h => hend (h.of_suffix (List.suffix_append spelling rest)))
  | @keep rest out b hnone _ ih =>
    refine .keep (fun spelling x hescape hstarts => ?_)
      (ih fun h => hend (h.of_suffix (List.suffix_cons b rest)))
    -- the escape does not end before the joint, since none stands there
    have hlong : ¬spelling.length ≤ (b :: rest).length := fun hle =>
      hnone spelling x hescape
        (List.prefix_of_prefix_length_le hstarts (List.prefix_append (b :: rest) back) hle)
    rw [hescape.length_eq, Nat.not_le] at hlong
    exact hend (breaksOff_of_escape hescape hstarts (by simp) hlong)

theorem endsInsideEscape_of_breaksOff {cs : List Char} (h : BreaksOff (Utf8.encode cs)) :
    EndsInsideEscape cs := by
  obtain hmark | ⟨b, n, hb, hdigit⟩ := h
  · exact .inl (Utf8.suffix_of_suffix_encode (by simp) hmark)
  · have hascii : b.toNat < 0x80 := hexValue_ascii (hexValue_of_isHexDigit hb)
    exact .inr ⟨_, hb.mem, Utf8.suffix_of_suffix_encode (by simp [hascii]) hdigit⟩

theorem unescape_encode_append {cs : List Char} (h : ¬EndsInsideEscape cs) (ds : List Char) :
    unescape (Utf8.encode (cs ++ ds)) =
      unescape (Utf8.encode cs) ++ unescape (Utf8.encode ds) := by
  have hend : ¬BreaksOff (Utf8.encode cs) := mt endsInsideEscape_of_breaksOff h
  have happend := (unescapes_unescape _).append (unescapes_unescape (Utf8.encode ds)) hend
  rw [Utf8.encode_append, unescapes_iff.mp happend]

theorem decode_eq_ok_iff {cs out : List Char} :
    decode cs = .ok out ↔ unescape (Utf8.encode cs) = Utf8.encode out :=
  Utf8.decodeFrom_eq_ok_iff.trans eq_comm

/-- Behind text that decodes, the rest decodes as it does alone. -/
theorem decode_append_eq_ok_iff {cs ds out all : List Char} (hend : ¬EndsInsideEscape cs)
    (h : decode cs = .ok out) :
    decode (cs ++ ds) = .ok all ↔ ∃ more, decode ds = .ok more ∧ all = out ++ more := by
  have hout := decode_eq_ok_iff.mp h
  simp only [decode_eq_ok_iff, unescape_encode_append hend, hout]
  constructor
  · intro hall
    obtain ⟨more, hmore, rfl⟩ := Utf8.exists_encode_of_append hall.symm
    exact ⟨more, hmore.symm, rfl⟩
  · rintro ⟨more, hmore, rfl⟩
    rw [hmore, Utf8.encode_append]

end Percent

namespace QueryOptions

open Percent (Unescapes EndsInsideEscape)

theorem decodeComponent_eq_ok_iff {s t : String} :
    decodeComponent s = .ok t ↔ Percent.decode s.toList = .ok t.toList := by
  refine ⟨decode_of_decodeComponent, fun h => ?_⟩
  rw [decodeComponent, h]
  exact congrArg Except.ok String.ofList_toList

theorem decodeComponent_iff_unescapes {s t : String} :
    decodeComponent s = .ok t ↔ Unescapes (Utf8.bytes s) (Utf8.bytes t) := by
  rw [decodeComponent_eq_ok_iff, Percent.decode_eq_ok_iff, Utf8.encode_toList, Utf8.encode_toList,
    Percent.unescapes_iff]

theorem decodeComponent_append_eq_ok_iff {a a' b t : String} (hend : ¬EndsInsideEscape a.toList)
    (ha : decodeComponent a = .ok a') :
    decodeComponent (a ++ b) = .ok t ↔ ∃ b', decodeComponent b = .ok b' ∧ t = a' ++ b' := by
  have ha' := decodeComponent_eq_ok_iff.mp ha
  simp only [decodeComponent_eq_ok_iff, String.toList_append,
    Percent.decode_append_eq_ok_iff hend ha']
  constructor
  · rintro ⟨more, hmore, ht⟩
    refine ⟨String.ofList more, by rwa [String.toList_ofList], ?_⟩
    rw [← String.toList_inj, ht, String.toList_append, String.toList_ofList]
  · rintro ⟨b', hb', rfl⟩
    exact ⟨b'.toList, hb', String.toList_append⟩

theorem decodeComponent_ok_or_invalid (s : String) : (∃ t, decodeComponent s = .ok t) ∨
    ∃ reason, decodeComponent s = .error (.invalidValue "uri component" reason) := by
  cases h : decodeComponent s with
  | ok t => exact .inl ⟨t, rfl⟩
  | error e =>
    obtain ⟨reason, rfl⟩ := decodeComponent_error h
    exact .inr ⟨reason, rfl⟩

/-- **Decoding is a single exact pass.** The pass has one result; a component decodes to the text
whose bytes this is and is refused when there is none. Behind text that decodes and does not
break off inside an escape, a component decodes as it does alone. -/
theorem decodeComponent_singlePass :
    (∀ bytes, ∃! out, Unescapes bytes out) ∧
    (∀ s t, decodeComponent s = .ok t ↔ Unescapes (Utf8.bytes s) (Utf8.bytes t)) ∧
    (∀ s, (∃ reason, decodeComponent s = .error (.invalidValue "uri component" reason)) ↔
      ¬∃ t, Unescapes (Utf8.bytes s) (Utf8.bytes t)) ∧
    ∀ a a', ¬EndsInsideEscape a.toList → decodeComponent a = .ok a' → ∀ b,
      (∀ b', decodeComponent b = .ok b' → decodeComponent (a ++ b) = .ok (a' ++ b')) ∧
      ∀ e, decodeComponent b = .error e →
        ∃ reason, decodeComponent (a ++ b) = .error (.invalidValue "uri component" reason) := by
  refine ⟨fun bytes => ?_, fun s t => decodeComponent_iff_unescapes, fun s => ?_,
    fun a a' hend ha b => ⟨fun b' hb => ?_, fun e hb => ?_⟩⟩
  · exact ⟨_, Percent.unescapes_unescape bytes, fun out h => (Percent.unescapes_iff.mp h).symm⟩
  · simp only [← decodeComponent_iff_unescapes]
    constructor
    · rintro ⟨reason, hreason⟩ ⟨t, ht⟩
      rw [hreason] at ht
      cases ht
    · exact (decodeComponent_ok_or_invalid s).resolve_left
  · exact (decodeComponent_append_eq_ok_iff hend ha).mpr ⟨b', hb, rfl⟩
  · refine (decodeComponent_ok_or_invalid (a ++ b)).resolve_left ?_
    rintro ⟨t, ht⟩
    obtain ⟨b', hb', -⟩ := (decodeComponent_append_eq_ok_iff hend ha).mp ht
    rw [hb] at hb'
    cases hb'

/-- A percent sign that was decoded begins no escape, also where the text is cut behind it. -/
theorem decodeComponent_decodedMark : ¬EndsInsideEscape "50%25".toList ∧
    decodeComponent "50%25" = .ok "50%" ∧ decodeComponent "41%c3%A9%" = .ok "41é%" ∧
    decodeComponent ("50%25" ++ "41%c3%A9%") = .ok ("50%" ++ "41é%") ∧
    (∃ e, decodeComponent "%A9" = .error e) ∧
    ∃ reason, decodeComponent ("50%25" ++ "%A9") =
      .error (.invalidValue "uri component" reason) := by
  have hend : ¬EndsInsideEscape "50%25".toList := by decide
  have hfront : decodeComponent "50%25" = .ok "50%" := by rfl
  have hback : decodeComponent "41%c3%A9%" = .ok "41é%" := by rfl
  have hfault : ∃ e, decodeComponent "%A9" = .error e := ⟨_, rfl⟩
  have hjoin := decodeComponent_singlePass.2.2.2 "50%25" "50%" hend hfront
  exact ⟨hend, hfront, hback, (hjoin _).1 _ hback, hfault, hfault.elim (hjoin _).2⟩

end QueryOptions

end ODataQuery
