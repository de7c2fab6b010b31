import ODataQuery.Proofs.Text.Utf8
import ODataQuery.Query.Options
import ODataQuery.Text.Blank

namespace ODataQuery

namespace Utf8

theorem encode_append (as bs : List Char) : encode (as ++ bs) = encode as ++ encode bs :=
  List.flatMap_append

theorem toNat_ofNat {n : Nat} (h : n < 0x80) : (Char.ofNat n).toNat = n := by
  rw [Char.ofNat, dif_pos (Or.inl (by omega))]
  rfl

theorem encodeChar_ascii {c : Char} (h : c.toNat < 0x80) :
    encodeChar c = [UInt8.ofNat c.toNat] := by
  simp only [encodeChar, h, ↓reduceIte]

/-- Every byte of a character beyond ASCII has its high bit set. -/
theorem high_bit_of_mem_encodeChar {c : Char} (h : ¬c.toNat < 0x80) {b : UInt8}
    (hb : b ∈ encodeChar c) : 0x80 ≤ b.toNat := by
  have hlt := toNat_lt c
  unfold encodeChar at hb
  generalize c.toNat = n at h hlt hb
  simp only [h, ↓reduceIte] at hb
  split at hb
  · simp only [List.mem_cons, List.not_mem_nil, or_false] at hb
    rcases hb with rfl | rfl <;> rw [toNat_byte (by omega)] <;> omega
  split at hb
  · simp only [List.mem_cons, List.not_mem_nil, or_false] at hb
    rcases hb with rfl | rfl | rfl <;>
      rw [toNat_byte (by omega)] <;> omega
  · simp only [List.mem_cons, List.not_mem_nil, or_false] at hb
    rcases hb with rfl | rfl | rfl | rfl <;>
      rw [toNat_byte (by omega)] <;> omega

end Utf8

namespace Percent

theorem unescape_cons_of_ne {b : UInt8} (h : b ≠ 0x25) (rest : List UInt8) :
    unescape (b :: rest) = b :: unescape rest := by
  match rest with
  | [] => rfl
  | [_] => rfl
  | _ :: _ :: _ => simp only [unescape, escaped?, h, ↓reduceIte]

theorem unescape_eq_self {bytes : List UInt8} (h : 0x25 ∉ bytes) : unescape bytes = bytes := by
  induction bytes with
  | nil => rfl
  | cons b rest ih =>
    rw [List.mem_cons, not_or] at h
    rw [unescape_cons_of_ne (Ne.symm h.1), ih h.2]

theorem hexDigit_lt : ∀ n < 16, (hexDigit n).toNat < 0x80 := by decide

theorem hexValue_hexDigit : ∀ n < 16, hexValue (UInt8.ofNat (hexDigit n).toNat) = some n := by
  decide

theorem unescape_escape (b : UInt8) (rest : List UInt8) :
    unescape (0x25 :: UInt8.ofNat (hexDigit (b.toNat / 16)).toNat ::
      UInt8.ofNat (hexDigit (b.toNat % 16)).toNat :: rest) = b :: unescape rest := by
  have hb := b.toNat_lt
  have hsum : b.toNat / 16 * 16 + b.toNat % 16 = b.toNat := by omega
  simp only [unescape, escaped?, ↓reduceIte, hexValue_hexDigit _ (show b.toNat / 16 < 16 by omega),
    hexValue_hexDigit _ (show b.toNat % 16 < 16 by omega), Option.bind_some, Option.map_some, hsum,
    UInt8.ofNat_toNat]

theorem unreserved_ascii {b : UInt8} (h : isUnreserved b = true) :
    b.toNat < 0x80 ∧ b ≠ 0x25 := by
  constructor
  · simp only [isUnreserved, Bool.or_eq_true, Bool.and_eq_true, decide_eq_true_eq, beq_iff_eq] at h
    omega
  · rintro rfl
    simp [isUnreserved] at h

theorem unescape_encodeByte (b : UInt8) (rest : List UInt8) :
    unescape (Utf8.encode (encodeByte b) ++ rest) = b :: unescape rest := by
  have hb := b.toNat_lt
  unfold encodeByte
  split
  · rename_i h
    obtain ⟨hlt, hne⟩ := unreserved_ascii h
    have hc : (Char.ofNat b.toNat).toNat = b.toNat := Utf8.toNat_ofNat hlt
    have he : Utf8.encodeChar (Char.ofNat b.toNat) = [b] := by
      rw [Utf8.encodeChar_ascii (by omega), hc, UInt8.ofNat_toNat]
    simp only [Utf8.encode, List.flatMap_cons, List.flatMap_nil, he, List.append_nil,
      List.cons_append, List.nil_append]
    exact unescape_cons_of_ne hne rest
  · simp only [Utf8.encode, List.flatMap_cons, List.flatMap_nil,
      Utf8.encodeChar_ascii (hexDigit_lt _ (show b.toNat / 16 < 16 by omega)),
      Utf8.encodeChar_ascii (hexDigit_lt _ (show b.toNat % 16 < 16 by omega)),
      Utf8.encodeChar_ascii (show '%'.toNat < 0x80 by decide),
      List.cons_append, List.nil_append, List.append_nil]
    exact unescape_escape b rest

theorem unescape_flatMap_encodeByte (bytes : List UInt8) :
    unescape (Utf8.encode (bytes.flatMap encodeByte)) = bytes := by
  induction bytes with
  | nil => rfl
  | cons b rest ih =>
    rw [List.flatMap_cons, Utf8.encode_append, unescape_encodeByte, ih]

theorem decode_encode (cs : List Char) : decode (encode cs) = .ok cs := by
  rw [decode, encode, unescape_flatMap_encodeByte, Utf8.decode_encode]

/-- Without a percent sign there is nothing to decode. -/
theorem decode_eq_self {cs : List Char} (h : '%' ∉ cs) : decode cs = .ok cs := by
  have hbytes : 0x25 ∉ Utf8.encode cs := by
    intro hmem
    obtain ⟨c, hc, hb⟩ := List.mem_flatMap.mp hmem
    by_cases hascii : c.toNat < 0x80
    · rw [Utf8.encodeChar_ascii hascii, List.mem_singleton] at hb
      have hn : c.toNat = '%'.toNat := by
        have hsize : c.toNat < UInt8.size := by
          simp only [UInt8.size]
          omega
        rw [← UInt8.toNat_ofNat_of_lt' hsize, ← hb]
        rfl
      exact h (Char.toNat_inj.mp hn ▸ hc)
    · have := Utf8.high_bit_of_mem_encodeChar hascii hb
      simp at this
  rw [decode, unescape_eq_self hbytes, Utf8.decode_encode]

theorem hexDigit_separable : ∀ n < 16, hexDigit n ≠ '&' ∧ Text.isBlank (hexDigit n) = false := by
  decide

theorem unreserved_separable {b : UInt8} (h : isUnreserved b = true) :
    Char.ofNat b.toNat ≠ '&' ∧ Text.isBlank (Char.ofNat b.toNat) = false := by
  have hn : (Char.ofNat b.toNat).toNat = b.toNat := Utf8.toNat_ofNat (unreserved_ascii h).1
  simp only [isUnreserved, Bool.or_eq_true, Bool.and_eq_true, decide_eq_true_eq, beq_iff_eq] at h
  constructor
  · intro hc
    rw [hc, show '&'.toNat = 0x26 from rfl] at hn
    omega
  · have hlow : 0x20 < b.toNat := by omega
    have hhigh : b.toNat < 0x80 := by omega
    simp only [Text.isBlank, hn, Bool.or_eq_false_iff, Bool.and_eq_false_iff,
      decide_eq_false_iff_not, beq_eq_false_iff_ne]
    omega

theorem encodeByte_separable {b : UInt8} {c : Char} (h : c ∈ encodeByte b) :
    c ≠ '&' ∧ Text.isBlank c = false := by
  have hb := b.toNat_lt
  unfold encodeByte at h
  split at h
  · rename_i hunreserved
    obtain rfl := List.mem_singleton.mp h
    exact unreserved_separable hunreserved
  · simp only [List.mem_cons, List.not_mem_nil, or_false] at h
    obtain rfl | rfl | rfl := h
    · decide
    · exact hexDigit_separable _ (by omega)
    · exact hexDigit_separable _ (by omega)

/-- Encoded text neither ends an option nor can be trimmed. -/
theorem encode_separable {cs : List Char} {c : Char} (h : c ∈ encode cs) :
    c ≠ '&' ∧ Text.isBlank c = false := by
  obtain ⟨b, -, hc⟩ := List.mem_flatMap.mp h
  exact encodeByte_separable hc

end Percent

end ODataQuery
