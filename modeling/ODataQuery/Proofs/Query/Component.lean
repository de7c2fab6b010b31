import ODataQuery.Proofs.Query.Options
import ODataQuery.Proofs.Text.Word

namespace ODataQuery

namespace Percent

/-- `A-Z a-z 0-9 - _ . ! ~ * ' ( )` -/
def IsUnreserved (c : Char) : Prop :=
  c.isAlphanum ∨ c ∈ ['-', '_', '.', '!', '~', '*', '\'', '(', ')']

instance (c : Char) : Decidable (IsUnreserved c) := inferInstanceAs (Decidable (_ ∨ _))

/-- The digits of an escape by their values. -/
def upperHex : List Char :=
  ['0', '1', '2', '3', '4', '5', '6', '7', '8', '9', 'A', 'B', 'C', 'D', 'E', 'F']

/-- Characters that stand for themselves and escapes of bytes that do not. -/
inductive IsNormal : List Char → Prop
  | nil : IsNormal []
  | plain {c cs} : IsUnreserved c → IsNormal cs → IsNormal (c :: cs)
  | escape (b : UInt8) {high low cs} : ¬IsUnreserved (Char.ofNat b.toNat) →
      upperHex[b.toNat / 16]? = some high → upperHex[b.toNat % 16]? = some low →
      IsNormal cs → IsNormal ('%' :: high :: low :: cs)

theorem upperHex_eq : ∀ n < 16, upperHex[n]? = some (hexDigit n) := by decide

theorem isUnreserved_iff (b : UInt8) :
    isUnreserved b = true ↔ IsUnreserved (Char.ofNat b.toNat) := by
  have hbytes : ∀ n < 256, isUnreserved (UInt8.ofNat n) = decide (IsUnreserved (Char.ofNat n)) := by
    decide +kernel
  have hb := hbytes b.toNat b.toNat_lt
  rw [UInt8.ofNat_toNat] at hb
  rw [hb, decide_eq_true_eq]

theorem isUnreserved_lt {c : Char} (h : IsUnreserved c) : c.toNat < 0x80 := by
  obtain halphanum | hmark := h
  · rw [Char.isAlphanum, Bool.or_eq_true, Text.isAlpha_iff, Text.isDigit_iff] at halphanum
    omega
  · have hmarks : ['-', '_', '.', '!', '~', '*', '\'', '(', ')'].all (·.toNat < 0x80) := by decide
    exact of_decide_eq_true (List.all_eq_true.mp hmarks c hmark)

theorem isNormal_encodeByte (b : UInt8) {cs : List Char} (h : IsNormal cs) :
    IsNormal (encodeByte b ++ cs) := by
  have hb := b.toNat_lt
  unfold encodeByte
  split
  · next hunreserved => exact .plain ((isUnreserved_iff b).mp hunreserved) h
  · next hreserved =>
    exact .escape b (fun h => hreserved ((isUnreserved_iff b).mpr h)) (upperHex_eq _ (by omega))
      (upperHex_eq _ (by omega)) h

theorem isNormal_flatMap (bytes : List UInt8) : IsNormal (bytes.flatMap encodeByte) := by
  induction bytes with
  | nil => exact .nil
  | cons b bytes ih => exact isNormal_encodeByte b ih

theorem isNormal_encode (cs : List Char) : IsNormal (encode cs) := isNormal_flatMap _

theorem encodeByte_of_unreserved {c : Char} (h : IsUnreserved c) :
    encodeByte (UInt8.ofNat c.toNat) = [c] := by
  have hlt := isUnreserved_lt h
  have hbyte : (UInt8.ofNat c.toNat).toNat = c.toNat := Utf8.toNat_byte (by omega)
  have hc : Char.ofNat (UInt8.ofNat c.toNat).toNat = c := by rw [hbyte, Char.ofNat_toNat]
  rw [encodeByte, if_pos ((isUnreserved_iff _).mpr (hc.symm ▸ h)), hc]

theorem encodeByte_of_reserved {b : UInt8} {high low : Char}
    (h : ¬IsUnreserved (Char.ofNat b.toNat)) (hhigh : upperHex[b.toNat / 16]? = some high)
    (hlow : upperHex[b.toNat % 16]? = some low) : encodeByte b = ['%', high, low] := by
  have hb := b.toNat_lt
  rw [upperHex_eq _ (by omega)] at hhigh hlow
  rw [encodeByte, if_neg (fun hb => h ((isUnreserved_iff b).mp hb)), Option.some.inj hhigh,
    Option.some.inj hlow]

/-- A normal text writes bytes one by one. -/
theorem exists_bytes_of_isNormal {cs : List Char} (h : IsNormal cs) :
    ∃ bytes : List UInt8, cs = bytes.flatMap encodeByte := by
  induction h with
  | nil => exact ⟨[], rfl⟩
  | @plain c cs hc _ ih =>
    obtain ⟨bytes, rfl⟩ := ih
    refine ⟨UInt8.ofNat c.toNat :: bytes, ?_⟩
    rw [List.flatMap_cons, encodeByte_of_unreserved hc, List.singleton_append]
  | escape b hb hhigh hlow _ ih =>
    obtain ⟨bytes, rfl⟩ := ih
    refine ⟨b :: bytes, ?_⟩
    rw [List.flatMap_cons, encodeByte_of_reserved hb hhigh hlow]
    rfl

theorem encode_of_decode {cs ds : List Char} (h : IsNormal cs) (hdecode : decode cs = .ok ds) :
    encode ds = cs := by
  obtain ⟨bytes, rfl⟩ := exists_bytes_of_isNormal h
  rw [decode, unescape_flatMap_encodeByte] at hdecode
  rw [encode, Utf8.encode_of_decode hdecode]

theorem encode_append (cs ds : List Char) : encode (cs ++ ds) = encode cs ++ encode ds := by
  rw [encode, Utf8.encode_append, List.flatMap_append]
  rfl

end Percent

namespace QueryOptions

open Percent (encodeComponent IsNormal)

theorem decode_of_decodeComponent {t s : String} (h : decodeComponent t = .ok s) :
    Percent.decode t.toList = .ok s.toList := by
  unfold decodeComponent at h
  split at h
  · next cs hcs =>
    cases h
    rw [hcs, String.toList_ofList]
  · cases h

/-- **Encoding is a bijection onto the normal texts that decode.** What it writes is normal and
decodes to what was encoded, and a normal text is what its decoding is encoded to. So no two
texts have one encoding, and joined texts have the joined encoding. -/
theorem encodeComponent_bijection :
    (∀ s, IsNormal (encodeComponent s).toList ∧ decodeComponent (encodeComponent s) = .ok s) ∧
    (∀ t s, IsNormal t.toList → decodeComponent t = .ok s → encodeComponent s = t) ∧
    Function.Injective encodeComponent ∧
    ∀ s s', encodeComponent (s ++ s') = encodeComponent s ++ encodeComponent s' := by
  refine ⟨fun s => ⟨?_, decodeComponent_encodeComponent s⟩, ?_, ?_, ?_⟩
  · rw [encodeComponent, String.toList_ofList]
    exact Percent.isNormal_encode s.toList
  · intro t s ht hs
    rw [encodeComponent, Percent.encode_of_decode ht (decode_of_decodeComponent hs),
      String.ofList_toList]
  · intro s s' h
    have hs := decodeComponent_encodeComponent s
    rw [h, decodeComponent_encodeComponent] at hs
    exact (Except.ok.inj hs).symm
  · intro s s'
    rw [encodeComponent, String.toList_append, Percent.encode_append, String.ofList_append]
    rfl

/-- A character of two bytes, and one that stands for itself. -/
theorem encodeComponent_accented : IsNormal "%C3%A9'".toList ∧
    decodeComponent "%C3%A9'" = .ok "é'" ∧ encodeComponent "é'" = "%C3%A9'" := by
  have hnormal : IsNormal "%C3%A9'".toList :=
    .escape 0xC3 (by decide) rfl rfl (.escape 0xA9 (by decide) rfl rfl (.plain (by decide) .nil))
  have hdecode : decodeComponent "%C3%A9'" = .ok "é'" := by rfl
  exact ⟨hnormal, hdecode, encodeComponent_bijection.2.1 _ _ hnormal hdecode⟩

end QueryOptions

end ODataQuery
