import ODataQuery.Proofs.Outcome
import ODataQuery.Text.Utf8

/-!
# Reading back what was encoded

Every scalar value is read back from its bytes, so decoding inverts encoding. Bytes that decode
are the encoding of what they decode to: no text has a second form. There is a lemma for each
length of a sequence, whose value is put together from the payload of the first byte and six
bits of every other.
-/

namespace ODataQuery.Utf8

theorem toNat_lt (c : Char) : c.toNat < 0x110000 := by
  rcases c.valid with h | h
  · have : c.val.toNat < 0xD800 := h
    show c.val.toNat < _
    omega
  · exact h.2

theorem surrogate_free (c : Char) (h : 0xD800 ≤ c.toNat) : 0xE000 ≤ c.toNat := by
  rcases c.valid with hl | hr
  · have : c.toNat < 0xD800 := hl
    omega
  · have : 0xDFFF < c.toNat := hr.1
    omega

theorem toNat_byte {n : Nat} (h : n < 0x100) : (UInt8.ofNat n).toNat = n :=
  UInt8.toNat_ofNat_of_lt' h

section

variable (offset : Nat) (rest : List UInt8)

theorem decodeFrom_of_first {b : UInt8} {p : Partial} (h : first? b = some p) (hm : p.more = 0) :
    decodeFrom offset none (b :: rest) =
      (decodeFrom (offset + p.seen) none rest).map (Char.ofNat p.value :: ·) := by
  simp only [decodeFrom, h, hm, ↓reduceIte]
  rfl

theorem decodeFrom_pending {b : UInt8} {p : Partial} (h : first? b = some p) (hm : p.more ≠ 0) :
    decodeFrom offset none (b :: rest) = decodeFrom offset (some p) rest := by
  simp only [decodeFrom, h, hm, ↓reduceIte]

/-- A byte within bounds is taken; the sequence ends when no more are due. -/
theorem decodeFrom_next {p : Partial} {n : Nat} (hn : n < 0x100)
    (h : p.low ≤ n ∧ n ≤ p.high) :
    decodeFrom offset (some p) (UInt8.ofNat n :: rest) =
      if p.more ≤ 1 then
        (decodeFrom (offset + (p.seen + 1)) none rest).map
          (Char.ofNat (p.value * 0x40 + n % 0x40) :: ·)
      else
        decodeFrom offset
          (some ⟨p.seen + 1, p.more - 1, 0x80, 0xBF, p.value * 0x40 + n % 0x40⟩) rest := by
  have hnext : p.next? (UInt8.ofNat n) =
      some ⟨p.seen + 1, p.more - 1, 0x80, 0xBF, p.value * 0x40 + n % 0x40⟩ := by
    simp only [Partial.next?, toNat_byte hn, h, and_self, ↓reduceIte]
  simp only [decodeFrom, hnext, Nat.sub_eq_zero_iff_le]
  rfl

end

theorem first?_one {n : Nat} (h : n < 0x80) :
    first? (UInt8.ofNat n) = some ⟨1, 0, 0x80, 0xBF, n⟩ := by
  simp only [first?, toNat_byte (show n < 0x100 by omega), h, ↓reduceIte]

theorem first?_two {k : Nat} (low : 2 ≤ k) (high : k < 0x20) :
    first? (UInt8.ofNat (0xC0 + k)) = some ⟨1, 1, 0x80, 0xBF, k⟩ := by
  simp only [first?, toNat_byte (show 0xC0 + k < 0x100 by omega)]
  rw [if_neg (by omega), if_neg (by omega), if_pos (by omega)]
  simp

/-- The bounds behind the first byte of three keep out what two bytes hold and the
surrogates. -/
theorem first?_three {k : Nat} (high : k < 0x10) :
    first? (UInt8.ofNat (0xE0 + k)) =
      some ⟨1, 2, if k = 0 then 0xA0 else 0x80, if k = 0xD then 0x9F else 0xBF, k⟩ := by
  simp only [first?, toNat_byte (show 0xE0 + k < 0x100 by omega)]
  rw [if_neg (by omega), if_neg (by omega), if_neg (by omega)]
  by_cases h0 : k = 0
  · simp [h0]
  by_cases hd : k = 0xD
  · simp [hd]
  rw [if_neg (by omega), if_neg (by omega), if_pos (by omega), if_neg h0, if_neg hd]
  simp

theorem first?_four {k : Nat} (high : k < 5) :
    first? (UInt8.ofNat (0xF0 + k)) =
      some ⟨1, 3, if k = 0 then 0x90 else 0x80, if k = 4 then 0x8F else 0xBF, k⟩ := by
  simp only [first?, toNat_byte (show 0xF0 + k < 0x100 by omega)]
  rw [if_neg (by omega), if_neg (by omega), if_neg (by omega), if_neg (by omega),
    if_neg (by omega), if_neg (by omega)]
  by_cases h0 : k = 0
  · simp [h0]
  by_cases h4 : k = 4
  · simp [h4]
  rw [if_neg (by omega), if_pos (by omega), if_neg h0, if_neg h4]
  simp

theorem decodeFrom_encodeChar (offset : Nat) (c : Char) (rest : List UInt8) :
    decodeFrom offset none (encodeChar c ++ rest) =
      (decodeFrom (offset + (encodeChar c).length) none rest).map (c :: ·) := by
  have hlt := toNat_lt c
  have hgap := surrogate_free c
  have hc : Char.ofNat c.toNat = c := Char.ofNat_toNat c
  unfold encodeChar
  generalize c.toNat = n at hlt hgap hc
  dsimp only
  split
  · rename_i h
    simp only [List.cons_append, List.nil_append]
    rw [decodeFrom_of_first _ _ (first?_one h) rfl, hc]
    rfl
  split
  · simp only [List.cons_append, List.nil_append]
    rw [decodeFrom_pending _ _ (first?_two (by omega) (by omega)) (by simp),
      decodeFrom_next _ _ (by omega) (by dsimp only; omega), if_pos (by simp)]
    have hv : n / 0x40 * 0x40 + (0x80 + n % 0x40) % 0x40 = n := by omega
    rw [hv, hc]
    rfl
  split
  · simp only [List.cons_append, List.nil_append]
    rw [decodeFrom_pending _ _ (first?_three (by omega)) (by simp),
      decodeFrom_next _ _ (by omega) (by dsimp only; split <;> split <;> omega),
      if_neg (by simp), decodeFrom_next _ _ (by omega) (by dsimp only; omega), if_pos (by simp)]
    have hv : (n / 0x1000 * 0x40 + (0x80 + n / 0x40 % 0x40) % 0x40) * 0x40 +
        (0x80 + n % 0x40) % 0x40 = n := by omega
    rw [hv, hc]
    rfl
  · simp only [List.cons_append, List.nil_append]
    rw [decodeFrom_pending _ _ (first?_four (by omega)) (by simp),
      decodeFrom_next _ _ (by omega) (by dsimp only; split <;> split <;> omega),
      if_neg (by simp), decodeFrom_next _ _ (by omega) (by dsimp only; omega),
      if_neg (by simp), decodeFrom_next _ _ (by omega) (by dsimp only; omega), if_pos (by simp)]
    have hv : ((n / 0x40000 * 0x40 + (0x80 + n / 0x1000 % 0x40) % 0x40) * 0x40 +
        (0x80 + n / 0x40 % 0x40) % 0x40) * 0x40 + (0x80 + n % 0x40) % 0x40 = n := by omega
    rw [hv, hc]
    rfl

theorem decodeFrom_encode (offset : Nat) (cs : List Char) :
    decodeFrom offset none (encode cs) = .ok cs := by
  induction cs generalizing offset with
  | nil => rfl
  | cons c cs ih =>
    have h := decodeFrom_encodeChar offset c (encode cs)
    rw [ih] at h
    exact h

theorem decode_encode (cs : List Char) : decode (encode cs) = .ok cs := decodeFrom_encode 0 cs

theorem toNat_ofNat_of_valid {n : Nat} (h : n.isValidChar) : (Char.ofNat n).toNat = n := by
  rw [Char.ofNat, dif_pos h]
  rfl

theorem encodeChar_ofNat_two {n : Nat} (low : 0x80 ≤ n) (high : n < 0x800) :
    encodeChar (Char.ofNat n) = [UInt8.ofNat (0xC0 + n / 0x40), UInt8.ofNat (0x80 + n % 0x40)] := by
  unfold encodeChar
  rw [toNat_ofNat_of_valid (.inl (by omega))]
  dsimp only
  rw [if_neg (by omega), if_pos high]

theorem encodeChar_ofNat_three {n : Nat} (h : n.isValidChar) (low : 0x800 ≤ n)
    (high : n < 0x10000) : encodeChar (Char.ofNat n) =
      [UInt8.ofNat (0xE0 + n / 0x1000), UInt8.ofNat (0x80 + n / 0x40 % 0x40),
        UInt8.ofNat (0x80 + n % 0x40)] := by
  unfold encodeChar
  rw [toNat_ofNat_of_valid h]
  dsimp only
  rw [if_neg (by omega), if_neg (by omega), if_pos high]

theorem encodeChar_ofNat_four {n : Nat} (h : n.isValidChar) (low : 0x10000 ≤ n) :
    encodeChar (Char.ofNat n) =
      [UInt8.ofNat (0xF0 + n / 0x40000), UInt8.ofNat (0x80 + n / 0x1000 % 0x40),
        UInt8.ofNat (0x80 + n / 0x40 % 0x40), UInt8.ofNat (0x80 + n % 0x40)] := by
  unfold encodeChar
  rw [toNat_ofNat_of_valid h]
  dsimp only
  rw [if_neg (by omega), if_neg (by omega), if_neg (by omega)]

/-- What a byte can begin. -/
inductive Begins : UInt8 → Partial → Prop
  | one {n : Nat} : n < 0x80 → Begins (UInt8.ofNat n) ⟨1, 0, 0x80, 0xBF, n⟩
  | two {k : Nat} : 2 ≤ k → k < 0x20 → Begins (UInt8.ofNat (0xC0 + k)) ⟨1, 1, 0x80, 0xBF, k⟩
  | three {k : Nat} : k < 0x10 → Begins (UInt8.ofNat (0xE0 + k))
      ⟨1, 2, if k = 0 then 0xA0 else 0x80, if k = 0xD then 0x9F else 0xBF, k⟩
  | four {k : Nat} : k < 5 → Begins (UInt8.ofNat (0xF0 + k))
      ⟨1, 3, if k = 0 then 0x90 else 0x80, if k = 4 then 0x8F else 0xBF, k⟩

theorem begins_of_first? {b : UInt8} {p : Partial} (h : first? b = some p) : Begins b p := by
  have hbyte : b = UInt8.ofNat b.toNat := UInt8.ofNat_toNat.symm
  have hlt := b.toNat_lt
  by_cases hone : b.toNat < 0x80
  · have hbegins := Begins.one hone
    rw [hbyte, first?_one hone] at h
    cases h
    rwa [← hbyte] at hbegins
  by_cases hgap : b.toNat < 0xC2
  · simp [first?, hone, hgap] at h
  by_cases htwo : b.toNat < 0xE0
  · obtain ⟨k, hk⟩ := Nat.exists_eq_add_of_le (show 0xC0 ≤ b.toNat by omega)
    rw [hbyte, hk, first?_two (by omega) (by omega)] at h
    cases h
    rw [hbyte, hk]
    exact .two (by omega) (by omega)
  by_cases hthree : b.toNat < 0xF0
  · obtain ⟨k, hk⟩ := Nat.exists_eq_add_of_le (show 0xE0 ≤ b.toNat by omega)
    rw [hbyte, hk, first?_three (by omega)] at h
    cases h
    rw [hbyte, hk]
    exact .three (by omega)
  by_cases hfour : b.toNat < 0xF5
  · obtain ⟨k, hk⟩ := Nat.exists_eq_add_of_le (show 0xF0 ≤ b.toNat by omega)
    rw [hbyte, hk, first?_four (by omega)] at h
    cases h
    rw [hbyte, hk]
    exact .four (by omega)
  · unfold first? at h
    dsimp only at h
    rw [if_neg hone, if_neg hgap, if_neg htwo, if_neg (by omega), if_neg (by omega),
      if_neg hthree, if_neg (by omega), if_neg (by omega), if_neg (by omega)] at h
    cases h

section

variable {offset : Nat} {bytes : List UInt8} {cs : List Char}

/-- Bytes that begin with those of a character and decode behind it. -/
def TakesChar (bytes : List UInt8) (cs : List Char) : Prop :=
  ∃ c rest cs', bytes = encodeChar c ++ rest ∧ cs = c :: cs' ∧
    ∃ offset, decodeFrom offset none rest = .ok cs'

/-- An unfinished sequence that decodes goes on with a byte within its bounds. -/
theorem exists_next_of_decodeFrom {p : Partial} (h : decodeFrom offset (some p) bytes = .ok cs) :
    ∃ n rest, n < 0x100 ∧ (p.low ≤ n ∧ n ≤ p.high) ∧ bytes = UInt8.ofNat n :: rest := by
  cases bytes with
  | nil => cases h
  | cons b rest =>
    refine ⟨b.toNat, rest, b.toNat_lt, ?_, by rw [UInt8.ofNat_toNat]⟩
    by_cases hbounds : p.low ≤ b.toNat ∧ b.toNat ≤ p.high
    · exact hbounds
    · simp only [decodeFrom, Partial.next?, if_neg hbounds] at h
      cases h

/-- The last byte of a sequence ends a character. -/
theorem exists_last_of_decodeFrom {seen low high value : Nat}
    (h : decodeFrom offset (some ⟨seen, 1, low, high, value⟩) bytes = .ok cs) :
    ∃ n rest cs', (low ≤ n ∧ n ≤ high) ∧ bytes = UInt8.ofNat n :: rest ∧
      cs = Char.ofNat (value * 0x40 + n % 0x40) :: cs' ∧
      ∃ offset', decodeFrom offset' none rest = .ok cs' := by
  obtain ⟨n, rest, hn, hbounds, rfl⟩ := exists_next_of_decodeFrom h
  rw [decodeFrom_next _ _ hn hbounds, if_pos (Nat.le_refl 1)] at h
  obtain ⟨cs', hcs', rfl⟩ := map_eq_ok.mp h
  exact ⟨n, rest, cs', hbounds, rfl, rfl, _, hcs'⟩

/-- Any other one leaves a byte less due. -/
theorem exists_more_of_decodeFrom {seen more low high value : Nat}
    (h : decodeFrom offset (some ⟨seen, more + 2, low, high, value⟩) bytes = .ok cs) :
    ∃ n rest, (low ≤ n ∧ n ≤ high) ∧ bytes = UInt8.ofNat n :: rest ∧ decodeFrom offset
      (some ⟨seen + 1, more + 1, 0x80, 0xBF, value * 0x40 + n % 0x40⟩) rest = .ok cs := by
  obtain ⟨n, rest, hn, hbounds, rfl⟩ := exists_next_of_decodeFrom h
  rw [decodeFrom_next _ _ hn hbounds, if_neg (by simp)] at h
  exact ⟨n, rest, hbounds, rfl, h⟩

theorem takesChar_two {k : Nat} (low : 2 ≤ k) (high : k < 0x20)
    (h : decodeFrom offset (some ⟨1, 1, 0x80, 0xBF, k⟩) bytes = .ok cs) :
    TakesChar (UInt8.ofNat (0xC0 + k) :: bytes) cs := by
  obtain ⟨n, rest, cs', hn, rfl, rfl, hrest⟩ := exists_last_of_decodeFrom h
  refine ⟨_, rest, cs', ?_, rfl, hrest⟩
  have hfirst : (k * 0x40 + n % 0x40) / 0x40 = k := by omega
  have hlast : 0x80 + (k * 0x40 + n % 0x40) % 0x40 = n := by omega
  rw [encodeChar_ofNat_two (by omega) (by omega), hfirst, hlast]
  rfl

theorem takesChar_three {k : Nat} (high : k < 0x10)
    (h : decodeFrom offset
      (some ⟨1, 2, if k = 0 then 0xA0 else 0x80, if k = 0xD then 0x9F else 0xBF, k⟩) bytes =
        .ok cs) :
    TakesChar (UInt8.ofNat (0xE0 + k) :: bytes) cs := by
  obtain ⟨m, rest, hm, rfl, hsecond⟩ := exists_more_of_decodeFrom h
  obtain ⟨n, rest, cs', hn, rfl, rfl, hrest⟩ := exists_last_of_decodeFrom hsecond
  refine ⟨_, rest, cs', ?_, rfl, hrest⟩
  have hbounds : (0x80 ≤ m ∧ m ≤ 0xBF) ∧ (k = 0 → 0xA0 ≤ m) ∧ (k = 0xD → m ≤ 0x9F) := by
    obtain ⟨hlow, hhigh⟩ := hm
    split at hlow <;> split at hhigh <;> omega
  have hlow : 0x800 ≤ (k * 0x40 + m % 0x40) * 0x40 + n % 0x40 := by omega
  have hvalid : Nat.isValidChar ((k * 0x40 + m % 0x40) * 0x40 + n % 0x40) := by
    unfold Nat.isValidChar
    omega
  generalize hv : (k * 0x40 + m % 0x40) * 0x40 + n % 0x40 = v at hlow hvalid
  have hfirst : v / 0x1000 = k := by omega
  have hmiddle : 0x80 + v / 0x40 % 0x40 = m := by omega
  have hlast : 0x80 + v % 0x40 = n := by omega
  rw [encodeChar_ofNat_three hvalid hlow (by omega), hfirst, hmiddle, hlast]
  rfl

theorem takesChar_four {k : Nat} (high : k < 5)
    (h : decodeFrom offset
      (some ⟨1, 3, if k = 0 then 0x90 else 0x80, if k = 4 then 0x8F else 0xBF, k⟩) bytes =
        .ok cs) :
    TakesChar (UInt8.ofNat (0xF0 + k) :: bytes) cs := by
  obtain ⟨l, rest, hl, rfl, hsecond⟩ := exists_more_of_decodeFrom h
  obtain ⟨m, rest, hm, rfl, hthird⟩ := exists_more_of_decodeFrom hsecond
  obtain ⟨n, rest, cs', hn, rfl, rfl, hrest⟩ := exists_last_of_decodeFrom hthird
  refine ⟨_, rest, cs', ?_, rfl, hrest⟩
  have hbounds : (0x80 ≤ l ∧ l ≤ 0xBF) ∧ (k = 0 → 0x90 ≤ l) ∧ (k = 4 → l ≤ 0x8F) := by
    obtain ⟨hlow, hhigh⟩ := hl
    split at hlow <;> split at hhigh <;> omega
  have hlow : 0x10000 ≤ ((k * 0x40 + l % 0x40) * 0x40 + m % 0x40) * 0x40 + n % 0x40 := by omega
  have hhigh : ((k * 0x40 + l % 0x40) * 0x40 + m % 0x40) * 0x40 + n % 0x40 < 0x110000 := by omega
  generalize hv : ((k * 0x40 + l % 0x40) * 0x40 + m % 0x40) * 0x40 + n % 0x40 = v at hlow hhigh
  have hfirst : v / 0x40000 = k := by omega
  have hnext : 0x80 + v / 0x1000 % 0x40 = l := by omega
  have hmiddle : 0x80 + v / 0x40 % 0x40 = m := by omega
  have hlast : 0x80 + v % 0x40 = n := by omega
  rw [encodeChar_ofNat_four (.inr (by omega)) hlow, hfirst, hnext, hmiddle, hlast]
  rfl

theorem takesChar_of_decodeFrom {b : UInt8} (h : decodeFrom offset none (b :: bytes) = .ok cs) :
    TakesChar (b :: bytes) cs := by
  cases hfirst : first? b with
  | none =>
    simp only [decodeFrom, hfirst] at h
    cases h
  | some p =>
    cases begins_of_first? hfirst with
    | @one n hn =>
      rw [decodeFrom_of_first _ _ hfirst rfl] at h
      obtain ⟨cs', hcs', rfl⟩ := map_eq_ok.mp h
      refine ⟨_, bytes, cs', ?_, rfl, _, hcs'⟩
      have hvalue := toNat_ofNat_of_valid (.inl (show n < 0xD800 by omega))
      simp only [encodeChar, hvalue, hn, ↓reduceIte, List.singleton_append]
    | two low high =>
      rw [decodeFrom_pending _ _ hfirst (by simp)] at h
      exact takesChar_two low high h
    | three high =>
      rw [decodeFrom_pending _ _ hfirst (by simp)] at h
      exact takesChar_three high h
    | four high =>
      rw [decodeFrom_pending _ _ hfirst (by simp)] at h
      exact takesChar_four high h

end

theorem encode_of_decodeFrom {offset : Nat} {bytes : List UInt8} {cs : List Char}
    (h : decodeFrom offset none bytes = .ok cs) : encode cs = bytes := by
  induction cs generalizing offset bytes with
  | nil =>
    cases bytes with
    | nil => rfl
    | cons b bytes =>
      obtain ⟨c, rest, cs', -, hcs, -⟩ := takesChar_of_decodeFrom h
      cases hcs
  | cons c cs ih =>
    cases bytes with
    | nil => cases h
    | cons b bytes =>
      obtain ⟨c', rest, cs', hbytes, hcs, offset', hrest⟩ := takesChar_of_decodeFrom h
      obtain ⟨rfl, rfl⟩ := List.cons.inj hcs
      rw [hbytes, ← ih hrest]
      rfl

/-- **Bytes that decode are the encoding of what they decode to.** -/
theorem encode_of_decode {bytes : List UInt8} {cs : List Char} (h : decode bytes = .ok cs) :
    encode cs = bytes :=
  encode_of_decodeFrom h

theorem decodeFrom_eq_ok_iff {offset : Nat} {bytes : List UInt8} {cs : List Char} :
    decodeFrom offset none bytes = .ok cs ↔ encode cs = bytes :=
  ⟨encode_of_decodeFrom, fun h => h ▸ decodeFrom_encode offset cs⟩

/-- Behind encoded text the reader is where it was at the start. -/
theorem decodeFrom_encode_append (offset : Nat) (cs : List Char) (rest : List UInt8) :
    decodeFrom offset none (encode cs ++ rest) =
      (decodeFrom (offset + (encode cs).length) none rest).map (cs ++ ·) := by
  induction cs generalizing offset with
  | nil =>
    simp only [encode, List.flatMap_nil, List.nil_append, List.length_nil, Nat.add_zero]
    exact (congrFun Except.map_id _).symm
  | cons c cs ih =>
    have hcons : encode (c :: cs) = encodeChar c ++ encode cs := List.flatMap_cons
    rw [hcons, List.append_assoc, decodeFrom_encodeChar, ih, List.length_append, Nat.add_assoc]
    cases decodeFrom (offset + ((encodeChar c).length + (encode cs).length)) none rest <;> rfl

/-- What stands behind encoded text in encoded text is encoded itself. -/
theorem exists_encode_of_append {cs ds : List Char} {rest : List UInt8}
    (h : encode ds = encode cs ++ rest) : ∃ es, encode es = rest ∧ ds = cs ++ es := by
  have hdecode := decodeFrom_encode 0 ds
  rw [h, decodeFrom_encode_append] at hdecode
  obtain ⟨es, hes, rfl⟩ := map_eq_ok.mp hdecode
  exact ⟨es, decodeFrom_eq_ok_iff.mp hes, rfl⟩

/-- A text as the bytes that it is stored in. -/
def bytes (s : String) : List UInt8 := s.toUTF8.data.toList

theorem encodeChar_eq (c : Char) : encodeChar c = String.utf8EncodeChar c := by
  have hlt := toNat_lt c
  have hvalue : c.val.toNat = c.toNat := rfl
  unfold encodeChar String.utf8EncodeChar
  dsimp only
  rw [hvalue]
  generalize c.toNat = n at hlt
  by_cases hone : n < 0x80
  · rw [if_pos hone, if_pos (by omega)]
  rw [if_neg hone, if_neg (show ¬n ≤ 127 by omega)]
  by_cases htwo : n < 0x800
  · rw [if_pos htwo, if_pos (by omega), Nat.mod_eq_of_lt (show n / 64 < 32 by omega)]
    simp only [Nat.add_comm]
  rw [if_neg htwo, if_neg (show ¬n ≤ 2047 by omega)]
  by_cases hthree : n < 0x10000
  · rw [if_pos hthree, if_pos (by omega), Nat.mod_eq_of_lt (show n / 4096 < 16 by omega)]
    simp only [Nat.add_comm]
  rw [if_neg hthree, if_neg (by omega), Nat.mod_eq_of_lt (show n / 262144 < 8 by omega)]
  simp only [Nat.add_comm]

theorem encode_toList (s : String) : encode s.toList = bytes s := by
  have hbytes : s.toUTF8 = (s.toList.flatMap String.utf8EncodeChar).toByteArray :=
    String.utf8Encode_toList.symm
  rw [bytes, hbytes, List.data_toByteArray, encode, funext encodeChar_eq]

end ODataQuery.Utf8
