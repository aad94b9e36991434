-- SUMMARY: Every text is decoded from the octets that it is encoded as.
import Devicetree.Text.Utf8

/-!
# Decoding what was encoded

A character is encoded as one octet to four: a first one that tells how many there are, and
some that continue it with six bits each. Reading a character off the start of some octets
gives it back and covers just the octets that continue it, whatever follows.
-/

namespace Devicetree

open Except (ok)

/-- A character is no half of a surrogate pair, and not past the last code point. -/
theorem Text.toNat_valid (c : Char) :
    c.toNat < 0xD800 ∨ 0xE000 ≤ c.toNat ∧ c.toNat < 0x110000 := by
  rcases c.valid with h | ⟨hlow, hhigh⟩
  · exact .inl h
  · exact .inr ⟨hlow, hhigh⟩

namespace Utf8

/-! ## Octets that continue a character -/

theorem toNat_continuation (n : Nat) : (continuation n).toNat = 0x80 + n % 0x40 := by
  rw [continuation, UInt8.toNat_ofNat', Nat.mod_eq_of_lt (by omega)]

@[simp] theorem low_continuation (n : Nat) : low (continuation n) = n % 0x40 := by
  rw [low, toNat_continuation]
  omega

@[simp] theorem isContinuation_continuation (n : Nat) : isContinuation (continuation n) := by
  simp only [isContinuation, toNat_continuation, Bool.and_eq_true, decide_eq_true_eq]
  omega

/-- The second octet of a character that is neither overlong nor a surrogate nor past the last
    one. -/
theorem isSecond_continuation (first n : Nat) (hfirst : first < 0x100)
    (hthree : first = 0xE0 → 0x20 ≤ n % 0x40) (hsurrogate : first = 0xED → n % 0x40 < 0x20)
    (hfour : first = 0xF0 → 0x10 ≤ n % 0x40) (hlast : first = 0xF4 → n % 0x40 < 0x10) :
    isSecond (UInt8.ofNat first) (continuation n) := by
  have heq : (UInt8.ofNat first).toNat = first := by
    rw [UInt8.toNat_ofNat', Nat.mod_eq_of_lt hfirst]
  simp only [isSecond, isContinuation_continuation, Bool.true_and, Bool.and_eq_true,
    Bool.not_eq_true', Bool.and_eq_false_iff, beq_eq_false_iff_ne, ne_eq, decide_eq_false_iff_not,
    ← UInt8.toNat_inj, UInt8.lt_iff_toNat_lt, UInt8.le_iff_toNat_le, heq, toNat_continuation]
  refine ⟨⟨⟨?_, ?_⟩, ?_⟩, ?_⟩
  · change ¬ first = 0xE0 ∨ ¬ 0x80 + n % 0x40 < 0xA0
    omega
  · change ¬ first = 0xED ∨ ¬ 0xA0 ≤ 0x80 + n % 0x40
    omega
  · change ¬ first = 0xF0 ∨ ¬ 0x80 + n % 0x40 < 0x90
    omega
  · change ¬ first = 0xF4 ∨ ¬ 0x90 ≤ 0x80 + n % 0x40
    omega

/-! ## Characters -/

/-- A character is read off the start of its octets, and covers the others. -/
theorem charAt_encodeChar (c : Char) : ∃ first others, encodeChar c = first :: others ∧
    ∀ rest, charAt first (others ++ rest) = ok (c, others.length) := by
  have hvalid := Text.toNat_valid c
  have hcode : ∀ n, n = c.toNat → Char.ofNat n = c := by
    rintro n rfl
    exact c.ofNat_toNat
  have hoctet : ∀ n < 0x100, (UInt8.ofNat n).toNat = n := by
    intro n hn
    rw [UInt8.toNat_ofNat', Nat.mod_eq_of_lt hn]
  simp only [encodeChar]
  split
  · refine ⟨_, _, rfl, fun rest => ?_⟩
    simp only [charAt, hoctet c.toNat (by omega)]
    rw [if_pos ‹_›, hcode _ rfl]
    rfl
  · split
    · refine ⟨_, _, rfl, fun rest => ?_⟩
      simp only [charAt, hoctet (0xC0 + c.toNat / 0x40) (by omega), List.cons_append,
        isContinuation_continuation, low_continuation, if_true]
      rw [if_neg (by omega), if_neg (by omega), if_pos (by omega), hcode _ (by omega)]
      rfl
    · split
      · refine ⟨_, _, rfl, fun rest => ?_⟩
        have hsecond := isSecond_continuation (0xE0 + c.toNat / 0x1000) (c.toNat / 0x40)
          (by omega) (by omega) (by omega) (by omega) (by omega)
        simp only [charAt, hoctet (0xE0 + c.toNat / 0x1000) (by omega), List.cons_append,
          hsecond, isContinuation_continuation, low_continuation, Bool.not_true]
        rw [if_neg (by omega), if_neg (by omega), if_neg (by omega), if_pos (by omega),
          hcode _ (by omega)]
        rfl
      · refine ⟨_, _, rfl, fun rest => ?_⟩
        have hsecond := isSecond_continuation (0xF0 + c.toNat / 0x40000) (c.toNat / 0x1000)
          (by omega) (by omega) (by omega) (by omega) (by omega)
        simp only [charAt, hoctet (0xF0 + c.toNat / 0x40000) (by omega), List.cons_append,
          hsecond, isContinuation_continuation, low_continuation, Bool.not_true]
        rw [if_neg (by omega), if_neg (by omega), if_neg (by omega), if_neg (by omega),
          if_pos (by omega), hcode _ (by omega)]
        rfl

/-! ## Texts -/

theorem decodeFrom_append (position : Nat) (covered rest : Octets) :
    decodeFrom covered.length position (covered ++ rest) =
      decodeFrom 0 (position + covered.length) rest := by
  induction covered generalizing position with
  | nil => rfl
  | cons o covered ih =>
    rw [List.length_cons, List.cons_append, decodeFrom, ih, Nat.add_right_comm, Nat.add_assoc]

theorem decodeFrom_encode (position : Nat) (t : Text) :
    decodeFrom 0 position (encode t) = ok t := by
  induction t generalizing position with
  | nil => rfl
  | cons c t ih =>
    obtain ⟨first, others, hchar, hread⟩ := charAt_encodeChar c
    rw [encode, List.flatMap_cons, hchar, List.cons_append, decodeFrom, hread]
    dsimp only
    rw [decodeFrom_append]
    rw [encode] at ih
    rw [ih]

/-- Every text is decoded from the octets that it is encoded as. -/
theorem decode_encode (t : Text) : decode (encode t) = ok t :=
  decodeFrom_encode 0 t

theorem encode_injective {s t : Text} (h : encode s = encode t) : s = t := by
  have hdecode := decode_encode s
  rw [h, decode_encode] at hdecode
  exact (Except.ok.inj hdecode).symm

/-! ## Octets of a text -/

theorem toNat_char {n : Nat} (h : n < 0xD800 ∨ 0xE000 ≤ n ∧ n < 0x110000) :
    (Char.ofNat n).toNat = n := by
  have hvalid : n.isValidChar := by
    unfold Nat.isValidChar
    omega
  rw [Char.ofNat, dif_pos hvalid]
  exact UInt32.toNat_ofNatLT

theorem toNat_of_isContinuation {o : UInt8} (h : isContinuation o) :
    o.toNat = 0x80 + low o ∧ low o < 0x40 := by
  simp only [isContinuation, Bool.and_eq_true, decide_eq_true_eq] at h
  rw [low]
  omega

/-- An octet that continues a character is that of its six bits. -/
theorem continuation_eq {o : UInt8} (h : isContinuation o) {n : Nat} (hn : n % 0x40 = low o) :
    continuation n = o := by
  rw [← UInt8.toNat_inj, toNat_continuation, hn, (toNat_of_isContinuation h).1]

theorem ofNat_eq {o : UInt8} {n : Nat} (hn : n = o.toNat) : UInt8.ofNat n = o := by
  rw [hn, UInt8.ofNat_toNat]

/-- What is known of the second octet of a character of three octets or four. -/
theorem of_isSecond {first second : UInt8} (h : isSecond first second) :
    isContinuation second ∧ (first.toNat = 0xE0 → 0x20 ≤ low second) ∧
      (first.toNat = 0xED → low second < 0x20) ∧ (first.toNat = 0xF0 → 0x10 ≤ low second) ∧
      (first.toNat = 0xF4 → low second < 0x10) := by
  simp only [isSecond, Bool.and_eq_true, Bool.not_eq_true', Bool.and_eq_false_iff,
    beq_eq_false_iff_ne, ne_eq, decide_eq_false_iff_not, ← UInt8.toNat_inj,
    UInt8.lt_iff_toNat_lt, UInt8.le_iff_toNat_le] at h
  obtain ⟨⟨⟨⟨hcontinues, hthree⟩, hsurrogate⟩, hfour⟩, hlast⟩ := h
  have hsecond := toNat_of_isContinuation hcontinues
  change ¬ first.toNat = 0xE0 ∨ ¬ second.toNat < 0xA0 at hthree
  change ¬ first.toNat = 0xED ∨ ¬ 0xA0 ≤ second.toNat at hsurrogate
  change ¬ first.toNat = 0xF0 ∨ ¬ second.toNat < 0x90 at hfour
  change ¬ first.toNat = 0xF4 ∨ ¬ 0x90 ≤ second.toNat at hlast
  refine ⟨hcontinues, ?_, ?_, ?_, ?_⟩
  all_goals omega

theorem encodeChar_two {first a : UInt8} (hmin : 0xC2 ≤ first.toNat) (hmax : first.toNat < 0xE0)
    (ha : isContinuation a) :
    encodeChar (Char.ofNat ((first.toNat - 0xC0) * 0x40 + low a)) = [first, a] := by
  obtain ⟨-, hlow⟩ := toNat_of_isContinuation ha
  simp only [encodeChar]
  rw [toNat_char (by omega), if_neg (by omega), if_pos (by omega), ofNat_eq (o := first) (by omega),
    continuation_eq ha (by omega)]

theorem encodeChar_three {first a b : UInt8} (hmin : 0xE0 ≤ first.toNat)
    (hmax : first.toNat < 0xF0) (ha : isSecond first a) (hb : isContinuation b) :
    encodeChar (Char.ofNat (((first.toNat - 0xE0) * 0x40 + low a) * 0x40 + low b)) =
      [first, a, b] := by
  obtain ⟨hcontinues, hthree, hsurrogate, -, -⟩ := of_isSecond ha
  obtain ⟨-, hlow⟩ := toNat_of_isContinuation hcontinues
  obtain ⟨-, hlow'⟩ := toNat_of_isContinuation hb
  simp only [encodeChar]
  rw [toNat_char (by omega), if_neg (by omega), if_neg (by omega), if_pos (by omega),
    ofNat_eq (o := first) (by omega), continuation_eq hcontinues (by omega),
    continuation_eq hb (by omega)]

theorem encodeChar_four {first a b c : UInt8} (hmin : 0xF0 ≤ first.toNat)
    (hmax : first.toNat < 0xF5) (ha : isSecond first a) (hb : isContinuation b)
    (hc : isContinuation c) :
    encodeChar (Char.ofNat
      ((((first.toNat - 0xF0) * 0x40 + low a) * 0x40 + low b) * 0x40 + low c)) =
        [first, a, b, c] := by
  obtain ⟨hcontinues, -, -, hfour, hlast⟩ := of_isSecond ha
  obtain ⟨-, hlow⟩ := toNat_of_isContinuation hcontinues
  obtain ⟨-, hlow'⟩ := toNat_of_isContinuation hb
  obtain ⟨-, hlow''⟩ := toNat_of_isContinuation hc
  simp only [encodeChar]
  rw [toNat_char (by omega), if_neg (by omega), if_neg (by omega), if_neg (by omega),
    ofNat_eq (o := first) (by omega), continuation_eq hcontinues (by omega),
    continuation_eq hb (by omega), continuation_eq hc (by omega)]

/-- A character that is read off the start of some octets is encoded as those that it covers. -/
theorem encodeChar_of_charAt {first : UInt8} {rest : Octets} {c : Char} {count : Nat}
    (h : charAt first rest = ok (c, count)) :
    ∃ others more, rest = others ++ more ∧ others.length = count ∧
      encodeChar c = first :: others := by
  unfold charAt at h
  dsimp only at h
  split at h
  · cases h
    refine ⟨[], rest, rfl, rfl, ?_⟩
    rw [encodeChar, toNat_char (by omega), if_pos ‹_›, UInt8.ofNat_toNat]
  · split at h
    · cases h
    · split at h
      · -- two octets
        split at h
        · cases h
        · rename_i a more
          split at h
          · cases h
            exact ⟨[a], more, rfl, rfl, encodeChar_two (by omega) (by omega) ‹_›⟩
          · cases h
      · split at h
        · -- three octets
          split at h
          · cases h
          · split at h <;> cases h
          · rename_i a b more
            split at h
            · cases h
            · split at h
              · cases h
              · rename_i ha hb
                simp only [Bool.not_eq_eq_eq_not, Bool.not_true, Bool.not_eq_false] at ha hb
                cases h
                exact ⟨[a, b], more, rfl, rfl, encodeChar_three (by omega) (by omega) ha hb⟩
        · split at h
          · -- four octets
            split at h
            · cases h
            · split at h <;> cases h
            · split at h
              · cases h
              · split at h <;> cases h
            · rename_i a b c' more
              split at h
              · cases h
              · split at h
                · cases h
                · split at h
                  · cases h
                  · rename_i ha hb hc
                    simp only [Bool.not_eq_eq_eq_not, Bool.not_true, Bool.not_eq_false]
                      at ha hb hc
                    cases h
                    exact ⟨[a, b, c'], more, rfl, rfl,
                      encodeChar_four (by omega) (by omega) ha hb hc⟩
          · cases h

/-- Octets that are decoded are those that the text is encoded as. -/
theorem encode_of_decodeFrom {os : Octets} (position : Nat) {t : Text}
    (h : decodeFrom 0 position os = ok t) : encode t = os := by
  induction hlength : os.length using Nat.strongRecOn generalizing os position t with
  | _ n ih =>
    cases os with
    | nil =>
      cases h
      rfl
    | cons o os =>
      rw [decodeFrom] at h
      cases hchar : charAt o os with
      | error fault =>
        rw [hchar] at h
        cases h
      | ok read =>
        obtain ⟨c, count⟩ := read
        obtain ⟨others, more, rfl, rfl, hencoded⟩ := encodeChar_of_charAt hchar
        rw [hchar] at h
        dsimp only at h
        rw [decodeFrom_append] at h
        cases hmore : decodeFrom 0 (position + 1 + others.length) more with
        | error fault =>
          rw [hmore] at h
          cases h
        | ok cs =>
          rw [hmore] at h
          cases h
          have hshorter : more.length < n := by
            rw [← hlength, List.length_cons, List.length_append]
            omega
          have hrest := ih more.length hshorter _ hmore rfl
          rw [encode] at hrest ⊢
          rw [List.flatMap_cons, hencoded, hrest, List.cons_append]

/-- Octets are no text exactly if they are not those of any. -/
theorem decode_eq_error_iff {os : Octets} :
    (∃ fault, decode os = .error fault) ↔ ∀ t, encode t ≠ os := by
  constructor
  · rintro ⟨fault, h⟩ t rfl
    rw [decode_encode] at h
    cases h
  · intro h
    cases hdecode : decode os with
    | error fault => exact ⟨fault, rfl⟩
    | ok t => exact absurd (encode_of_decodeFrom 0 hdecode) (h t)

end Utf8

end Devicetree
