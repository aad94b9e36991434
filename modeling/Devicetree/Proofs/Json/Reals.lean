-- SUMMARY: Every double is written as a number, or as a word for one, that is read to its end.
import Devicetree.Json.Writer
import Devicetree.Proofs.Json.Numbers

/-!
# Doubles

What a double is written as is a number with a point or an exponent, or one of the words for
what is not finite, so that some double is read back from it. Which double that is depends on
how texts are rounded and is not looked into; `reread` gives it a name.
-/

namespace Devicetree

open Except (ok error)

/-! ## Digits -/

namespace Decimal

/-- One digit or more, and nothing else. -/
structure IsDigits (t : Text) : Prop where
  ne_nil : t ≠ []
  isDigit : ∀ c ∈ t, c.isDigit

theorem isDigits_toDigits (n : Nat) : IsDigits (Nat.toDigits 10 n) where
  ne_nil := List.ne_nil_of_length_pos Nat.length_toDigits_pos
  isDigit _ hc := Nat.isDigit_of_mem_toDigits (by decide) (by decide) hc

theorem isDigit_of_mem_replicate {n : Nat} {c : Char} (hc : c ∈ List.replicate n '0') :
    c.isDigit := by
  rw [List.eq_of_mem_replicate hc]
  rfl

theorem IsDigits.replicate_append {t : Text} (h : IsDigits t) (n : Nat) :
    IsDigits (List.replicate n '0' ++ t) where
  ne_nil := by simp [h.ne_nil]
  isDigit := by
    rw [List.forall_mem_append]
    exact ⟨fun _ => isDigit_of_mem_replicate, h.isDigit⟩

/-- Digits in front of a character that is none are taken as they are. -/
theorem IsDigits.takeWhile_append {t : Text} (h : IsDigits t) {rest : Text}
    (hrest : rest.takeWhile Char.isDigit = []) : (t ++ rest).takeWhile Char.isDigit = t := by
  rw [List.takeWhile_append_of_pos h.isDigit, hrest, List.append_nil]

theorem IsDigits.dropWhile_append {t : Text} (h : IsDigits t) {rest : Text}
    (hrest : rest.takeWhile Char.isDigit = []) : (t ++ rest).dropWhile Char.isDigit = rest := by
  have hsplit := List.takeWhile_append_dropWhile (p := Char.isDigit) (l := rest)
  rwa [hrest, List.nil_append, ← List.dropWhile_append_of_pos h.isDigit] at hsplit

/-- What the digits of a positive number start with is no zero. -/
theorem exists_toDigits_eq_cons {n : Nat} (hn : 0 < n) :
    ∃ c cs, Nat.toDigits 10 n = c :: cs ∧ c ≠ '0' := by
  induction n using Nat.strongRecOn with
  | ind n ih =>
    by_cases hsmall : n < 10
    · refine ⟨Nat.digitChar n, [], Nat.toDigits_of_lt_base hsmall, ?_⟩
      simpa using Nat.ne_of_gt hn
    · obtain ⟨c, cs, hdigits, hc⟩ := ih (n / 10) (by omega) (by omega)
      refine ⟨c, cs ++ Nat.toDigits 10 (n % 10), ?_, hc⟩
      have happend := Nat.toDigits_append_toDigits (b := 10) (n := n / 10) (d := n % 10)
        (by decide) (by omega) (by omega)
      rw [Nat.div_add_mod, hdigits] at happend
      exact happend.symm

end Decimal

/-! ## Numbers that are read to their end -/

namespace Json

open Decimal

/-- The digits before a point: a lone zero, or digits that start with another. -/
inductive IsWhole : Text → Prop
  | zero : IsWhole ['0']
  | digits {c : Char} {cs : Text} (nonzero : c ≠ '0') (isDigit : ∀ d ∈ c :: cs, d.isDigit) :
    IsWhole (c :: cs)

/-- An exponent, or nothing. -/
inductive IsExponent : Text → Prop
  | absent : IsExponent []
  | signed {sign : Char} {ds : Text} (hsign : sign = '-' ∨ sign = '+') (digits : IsDigits ds) :
    IsExponent ('e' :: sign :: ds)

variable {whole fraction exponent rest : Text}

theorem IsWhole.wholeDigits_append (h : IsWhole whole)
    (hrest : rest.takeWhile Char.isDigit = []) : wholeDigits (whole ++ rest) = whole := by
  cases h with
  | zero => rfl
  | digits nonzero isDigit =>
    rw [List.cons_append, wholeDigits, ← List.cons_append]
    · exact IsDigits.takeWhile_append ⟨by simp, isDigit⟩ hrest
    · simpa using nonzero

theorem IsExponent.takeWhile (h : IsExponent exponent) :
    exponent.takeWhile Char.isDigit = [] := by
  cases h with
  | absent => rfl
  | signed => rfl

/-- An exponent is read to its end. -/
theorem IsExponent.read (h : IsExponent exponent) :
    ∃ n?, exponentPart exponent = (n?, []) ∧ (n? = none → exponent = []) := by
  cases h with
  | absent => exact ⟨none, rfl, fun _ => rfl⟩
  | @signed sign digits hsign hdigits =>
    have htake : (digits ++ []).takeWhile Char.isDigit = digits := hdigits.takeWhile_append rfl
    have hdrop : (digits ++ []).dropWhile Char.isDigit = [] := hdigits.dropWhile_append rfl
    rw [List.append_nil] at htake hdrop
    have hsigned : (Numeral.signed (sign :: digits)).2 = digits := by
      rcases hsign with rfl | rfl
      · rfl
      · rfl
    rw [exponentPart_cons, if_pos (by decide), exponentDigits, hsigned, htake, hdrop]
    cases digits with
    | nil => exact absurd rfl hdigits.ne_nil
    | cons d ds => exact ⟨_, rfl, by simp⟩

/-- A number with a fraction is read to its end. -/
theorem number_of_fraction (hwhole : IsWhole whole) (hfraction : IsDigits fraction)
    (hexponent : IsExponent exponent) (negative : Bool) (signed : Text) :
    ∃ x, number negative signed (whole ++ '.' :: (fraction ++ exponent)) = ok (real x, []) := by
  obtain ⟨n?, hread, -⟩ := hexponent.read
  have hpoint : fractionDigits ('.' :: (fraction ++ exponent)) = (fraction, exponent) := by
    rw [fractionDigits, hfraction.takeWhile_append hexponent.takeWhile,
      hfraction.dropWhile_append hexponent.takeWhile]
    cases fraction with
    | nil => exact absurd rfl hfraction.ne_nil
    | cons d ds => rfl
  rw [number, hwhole.wholeDigits_append (by rfl)]
  cases whole with
  | nil => cases hwhole
  | cons c cs =>
    simp only [List.drop_left, hpoint, hread]
    rw [if_neg (by simp [hfraction.ne_nil])]
    exact ⟨_, rfl⟩

/-- A number without a fraction but with an exponent is read to its end. -/
theorem number_of_exponent (hwhole : IsWhole whole) (hexponent : IsExponent exponent)
    (hne : exponent ≠ []) (negative : Bool) (signed : Text) :
    ∃ x, number negative signed (whole ++ exponent) = ok (real x, []) := by
  obtain ⟨n?, hread, hnone⟩ := hexponent.read
  have hpoint : fractionDigits exponent = ([], exponent) := by
    cases hexponent with
    | absent => rfl
    | signed => rfl
  rw [number, hwhole.wholeDigits_append hexponent.takeWhile]
  cases whole with
  | nil => cases hwhole
  | cons c cs =>
    simp only [List.drop_left, hpoint, hread]
    rw [if_neg (by simpa using mt hnone hne)]
    exact ⟨_, rfl⟩

/-! ## What doubles are written as -/

/-- A number with a point or an exponent, as a positive double is written. -/
inductive IsReal : Text → Prop
  | fraction {w f e : Text} (hw : IsWhole w) (hf : IsDigits f) (he : IsExponent e) :
    IsReal (w ++ '.' :: (f ++ e))
  | exponent {w e : Text} (hw : IsWhole w) (he : IsExponent e) (hne : e ≠ []) : IsReal (w ++ e)

/-- Such a number is read to its end, whatever its sign. -/
theorem IsReal.number {t : Text} (h : IsReal t) (negative : Bool) (signed : Text) :
    ∃ x, Json.number negative signed t = ok (real x, []) := by
  cases h with
  | fraction hw hf he => exact number_of_fraction hw hf he negative signed
  | exponent hw he hne => exact number_of_exponent hw he hne negative signed

theorem isReal_zero : IsReal ['0', '.', '0'] :=
  .fraction (f := ['0']) .zero ⟨by simp, by simp⟩ .absent

theorem isExponent_of_int (style : DecimalStyle) (e : Int) :
    IsExponent ('e' :: (if e < 0 then '-' else '+') ::
      (List.replicate (style.exponentDigits - (Nat.toDigits 10 e.natAbs).length) '0' ++
        Nat.toDigits 10 e.natAbs)) := by
  refine .signed ?_ ((isDigits_toDigits _).replicate_append _)
  split
  · exact .inl rfl
  · exact .inr rfl

/-- Digits that do not start with a zero are spelled as a number. -/
theorem isReal_spell (style : DecimalStyle) {c : Char} {cs : Text} (hc : c ≠ '0')
    (hdigits : ∀ d ∈ c :: cs, d.isDigit) (k : Int) : IsReal (style.spell (c :: cs) k) := by
  have hwhole : ∀ ds : Text, (∀ d ∈ ds, d.isDigit) → IsWhole (c :: ds) := fun ds hds =>
    .digits hc (List.forall_mem_cons.2 ⟨hdigits c List.mem_cons_self, hds⟩)
  have hcs : ∀ d ∈ cs, d.isDigit := fun d hd => hdigits d (List.mem_cons_of_mem c hd)
  unfold DecimalStyle.spell
  split
  · have hexponent := isExponent_of_int style (k - 1)
    cases cs with
    | nil => exact .exponent (hwhole [] (by simp)) hexponent (by simp)
    | cons d ds =>
      have hfraction := IsReal.fraction (hwhole [] (by simp)) ⟨by simp, hcs⟩ hexponent
      simpa using hfraction
  · split
    · have hfraction : IsDigits (List.replicate k.natAbs '0' ++ c :: cs) :=
        IsDigits.replicate_append ⟨by simp, hdigits⟩ _
      simpa using IsReal.fraction .zero hfraction .absent
    · obtain ⟨n, hn⟩ : ∃ n : Nat, k.toNat = n + 1 := ⟨k.toNat - 1, by omega⟩
      simp only [hn, List.take_succ_cons, List.drop_succ_cons, List.cons_append]
      have hrow : IsWhole (c :: (cs.take n ++ List.replicate (n + 1 - (c :: cs).length) '0')) := by
        refine hwhole _ (List.forall_mem_append.2 ⟨fun d hd => ?_, fun _ => ?_⟩)
        · exact hcs d (List.mem_of_mem_take hd)
        · exact isDigit_of_mem_replicate
      have hfraction : IsDigits (if (cs.drop n).isEmpty then ['0'] else cs.drop n) := by
        split
        · exact ⟨by simp, by simp⟩
        · rename_i hne
          exact ⟨by simpa using hne, fun d hd => hcs d (List.mem_of_mem_drop hd)⟩
      simpa using IsReal.fraction hrow hfraction .absent

end Json

/-! ## Shortest decimals -/

namespace BinaryFraction

variable {x : BinaryFraction} {d : Decimal}

theorem readsBack_of_onGrid {n : Nat} (h : x.onGrid n = some d) : x.readsBack d := by
  rw [onGrid] at h
  dsimp only at h
  split at h
  · cases h
    assumption
  · cases h
    assumption
  · cases h
  · split at h
    · cases h
      assumption
    · split at h
      · cases h
        assumption
      · split at h
        · cases h
          assumption
        · cases h
          assumption

/-- Zero reads back as zero only. -/
theorem digits_pos_of_readsBack (hx : 0 < x.mantissa) (h : x.readsBack d) : 0 < d.digits := by
  refine Nat.pos_of_ne_zero fun hzero => ?_
  have hlow : 0 < x.low * Nat.pow 10 (-d.exponent).toNat := by
    refine Nat.mul_pos (Nat.mul_pos ?_ (Nat.pow_pos (by decide))) (Nat.pow_pos (by decide))
    split
    · omega
    · omega
  rw [readsBack] at h
  simp only [hzero, Nat.zero_mul] at h
  split at h
  · rw [Bool.and_eq_true, decide_eq_true_eq] at h
    omega
  · rw [Bool.and_eq_true, decide_eq_true_eq] at h
    omega

/-- The digits of the shortest decimal stand for a positive number, if there are any. -/
theorem shortest_cases (hx : 0 < x.mantissa) : x.shortest = ⟨0, 0⟩ ∨ 0 < x.shortest.digits := by
  rw [shortest]
  cases hfound : (List.range 17).findSome? fun k => x.onGrid (k + 1) with
  | none => exact .inl rfl
  | some d =>
    obtain ⟨k, -, hk⟩ := List.exists_of_findSome?_eq_some hfound
    exact .inr (digits_pos_of_readsBack hx (readsBack_of_onGrid hk))

/-- A double with some bit besides the sign is not zero. -/
theorem mantissa_ofBits_pos {bits : UInt64} (h : bits.toNat % DecimalStyle.signBit ≠ 0) :
    0 < (ofBits bits).mantissa := by
  have hhidden : hiddenBit = 4503599627370496 := rfl
  rw [show DecimalStyle.signBit = 9223372036854775808 from rfl] at h
  rw [ofBits]
  dsimp only
  split
  · rename_i hleast
    rw [hhidden] at hleast ⊢
    omega
  · rw [hhidden]
    omega

end BinaryFraction

/-! ## Reading back -/

namespace Json

open Decimal

/-- What is left of digits without the zeros at their end starts as they do. -/
theorem dropEnd_cons {p : Char → Bool} {c : Char} (hc : p c = false) (cs : Text) :
    ∃ ds, ((c :: cs).reverse.dropWhile p).reverse = c :: ds ∧ ∀ d ∈ ds, d ∈ cs := by
  rw [List.reverse_cons, List.dropWhile_append]
  split
  · exact ⟨[], by simp [hc], by simp⟩
  · refine ⟨(cs.reverse.dropWhile p).reverse, by simp, fun d hd => ?_⟩
    exact List.mem_reverse.1 (List.dropWhile_subset _ (List.mem_reverse.1 hd))

/-- A double is written as a word, or as a number behind a sign. -/
theorem write_cases (x : Float) :
    (∃ w ∈ ["NaN", "Infinity", "-Infinity"], DecimalStyle.stored.write x = w) ∨
      ∃ t, IsReal t ∧ ((DecimalStyle.stored.write x).toList = t ∨
        (DecimalStyle.stored.write x).toList = '-' :: t) := by
  unfold DecimalStyle.write
  dsimp only
  generalize hsign : (if x.toBits.toNat / DecimalStyle.signBit = 1 then "-" else "") = sign
  have hsigned : ∀ t : String, (sign ++ t).toList = t.toList ∨
      (sign ++ t).toList = '-' :: t.toList := by
    intro t
    rw [← hsign, String.toList_append]
    split
    · exact .inr rfl
    · exact .inl rfl
  split
  · exact .inl ⟨"NaN", by decide, rfl⟩
  · split
    · left
      rw [← hsign]
      split
      · exact ⟨"-Infinity", by decide, rfl⟩
      · exact ⟨"Infinity", by decide, rfl⟩
    · right
      split
      · exact ⟨"0.0".toList, isReal_zero, hsigned _⟩
      · refine ⟨_, ?_, String.toList_ofList ▸ hsigned _⟩
        rename_i hbits
        rcases BinaryFraction.shortest_cases (BinaryFraction.mantissa_ofBits_pos hbits) with h | h
        · rw [h]
          exact isReal_zero
        · obtain ⟨c, cs, hdigits, hc⟩ := exists_toDigits_eq_cons h
          have hall := (isDigits_toDigits (BinaryFraction.ofBits x.toBits).shortest.digits).isDigit
          obtain ⟨ds, hds, hsub⟩ := dropEnd_cons (p := (· == '0')) (by simpa using hc) cs
          rw [hdigits, hds]
          rw [hdigits] at hall
          refine isReal_spell _ hc (List.forall_mem_cons.2 ⟨hall c List.mem_cons_self, ?_⟩) _
          exact fun d hd => hall d (List.mem_cons_of_mem c (hsub d hd))

theorem IsWhole.exists_cons {w : Text} (h : IsWhole w) : ∃ c cs, w = c :: cs ∧ c.isDigit := by
  cases h with
  | zero => exact ⟨'0', [], rfl, rfl⟩
  | digits nonzero isDigit => exact ⟨_, _, rfl, isDigit _ List.mem_cons_self⟩

theorem IsReal.exists_cons {t : Text} (h : IsReal t) : ∃ c cs, t = c :: cs ∧ c.isDigit := by
  cases h with
  | fraction hw =>
    obtain ⟨c, cs, rfl, hc⟩ := hw.exists_cons
    exact ⟨c, _, rfl, hc⟩
  | exponent hw =>
    obtain ⟨c, cs, rfl, hc⟩ := hw.exists_cons
    exact ⟨c, _, rfl, hc⟩

/-- No word starts with a digit, nor with a sign and a digit. -/
theorem atom_of_isDigit {c : Char} (hc : c.isDigit) (cs : Text) :
    atom (c :: cs) = number false (c :: cs) (c :: cs) ∧
      atom ('-' :: c :: cs) = number true ('-' :: c :: cs) (c :: cs) := by
  have hne : ∀ d : Char, d.isDigit = false → c ≠ d := fun d hd => ne_of_kind hc hd
  have hword : words.findSome? (fun w => (afterWord w.1 (c :: cs)).map (w.2, ·)) = none := by
    simp [words, afterWord, Ne.symm (hne 'n' rfl), Ne.symm (hne 't' rfl), Ne.symm (hne 'f' rfl),
      Ne.symm (hne 'N' rfl), Ne.symm (hne 'I' rfl), Ne.symm (hne '-' rfl)]
  have hsigned :
      words.findSome? (fun w => (afterWord w.1 ('-' :: c :: cs)).map (w.2, ·)) = none := by
    simp [words, afterWord, Ne.symm (hne 'I' rfl)]
  rw [atom_eq, atom_eq, hword, hsigned]
  exact ⟨signedNumber_cons (hne '-' rfl) cs, rfl⟩

/-- Some double is read back from what a double is written as. -/
theorem exists_atom_write (x : Float) :
    ∃ y, atom (DecimalStyle.stored.write x).toList = ok (real y, []) := by
  rcases write_cases x with ⟨w, hw, hwrite⟩ | ⟨t, ht, hwrite⟩
  · rw [hwrite]
    simp only [List.mem_cons, List.not_mem_nil, or_false] at hw
    rcases hw with rfl | rfl | rfl
    · exact ⟨_, rfl⟩
    · exact ⟨_, rfl⟩
    · exact ⟨_, rfl⟩
  · obtain ⟨c, cs, rfl, hc⟩ := ht.exists_cons
    obtain ⟨hplain, hminus⟩ := atom_of_isDigit hc cs
    rcases hwrite with hwrite | hwrite
    · rw [hwrite, hplain]
      exact ht.number _ _
    · rw [hwrite, hminus]
      exact ht.number _ _

/-- The double that is read back from what a double is written as. -/
def rereadReal (x : Float) : Float :=
  match atom (DecimalStyle.stored.write x).toList with
  | ok (real y, _) => y
  | _ => x

theorem atom_write (x : Float) :
    atom (DecimalStyle.stored.write x).toList = ok (real (rereadReal x), []) := by
  obtain ⟨y, hy⟩ := exists_atom_write x
  rw [rereadReal, hy]

end Json

end Devicetree
