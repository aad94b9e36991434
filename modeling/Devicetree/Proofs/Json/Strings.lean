-- SUMMARY: Strings of JSON texts are read back as they were written.
import Devicetree.Json.Reader
import Devicetree.Json.Writer
import Devicetree.Proofs.Text.Utf8

/-!
# Strings

A string is written between quotes, each of its characters as itself, behind a backslash, as
one code unit or as two. Reading such a string gives the same characters, and what stands
behind its closing quote is left.
-/

namespace Devicetree

open Except (ok error)

/-! ## Digits -/

namespace Hex

theorem value?_digitChar {d : Nat} (hd : d < 16) : value? d.digitChar = some d := by
  have hall : ∀ d : Fin 16, value? (Nat.digitChar d) = some d.val := by decide
  exact hall ⟨d, hd⟩

/-- The last of several digits. -/
theorem padded_succ (width n : Nat) :
    padded (width + 2) n = padded (width + 1) (n / 16) ++ [(n % 16).digitChar] := by
  simp only [padded, digits]
  by_cases hn : n < 16
  · rw [Nat.toDigits_of_lt_base hn, Nat.div_eq_of_lt hn, Nat.mod_eq_of_lt hn, Nat.toDigits_zero]
    simp [List.replicate_succ']
  · rw [Nat.toDigits_of_base_le (by decide) (Nat.le_of_not_lt hn)]
    simp [List.append_assoc]

theorem padded_one {n : Nat} (hn : n < 16) : padded 1 n = [n.digitChar] := by
  simp [padded, digits, Nat.toDigits_of_lt_base hn]

/-- A code unit in digits. -/
theorem padded_four {n : Nat} (hn : n < 0x10000) :
    padded 4 n = [(n / 16 / 16 / 16).digitChar, (n / 16 / 16 % 16).digitChar,
      (n / 16 % 16).digitChar, (n % 16).digitChar] := by
  rw [padded_succ, padded_succ, padded_succ, padded_one (by omega)]
  rfl

end Hex

namespace Json

theorem length_padded_four {n : Nat} (hn : n < 0x10000) : (Hex.padded 4 n).length = 4 := by
  rw [Hex.padded_four hn]
  rfl

/-- A code unit is read back. -/
theorem codeUnit?_padded {n : Nat} (hn : n < 0x10000) (cs : Text) :
    codeUnit? (Hex.padded 4 n ++ cs) = some n := by
  rw [Hex.padded_four hn]
  simp [codeUnit?, Hex.read?, Hex.value?_digitChar (d := n / 16 / 16 / 16) (by omega),
    Hex.value?_digitChar (Nat.mod_lt _ (by decide : 16 > 0))]
  omega

/-! ## Characters -/

/-- The ways in which a character is written. -/
inductive Escaped (c : Char) : Text → Prop
  | letter {l : Char} (hu : l ≠ 'u') (unescape : unescape? l = some c)
      (printable : 32 ≤ l.toNat ∧ l.toNat < 127) : Escaped c ['\\', l]
  | plain (quote : c ≠ '"') (backslash : c ≠ '\\') (printable : 32 ≤ c.toNat ∧ c.toNat < 127) :
      Escaped c [c]
  | unit (small : c.toNat < 0x10000) : Escaped c (unitEscape c.toNat)
  | pair (large : 0x10000 ≤ c.toNat) :
      Escaped c (unitEscape (0xD800 + (c.toNat - 0x10000) / 0x400) ++
        unitEscape (0xDC00 + (c.toNat - 0x10000) % 0x400))

theorem escaped_escape (c : Char) : Escaped c (escape c) := by
  unfold escape
  split
  · exact .letter (by decide) (by decide) (by decide)
  · exact .letter (by decide) (by decide) (by decide)
  · exact .letter (by decide) (by decide) (by decide)
  · exact .letter (by decide) (by decide) (by decide)
  · exact .letter (by decide) (by decide) (by decide)
  · exact .letter (by decide) (by decide) (by decide)
  · exact .letter (by decide) (by decide) (by decide)
  · rename_i hquote hbackslash _ _ _ _ _
    dsimp only
    split
    · rename_i hprintable
      simp only [Bool.and_eq_true, decide_eq_true_eq] at hprintable
      exact .plain hquote hbackslash hprintable
    · split
      · exact .unit ‹_›
      · exact .pair (Nat.le_of_not_lt ‹_›)

theorem string_skip (half : Nat → Char) (whole done skipped cs : Text) :
    string half whole skipped.length done (skipped ++ cs) = string half whole 0 done cs := by
  induction skipped with
  | nil => rfl
  | cons c skipped ih =>
    rw [List.length_cons, List.cons_append, string]
    exact ih

variable {half : Nat → Char}

theorem character_toNat (c : Char) : character half c.toNat = c := by
  have hvalid := Text.toNat_valid c
  have halone : ¬ (0xD800 ≤ c.toNat ∧ c.toNat < 0xE000) := by omega
  rw [character, if_neg (by simpa using halone), Char.ofNat_toNat]

theorem drop_padded {unit : Nat} (hsmall : unit < 0x10000) (cs : Text) :
    (Hex.padded 4 unit ++ cs).drop 4 = cs :=
  List.drop_left' (length_padded_four hsmall)

/-- Reading a code unit that is a character on its own. -/
theorem string_unitEscape {unit : Nat} (hsmall : unit < 0x10000)
    (halone : ¬ (0xD800 ≤ unit ∧ unit < 0xDC00)) (whole done : Text) {cs : Text} (hcs : cs ≠ []) :
    string half whole 0 done (unitEscape unit ++ cs) =
      string half whole 0 (character half unit :: done) cs := by
  have hskip := string_skip half whole (character half unit :: done) ('u' :: Hex.padded 4 unit) cs
  rw [List.length_cons, length_padded_four hsmall] at hskip
  rw [unitEscape, List.cons_append, List.cons_append, string, drop_padded hsmall,
    codeUnit?_padded hsmall]
  simp only [hcs, List.isEmpty_iff, if_false]
  rw [if_neg (by simpa using halone)]
  exact hskip

/-- Reading two code units that are one character. -/
theorem string_pair {high low : Nat} (hhigh : 0xD800 ≤ high ∧ high < 0xDC00)
    (hlow : 0xDC00 ≤ low ∧ low < 0xE000) (whole done : Text) {cs : Text} (hcs : cs ≠ []) :
    string half whole 0 done (unitEscape high ++ (unitEscape low ++ cs)) =
      string half whole 0
        (character half (0x10000 + (high - 0xD800) * 0x400 + (low - 0xDC00)) :: done) cs := by
  have hhigh' : high < 0x10000 := by omega
  have hlow' : low < 0x10000 := by omega
  have hhalf : lowHalf? (unitEscape low ++ cs) = ok (some low) := by
    rw [unitEscape, List.cons_append, List.cons_append, lowHalf?, drop_padded hlow',
      codeUnit?_padded hlow']
    simp [hcs, hlow]
  have hskip := string_skip half whole
    (character half (0x10000 + (high - 0xD800) * 0x400 + (low - 0xDC00)) :: done)
    ('u' :: Hex.padded 4 high ++ unitEscape low) cs
  rw [List.length_append, List.length_cons, unitEscape, List.length_cons, List.length_cons,
    length_padded_four hhigh', length_padded_four hlow', ← unitEscape] at hskip
  rw [unitEscape, List.cons_append, List.cons_append, string, drop_padded hhigh',
    codeUnit?_padded hhigh', hhalf]
  have hne : (unitEscape low ++ cs).isEmpty = false := rfl
  simp only [hne]
  rw [if_neg (by simp), if_pos (by simpa using hhigh)]
  simpa using hskip

/-- Reading a character takes up what it was written as. -/
theorem string_escape (whole done : Text) (c : Char) {cs : Text} (hcs : cs ≠ []) :
    string half whole 0 done (escape c ++ cs) = string half whole 0 (c :: done) cs := by
  have hescaped := escaped_escape c
  have hvalid := Text.toNat_valid c
  generalize escape c = written at hescaped ⊢
  cases hescaped with
  | @letter l hu hunescape =>
    have hskip := string_skip half whole (c :: done) [l] cs
    rw [List.cons_append, List.cons_append, List.nil_append, string]
    · rw [hunescape]
      exact hskip
    · exact fun h => hu h
  | plain hquote hbackslash hprintable =>
    rw [List.cons_append, List.nil_append, string, if_neg (by omega)]
    all_goals grind
  | unit hsmall =>
    rw [string_unitEscape hsmall (by omega) whole done hcs, character_toNat]
  | pair hlarge =>
    rw [List.append_assoc, string_pair (by omega) (by omega) whole done hcs]
    have hcode : 0x10000 + (0xD800 + (c.toNat - 0x10000) / 0x400 - 0xD800) * 0x400 +
        (0xDC00 + (c.toNat - 0x10000) % 0x400 - 0xDC00) = c.toNat := by
      omega
    rw [hcode, character_toNat]

/-! ## Strings -/

/-- Reading a string up to its closing quote gives back what was written. -/
theorem string_flatMap_escape (whole done cs rest : Text) :
    string half whole 0 done (cs.flatMap escape ++ '"' :: rest) =
      ok (String.ofList (done.reverse ++ cs), rest) := by
  induction cs generalizing done with
  | nil =>
    rw [List.flatMap_nil, List.nil_append, List.append_nil]
    rfl
  | cons c cs ih =>
    rw [List.flatMap_cons, List.append_assoc, string_escape whole done c (by simp), ih]
    simp

theorem quoted_append (s : String) (rest : Text) :
    quoted s ++ rest = '"' :: (s.toList.flatMap escape ++ '"' :: rest) := by
  simp [quoted]

/-- A string in quotes is read back. -/
theorem string_quoted (whole : Text) (s : String) (rest : Text) :
    string half whole 0 [] (s.toList.flatMap escape ++ '"' :: rest) = ok (s, rest) := by
  rw [string_flatMap_escape, List.reverse_nil, List.nil_append, String.ofList_toList]

/-! ## Carriage returns -/

theorem return_not_mem_unitEscape {unit : Nat} (hsmall : unit < 0x10000) :
    '\r' ∉ unitEscape unit := by
  have hdigit : ∀ d : Fin 16, '\r' ≠ Nat.digitChar d := by decide
  have hdigit' : ∀ d < 16, '\r' ≠ Nat.digitChar d := fun d hd => hdigit ⟨d, hd⟩
  simp only [unitEscape, Hex.padded_four hsmall, List.mem_cons, List.not_mem_nil, or_false, not_or]
  exact ⟨by decide, by decide, hdigit' _ (by omega), hdigit' _ (by omega), hdigit' _ (by omega),
    hdigit' _ (by omega)⟩

theorem return_not_mem_escape (c : Char) : '\r' ∉ escape c := by
  have hescaped := escaped_escape c
  have hvalid := Text.toNat_valid c
  generalize escape c = written at hescaped ⊢
  have hprintable : ∀ l : Char, 32 ≤ l.toNat → '\r' ≠ l := by
    rintro l hl rfl
    exact absurd hl (by decide)
  cases hescaped with
  | letter _ _ printable => simp [hprintable _ printable.1]
  | plain _ _ printable => simp [hprintable _ printable.1]
  | unit hsmall => exact return_not_mem_unitEscape hsmall
  | pair hlarge =>
    rw [List.mem_append, not_or]
    exact ⟨return_not_mem_unitEscape (by omega), return_not_mem_unitEscape (by omega)⟩

/-- No carriage return is written in a string. -/
theorem return_not_mem_quoted (s : String) : '\r' ∉ quoted s := by
  simp only [quoted, List.mem_cons, List.mem_append, List.mem_flatMap, not_or, not_exists, not_and]
  exact ⟨by decide, fun c _ => return_not_mem_escape c, by decide, by simp⟩

end Json

end Devicetree
