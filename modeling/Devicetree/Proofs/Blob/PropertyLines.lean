-- SUMMARY: Which values of a property are printed alike, and that values without quotes never are.
import Mathlib.Data.List.Basic
import Mathlib.Data.List.Induction
import Devicetree.Blob.PropertyValue
import Devicetree.Proofs.Json.Strings
import Devicetree.Proofs.Text.HexDigits

/-!
# Property lines

A value is printed in one of four forms, and the first character behind the name tells
which. Cells and octets can be read back. The strings of a string list are printed as they
are, without an escape in front of a quote, so the text between two strings, a quote, a
comma, a space and a quote, may as well stand inside of one. Only there are two values
printed alike.
-/

namespace Devicetree

/-! ## Digits -/

namespace Hex

/-- A number is read back from its digits. -/
theorem read?_digits (n : Nat) : read? (digits n) = some n := by
  induction n using Nat.strongRecOn with
  | ind n ih =>
    have hlast : value? (n % 16).digitChar = some (n % 16) :=
      value?_digitChar (Nat.mod_lt n (by decide))
    by_cases hn : n < 16
    · rw [Nat.mod_eq_of_lt hn] at hlast
      simp [digits, Nat.toDigits_of_lt_base hn, read?, hlast]
    · have hinit := ih (n / 16) (by omega)
      rw [digits] at hinit
      rw [digits, Nat.toDigits_of_base_le (by decide) (Nat.le_of_not_lt hn), read?_concat, hinit,
        hlast]
      exact congrArg some (Nat.div_add_mod n 16)

/-- Zeros in front of digits do not matter. -/
theorem read?_padded (width n : Nat) : read? (padded width n) = some n := by
  have hzeros : ∀ k, read? (List.replicate k '0' ++ digits n) = some n := by
    intro k
    induction k with
    | zero => exact read?_digits n
    | succ k ih => rw [List.replicate_succ, List.cons_append, read?_zero_cons, ih]
  exact hzeros _

theorem padded_injective (width : Nat) : Function.Injective (padded width) := by
  intro n m h
  have hread := read?_padded width n
  rw [h, read?_padded] at hread
  exact (Option.some.inj hread).symm

theorem digits_eq_padded (n : Nat) : digits n = padded 0 n := by
  simp [padded]

theorem space_not_mem_padded (width n : Nat) : ' ' ∉ padded width n := by
  intro hmem
  have hdigit := isSome_read?_iff.1 (by simp [read?_padded]) ' ' hmem
  exact absurd hdigit (by decide)

end Hex

namespace PropertyValue

/-! ## Texts with a separator -/

theorem joined_eq_intercalate (separator : Text) (ts : List Text) :
    joined separator ts = separator.intercalate ts := by
  induction ts with
  | nil => rfl
  | cons t ts ih =>
    cases ts with
    | nil => exact (List.intercalate_singleton).symm
    | cons u us => rw [joined, ih, List.intercalate_cons_cons]; simp

/-- Texts without spaces are told apart when spaces are put between them. -/
theorem eq_of_joined_space {ts us : List Text} (ht : ts ≠ []) (hu : us ≠ [])
    (hts : ∀ t ∈ ts, ' ' ∉ t) (hus : ∀ u ∈ us, ' ' ∉ u) (h : joined [' '] ts = joined [' '] us) :
    ts = us := by
  rw [joined_eq_intercalate, joined_eq_intercalate] at h
  rw [← List.splitOn_intercalate ' ' hts ht, h, List.splitOn_intercalate ' ' hus hu]

/-! ## Cells -/

theorem number_four_inj {a b c d a' b' c' d' : UInt8}
    (h : Octets.number [a, b, c, d] = Octets.number [a', b', c', d']) :
    [a, b, c, d] = [a', b', c', d'] := by
  simp only [Octets.number, List.foldl_cons, List.foldl_nil] at h
  have ha := a.toNat_lt
  have hb := b.toNat_lt
  have hc := c.toNat_lt
  have hd := d.toNat_lt
  have ha' := a'.toNat_lt
  have hb' := b'.toNat_lt
  have hc' := c'.toNat_lt
  have hd' := d'.toNat_lt
  have h1 : a.toNat = a'.toNat := by omega
  have h2 : b.toNat = b'.toNat := by omega
  have h3 : c.toNat = c'.toNat := by omega
  have h4 : d.toNat = d'.toNat := by omega
  rw [UInt8.toNat_inj.1 h1, UInt8.toNat_inj.1 h2, UInt8.toNat_inj.1 h3, UInt8.toNat_inj.1 h4]

/-- Whole words are told apart by their numbers. -/
theorem eq_of_cells_eq {d e : Octets} (hd : d.length % 4 = 0) (he : e.length % 4 = 0)
    (h : cells d = cells e) : d = e := by
  have hwhole : ∀ os : Octets, os.length % 4 = 0 → os = [] ∨ ∃ w x y z os',
      os = w :: x :: y :: z :: os' ∧ os'.length % 4 = 0 := by
    intro os hos
    match os, hos with
    | [], _ => exact .inl rfl
    | w :: x :: y :: z :: os', hos =>
      exact .inr ⟨w, x, y, z, os', rfl, by simp only [List.length_cons] at hos; omega⟩
  induction d using cells.induct generalizing e with
  | case1 a b c x os ih =>
    obtain rfl | ⟨a', b', c', x', os', rfl, hos'⟩ := hwhole e he
    · simp [cells] at h
    · rw [cells, cells, List.cons.injEq] at h
      have hos : os.length % 4 = 0 := by simp only [List.length_cons] at hd; omega
      have hrest := ih hos hos' h.2
      have hword := number_four_inj h.1
      simp_all
  | case2 d hnot =>
    obtain rfl | ⟨a, b, c, x, os, rfl, -⟩ := hwhole d hd
    · obtain rfl | ⟨a, b, c, x, os, rfl, -⟩ := hwhole e he
      · rfl
      · simp [cells] at h
    · exact absurd rfl (hnot a b c x os)

/-! ## Strings -/

/-- Octets that are printed as one string. -/
def IsString (s : Octets) : Prop :=
  s ≠ [] ∧ ∀ o ∈ s, isPrintable o

/-- The octets of strings, each with a zero behind it. -/
def ended (ss : List Octets) : Octets :=
  ss.flatMap fun s => s ++ [0]

/-- The strings that a value consists of, if it is printed as a string list. -/
structure IsStringList (value : Octets) (ss : List Octets) : Prop where
  value_eq : value = ended ss
  ne_nil : ss ≠ []
  isString : ∀ s ∈ ss, IsString s

/-- The characters of octets that are ASCII. -/
def spelled (s : Octets) : Text :=
  s.map fun o => Char.ofNat o.toNat

theorem parts_eq_splitOn (os : Octets) : parts os = os.splitOn 0 := by
  induction os with
  | nil => rfl
  | cons o os ih =>
    rw [List.splitOn_eq_splitOnP] at ih ⊢
    rw [parts, ih, List.splitOnP_cons_eq_if_modifyHead]
    by_cases ho : o = 0
    · simp [ho]
    · cases hos : List.splitOnP (· == 0) os with
      | nil => exact absurd hos (List.splitOnP_ne_nil _ _)
      | cons p ps => simp [ho]

theorem ended_eq_intercalate {ss : List Octets} (h : ss ≠ []) :
    ended ss = [0].intercalate ss ++ [0] := by
  induction ss with
  | nil => exact absurd rfl h
  | cons s ss ih =>
    cases ss with
    | nil => simp [ended]
    | cons t ts =>
      rw [ended, List.flatMap_cons, ← ended, ih (by simp), List.intercalate_cons_cons]
      simp

theorem IsStringList.zero_not_mem {value : Octets} {ss : List Octets} (h : IsStringList value ss) :
    ∀ s ∈ ss, 0 ∉ s := by
  intro s hs hzero
  exact absurd ((h.isString s hs).2 0 hzero) (by decide)

theorem IsStringList.value_ne_nil {value : Octets} {ss : List Octets} (h : IsStringList value ss) :
    value ≠ [] := by
  rw [h.value_eq, ended_eq_intercalate h.ne_nil]
  simp

/-- A value is printed as a string list if and only if it is one. -/
theorem strings?_eq_some_iff {value : Octets} {ts : List Text} :
    strings? value = some ts ↔ ∃ ss, IsStringList value ss ∧ ts = ss.map spelled := by
  constructor
  · intro h
    rw [strings?] at h
    split at h
    · rename_i hlast
      dsimp only at h
      split at h
      · rename_i hall
        have hparts : [0].intercalate (parts value.dropLast) = value.dropLast := by
          rw [parts_eq_splitOn]
          exact List.intercalate_splitOn 0
        have hne : parts value.dropLast ≠ [] := by
          rw [parts_eq_splitOn, List.splitOn_eq_splitOnP]
          exact List.splitOnP_ne_nil _ _
        refine ⟨parts value.dropLast, ⟨?_, hne, ?_⟩, (Option.some.inj h).symm⟩
        · rw [ended_eq_intercalate hne, hparts]
          exact (List.dropLast_append_getLast? 0 hlast).symm
        · simpa [IsString] using hall
      · cases h
    · cases h
  · rintro ⟨ss, h, rfl⟩
    have hparts : parts value.dropLast = ss := by
      rw [h.value_eq, ended_eq_intercalate h.ne_nil, List.dropLast_concat, parts_eq_splitOn,
        List.splitOn_intercalate 0 h.zero_not_mem h.ne_nil]
    have hlast : value.getLast? = some 0 := by
      rw [h.value_eq, ended_eq_intercalate h.ne_nil, List.getLast?_concat]
    have hall : ss.all fun s => !s.isEmpty && s.all isPrintable := by
      simpa [IsString] using h.isString
    rw [strings?, if_pos hlast, hparts]
    dsimp only
    rw [if_pos hall]
    rfl

/-- What stands between two strings: a quote, a comma, a space and a quote. -/
def separator : Octets :=
  [0x22, 0x2C, 0x20, 0x22]

theorem joined_spelled {ss : List Octets} (hne : ss ≠ []) :
    joined [',', ' '] ((ss.map spelled).map fun s => '"' :: (s ++ ['"'])) =
      '"' :: (spelled (separator.intercalate ss) ++ ['"']) := by
  induction ss with
  | nil => exact absurd rfl hne
  | cons s ss ih =>
    cases ss with
    | nil => simp [joined]
    | cons t ts =>
      have hrest := ih (by simp)
      rw [List.map_cons, List.map_cons, joined, hrest, List.intercalate_cons_cons]
      · simp [spelled, separator]
      · simp

/-- A string list is printed as its strings with the separator between each two. -/
theorem text_of_isStringList {value : Octets} {ss : List Octets} (h : IsStringList value ss) :
    text value = '"' :: (spelled (separator.intercalate ss) ++ ['"']) := by
  have hstrings := strings?_eq_some_iff.2 ⟨ss, h, rfl⟩
  rw [text, hstrings]
  exact joined_spelled h.ne_nil

theorem spelled_injective : Function.Injective spelled := by
  apply List.map_injective_iff.2
  intro a b h
  have hvalid : ∀ o : UInt8, (Char.ofNat o.toNat).toNat = o.toNat := by
    intro o
    have ho := o.toNat_lt
    rw [Char.ofNat, dif_pos (.inl (by omega))]
    rfl
  have htoNat := congrArg Char.toNat h
  simp only [hvalid] at htoNat
  exact UInt8.toNat_inj.1 htoNat

/-! ## Values -/

/-- The three forms of a value that is not empty, told apart by their first character. -/
inductive Form (value : Octets) : Text → Prop
  | strings {ss : List Octets} (h : IsStringList value ss) :
      Form value ('"' :: (spelled (separator.intercalate ss) ++ ['"']))
  | cells (h : value.length % 4 = 0) :
      Form value
        ('<' :: (joined [' '] ((cells value).map fun n => '0' :: 'x' :: Hex.digits n) ++ ['>']))
  | octets :
      Form value ('[' :: (joined [' '] (value.map fun o => Hex.padded 2 o.toNat) ++ [']']))

theorem form_text (value : Octets) : Form value (text value) := by
  cases hstrings : strings? value with
  | some ts =>
    obtain ⟨ss, h, -⟩ := strings?_eq_some_iff.1 hstrings
    rw [text_of_isStringList h]
    exact .strings h
  | none =>
    rw [text, hstrings]
    dsimp only
    split
    · rename_i hwhole
      exact .cells hwhole
    · exact .octets

theorem eq_of_cellsForm {d e : Octets} (hd : d ≠ []) (he : e ≠ []) (hwhole : d.length % 4 = 0)
    (hwhole' : e.length % 4 = 0)
    (h : joined [' '] ((cells d).map fun n => '0' :: 'x' :: Hex.digits n) =
      joined [' '] ((cells e).map fun n => '0' :: 'x' :: Hex.digits n)) : d = e := by
  have hne : ∀ os : Octets, os ≠ [] → os.length % 4 = 0 →
      ((cells os).map fun n => '0' :: 'x' :: Hex.digits n) ≠ [] := by
    intro os hos hlength
    match os, hos, hlength with
    | w :: x :: y :: z :: os', _, _ => simp [cells]
  have hspace : ∀ os : Octets, ∀ t ∈ (cells os).map fun n => '0' :: 'x' :: Hex.digits n,
      ' ' ∉ t := by
    intro os t ht
    obtain ⟨n, -, rfl⟩ := List.mem_map.1 ht
    simpa [Hex.digits_eq_padded] using Hex.space_not_mem_padded 0 n
  have hcells := eq_of_joined_space (hne d hd hwhole) (hne e he hwhole') (hspace d) (hspace e) h
  have hinjective : Function.Injective fun n => '0' :: 'x' :: Hex.digits n := by
    intro n m hnm
    simp only [List.cons.injEq, true_and, Hex.digits_eq_padded] at hnm
    exact Hex.padded_injective 0 hnm
  exact eq_of_cells_eq hwhole hwhole' (List.map_injective_iff.2 hinjective hcells)

theorem eq_of_octetsForm {d e : Octets} (hd : d ≠ []) (he : e ≠ [])
    (h : joined [' '] (d.map fun o => Hex.padded 2 o.toNat) =
      joined [' '] (e.map fun o => Hex.padded 2 o.toNat)) : d = e := by
  have hspace : ∀ os : Octets, ∀ t ∈ os.map fun o => Hex.padded 2 o.toNat, ' ' ∉ t := by
    intro os t ht
    obtain ⟨o, -, rfl⟩ := List.mem_map.1 ht
    exact Hex.space_not_mem_padded 2 _
  have hoctets := eq_of_joined_space (by simpa) (by simpa) (hspace d) (hspace e) h
  have hinjective : Function.Injective fun o : UInt8 => Hex.padded 2 o.toNat :=
    fun _ _ hab => UInt8.toNat_inj.1 (Hex.padded_injective 2 hab)
  exact List.map_injective_iff.2 hinjective hoctets

/-- Values that are printed alike are the same, or string lists that agree once the
    separator stands between their strings. -/
theorem eq_or_isStringList_of_text_eq {d e : Octets} (hd : d ≠ []) (he : e ≠ [])
    (h : text d = text e) :
    d = e ∨ ∃ ss ts, IsStringList d ss ∧ IsStringList e ts ∧
      separator.intercalate ss = separator.intercalate ts := by
  have hform := form_text d
  have hform' := form_text e
  generalize text d = t at h hform
  generalize text e = u at h hform'
  cases hform with
  | strings hss =>
    cases hform' with
    | strings hts =>
      simp only [List.cons.injEq, true_and, List.append_cancel_right_eq] at h
      exact .inr ⟨_, _, hss, hts, spelled_injective h⟩
    | cells => simp at h
    | octets => simp at h
  | cells hwhole =>
    cases hform' with
    | strings => simp at h
    | cells hwhole' =>
      simp only [List.cons.injEq, true_and, List.append_cancel_right_eq] at h
      exact .inl (eq_of_cellsForm hd he hwhole hwhole' h)
    | octets => simp at h
  | octets =>
    cases hform' with
    | strings => simp at h
    | cells => simp at h
    | octets =>
      simp only [List.cons.injEq, true_and, List.append_cancel_right_eq] at h
      exact .inl (eq_of_octetsForm hd he h)

theorem line_eq_line_iff_text (name indent : Text) (d e : Octets) :
    line name d indent = line name e indent ↔
      d = e ∨ d ≠ [] ∧ e ≠ [] ∧ text d = text e := by
  cases d with
  | nil =>
    cases e with
    | nil => simp
    | cons o os => simp [line]
  | cons o os =>
    cases e with
    | nil => simp [line]
    | cons p ps =>
      simp only [line, List.isEmpty_cons, Bool.false_eq_true, if_false, List.append_cancel_left_eq,
        List.append_cancel_right_eq, ne_eq, reduceCtorEq, not_false_eq_true, true_and]
      exact ⟨.inr, fun h => h.elim (congrArg text) id⟩

/-! ## Values without quotes -/

/-- What stands in front of the first quote, and behind it. -/
theorem append_quote_inj {s t x y : Octets} (hs : 0x22 ∉ s) (ht : 0x22 ∉ t)
    (h : s ++ 0x22 :: x = t ++ 0x22 :: y) : s = t ∧ x = y := by
  have hfront : ∀ u z : Octets, 0x22 ∉ u → (u ++ 0x22 :: z).takeWhile (· != 0x22) = u := by
    intro u z hu
    rw [List.takeWhile_append_of_pos]
    · simp
    · intro o ho
      have hne : o ≠ 0x22 := by
        rintro rfl
        exact hu ho
      simpa using hne
  have heq : s = t := by rw [← hfront s x hs, h, hfront t y ht]
  subst heq
  simpa using h

/-- Strings without quotes are told apart when the separator is put between them. -/
theorem eq_of_intercalate_separator {ss ts : List Octets} (hss : ss ≠ []) (hts : ts ≠ [])
    (hs : ∀ s ∈ ss, 0x22 ∉ s) (ht : ∀ t ∈ ts, 0x22 ∉ t)
    (h : separator.intercalate ss = separator.intercalate ts) : ss = ts := by
  have hcons : ∀ (s r : Octets) (rs : List Octets), separator.intercalate (s :: r :: rs) =
      s ++ 0x22 :: ([0x2C, 0x20, 0x22] ++ separator.intercalate (r :: rs)) := by
    intro s r rs
    rw [List.intercalate_cons_cons, List.append_assoc]
    rfl
  induction ss generalizing ts with
  | nil => exact absurd rfl hss
  | cons s ss ih =>
    obtain ⟨t, ts, rfl⟩ := List.exists_cons_of_ne_nil hts
    have hsquote : 0x22 ∉ s := hs s (by simp)
    have htquote : 0x22 ∉ t := ht t (by simp)
    cases ss with
    | nil =>
      cases ts with
      | nil => simpa using h
      | cons u us =>
        rw [List.intercalate_singleton, hcons] at h
        exact absurd (by simp [h]) hsquote
    | cons r rs =>
      cases ts with
      | nil =>
        rw [List.intercalate_singleton, hcons] at h
        exact absurd (by simp [← h]) htquote
      | cons u us =>
        rw [hcons, hcons] at h
        obtain ⟨rfl, hrest⟩ := append_quote_inj hsquote htquote h
        have htail := ih (by simp) (by simp) (fun v hv => hs v (List.mem_cons_of_mem _ hv))
          (fun v hv => ht v (List.mem_cons_of_mem _ hv)) (List.append_cancel_left hrest)
        rw [htail]

theorem IsStringList.mem_value {value s : Octets} {ss : List Octets} (h : IsStringList value ss)
    (hs : s ∈ ss) {o : UInt8} (ho : o ∈ s) : o ∈ value := by
  rw [h.value_eq]
  exact List.mem_flatMap.2 ⟨s, hs, List.mem_append_left _ ho⟩

/-! ## Lines -/

/-- Two values of a property are printed alike if and only if they are the same or they are
    string lists that agree once a quote, a comma, a space and a quote stand between the
    strings. Values without quotes are printed alike only if they are the same. -/
theorem line_eq_line_iff (name indent : Text) (d e : Octets) :
    (line name d indent = line name e indent ↔
      d = e ∨ ∃ ss ts, IsStringList d ss ∧ IsStringList e ts ∧
        separator.intercalate ss = separator.intercalate ts) ∧
    (0x22 ∉ d → 0x22 ∉ e → line name d indent = line name e indent → d = e) := by
  have halike : line name d indent = line name e indent →
      d = e ∨ ∃ ss ts, IsStringList d ss ∧ IsStringList e ts ∧
        separator.intercalate ss = separator.intercalate ts := by
    intro h
    rcases (line_eq_line_iff_text name indent d e).1 h with heq | ⟨hd, he, htext⟩
    · exact .inl heq
    · exact eq_or_isStringList_of_text_eq hd he htext
  refine ⟨⟨halike, ?_⟩, fun hd he h => ?_⟩
  · rintro (rfl | ⟨ss, ts, hss, hts, heq⟩)
    · rfl
    · have hne := hss.value_ne_nil
      have hne' := hts.value_ne_nil
      rw [line_eq_line_iff_text, text_of_isStringList hss, text_of_isStringList hts, heq]
      exact .inr ⟨hne, hne', rfl⟩
  · rcases halike h with heq | ⟨ss, ts, hss, hts, heq⟩
    · exact heq
    · have hlists := eq_of_intercalate_separator hss.ne_nil hts.ne_nil
        (fun s hs hmem => hd (hss.mem_value hs hmem))
        (fun t ht hmem => he (hts.mem_value ht hmem)) heq
      rw [hss.value_eq, hts.value_eq, hlists]

theorem line_eq_line_iff_status :
    let okay : Octets := [0x6F, 0x6B, 0x61, 0x79, 0]
    let cells : Octets := [0, 0, 0, 1]
    0x22 ∉ okay ∧ 0x22 ∉ cells ∧ line "status".toList okay [] ≠ line "status".toList cells [] := by
  intro okay cells
  have hokay : 0x22 ∉ okay := by decide
  have hcells : 0x22 ∉ cells := by decide
  have hne : okay ≠ cells := by decide
  exact ⟨hokay, hcells,
    fun h => hne ((line_eq_line_iff "status".toList [] okay cells).2 hokay hcells h)⟩

/-- The quotes in a string are printed as they are: one string that holds the separator is
    printed like two. -/
theorem line_eq_line_of_quotes :
    let d : Octets := [0x61, 0x22, 0x2C, 0x20, 0x22, 0x62, 0]
    let e : Octets := [0x61, 0, 0x62, 0]
    d ≠ e ∧ line "label".toList d [] = "label = \"a\", \"b\";".toList ∧
      line "label".toList e [] = "label = \"a\", \"b\";".toList := by
  decide

end PropertyValue

end Devicetree
