-- SUMMARY: Values are read back from the indented texts that they are written as.
import Devicetree.Proofs.Json.Reals
import Devicetree.Proofs.Json.Strings

/-!
# Values

An indented text holds a value and is read back as it, but for doubles that are read as others
than those they were written for. No object may have two members of one name, and arrays and
objects may not be nested too deeply. The induction follows the value; what stands behind it in
the text is arbitrary but for its first character.
-/

namespace Devicetree

open Except (ok error)

namespace Json

/-! ## Characters -/

/-- The characters of numbers, and of the words for what is not finite. -/
def isNumeral (c : Char) : Bool :=
  c.isAlphanum || ['.', '+', '-'].contains c

theorem isSpace_of_isNumeral {c : Char} (h : isNumeral c) : isSpace c = false :=
  isSpace_of_kind h (by decide) (by decide) (by decide) (by decide)

theorem isNumeral_toDigits (n : Nat) : ∀ c ∈ Nat.toDigits 10 n, isNumeral c := by
  intro c hc
  have hdigit : c.isDigit := Nat.isDigit_of_mem_toDigits (by decide) (by decide) hc
  simp [isNumeral, Char.isAlphanum, hdigit]

theorem isNumeral_replicate (n : Nat) : ∀ c ∈ List.replicate n '0', isNumeral c := by
  intro c hc
  rw [List.eq_of_mem_replicate hc]
  decide

theorem isNumeral_spell (style : DecimalStyle) {digits : List Char}
    (hdigits : ∀ c ∈ digits, isNumeral c) (k : Int) :
    ∀ c ∈ style.spell digits k, isNumeral c := by
  have htake : ∀ n, ∀ c ∈ digits.take n, isNumeral c := fun n c hc =>
    hdigits c (List.mem_of_mem_take hc)
  have hdrop : ∀ n, ∀ c ∈ digits.drop n, isNumeral c := fun n c hc =>
    hdigits c (List.mem_of_mem_drop hc)
  unfold DecimalStyle.spell
  split
  · simp only [List.append_assoc, List.forall_mem_append, List.forall_mem_cons]
    refine ⟨htake 1, ?_, by decide, ?_, isNumeral_replicate _, isNumeral_toDigits _⟩
    · split
      · simp
      · exact List.forall_mem_cons.2 ⟨by decide, hdrop 1⟩
    · split
      · decide
      · decide
  · split
    · simp only [List.forall_mem_append, List.forall_mem_cons]
      exact ⟨by decide, by decide, isNumeral_replicate _, hdigits⟩
    · simp only [List.append_assoc, List.forall_mem_append, List.forall_mem_cons]
      refine ⟨htake _, isNumeral_replicate _, by decide, ?_⟩
      split
      · exact List.all_eq_true.1 rfl
      · exact hdrop _

/-- The characters that a number is written with. -/
theorem isNumeral_write (x : Float) :
    ∀ c ∈ (DecimalStyle.stored.write x).toList, isNumeral c := by
  unfold DecimalStyle.write
  dsimp only
  generalize hsign : (if x.toBits.toNat / DecimalStyle.signBit = 1 then "-" else "") = sign
  have hminus : ∀ c ∈ sign.toList, isNumeral c := by
    rw [← hsign]
    split
    · exact List.all_eq_true.1 rfl
    · exact List.all_eq_true.1 rfl
  split
  · exact List.all_eq_true.1 rfl
  · split
    · rw [String.toList_append, List.forall_mem_append]
      exact ⟨hminus, List.all_eq_true.1 rfl⟩
    · split
      · rw [String.toList_append, List.forall_mem_append]
        exact ⟨hminus, List.all_eq_true.1 rfl⟩
      · rw [String.toList_append, List.forall_mem_append, String.toList_ofList]
        refine ⟨hminus, isNumeral_spell _ (fun c hc => ?_) _⟩
        exact isNumeral_toDigits _ c
          (List.mem_reverse.1 (List.dropWhile_subset _ (List.mem_reverse.1 hc)))

/-! ## Carriage returns

A text without carriage returns stays as it is when line breaks are made line feeds. -/

theorem return_not_mem_of_isNumeral {t : Text} (h : ∀ c ∈ t, isNumeral c) : '\r' ∉ t :=
  fun hreturn => absurd (h _ hreturn) (by decide)

theorem isNumeral_toString (n : Int) : ∀ c ∈ (toString n).toList, isNumeral c := by
  have hrepr : ∀ n : Nat, ∀ c ∈ n.repr.toList, isNumeral c := by
    intro n
    rw [Nat.repr_eq_ofList_toDigits, String.toList_ofList]
    exact isNumeral_toDigits n
  cases n with
  | ofNat n => exact hrepr n
  | negSucc n =>
    change ∀ c ∈ ("-" ++ (n + 1).repr).toList, isNumeral c
    rw [String.toList_append, List.forall_mem_append]
    exact ⟨List.all_eq_true.1 rfl, hrepr (n + 1)⟩

theorem return_not_mem_scalar (v : Json) : '\r' ∉ scalar v := by
  cases v with
  | null => decide
  | bool b =>
    cases b with
    | false => decide
    | true => decide
  | int n => exact return_not_mem_of_isNumeral (isNumeral_toString n)
  | real x => exact return_not_mem_of_isNumeral (isNumeral_write x)
  | str s => exact return_not_mem_quoted s
  | arr _ | obj _ => simp [scalar]

theorem return_not_mem_newLine (indent : Nat) : '\r' ∉ newLine indent := by
  simp [newLine, List.mem_replicate]

mutual

theorem return_not_mem_indented (indent : Nat) : (v : Json) → '\r' ∉ indented indent v
  | arr (v :: items) => by
    simp [indented, return_not_mem_newLine, return_not_mem_indented (indent + 2) v,
      return_not_mem_indentedItems indent items]
  | obj ((k, v) :: members) => by
    simp [indented, return_not_mem_newLine, return_not_mem_quoted,
      return_not_mem_indented (indent + 2) v, return_not_mem_indentedMembers indent members]
  | null | bool _ | int _ | real _ | str _ | arr [] | obj [] => by
    rw [indented]
    · exact return_not_mem_scalar _
    all_goals simp

theorem return_not_mem_indentedItems (indent : Nat) :
    (items : List Json) → '\r' ∉ indentedItems indent items
  | [] => by simp [indentedItems, return_not_mem_newLine]
  | v :: items => by
    simp [indentedItems, return_not_mem_newLine, return_not_mem_indented (indent + 2) v,
      return_not_mem_indentedItems indent items]

theorem return_not_mem_indentedMembers (indent : Nat) :
    (members : List (String × Json)) → '\r' ∉ indentedMembers indent members
  | [] => by simp [indentedMembers, return_not_mem_newLine]
  | (k, v) :: members => by
    simp [indentedMembers, return_not_mem_newLine, return_not_mem_quoted,
      return_not_mem_indented (indent + 2) v, return_not_mem_indentedMembers indent members]

end

/-! ## First characters -/

/-- The characters with which a value starts. -/
def startsValue (c : Char) : Bool :=
  startsAtom c || ['"', '[', '{'].contains c

theorem isSpace_of_startsValue {c : Char} (h : startsValue c) : isSpace c = false :=
  isSpace_of_kind h (by decide) (by decide) (by decide) (by decide)

theorem skipSpace_cons {c : Char} (hc : isSpace c = false) (cs : Text) :
    skipSpace (c :: cs) = c :: cs := by
  rw [skipSpace, List.dropWhile_cons, hc]
  rfl

@[simp] theorem length_newLine (indent : Nat) : (newLine indent).length = indent + 1 := by
  simp [newLine]

/-- The blanks in front of a value that stands on a line of its own are skipped. -/
theorem skipSpace_newLine (indent : Nat) {c : Char} (hc : isSpace c = false) (cs : Text) :
    skipSpace (newLine indent ++ c :: cs) = c :: cs := by
  have hblank : ∀ a ∈ newLine indent, isSpace a := by
    intro a ha
    rcases List.mem_cons.1 ha with rfl | ha
    · rfl
    · rw [List.eq_of_mem_replicate ha]
      rfl
  rw [skipSpace, List.dropWhile_append_of_pos hblank]
  exact skipSpace_cons hc cs

/-! ## Values that hold no others -/

variable {half : Nat → Char} {fuel depth indent : Nat} {rest : Text}

/-- A word or a number is read as a value. -/
theorem value_of_atom {cs : Text} {r : Json × Text} (hread : atom cs = ok r) :
    value half (fuel + 1) depth cs = ok r := by
  obtain ⟨c, more, rfl, hstart⟩ := exists_startsAtom hread
  rw [value, hread]
  · exact fun _ heq => ne_of_kind hstart (by decide) (List.cons.inj heq).1
  · exact fun _ heq => ne_of_kind hstart (by decide) (List.cons.inj heq).1
  · exact fun _ heq => ne_of_kind hstart (by decide) (List.cons.inj heq).1

/-- A number is read back from what it is written as. -/
def ReadsBack (x : Float) : Prop :=
  parse (DecimalStyle.stored.write x).toList = ok (real x)

theorem ReadsBack.atom {x : Float} (h : ReadsBack x) :
    Json.atom (DecimalStyle.stored.write x).toList = ok (real x, []) := by
  have hnumeral := isNumeral_write x
  rw [ReadsBack] at h
  generalize (DecimalStyle.stored.write x).toList = t at hnumeral h ⊢
  have hspace : ∀ left, left <:+ t → skipSpace left = left := by
    intro left hleft
    cases left with
    | nil => rfl
    | cons c cs =>
      exact skipSpace_cons (isSpace_of_isNumeral (hnumeral c (hleft.subset (by simp)))) cs
  have hne : ∀ d, isNumeral d = false → ∀ cs, t ≠ d :: cs := by
    rintro d hd cs rfl
    exact ne_of_kind (hnumeral d (by simp)) hd rfl
  rw [parse] at h
  · rw [hspace t (List.suffix_refl t), value] at h
    · cases hatom : Json.atom t with
      | error fault =>
        rw [hatom] at h
        cases h
      | ok r =>
        obtain ⟨v, left⟩ := r
        rw [hatom] at h
        dsimp only at h
        rw [hspace left (atom_suffix hatom)] at h
        cases left with
        | nil =>
          cases h
          rfl
        | cons c cs => cases h
    · exact hne '"' (by decide)
    · exact hne '[' (by decide)
    · exact hne '{' (by decide)
  · exact hne '\uFEFF' (by decide)

/-- A double that is read back is read as itself. -/
theorem ReadsBack.rereadReal {x : Float} (h : ReadsBack x) : rereadReal x = x := by
  have hatom := h.atom
  rw [atom_write] at hatom
  simpa using hatom

/-! ## Reading again -/

mutual

/-- The value that is read back for a value: with other doubles in it, if its own are not read
    back as themselves. -/
def reread : Json → Json
  | real x => real (rereadReal x)
  | arr items => arr (rereadItems items)
  | obj members => obj (rereadMembers members)
  | v => v

/-- The elements that are read back. -/
def rereadItems : List Json → List Json
  | [] => []
  | v :: items => reread v :: rereadItems items

/-- The members that are read back. -/
def rereadMembers : List (String × Json) → List (String × Json)
  | [] => []
  | (k, v) :: members => (k, reread v) :: rereadMembers members

end

theorem rereadItems_eq_map (items : List Json) : rereadItems items = items.map reread := by
  induction items with
  | nil => rfl
  | cons v items ih => rw [rereadItems, ih, List.map_cons]

/-! ## Arrays and objects -/

/-- A value is read back from its indented text, whatever stands behind it. -/
structure Readable (depth indent : Nat) (v : Json) : Prop where
  start : ∃ c cs, indented indent v = c :: cs ∧ startsValue c
  read : ∀ {half : Nat → Char} {fuel : Nat} {rest : Text}, (indented indent v).length < fuel →
    Behind rest → value half fuel depth (indented indent v ++ rest) = ok (reread v, rest)

theorem Readable.skipSpace_newLine {v : Json} (h : Readable depth indent v) (more : Nat)
    (rest : Text) : skipSpace (newLine more ++ (indented indent v ++ rest)) =
      indented indent v ++ rest := by
  obtain ⟨c, cs, hv, hstart⟩ := h.start
  rw [hv]
  exact Json.skipSpace_newLine more (isSpace_of_startsValue hstart) (cs ++ rest)

theorem Readable.skipSpace_blank {v : Json} (h : Readable depth indent v) (rest : Text) :
    skipSpace (' ' :: (indented indent v ++ rest)) = indented indent v ++ rest := by
  obtain ⟨c, cs, hv, hstart⟩ := h.start
  rw [hv]
  exact skipSpace_cons (isSpace_of_startsValue hstart) (cs ++ rest)

theorem indentedItems_nil_append (indent : Nat) (rest : Text) :
    indentedItems indent [] ++ rest = newLine indent ++ ']' :: rest := by
  simp [indentedItems]

theorem indentedItems_cons_append (indent : Nat) (v : Json) (items : List Json) (rest : Text) :
    indentedItems indent (v :: items) ++ rest =
      ',' :: (newLine (indent + 2) ++ (indented (indent + 2) v ++
        (indentedItems indent items ++ rest))) := by
  simp [indentedItems]

theorem behind_indentedItems (indent : Nat) (items : List Json) (rest : Text) :
    Behind (indentedItems indent items ++ rest) := by
  cases items with
  | nil => exact .lineFeed _
  | cons v items => exact .comma _

/-- Reading the last element of an array. -/
theorem elements_last {cs left more : Text} {v : Json}
    (hread : value half fuel depth cs = ok (v, left)) (hclose : skipSpace left = ']' :: more)
    (done : List Json) :
    elements half (fuel + 1) depth done cs = ok (arr (done.reverse ++ [v]), more) := by
  rw [elements, hread]
  dsimp only
  rw [hclose, ← List.reverse_cons]
  rfl

/-- Reading an element of an array that is not the last. -/
theorem elements_next {cs left more : Text} {v : Json}
    (hread : value half fuel depth cs = ok (v, left)) (hcomma : skipSpace left = ',' :: more)
    (done : List Json) :
    elements half (fuel + 1) depth done cs =
      elements half fuel depth (v :: done) (skipSpace more) := by
  rw [elements, hread]
  dsimp only
  rw [hcomma]
  rfl

/-- The elements of an array are read in order, with fuel for every character. -/
theorem elements_indentedItems {v : Json} {items : List Json}
    (hread : ∀ w ∈ v :: items, Readable depth (indent + 2) w) (done : List Json)
    (hfuel : (indented (indent + 2) v ++ indentedItems indent items).length ≤ fuel) :
    elements half fuel depth done
        (indented (indent + 2) v ++ (indentedItems indent items ++ rest)) =
      ok (arr (done.reverse ++ rereadItems (v :: items)), rest) := by
  induction items generalizing v done fuel with
  | nil =>
    obtain ⟨hv, -⟩ := List.forall_mem_cons.1 hread
    simp only [List.length_append, indentedItems, List.length_cons, length_newLine] at hfuel
    obtain ⟨fuel, rfl⟩ : ∃ n, fuel = n + 1 := ⟨fuel - 1, by omega⟩
    refine elements_last (hv.read (by omega) (behind_indentedItems indent [] rest)) ?_ done
    rw [indentedItems_nil_append, skipSpace_newLine indent (by decide)]
  | cons w items ih =>
    obtain ⟨hv, hitems⟩ := List.forall_mem_cons.1 hread
    obtain ⟨hw, -⟩ := List.forall_mem_cons.1 hitems
    simp only [List.length_append, indentedItems, List.length_cons, length_newLine] at hfuel
    obtain ⟨fuel, rfl⟩ : ∃ n, fuel = n + 1 := ⟨fuel - 1, by omega⟩
    have hcomma : skipSpace (indentedItems indent (w :: items) ++ rest) =
        ',' :: (newLine (indent + 2) ++ (indented (indent + 2) w ++
          (indentedItems indent items ++ rest))) := by
      rw [indentedItems_cons_append]
      exact skipSpace_cons (by decide) _
    rw [elements_next (hv.read (by omega) (behind_indentedItems indent (w :: items) rest)) hcomma,
      hw.skipSpace_newLine, ih hitems (reread v :: done) (by rw [List.length_append]; omega)]
    simp [rereadItems]

theorem indentedMembers_nil_append (indent : Nat) (rest : Text) :
    indentedMembers indent [] ++ rest = newLine indent ++ '}' :: rest := by
  simp [indentedMembers]

theorem indentedMembers_cons_append (indent : Nat) (k : String) (v : Json)
    (members : List (String × Json)) (rest : Text) :
    indentedMembers indent ((k, v) :: members) ++ rest =
      ',' :: (newLine (indent + 2) ++ (quoted k ++ ':' :: ' ' :: (indented (indent + 2) v ++
        (indentedMembers indent members ++ rest)))) := by
  simp [indentedMembers]

theorem behind_indentedMembers (indent : Nat) (members : List (String × Json)) (rest : Text) :
    Behind (indentedMembers indent members ++ rest) := by
  cases members with
  | nil => exact .lineFeed _
  | cons m members => exact .comma _

/-- A member with a new name comes behind all others. -/
theorem put_eq_append {key : String} {members : List (String × Json)}
    (hkey : key ∉ members.map Prod.fst) (v : Json) :
    put key v members = members ++ [(key, v)] := by
  induction members with
  | nil => rfl
  | cons m members ih =>
    rw [List.map_cons, List.mem_cons, not_or] at hkey
    rw [put, if_neg (Ne.symm hkey.1), ih hkey.2]
    rfl

/-- The name of a member is not the name of one before it. -/
theorem key_not_mem {k : String} {v : Json} {done ms : List (String × Json)}
    (hnames : ((done ++ (k, v) :: ms).map Prod.fst).Nodup) : k ∉ done.map Prod.fst := by
  rw [List.map_append, List.nodup_append] at hnames
  exact fun hk => hnames.2.2 k hk k (by simp) rfl

theorem skipSpace_newLine_quoted (indent : Nat) (k : String) (rest : Text) :
    skipSpace (newLine indent ++ (quoted k ++ rest)) = quoted k ++ rest :=
  skipSpace_newLine indent (by decide) _

/-- Reading the last member of an object. -/
theorem members_last {cs left more : Text} {k : String} {v : Json}
    (hread : value half fuel depth (skipSpace cs) = ok (v, left))
    (hclose : skipSpace left = '}' :: more) (done : List (String × Json)) :
    members half (fuel + 1) depth done (quoted k ++ ':' :: cs) =
      ok (obj (put k v done), more) := by
  simp only [quoted_append, members, string_quoted, skipSpace_cons (c := ':') (by decide), hread,
    hclose]

/-- Reading a member of an object that is not the last. -/
theorem members_next {cs left more : Text} {k : String} {v : Json}
    (hread : value half fuel depth (skipSpace cs) = ok (v, left))
    (hcomma : skipSpace left = ',' :: more) (done : List (String × Json)) :
    members half (fuel + 1) depth done (quoted k ++ ':' :: cs) =
      members half fuel depth (put k v done) (skipSpace more) := by
  simp only [quoted_append, members, string_quoted, skipSpace_cons (c := ':') (by decide), hread,
    hcomma]

/-- The members of an object are read in order, with fuel for every character. -/
theorem members_indentedMembers {k : String} {v : Json} {ms : List (String × Json)}
    (hread : ∀ m ∈ (k, v) :: ms, Readable depth (indent + 2) m.2) (done : List (String × Json))
    (hnames : ((done ++ (k, v) :: ms).map Prod.fst).Nodup)
    (hfuel : (quoted k ++ ':' :: ' ' :: (indented (indent + 2) v ++
      indentedMembers indent ms)).length ≤ fuel) :
    members half fuel depth done (quoted k ++ ':' :: ' ' :: (indented (indent + 2) v ++
      (indentedMembers indent ms ++ rest))) =
        ok (obj (done ++ rereadMembers ((k, v) :: ms)), rest) := by
  induction ms generalizing k v done fuel with
  | nil =>
    have hv : Readable depth (indent + 2) v := hread (k, v) List.mem_cons_self
    simp only [List.length_append, indentedMembers, List.length_cons, length_newLine] at hfuel
    obtain ⟨fuel, rfl⟩ : ∃ n, fuel = n + 1 := ⟨fuel - 1, by omega⟩
    have hvalue : value half fuel depth (skipSpace (' ' :: (indented (indent + 2) v ++
        (indentedMembers indent [] ++ rest)))) =
          ok (reread v, indentedMembers indent [] ++ rest) := by
      rw [hv.skipSpace_blank]
      exact hv.read (by omega) (behind_indentedMembers indent [] rest)
    rw [rereadMembers, rereadMembers, ← put_eq_append (key_not_mem hnames)]
    refine members_last hvalue ?_ done
    rw [indentedMembers_nil_append, skipSpace_newLine indent (by decide)]
  | cons m ms ih =>
    obtain ⟨l, w⟩ := m
    have hv : Readable depth (indent + 2) v := hread (k, v) List.mem_cons_self
    have hms := (List.forall_mem_cons.1 hread).2
    simp only [List.length_append, indentedMembers, List.length_cons, length_newLine] at hfuel
    obtain ⟨fuel, rfl⟩ : ∃ n, fuel = n + 1 := ⟨fuel - 1, by omega⟩
    have hvalue : value half fuel depth (skipSpace (' ' :: (indented (indent + 2) v ++
        (indentedMembers indent ((l, w) :: ms) ++ rest)))) =
          ok (reread v, indentedMembers indent ((l, w) :: ms) ++ rest) := by
      rw [hv.skipSpace_blank]
      exact hv.read (by omega) (behind_indentedMembers indent ((l, w) :: ms) rest)
    have hcomma : skipSpace (indentedMembers indent ((l, w) :: ms) ++ rest) =
        ',' :: (newLine (indent + 2) ++ (quoted l ++ ':' :: ' ' :: (indented (indent + 2) w ++
          (indentedMembers indent ms ++ rest)))) := by
      rw [indentedMembers_cons_append]
      exact skipSpace_cons (by decide) _
    rw [members_next hvalue hcomma, put_eq_append (key_not_mem hnames), skipSpace_newLine_quoted,
      ih hms]
    · simp [rereadMembers]
    · simpa using hnames
    · simp only [List.length_append, List.length_cons]
      omega

/-! ## Values -/

/-- Values whose objects name each member once, and in which nothing is nested more deeply than
    `depth`. Whole numbers are left out; no record of a store holds one. -/
inductive Restorable : Nat → Json → Prop
  | null {depth : Nat} : Restorable depth null
  | bool {depth : Nat} (b : Bool) : Restorable depth (bool b)
  | real {depth : Nat} (x : Float) : Restorable depth (real x)
  | str {depth : Nat} (s : String) : Restorable depth (str s)
  | arr {depth : Nat} {items : List Json} (h : ∀ v ∈ items, Restorable depth v) :
      Restorable (depth + 1) (arr items)
  | obj {depth : Nat} {members : List (String × Json)} (hnames : (members.map Prod.fst).Nodup)
      (h : ∀ m ∈ members, Restorable depth m.2) : Restorable (depth + 1) (obj members)

/-- What is written as a word or a number is read back. -/
theorem readable_of_atom {v : Json} (hindented : indented indent v = scalar v)
    (hread : atom (scalar v) = ok (reread v, [])) : Readable depth indent v := by
  constructor
  · obtain ⟨c, more, heq, hstart⟩ := exists_startsAtom hread
    refine ⟨c, more, hindented.trans heq, ?_⟩
    simp [startsValue, hstart]
  · intro half fuel rest hfuel hrest
    obtain ⟨fuel, rfl⟩ : ∃ n, fuel = n + 1 := ⟨fuel - 1, by omega⟩
    rw [hindented]
    exact value_of_atom (hrest.atom hread)

theorem readable_str (s : String) : Readable depth indent (str s) := by
  constructor
  · exact ⟨'"', _, rfl, by decide⟩
  · intro half fuel rest hfuel hrest
    obtain ⟨fuel, rfl⟩ : ∃ n, fuel = n + 1 := ⟨fuel - 1, by omega⟩
    rw [indented, scalar, quoted_append, value, string_quoted]
    all_goals simp [reread]

/-- Reading an array that is not empty. -/
theorem value_arr {cs more : Text} (hopen : skipSpace cs = more) (hclose : more.head? ≠ some ']') :
    value half (fuel + 1) (depth + 1) ('[' :: cs) = elements half fuel depth [] more := by
  rw [value, if_neg (by simp), hopen]
  split
  · simp at hclose
  · rfl

/-- Reading an object that is not empty. -/
theorem value_obj {cs more : Text} (hopen : skipSpace cs = more) (hclose : more.head? ≠ some '}') :
    value half (fuel + 1) (depth + 1) ('{' :: cs) = members half fuel depth [] more := by
  rw [value, if_neg (by simp), hopen]
  split
  · simp at hclose
  · rfl

theorem readable_arr {items : List Json} (h : ∀ v ∈ items, Readable depth (indent + 2) v) :
    Readable (depth + 1) indent (arr items) := by
  cases items with
  | nil =>
    refine ⟨⟨'[', _, rfl, by decide⟩, fun {half fuel rest} hfuel _ => ?_⟩
    obtain ⟨fuel, rfl⟩ : ∃ n, fuel = n + 1 := ⟨fuel - 1, by omega⟩
    change value half (fuel + 1) (depth + 1) ('[' :: ']' :: rest) = _
    rw [value, if_neg (by simp), skipSpace_cons (by decide)]
    rfl
  | cons v items =>
    refine ⟨⟨'[', _, rfl, by decide⟩, fun {half fuel rest} hfuel _ => ?_⟩
    obtain ⟨hv, -⟩ := List.forall_mem_cons.1 h
    obtain ⟨c, cs, hstart, hc⟩ := hv.start
    obtain ⟨fuel, rfl⟩ : ∃ n, fuel = n + 1 := ⟨fuel - 1, by omega⟩
    simp only [indented, List.length_append, List.length_cons, length_newLine] at hfuel
    have htext : indented indent (arr (v :: items)) ++ rest =
        '[' :: (newLine (indent + 2) ++ (indented (indent + 2) v ++
          (indentedItems indent items ++ rest))) := by
      simp [indented]
    have hclose : (indented (indent + 2) v ++ (indentedItems indent items ++ rest)).head? ≠
        some ']' := by
      rw [hstart]
      simpa using ne_of_kind hc (by decide)
    rw [htext, value_arr (hv.skipSpace_newLine _ _) hclose, elements_indentedItems h]
    · rfl
    · rw [List.length_append]
      omega

theorem readable_obj {ms : List (String × Json)} (hnames : (ms.map Prod.fst).Nodup)
    (h : ∀ m ∈ ms, Readable depth (indent + 2) m.2) :
    Readable (depth + 1) indent (obj ms) := by
  cases ms with
  | nil =>
    refine ⟨⟨'{', _, rfl, by decide⟩, fun {half fuel rest} hfuel _ => ?_⟩
    obtain ⟨fuel, rfl⟩ : ∃ n, fuel = n + 1 := ⟨fuel - 1, by omega⟩
    change value half (fuel + 1) (depth + 1) ('{' :: '}' :: rest) = _
    rw [value, if_neg (by simp), skipSpace_cons (by decide)]
    rfl
  | cons m ms =>
    obtain ⟨k, v⟩ := m
    refine ⟨⟨'{', _, rfl, by decide⟩, fun {half fuel rest} hfuel _ => ?_⟩
    obtain ⟨fuel, rfl⟩ : ∃ n, fuel = n + 1 := ⟨fuel - 1, by omega⟩
    simp only [indented, List.length_append, List.length_cons, length_newLine] at hfuel
    have htext : indented indent (obj ((k, v) :: ms)) ++ rest =
        '{' :: (newLine (indent + 2) ++ (quoted k ++ ':' :: ' ' :: (indented (indent + 2) v ++
          (indentedMembers indent ms ++ rest)))) := by
      simp [indented]
    rw [htext, value_obj (skipSpace_newLine_quoted _ _ _) (by simp [quoted]),
      members_indentedMembers h]
    · rfl
    · exact hnames
    · simp only [List.length_append, List.length_cons]
      omega

/-- Every restorable value is read back from its indented text. -/
theorem Restorable.readable {v : Json} (h : Restorable depth v) (indent : Nat) :
    Readable depth indent v := by
  induction h generalizing indent with
  | null => exact readable_of_atom rfl rfl
  | bool b =>
    cases b with
    | false => exact readable_of_atom rfl rfl
    | true => exact readable_of_atom rfl rfl
  | real x => exact readable_of_atom rfl (atom_write x)
  | str s => exact readable_str s
  | arr _ ih => exact readable_arr fun v hv => ih v hv (indent + 2)
  | obj hnames _ ih => exact readable_obj hnames fun m hm => ih m hm (indent + 2)

/-- A text over several lines is read as the value that was written, but for its doubles, if
nothing in it is nested more deeply than the reader follows. -/
theorem parse_pretty (r : Reading) {v : Json} (h : Restorable r.depth v) :
    parse (pretty v) r = ok (reread v) := by
  have hreadable := h.readable 0
  obtain ⟨c, cs, hstart, hc⟩ := hreadable.start
  have hskip : skipSpace (pretty v) = pretty v := by
    rw [pretty, hstart]
    exact skipSpace_cons (isSpace_of_startsValue hc) cs
  have hread : value r.half (2 * (pretty v).length + 1) r.depth (pretty v ++ []) =
      ok (reread v, []) :=
    hreadable.read (by rw [pretty]; omega) .nil
  rw [List.append_nil] at hread
  rw [parse]
  · rw [hskip, hread]
    rfl
  · intro tail heq
    rw [pretty, hstart] at heq
    exact ne_of_kind hc (by decide) (List.cons.inj heq).1

end Json

end Devicetree
