-- SUMMARY: Options and arguments are read from the words of a line, however they are arranged on it.
import Devicetree.Command.Options
import Mathlib.Data.List.Forall2

/-!
# Lines

Options and arguments may be mixed on a line. What is read of it are the options in their order
and the arguments in theirs, so the arrangement says nothing. The switches of a filter are read
alike by every command that takes them.
-/

namespace Devicetree

open Except (ok error)

/-- Options, each of one word or more, and arguments as the words of a line: both in their order
    and mixed at will. Behind two dashes stand arguments only, and an argument that looks like
    an option stands nowhere else. -/
inductive Arranged : (options : List (List Text)) → (arguments words : List Text) → Prop
  | nil : Arranged [] [] []
  | option (o : List Text) {os : List (List Text)} {as ws : List Text} (h : Arranged os as ws) :
    Arranged (o :: os) as (o ++ ws)
  | argument {a : Text} {os : List (List Text)} {as ws : List Text}
      (plain : Grammar.isOptionWord a = false) (h : Arranged os as ws) :
    Arranged os (a :: as) (a :: ws)
  | dashes (as : List Text) : Arranged [] as (['-', '-'] :: as)

/-! ## Reading words -/

namespace Grammar

variable {κ : Type} {g : Grammar κ}

/-- Words are read as some options, whatever stands behind them. -/
def Reads (g : Grammar κ) (words : List Text) (given : List (κ × Given)) : Prop :=
  ∀ rest, g.readWords none (words ++ rest) =
    (g.readWords none rest).map fun line => { line with given := given ++ line.given }

theorem readWords_option {word : Text} (hword : isOptionWord word) (hdashes : word ≠ ['-', '-'])
    {reading : Reading κ} (hread : g.readWord word = ok reading) (words : List Text) :
    g.readWords none (word :: words) = (g.readWords reading.wanting words).map fun line =>
      { line with given := reading.given ++ line.given } := by
  rw [readWords, if_neg hdashes, if_pos hword, hread]
  dsimp only [bind, Except.bind]
  cases g.readWords reading.wanting words with
  | error fault => rfl
  | ok line => rfl

/-- An option that takes no value. -/
theorem Reads.word {word : Text} (hword : isOptionWord word) (hdashes : word ≠ ['-', '-'])
    {given : List (κ × Given)} (hread : g.readWord word = ok ⟨given, none⟩) :
    g.Reads [word] given :=
  fun rest => readWords_option hword hdashes hread rest

/-- An option whose value is the next word. -/
theorem Reads.value {word : Text} (hword : isOptionWord word) (hdashes : word ≠ ['-', '-'])
    {s : Spelling κ} (hread : g.readWord word = ok ⟨[], some s⟩) (t : Text) :
    g.Reads [word, t] [(s.key, .value t)] := by
  intro rest
  rw [List.cons_append, readWords_option hword hdashes hread]
  dsimp only [List.cons_append, List.nil_append]
  rw [readWords]
  cases g.readWords none rest with
  | error fault => rfl
  | ok line => rfl

theorem Reads.nil : g.Reads [] [] := by
  intro rest
  rw [List.nil_append]
  cases g.readWords none rest with
  | error fault => rfl
  | ok line => rfl

/-- However options and arguments are arranged, each is read in its order. -/
theorem readWords_of_arranged (hgroup : g.isGroup = false) {options : List (List Text)}
    {givens : List (List (κ × Given))} {arguments words : List Text}
    (hread : List.Forall₂ g.Reads options givens) (h : Arranged options arguments words) :
    g.readWords none words = ok ⟨givens.flatten, arguments⟩ := by
  induction h generalizing givens with
  | nil =>
    cases hread
    rfl
  | option o h ih =>
    cases hread with
    | cons ho hos =>
      rw [ho, ih hos]
      rfl
  | @argument a os as ws hplain h ih =>
    have hdashes : a ≠ ['-', '-'] := by
      rintro rfl
      cases hplain
    rw [readWords, if_neg hdashes, hplain, hgroup, ih hread]
    rfl
  | dashes as =>
    cases hread
    rfl

/-- The words of a group are read up to the name of a command, which takes all behind it. -/
theorem readWords_of_command (hgroup : g.isGroup) {options : List Text}
    {given : List (κ × Given)} (hread : g.Reads options given) {name : Text}
    (hname : isOptionWord name = false) (words : List Text) :
    g.readWords none (options ++ name :: words) = ok ⟨given, name :: words⟩ := by
  have hdashes : name ≠ ['-', '-'] := by
    rintro rfl
    cases hname
  rw [hread, readWords, if_neg hdashes, hname, if_pos hgroup]
  simp [Except.map]

end Grammar

/-! ## What counts -/

namespace CommandLine

variable {κ : Type} {line : CommandLine κ}

/-- A line without options that interrupt is not interrupted. -/
theorem interruption?_eq_none (h : ∀ m ∈ line.given, m.2 ≠ .interruption) :
    line.interruption? = none := by
  rw [interruption?, List.find?_eq_none.2 fun m hm => by simpa using h m hm]
  rfl

variable [DecidableEq κ] {key : κ} {t : Text}

/-- What counts for an option was given for it. -/
theorem mem_given_of_last? {given : Given} (h : line.last? key = some given) :
    (key, given) ∈ line.given := by
  rw [last?, List.lookup_eq_some_iff] at h
  obtain ⟨before, after, hgiven, -⟩ := h
  refine List.mem_reverse.1 ?_
  rw [hgiven]
  exact List.mem_append_right _ List.mem_cons_self

theorem last?_eq_none (h : ∀ m ∈ line.given, m.1 ≠ key) : line.last? key = none := by
  cases hlast : line.last? key with
  | none => rfl
  | some given => exact absurd rfl (h _ (mem_given_of_last? hlast))

theorem isOn_eq_false (h : ∀ m ∈ line.given, m.1 ≠ key) : line.isOn key = false := by
  rw [isOn, last?_eq_none h]
  rfl

/-- The option that comes last counts. -/
theorem last?_concat (given : List (κ × Given)) (key : κ) (g : Given) (arguments : List Text) :
    (CommandLine.mk (given ++ [(key, g)]) arguments).last? key = some g := by
  simp [last?]

theorem mem_given_of_value? (h : line.value? key = some t) :
    (key, .value t) ∈ line.given := by
  rw [value?] at h
  split at h
  · cases h
    exact mem_given_of_last? ‹_›
  · cases h

theorem mem_keys_of_value? (h : line.value? key = some t) : key ∈ line.keys := by
  rw [keys, List.mem_eraseDups]
  exact List.mem_map_of_mem (mem_given_of_value? h)

@[simp] theorem withDefaults_nil (line : CommandLine κ) : line.withDefaults [] = line := by
  simp [withDefaults]

end CommandLine

/-! ## The switches of a filter -/

namespace FilterSwitch

/-- The words that turn the switches of a filter on and off. -/
def words : List Text :=
  (spellings id).map fun s => s.text.toList

/-- What a word says about the switches of a filter. -/
def said (word : Text) : List (FilterSwitch × Given) :=
  match (spellings id).find? fun s => s.text.toList == word with
  | some s => (Grammar.plainReading s).given
  | none => []

/-- A word switches something on or off and says nothing else. -/
theorem on_or_off_of_mem_said {word : Text} {m : FilterSwitch × Given} (h : m ∈ said word) :
    m.2 = .on ∨ m.2 = .off := by
  have hspellings : ∀ s ∈ spellings (κ := FilterSwitch) id, ∀ m ∈ (Grammar.plainReading s).given,
      m.2 = .on ∨ m.2 = .off := by
    decide
  rw [said] at h
  split at h
  · exact hspellings _ (List.mem_of_find?_eq_some ‹_›) m h
  · cases h

/-- The filter that words ask for. -/
def asked (words : List Text) : Filter :=
  filter id ⟨words.flatMap said, []⟩

variable {κ : Type} {key : FilterSwitch → κ} {flags : List Text}

/-- What words give for the switches of a filter, as options with their own keys. -/
def given (key : FilterSwitch → κ) (flags : List Text) : List (κ × Given) :=
  (flags.flatMap said).map (Prod.map key id)

theorem of_mem_given {m : κ × Given} (h : m ∈ given key flags) :
    (∃ s, m.1 = key s) ∧ (m.2 = .on ∨ m.2 = .off) := by
  obtain ⟨n, hn, rfl⟩ := List.mem_map.1 h
  obtain ⟨word, -, hsaid⟩ := List.mem_flatMap.1 hn
  exact ⟨⟨n.1, rfl⟩, on_or_off_of_mem_said hsaid⟩

/-- A grammar reads the words for the switches of a filter under keys of its own. -/
def Among (g : Grammar κ) (key : FilterSwitch → κ) : Prop :=
  ∀ w ∈ words, g.readWord w = ok ⟨(said w).map (Prod.map key id), none⟩

/-- Words for switches are read one by one. -/
theorem Among.reads {g : Grammar κ} (h : Among g key) (hflags : ∀ w ∈ flags, w ∈ words) :
    List.Forall₂ g.Reads (flags.map fun w => [w])
      (flags.map fun w => (said w).map (Prod.map key id)) := by
  have hword : ∀ w ∈ words, Grammar.isOptionWord w ∧ w ≠ ['-', '-'] := by
    decide
  rw [List.forall₂_map_left_iff, List.forall₂_map_right_iff, List.forall₂_same]
  intro w hw
  obtain ⟨hoption, hdashes⟩ := hword w (hflags w hw)
  exact .word hoption hdashes (h w (hflags w hw))

theorem flatten_said (key : FilterSwitch → κ) (flags : List Text) :
    (flags.map fun w => (said w).map (Prod.map key id)).flatten = given key flags := by
  rw [given, List.map_flatMap, List.flatMap_def]

variable [DecidableEq κ]

theorem lookup_map_key (hkey : Function.Injective key) (said : List (FilterSwitch × Given))
    (s : FilterSwitch) : (said.map (Prod.map key id)).lookup (key s) = said.lookup s := by
  induction said with
  | nil => rfl
  | cons m said ih =>
    obtain ⟨k, given⟩ := m
    rw [List.map_cons, Prod.map_apply, List.lookup_cons, List.lookup_cons, ih]
    by_cases hs : s = k
    · simp [hs]
    · have hne : (key s == key k) = false := by simpa using hkey.ne hs
      have hne' : (s == k) = false := by simpa using hs
      rw [hne, hne']

/-- The filter that a line asks for depends on what it says about switches only. -/
theorem filter_eq_asked (hkey : Function.Injective key) (flags : List Text)
    {more : List (κ × Given)} (hmore : ∀ m ∈ more, ∀ s, m.1 ≠ key s) (arguments : List Text) :
    filter key ⟨given key flags ++ more, arguments⟩ = asked flags := by
  have hlast : ∀ s, (CommandLine.mk (given key flags ++ more) arguments).last? (key s) =
      (CommandLine.mk (flags.flatMap said) []).last? s := by
    intro s
    have hnone : more.reverse.lookup (key s) = none := by
      rw [List.lookup_eq_none_iff]
      intro m hm
      simpa using Ne.symm (hmore m (List.mem_reverse.1 hm) s)
    rw [CommandLine.last?, CommandLine.last?, List.reverse_append, List.lookup_append, hnone,
      Option.none_or, given, ← List.map_reverse, lookup_map_key hkey]
  simp only [asked, filter, hlast, id]

end FilterSwitch

end Devicetree
