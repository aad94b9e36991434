-- SUMMARY: Where paths lead in a file tree, and what each change to a file tree leaves alone.
import Devicetree.Files.Tree

/-!
# File trees

A path leads through directories only, so it goes on leading to the same place however
files come and go, as long as no directory does. Each change to a tree sets or clears the
places that its paths stand for; these places can be told from the paths alone.
-/

namespace Devicetree

open Except (ok error)

/-! ## Paths without single dots -/

namespace Path

/-- No name of a path is a single dot. -/
def IsPlain (p : Path) : Prop :=
  ['.'] ∉ p.names

theorem isPlain_ofText (t : Text) : (ofText t).IsPlain := by
  intro h
  simpa using (List.mem_filter.1 h).2

theorem IsPlain.parent {p : Path} (hp : p.IsPlain) : p.parent.IsPlain :=
  fun h => hp (List.dropLast_subset _ h)

theorem IsPlain.last_ne_dot {p : Path} (hp : p.IsPlain) {names : List Text} {name : Text}
    (hnames : p.names = names ++ [name]) : name ≠ ['.'] := by
  rintro rfl
  exact hp (hnames ▸ List.mem_append_right _ (List.mem_singleton.2 rfl))

theorem place_eq_walk (here : Place) (p : Path) :
    p.place here = walk (FileTree.start here p.anchor) p.names := by
  obtain ⟨anchor, names⟩ := p
  cases anchor <;> rfl

theorem walk_append (place : Place) (names more : List Text) :
    walk place (names ++ more) = walk (walk place names) more := by
  induction names generalizing place with
  | nil => rfl
  | cons name names ih =>
    simp only [List.cons_append, walk]
    split
    · exact ih _
    · exact ih _

end Path

namespace FileTree

variable {t t' : FileTree} {here place q : Place} {names more : List Text} {p : Path}
  {octets : Octets}

/-! ## Contents of files -/

/-- The contents of the file at a place, if one stands there. -/
def contents? (t : FileTree) (q : Place) : Option Octets :=
  match t.find? q with
  | some (.file octets) => some octets
  | _ => none

theorem contents?_eq_some_iff : t.contents? q = some octets ↔ t.find? q = some (.file octets) := by
  rw [contents?]
  split
  · rename_i heq
    simp [heq]
  · rename_i hno
    constructor
    · intro h
      cases h
    · intro h
      exact absurd h (hno octets)

theorem contents?_congr (h : t'.find? q = t.find? q) : t'.contents? q = t.contents? q := by
  rw [contents?, contents?, h]

/-- A tree has all the directories of another one. -/
def Reaches (t t' : FileTree) : Prop :=
  ∀ q, t.find? q = some .directory → t'.find? q = some .directory

theorem Reaches.refl (t : FileTree) : t.Reaches t :=
  fun _ h => h

theorem Reaches.trans {t'' : FileTree} (h : t.Reaches t') (h' : t'.Reaches t'') : t.Reaches t'' :=
  fun q hq => h' q (h q hq)

/-- A place that holds no directory can be set. -/
theorem reaches_set (hq : t.find? q ≠ some .directory) (e : Entry) : t.Reaches (t.set q e) := by
  intro r hr
  have hne : r ≠ q := by
    rintro rfl
    exact hq hr
  rw [find?_set_of_ne t e hne, hr]

/-- Where a file is set, no directory is made. -/
theorem reaches_of_set_file (hq : q ≠ []) : (t.set q (.file octets)).Reaches t := by
  intro r hr
  by_cases heq : r = q
  · rw [heq, find?_set_self t _ hq] at hr
    cases hr
  · rwa [find?_set_of_ne t _ heq] at hr

/-- Everything in a tree stands in a directory. -/
def IsNested (t : FileTree) : Prop :=
  ∀ q e, t.find? q = some e → t.find? q.dropLast = some .directory

/-- It is enough to look at the places that entries are listed for. -/
theorem isNested_of_entries
    (h : ∀ p ∈ t.entries, t.find? p.1.dropLast = some .directory) : t.IsNested := by
  intro q e hq
  rw [find?] at hq
  split at hq
  · rename_i hroot
    rw [hroot, List.dropLast_nil, find?_root]
  · obtain ⟨before, after, hentries, -⟩ := List.lookup_eq_some_iff.1 hq
    exact h (q, e) (hentries ▸ List.mem_append_right _ List.mem_cons_self)

/-! ## Following names -/

/-- Where a name leads from a directory. -/
def enter (place : Place) (name : Text) : Place :=
  if name = ['.'] then place
  else if name = ['.', '.'] then place.dropLast
  else place ++ [name]

/-- The dots are never too long, so that every name is asked the same before it is followed. -/
theorem follow_cons (t : FileTree) (place : Place) (name : Text) (names : List Text) :
    t.follow place (name :: names) =
      match t.find? place with
      | none => error .absent
      | some (.file _) => error .notDirectory
      | some .directory =>
        if exceeds nameLimit name then error .nameTooLong
        else t.follow (enter place name) names := by
  rw [follow]
  cases t.find? place with
  | none => rfl
  | some e =>
    cases e with
    | file octets => rfl
    | directory =>
      by_cases hdot : name = ['.']
      · subst hdot
        rfl
      · by_cases hdots : name = ['.', '.']
        · subst hdots
          rfl
        · simp only [enter, if_neg hdot, if_neg hdots]

theorem follow_cons_eq_ok_iff {name : Text} :
    t.follow place (name :: names) = ok q ↔
      t.find? place = some .directory ∧ ¬ exceeds nameLimit name ∧
        t.follow (enter place name) names = ok q := by
  rw [follow_cons]
  split
  · simp [*]
  · simp [*]
  · split
    · simp [*]
    · simp [*]

theorem follow_append (t : FileTree) (place : Place) (names more : List Text) :
    t.follow place (names ++ more) =
      match t.follow place names with
      | error o => error o
      | ok r => t.follow r more := by
  induction names generalizing place with
  | nil => rfl
  | cons name names ih =>
    rw [List.cons_append, follow_cons, follow_cons]
    split
    · rfl
    · rfl
    · split
      · rfl
      · exact ih _

theorem follow_append_eq_ok_iff :
    t.follow place (names ++ more) = ok q ↔
      ∃ r, t.follow place names = ok r ∧ t.follow r more = ok q := by
  rw [follow_append]
  cases t.follow place names with
  | error o => simp
  | ok r => simp

/-- Names go on leading to the same place. -/
theorem follow_of_reaches (h : t.Reaches t') (hf : t.follow place names = ok q) :
    t'.follow place names = ok q := by
  induction names generalizing place with
  | nil => exact hf
  | cons name names ih =>
    obtain ⟨hdirectory, hshort, hrest⟩ := follow_cons_eq_ok_iff.1 hf
    exact follow_cons_eq_ok_iff.2 ⟨h _ hdirectory, hshort, ih hrest⟩

/-- Where names lead is seen from the names alone. -/
theorem follow_eq_walk (hdot : ['.'] ∉ names) (hf : t.follow place names = ok q) :
    q = Path.walk place names := by
  induction names generalizing place with
  | nil =>
    cases hf
    rfl
  | cons name names ih =>
    rw [List.mem_cons, not_or] at hdot
    obtain ⟨-, -, hrest⟩ := follow_cons_eq_ok_iff.1 hf
    rw [ih hdot.2 hrest, Path.walk, enter, if_neg (Ne.symm hdot.1)]
    split
    · rfl
    · rfl

/-- In two trees with the same directories names lead to the same place, or both times to
    nothing, or are both times too long. -/
theorem follow_of_sameDirectories
    (h : ∀ q, t.find? q = some .directory ↔ t'.find? q = some .directory) (place : Place)
    (names : List Text) :
    t'.follow place names = t.follow place names ∨
      ∃ o o', t.follow place names = error o ∧ t'.follow place names = error o' ∧
        o.meansNothing ∧ o'.meansNothing := by
  induction names generalizing place with
  | nil => exact .inl rfl
  | cons name names ih =>
    by_cases hdirectory : t.find? place = some .directory
    · rw [follow_cons, follow_cons, (h place).1 hdirectory, hdirectory]
      dsimp only
      split
      · exact .inl rfl
      · exact ih _
    · have hnothing : ∀ s : FileTree, s.find? place ≠ some .directory →
          ∃ o, s.follow place (name :: names) = error o ∧ o.meansNothing := by
        intro s hs
        rw [follow_cons]
        split
        · exact ⟨.absent, rfl, rfl⟩
        · exact ⟨.notDirectory, rfl, rfl⟩
        · exact absurd ‹_› hs
      obtain ⟨o, ho, hmeans⟩ := hnothing t hdirectory
      obtain ⟨o', ho', hmeans'⟩ := hnothing t' (mt (h place).2 hdirectory)
      exact .inr ⟨o, o', ho, ho', hmeans, hmeans'⟩

/-! ## What stands at a path -/

theorem locate_eq_ok_iff {e : Entry} :
    t.locate place names = ok (q, e) ↔ t.follow place names = ok q ∧ t.find? q = some e := by
  rw [locate]
  split
  · simp [*]
  · rename_i r hr
    rw [hr]
    split
    · rename_i hnone
      simp only [reduceCtorEq, Except.ok.injEq, false_iff, not_and]
      rintro rfl
      simp [hnone]
    · rename_i e' he'
      simp only [Except.ok.injEq, Prod.mk.injEq]
      constructor
      · rintro ⟨rfl, rfl⟩
        exact ⟨rfl, he'⟩
      · rintro ⟨rfl, he⟩
        exact ⟨rfl, Option.some.inj (he'.symm.trans he)⟩

theorem look_eq_ok_iff {e : Entry} :
    t.look here p = ok e ↔ ¬ exceeds pathLimit p.text ∧
      ∃ q, t.follow (start here p.anchor) p.names = ok q ∧ t.find? q = some e := by
  rw [look]
  split
  · simp [*]
  · rename_i hshort
    simp only [hshort, Except.map]
    constructor
    · intro h
      split at h
      · cases h
      · rename_i v hv
        cases h
        exact ⟨by simp, v.1, locate_eq_ok_iff.1 hv⟩
    · rintro ⟨-, q, hq⟩
      rw [locate_eq_ok_iff.2 hq]

/-- A directory that a path leads to stays where it is. -/
theorem look_directory_of_reaches (h : t.Reaches t') (hlook : t.look here p = ok .directory) :
    t'.look here p = ok .directory := by
  obtain ⟨hshort, q, hf, hq⟩ := look_eq_ok_iff.1 hlook
  exact look_eq_ok_iff.2 ⟨hshort, q, follow_of_reaches h hf, h q hq⟩

/-- A path with a last name stands for a place in a directory. -/
theorem target_eq_some_iff :
    t.target here p = ok (some q) ↔ ¬ exceeds pathLimit p.text ∧ ∃ names name place,
      p.names = names ++ [name] ∧ t.follow (start here p.anchor) names = ok place ∧
        t.find? place = some .directory ∧ name ≠ ['.', '.'] ∧ ¬ exceeds nameLimit name ∧
        q = place ++ [name] := by
  rw [target]
  split
  · simp [*]
  · rename_i hshort
    rcases List.eq_nil_or_concat p.names with hnil | ⟨names, name, hnames⟩
    · simp [hnil]
    · rw [List.concat_eq_append] at hnames
      simp only [hnames, List.getLast?_append, List.getLast?_singleton, Option.some_or,
        List.dropLast_concat]
      constructor
      · intro h
        split at h
        · cases h
        · cases h
        · rename_i r hr
          obtain ⟨hf, hdirectory⟩ := locate_eq_ok_iff.1 hr
          split at h
          · cases h
          · split at h
            · cases h
            · cases h
              exact ⟨hshort, names, name, r, rfl, hf, hdirectory, ‹_›, ‹_›, rfl⟩
      · rintro ⟨-, names', name', place, heq, hf, hdirectory, hdots, hname, rfl⟩
        obtain ⟨rfl, hname'⟩ := List.append_inj' heq rfl
        obtain rfl := List.singleton_inj.1 hname'
        rw [locate_eq_ok_iff.2 ⟨hf, hdirectory⟩]
        dsimp only
        rw [if_neg hdots, if_neg hname]

theorem target_of_reaches (h : t.Reaches t') (htarget : t.target here p = ok (some q)) :
    t'.target here p = ok (some q) := by
  obtain ⟨hshort, names, name, place, hnames, hf, hdirectory, hrest⟩ :=
    target_eq_some_iff.1 htarget
  exact target_eq_some_iff.2
    ⟨hshort, names, name, place, hnames, follow_of_reaches h hf, h _ hdirectory, hrest⟩

/-- The place that a path stands for is seen from the path alone. -/
theorem target_eq_place (hp : p.IsPlain) (htarget : t.target here p = ok (some q)) :
    q = p.place here := by
  obtain ⟨-, names, name, place, hnames, hf, -, hdots, -, rfl⟩ := target_eq_some_iff.1 htarget
  have hplain : ['.'] ∉ names := fun h => hp (hnames ▸ List.mem_append_left _ h)
  rw [Path.place_eq_walk, hnames, Path.walk_append, ← follow_eq_walk hplain hf, Path.walk,
    if_neg hdots, Path.walk]

theorem target_ne_nil (htarget : t.target here p = ok (some q)) : q ≠ [] := by
  obtain ⟨-, names, name, place, -, -, -, -, -, rfl⟩ := target_eq_some_iff.1 htarget
  simp

/-- What stands at a path is what stands at the place that it stands for. -/
theorem look_of_target (hp : p.IsPlain) (htarget : t.target here p = ok (some q)) {e : Entry}
    (hq : t.find? q = some e) : t.look here p = ok e := by
  obtain ⟨hshort, names, name, place, hnames, hf, hdirectory, hdots, hname, rfl⟩ :=
    target_eq_some_iff.1 htarget
  have hdot := hp.last_ne_dot hnames
  refine look_eq_ok_iff.2 ⟨hshort, place ++ [name], ?_, hq⟩
  rw [hnames, follow_append_eq_ok_iff]
  refine ⟨place, hf, follow_cons_eq_ok_iff.2 ⟨hdirectory, hname, ?_⟩⟩
  rw [enter, if_neg hdot, if_neg hdots, follow]

/-- In a tree in which everything stands in a directory, a path that leads to no directory has a
    last name to be set. -/
theorem target_of_follow (hnested : t.IsNested) (hshort : ¬ exceeds pathLimit p.text)
    {name : Text} (hnames : p.names = names ++ [name])
    (hf : t.follow (start here p.anchor) names = ok place)
    (hplace : t.find? place = some .directory) (hname : ¬ exceeds nameLimit name)
    (hno : t.look here p ≠ ok .directory) :
    t.target here p = ok (some (place ++ [name])) := by
  refine target_eq_some_iff.2 ⟨hshort, names, name, place, hnames, hf, hplace, ?_, hname, rfl⟩
  rintro rfl
  have hparent : t.find? place.dropLast = some .directory := hnested place _ hplace
  refine hno (look_eq_ok_iff.2 ⟨hshort, place.dropLast, ?_, hparent⟩)
  rw [hnames, follow_append_eq_ok_iff]
  exact ⟨place, hf, follow_cons_eq_ok_iff.2 ⟨hplace, hname, rfl⟩⟩

/-- A file that stands at a path can be set there. -/
theorem target_of_look_file (hnested : t.IsNested) (hplain : p.IsPlain) (hne : p.names ≠ [])
    (hlook : t.look here p = ok (.file octets)) :
    ∃ b, t.target here p = ok (some b) ∧ t.find? b = some (.file octets) := by
  obtain ⟨hshort, q, hf, hq⟩ := look_eq_ok_iff.1 hlook
  obtain ⟨names, name, hnames⟩ := (List.eq_nil_or_concat p.names).resolve_left hne
  rw [List.concat_eq_append] at hnames
  rw [hnames, follow_append_eq_ok_iff] at hf
  obtain ⟨place, hplace, hlast⟩ := hf
  obtain ⟨hdirectory, hname, hlast⟩ := follow_cons_eq_ok_iff.1 hlast
  refine ⟨place ++ [name], target_of_follow hnested hshort hnames hplace hdirectory hname ?_, ?_⟩
  · simp [hlook]
  · have hdots : name ≠ ['.', '.'] := by
      rintro rfl
      cases hlast
      rw [enter, if_neg (by decide), if_pos rfl, hnested place _ hdirectory] at hq
      cases hq
    rw [enter, if_neg (hplain.last_ne_dot hnames), if_neg hdots] at hlast
    cases hlast
    exact hq

/-- What is missing in a directory can be set there. -/
theorem target_of_look_nothing (hnested : t.IsNested) (hplain : p.IsPlain) {o : Obstacle}
    (hlook : t.look here p = error o) (hnothing : o.meansNothing)
    (hparent : t.look here p.parent = ok .directory) :
    ∃ b, t.target here p = ok (some b) ∧ t.find? b = none := by
  obtain ⟨-, place, hf, hdirectory⟩ := look_eq_ok_iff.1 hparent
  have hlong : o ≠ .nameTooLong := by
    rintro rfl
    cases hnothing
  rcases List.eq_nil_or_concat p.names with hnil | ⟨names, name, hnames⟩
  · have hself : p.parent = p := by rw [Path.parent, hnil, List.dropLast_nil, ← hnil]
    rw [hself, hlook] at hparent
    cases hparent
  · rw [List.concat_eq_append] at hnames
    rw [Path.parent, hnames, List.dropLast_concat] at hf
    have hshort : ¬ exceeds pathLimit p.text := by
      intro hexceeds
      rw [look, if_pos hexceeds] at hlook
      exact hlong (Except.error.inj hlook).symm
    have hname : ¬ exceeds nameLimit name := by
      intro hexceeds
      rw [look, if_neg hshort, locate, hnames, follow_append, hf] at hlook
      simp only [follow_cons, hdirectory, hexceeds, if_true] at hlook
      exact hlong (Except.error.inj hlook).symm
    have htarget := target_of_follow hnested hshort hnames hf hdirectory hname (by simp [hlook])
    refine ⟨_, htarget, Option.eq_none_iff_forall_ne_some.2 fun e he => ?_⟩
    rw [look_of_target hplain htarget he] at hlook
    cases hlook

/-! ## Changes -/

theorem write_eq_ok_iff :
    t.write here p octets = ok t' ↔ ∃ q, t.target here p = ok (some q) ∧
      t.find? q ≠ some .directory ∧ t' = t.set q (.file octets) := by
  rw [write]
  split
  · simp [*]
  · simp [*]
  · rename_i q hq
    rw [hq]
    split
    · rename_i hdirectory
      simp [hdirectory]
    · rename_i hno
      simp only [Except.ok.injEq, Option.some.injEq]
      constructor
      · rintro rfl
        exact ⟨q, rfl, hno, rfl⟩
      · rintro ⟨r, rfl, -, rfl⟩
        rfl

theorem makeDirectory_eq_ok_iff :
    t.makeDirectory here p = ok t' ↔ ∃ q, t.target here p = ok (some q) ∧
      t.find? q = none ∧ t' = t.set q .directory := by
  rw [makeDirectory]
  split
  · simp [*]
  · simp [*]
  · rename_i q hq
    rw [hq]
    split
    · rename_i hsome
      simp [hsome]
    · rename_i hnone
      simp only [Except.ok.injEq, Option.some.injEq]
      constructor
      · rintro rfl
        exact ⟨q, rfl, hnone, rfl⟩
      · rintro ⟨r, rfl, -, rfl⟩
        rfl

/-- A directory that is there cannot be made, and nothing around it is missing. -/
theorem makeDirectory_of_look (hp : p.IsPlain) (hlook : t.look here p = ok .directory) :
    ∃ o, t.makeDirectory here p = error o ∧ o ≠ .absent := by
  obtain ⟨hshort, q, hf, hq⟩ := look_eq_ok_iff.1 hlook
  rw [makeDirectory, target, if_neg hshort]
  rcases List.eq_nil_or_concat p.names with hnil | ⟨names, name, hnames⟩
  · rw [hnil]
    exact ⟨.alreadyThere, rfl, by decide⟩
  · rw [List.concat_eq_append] at hnames
    have hdot := hp.last_ne_dot hnames
    rw [hnames, follow_append_eq_ok_iff] at hf
    obtain ⟨place, hplace, hlast⟩ := hf
    obtain ⟨hdirectory, hname, hlast⟩ := follow_cons_eq_ok_iff.1 hlast
    rw [hnames, List.getLast?_append, List.getLast?_singleton, Option.some_or,
      List.dropLast_concat, locate_eq_ok_iff.2 ⟨hplace, hdirectory⟩]
    dsimp only
    by_cases hdots : name = ['.', '.']
    · rw [if_pos hdots]
      exact ⟨.alreadyThere, rfl, by decide⟩
    · rw [if_neg hdots, if_neg hname]
      rw [enter, if_neg hdot, if_neg hdots, follow] at hlast
      obtain rfl := Except.ok.inj hlast
      dsimp only
      rw [hq]
      exact ⟨.alreadyThere, rfl, by decide⟩

variable {source destination : Path} {a b : Place}

theorem moveFile_eq_ok (ha : t.target here source = ok (some a))
    (hb : t.target here destination = ok (some b)) (hfile : t.find? a = some (.file octets))
    (hfree : t.find? b ≠ some .directory) :
    t.moveFile here source destination = ok ((t.clear a).set b (.file octets)) := by
  rw [moveFile, ha, hb]
  dsimp only
  rw [hfile]
  cases hentry : t.find? b with
  | none => rfl
  | some e =>
    cases e with
    | file _ => rfl
    | directory => exact absurd hentry hfree

theorem of_moveFile_eq_ok (h : t.moveFile here source destination = ok t') :
    ∃ a b octets, t.target here source = ok (some a) ∧ t.target here destination = ok (some b) ∧
      t.find? a = some (.file octets) ∧ t.find? b ≠ some .directory ∧
      t' = (t.clear a).set b (.file octets) := by
  rw [moveFile] at h
  split at h
  · cases h
  · cases h
  · rename_i a b ha hb
    split at h
    · cases h
    · rename_i octets _ hfile hentry
      cases h
      exact ⟨a, b, octets, ha, hb, hfile, by simp [hentry], rfl⟩
    · rename_i octets hfile hentry
      cases h
      exact ⟨a, b, octets, ha, hb, hfile, by simp [hentry], rfl⟩
    · cases h
  · cases h

end FileTree

end Devicetree
