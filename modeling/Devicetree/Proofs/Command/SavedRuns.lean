-- SUMMARY: Running a saved comparison answers what comparing its two files answers, or breaks off.
import Devicetree.Proofs.Command.Invocations
import Devicetree.Proofs.Command.Sides

/-!
# Saved comparisons

A comparison is saved under a name and run by it, on files that are as they were. The run ends
as the comparison of the two files ends that is asked for with the same switches and the same
form of output, and both show the same but for how the files are called.

Two things keep the run from it. What is saved is the path of a file from the root, which may be
too long to be asked for though the path on the line is not, and then the run breaks off. And it
breaks off at a blob whose nodes find no room inside each other, for which a comparison has words.
-/

namespace Devicetree

open Except (ok error)

/-! ## Files that stay -/

namespace Disk

/-- Paths start in a directory that is there and has short names around it, and everything stands
in a directory. -/
structure IsSound (d : Disk) : Prop where
  proper : Place.IsProper d.here
  short : Place.IsShort d.here
  directory : d.tree.find? d.here = some .directory
  nested : d.tree.IsNested

/-- The text of a file that a line names, or why it cannot be loaded. -/
def sourceText (d : Disk) (side : Text) : Except LoadFault Text :=
  ((Source.load (Path.ofText side) : StateM Disk Loaded).run d).1.text

/-- The path to a file from the root is too long to be asked for. -/
def IsLong (d : Disk) (side : Text) : Prop :=
  FileTree.exceeds FileTree.pathLimit (d.rooted side).text

instance (d : Disk) (side : Text) : Decidable (d.IsLong side) :=
  inferInstanceAs (Decidable (_ = true))

variable {d d' : Disk} {side : Text} {octets : Octets}

theorem sourceText_eq (hread : d.tree.read d.here (Path.ofText side) = ok octets) :
    d.sourceText side = d.runtime.textOf (Path.ofText side) octets := by
  rw [sourceText, Source.run_load hread]

theorem IsSound.ofText_rooted (h : d.IsSound) (side : Text) :
    Path.ofText (d.rooted side).string.toList = d.rooted side :=
  Path.ofText_ofPlace (Path.isProper_place h.proper side)

/-- A file that a line names was saved under its path from the root, and another disk has kept it
and all directories. -/
structure Recalls (d d' : Disk) (side : Text) (stored : String) (octets : Octets) : Prop where
  sound : d.IsSound
  here : d'.here = d.here
  runtime : d'.runtime = d.runtime
  reaches : d.tree.Reaches d'.tree
  stored : stored = (d.rooted side).string
  before : d.tree.read d.here (Path.ofText side) = ok octets
  after : d'.tree.read d'.here (Path.ofText side) = ok octets

namespace Recalls

variable {stored : String} {t : Text}

theorem ofText_stored (h : Recalls d d' side stored octets) :
    Path.ofText stored.toList = d.rooted side := by
  rw [h.stored, h.sound.ofText_rooted]

theorem ending (h : Recalls d d' side stored octets) :
    (Path.ofText stored.toList).ending = (Path.ofText side).ending := by
  rw [h.ofText_stored]
  exact FileTree.ending_ofPlace h.sound.nested h.sound.directory
    (FileTree.read_eq_ok_iff.1 h.before)

/-- Nothing can be found out at a path that is too long. -/
theorem hides (h : Recalls d d' side stored octets) (hlong : d.IsLong side) :
    d'.Hides stored ⟨.nameTooLong, [d.rooted side]⟩ := by
  refine ⟨.nameTooLong, ?_, rfl, by rw [h.ofText_stored]⟩
  rw [h.ofText_stored]
  exact FileTree.look_of_exceeds hlong

/-- At any other path the file is there. -/
theorem has (h : Recalls d d' side stored octets) (hshort : ¬ d.IsLong side) :
    d'.Has stored octets := by
  have hafter := h.after
  rw [Has, h.ofText_stored]
  rw [h.here] at hafter ⊢
  exact FileTree.read_ofPlace h.sound.nested h.reaches h.sound.proper h.sound.short h.before hafter
    hshort

/-- It is loaded as it is under the path on the line. -/
theorem alike (h : Recalls d d' side stored octets) (hfits : d.sourceText side ≠ error .overflow) :
    Alike (d.sourceText side) (d'.runtime.textOf (Path.ofText stored.toList) octets) := by
  rw [sourceText_eq h.before] at hfits ⊢
  rw [h.runtime]
  exact Runtime.alike_textOf h.ending hfits

theorem loads (h : Recalls d d' side stored octets) (hshort : ¬ d.IsLong side)
    (htext : d.sourceText side = ok t) : d'.Loads stored t := by
  have halike := h.alike (by simp [htext])
  rw [htext] at halike
  exact ⟨octets, h.has hshort, halike.eq_ok⟩

theorem overflows (h : Recalls d d' side stored octets) (hshort : ¬ d.IsLong side)
    (hdeep : d.sourceText side = error .overflow) : d'.Overflows stored := by
  rw [sourceText_eq h.before] at hdeep
  refine ⟨octets, h.has hshort, ?_⟩
  rw [h.runtime]
  exact Runtime.textOf_eq_overflow h.ending hdeep

/-- With more room the text is the same, if it is loaded at all. -/
theorem textOf_of_le (h : Recalls d d' side stored octets) {more : Runtime}
    (hmore : ∀ octets, d.runtime.nodes octets ≤ more.nodes octets)
    (hfits : d.sourceText side ≠ error .overflow) :
    more.textOf (Path.ofText side) octets = d.sourceText side := by
  rw [sourceText_eq h.before] at hfits ⊢
  exact Runtime.textOf_of_le hfits (hmore octets)

end Recalls

end Disk

/-- What breaks the run of a saved comparison off though its files are there: a path from the root
that is too long, or else a blob that is come to and whose nodes find no room inside each other. -/
inductive Hinders (d : Disk) (left right : Text) : Breakdown → Prop
  | leftPath (long : d.IsLong left) :
      Hinders d left right (.obstructed ⟨.nameTooLong, [d.rooted left]⟩)
  | rightPath (short : ¬ d.IsLong left) (long : d.IsLong right) :
      Hinders d left right (.obstructed ⟨.nameTooLong, [d.rooted right]⟩)
  | leftDeep (short : ¬ d.IsLong left) (short' : ¬ d.IsLong right)
      (deep : d.sourceText left = error .overflow) : Hinders d left right (.tooDeep .node)
  | rightDeep {t : Text} (short : ¬ d.IsLong left) (short' : ¬ d.IsLong right)
      (text : d.sourceText left = ok t) (deep : d.sourceText right = error .overflow) :
      Hinders d left right (.tooDeep .node)

section

variable {d d' : Disk} {left right : Text} {p : Profile} {octets contents : Octets}

theorem Hinders.breaks {breakdown : Breakdown} (h : Hinders d left right breakdown)
    (hleft : d.Recalls d' left p.left octets) (hright : d.Recalls d' right p.right contents) :
    p.Breaks d' breakdown := by
  cases h with
  | leftPath long => exact .leftHidden (hleft.hides long)
  | rightPath short long => exact .rightHidden (hleft.has short) (hright.hides long)
  | leftDeep short short' deep =>
    exact .leftDeep (hleft.overflows short deep) (hright.has short')
  | rightDeep short short' text deep =>
    exact .rightDeep (hleft.loads short text) (hright.overflows short' deep)

/-- If a command ends as another one ends unless something breaks it off, then the codes differ
only where something does, and not if the other one has the code of a program that breaks off. -/
theorem Ending.code_eq_iff {breaks : Breakdown → Prop} {e direct : Ending}
    (hbreaks : ∀ breakdown, breaks breakdown → e = .broken breakdown)
    (hgoes : (∀ breakdown, ¬ breaks breakdown) → e = direct) :
    e.code = direct.code ↔ (∀ breakdown, ¬ breaks breakdown) ∨ direct.code = 1 := by
  by_cases hfree : ∀ breakdown, ¬ breaks breakdown
  · exact ⟨fun _ => .inl hfree, fun _ => congrArg Ending.code (hgoes hfree)⟩
  · obtain ⟨breakdown, hbreakdown⟩ := Classical.not_forall_not.1 hfree
    rw [hbreaks breakdown hbreakdown]
    exact ⟨fun hcode => .inr hcode.symm, fun h => (h.resolve_left hfree).symm⟩

/-- Nothing is in the way of a run. -/
structure Unhindered (d : Disk) (left right : Text) : Prop where
  left_short : ¬ d.IsLong left
  right_short : ¬ d.IsLong right
  left_fits : d.sourceText left ≠ error .overflow
  right_fits : ∀ t, d.sourceText left = ok t → d.sourceText right ≠ error .overflow

theorem unhindered_of_not_hinders (h : ∀ breakdown, ¬ Hinders d left right breakdown) :
    Unhindered d left right := by
  have hleft : ¬ d.IsLong left := fun hlong => h _ (.leftPath hlong)
  have hright : ¬ d.IsLong right := fun hlong => h _ (.rightPath hleft hlong)
  exact ⟨hleft, hright, fun hdeep => h _ (.leftDeep hleft hright hdeep),
    fun t ht hdeep => h _ (.rightDeep hleft hright ht hdeep)⟩

variable {more : Runtime} {showing : Showing} {compare compare' : Text → Text → Comparison}

/-- A run for which nothing is in the way ends as the comparison. -/
theorem Unhindered.ending_eq (h : Unhindered d left right)
    (hleft : d.Recalls d' left p.left octets) (hright : d.Recalls d' right p.right contents)
    (hmore : ∀ octets, d.runtime.nodes octets ≤ more.nodes octets)
    (hsame : ∀ l r, (compare' l r).identical = (compare l r).identical) :
    (answered LoadFault.outcome showing compare'
        (d'.runtime.textOf (Path.ofText p.left.toList) octets)
        (d'.runtime.textOf (Path.ofText p.right.toList) contents)).ending =
      (answered Compare.explain showing compare (more.textOf (Path.ofText left) octets)
        (more.textOf (Path.ofText right) contents)).ending := by
  rw [hleft.textOf_of_le hmore h.left_fits]
  refine ending_answered (hleft.alike h.left_fits) (fun t ht => ?_) hsame
  rw [hright.textOf_of_le hmore (h.right_fits t ht)]
  exact hright.alike (h.right_fits t ht)

/-- Then both show a comparison of the two texts, if these can be loaded. -/
theorem Unhindered.answered_eq (h : Unhindered d left right)
    (hleft : d.Recalls d' left p.left octets) (hright : d.Recalls d' right p.right contents)
    (hmore : ∀ octets, d.runtime.nodes octets ≤ more.nodes octets) {leftText rightText : Text}
    (hleftText : d.sourceText left = ok leftText)
    (hrightText : d.sourceText right = ok rightText) :
    answered LoadFault.outcome showing compare'
        (d'.runtime.textOf (Path.ofText p.left.toList) octets)
        (d'.runtime.textOf (Path.ofText p.right.toList) contents) =
      (compare' leftText rightText).outcome showing ∧
    answered Compare.explain showing compare (more.textOf (Path.ofText left) octets)
        (more.textOf (Path.ofText right) contents) =
      (compare leftText rightText).outcome showing := by
  have hleftAlike := hleft.alike h.left_fits
  have hrightAlike := hright.alike (h.right_fits leftText hleftText)
  rw [hleftText] at hleftAlike
  rw [hrightText] at hrightAlike
  rw [hleftAlike.eq_ok, hrightAlike.eq_ok, hleft.textOf_of_le hmore h.left_fits,
    hright.textOf_of_le hmore (h.right_fits leftText hleftText), hleftText, hrightText]
  exact ⟨rfl, rfl⟩

end

/-! ## Saving and running -/

namespace Program

open Profiles (storeWords storeAt)

variable {s : Surroundings} {store : Option Text} {d d' : Disk} {octets contents : Octets}
  {name left right : Text} {flags saveWords runWords compareWords : List Text} {form : String}

/-- What a line of the program that saves a comparison goes through if it ends well. -/
theorem of_outcome_save {saved : Outcome} (hflags : ∀ w ∈ flags, w ∈ FilterSwitch.words)
    (hwords : Arranged (flags.map fun w => [w]) [name, left, right] saveWords)
    (hsave : (outcome s ("profile".toList :: (storeWords store ++ "save".toList :: saveWords)) :
      StateM Disk Outcome).run d = (saved, d'))
    (hsaved : saved.ending = .exit 0) :
    Profiles.StoreAccepted s store d ∧ ValueKind.existingFile.Accepts d left ∧
      ValueKind.existingFile.Accepts d right ∧ ∃ autoRefresh p,
        d.exec (Store.add (storeAt s store) (String.ofList name) (String.ofList left)
          (String.ofList right) (FilterSwitch.asked flags) autoRefresh) = (ok p, d') := by
  rw [run_outcome_profile, Prod.mk.injEq] at hsave
  obtain ⟨rfl, hleft⟩ := hsave
  rcases Profiles.runGroup_cases (by decide : "save" ∈ Profiles.commands) s store saveWords d with
    ⟨haccepted, hrun⟩ | ⟨-, hfails⟩
  · rw [hrun] at hsaved hleft
    exact ⟨haccepted, Profiles.of_run_save hflags hwords (Prod.ext rfl hleft) hsaved⟩
  · exact absurd hsaved hfails

/-- A comparison that was saved is found under its name, and with it the paths from the root of
its two files. -/
theorem exists_recalls (s : Surroundings) (store : Option Text) (flags : List Text)
    {saved : Outcome} (hsound : d.IsSound) (hflags : ∀ w ∈ flags, w ∈ FilterSwitch.words)
    (hwords : Arranged (flags.map fun w => [w]) [name, left, right] saveWords)
    (hsave : (outcome s ("profile".toList :: (storeWords store ++ "save".toList :: saveWords)) :
      StateM Disk Outcome).run d = (saved, d'))
    (hsaved : saved.ending = .exit 0)
    (hid : ∀ ps, (d.exec (Store.load (storeAt s store))).1 = ok ps →
      ∀ p ∈ ps, p.id ≠ String.ofList name)
    (hkeptLeft : d'.tree.read d'.here (Path.ofText left) = d.tree.read d.here (Path.ofText left))
    (hkeptRight : d'.tree.read d'.here (Path.ofText right) =
      d.tree.read d.here (Path.ofText right)) :
    Profiles.StoreAccepted s store d' ∧ ∃ p octets contents,
      d'.exec (Store.get (storeAt s store) (String.ofList name)) = (ok p, d') ∧
        p.filter = FilterSwitch.asked flags ∧ d.Recalls d' left p.left octets ∧
          d.Recalls d' right p.right contents := by
  have hplain := Profiles.isPlain_storeAt s store
  obtain ⟨haccepted, hfileLeft, hfileRight, autoRefresh, p, hadd⟩ :=
    of_outcome_save hflags hwords hsave hsaved
  obtain ⟨⟨ps, hadds⟩, hname, hfilter, hpathLeft, hpathRight⟩ := Store.of_exec_add hplain hadd
  rw [String.toList_ofList] at hpathLeft hpathRight
  obtain ⟨hhere, hruntime, hreaches⟩ := hadds.kept hplain
  have hrecalls : ∀ (side : Text) (stored : String), ValueKind.existingFile.Accepts d side →
      d'.tree.read d'.here (Path.ofText side) = d.tree.read d.here (Path.ofText side) →
      stored = (d.rooted side).string → ∃ octets, d.Recalls d' side stored octets := by
    intro side stored hfile hkept hstored
    obtain ⟨octets, hlook⟩ := hfile.look_written
    have hread := FileTree.read_eq_ok_iff.2 (FileTree.look_ofText hlook)
    exact ⟨octets, hsound, hhere, hruntime, hreaches, hstored, hread, hkept.trans hread⟩
  obtain ⟨octets, hleft⟩ := hrecalls left p.left hfileLeft hkeptLeft hpathLeft
  obtain ⟨contents, hright⟩ := hrecalls right p.right hfileRight hkeptRight hpathRight
  refine ⟨haccepted.again (hadds.look hplain), p.reread, octets, contents, ?_, hfilter, hleft,
    hright⟩
  rw [← hname] at hid ⊢
  refine hadds.exec_get hplain (hid ps ?_)
  rw [Store.exec_load, hadds.loaded]

/-- What a line of the program that runs a saved comparison comes to. -/
theorem run_outcome_run (haccepted : Profiles.StoreAccepted s store d)
    (hform : form ∈ Form.names)
    (hwords : Arranged [["--format".toList, form.toList]] [name] runWords) :
    ((outcome s ("profile".toList :: (storeWords store ++ "run".toList :: runWords)) :
      StateM Disk Outcome).run d).1 =
      ((Profiles.run (storeAt s store) (String.ofList name) ⟨Form.ofName form, false, false⟩ :
        StateM Disk Outcome).run d).1.settleNotes false := by
  rw [run_outcome_profile]
  rcases Profiles.runGroup_cases (by decide : "run" ∈ Profiles.commands) s store runWords d with
    ⟨-, hrun⟩ | ⟨hfails, -⟩
  · rw [hrun, Profiles.run_runCommand_run hform hwords]
  · exact absurd haccepted hfails

/-- What a line of the program that compares two files answers. -/
theorem run_outcome_compare (hflags : ∀ w ∈ flags, w ∈ FilterSwitch.words)
    (hform : form ∈ Form.names)
    (hwords : Arranged ((flags.map fun w => [w]) ++ [["--format".toList, form.toList]])
      [left, right] compareWords)
    (hleft : left ≠ ['-']) (hright : right ≠ ['-'])
    (hacceptsLeft : ValueKind.source.Accepts d left)
    (hacceptsRight : ValueKind.source.Accepts d right)
    (hreadLeft : d.tree.read d.here (Path.ofText left) = ok octets)
    (hreadRight : d.tree.read d.here (Path.ofText right) = ok contents) :
    (outcome s ("compare".toList :: compareWords) : StateM Disk Outcome).run d =
      (answered Compare.explain ⟨Form.ofName form, false, false⟩
        (fun l r => .ofTexts (FilterSwitch.asked flags) 3 l r (String.ofList left)
          (String.ofList right))
        (d.runtime.textOf (Path.ofText left) octets)
        (d.runtime.textOf (Path.ofText right) contents), d) := by
  obtain ⟨notes, hanswer⟩ := Compare.run_sides hleft hright hreadLeft hreadRight s
    (FilterSwitch.asked flags) 3 ⟨Form.ofName form, false, false⟩
  rw [run_outcome_compare_eq, Compare.run_eq_sides hflags hform hwords hacceptsLeft hacceptsRight,
    hanswer, Outcome.settleNotes_noting notes (notes_answered Compare.notes_explain _ _ _ _)]

/-- Two files in one directory, beside a store with a profile. -/
def twoBoards : Disk where
  tree := ⟨[(["w".toList], .directory),
    (["w".toList, "l.dts".toList], .file (Utf8.encode "a = <0x01>;\n".toList)),
    (["w".toList, "r.dts".toList], .file (Utf8.encode "a = <2>; // one\n".toList)),
    (["w".toList, "p.json".toList], .file (Utf8.encode
      "\x7b\"profiles\": [\x7b\"id\": \"1\", \"name\": \"n\", \"left\": \"a\", \"right\": \"b\"\x7d]\x7d".toList))]⟩
  here := ["w".toList]
  identities n := ⟨String.ofList (Hex.padded 12 (n + 1)), 1700000000.5⟩
  issued := 0

theorem isSound_twoBoards : twoBoards.IsSound where
  proper := by
    intro name hname
    cases List.mem_singleton.1 hname
    exact ⟨by decide, by decide, by decide, by decide⟩
  short := by
    intro name hname
    cases List.mem_singleton.1 hname
    decide
  directory := by decide
  nested := FileTree.isNested_of_entries (by decide)

theorem sourceText_twoBoards :
    twoBoards.sourceText "l.dts".toList = ok "a = <0x01>;\n".toList ∧
      twoBoards.sourceText "../w/r.dts".toList = ok "a = <2>; // one\n".toList := by
  have hleft : twoBoards.tree.read twoBoards.here (Path.ofText "l.dts".toList) =
      ok (Utf8.encode "a = <0x01>;\n".toList) := by
    decide
  have hright : twoBoards.tree.read twoBoards.here (Path.ofText "../w/r.dts".toList) =
      ok (Utf8.encode "a = <2>; // one\n".toList) := by
    decide
  rw [Disk.sourceText_eq hleft, Disk.sourceText_eq hright]
  exact ⟨rfl, rfl⟩

theorem id_ne_twoBoards {ps : List Profile}
    (h : (twoBoards.exec (Store.load (Path.ofText "p.json".toList))).1 = ok ps) :
    ∀ p ∈ ps, p.id ≠ "m" := by
  have hids : ((twoBoards.exec (Store.load (Path.ofText "p.json".toList))).1.map
      (·.map Profile.id)).toOption = some ["1"] := by
    decide +kernel
  rw [h] at hids
  have hone : ps.map Profile.id = ["1"] := Option.some.inj hids
  intro p hp
  have hid : p.id ∈ ["1"] := hone ▸ List.mem_map_of_mem hp
  rw [List.mem_singleton.1 hid]
  decide

/-- What a line of the program comes to where the environment says nothing. -/
def answer (words : List String) (d : Disk) : Outcome × Disk :=
  (outcome ⟨[], [], false, false⟩ (words.map String.toList) : StateM Disk Outcome).run d

theorem not_hinders_twoBoards (breakdown : Breakdown) :
    ¬ Hinders twoBoards "l.dts".toList "../w/r.dts".toList breakdown := by
  obtain ⟨hleft, hright⟩ := sourceText_twoBoards
  intro h
  cases h with
  | leftPath long => exact absurd long (by decide)
  | rightPath short long => exact absurd long (by decide)
  | leftDeep short short' deep => cases hleft.symm.trans deep
  | rightDeep short short' text deep => cases hright.symm.trans deep

/-- Sixteen directories with long names inside each other, and a file in the last one, which is
where paths start. -/
def farBoard : Disk where
  tree :=
    let here : Place := List.replicate 16 (List.replicate 254 'x')
    ⟨(here ++ ["the-far-one.dts".toList], .file (Utf8.encode "a;\n".toList)) ::
      here.inits.map fun q => (q, .directory)⟩
  here := List.replicate 16 (List.replicate 254 'x')
  identities n := ⟨String.ofList (Hex.padded 12 (n + 1)), 1700000000.5⟩
  issued := 0

theorem isSound_farBoard : farBoard.IsSound where
  proper := by
    intro name hname
    obtain rfl := List.eq_of_mem_replicate hname
    exact ⟨by decide, by decide, by decide, by decide⟩
  short := by
    intro name hname
    obtain rfl := List.eq_of_mem_replicate hname
    decide +kernel
  directory := by decide +kernel
  nested := FileTree.isNested_of_entries (by decide +kernel)

end Program

end Devicetree
