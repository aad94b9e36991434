-- SUMMARY: What comparing two files answers, whether they are named on the line or in a profile.
import Devicetree.Command.Compare
import Devicetree.Command.Profiles
import Devicetree.Proofs.Blob.Trees
import Devicetree.Proofs.Files.Paths
import Devicetree.Proofs.Machine.Disks

/-!
# Answers

Two files that are there are compared in the same steps by both commands that compare: the
answer is the fault of the first side that has one, or else shows the comparison of the two
texts. Calling the files by other paths changes the wording of the answer, but neither how it
ends nor what is compared. The two commands differ in one fault: a blob whose nodes find no room
inside each other breaks one of them off and is worded by the other.
-/

namespace Devicetree

open Except (ok error)

/-- What is answered when two sides are loaded and then compared, with an answer to each fault. -/
def answered (explain : LoadFault → Outcome) (showing : Showing)
    (compare : Text → Text → Comparison) :
    Except LoadFault Text → Except LoadFault Text → Outcome
  | error fault, _ => explain fault
  | ok _, error fault => explain fault
  | ok left, ok right => (compare left right).outcome showing

/-- What the command that compares answers to a file that cannot be loaded. -/
def Compare.explain (fault : LoadFault) : Outcome :=
  (SideFault.load fault).outcome

/-! ## Notes -/

@[simp] theorem LoadFault.notes_outcome (fault : LoadFault) : fault.outcome.notes = [] := by
  cases fault with
  | _ => rfl

@[simp] theorem Compare.notes_explain (fault : LoadFault) : (explain fault).notes = [] := by
  cases fault with
  | _ => rfl

@[simp] theorem Comparison.notes_outcome (c : Comparison) (showing : Showing) :
    (c.outcome showing).notes = [] := by
  unfold Comparison.outcome
  dsimp only
  split
  · rfl
  · split
    · rfl
    · split
      · rfl
      · rfl

theorem notes_answered {explain : LoadFault → Outcome} (h : ∀ fault, (explain fault).notes = [])
    (showing : Showing) (compare : Text → Text → Comparison) (left right : Except LoadFault Text) :
    (answered explain showing compare left right).notes = [] := by
  cases left with
  | error fault => simp [answered, h]
  | ok l =>
    cases right with
    | error fault => simp [answered, h]
    | ok r => simp [answered]

/-- Notes that are not asked for leave no trace. -/
theorem Outcome.settleNotes_noting (notes : List Note) {o : Outcome} (h : o.notes = []) :
    (o.noting notes).settleNotes false = o := by
  obtain ⟨_, _, _, _⟩ := o
  cases h
  rfl

/-! ## Loading -/

variable {d : Disk} {p q : Path} {octets contents : Octets}

/-- Looking for a file leaves a disk as it is. -/
theorem Machine.run_isFile_eq (d : Disk) (p : Path) :
    (Machine.isFile p : StateM Disk _).run d =
      (match d.tree.look d.here p with
        | ok (.file _) => ok true
        | ok .directory => ok false
        | error o => if o.meansNothing then ok false else error ⟨o, [p]⟩, d) := by
  have hlook : (Machine.look p : StateM Disk _).run d =
      ((d.tree.look d.here p).map Disk.kindOf, d) :=
    rfl
  rw [Machine.isFile, Disk.run_bind_eq hlook]
  rcases d.tree.look d.here p with _ | _ | _ <;> rfl

/-- A file that is there is found. -/
theorem Machine.run_isFile (hread : d.tree.read d.here p = ok octets) :
    (Machine.isFile p : StateM Disk _).run d = (ok true, d) := by
  rw [run_isFile_eq, FileTree.read_eq_ok_iff.1 hread]

/-- The text of the octets at a path, with the room that a runtime leaves for them. -/
def Runtime.textOf (r : Runtime) (p : Path) (octets : Octets) : Except LoadFault Text :=
  Source.textOf (r.nodes octets) p octets

/-- A file that is there is loaded. -/
theorem Source.run_load (hread : d.tree.read d.here p = ok octets) :
    (Source.load p : StateM Disk Loaded).run d =
      (⟨p, Source.isBlob p octets, d.runtime.textOf p octets⟩, d) := by
  have hcontents : (Machine.read p : StateM Disk _).run d = (ok octets, d) := by
    change (d.tree.read d.here p, d) = _
    rw [hread]
  rw [Source.load, Disk.run_bind_eq (Machine.run_isFile hread)]
  dsimp only
  rw [Disk.run_bind_eq hcontents]
  rfl

/-- Two files that are loaded alike: to the same text, or with faults that end both commands
alike. -/
inductive Alike : Except LoadFault Text → Except LoadFault Text → Prop
  | text (t : Text) : Alike (ok t) (ok t)
  | fault {fault fault' : LoadFault}
      (ending : fault'.outcome.ending = (Compare.explain fault).ending) :
      Alike (error fault) (error fault')

theorem Alike.eq_ok {r : Except LoadFault Text} {t : Text} (h : Alike (ok t) r) : r = ok t := by
  cases h
  rfl

/-- Room that is not used up makes no difference. -/
theorem Runtime.textOf_of_le {r more : Runtime} (hroom : r.textOf p octets ≠ error .overflow)
    (hmore : r.nodes octets ≤ more.nodes octets) :
    more.textOf p octets = r.textOf p octets := by
  rw [textOf, Source.textOf] at hroom ⊢
  rw [textOf, Source.textOf]
  split
  · rename_i hblob
    rw [if_pos hblob] at hroom
    have hfits : Blob.decompile octets (r.nodes octets) ≠ error .overflow := by
      intro hdeep
      rw [hdeep] at hroom
      exact hroom rfl
    rw [Blob.decompile_of_ne_overflow hfits hmore]
  · rfl

/-- The text of a file depends on its path by the ending of it only. -/
theorem Runtime.textOf_cases {r : Runtime} (h : q.ending = p.ending) (octets : Octets) :
    r.textOf q octets = r.textOf p octets ∨
      ∃ fault, r.textOf p octets = error (.notText p fault) ∧
        r.textOf q octets = error (.notText q fault) := by
  rw [textOf, textOf, Source.textOf, Source.textOf, Source.isBlob, Source.isBlob, h]
  split
  · exact .inl rfl
  · cases Utf8.decode octets with
    | error fault => exact .inr ⟨fault, rfl, rfl⟩
    | ok t => exact .inl rfl

theorem Runtime.textOf_eq_overflow {r : Runtime} (h : q.ending = p.ending)
    (hdeep : r.textOf p octets = error .overflow) : r.textOf q octets = error .overflow := by
  rcases textOf_cases h octets with hsame | ⟨fault, hp, -⟩
  · rw [hsame, hdeep]
  · cases hdeep.symm.trans hp

/-- Only blobs have nodes. -/
theorem Runtime.textOf_ne_overflow {r : Runtime} (h : Source.isBlob p octets = false) :
    r.textOf p octets ≠ error .overflow := by
  rw [textOf, Source.textOf, h, if_neg Bool.false_ne_true]
  cases Utf8.decode octets with
  | ok t => nofun
  | error fault => nofun

/-- There are words for all that can be wrong with a file that is there, but for nodes that find
no room inside each other. -/
theorem Runtime.breakdown?_eq_none {r : Runtime} {fault : LoadFault}
    (h : r.textOf p octets = error fault) (hroom : fault ≠ .overflow) :
    fault.breakdown? = none := by
  rw [textOf, Source.textOf] at h
  split at h
  · cases hblob : Blob.decompile octets (r.nodes octets) with
    | ok t =>
      rw [hblob] at h
      cases h
    | error failure =>
      rw [hblob] at h
      cases h
      cases failure with
      | faulty fault => rfl
      | overflow => exact absurd rfl hroom
  · cases htext : Utf8.decode octets with
    | ok t =>
      rw [htext] at h
      cases h
    | error fault =>
      rw [htext] at h
      cases h
      rfl

/-- Faults for which there are words end both commands alike. -/
theorem Compare.ending_explain {fault : LoadFault} (h : fault.breakdown? = none) :
    (explain fault).ending = fault.outcome.ending := by
  cases fault with
  | unreachable fault => cases h
  | overflow => cases h
  | _ => rfl

theorem Runtime.alike_textOf {r : Runtime} (h : q.ending = p.ending)
    (hroom : r.textOf p octets ≠ error .overflow) :
    Alike (r.textOf p octets) (r.textOf q octets) := by
  rcases textOf_cases h octets with hsame | ⟨fault, hp, hq⟩
  · rw [hsame]
    cases htext : r.textOf p octets with
    | ok t => exact .text t
    | error fault =>
      refine .fault (Compare.ending_explain (breakdown?_eq_none htext ?_)).symm
      rintro rfl
      exact hroom htext
  · rw [hp, hq]
    exact .fault rfl

/-! ## Comparing -/

theorem Compare.run_loadSide {side : Text} (hside : side ≠ ['-'])
    (hread : d.tree.read d.here (Path.ofText side) = ok octets) (s : Surroundings) :
    ∃ notes, (Compare.loadSide s side : StateM Disk _).run d =
      ((notes, (d.runtime.textOf (Path.ofText side) octets).mapError .load), d) := by
  rw [Compare.loadSide, if_neg hside, Disk.run_bind_eq (Source.run_load hread)]
  exact ⟨_, rfl⟩

/-- Two files that are named on a line. -/
theorem Compare.run_sides {left right : Text} (hleft : left ≠ ['-']) (hright : right ≠ ['-'])
    (hreadLeft : d.tree.read d.here (Path.ofText left) = ok octets)
    (hreadRight : d.tree.read d.here (Path.ofText right) = ok contents)
    (s : Surroundings) (filter : Filter) (context : Int) (showing : Showing) :
    ∃ notes, (Compare.sides s filter context showing left right : StateM Disk Outcome).run d =
      ((answered explain showing
        (fun l r => .ofTexts filter context l r (String.ofList left) (String.ofList right))
        (d.runtime.textOf (Path.ofText left) octets)
        (d.runtime.textOf (Path.ofText right) contents)).noting notes, d) := by
  obtain ⟨leftNotes, hrunLeft⟩ := Compare.run_loadSide hleft hreadLeft s
  obtain ⟨rightNotes, hrunRight⟩ := Compare.run_loadSide hright hreadRight s
  rw [Compare.sides, if_neg (by simp [hleft]), Disk.run_bind_eq hrunLeft]
  cases d.runtime.textOf (Path.ofText left) octets with
  | error fault => exact ⟨leftNotes, rfl⟩
  | ok leftText =>
    dsimp only [Except.mapError]
    rw [Disk.run_bind_eq hrunRight]
    cases d.runtime.textOf (Path.ofText right) contents with
    | error fault => exact ⟨leftNotes ++ rightNotes, rfl⟩
    | ok rightText =>
      have hlabel : ∀ side : Text, side ≠ ['-'] → label side = String.ofList side :=
        fun side hside => if_neg hside
      rw [answered, ← hlabel left hleft, ← hlabel right hright]
      exact ⟨_, rfl⟩

theorem Comparison.run_ofFiles {left right : String}
    (hreadLeft : d.tree.read d.here (Path.ofText left.toList) = ok octets)
    (hreadRight : d.tree.read d.here (Path.ofText right.toList) = ok contents)
    (filter : Filter) :
    ∃ notes, (Comparison.ofFiles filter left right : StateM Disk _).run d =
      ((notes, do
        let l ← d.runtime.textOf (Path.ofText left.toList) octets
        let r ← d.runtime.textOf (Path.ofText right.toList) contents
        return Comparison.ofTexts filter 3 l r left right), d) := by
  rw [Comparison.ofFiles, Disk.run_bind_eq (Source.run_load hreadLeft)]
  cases d.runtime.textOf (Path.ofText left.toList) octets with
  | error fault => exact ⟨_, rfl⟩
  | ok leftText =>
    dsimp only
    rw [Disk.run_bind_eq (Source.run_load hreadRight)]
    cases d.runtime.textOf (Path.ofText right.toList) contents with
    | error fault => exact ⟨_, rfl⟩
    | ok rightText => exact ⟨_, rfl⟩

/-- Two files that are named in a profile. -/
theorem Profiles.run_of_get {store : Path} {name : String} {p : Profile}
    (hget : d.exec (Store.get store name) = (ok p, d))
    (hreadLeft : d.tree.read d.here (Path.ofText p.left.toList) = ok octets)
    (hreadRight : d.tree.read d.here (Path.ofText p.right.toList) = ok contents)
    (showing : Showing) :
    ∃ notes, (Profiles.run store name showing : StateM Disk Outcome).run d =
      ((answered LoadFault.outcome showing (fun l r => .ofTexts p.filter 3 l r p.left p.right)
        (d.runtime.textOf (Path.ofText p.left.toList) octets)
        (d.runtime.textOf (Path.ofText p.right.toList) contents)).noting notes, d) := by
  have hexist : (Profiles.filesExist p : StateM Disk _).run d = (ok true, d) := by
    rw [Profiles.filesExist, Disk.run_bind_eq (Machine.run_isFile hreadLeft)]
    exact Machine.run_isFile hreadRight
  obtain ⟨notes, hcompared⟩ := Comparison.run_ofFiles hreadLeft hreadRight p.filter
  rw [Disk.exec] at hget
  rw [Profiles.run, Profiles.answer, Disk.run_bind_eq hget]
  dsimp only
  rw [Disk.run_bind_eq hexist]
  dsimp only
  rw [Disk.run_bind_eq hcompared]
  refine ⟨notes, ?_⟩
  cases d.runtime.textOf (Path.ofText p.left.toList) octets with
  | error fault => rfl
  | ok leftText =>
    cases d.runtime.textOf (Path.ofText p.right.toList) contents with
    | error fault => rfl
    | ok rightText => rfl

/-! ## Other paths -/

variable {showing : Showing} {compare compare' : Text → Text → Comparison}

theorem Comparison.ending_outcome (c : Comparison) (showing : Showing) :
    (c.outcome showing).ending = .exit (if c.identical then 0 else 1) := by
  unfold Comparison.outcome
  dsimp only
  split
  · rfl
  · split
    · rfl
    · split
      · rfl
      · rfl

/-- Both commands end alike on files that are loaded alike, if their comparisons agree on whether
texts are identical. -/
theorem ending_answered {left left' right right' : Except LoadFault Text} (hleft : Alike left left')
    (hright : ∀ t, left = ok t → Alike right right')
    (hsame : ∀ l r, (compare' l r).identical = (compare l r).identical) :
    (answered LoadFault.outcome showing compare' left' right').ending =
      (answered Compare.explain showing compare left right).ending := by
  cases hleft with
  | fault ending => exact ending
  | text l =>
    cases hright l rfl with
    | fault ending => exact ending
    | text r => rw [answered, answered, Comparison.ending_outcome, Comparison.ending_outcome, hsame]

/-- Two comparisons differ at most in how the sides are called, and in the two lines of the diff
    that show this. -/
structure Comparison.Agrees (c c' : Comparison) : Prop where
  leftText : c'.leftText = c.leftText
  rightText : c'.rightText = c.rightText
  identical : c'.identical = c.identical
  changedLines : c'.changedLines = c.changedLines
  filter : c'.filter = c.filter
  diff_length : c'.diff.length = c.diff.length
  diff_drop : c'.diff.drop 2 = c.diff.drop 2

/-- The lines with the labels of the sides are no changes. -/
theorem Unified.isChange_label (label : Text) :
    Unified.isChange ("--- ".toList ++ label) = false ∧
      Unified.isChange ("+++ ".toList ++ label) = false :=
  ⟨rfl, rfl⟩

/-- Comparisons of the same texts agree whatever the sides are called. -/
theorem Comparison.agrees_ofTexts (filter : Filter) (context : Int) (left right : Text)
    (leftLabel rightLabel leftLabel' rightLabel' : String) :
    (ofTexts filter context left right leftLabel rightLabel).Agrees
      (ofTexts filter context left right leftLabel' rightLabel') := by
  have hlines : ∀ (l r l' r' : Text) (ls rs : List Line),
      Unified.changeCount (Unified.lines l' r' context ls rs) =
          Unified.changeCount (Unified.lines l r context ls rs) ∧
        (Unified.lines l' r' context ls rs).length = (Unified.lines l r context ls rs).length ∧
        (Unified.lines l' r' context ls rs).drop 2 = (Unified.lines l r context ls rs).drop 2 := by
    intro l r l' r' ls rs
    unfold Unified.lines
    split
    · exact ⟨rfl, rfl, rfl⟩
    · refine ⟨?_, rfl, rfl⟩
      simp only [Unified.changeCount, List.countP_cons, Unified.isChange_label]
  by_cases hsame : Source.process filter left = Source.process filter right
  · exact ⟨rfl, rfl, rfl, by simp [changedLines, ofTexts, hsame], rfl, by simp [ofTexts, hsame],
      by simp [ofTexts, hsame]⟩
  · obtain ⟨hcount, hlength, hdrop⟩ := hlines (filteredLabel leftLabel) (filteredLabel rightLabel)
      (filteredLabel leftLabel') (filteredLabel rightLabel')
      (Text.rows (Source.process filter left)) (Text.rows (Source.process filter right))
    refine ⟨rfl, rfl, rfl, ?_, rfl, ?_, ?_⟩
    · simpa [changedLines, ofTexts, hsame] using hcount
    · simpa [ofTexts, hsame] using hlength
    · simpa [ofTexts, hsame] using hdrop

end Devicetree
