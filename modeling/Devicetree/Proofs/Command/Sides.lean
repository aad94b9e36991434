-- SUMMARY: What is found of the two files of a profile, and what about them breaks a command off.
import Devicetree.Proofs.Command.Answers

/-!
# The files of a profile

A file that a profile names is there and can be loaded, or is there and cannot, or is missing, and
the commands on profiles have words for each of these. Two things they have no words for: an
obstacle that leaves open whether a file is there, such as a name that is too long for any file,
and a blob whose nodes find no room inside each other. Both break a command off.
-/

namespace Devicetree

open Except (ok error)

/-! ## One file -/

namespace Disk

/-- No file is there. -/
def Lacks (d : Disk) (side : String) : Prop :=
  d.tree.look d.here (Path.ofText side.toList) = ok .directory ∨
    ∃ o, d.tree.look d.here (Path.ofText side.toList) = error o ∧ o.meansNothing = true

/-- An obstacle leaves open whether a file is there. -/
def Hides (d : Disk) (side : String) (fault : FileFault) : Prop :=
  ∃ o, d.tree.look d.here (Path.ofText side.toList) = error o ∧ o.meansNothing = false ∧
    fault = ⟨o, [Path.ofText side.toList]⟩

/-- A file is there and holds some octets. -/
def Has (d : Disk) (side : String) (octets : Octets) : Prop :=
  d.tree.read d.here (Path.ofText side.toList) = ok octets

instance (d : Disk) (side : String) (octets : Octets) : Decidable (d.Has side octets) :=
  inferInstanceAs (Decidable (_ = _))

/-- A file is there and can be loaded as a text. -/
def Loads (d : Disk) (side : String) (t : Text) : Prop :=
  ∃ octets, d.Has side octets ∧ d.runtime.textOf (Path.ofText side.toList) octets = ok t

/-- A file is there, and the nodes of its blob find no room inside each other. -/
def Overflows (d : Disk) (side : String) : Prop :=
  ∃ octets, d.Has side octets ∧
    d.runtime.textOf (Path.ofText side.toList) octets = error .overflow

variable {d : Disk} {side : String} {octets : Octets} {fault : FileFault} {t : Text}

/-- A file is there, or is not, or it cannot be found out. -/
theorem has_or_lacks_or_hides (d : Disk) (side : String) :
    (∃ octets, d.Has side octets) ∨ d.Lacks side ∨ ∃ fault, d.Hides side fault := by
  cases hlook : d.tree.look d.here (Path.ofText side.toList) with
  | error o =>
    cases hnothing : o.meansNothing with
    | true => exact .inr (.inl (.inr ⟨o, hlook, hnothing⟩))
    | false => exact .inr (.inr ⟨_, o, hlook, hnothing, rfl⟩)
  | ok e =>
    cases e with
    | directory => exact .inr (.inl (.inl hlook))
    | file octets => exact .inl ⟨octets, FileTree.read_eq_ok_iff.2 hlook⟩

theorem Has.not_lacks (h : d.Has side octets) : ¬ d.Lacks side := by
  rintro (hlook | ⟨o, hlook, -⟩)
  · cases hlook.symm.trans (FileTree.read_eq_ok_iff.1 h)
  · cases hlook.symm.trans (FileTree.read_eq_ok_iff.1 h)

theorem Has.not_hides (h : d.Has side octets) : ¬ d.Hides side fault := by
  rintro ⟨o, hlook, -⟩
  cases hlook.symm.trans (FileTree.read_eq_ok_iff.1 h)

theorem Lacks.not_hides (h : d.Lacks side) : ¬ d.Hides side fault := by
  rintro ⟨o, hlook, hsomething, -⟩
  rcases h with hdirectory | ⟨o', hlook', hnothing⟩
  · cases hlook.symm.trans hdirectory
  · cases hlook.symm.trans hlook'
    cases hsomething.symm.trans hnothing

theorem Has.unique (h : d.Has side octets) {octets' : Octets} (h' : d.Has side octets') :
    octets' = octets :=
  Except.ok.inj (h'.symm.trans h)

theorem Lacks.run_isFile (h : d.Lacks side) :
    (Machine.isFile (Path.ofText side.toList) : StateM Disk _).run d = (ok false, d) := by
  rw [Machine.run_isFile_eq]
  rcases h with hdirectory | ⟨o, hnone, hnothing⟩
  · rw [hdirectory]
  · rw [hnone]
    simp only [hnothing, if_true]

theorem Hides.run_isFile (h : d.Hides side fault) :
    (Machine.isFile (Path.ofText side.toList) : StateM Disk _).run d = (error fault, d) := by
  obtain ⟨o, hlook, hsomething, rfl⟩ := h
  rw [Machine.run_isFile_eq, hlook]
  simp only [hsomething, Bool.false_eq_true, if_false]

end Disk

/-! ## Both files -/

namespace Profile

/-- What about the files of a profile breaks a command off: the left file is looked for first,
and they are loaded only if both are there. -/
inductive Breaks (d : Disk) (p : Profile) : Breakdown → Prop
  | leftHidden {fault : FileFault} (left : d.Hides p.left fault) : Breaks d p (.obstructed fault)
  | rightHidden {octets : Octets} {fault : FileFault} (left : d.Has p.left octets)
      (right : d.Hides p.right fault) : Breaks d p (.obstructed fault)
  | leftDeep {contents : Octets} (left : d.Overflows p.left) (right : d.Has p.right contents) :
      Breaks d p (.tooDeep .node)
  | rightDeep {t : Text} (left : d.Loads p.left t) (right : d.Overflows p.right) :
      Breaks d p (.tooDeep .node)

/-- Nothing about the files of a profile breaks a command off. -/
def IsClear (d : Disk) (p : Profile) : Prop :=
  ∀ breakdown, ¬ p.Breaks d breakdown

variable {d : Disk} {p : Profile}

theorem isClear_of_lacks (h : d.Lacks p.left) : p.IsClear d := by
  intro breakdown hbreaks
  cases hbreaks with
  | leftHidden left => exact h.not_hides left
  | rightHidden left => exact left.not_lacks h
  | leftDeep left =>
    obtain ⟨octets, hhas, -⟩ := left
    exact hhas.not_lacks h
  | rightDeep left =>
    obtain ⟨octets, hhas, -⟩ := left
    exact hhas.not_lacks h

/-- Files that are there break nothing off if there is room for the nodes of both. -/
theorem isClear_of_has {octets contents : Octets} (hleft : d.Has p.left octets)
    (hright : d.Has p.right contents)
    (hleftFits : d.runtime.textOf (Path.ofText p.left.toList) octets ≠ error .overflow)
    (hrightFits : d.runtime.textOf (Path.ofText p.right.toList) contents ≠ error .overflow) :
    p.IsClear d := by
  intro breakdown hbreaks
  cases hbreaks with
  | leftHidden left => exact hleft.not_hides left
  | rightHidden left right => exact hright.not_hides right
  | leftDeep left =>
    obtain ⟨octets', hhas, hdeep⟩ := left
    obtain rfl := hleft.unique hhas
    exact hleftFits hdeep
  | rightDeep left right =>
    obtain ⟨contents', hhas, hdeep⟩ := right
    obtain rfl := hright.unique hhas
    exact hrightFits hdeep

end Profile

namespace Profiles

variable {d : Disk} {p : Profile}

/-! ## Looking for both -/

theorem run_filesExist_of_lacks (h : d.Lacks p.left) :
    (filesExist p : StateM Disk _).run d = (ok false, d) := by
  rw [filesExist, Disk.run_bind_eq h.run_isFile]
  rfl

theorem run_filesExist_of_hides {fault : FileFault} (h : d.Hides p.left fault) :
    (filesExist p : StateM Disk _).run d = (error fault, d) := by
  rw [filesExist, Disk.run_bind_eq h.run_isFile]
  rfl

theorem run_filesExist_of_has {octets : Octets} (h : d.Has p.left octets) :
    (filesExist p : StateM Disk _).run d =
      (Machine.isFile (Path.ofText p.right.toList) : StateM Disk _).run d := by
  rw [filesExist, Disk.run_bind_eq (Machine.run_isFile h)]

/-! ## Running a profile -/

variable {store : Path} {name : String} {showing : Showing}

theorem run_run_of_hidden {fault : FileFault}
    (hget : d.exec (Store.get store name) = (ok p, d))
    (hexist : (filesExist p : StateM Disk _).run d = (error fault, d)) :
    (run store name showing : StateM Disk Outcome).run d =
      (.breaking (.obstructed fault), d) := by
  rw [Disk.exec] at hget
  rw [run, answer, Disk.run_bind_eq hget]
  dsimp only
  rw [Disk.run_bind_eq hexist]
  rfl

/-- What breaks a command off ends the run of a profile that is found. -/
theorem ending_run_of_breaks {breakdown : Breakdown}
    (hget : d.exec (Store.get store name) = (ok p, d)) (h : p.Breaks d breakdown)
    (showing : Showing) :
    ((run store name showing : StateM Disk Outcome).run d).1.ending = .broken breakdown := by
  cases h with
  | leftHidden left =>
    rw [run_run_of_hidden hget (run_filesExist_of_hides left)]
    rfl
  | rightHidden left right =>
    rw [run_run_of_hidden hget ((run_filesExist_of_has left).trans right.run_isFile)]
    rfl
  | leftDeep left right =>
    obtain ⟨octets, hhas, htext⟩ := left
    obtain ⟨notes, hrun⟩ := run_of_get hget hhas right showing
    rw [hrun, htext]
    rfl
  | rightDeep left right =>
    obtain ⟨octets, hhas, htext⟩ := left
    obtain ⟨contents, hhas', htext'⟩ := right
    obtain ⟨notes, hrun⟩ := run_of_get hget hhas hhas' showing
    rw [hrun, htext, htext']
    rfl

end Profiles

end Devicetree
