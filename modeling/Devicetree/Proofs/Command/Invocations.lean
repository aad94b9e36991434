-- SUMMARY: What the lines come to that save a comparison, run a saved one, or compare two files.
import Devicetree.Command.Program
import Devicetree.Proofs.Command.Answers
import Devicetree.Proofs.Command.Checks
import Devicetree.Proofs.Profile.Finding

/-!
# Lines of the program

The program hands a line to the command that it names, and a group hands it on in the same way.
A line with switches and a form of output, however they are arranged, then comes to one call of
the command: to an addition to the store, to the run of a profile, or to the comparison of two
files.
-/

namespace Devicetree

open Except (ok error)

/-! ## Lines of the program -/

theorem Form.ofValue_toList (form : String) : ofValue (some form.toList) = ofName form := by
  rw [ofValue, Option.getD_some, String.ofList_toList]

namespace Program

/-- A command of the program answers all lines that start with its name. -/
theorem run_outcome {command : String} (hcommand : command ∈ commands) (s : Surroundings)
    (words : List Text) (d : Disk) :
    (outcome s (command.toList :: words) : StateM Disk Outcome).run d =
      (((runCommand s command words : StateM Disk Outcome).run d).1.settleNotes false,
        ((runCommand s command words : StateM Disk Outcome).run d).2) := by
  have hname : Grammar.isOptionWord command.toList = false := by
    revert command
    decide
  have hread : grammar.readWords none (command.toList :: words) =
      ok ⟨[], command.toList :: words⟩ :=
    Grammar.readWords_of_command rfl .nil hname words
  rw [outcome, Grammar.runGroup_eq hread hcommand, Grammar.run_of_passes hread rfl]
  · rfl
  · rw [show grammar.defaults = [] from rfl, CommandLine.withDefaults_nil]
    refine ⟨fun key t h => ?_, fun h => nomatch h⟩
    exact absurd (CommandLine.mem_given_of_value? h) List.not_mem_nil

theorem run_outcome_profile (s : Surroundings) (words : List Text) (d : Disk) :
    (outcome s ("profile".toList :: words) : StateM Disk Outcome).run d =
      (((Profiles.runGroup s words : StateM Disk Outcome).run d).1.settleNotes false,
        ((Profiles.runGroup s words : StateM Disk Outcome).run d).2) :=
  run_outcome (by decide : "profile" ∈ commands) s words d

theorem run_outcome_compare_eq (s : Surroundings) (words : List Text) (d : Disk) :
    (outcome s ("compare".toList :: words) : StateM Disk Outcome).run d =
      (((Compare.run s words : StateM Disk Outcome).run d).1.settleNotes false,
        ((Compare.run s words : StateM Disk Outcome).run d).2) :=
  run_outcome (by decide : "compare" ∈ commands) s words d

end Program

namespace Profiles

/-! ## The store of a line -/

/-- The words that name a store on a line, if one is named there. -/
def storeWords (store : Option Text) : List Text :=
  store.toList.flatMap fun t => ["--store".toList, t]

/-- A line of the group with a store, if one is named. -/
def storeLine (s : Surroundings) (store : Option Text) (rest : List Text) :
    CommandLine GroupKey :=
  CommandLine.withDefaults ⟨store.toList.map fun t => (.store, .value t), rest⟩ (namedStore s)

/-- The store that a line names, or else the one that the environment names or sets aside. -/
def storeAt (s : Surroundings) (store : Option Text) : Path :=
  storeOf s (storeLine s store [])

variable {s : Surroundings} {store : Option Text} {rest words : List Text} {d d' : Disk}

theorem isPlain_storeAt (s : Surroundings) (store : Option Text) : (storeAt s store).IsPlain := by
  rw [storeAt, storeOf]
  split
  · exact Path.isPlain_ofText _
  · intro h
    rcases List.mem_append.1 h with h | h
    · exact Path.isPlain_ofText _ h
    · cases List.mem_singleton.1 h

theorem readWords_storeWords (s : Surroundings) (store : Option Text) {command : String}
    (hcommand : command ∈ commands) (words : List Text) :
    (groupGrammar s).readWords none (storeWords store ++ command.toList :: words) =
      ok ⟨store.toList.map fun t => (.store, .value t), command.toList :: words⟩ := by
  have hname : Grammar.isOptionWord command.toList = false := by
    revert command
    decide
  refine Grammar.readWords_of_command rfl ?_ hname words
  cases store with
  | none => exact .nil
  | some t =>
    have hread : (groupGrammar s).readWord "--store".toList =
        ok ⟨[], some ⟨"--store", .store, .takes .file⟩⟩ := rfl
    exact .value rfl (by decide) hread t

/-- The value for the store is one that can be checked. -/
def StoreAccepted (s : Surroundings) (store : Option Text) (d : Disk) : Prop :=
  ∀ t, (storeLine s store []).value? .store = some t → ValueKind.file.Accepts d t

theorem passes_iff : (groupGrammar s).Passes d (storeLine s store rest) ↔
    StoreAccepted s store d := by
  constructor
  · exact fun h t ht => h.values .store t ht
  · intro h
    refine ⟨fun key t ht => ?_, fun h => nomatch h⟩
    cases key with
    | store => exact h t ht
    | help => exact trivial

/-- A command of the group runs on the store that its line names, if that can be. -/
theorem runGroup_cases {command : String} (hcommand : command ∈ commands) (s : Surroundings)
    (store : Option Text) (words : List Text) (d : Disk) :
    (StoreAccepted s store d ∧
      (runGroup s (storeWords store ++ command.toList :: words) : StateM Disk Outcome).run d =
        (runCommand (storeAt s store) command words : StateM Disk Outcome).run d) ∨
    (¬ StoreAccepted s store d ∧
      ((runGroup s (storeWords store ++ command.toList :: words) :
        StateM Disk Outcome).run d).1.ending ≠ .exit 0) := by
  have hread := readWords_storeWords s store hcommand words
  have hgoes : (CommandLine.mk (store.toList.map fun t => (GroupKey.store, Given.value t))
      (command.toList :: words)).interruption? = none :=
    CommandLine.interruption?_eq_none (by simp)
  rw [runGroup, Grammar.runGroup_eq hread hcommand]
  rcases Grammar.run_cases d (fun _ => (groupGrammar s).usage.help)
    (fun line => runCommand (storeOf s line) command words) hread hgoes with
    ⟨hpasses, hrun⟩ | ⟨hfails, fault, hrun⟩
  · exact .inl ⟨passes_iff.1 hpasses, hrun⟩
  · refine .inr ⟨mt passes_iff.2 hfails, ?_⟩
    rw [hrun]
    exact Grammar.ending_ne_of_fault fault _

/-- A store that is there can be named again. -/
theorem StoreAccepted.again (h : StoreAccepted s store d) {octets : Octets}
    (hlook : d'.tree.look d'.here (storeAt s store) = ok (.file octets)) :
    StoreAccepted s store d' := by
  intro t ht
  refine ⟨(h t ht).1, fun hdirectory => ?_⟩
  have hstore : storeAt s store = Path.ofText t := by
    rw [storeAt, storeOf, ht]
  obtain ⟨e, he, hkind⟩ := Disk.exists_of_lookWritten hdirectory
  have hsame := FileTree.look_ofText he
  rw [← hstore, hlook] at hsame
  cases hsame
  cases hkind

/-! ## Saving -/

theorem among_saveGrammar : FilterSwitch.Among saveGrammar SaveKey.filter := by
  simp only [FilterSwitch.Among, FilterSwitch.words, FilterSwitch.spellings, List.map_cons,
    List.map_nil, List.forall_mem_cons]
  exact ⟨rfl, rfl, rfl, rfl, rfl, rfl, rfl, rfl, rfl, rfl, rfl, rfl, rfl, rfl, rfl, nofun⟩

variable {flags : List Text} {name left right : Text} {o : Outcome}

theorem ending_failure_ne (reason : StoreFailure) : (failure reason).ending ≠ .exit 0 := by
  cases reason with
  | reported fault => simp [failure, Outcome.failing]
  | broken breakdown => simp [failure, Outcome.breaking]

/-- Saving ends well only if a profile was added. -/
theorem exec_add_of_run_save {path : Path} {name left right : String} {filter : Filter}
    {autoRefresh : Bool}
    (hrun : (save path name left right filter autoRefresh : StateM Disk Outcome).run d = (o, d'))
    (hending : o.ending = .exit 0) :
    ∃ p, d.exec (Store.add path name left right filter autoRefresh) = (ok p, d') := by
  rw [save, answer, StateT.run_bind] at hrun
  cases hadd : d.exec (Store.add path name left right filter autoRefresh) with
  | mk r made =>
    rw [Disk.exec] at hadd
    rw [hadd] at hrun
    cases r with
    | error reason =>
      cases hrun
      exact absurd hending (ending_failure_ne reason)
    | ok p =>
      cases hrun
      exact ⟨p, rfl⟩

/-- What a line to save a profile goes through if it ends well. -/
theorem of_run_save (hflags : ∀ w ∈ flags, w ∈ FilterSwitch.words)
    (hwords : Arranged (flags.map fun w => [w]) [name, left, right] words) {path : Path}
    (hrun : (runCommand path "save" words : StateM Disk Outcome).run d = (o, d'))
    (hending : o.ending = .exit 0) :
    ValueKind.existingFile.Accepts d left ∧ ValueKind.existingFile.Accepts d right ∧
      ∃ autoRefresh p, d.exec (Store.add path (String.ofList name) (String.ofList left)
        (String.ofList right) (FilterSwitch.asked flags) autoRefresh) = (ok p, d') := by
  have hread : saveGrammar.readWords none words =
      ok ⟨FilterSwitch.given .filter flags, [name, left, right]⟩ := by
    rw [Grammar.readWords_of_arranged rfl (among_saveGrammar.reads hflags) hwords,
      FilterSwitch.flatten_said]
  have hgoes : (CommandLine.mk (FilterSwitch.given SaveKey.filter flags)
      [name, left, right]).interruption? = none := by
    refine CommandLine.interruption?_eq_none fun m hm => ?_
    rcases (FilterSwitch.of_mem_given hm).2 with h | h
    · simp [h]
    · simp [h]
  have hfilter : FilterSwitch.filter SaveKey.filter
      ⟨FilterSwitch.given SaveKey.filter flags, [name, left, right]⟩ = FilterSwitch.asked flags := by
    rw [← List.append_nil (FilterSwitch.given SaveKey.filter flags)]
    exact FilterSwitch.filter_eq_asked (fun _ _ h => SaveKey.filter.inj h) flags (by simp) _
  rw [runCommand] at hrun
  have hpasses := Grammar.passes_of_ending hread hgoes (by rw [hrun, hending])
  rw [Grammar.run_of_passes hread hgoes hpasses] at hrun
  rw [show saveGrammar.defaults = [] from rfl, CommandLine.withDefaults_nil] at hpasses hrun
  have harguments := hpasses.arguments rfl
  rw [show saveGrammar.arguments =
    [⟨"NAME", .anything⟩, ⟨"LEFT", .existingFile⟩, ⟨"RIGHT", .existingFile⟩] from rfl] at harguments
  simp only [List.forall₂_cons] at harguments
  obtain ⟨-, hleft, hright, -⟩ := harguments
  rw [hfilter] at hrun
  exact ⟨hleft, hright, _, exec_add_of_run_save hrun hending⟩

/-! ## Running -/

theorem run_runCommand_run {form : String} (hform : form ∈ Form.names) {path : Path}
    (hwords : Arranged [["--format".toList, form.toList]] [name] words) (d : Disk) :
    (runCommand path "run" words : StateM Disk Outcome).run d =
      (run path (String.ofList name) ⟨Form.ofName form, false, false⟩ :
        StateM Disk Outcome).run d := by
  have hformat : runGrammar.readWord "--format".toList =
      ok ⟨[], some ⟨"--format", .form, .takes (.choice Form.names)⟩⟩ := rfl
  have hread : runGrammar.readWords none words = ok ⟨[(.form, .value form.toList)], [name]⟩ :=
    Grammar.readWords_of_arranged rfl
      (.cons (.value rfl (by decide) hformat form.toList) .nil) hwords
  have hpasses : runGrammar.Passes d ⟨[(.form, .value form.toList)], [name]⟩ := by
    refine ⟨fun key t ht => ?_, fun _ => .cons trivial .nil⟩
    have hgiven := List.mem_singleton.1 (CommandLine.mem_given_of_value? ht)
    cases hgiven
    change String.ofList form.toList ∈ Form.names
    rwa [String.ofList_toList]
  rw [runCommand, Grammar.run_of_passes hread rfl hpasses, ← Form.ofValue_toList form]
  rfl

end Profiles

/-! ## Comparing -/

namespace Compare

theorem among_grammar : FilterSwitch.Among grammar Key.filter := by
  simp only [FilterSwitch.Among, FilterSwitch.words, FilterSwitch.spellings, List.map_cons,
    List.map_nil, List.forall_mem_cons]
  exact ⟨rfl, rfl, rfl, rfl, rfl, rfl, rfl, rfl, rfl, rfl, rfl, rfl, rfl, rfl, rfl, nofun⟩

/-- The line that compares two files with some switches and in some form. -/
def lineOf (flags : List Text) (form : String) (left right : Text) : CommandLine Key :=
  ⟨FilterSwitch.given .filter flags ++ [(.form, .value form.toList)], [left, right]⟩

variable {flags words : List Text} {form : String} {left right : Text} {d : Disk}

theorem readWords_eq_lineOf (hflags : ∀ w ∈ flags, w ∈ FilterSwitch.words)
    (hwords : Arranged ((flags.map fun w => [w]) ++ [["--format".toList, form.toList]])
      [left, right] words) :
    grammar.readWords none words = ok (lineOf flags form left right) := by
  have hformat : grammar.readWord "--format".toList =
      ok ⟨[], some ⟨"--format", .form, .takes (.choice Form.names)⟩⟩ := rfl
  have hreads : List.Forall₂ grammar.Reads
      ((flags.map fun w => [w]) ++ [["--format".toList, form.toList]])
      ((flags.map fun w => (FilterSwitch.said w).map (Prod.map Key.filter id)) ++
        [[(.form, .value form.toList)]]) :=
    List.rel_append (among_grammar.reads hflags)
      (.cons (.value rfl (by decide) hformat form.toList) .nil)
  rw [Grammar.readWords_of_arranged rfl hreads hwords, List.flatten_append,
    FilterSwitch.flatten_said]
  rfl

theorem of_mem_lineOf {m : Key × Given} (hm : m ∈ (lineOf flags form left right).given) :
    (∃ s, m.1 = .filter s) ∧ (m.2 = .on ∨ m.2 = .off) ∨ m = (.form, .value form.toList) := by
  rcases List.mem_append.1 hm with hm | hm
  · exact .inl (FilterSwitch.of_mem_given hm)
  · exact .inr (List.mem_singleton.1 hm)

/-- The line says nothing but switches and a form. -/
theorem ne_of_mem_lineOf {key : Key} (hfilter : ∀ s, key ≠ .filter s) (hform : key ≠ .form) :
    ∀ m ∈ (lineOf flags form left right).given, m.1 ≠ key := by
  rintro m hm rfl
  rcases of_mem_lineOf hm with ⟨⟨s, hs⟩, -⟩ | rfl
  · exact hfilter s hs
  · exact hform rfl

theorem interruption?_lineOf : (lineOf flags form left right).interruption? = none := by
  refine CommandLine.interruption?_eq_none fun m hm => ?_
  rcases of_mem_lineOf hm with ⟨-, h | h⟩ | rfl
  · simp [h]
  · simp [h]
  · simp

theorem passes_lineOf (hform : form ∈ Form.names) (hleft : ValueKind.source.Accepts d left)
    (hright : ValueKind.source.Accepts d right) :
    grammar.Passes d (lineOf flags form left right) := by
  refine ⟨fun key t ht => ?_, fun _ => .cons hleft (.cons hright .nil)⟩
  rcases of_mem_lineOf (CommandLine.mem_given_of_value? ht) with ⟨-, h | h⟩ | h
  · cases h
  · cases h
  · cases h
    change String.ofList form.toList ∈ Form.names
    rwa [String.ofList_toList]

/-- A line that compares two files with some switches and in some form. -/
theorem run_eq_sides (hflags : ∀ w ∈ flags, w ∈ FilterSwitch.words) (hform : form ∈ Form.names)
    (hwords : Arranged ((flags.map fun w => [w]) ++ [["--format".toList, form.toList]])
      [left, right] words)
    (hleft : ValueKind.source.Accepts d left) (hright : ValueKind.source.Accepts d right)
    (s : Surroundings) :
    (run s words : StateM Disk Outcome).run d =
      (sides s (FilterSwitch.asked flags) 3 ⟨Form.ofName form, false, false⟩ left right :
        StateM Disk Outcome).run d := by
  have hfilter : FilterSwitch.filter Key.filter (lineOf flags form left right) =
      FilterSwitch.asked flags :=
    FilterSwitch.filter_eq_asked (fun _ _ h => Key.filter.inj h) flags (by simp) _
  have hquiet : (lineOf flags form left right).isOn .quiet = false :=
    CommandLine.isOn_eq_false (ne_of_mem_lineOf (by simp) (by simp))
  have hverbose : (lineOf flags form left right).isOn .verbose = false :=
    CommandLine.isOn_eq_false (ne_of_mem_lineOf (by simp) (by simp))
  have hcontext : (lineOf flags form left right).value? .context = none := by
    rw [CommandLine.value?, CommandLine.last?_eq_none (ne_of_mem_lineOf (by simp) (by simp))]
  have hvalue : (lineOf flags form left right).value? .form = some form.toList := by
    rw [CommandLine.value?, lineOf, CommandLine.last?_concat]
  have hdefaults : (lineOf flags form left right).withDefaults grammar.defaults =
      lineOf flags form left right :=
    CommandLine.withDefaults_nil _
  rw [run, Grammar.run_of_passes (readWords_eq_lineOf hflags hwords) interruption?_lineOf]
  · rw [hdefaults, hfilter, hquiet, hverbose, hcontext, hvalue, Form.ofValue_toList]
    rfl
  · rw [hdefaults]
    exact passes_lineOf hform hleft hright

end Compare

end Devicetree
