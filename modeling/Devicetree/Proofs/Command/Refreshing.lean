-- SUMMARY: Refreshing reports each profile by itself, up to one at which the command breaks off.
import Devicetree.Proofs.Command.SavedRuns

/-!
# Refreshing

The profiles that are refreshed automatically are gone through in the order of the store. What is
said about one of them depends on its own two files and its own filter, not on the profiles in
front of it, and the exit code says whether all of them are unchanged. What breaks a command off
is not said of a profile but ends the whole refreshing, and the profiles behind it are not gone
to.
-/

namespace Devicetree

open Except (ok error)

/-- A disk on which other characters are read for halves of surrogate pairs. -/
def Disk.withHalf (d : Disk) (half : Nat → Char) : Disk :=
  { d with runtime := { d.runtime with
    reading := { d.runtime.reading with half }, records := d.runtime.records } }

/-- Both files of a profile are there and can be loaded, and their texts are the same once they
are processed under its filter. -/
def Profile.IsUnchanged (d : Disk) (p : Profile) : Prop :=
  ∃ left right, d.Loads p.left left ∧ d.Loads p.right right ∧
    Source.process p.filter left = Source.process p.filter right

theorem Profile.not_isUnchanged_of_lacks {d : Disk} {p : Profile}
    (h : d.Lacks p.left ∨ d.Lacks p.right) : ¬ p.IsUnchanged d := by
  rintro ⟨left, right, ⟨octets, hleft, -⟩, ⟨contents, hright, -⟩, -⟩
  rcases h with h | h
  · exact hleft.not_lacks h
  · exact hright.not_lacks h

namespace Profiles

/-! ## One profile -/

/-- What is found out about a profile from its own files. -/
inductive Finds (d : Disk) (p : Profile) : Refreshed → Prop
  | leftMissing (left : d.Lacks p.left) : Finds d p .filesMissing
  | rightMissing {octets : Octets} (left : d.Has p.left octets) (right : d.Lacks p.right) :
      Finds d p .filesMissing
  | leftFailed {octets contents : Octets} {fault : LoadFault} (left : d.Has p.left octets)
      (right : d.Has p.right contents)
      (text : d.runtime.textOf (Path.ofText p.left.toList) octets = error fault)
      (fits : fault ≠ .overflow) : Finds d p (.failed fault)
  | rightFailed {contents : Octets} {t : Text} {fault : LoadFault} (left : d.Loads p.left t)
      (right : d.Has p.right contents)
      (text : d.runtime.textOf (Path.ofText p.right.toList) contents = error fault)
      (fits : fault ≠ .overflow) : Finds d p (.failed fault)
  | compared {l r : Text} (left : d.Loads p.left l) (right : d.Loads p.right r) :
      Finds d p (.compared (Comparison.ofTexts p.filter 3 l r p.left p.right))

variable {d : Disk} {p : Profile} {r : Refreshed}

/-- A profile is ticked exactly if it is unchanged. -/
theorem Finds.ticked_iff (h : Finds d p r) : r.ticked = true ↔ p.IsUnchanged d := by
  cases h with
  | leftMissing hleft => exact ⟨nofun, (absurd · (p.not_isUnchanged_of_lacks (.inl hleft)))⟩
  | rightMissing hleft hright =>
    exact ⟨nofun, (absurd · (p.not_isUnchanged_of_lacks (.inr hright)))⟩
  | leftFailed hleft hright htext hfits =>
    refine ⟨nofun, ?_⟩
    rintro ⟨_, _, ⟨octets, hhas, hloaded⟩, -⟩
    rw [hleft.unique hhas, htext] at hloaded
    cases hloaded
  | rightFailed hleft hright htext hfits =>
    refine ⟨nofun, ?_⟩
    rintro ⟨_, _, -, ⟨octets, hhas, hloaded⟩, -⟩
    rw [hright.unique hhas, htext] at hloaded
    cases hloaded
  | @compared l r hleft hright =>
    have hsame : (Refreshed.compared (Comparison.ofTexts p.filter 3 l r p.left p.right)).ticked =
        true ↔ Source.process p.filter l = Source.process p.filter r := beq_iff_eq
    rw [hsame]
    refine ⟨fun h => ⟨l, r, hleft, hright, h⟩, ?_⟩
    rintro ⟨l', r', ⟨_, hhas, hl'⟩, ⟨_, hhas', hr'⟩, h⟩
    obtain ⟨_, hleft, hl⟩ := hleft
    obtain ⟨_, hright, hr⟩ := hright
    rw [hleft.unique hhas] at hl'
    rw [hright.unique hhas'] at hr'
    cases hl'.symm.trans hl
    cases hr'.symm.trans hr
    exact h

/-- A profile whose files are missing is not compared. -/
theorem run_refreshOne_of_missing (h : (filesExist p : StateM Disk _).run d = (ok false, d)) :
    (refreshOne p : StateM Disk _).run d = (([], ok .filesMissing), d) := by
  rw [refreshOne, Disk.run_bind_eq h]
  rfl

theorem run_refreshOne_of_hidden {fault : FileFault}
    (h : (filesExist p : StateM Disk _).run d = (error fault, d)) :
    (refreshOne p : StateM Disk _).run d = (([], error (.obstructed fault)), d) := by
  rw [refreshOne, Disk.run_bind_eq h]
  rfl

/-- Files that are there are loaded in order, and the first fault is answered for both: it is
reported if there are words for it, and breaks off otherwise. -/
theorem run_refreshOne_of_has {octets contents : Octets} (hleft : d.Has p.left octets)
    (hright : d.Has p.right contents) :
    ∃ notes, (refreshOne p : StateM Disk _).run d =
      ((notes, match d.runtime.textOf (Path.ofText p.left.toList) octets,
          d.runtime.textOf (Path.ofText p.right.toList) contents with
        | ok l, ok r => ok (.compared (Comparison.ofTexts p.filter 3 l r p.left p.right))
        | ok _, error fault | error fault, _ =>
          match fault.breakdown? with
          | some breakdown => error breakdown
          | none => ok (.failed fault)), d) := by
  obtain ⟨notes, hcompared⟩ := Comparison.run_ofFiles hleft hright p.filter
  refine ⟨notes, ?_⟩
  have hexist := (run_filesExist_of_has hleft).trans (Machine.run_isFile hright)
  rw [refreshOne, Disk.run_bind_eq hexist]
  dsimp only
  rw [Disk.run_bind_eq hcompared]
  cases d.runtime.textOf (Path.ofText p.left.toList) octets with
  | error fault =>
    dsimp only [bind, Except.bind, pure, Except.pure]
    cases fault.breakdown? with
    | none => rfl
    | some breakdown => rfl
  | ok l =>
    cases d.runtime.textOf (Path.ofText p.right.toList) contents with
    | error fault =>
      dsimp only [bind, Except.bind, pure, Except.pure]
      cases fault.breakdown? with
      | none => rfl
      | some breakdown => rfl
    | ok r => rfl

/-- A profile that breaks nothing off is reported from its own files. -/
theorem run_refreshOne (hclear : p.IsClear d) :
    ∃ notes r, Finds d p r ∧ (refreshOne p : StateM Disk _).run d = ((notes, ok r), d) := by
  rcases d.has_or_lacks_or_hides p.left with ⟨octets, hleft⟩ | hleft | ⟨fault, hleft⟩
  · rcases d.has_or_lacks_or_hides p.right with ⟨contents, hright⟩ | hright | ⟨fault, hright⟩
    · obtain ⟨notes, hrun⟩ := run_refreshOne_of_has hleft hright
      refine ⟨notes, ?_⟩
      rw [hrun]
      cases hl : d.runtime.textOf (Path.ofText p.left.toList) octets with
      | error fault =>
        have hfits : fault ≠ .overflow := by
          rintro rfl
          exact hclear _ (.leftDeep ⟨octets, hleft, hl⟩ hright)
        dsimp only
        rw [Runtime.breakdown?_eq_none hl hfits]
        exact ⟨_, .leftFailed hleft hright hl hfits, rfl⟩
      | ok l =>
        cases hr : d.runtime.textOf (Path.ofText p.right.toList) contents with
        | error fault =>
          have hfits : fault ≠ .overflow := by
            rintro rfl
            exact hclear _ (.rightDeep ⟨octets, hleft, hl⟩ ⟨contents, hright, hr⟩)
          dsimp only
          rw [Runtime.breakdown?_eq_none hr hfits]
          exact ⟨_, .rightFailed ⟨octets, hleft, hl⟩ hright hr hfits, rfl⟩
        | ok r => exact ⟨_, .compared ⟨octets, hleft, hl⟩ ⟨contents, hright, hr⟩, rfl⟩
    · refine ⟨[], _, .rightMissing hleft hright, run_refreshOne_of_missing ?_⟩
      rw [run_filesExist_of_has hleft, hright.run_isFile]
    · exact absurd (.rightHidden hleft hright) (hclear _)
  · exact ⟨[], _, .leftMissing hleft, run_refreshOne_of_missing (run_filesExist_of_lacks hleft)⟩
  · exact absurd (.leftHidden hleft) (hclear _)

/-- What breaks a command off ends the refreshing of a profile. -/
theorem run_refreshOne_of_breaks {breakdown : Breakdown} (h : p.Breaks d breakdown) :
    ∃ notes, (refreshOne p : StateM Disk _).run d = ((notes, error breakdown), d) := by
  cases h with
  | leftHidden left => exact ⟨[], run_refreshOne_of_hidden (run_filesExist_of_hides left)⟩
  | rightHidden left right =>
    exact ⟨[], run_refreshOne_of_hidden ((run_filesExist_of_has left).trans right.run_isFile)⟩
  | leftDeep left right =>
    obtain ⟨octets, hhas, htext⟩ := left
    obtain ⟨notes, hrun⟩ := run_refreshOne_of_has hhas right
    refine ⟨notes, ?_⟩
    rw [hrun, htext]
    rfl
  | rightDeep left right =>
    obtain ⟨octets, hhas, htext⟩ := left
    obtain ⟨contents, hhas', htext'⟩ := right
    obtain ⟨notes, hrun⟩ := run_refreshOne_of_has hhas hhas'
    refine ⟨notes, ?_⟩
    rw [hrun, htext, htext']
    rfl

/-! ## All profiles -/

variable {ps : List Profile}

/-- Profiles are reported one by one, whatever comes of those in front of them. -/
theorem run_refreshEach_append {before rest : List Profile} (hclear : ∀ p ∈ before, p.IsClear d)
    {results : List (Profile × List Note × Refreshed)} {stop : Option (List Note × Breakdown)}
    (hrest : (refreshEach rest : StateM Disk _).run d = ((results, stop), d)) :
    ∃ found : List (List Note × Refreshed),
      List.Forall₂ (fun p result => Finds d p result.2) before found ∧
        (refreshEach (before ++ rest) : StateM Disk _).run d =
          ((before.zip found ++ results, stop), d) := by
  induction before with
  | nil => exact ⟨[], .nil, hrest⟩
  | cons p before ih =>
    obtain ⟨hp, hbefore⟩ := List.forall_mem_cons.1 hclear
    obtain ⟨notes, r, hfinds, hone⟩ := run_refreshOne hp
    obtain ⟨found, hfound, hrun⟩ := ih hbefore
    refine ⟨(notes, r) :: found, .cons hfinds hfound, ?_⟩
    rw [List.cons_append, refreshEach, Disk.run_bind_eq hone]
    dsimp only
    rw [Disk.run_bind_eq hrun]
    rfl

/-- Behind a profile that breaks the command off no profile is gone to. -/
theorem run_refreshEach_of_breaks {breakdown : Breakdown} (h : p.Breaks d breakdown)
    (after : List Profile) :
    ∃ notes, (refreshEach (p :: after) : StateM Disk _).run d =
      (([], some (notes, breakdown)), d) := by
  obtain ⟨notes, hone⟩ := run_refreshOne_of_breaks h
  refine ⟨notes, ?_⟩
  rw [refreshEach, Disk.run_bind_eq hone]
  rfl

/-- Either all profiles are clear, or there is a first one that breaks the command off. -/
theorem clear_or_breaks (d : Disk) (ps : List Profile) :
    (∀ p ∈ ps, p.IsClear d) ∨ ∃ before p after breakdown,
      ps = before ++ p :: after ∧ (∀ q ∈ before, q.IsClear d) ∧ p.Breaks d breakdown := by
  induction ps with
  | nil => exact .inl (List.forall_mem_nil _)
  | cons p ps ih =>
    by_cases hp : p.IsClear d
    · rcases ih with hclear | ⟨before, q, after, breakdown, rfl, hbefore, hbreaks⟩
      · exact .inl (List.forall_mem_cons.2 ⟨hp, hclear⟩)
      · exact .inr ⟨p :: before, q, after, breakdown, rfl,
          List.forall_mem_cons.2 ⟨hp, hbefore⟩, hbreaks⟩
    · obtain ⟨breakdown, hbreaks⟩ := Classical.not_forall_not.1 hp
      exact .inr ⟨[], p, ps, breakdown, rfl, List.forall_mem_nil _, hbreaks⟩

/-! ## Answers -/

/-- The line in front of the entries for some number of profiles. -/
def heading (count : Nat) : String :=
  if count = 0 then "No profiles with auto-refresh enabled"
  else s!"Refreshing {count} comparison(s)..."

/-- The entries for profiles, by what was found out about each. -/
def entries (verbose : Bool) (ps : List Profile) (found : List Refreshed) : List Text :=
  (ps.zip found).flatMap fun (p, r) => r.lines verbose p.name

/-- Every profile has its entry, in order; it is ticked exactly if the profile is unchanged, and
the code is zero exactly if all are. -/
structure Reports (d : Disk) (verbose : Bool) (ps : List Profile) (o : Outcome) : Prop where
  output : ∃ found, List.Forall₂ (fun p r => Finds d p r ∧ (r.ticked = true ↔ p.IsUnchanged d))
    ps found ∧ o.output = (heading ps.length).toList :: entries verbose ps found
  ending : o.ending = .exit 0 ∧ (∀ p ∈ ps, p.IsUnchanged d) ∨
    o.ending = .exit 1 ∧ ∃ p ∈ ps, ¬ p.IsUnchanged d

/-- Profiles up to one that breaks the command off have their entries, and then it ends. -/
structure BreaksOff (d : Disk) (verbose : Bool) (count : Nat) (before : List Profile)
    (breakdown : Breakdown) (o : Outcome) : Prop where
  output : ∃ found, List.Forall₂ (Finds d) before found ∧
    o.output = (heading count).toList :: entries verbose before found
  ending : o.ending = .broken breakdown

theorem Reports.settleNotes {verbose : Bool} {o : Outcome} (h : Reports d verbose ps o)
    (asked : Bool) : Reports d verbose ps (o.settleNotes asked) :=
  ⟨h.output, h.ending⟩

theorem BreaksOff.settleNotes {verbose : Bool} {count : Nat} {before : List Profile}
    {breakdown : Breakdown} {o : Outcome} (h : BreaksOff d verbose count before breakdown o)
    (asked : Bool) : BreaksOff d verbose count before breakdown (o.settleNotes asked) :=
  ⟨h.output, h.ending⟩

/-- A command that breaks off has not reported all profiles. -/
theorem BreaksOff.not_reports {verbose : Bool} {count : Nat} {before : List Profile}
    {breakdown : Breakdown} {o : Outcome} (h : BreaksOff d verbose count before breakdown o) :
    ¬ Reports d verbose ps o := by
  intro hreports
  rcases hreports.ending with ⟨hexit, -⟩ | ⟨hexit, -⟩
  · cases hexit.symm.trans h.ending
  · cases hexit.symm.trans h.ending

theorem entries_eq (verbose : Bool) (ps : List Profile)
    (found : List (List Note × Refreshed)) :
    (ps.zip found).flatMap (fun (p, _, r) => r.lines verbose p.name) =
      entries verbose ps (found.map Prod.snd) := by
  rw [entries, List.zip_map_right, List.flatMap_map]
  rfl

/-- A code is zero exactly if all that was found out about profiles is that they are unchanged. -/
theorem ticked_all_iff {found : List (List Note × Refreshed)}
    (h : List.Forall₂ (fun p result => Finds d p result.2) ps found) :
    ((ps.zip found).all fun (_, _, r) => r.ticked) = true ↔ ∀ p ∈ ps, p.IsUnchanged d := by
  induction h with
  | nil => simp
  | cons hp _ ih =>
    rw [List.zip_cons_cons, List.all_cons, Bool.and_eq_true, ih, List.forall_mem_cons]
    exact and_congr_left' hp.ticked_iff

theorem reports_refreshOutcome {found : List (List Note × Refreshed)}
    (h : List.Forall₂ (fun p result => Finds d p result.2) ps found) (hps : ps ≠ [])
    (verbose : Bool) :
    Reports d verbose ps (refreshOutcome verbose ps.length (ps.zip found, none)) := by
  have hcount : ps.length ≠ 0 := mt List.length_eq_zero_iff.1 hps
  refine ⟨⟨found.map Prod.snd, ?_, ?_⟩, ?_⟩
  · exact List.forall₂_map_right_iff.2 (h.imp fun p result hp => ⟨hp, hp.ticked_iff⟩)
  · rw [refreshOutcome, heading, if_neg hcount, ← entries_eq]
  · rw [refreshOutcome]
    by_cases hall : ∀ p ∈ ps, p.IsUnchanged d
    · exact .inl ⟨by dsimp only; rw [if_pos ((ticked_all_iff h).2 hall)], hall⟩
    · refine .inr ⟨by dsimp only; rw [if_neg (mt (ticked_all_iff h).1 hall)], ?_⟩
      simpa only [not_forall, exists_prop] using hall

/-- What a store that can be loaded is refreshed to. -/
theorem run_refresh {path : Path} (hload : (d.exec (Store.load path)).1 = ok ps) (verbose : Bool) :
    (refresh path verbose : StateM Disk Outcome).run d =
      let due := ps.filter (·.autoRefresh)
      if due.isEmpty then (.printing ["No profiles with auto-refresh enabled".toList] 0, d)
      else
        let found := (refreshEach due : StateM Disk _).run d
        (refreshOutcome verbose due.length found.1, found.2) := by
  have hdue : (Store.autoRefreshed path : ExceptT StoreFailure (StateM Disk) _).run.run d =
      (ok (ps.filter (·.autoRefresh)), d) := by
    change d.exec (Store.autoRefreshed path) = _
    rw [Store.exec_load] at hload
    have hloaded : Store.loaded path d = ok ps := hload
    rw [Store.autoRefreshed, Disk.exec_bind, Store.exec_load, hloaded]
    rfl
  rw [refresh, answer, Disk.run_bind_eq hdue]
  dsimp only
  by_cases hempty : (ps.filter (·.autoRefresh)).isEmpty
  · rw [if_pos hempty, if_pos hempty]
    rfl
  · rw [if_neg hempty, if_neg hempty]
    rfl

/-- Profiles that break nothing off are all reported. -/
theorem run_refresh_of_clear {path : Path} (hload : (d.exec (Store.load path)).1 = ok ps)
    (hclear : ∀ p ∈ ps.filter (·.autoRefresh), p.IsClear d) (verbose : Bool) :
    Reports d verbose (ps.filter (·.autoRefresh))
      ((refresh path verbose : StateM Disk Outcome).run d).1 := by
  rw [run_refresh hload]
  dsimp only
  split
  · rename_i hempty
    rw [List.isEmpty_iff.1 hempty]
    exact ⟨⟨[], .nil, rfl⟩, .inl ⟨rfl, List.forall_mem_nil _⟩⟩
  · rename_i hsome
    have hnone : (refreshEach [] : StateM Disk _).run d = (([], none), d) := rfl
    obtain ⟨found, hfound, hrun⟩ := run_refreshEach_append hclear hnone
    rw [List.append_nil, List.append_nil] at hrun
    rw [hrun]
    exact reports_refreshOutcome hfound (mt List.isEmpty_iff.2 hsome) verbose

/-- The first profile that breaks the command off ends the refreshing. -/
theorem run_refresh_of_breaks {path : Path} (hload : (d.exec (Store.load path)).1 = ok ps)
    {before after : List Profile} {breakdown : Breakdown}
    (hdue : ps.filter (·.autoRefresh) = before ++ p :: after)
    (hclear : ∀ q ∈ before, q.IsClear d) (hbreaks : p.Breaks d breakdown) (verbose : Bool) :
    BreaksOff d verbose (ps.filter (·.autoRefresh)).length before breakdown
      ((refresh path verbose : StateM Disk Outcome).run d).1 := by
  obtain ⟨notes, hrest⟩ := run_refreshEach_of_breaks hbreaks after
  obtain ⟨found, hfound, hrun⟩ := run_refreshEach_append hclear hrest
  have hsome : ¬ (before ++ p :: after).isEmpty := by simp
  have hcount : (before ++ p :: after).length ≠ 0 := by simp
  rw [run_refresh hload, hdue, List.append_nil] at *
  rw [if_neg hsome, hrun]
  refine ⟨⟨found.map Prod.snd, List.forall₂_map_right_iff.2 hfound, ?_⟩, rfl⟩
  dsimp only
  rw [refreshOutcome, heading, if_neg hcount, ← entries_eq]

end Profiles

/-! ## Refreshing a store -/

namespace Program

open Profiles (storeWords storeAt Reports BreaksOff)

/-- A line of the program that refreshes a store comes to one call of the command. -/
theorem run_outcome_refresh (s : Surroundings) (store : Option Text) {d : Disk}
    (words : List Text) (line : CommandLine Profiles.RunKey)
    (haccepted : Profiles.StoreAccepted s store d)
    (hread : Profiles.refreshGrammar.readWords none words = ok line)
    (hgoes : line.interruption? = none) (hpasses : Profiles.refreshGrammar.Passes d line) :
    ((outcome s ("profile".toList :: (storeWords store ++ "refresh".toList :: words)) :
      StateM Disk Outcome).run d).1 =
      ((Profiles.refresh (storeAt s store) (line.isOn .verbose) :
        StateM Disk Outcome).run d).1.settleNotes false := by
  have hdefaults : line.withDefaults Profiles.refreshGrammar.defaults = line :=
    CommandLine.withDefaults_nil line
  rw [run_outcome_profile]
  rcases Profiles.runGroup_cases (by decide : "refresh" ∈ Profiles.commands) s store words d with
    ⟨-, hrun⟩ | ⟨hfails, -⟩
  · rw [hrun, Profiles.runCommand, Grammar.run_of_passes hread hgoes (hdefaults.symm ▸ hpasses),
      hdefaults]
  · exact absurd haccepted hfails

/-- What refreshing a store comes to where the environment says nothing. -/
theorem answer_refresh {d : Disk}
    (haccepted : Profiles.StoreAccepted ⟨[], [], false, false⟩ (some "p.json".toList) d) :
    (answer ["profile", "--store", "p.json", "refresh"] d).1 =
      ((Profiles.refresh (Path.ofText "p.json".toList) false :
        StateM Disk Outcome).run d).1.settleNotes false :=
  run_outcome_refresh ⟨[], [], false, false⟩ (some "p.json".toList) [] ⟨[], []⟩ haccepted rfl rfl
    ⟨nofun, fun _ => .nil⟩

/-- A profile that is called by its id. -/
def board (id left right : String) (autoRefresh : Bool) : Profile :=
  { id, name := id, left, right, filter := {}, autoRefresh }

/-- Four profiles, of which three are refreshed: one with some file on its left side, one of two
texts and one with octets that are no text. -/
def boards (left : String) : List Profile :=
  [board "1" left "l.dts" true, board "2" "l.dts" "r.dts" true, board "3" "b.dts" "l.dts" true,
    board "4" "l.dts" "r.dts" false]

/-- Two texts that differ in a comment and octets that are no text, beside a store with the four
profiles. -/
def refreshing (left : String) : Disk where
  tree := ⟨[(["w".toList], .directory),
    (["w".toList, "l.dts".toList], .file (Utf8.encode "a;\n".toList)),
    (["w".toList, "r.dts".toList], .file (Utf8.encode "a; // one\n".toList)),
    (["w".toList, "b.dts".toList], .file [0xFF]),
    (["w".toList, "p.json".toList], .file (Store.contents (boards left)))]⟩
  here := ["w".toList]
  identities n := ⟨String.ofList (Hex.padded 12 (n + 1)), 1700000000.5⟩
  issued := 0

/-- Three of the profiles are read back as those that are refreshed. -/
def dueBoards (left : String) : List Profile :=
  ((boards left).take 3).map Profile.reread

theorem load_refreshing (left : String) (half : Nat → Char) :
    ∃ ps, (((refreshing left).withHalf half).exec
      (Store.load (Path.ofText "p.json".toList))).1 = ok ps ∧
        ps.filter (·.autoRefresh) = dueBoards left := by
  refine ⟨(boards left).map Profile.reread, ?_, rfl⟩
  rw [Store.exec_load, Store.loaded_of_file rfl, Store.readContents_contents_eq_map]

theorem storeAccepted_refreshing (left : String) :
    Profiles.StoreAccepted ⟨[], [], false, false⟩ (some "p.json".toList) (refreshing left) := by
  intro t ht
  obtain rfl : "p.json".toList = t := Option.some.inj ht
  exact ⟨by decide, nofun⟩

/-- If the left file of the first profile is missing, all three are reported. -/
theorem isClear_dueBoards {left : String} (hnone : (refreshing left).Lacks left) :
    ∀ p ∈ dueBoards left, p.IsClear (refreshing left) := by
  have hleft : (refreshing left).Has "l.dts" (Utf8.encode "a;\n".toList) := rfl
  have hright : (refreshing left).Has "r.dts" (Utf8.encode "a; // one\n".toList) := rfl
  have hoctets : (refreshing left).Has "b.dts" [0xFF] := rfl
  simp only [dueBoards, boards, List.take_succ_cons, List.take_zero, List.map_cons, List.map_nil,
    List.forall_mem_cons]
  refine ⟨Profile.isClear_of_lacks hnone, Profile.isClear_of_has hleft hright ?_ ?_,
    Profile.isClear_of_has hoctets hleft ?_ ?_, List.forall_mem_nil _⟩
  all_goals exact Runtime.textOf_ne_overflow (by decide)

/-- Then the first one is not unchanged. -/
theorem not_isUnchanged_dueBoards {left : String} (hnone : (refreshing left).Lacks left) :
    ¬ ∀ p ∈ dueBoards left, p.IsUnchanged (refreshing left) := by
  intro hall
  have hfirst : (board "1" left "l.dts" true).reread ∈ dueBoards left := List.mem_cons_self
  exact absurd (hall _ hfirst) (Profile.not_isUnchanged_of_lacks (.inl hnone))

/-- Behind an obstacle at the first profile none of the three is reported. -/
theorem refresh_of_hides {left : String} {fault : FileFault}
    (h : (refreshing left).Hides left fault) :
    let o := (answer ["profile", "--store", "p.json", "refresh"] (refreshing left)).1
    o.output = ["Refreshing 3 comparison(s)...".toList] ∧
      ¬ Reports (refreshing left) false (dueBoards left) o := by
  dsimp only
  obtain ⟨ps, hload, hdue⟩ : ∃ ps, ((refreshing left).exec
      (Store.load (Path.ofText "p.json".toList))).1 = ok ps ∧
        ps.filter (·.autoRefresh) = dueBoards left :=
    load_refreshing left (refreshing left).runtime.reading.half
  have hheading : Profiles.heading 3 = "Refreshing 3 comparison(s)..." := by decide
  have hcount : (dueBoards left).length = 3 := rfl
  have hfirst : dueBoards left = [] ++ (board "1" left "l.dts" true).reread ::
      [(board "2" "l.dts" "r.dts" true).reread, (board "3" "b.dts" "l.dts" true).reread] := rfl
  have hbreaks : (board "1" left "l.dts" true).reread.Breaks (refreshing left)
      (.obstructed fault) :=
    .leftHidden h
  rw [answer_refresh (storeAccepted_refreshing left)]
  generalize refreshing left = d at *
  have hbreaks := (Profiles.run_refresh_of_breaks hload (hdue.trans hfirst)
    (List.forall_mem_nil _) hbreaks false).settleNotes false
  obtain ⟨found, hfound, houtput⟩ := hbreaks.output
  cases hfound
  rw [hdue, hcount, hheading] at houtput
  exact ⟨houtput, hbreaks.not_reports⟩

end Program

end Devicetree
