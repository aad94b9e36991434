-- SUMMARY: Which files a call to a profile store changes when it fails, and when it goes through.
import Devicetree.Proofs.Profile.Runs

/-!
# Effects

A call that fails leaves every file as it was, unless the last step fails: then the temporary
file beside the store is left. A call that goes through changes the store, and takes what
stood in the place of the temporary file away with it; every other file is left alone.
-/

namespace Devicetree

open Except (ok error)

namespace Store

variable {store other : Path} {d d' made : Disk} {a b : Place} {ps : List Profile}

/-! ## Where a store is saved -/

theorem Begun.eq_place (hplain : store.IsPlain) (begun : Begun store d made a) :
    a = (Store.temporary store).place d.here := by
  rw [FileTree.target_eq_place (isPlain_temporary hplain) begun.temporary,
    (begun.grown hplain).1.here]

theorem Ready.eq_place (hplain : store.IsPlain) (ready : Ready store d made a b) :
    b = store.place d.here := by
  rw [FileTree.target_eq_place hplain ready.target, (ready.grown hplain).1.here]

/-- Nothing is made for a store whose directory is there. -/
theorem Begun.made_eq (hplain : store.IsPlain) (begun : Begun store d made a)
    (hparent : d.tree.look d.here store.parent = ok .directory) : made = d := by
  have hmake := Disk.exec_makeDirectories_of_look (ε := StoreFailure) hplain.parent hparent
  rw [begun.make] at hmake
  exact congrArg Prod.snd hmake

/-- A store whose temporary file can be written has a name. -/
theorem Begun.names_ne_nil (hplain : store.IsPlain) (begun : Begun store d made a)
    {octets : Octets} (hlook : d.tree.look d.here store = ok (.file octets)) :
    store.names ≠ [] := by
  intro hnil
  obtain ⟨hgrown, -⟩ := begun.grown hplain
  obtain ⟨-, names, name, place, hnames, hf, hdirectory, -⟩ :=
    FileTree.target_eq_some_iff.1 begun.temporary
  obtain ⟨-, q, hq, hfile⟩ := FileTree.look_eq_ok_iff.1 hlook
  have hnames' : names = [] := by
    have hparent : (Store.temporary store).names.dropLast = store.names.dropLast :=
      List.dropLast_concat
    rw [hnames, List.dropLast_concat, hnil] at hparent
    exact hparent
  rw [hnames', FileTree.follow, hgrown.here] at hf
  rw [hnil, FileTree.follow] at hq
  cases hf
  cases hq
  have hcontents := hgrown.contents (FileTree.start d.here store.anchor)
  rw [FileTree.contents?, FileTree.contents?, hfile] at hcontents
  have hanchor : (Store.temporary store).anchor = store.anchor := rfl
  rw [hanchor] at hdirectory
  rw [hdirectory] at hcontents
  cases hcontents

/-- In a tree in which everything stands in a directory, a store can be saved if the temporary
    file can be written and the store is a file, or its directory is there. -/
theorem Begun.ready (hplain : store.IsPlain) (begun : Begun store d made a)
    (hnested : d.tree.IsNested) (hloaded : loaded store d = ok ps)
    (h : d.tree.look d.here store.parent = ok .directory ∨ ¬ IsAbsent store d) :
    ∃ b, Ready store d made a b := by
  obtain ⟨hgrown, -⟩ := begun.grown hplain
  rcases of_loaded_eq_ok hloaded with ⟨o, hlook, hnothing, -⟩ | ⟨octets, hlook, -⟩
  · have hparent := h.resolve_right fun hthere => hthere ⟨o, hlook, hnothing⟩
    obtain rfl := begun.made_eq hplain hparent
    obtain ⟨b, htarget, hfree⟩ :=
      FileTree.target_of_look_nothing hnested hplain hlook hnothing hparent
    exact ⟨b, begun, htarget, by simp [hfree]⟩
  · obtain ⟨b, htarget, hfile⟩ :=
      FileTree.target_of_look_file hnested hplain (begun.names_ne_nil hplain hlook) hlook
    rw [← hgrown.here] at htarget
    refine ⟨b, begun, FileTree.target_of_reaches hgrown.reaches htarget, fun hdirectory => ?_⟩
    have hcontents := hgrown.contents b
    simp [FileTree.contents?, hfile, hdirectory] at hcontents

/-- A store that cannot take the place of the old one was absent, and so was its directory. -/
theorem Begun.isAbsent_of_unmoved (hplain : store.IsPlain) (begun : Begun store d made a)
    (hnested : d.tree.IsNested) (hloaded : loaded store d = ok ps) {octets : Octets} {o : Obstacle}
    (hmove : (written made a octets).tree.moveFile made.here (Store.temporary store) store =
      error o) :
    IsAbsent store d ∧ d.tree.look d.here store.parent ≠ ok .directory := by
  have hunready : ¬ ∃ b, Ready store d made a b := by
    rintro ⟨b, ready⟩
    rw [ready.moveFile] at hmove
    cases hmove
  have hneither := mt (begun.ready hplain hnested hloaded) hunready
  rw [not_or, Classical.not_not] at hneither
  exact hneither.symm

/-! ## What a written and what a replaced store leave alone -/

theorem Begun.contents?_written_self (begun : Begun store d made a) (octets : Octets) :
    (written made a octets).tree.contents? a = some octets := by
  rw [FileTree.contents?, find?_written_self (FileTree.target_ne_nil begun.temporary)]

/-- Writing the temporary file changes no other file. -/
theorem Begun.contents?_written_of_ne (hplain : store.IsPlain) (begun : Begun store d made a)
    (octets : Octets) {q : Place} (hq : q ≠ a) :
    (written made a octets).tree.contents? q = d.tree.contents? q :=
  (FileTree.contents?_congr (FileTree.find?_set_of_ne _ _ hq)).trans
    ((begun.grown hplain).1.contents q)

theorem Ready.contents?_replaced_self (ready : Ready store d made a b) (octets : Octets) :
    (replaced made a b octets).tree.contents? b = some octets := by
  rw [FileTree.contents?, find?_replaced_self (FileTree.target_ne_nil ready.target)]

/-- Replacing a store changes no file but the store and the temporary file. -/
theorem Ready.contents?_replaced_of_ne (hplain : store.IsPlain) (ready : Ready store d made a b)
    (octets : Octets) {q : Place} (hqa : q ≠ a) (hqb : q ≠ b) :
    (replaced made a b octets).tree.contents? q = d.tree.contents? q :=
  (FileTree.contents?_congr (find?_replaced_of_ne hqa hqb made octets)).trans
    ((ready.grown hplain).1.contents q)

/-! ## Calls that fail -/

/-- Only an addition changes an empty list. -/
theorem Call.eq_add_of_onShelf_nil {here : Place} {identities : Nat → Identity} {issued : Nat}
    {c : Call} {answer : Answer} {s : Shelf}
    (h : c.onShelf here identities ⟨[], issued⟩ = (ok answer, s)) (hchange : c.isChange) :
    ∃ name left right filter autoRefresh, c = .add name left right filter autoRefresh := by
  cases c with
  | add name left right filter autoRefresh => exact ⟨name, left, right, filter, autoRefresh, rfl⟩
  | delete key => cases h
  | toggle key => cases h
  | _ => cases hchange

/-- A call that fails leaves the contents of every file as they were, unless it fails to move the
    temporary file over the store. Then the temporary file holds what should have been saved,
    and all others are left alone. In a tree in which everything stands in a directory this
    happens only to an addition to a store that is not there, nor its directory. -/
theorem contents_of_failure (written : Text) (d : Disk) (c : Call) (failure : StoreFailure)
    (hfail : (d.exec (c.run (Path.ofText written))).1 = error failure) :
    let store := Path.ofText written
    let beside := (temporary store).place d.here
    let left := (d.exec (c.run store)).2.tree
    (∀ q, left.contents? q = d.tree.contents? q) ∨
      ∃ o ps, failure = .reported (.unwritable store ⟨o, [temporary store, store]⟩) ∧
        loaded store d = ok ps ∧
        left.contents? beside =
          some (contents (c.onShelf d.here d.identities ⟨ps, d.issued⟩).2.profiles) ∧
        (∀ q, q ≠ beside → left.contents? q = d.tree.contents? q) ∧
        (d.tree.IsNested → IsAbsent store d ∧ d.tree.look d.here store.parent ≠ ok .directory ∧
          ∃ name left right filter autoRefresh,
            c = .add name left right filter autoRefresh) := by
  have hplain := Path.isPlain_ofText written
  have hcomes := c.comes hplain d
  generalize Path.ofText written = store at *
  dsimp only
  generalize d.exec (c.run store) = after at hcomes hfail ⊢
  obtain ⟨r, d'⟩ := after
  dsimp only at hcomes hfail ⊢
  cases hcomes with
  | kept issued change => exact .inl fun q => rfl
  | @saved ps answer s r' _ hloaded hchange hshelf hsaves =>
    cases hsaves with
    | stopped grown => exact .inl grown.contents
    | saved ready => cases hfail
    | @unmoved made a o begun hmove =>
      have hplace := begun.eq_place hplain
      change a = (Store.temporary store).place d.here at hplace
      rw [← hplace]
      refine .inr ⟨o, ps, (Except.error.inj hfail).symm, hloaded, ?_, fun q hq => ?_,
        fun hnested => ?_⟩
      · rw [hshelf]
        exact begun.contents?_written_self _
      · exact begun.contents?_written_of_ne hplain _ hq
      · obtain ⟨habsent, hparent⟩ := begun.isAbsent_of_unmoved hplain hnested hloaded hmove
        obtain rfl : [] = ps := Except.ok.inj (habsent.loaded.symm.trans hloaded)
        exact ⟨habsent, hparent, Call.eq_add_of_onShelf_nil hshelf hchange⟩

theorem contents_of_failure_detour :
    let d := { Disk.numbered with
      tree := ⟨[(["w".toList], .directory), (["w".toList, "w2".toList], .directory)]⟩ }
    let store := Path.ofText "a/../w2".toList
    ∀ q, q ≠ ["w".toList, "w2.tmp".toList] →
      (d.exec ((Call.add "n" "l.dts" "r.dts" {} false).run store)).2.tree.contents? q =
        d.tree.contents? q := by
  dsimp only
  intro q hq
  have hbeside : (temporary (Path.ofText "a/../w2".toList)).place Disk.numbered.here =
      ["w".toList, "w2.tmp".toList] := by
    decide +kernel
  have heffect := contents_of_failure "a/../w2".toList { Disk.numbered with
      tree := ⟨[(["w".toList], .directory), (["w".toList, "w2".toList], .directory)]⟩ }
    (.add "n" "l.dts" "r.dts" {} false) _ rfl
  rw [← hbeside] at hq
  rcases heffect with hsame | ⟨-, -, -, -, -, hsame, -⟩
  · exact hsame q
  · exact hsame q hq

/-- A store that cannot be replaced leaves its temporary file behind: here a directory stands in
    its place, which is seen only after another directory was made on the way there. -/
theorem contents_of_failure_leftover :
    let d := { Disk.numbered with
      tree := ⟨[(["w".toList], .directory), (["w".toList, "w2".toList], .directory)]⟩ }
    let store := Path.ofText "a/../w2".toList
    let after := d.exec ((Call.add "n" "l.dts" "r.dts" {} false).run store)
    after.1 = error (.reported (.unwritable store ⟨.isDirectory, [temporary store, store]⟩)) ∧
      d.tree.contents? ["w".toList, "w2.tmp".toList] = none ∧
      (after.2.tree.contents? ["w".toList, "w2.tmp".toList]).isSome := by
  refine ⟨?_, ?_, ?_⟩
  · rfl
  · rfl
  · rfl

/-! ## Other stores -/

/-- Looking a path up in two trees with the same directories comes to the same, if the same stands
    at its place; or nothing is found in either. -/
theorem look_of_sameDirectories (hplain : other.IsPlain) (hhere : d'.here = d.here)
    (hdirectory : ∀ q, d.tree.find? q = some .directory ↔ d'.tree.find? q = some .directory)
    (hsame : d'.tree.find? (other.place d.here) = d.tree.find? (other.place d.here)) :
    d'.tree.look d'.here other = d.tree.look d.here other ∨
      ∃ o o', d.tree.look d.here other = error o ∧ d'.tree.look d'.here other = error o' ∧
        o.meansNothing ∧ o'.meansNothing := by
  rw [hhere, FileTree.look, FileTree.look]
  split
  · exact .inl rfl
  · rw [FileTree.locate, FileTree.locate]
    rcases FileTree.follow_of_sameDirectories hdirectory
      (FileTree.start d.here other.anchor) other.names with hf | ⟨o, o', ho, ho', hmeans⟩
    · rw [hf]
      cases hf' : d.tree.follow (FileTree.start d.here other.anchor) other.names with
      | error o => exact .inl rfl
      | ok q =>
        have hq := FileTree.follow_eq_walk hplain hf'
        rw [← Path.place_eq_walk] at hq
        dsimp only
        rw [hq, hsame]
        exact .inl rfl
    · rw [ho, ho']
      exact .inr ⟨o, o', rfl, rfl, hmeans⟩

/-- A store is loaded from the same file, or found missing, in two trees with the same
    directories. -/
theorem loaded_of_sameDirectories (hplain : other.IsPlain) (hhere : d'.here = d.here)
    (hruntime : d'.runtime = d.runtime)
    (hdirectory : ∀ q, d.tree.find? q = some .directory ↔ d'.tree.find? q = some .directory)
    (hsame : d'.tree.find? (other.place d.here) = d.tree.find? (other.place d.here)) :
    loaded other d' = loaded other d := by
  rcases look_of_sameDirectories hplain hhere hdirectory hsame with
    hlook | ⟨o, o', ho, ho', hmeans, hmeans'⟩
  · rw [loaded, loaded, FileTree.read, FileTree.read, hlook, hruntime]
  · rw [loaded_of_nothing ho hmeans, loaded_of_nothing ho' hmeans']

/-- A store that is a file is loaded from it as long as its directories stay. -/
theorem loaded_of_reaches (hplain : other.IsPlain) (hhere : d'.here = d.here)
    (hruntime : d'.runtime = d.runtime) (hreaches : d.tree.Reaches d'.tree) {octets : Octets}
    (hlook : d.tree.look d.here other = ok (.file octets))
    (hsame : d'.tree.contents? (other.place d.here) = d.tree.contents? (other.place d.here)) :
    loaded other d' = loaded other d := by
  obtain ⟨hshort, q, hf, hq⟩ := FileTree.look_eq_ok_iff.1 hlook
  have hplace := FileTree.follow_eq_walk hplain hf
  rw [← Path.place_eq_walk] at hplace
  have hfile : d'.tree.find? q = some (.file octets) := by
    rw [← FileTree.contents?_eq_some_iff, hplace, hsame, ← hplace,
      FileTree.contents?_eq_some_iff, hq]
  have hlook' : d'.tree.look d'.here other = ok (.file octets) := by
    rw [hhere]
    exact FileTree.look_eq_ok_iff.2 ⟨hshort, q, FileTree.follow_of_reaches hreaches hf, hfile⟩
  rw [loaded_of_file hlook, loaded_of_file hlook', hruntime]

/-- Another store is loaded as before when a store is replaced, if it is a file, or if no
    directory had to be made. -/
theorem Ready.loaded_replaced_other (hplain : store.IsPlain) (ready : Ready store d made a b)
    (octets : Octets) (hother : other.IsPlain) (hqa : other.place d.here ≠ a)
    (hqb : other.place d.here ≠ b)
    (h : d.tree.look d.here store.parent = ok .directory ∨
      ∃ kept, d.tree.look d.here other = ok (.file kept)) :
    loaded other (replaced made a b octets) = loaded other d := by
  rcases h with hparent | ⟨kept, hlook⟩
  · obtain rfl := ready.made_eq hplain hparent
    exact loaded_of_sameDirectories hother rfl rfl (fun q => (ready.directory_iff octets q).symm)
      (find?_replaced_of_ne hqa hqb _ octets)
  · obtain ⟨hgrown, -⟩ := ready.grown hplain
    have hreaches : made.tree.Reaches (replaced made a b octets).tree :=
      fun q => (ready.directory_iff octets q).2
    exact loaded_of_reaches hother hgrown.here hgrown.runtime (hgrown.reaches.trans hreaches) hlook
      (ready.contents?_replaced_of_ne hplain octets hqa hqb)

/-! ## Calls that go through -/

/-- A change that goes through gives the store the contents of the plain list, leaves nothing in
    the place of the temporary file, and leaves every other file alone. Every other store is
    loaded as before if it is a file, or if no directory had to be made. -/
theorem contents_of_change (written : Text) (d : Disk) (c : Call) (answer : Answer)
    (hchange : c.isChange) (hdone : (d.exec (c.run (Path.ofText written))).1 = ok answer) :
    let store := Path.ofText written
    let beside := (temporary store).place d.here
    let left := (d.exec (c.run store)).2
    (∃ ps, loaded store d = ok ps ∧ left.tree.contents? (store.place d.here) =
        some (contents (c.onShelf d.here d.identities ⟨ps, d.issued⟩).2.profiles)) ∧
      (beside ≠ store.place d.here → left.tree.find? beside = none) ∧
      (∀ q, q ≠ store.place d.here → q ≠ beside →
        left.tree.contents? q = d.tree.contents? q) ∧
      ∀ another : Text, (Path.ofText another).place d.here ≠ store.place d.here →
        (Path.ofText another).place d.here ≠ beside →
        (d.tree.look d.here store.parent = ok .directory ∨
          ∃ octets, d.tree.look d.here (Path.ofText another) = ok (.file octets)) →
        (left.exec (load (Path.ofText another))).1 = (d.exec (load (Path.ofText another))).1 := by
  have hplain := Path.isPlain_ofText written
  have hcomes := c.comes hplain d
  generalize Path.ofText written = store at *
  dsimp only
  generalize d.exec (c.run store) = after at hcomes hdone ⊢
  obtain ⟨r, d'⟩ := after
  dsimp only at hcomes hdone ⊢
  cases hcomes with
  | kept issued change =>
    obtain ⟨failure, hfailure⟩ := change hchange
    cases hdone.symm.trans hfailure
  | @saved ps answer s r' _ hloaded _ hshelf hsaves =>
    cases hsaves with
    | stopped grown => cases hdone
    | unmoved begun hmove => cases hdone
    | @saved made a b ready =>
      have ha := ready.toBegun.eq_place hplain
      have hb := ready.eq_place hplain
      change a = (Store.temporary store).place d.here at ha
      change b = store.place d.here at hb
      rw [← ha, ← hb]
      refine ⟨⟨ps, hloaded, ?_⟩, fun hab => ?_, fun q hqb hqa => ?_,
        fun another hqb hqa hother => ?_⟩
      · rw [hshelf]
        exact ready.contents?_replaced_self _
      · exact find?_replaced_temporary (FileTree.target_ne_nil ready.temporary) hab _ _
      · exact ready.contents?_replaced_of_ne hplain _ hqa hqb
      · rw [exec_load, exec_load]
        exact ready.loaded_replaced_other hplain _ (Path.isPlain_ofText another) hqa hqb hother

theorem contents_of_change_ownFile :
    let store := Path.ofText "profiles.json".toList
    let left := (Disk.numbered.exec ((Call.add "n" "l.dts" "r.dts" {} false).run store)).2
    (∀ q, q ≠ ["w".toList, "profiles.json".toList] → q ≠ ["w".toList, "profiles.tmp".toList] →
      left.tree.contents? q = Disk.numbered.tree.contents? q) ∧
      (left.exec (load (Path.ofText "others.json".toList))).1 = ok [] := by
  dsimp only
  have hstore : (Path.ofText "profiles.json".toList).place Disk.numbered.here =
      ["w".toList, "profiles.json".toList] := by
    decide +kernel
  have hbeside : (temporary (Path.ofText "profiles.json".toList)).place Disk.numbered.here =
      ["w".toList, "profiles.tmp".toList] := by
    decide +kernel
  obtain ⟨-, -, hsame, hother⟩ := contents_of_change "profiles.json".toList Disk.numbered
    (.add "n" "l.dts" "r.dts" {} false) _ rfl rfl
  rw [hstore, hbeside] at hsame hother
  exact ⟨hsame, hother "others.json".toList (by decide +kernel) (by decide +kernel)
    (.inl (by rfl))⟩

/-- A file with the name of the temporary file is lost, and a store in whose place a directory is
    made can no longer be loaded. -/
theorem contents_of_change_neighbours :
    let tree : FileTree := ⟨[(["w".toList], .directory),
      (["w".toList, "profiles.tmp".toList], .file [49])]⟩
    let left := ({ Disk.numbered with tree }.exec ((Call.add "n" "l.dts" "r.dts" {} false).run
      (Path.ofText "profiles.json".toList))).2
    let inside := (Disk.numbered.exec ((Call.add "n" "l.dts" "r.dts" {} false).run
      (Path.ofText "x/profiles.json".toList))).2
    tree.contents? ["w".toList, "profiles.tmp".toList] = some [49] ∧
      left.tree.contents? ["w".toList, "profiles.tmp".toList] = none ∧
      (Disk.numbered.exec (load (Path.ofText "x".toList))).1 = ok [] ∧
      (inside.exec (load (Path.ofText "x".toList))).1 =
        error (.reported (.unreadable (Path.ofText "x".toList)
          ⟨.isDirectory, [Path.ofText "x".toList]⟩)) := by
  refine ⟨?_, ?_, ?_, ?_⟩
  · rfl
  · rfl
  · rfl
  · rfl

end Store

end Devicetree
