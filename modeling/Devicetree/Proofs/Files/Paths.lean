-- SUMMARY: A place is written and read back as its path from the root, which leads to the place.
import Devicetree.Proofs.Files.Trees
import Mathlib.Data.List.Flatten
import Mathlib.Data.List.Induction

/-!
# Paths from the root

A path may be followed as it is written, by its names without the single dots, or by the place
that it stands for, written from the root. All three lead to the same file, unless the path from
the root is too long to be asked for, and the last two end in the same name.
-/

namespace Devicetree

open Except (ok error)

/-! ## Names -/

/-- What an entry of a directory can be called. -/
structure IsName (name : Text) : Prop where
  ne_nil : name ≠ []
  slash : '/' ∉ name
  ne_dot : name ≠ ['.']
  ne_dots : name ≠ ['.', '.']

namespace Place

/-- Every name of a place is one that an entry can have. -/
def IsProper (q : Place) : Prop :=
  ∀ name ∈ q, IsName name

/-- Every name of a place is short enough to be followed. -/
def IsShort (q : Place) : Prop :=
  ∀ name ∈ q, ¬ FileTree.exceeds FileTree.nameLimit name

end Place

namespace Path

/-! ## Pieces between slashes -/

theorem slash_not_mem_pieces {t name : Text} (h : name ∈ pieces t) : '/' ∉ name := by
  induction t generalizing name with
  | nil =>
    rw [List.mem_singleton.1 h]
    simp
  | cons c t ih =>
    rw [pieces] at h
    split at h
    · rcases List.mem_cons.1 h with rfl | h
      · simp
      · exact ih h
    · rename_i hc
      split at h
      · rw [List.mem_singleton.1 h]
        simpa using Ne.symm hc
      · rename_i p ps heq
        rw [heq] at ih
        rcases List.mem_cons.1 h with rfl | h
        · simpa [Ne.symm hc] using ih List.mem_cons_self
        · exact ih (List.mem_cons_of_mem p h)

theorem pieces_of_not_mem {name : Text} (h : '/' ∉ name) : pieces name = [name] := by
  induction name with
  | nil => rfl
  | cons c name ih =>
    rw [List.mem_cons, not_or] at h
    rw [pieces, if_neg (Ne.symm h.1), ih h.2]

theorem pieces_append_slash {name : Text} (h : '/' ∉ name) (rest : Text) :
    pieces (name ++ '/' :: rest) = name :: pieces rest := by
  induction name with
  | nil => rfl
  | cons c name ih =>
    rw [List.mem_cons, not_or] at h
    rw [List.cons_append, pieces, if_neg (Ne.symm h.1), ih h.2]

/-- Names that are put together with slashes are cut apart again. -/
theorem pieces_intercalate {names : List Text} (hne : names ≠ []) (h : ∀ name ∈ names, '/' ∉ name) :
    pieces (['/'].intercalate names) = names := by
  induction names with
  | nil => exact absurd rfl hne
  | cons name names ih =>
    obtain ⟨hname, hnames⟩ := List.forall_mem_cons.1 h
    cases names with
    | nil => simpa using pieces_of_not_mem hname
    | cons next names =>
      rw [List.intercalate_cons_cons, List.append_assoc, List.singleton_append,
        pieces_append_slash hname, ih (by simp) hnames]

/-! ## Places as paths -/

theorem anchorOf_slash {t : Text} (h : t.head? ≠ some '/') : anchorOf ('/' :: t) = .root := by
  match t with
  | [] => rfl
  | c :: t =>
    have hc : c ≠ '/' := by simpa using h
    unfold anchorOf
    split
    · rename_i heq
      simp [hc] at heq
    · rename_i heq
      simp [hc] at heq
    · rfl
    · rename_i hno
      exact absurd rfl (hno (c :: t))

/-- The path from the root to a place is read back from what it is written as. -/
theorem ofText_ofPlace {q : Place} (hq : q.IsProper) :
    ofText (ofPlace q).string.toList = ofPlace q := by
  have htext : (ofPlace q).string.toList = '/' :: ['/'].intercalate q := by
    rw [string, String.toList_ofList]
    rfl
  have hpieces : (pieces (['/'].intercalate q)).filter (fun p => !p.isEmpty && p != ['.']) = q := by
    cases q with
    | nil => rfl
    | cons name names =>
      rw [pieces_intercalate (by simp) fun name hname => (hq name hname).slash]
      exact List.filter_eq_self.2 fun name hname => by
        simp [(hq name hname).ne_nil, (hq name hname).ne_dot]
  have hhead : (['/'].intercalate q).head? ≠ some '/' := by
    cases q with
    | nil => simp
    | cons name names =>
      have hname := hq name List.mem_cons_self
      obtain ⟨c, cs, rfl⟩ := List.exists_cons_of_ne_nil hname.ne_nil
      have hc : c ≠ '/' := fun heq => hname.slash (heq ▸ List.mem_cons_self)
      cases names with
      | nil => simpa using hc
      | cons next names => simpa using hc
  rw [htext, ofText, anchorOf_slash hhead, pieces, if_pos rfl, List.filter_cons_of_neg (by simp),
    hpieces]
  rfl

/-! ## Walking -/

theorem isProper_walk {place : Place} (hplace : place.IsProper) {names : List Text}
    (h : ∀ name ∈ names, name ≠ [] ∧ '/' ∉ name ∧ name ≠ ['.']) :
    Place.IsProper (walk place names) := by
  induction names generalizing place with
  | nil => exact hplace
  | cons name names ih =>
    obtain ⟨⟨hne, hslash, hdot⟩, hnames⟩ := List.forall_mem_cons.1 h
    rw [walk]
    split
    · exact ih (fun name hname => hplace name (List.dropLast_subset _ hname)) hnames
    · rename_i hdots
      refine ih (List.forall_mem_append.2 ⟨hplace, ?_⟩) hnames
      exact List.forall_mem_singleton.2 ⟨hne, hslash, hdot, hdots⟩

/-- A written path stands for a proper place, seen from a proper one. -/
theorem isProper_place {here : Place} (hhere : here.IsProper) (t : Text) :
    Place.IsProper ((ofText t).place here) := by
  rw [place_eq_walk]
  refine isProper_walk ?_ fun name hname => ?_
  · cases (ofText t).anchor with
    | here => exact hhere
    | root => exact fun _ h => nomatch h
    | doubleRoot => exact fun _ h => nomatch h
  · obtain ⟨hpiece, hkept⟩ := List.mem_filter.1 hname
    rw [Bool.and_eq_true] at hkept
    exact ⟨by simpa using hkept.1, slash_not_mem_pieces hpiece, by simpa using hkept.2⟩

/-! ## Single dots -/

/-- The names of a path as it is written are its names with dots among them. -/
theorem filter_written_names (t : Text) :
    (written t).names.filter (· != ['.']) = (ofText t).names := by
  rw [written, ofText, List.filter_append, List.filter_filter]
  split
  · simp [Bool.and_comm]
  · simp [Bool.and_comm]

theorem text_eq (p : Path) :
    p.text = if p.anchor = .here ∧ p.names = [] then ['.']
      else anchorText p.anchor ++ ['/'].intercalate p.names := by
  obtain ⟨anchor, names⟩ := p
  cases anchor with
  | here =>
    cases names with
    | nil => rfl
    | cons name names => rfl
  | root => rfl
  | doubleRoot => rfl

theorem intercalate_sublist (separator : Text) {names more : List Text} (h : names.Sublist more) :
    (separator.intercalate names).Sublist (separator.intercalate more) := by
  induction h with
  | slnil => exact .refl _
  | @cons names more name h ih =>
    cases more with
    | nil =>
      rw [List.eq_nil_of_sublist_nil h]
      exact List.nil_sublist _
    | cons next more =>
      rw [List.intercalate_cons_cons]
      exact ih.trans (List.sublist_append_right _ _)
  | @cons_cons names more name h ih =>
    cases names with
    | nil =>
      cases more with
      | nil => exact .refl _
      | cons next more =>
        rw [List.intercalate_singleton, List.intercalate_cons_cons, List.append_assoc]
        exact List.sublist_append_left _ _
    | cons first names =>
      cases more with
      | nil => cases h
      | cons next more =>
        rw [List.intercalate_cons_cons, List.intercalate_cons_cons]
        exact (List.Sublist.refl _).append ih

end Path

namespace FileTree

open Devicetree.Path

variable {t : FileTree} {here place q : Place} {names : List Text} {side : Text}

theorem not_exceeds_of_sublist {limit : Nat} {s s' : Text} (h : s.Sublist s')
    (hshort : ¬ exceeds limit s') : ¬ exceeds limit s := by
  have hlength : (Utf8.encode s).length ≤ (Utf8.encode s').length := (h.flatMap _).length_le
  simp only [exceeds, decide_eq_true_eq] at hshort ⊢
  omega

/-- A path is not longer than it was written, unless it is a lone dot. -/
theorem not_exceeds_ofText (hshort : ¬ exceeds pathLimit (written side).text) :
    ¬ exceeds pathLimit (ofText side).text := by
  have hnames : (ofText side).names.Sublist (written side).names := by
    rw [← filter_written_names]
    exact List.filter_sublist
  have hanchor : (written side).anchor = (ofText side).anchor := rfl
  rw [text_eq, hanchor] at hshort
  rw [text_eq]
  split
  · decide
  · rename_i hsomewhere
    rw [if_neg] at hshort
    · exact not_exceeds_of_sublist ((List.Sublist.refl _).append (intercalate_sublist _ hnames))
        hshort
    · rintro ⟨hhere, hnil⟩
      rw [hnil] at hnames
      exact hsomewhere ⟨hhere, List.eq_nil_of_sublist_nil hnames⟩

/-- Single dots can be left out on the way to a place. -/
theorem follow_filter_dot (h : t.follow place names = ok q) :
    t.follow place (names.filter (· != ['.'])) = ok q := by
  induction names generalizing place with
  | nil => exact h
  | cons name names ih =>
    obtain ⟨hdirectory, hshort, hrest⟩ := follow_cons_eq_ok_iff.1 h
    by_cases hdot : name = ['.']
    · rw [List.filter_cons_of_neg (by simp [hdot])]
      rw [enter, if_pos hdot] at hrest
      exact ih hrest
    · rw [List.filter_cons_of_pos (by simp [hdot])]
      exact follow_cons_eq_ok_iff.2 ⟨hdirectory, hshort, ih hrest⟩

/-- What stands at a path as it is written stands at the path. -/
theorem look_ofText {e : Entry} (h : t.look here (written side) = ok e) :
    t.look here (ofText side) = ok e := by
  obtain ⟨hshort, q, hf, hq⟩ := look_eq_ok_iff.1 h
  have hf' := follow_filter_dot hf
  rw [filter_written_names] at hf'
  exact look_eq_ok_iff.2 ⟨not_exceeds_ofText hshort, q, hf', hq⟩

/-! ## Files -/

variable {octets : Octets}

theorem read_eq_ok_iff {p : Path} :
    t.read here p = ok octets ↔ t.look here p = ok (.file octets) := by
  rw [read]
  cases t.look here p with
  | error o => simp
  | ok e =>
    cases e with
    | file contents => simp
    | directory => simp

/-- A path that leads to a file leads to the place that it stands for. -/
theorem find?_place {e : Entry} (h : t.look here (ofText side) = ok e) :
    t.find? ((ofText side).place here) = some e := by
  obtain ⟨-, q, hf, hq⟩ := look_eq_ok_iff.1 h
  rwa [place_eq_walk, ← follow_eq_walk (isPlain_ofText side) hf]

/-! ## From the root -/

variable {t' : FileTree}

/-- Only short names are followed. -/
theorem isShort_of_follow (hplace : place.IsShort) (hf : t.follow place names = ok q) :
    q.IsShort := by
  induction names generalizing place with
  | nil =>
    cases hf
    exact hplace
  | cons name names ih =>
    obtain ⟨-, hname, hrest⟩ := follow_cons_eq_ok_iff.1 hf
    refine ih ?_ hrest
    rw [enter]
    split
    · exact hplace
    · split
      · exact fun name hname => hplace name (List.dropLast_subset _ hname)
      · exact List.forall_mem_append.2 ⟨hplace, List.forall_mem_singleton.2 hname⟩

/-- A path that leads somewhere stands for a place with short names, seen from such a place. -/
theorem isShort_place (hhere : here.IsShort) {e : Entry} (h : t.look here (ofText side) = ok e) :
    Place.IsShort ((ofText side).place here) := by
  obtain ⟨-, q, hf, -⟩ := look_eq_ok_iff.1 h
  rw [place_eq_walk, ← follow_eq_walk (isPlain_ofText side) hf]
  refine isShort_of_follow ?_ hf
  cases (ofText side).anchor with
  | here => exact hhere
  | root => exact fun _ h => nomatch h
  | doubleRoot => exact fun _ h => nomatch h

/-- What stands at a place is come to from the root by the names of the place, as long as the
directories around it are there. -/
theorem follow_place (hnested : t.IsNested) (hreaches : t.Reaches t') (hproper : q.IsProper)
    (hshort : q.IsShort) {e : Entry} (h : t.find? q = some e) : t'.follow [] q = ok q := by
  induction q using List.reverseRecOn generalizing e with
  | nil => rfl
  | append_singleton q name ih =>
    obtain ⟨hproper, hname⟩ := List.forall_mem_append.1 hproper
    obtain ⟨hshort, hlength⟩ := List.forall_mem_append.1 hshort
    have hdirectory := hnested _ _ h
    rw [List.dropLast_concat] at hdirectory
    refine follow_append_eq_ok_iff.2 ⟨q, ih hproper hshort hdirectory, ?_⟩
    refine follow_cons_eq_ok_iff.2
      ⟨hreaches q hdirectory, hlength name (List.mem_singleton_self name), ?_⟩
    have hproper := hname name (List.mem_singleton_self name)
    rw [enter, if_neg hproper.ne_dot, if_neg hproper.ne_dots, follow]

/-- A file is read at its path from the root, if that is not too long. -/
theorem read_ofPlace (hnested : t.IsNested) (hreaches : t.Reaches t') (hproper : here.IsProper)
    (hshort : here.IsShort) {contents : Octets}
    (hread : t.read here (ofText side) = ok contents)
    (hread' : t'.read here (ofText side) = ok octets)
    (hpath : ¬ exceeds pathLimit (ofPlace ((ofText side).place here)).text) :
    t'.read here (ofPlace ((ofText side).place here)) = ok octets := by
  have hlook := read_eq_ok_iff.1 hread
  have hfollow := follow_place hnested hreaches (isProper_place hproper side)
    (isShort_place hshort hlook) (find?_place hlook)
  exact read_eq_ok_iff.2
    (look_eq_ok_iff.2 ⟨hpath, _, hfollow, find?_place (read_eq_ok_iff.1 hread')⟩)

theorem look_of_exceeds {p : Path} (h : exceeds pathLimit p.text) :
    t.look here p = error .nameTooLong := by
  rw [look, if_pos h]

/-- The path to a file and its path from the root end in the same name. -/
theorem ending_ofPlace (hnested : t.IsNested) (hhere : t.find? here = some .directory)
    (hlook : t.look here (ofText side) = ok (.file octets)) :
    (ofPlace ((ofText side).place here)).ending = (ofText side).ending := by
  have hne : (ofText side).names ≠ [] := by
    intro hnil
    have hplace := find?_place hlook
    rw [place_eq_walk, hnil, walk] at hplace
    cases hanchor : (ofText side).anchor with
    | here =>
      rw [hanchor, start, hhere] at hplace
      cases hplace
    | root | doubleRoot =>
      rw [hanchor, start, find?_root] at hplace
      cases hplace
      all_goals simp
  obtain ⟨q, htarget, -⟩ := target_of_look_file hnested (isPlain_ofText side) hne hlook
  obtain ⟨-, names, name, r, hnames, -, -, -, -, hq⟩ := target_eq_some_iff.1 htarget
  have hlast : (ofPlace ((ofText side).place here)).lastName = (ofText side).lastName := by
    rw [← target_eq_place (isPlain_ofText side) htarget, hq, lastName, lastName, hnames, ofPlace]
    simp
  rw [ending, hlast, ending]

end FileTree

end Devicetree
