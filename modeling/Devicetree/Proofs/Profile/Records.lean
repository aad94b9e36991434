-- SUMMARY: The profiles of a store are read back from its contents, field by field.
import Devicetree.Profile.Store
import Devicetree.Proofs.Json.Values
import Devicetree.Proofs.Text.LineFeeds

/-!
# Records

The record of a profile holds everything about it, so that the profile can be read back.
Names and paths may be any texts. Only the time of creation may be read as another number than
the one that was written, if that number is not read back from what it is written as.
-/

namespace Devicetree

open Except (ok)

/-! ## Records -/

namespace Profile

theorem readFilter_filterMembers (f : Filter) : readFilter (filterMembers f) = ok f := by
  have hlookup : ∀ (members : List (String × Bool)) (name : String),
      ((members.map fun m => (m.1, Json.bool m.2)).lookup name).map Json.isSet =
        members.lookup name := by
    intro members name
    induction members with
    | nil => rfl
    | cons m members ih =>
      obtain ⟨n, on⟩ := m
      rw [List.map_cons, List.lookup_cons, List.lookup_cons]
      dsimp only
      split
      · rfl
      · exact ih
  change ok (Filter.ofSettings fun name =>
    ((f.switches.map fun m => (m.1, Json.bool m.2)).lookup name).map Json.isSet) = _
  simp only [hlookup, Filter.ofSettings_lookup_switches]

/-- A profile is read back from its record. -/
theorem ofJson_toJson (p : Profile) : ofJson (toJson p) = ok p := by
  rw [ofJson]
  change (do
    let filter ← readFilter (filterMembers p.filter)
    ok { id := p.id, name := p.name, left := p.left, right := p.right, filter
         autoRefresh := p.autoRefresh, created := p.created }) = ok p
  rw [readFilter_filterMembers]
  rfl

theorem mapM_ofJson_toJson (ps : List Profile) : (ps.map toJson).mapM ofJson = ok ps := by
  induction ps with
  | nil => rfl
  | cons p ps ih =>
    rw [List.map_cons, List.mapM_cons, ofJson_toJson, ih]
    rfl

theorem listOfJson_listToJson (ps : List Profile) : listOfJson (listToJson ps) = ok ps :=
  mapM_ofJson_toJson ps

/-- A profile as it is read back from a store. -/
def reread (p : Profile) : Profile :=
  { p with created := Json.rereadReal p.created }

theorem reread_eq_self {p : Profile} (h : Json.ReadsBack p.created) : p.reread = p := by
  rw [reread, h.rereadReal]

theorem reread_toJson (p : Profile) : (toJson p).reread = toJson p.reread :=
  rfl

theorem reread_listToJson (ps : List Profile) :
    (listToJson ps).reread = listToJson (ps.map reread) := by
  have hrecords : (ps.map toJson).map Json.reread = (ps.map reread).map toJson := by
    rw [List.map_map, List.map_map]
    exact List.map_congr_left fun p _ => reread_toJson p
  rw [listToJson, listToJson, ← hrecords, ← Json.rereadItems_eq_map]
  rfl

open Json (Restorable)

theorem restorable_filterMembers (depth : Nat) (f : Filter) :
    Restorable (depth + 1) (filterMembers f) := by
  refine .obj ?_ fun m hm => ?_
  · simp [Filter.switches]
  · obtain ⟨s, -, rfl⟩ := List.mem_map.1 hm
    exact .bool _

theorem restorable_toJson (depth : Nat) (p : Profile) : Restorable (depth + 2) (toJson p) := by
  refine .obj (by simp) ?_
  simp only [List.forall_mem_cons, List.not_mem_nil, false_implies, implies_true, and_true]
  exact ⟨.str _, .str _, .str _, .str _, restorable_filterMembers depth _, .bool _, .real _⟩

theorem restorable_listToJson (depth : Nat) (ps : List Profile) :
    Restorable (depth + 4) (listToJson ps) := by
  refine .obj (by simp) ?_
  simp only [List.forall_mem_singleton]
  refine .arr fun v hv => ?_
  obtain ⟨p, -, rfl⟩ := List.mem_map.1 hv
  exact restorable_toJson depth p

end Profile

/-! ## Contents -/

theorem Text.universalNewlines_eq_self {t : Text} (h : '\r' ∉ t) : universalNewlines t = t := by
  have happend := universalNewlines_append h []
  rwa [List.append_nil, universalNewlines, List.append_nil] at happend

/-- The profiles that a store is written with are read back, but for their times of creation. -/
theorem Store.readContents_contents_eq_map (r : Runtime) (store : Path) (ps : List Profile) :
    readContents r.reading store (contents ps) = ok (ps.map Profile.reread) := by
  obtain ⟨more, hdepth⟩ := Nat.exists_eq_add_of_le' r.records
  have hreturn : '\r' ∉ (Profile.listToJson ps).pretty := Json.return_not_mem_indented 0 _
  rw [readContents, contents, Utf8.decode_encode]
  dsimp only
  rw [Text.universalNewlines_eq_self hreturn,
    Json.parse_pretty r.reading (hdepth ▸ Profile.restorable_listToJson more ps),
    Profile.reread_listToJson]
  dsimp only
  rw [Profile.listOfJson_listToJson]

/-- The profiles that a store is written with are read back if their times of creation are. -/
theorem Store.readContents_contents (r : Runtime) (store : Path) {ps : List Profile}
    (h : ∀ p ∈ ps, Json.ReadsBack p.created) :
    readContents r.reading store (contents ps) = ok ps := by
  rw [readContents_contents_eq_map, List.map_congr_left fun p hp => Profile.reread_eq_self (h p hp),
    List.map_id']

end Devicetree
