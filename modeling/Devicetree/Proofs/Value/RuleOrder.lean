-- SUMMARY: What the rules for values make of a property depends on which are applied, in no order.
import Devicetree.Proofs.Value.Spellings
import Devicetree.Source.Node

/-!
# Order of rules

The rule for arrays and lists moves blanks and lets none go that keeps literals apart; the rule for
literals writes digits and touches no bracket, quote, comma or blank. So the two commute. Each is
idempotent, so of a row of rules only the set matters: a property is spelled as its filter asks
for whatever order its rules come in, and however often each comes.
-/

namespace Devicetree

namespace Value

/-- A rule for values. -/
inductive Rule where
  | literals
  | lists
deriving DecidableEq, Repr

namespace Rule

/-- Respell a text by a rule. -/
def apply : Rule → Text → Text
  | literals, t => HexLiteral.normalize t
  | lists, t => normalizeLists t

/-- Respell a text by one rule after the other. -/
def applyAll (rs : List Rule) (t : Text) : Text :=
  rs.foldl (fun u r => r.apply u) t

theorem apply_apply_self (r : Rule) (t : Text) : r.apply (r.apply t) = r.apply t := by
  cases r with
  | literals => exact HexLiteral.normalize_normalize t
  | lists => exact normalizeLists_normalizeLists t

theorem apply_comm (r s : Rule) (t : Text) : r.apply (s.apply t) = s.apply (r.apply t) := by
  cases r <;> cases s
  case literals.literals => rfl
  case literals.lists => exact normalizeLists_literals t
  case lists.literals => exact (normalizeLists_literals t).symm
  case lists.lists => rfl

end Rule

/-- The filter that asks for the rules in a row, and else for what another filter asks for. -/
def asking (f : Filter) (rs : List Rule) : Filter :=
  { f with
    normalizeHexValues := rs.contains .literals
    normalizeArrays := rs.contains .lists }

theorem spell_asking (f : Filter) (rs : List Rule) (t : Text) :
    spell (asking f rs) t =
      let u := if rs.contains .literals then Rule.literals.apply t else t
      if rs.contains .lists then Rule.lists.apply u else u :=
  rfl

/-- A rule in front of others may as well be one of them. -/
theorem spell_asking_cons (f : Filter) (r : Rule) (rs : List Rule) (t : Text) :
    spell (asking f (r :: rs)) t = spell (asking f rs) (r.apply t) := by
  rw [spell_asking, spell_asking]
  cases r with
  | literals =>
    have hlists : (Rule.literals :: rs).contains .lists = rs.contains .lists := by simp
    have hliterals : (Rule.literals :: rs).contains .literals = true := by simp
    rw [hlists, hliterals, if_pos rfl, Rule.apply_apply_self, ite_self]
  | lists =>
    have hlists : (Rule.lists :: rs).contains .lists = true := by simp
    have hliterals : (Rule.lists :: rs).contains .literals = rs.contains .literals := by simp
    rw [hlists, hliterals, if_pos rfl]
    cases rs.contains .literals with
    | false => simp [Rule.apply_apply_self]
    | true =>
      -- The filter has literals respelled first, so the rule in front has to pass that one.
      have hcomm := Rule.apply_comm .literals .lists t
      simp [hcomm, Rule.apply_apply_self]

/-- A row of rules spells a text as the filter does that asks for them. -/
theorem applyAll_eq_spell (f : Filter) (rs : List Rule) (t : Text) :
    Rule.applyAll rs t = spell (asking f rs) t := by
  induction rs generalizing t with
  | nil => rfl
  | cons r rs ih => rw [spell_asking_cons, ← ih, Rule.applyAll, List.foldl_cons, Rule.applyAll]

/-- The rule for literals and the one for arrays and lists commute. A property is therefore spelled
the same way in whatever order the rules are applied that its filter asks for, and however often
each is applied. -/
theorem rules_commute (f : Filter) (rs : List Rule) (record : Text) :
    normalizeLists (HexLiteral.normalize record) =
        HexLiteral.normalize (normalizeLists record) ∧
      Property.ofRecord (asking f rs) record =
        { source := record
          spelling := Rule.applyAll rs record
          key := Line.propertyKey record } := by
  refine ⟨(normalizeLists_literals record).symm, ?_⟩
  rw [Property.ofRecord, applyAll_eq_spell f]

end Value

end Devicetree
