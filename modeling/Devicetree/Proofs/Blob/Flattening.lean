-- SUMMARY: A flattened tree is read as the tags that it was written as.
import Devicetree.Blob.Tag
import Mathlib.Data.List.Forall2

/-!
# Flattening

A tag is written as one word or more, and padded to a multiple of four octets; what it is
padded with does not matter. A row of tags that is written one behind the other, with the tag
for the end behind them, is read back as it was, whatever follows.
-/

namespace Devicetree

/-! ## Words -/

namespace Octets

/-- The four octets of a word. -/
def ofWord (n : Nat) : Octets :=
  [UInt8.ofNat (n / 0x1000000), UInt8.ofNat (n / 0x10000), UInt8.ofNat (n / 0x100), UInt8.ofNat n]

@[simp] theorem length_ofWord (n : Nat) : (ofWord n).length = 4 :=
  rfl

/-- A word is read back from its octets. -/
theorem word_ofWord {n : Nat} (hn : n < 0x100000000) (os : Octets) :
    word 0 (ofWord n ++ os) = n := by
  simp only [word, ofWord, number, List.drop_zero, List.cons_append, List.nil_append,
    List.take_succ_cons, List.take_zero, List.length_cons, List.length_nil, Nat.reduceAdd,
    Nat.sub_self, List.replicate_zero, List.append_nil, List.foldl_cons, List.foldl_nil,
    UInt8.toNat_ofNat']
  omega

/-- Words behind a word. -/
theorem word_ofWord_append (n offset : Nat) (os : Octets) :
    word (4 + offset) (ofWord n ++ os) = word offset os := by
  rw [word, word, ← List.drop_drop]
  rfl

end Octets

namespace Blob

open Octets (ofWord word word_ofWord word_ofWord_append)

/-! ## Tags -/

/-- The octets of a tag from version 16 on. Names end with a zero, and names and values are
    padded. -/
inductive TagKind.WrittenAs : TagKind → Octets → Prop
  | beginNode {name padding : Octets} (zero : 0 ∉ name)
      (size : name.length + 5 + padding.length = aligned (name.length + 5)) :
      WrittenAs (.beginNode name) (ofWord 1 ++ (name ++ 0 :: padding))
  | endNode : WrittenAs .endNode (ofWord 2)
  | property {nameOffset : Nat} {value padding : Octets} (offset : nameOffset < 0x100000000)
      (length : value.length < 0x100000000)
      (size : 12 + value.length + padding.length = aligned (12 + value.length)) :
      WrittenAs (.property nameOffset value)
        (ofWord 3 ++ (ofWord value.length ++ (ofWord nameOffset ++ (value ++ padding))))
  | filler : WrittenAs .filler (ofWord 4)

variable {version offset : Nat} {kind : TagKind} {octets rest : Octets}

/-- A tag is read back from its octets, whatever follows. -/
theorem TagKind.WrittenAs.readTag_eq (h : kind.WrittenAs octets) (hversion : 16 ≤ version)
    (offset : Nat) (rest : Octets) :
    readTag version offset (octets ++ rest) = .tag kind octets.length := by
  have hlong : ∀ (n : Nat) (os : Octets), ¬ (ofWord n ++ os).length < 4 := by
    intro n os
    simp
  cases h with
  | @beginNode name padding zero size =>
    have hsize : (ofWord 1 ++ (name ++ 0 :: padding)).length = aligned (name.length + 5) := by
      simp only [List.length_append, List.length_cons, Octets.length_ofWord, ← size]
      omega
    have hbehind : (ofWord 1 ++ (name ++ 0 :: (padding ++ rest))).drop 4 =
        name ++ 0 :: (padding ++ rest) := rfl
    have hname : (name ++ 0 :: (padding ++ rest)).takeWhile (· != 0) = name := by
      rw [List.takeWhile_append_of_pos, List.takeWhile_cons_of_neg (by simp), List.append_nil]
      exact fun o ho => bne_iff_ne.2 fun heq => zero (heq ▸ ho)
    rw [hsize, List.append_assoc, List.append_assoc, List.cons_append, readTag,
      if_neg (hlong 1 _), word_ofWord (by decide)]
    dsimp only
    rw [hbehind, hname, if_pos (by simp)]
    rfl
  | endNode =>
    rw [readTag, if_neg (hlong 2 _), word_ofWord (by decide)]
    rfl
  | @property nameOffset value padding small length size =>
    have hsize : (ofWord 3 ++ (ofWord value.length ++ (ofWord nameOffset ++ (value ++ padding)))).length
        = aligned (12 + value.length) := by
      simp only [List.length_append, Octets.length_ofWord, ← size]
      omega
    rw [hsize]
    simp only [List.append_assoc]
    generalize hos : ofWord 3 ++ (ofWord value.length ++ (ofWord nameOffset ++
      (value ++ (padding ++ rest)))) = os
    have hlength : word 4 os = value.length := by
      rw [← hos, word_ofWord_append 3 0, word_ofWord length]
    have hname : word 8 os = nameOffset := by
      rw [← hos, word_ofWord_append 3 4, word_ofWord_append _ 0, word_ofWord small]
    have hvalue : (os.drop 12).take value.length = value := by
      rw [← hos]
      exact List.take_left
    have hplain : valuePadding version offset value.length = 0 := by
      have hold : ¬ version < 16 := by omega
      simp [valuePadding, hold]
    have hfits : ¬ ((os.drop 4).length < 4 || os.length < 12 + value.length + 0) := by
      simp [← hos]
      omega
    have hword : word 0 os = 3 := by rw [← hos, word_ofWord (by decide)]
    rw [readTag, if_neg (hos ▸ hlong 3 _), hword]
    dsimp only
    rw [hlength, hplain, if_neg hfits, hname, hvalue]
    rfl
  | filler =>
    rw [readTag, if_neg (hlong 4 _), word_ofWord (by decide)]
    rfl

/-- The tag for the end is read from its octets, whatever follows. -/
theorem readTag_stop (version offset : Nat) (rest : Octets) :
    readTag version offset (ofWord 9 ++ rest) = .stop := by
  rw [readTag, if_neg (by simp), word_ofWord (by decide)]
  rfl

theorem TagKind.WrittenAs.ne_nil (h : kind.WrittenAs octets) : octets ≠ [] := by
  cases h with
  | _ => simp [ofWord]

/-! ## Rows of tags -/

theorem tagsFrom_append (version offset : Nat) (covered rest : Octets) :
    tagsFrom version covered.length offset (covered ++ rest) =
      tagsFrom version 0 (offset + covered.length) rest := by
  induction covered generalizing offset with
  | nil => rfl
  | cons o covered ih =>
    rw [List.length_cons, List.cons_append, tagsFrom, ih, Nat.add_right_comm, Nat.add_assoc]

theorem TagKind.WrittenAs.tagsFrom_eq (h : kind.WrittenAs octets) (hversion : 16 ≤ version) :
    tagsFrom version 0 offset (octets ++ rest) =
      ⟨⟨offset, kind⟩ :: (tagsFrom version 0 (offset + octets.length) rest).tags,
        (tagsFrom version 0 (offset + octets.length) rest).ending⟩ := by
  have hread := h.readTag_eq hversion offset rest
  obtain ⟨o, os, rfl⟩ := List.exists_cons_of_ne_nil h.ne_nil
  rw [List.cons_append] at hread ⊢
  rw [tagsFrom, hread]
  dsimp only
  rw [List.length_cons, Nat.add_sub_cancel, tagsFrom_append, Nat.add_right_comm, Nat.add_assoc]

/-- A row of tags is read back from its octets and the tag for the end, whatever follows. -/
theorem tags_flatten {kinds : List TagKind} {parts : List Octets}
    (h : List.Forall₂ TagKind.WrittenAs kinds parts) (hversion : 16 ≤ version) (rest : Octets) :
    (tags version (parts.flatten ++ (ofWord 9 ++ rest))).tags.map Tag.kind = kinds ∧
      (tags version (parts.flatten ++ (ofWord 9 ++ rest))).ending = .regular := by
  suffices hfrom : ∀ offset,
      (tagsFrom version 0 offset (parts.flatten ++ (ofWord 9 ++ rest))).tags.map Tag.kind = kinds ∧
        (tagsFrom version 0 offset (parts.flatten ++ (ofWord 9 ++ rest))).ending = .regular from
    hfrom 0
  induction h with
  | nil =>
    intro offset
    have hread := readTag_stop version offset rest
    have hstop : tagsFrom version 0 offset (ofWord 9 ++ rest) = ⟨[], .regular⟩ := by
      rw [ofWord, List.cons_append] at hread ⊢
      rw [tagsFrom, hread]
    simp [hstop]
  | cons hkind _ ih =>
    intro offset
    obtain ⟨hkinds, hending⟩ := ih (offset + _)
    rw [List.flatten_cons, List.append_assoc, hkind.tagsFrom_eq hversion]
    exact ⟨congrArg _ hkinds, hending⟩

end Blob

end Devicetree
