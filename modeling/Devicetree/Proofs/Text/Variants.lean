-- SUMMARY: Lists that differ in one place, and texts that differ in what one literal holds.
import Mathlib.Data.Multiset.AddSub
import Devicetree.Proofs.Text.LineFeeds
import Devicetree.Proofs.Text.Trimming

/-!
# Variants

Two texts are variants if they are the same but for what stands between two double
quotes. What cuts a text into lines, trims it or puts it together again never looks
past a quote further than to the next line feed, so variants are made into lists
that differ in one place, by variants again. Two such lists are different in any
order.
-/

namespace Devicetree

/-! ## Lists that differ in one place -/

/-- Two lists that are the same but for one place, at which a relation holds. -/
inductive OneApart {α : Type} (R : α → α → Prop) : List α → List α → Prop
  | here {a b : α} (h : R a b) (xs : List α) : OneApart R (a :: xs) (b :: xs)
  | later (x : α) {xs ys : List α} (h : OneApart R xs ys) : OneApart R (x :: xs) (x :: ys)

namespace OneApart

variable {α β : Type} {R : α → α → Prop} {S : β → β → Prop} {xs ys : List α}

theorem append_left (zs : List α) (h : OneApart R xs ys) : OneApart R (zs ++ xs) (zs ++ ys) := by
  induction zs with
  | nil => exact h
  | cons z zs ih => exact .later z ih

theorem length_eq (h : OneApart R xs ys) : xs.length = ys.length := by
  induction h with
  | here h xs => rfl
  | later x _ ih => rw [List.length_cons, List.length_cons, ih]

theorem map {g : α → β} (h : OneApart R xs ys) (hg : ∀ a b, R a b → S (g a) (g b)) :
    OneApart S (xs.map g) (ys.map g) := by
  induction h with
  | here h xs => exact .here (hg _ _ h) _
  | later x _ ih => exact .later (g x) ih

/-- A map that cannot tell the two elements apart cannot tell the lists apart. -/
theorem map_eq {g : α → β} (h : OneApart R xs ys) (hg : ∀ a b, R a b → g a = g b) :
    xs.map g = ys.map g := by
  induction h with
  | here h xs => rw [List.map_cons, List.map_cons, hg _ _ h]
  | later x _ ih => rw [List.map_cons, List.map_cons, ih]

theorem mono {R' : α → α → Prop} (h : OneApart R xs ys) (hR : ∀ a b, R a b → R' a b) :
    OneApart R' xs ys := by
  induction h with
  | here h xs => exact .here (hR _ _ h) xs
  | later x _ ih => exact .later x ih

/-- The two elements are elements of the two lists. -/
theorem with_mem (h : OneApart R xs ys) : OneApart (fun a b => R a b ∧ a ∈ xs ∧ b ∈ ys) xs ys := by
  induction h with
  | here h xs => exact .here ⟨h, by simp, by simp⟩ xs
  | later x _ ih =>
    exact .later x (ih.mono fun _ _ ⟨h, hxs, hys⟩ =>
      ⟨h, List.mem_cons_of_mem x hxs, List.mem_cons_of_mem x hys⟩)

theorem head?_any {p : α → Bool} (h : OneApart R xs ys) (hp : ∀ a b, R a b → p a = p b) :
    xs.head?.any p = ys.head?.any p := by
  cases h with
  | here h xs => exact hp _ _ h
  | later x _ => rfl

theorem filter {p : α → Bool} (h : OneApart R xs ys) (hp : ∀ a b, R a b → p a ∧ p b) :
    OneApart R (xs.filter p) (ys.filter p) := by
  induction h with
  | here h xs =>
    rw [List.filter_cons_of_pos (hp _ _ h).1, List.filter_cons_of_pos (hp _ _ h).2]
    exact .here h _
  | later x _ ih =>
    by_cases hx : p x
    · rw [List.filter_cons_of_pos hx, List.filter_cons_of_pos hx]
      exact .later x ih
    · rwa [List.filter_cons_of_neg hx, List.filter_cons_of_neg hx]

/-- Wherever two such lists are cut, they differ on one side only. -/
theorem take_drop (h : OneApart R xs ys) (n : Nat) :
    OneApart R (xs.take n) (ys.take n) ∧ xs.drop n = ys.drop n ∨
      xs.take n = ys.take n ∧ OneApart R (xs.drop n) (ys.drop n) := by
  induction h generalizing n with
  | here h xs =>
    cases n with
    | zero => exact .inr ⟨rfl, .here h xs⟩
    | succ n => exact .inl ⟨.here h _, rfl⟩
  | later x h ih =>
    cases n with
    | zero => exact .inr ⟨rfl, .later x h⟩
    | succ n =>
      rcases ih n with ⟨htake, hdrop⟩ | ⟨htake, hdrop⟩
      · exact .inl ⟨.later x htake, hdrop⟩
      · exact .inr ⟨congrArg (x :: ·) htake, hdrop⟩

theorem of_cons {a b : α} (h : OneApart R (a :: xs) (b :: ys)) :
    R a b ∧ xs = ys ∨ a = b ∧ OneApart R xs ys := by
  cases h with
  | here h _ => exact .inl ⟨h, rfl⟩
  | later _ h => exact .inr ⟨rfl, h⟩

theorem of_concat {a b : α} (h : OneApart R (xs ++ [a]) (ys ++ [b])) :
    OneApart R xs ys ∧ a = b ∨ xs = ys ∧ R a b := by
  have hlength : xs.length = ys.length := by
    simpa using h.length_eq
  have hcut := h.take_drop xs.length
  rw [List.take_left, List.drop_left, hlength, List.take_left, List.drop_left] at hcut
  rcases hcut with ⟨hxs, hlast⟩ | ⟨hxs, hlast⟩
  · exact .inl ⟨hxs, by simpa using hlast⟩
  · refine .inr ⟨hxs, ?_⟩
    cases hlast with
    | here h _ => exact h
    | later _ h => cases h

/-! ## The same in any order -/

/-- Two lists that can be put in orders in which they differ in one place. -/
def UpToOrder (R : α → α → Prop) (xs ys : List α) : Prop :=
  ∃ a b zs, R a b ∧ xs.Perm (a :: zs) ∧ ys.Perm (b :: zs)

theorem upToOrder (h : OneApart R xs ys) : UpToOrder R xs ys := by
  induction h with
  | here h xs => exact ⟨_, _, xs, h, .refl _, .refl _⟩
  | later x _ ih =>
    obtain ⟨a, b, zs, h, hxs, hys⟩ := ih
    exact ⟨a, b, x :: zs, h, (hxs.cons x).trans (.swap a x zs), (hys.cons x).trans (.swap b x zs)⟩

namespace UpToOrder

theorem of_perm {xs' ys' : List α} (h : UpToOrder R xs ys) (hxs : xs'.Perm xs)
    (hys : ys'.Perm ys) : UpToOrder R xs' ys' := by
  obtain ⟨a, b, zs, h, hx, hy⟩ := h
  exact ⟨a, b, zs, h, hxs.trans hx, hys.trans hy⟩

theorem mono {R' : α → α → Prop} (h : UpToOrder R xs ys) (hR : ∀ a b, R a b → R' a b) :
    UpToOrder R' xs ys := by
  obtain ⟨a, b, zs, h, hxs, hys⟩ := h
  exact ⟨a, b, zs, hR a b h, hxs, hys⟩

theorem append_right (h : UpToOrder R xs ys) (us : List α) :
    UpToOrder R (xs ++ us) (ys ++ us) := by
  obtain ⟨a, b, zs, h, hxs, hys⟩ := h
  exact ⟨a, b, zs ++ us, h, hxs.append_right us, hys.append_right us⟩

theorem append_left (us : List α) (h : UpToOrder R xs ys) :
    UpToOrder R (us ++ xs) (us ++ ys) :=
  (h.append_right us).of_perm List.perm_append_comm List.perm_append_comm

theorem flatMap {g : α → List β} (h : OneApart R xs ys)
    (hg : ∀ a ∈ xs, ∀ b ∈ ys, R a b → UpToOrder S (g a) (g b)) :
    UpToOrder S (xs.flatMap g) (ys.flatMap g) := by
  induction h with
  | here h xs =>
    rw [List.flatMap_cons, List.flatMap_cons]
    exact (hg _ (by simp) _ (by simp) h).append_right _
  | later x _ ih =>
    rw [List.flatMap_cons, List.flatMap_cons]
    exact (ih fun a ha b hb => hg a (by simp [ha]) b (by simp [hb])).append_left _

/-- If the two lists are one and the same, so are the two elements. -/
theorem exists_self (h : UpToOrder R xs xs) : ∃ a, R a a := by
  obtain ⟨a, b, zs, h, hxs, hys⟩ := h
  have heq : a ::ₘ (zs : Multiset α) = b ::ₘ (zs : Multiset α) :=
    Multiset.coe_eq_coe.2 (hxs.symm.trans hys)
  rw [Multiset.cons_inj_left] at heq
  subst heq
  exact ⟨a, h⟩

end UpToOrder

end OneApart

/-! ## Texts that differ in one literal -/

namespace Text

/-- A text with a literal somewhere in it. -/
def withLiteral (u v s : Text) : Text :=
  u ++ '"' :: (s ++ '"' :: v)

/-- Two texts that are the same but for what one literal holds. -/
def Varies (s t a b : Text) : Prop :=
  ∃ u v, a = withLiteral u v s ∧ b = withLiteral u v t

variable {s t a b : Text}

theorem withLiteral_nil (v s : Text) : withLiteral [] v s = '"' :: (s ++ ['"']) ++ v := by
  simp [withLiteral]

theorem withLiteral_cons (c : Char) (u v s : Text) :
    withLiteral (c :: u) v s = c :: withLiteral u v s := rfl

theorem append_withLiteral (w u v s : Text) : w ++ withLiteral u v s = withLiteral (w ++ u) v s := by
  simp [withLiteral]

theorem withLiteral_append (u v s w : Text) : withLiteral u v s ++ w = withLiteral u (v ++ w) s := by
  simp [withLiteral]

theorem trimStart_append_quote (u r : Text) :
    trimStart (u ++ '"' :: r) = trimStart u ++ '"' :: r := by
  by_cases hu : trimStart u = []
  · rw [trimStart_append_of_blank (trimStart_eq_nil_iff.1 hu), hu, trimStart,
      List.dropWhile_cons_of_neg (by decide)]
    rfl
  · exact trimStart_append_of_ne_nil hu _

theorem trimEnd_append_quote (r v : Text) : trimEnd (r ++ '"' :: v) = r ++ '"' :: trimEnd v := by
  induction r with
  | nil =>
    rw [List.nil_append, trimEnd, List.nil_append]
    cases trimEnd v with
    | nil => rfl
    | cons c cs => rfl
  | cons c cs ih =>
    rw [List.cons_append, trimEnd, ih]
    cases cs <;> rfl

theorem trimEnd_withLiteral (u v s : Text) :
    trimEnd (withLiteral u v s) = withLiteral u (trimEnd v) s := by
  have hsplit : ∀ w : Text, withLiteral u w s = (u ++ '"' :: s) ++ '"' :: w := by
    simp [withLiteral]
  rw [hsplit, trimEnd_append_quote, ← hsplit]

theorem trim_withLiteral (u v s : Text) :
    trim (withLiteral u v s) = withLiteral (trimStart u) (trimEnd v) s := by
  rw [trim, withLiteral, trimStart_append_quote]
  exact trimEnd_withLiteral _ _ _

namespace Varies

theorem append_left (w : Text) (h : Varies s t a b) : Varies s t (w ++ a) (w ++ b) := by
  obtain ⟨u, v, rfl, rfl⟩ := h
  exact ⟨w ++ u, v, append_withLiteral w u v s, append_withLiteral w u v t⟩

theorem append_right (h : Varies s t a b) (w : Text) : Varies s t (a ++ w) (b ++ w) := by
  obtain ⟨u, v, rfl, rfl⟩ := h
  exact ⟨u, v ++ w, withLiteral_append u v s w, withLiteral_append u v t w⟩

theorem cons (c : Char) (h : Varies s t a b) : Varies s t (c :: a) (c :: b) :=
  h.append_left [c]

theorem trimEnd (h : Varies s t a b) : Varies s t (trimEnd a) (trimEnd b) := by
  obtain ⟨u, v, rfl, rfl⟩ := h
  exact ⟨u, Text.trimEnd v, trimEnd_withLiteral u v s, trimEnd_withLiteral u v t⟩

theorem trim (h : Varies s t a b) : Varies s t (trim a) (trim b) := by
  obtain ⟨u, v, rfl, rfl⟩ := h
  exact ⟨trimStart u, Text.trimEnd v, trim_withLiteral u v s, trim_withLiteral u v t⟩

theorem quote_mem (h : Varies s t a b) : '"' ∈ a ∧ '"' ∈ b := by
  obtain ⟨u, v, rfl, rfl⟩ := h
  simp [withLiteral]

theorem isEmpty (h : Varies s t a b) : a.isEmpty = false ∧ b.isEmpty = false := by
  obtain ⟨u, v, rfl, rfl⟩ := h
  simp [withLiteral]

theorem getLast?_eq (h : Varies s t a b) : a.getLast? = b.getLast? := by
  obtain ⟨u, v, rfl, rfl⟩ := h
  simp [withLiteral, List.getLast?_append, List.getLast?_cons]

theorem head?_eq (h : Varies s t a b) : a.head? = b.head? := by
  obtain ⟨u, v, rfl, rfl⟩ := h
  cases u <;> rfl

/-- A character occurs in the texts more or less often as it does in the literals. -/
theorem count_add (h : Varies s t a b) (c : Char) :
    a.count c + t.count c = b.count c + s.count c := by
  obtain ⟨u, v, rfl, rfl⟩ := h
  simp only [withLiteral, List.count_append, List.count_cons]
  omega

/-- Where the texts are the same, so are the literals. -/
theorem eq_of_self (h : Varies s t a a) : s = t := by
  obtain ⟨u, v, hs, ht⟩ := h
  have heq : withLiteral u v s = withLiteral u v t := hs.symm.trans ht
  simpa [withLiteral] using heq

end Varies

/-! ## Lines of variants -/

/-- What holds no line feed stands in front of the first line. -/
theorem exists_lines_append {w : Text} (hw : '\n' ∉ w) (r : Text) :
    ∃ l ls, lines r = l :: ls ∧ lines (w ++ r) = (w ++ l) :: ls := by
  induction w with
  | nil =>
    cases hr : lines r with
    | nil => exact absurd hr (lines_ne_nil r)
    | cons l ls => exact ⟨l, ls, rfl, hr⟩
  | cons c cs ih =>
    have hc : c ≠ '\n' := fun heq => hw (by simp [heq])
    obtain ⟨l, ls, hr, hlines⟩ := ih fun hmem => hw (by simp [hmem])
    refine ⟨l, ls, hr, ?_⟩
    rw [List.cons_append, lines, if_neg hc, hlines]
    rfl

/-- The lines of variants differ in one line, the one in which the literal stands. -/
theorem Varies.lines (hs : '\n' ∉ s) (ht : '\n' ∉ t) (h : Varies s t a b) :
    OneApart (Varies s t) (lines a) (lines b) := by
  obtain ⟨u, v, rfl, rfl⟩ := h
  induction u with
  | nil =>
    obtain ⟨l, ls, hv, hlines⟩ := exists_lines_append (w := '"' :: (s ++ ['"'])) (by simpa) v
    obtain ⟨l', ls', hv', hlines'⟩ := exists_lines_append (w := '"' :: (t ++ ['"'])) (by simpa) v
    obtain ⟨rfl, rfl⟩ := List.cons.inj (hv.symm.trans hv')
    rw [withLiteral_nil, withLiteral_nil, hlines, hlines']
    exact .here ⟨[], l, by simp [withLiteral], by simp [withLiteral]⟩ ls
  | cons c cs ih =>
    rw [withLiteral_cons, withLiteral_cons, Text.lines, Text.lines]
    by_cases hc : c = '\n'
    · rw [if_pos hc, if_pos hc]
      exact .later [] ih
    · rw [if_neg hc, if_neg hc]
      generalize Text.lines (withLiteral cs v s) = ls at ih ⊢
      generalize Text.lines (withLiteral cs v t) = ks at ih ⊢
      cases ih with
      | here h ls => exact .here (h.cons c) ls
      | later l h => exact .later (c :: l) h

/-- Lines that differ in one, put together, are variants. -/
theorem varies_unlines {ls ks : List Line} (h : OneApart (Varies s t) ls ks) :
    Varies s t (unlines ls) (unlines ks) := by
  induction h with
  | @here a b h ls =>
    cases ls with
    | nil => exact h
    | cons k ks => exact h.append_right _
  | @later l ls ks h ih =>
    have hls : ls ≠ [] := by cases h <;> simp
    have hks : ks ≠ [] := by cases h <;> simp
    rw [unlines.eq_3 l ls hls, unlines.eq_3 l ks hks]
    exact (ih.cons '\n').append_left l

end Text

end Devicetree
