import Mathlib.Data.List.Basic
import Mathlib.Data.List.Induction
import Mathlib.Order.Defs.Unbundled

/-!
# Lists that grow at the end

`Grows P xs ys`: `ys` is `xs` with entries added at the end, one after the other, each of which `P`
relates to the list that it was added to.
-/

namespace Myco.Lib

inductive Grows {α : Type} (P : List α → α → Prop) (xs : List α) : List α → Prop
  | refl : Grows P xs xs
  | snoc {ys : List α} {y : α} : Grows P xs ys → P ys y → Grows P xs (ys ++ [y])

variable {α : Type} {P Q : List α → α → Prop} {xs ys zs : List α}

/-- A statement about every place of a list, for one entry more. -/
theorem forall_split_concat {x : α} :
    (∀ pre y post, xs ++ [x] = pre ++ y :: post → P pre y) ↔
      (∀ pre y post, xs = pre ++ y :: post → P pre y) ∧ P xs x := by
  refine ⟨fun h => ⟨fun pre y post he => ?_, h xs x [] rfl⟩, fun h pre y post he => ?_⟩
  · exact h pre y (post ++ [x]) (by rw [he, List.append_assoc]; rfl)
  · rcases List.eq_nil_or_concat' post with rfl | ⟨post, z, rfl⟩
    · obtain ⟨rfl, hx⟩ := List.append_inj' he rfl
      cases hx
      exact h.2
    · rw [← List.cons_append, ← List.append_assoc] at he
      exact h.1 pre y post (List.append_inj' he rfl).1

namespace Grows

theorem trans (h : Grows P xs ys) (h' : Grows P ys zs) : Grows P xs zs := by
  induction h' with
  | refl => exact h
  | snoc _ hy ih => exact ih.snoc hy

theorem isPrefix (h : Grows P xs ys) : xs <+: ys := by
  induction h with
  | refl => exact List.prefix_refl xs
  | @snoc ys y _ _ ih => exact ih.trans (List.prefix_append ys [y])

/-- Another `Q`, which may look back at the list that was there at first. -/
theorem mono_of_prefix (h : Grows P xs ys) (hPQ : ∀ l y, xs <+: l → P l y → Q l y) :
    Grows Q xs ys := by
  induction h with
  | refl => exact .refl
  | snoc hxs hy ih => exact ih.snoc (hPQ _ _ hxs.isPrefix hy)

theorem mono (h : Grows P xs ys) (hPQ : ∀ l y, P l y → Q l y) : Grows Q xs ys :=
  h.mono_of_prefix fun l y _ => hPQ l y

/-- Entries that may be added to any list. -/
theorem of_forall_mem {es : List α} (h : ∀ e ∈ es, ∀ l, P l e) : Grows P xs (xs ++ es) := by
  induction es using List.reverseRecOn with
  | nil =>
    rw [List.append_nil]
    exact .refl
  | append_singleton es e ih =>
    rw [List.forall_mem_append] at h
    rw [← List.append_assoc]
    exact (ih h.1).snoc (h.2 e (List.mem_singleton_self e) _)

/-- A part of what has grown has grown too. -/
theorem of_prefix (h : Grows P xs ys) (hx : xs <+: zs) (hy : zs <+: ys) : Grows P xs zs := by
  induction h with
  | refl => rw [← hx.eq_of_length_le hy.length_le]; exact .refl
  | @snoc ys y h hP ih =>
    rcases List.prefix_concat_iff.1 hy with rfl | hy
    · exact h.snoc hP
    · exact ih hy

/-- Two statements about how the same list has grown. -/
theorem and (h : Grows P xs ys) (h' : Grows Q xs ys) : Grows (fun l y => P l y ∧ Q l y) xs ys := by
  induction h with
  | refl => exact .refl
  | @snoc ys y hxs hy ih =>
    have hq : Q ys y := by
      generalize hz : ys ++ [y] = zs at h'
      cases h' with
      | refl =>
        have hlen := congrArg List.length hz
        have hle := hxs.isPrefix.length_le
        rw [List.length_append, List.length_singleton] at hlen
        omega
      | snoc _ hlast =>
        obtain ⟨rfl, hcons⟩ := List.append_inj' hz rfl
        cases hcons
        exact hlast
    exact (ih (h'.of_prefix hxs.isPrefix (List.prefix_append ys [y]))).snoc ⟨hy, hq⟩

instance : IsPreorder (List α) (Grows P) where
  refl _ := .refl
  trans _ _ _ := .trans

/-- What is added, and where each entry was added. -/
theorem exists_append (h : Grows P xs ys) : ∃ es, ys = xs ++ es ∧
    ∀ as e bs, es = as ++ e :: bs → P (xs ++ as) e := by
  induction h with
  | refl => exact ⟨[], by simp, by simp⟩
  | @snoc ys y _ hy ih =>
    obtain ⟨es, rfl, hes⟩ := ih
    exact ⟨es ++ [y], List.append_assoc .., forall_split_concat.2 ⟨hes, hy⟩⟩

theorem exists_forall (h : Grows P xs ys) :
    ∃ es, ys = xs ++ es ∧ ∀ e ∈ es, ∃ l, P l e := by
  obtain ⟨es, hys, hes⟩ := h.exists_append
  refine ⟨es, hys, fun e he => ?_⟩
  obtain ⟨as, bs, has⟩ := List.append_of_mem he
  exact ⟨_, hes as e bs has⟩

end Grows

end Myco.Lib
