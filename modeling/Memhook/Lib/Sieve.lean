import Mathlib.Data.List.Basic
import Mathlib.Data.List.Nodup
import Mathlib.Data.List.Perm.Basic

/-!
# Sieves

A sieve is a test with a memory: it accepts or rejects an element and may change by
looking at it.  `sift` passes a list through one sieve.  Several sieves in a row look at
one element after the other, and the first that rejects an element keeps it from the
sieves behind; `sift_row_cons` says that this is the same as passing the whole list
through the first sieve and what is left through the others.

`mark` is a memory that is fixed by the first element whose mark is not neutral: it pairs
each element with the mark in force when the element was looked at.  A sieve whose only
memory is such a mark is, by `sift_eq_mark`, a plain filter of the pairs, so two
traversals that pair alike leave the same elements.
-/

namespace Sieve

variable {α σ μ : Type*}

/-- The elements that pass a sieve. -/
def sift (test : σ → α → Bool × σ) : σ → List α → List α
  | _, [] => []
  | s, x :: xs =>
      if (test s x).1 then x :: sift test (test s x).2 xs else sift test (test s x).2 xs

/-- Sieves in a row.  Those behind the first that rejects do not see the element. -/
def row (test : σ → α → Bool × σ) : List σ → α → Bool × List σ
  | [], _ => (true, [])
  | s :: ss, x =>
      if (test s x).1 then ((row test ss x).1, (test s x).2 :: (row test ss x).2)
      else (false, (test s x).2 :: ss)

variable {test : σ → α → Bool × σ}

theorem sift_sublist (s : σ) (l : List α) : (sift test s l).Sublist l := by
  induction l generalizing s with
  | nil => exact List.Sublist.refl _
  | cons x xs ih =>
      unfold sift
      split
      · exact (ih _).cons_cons x
      · exact (ih _).cons x

@[simp] theorem sift_row_nil (l : List α) : sift (row test) [] l = l := by
  induction l with
  | nil => rfl
  | cons x xs ih => simp [sift, row, ih]

/-- A row of sieves is its first sieve, and the others on what is left. -/
theorem sift_row_cons (s : σ) (ss : List σ) (l : List α) :
    sift (row test) (s :: ss) l = sift (row test) ss (sift test s l) := by
  induction l generalizing s ss with
  | nil => rfl
  | cons x xs ih =>
      by_cases hs : (test s x).1
      · -- the first sieve lets the element pass, and the others look at it
        by_cases hss : (row test ss x).1 <;> simp [sift, row, hs, hss, ih]
      · simp [sift, row, hs, ih]

theorem sift_row_append (ss ss' : List σ) (l : List α) :
    sift (row test) (ss ++ ss') l = sift (row test) ss' (sift (row test) ss l) := by
  induction ss generalizing l with
  | nil => simp
  | cons s ss ih => rw [List.cons_append, sift_row_cons, ih, sift_row_cons]

/-! ## Marks -/

variable [DecidableEq μ]

/-- The mark in force at each element: the first one that is not neutral stays. -/
def mark (neutral : μ) (f : α → μ) : μ → List α → List (α × μ)
  | _, [] => []
  | m, x :: xs =>
      (x, if m = neutral then f x else m) :: mark neutral f (if m = neutral then f x else m) xs

variable {neutral : μ} {f : α → μ}

@[simp] theorem map_fst_mark (neutral : μ) (f : α → μ) (m : μ) (l : List α) :
    (mark neutral f m l).map Prod.fst = l := by
  induction l generalizing m with
  | nil => rfl
  | cons x xs ih => simp [mark, ih]

theorem nodup_mark (m : μ) {l : List α} (hl : l.Nodup) : (mark neutral f m l).Nodup := by
  refine List.Nodup.of_map Prod.fst ?_
  rwa [map_fst_mark]

theorem exists_mem_mark (m : μ) {l : List α} {x : α} (hx : x ∈ l) :
    ∃ m', (x, m') ∈ mark neutral f m l := by
  rw [← map_fst_mark neutral f m l] at hx
  obtain ⟨⟨x', m'⟩, hmem, rfl⟩ := List.mem_map.mp hx
  exact ⟨m', hmem⟩

theorem mem_of_mem_mark {m : μ} {l : List α} {p : α × μ} (hp : p ∈ mark neutral f m l) :
    p.1 ∈ l := by
  rw [← map_fst_mark neutral f m l]
  exact List.mem_map_of_mem hp

/-- An element that occurs once has one mark. -/
theorem mark_unique {m : μ} {l : List α} (hl : l.Nodup) {x : α} {m₁ m₂ : μ}
    (h₁ : (x, m₁) ∈ mark neutral f m l) (h₂ : (x, m₂) ∈ mark neutral f m l) : m₁ = m₂ := by
  have hnodup : ((mark neutral f m l).map Prod.fst).Nodup := by rwa [map_fst_mark]
  exact congrArg Prod.snd (List.inj_on_of_nodup_map hnodup h₁ h₂ rfl)

/-- A sieve whose memory is a mark filters by element and mark. -/
theorem sift_eq_mark (memory : μ → σ) {accept : α → μ → Bool}
    (h : ∀ m x, test (memory m) x =
      (accept x (if m = neutral then f x else m), memory (if m = neutral then f x else m)))
    (m : μ) (l : List α) :
    sift test (memory m) l =
      ((mark neutral f m l).filter fun p => accept p.1 p.2).map Prod.fst := by
  induction l generalizing m with
  | nil => rfl
  | cons x xs ih =>
      rw [sift, h, mark, List.filter_cons]
      generalize (if m = neutral then f x else m) = m'
      by_cases haccept : accept x m' <;> simp [haccept, ih]

end Sieve
