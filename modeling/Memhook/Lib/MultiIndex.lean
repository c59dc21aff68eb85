import Mathlib.Data.List.Basic
import Mathlib.Data.List.Nodup
import Mathlib.Order.Lattice

/-!
# Containers with a unique key and an ordered secondary index

A `Container key stamp` holds elements that are found by a unique `key` and
traversed in the order of a `stamp`, elements of equal stamp in the order they
were inserted.  The list `items` is the traversal of the secondary index; the
two fields that follow say that it is one.

Every operation is described once, by what it does to `find?`:

* `find?_emplace`: an element already found under the key stays;
* `find?_erase`, `find?_modify`: one key changes, every other key keeps its
  element;
* `find?_dropFront`: the keys of the dropped elements are gone.

Rewriting every element by a function that keeps key and stamp, `map`, commutes with all
of them.
-/

namespace MultiIndex

variable {α κ τ : Type*} [LinearOrder τ]

/-- Insert at the upper bound of the stamp: after every element that is not
later. -/
def insertUpper (stamp : α → τ) (x : α) : List α → List α
  | [] => [x]
  | y :: ys => if stamp x < stamp y then x :: y :: ys else y :: insertUpper stamp x ys

theorem insertUpper_perm (stamp : α → τ) (x : α) (l : List α) :
    (insertUpper stamp x l).Perm (x :: l) := by
  induction l with
  | nil => exact List.Perm.refl _
  | cons y ys ih =>
      unfold insertUpper
      split
      · exact List.Perm.refl _
      · exact (ih.cons y).trans (List.Perm.swap x y ys)

theorem mem_insertUpper {stamp : α → τ} {x y : α} {l : List α} :
    y ∈ insertUpper stamp x l ↔ y = x ∨ y ∈ l := by
  rw [(insertUpper_perm stamp x l).mem_iff, List.mem_cons]

theorem insertUpper_sorted {stamp : α → τ} {x : α} {l : List α}
    (hsorted : l.Pairwise fun y z => stamp y ≤ stamp z) :
    (insertUpper stamp x l).Pairwise fun y z => stamp y ≤ stamp z := by
  induction l with
  | nil => simp [insertUpper]
  | cons y ys ih =>
      obtain ⟨hhead, htail⟩ := List.pairwise_cons.mp hsorted
      unfold insertUpper
      split
      next hlt =>
        refine List.pairwise_cons.mpr ⟨?_, hsorted⟩
        intro z hz
        rcases List.mem_cons.mp hz with rfl | hz
        · exact le_of_lt hlt
        · exact le_trans (le_of_lt hlt) (hhead z hz)
      next hge =>
        refine List.pairwise_cons.mpr ⟨?_, ih htail⟩
        intro z hz
        rcases mem_insertUpper.mp hz with rfl | hz
        · exact not_lt.mp hge
        · exact hhead z hz

theorem insertUpper_map {stamp : α → τ} {f : α → α} (hstamp : ∀ x, stamp (f x) = stamp x) (x : α)
    (l : List α) : insertUpper stamp (f x) (l.map f) = (insertUpper stamp x l).map f := by
  induction l with
  | nil => rfl
  | cons y ys ih =>
      simp only [insertUpper, List.map_cons, hstamp]
      split <;> simp [ih]

/-- The elements below a bound come first. -/
theorem takeWhile_eq_filter_of_sorted {stamp : α → τ} {l : List α}
    (hsorted : l.Pairwise fun y z => stamp y ≤ stamp z) (bound : τ) :
    l.takeWhile (fun x => decide (stamp x < bound)) =
      l.filter fun x => decide (stamp x < bound) := by
  induction l with
  | nil => rfl
  | cons y ys ih =>
      obtain ⟨hhead, htail⟩ := List.pairwise_cons.mp hsorted
      by_cases hy : stamp y < bound
      · simp [hy, ih htail]
      · have hlater : ∀ z ∈ ys, ¬ stamp z < bound := by
          intro z hz hlt
          exact hy (lt_of_le_of_lt (hhead z hz) hlt)
        simpa [hy] using hlater

/-- What comes behind the elements below a bound is not below it. -/
theorem le_of_mem_drop_countP {stamp : α → τ} {l : List α}
    (hsorted : l.Pairwise fun y z => stamp y ≤ stamp z) {bound : τ} {x : α}
    (hx : x ∈ l.drop (l.countP fun y => decide (stamp y < bound))) : bound ≤ stamp x := by
  have hsplit := List.takeWhile_append_dropWhile (p := fun y => decide (stamp y < bound)) (l := l)
  have htake := takeWhile_eq_filter_of_sorted hsorted bound
  have hlength : (l.takeWhile fun y => decide (stamp y < bound)).length =
      l.countP fun y => decide (stamp y < bound) := by
    rw [htake, List.countP_eq_length_filter]
  rw [← hlength] at hx
  nth_rewrite 2 [← hsplit] at hx
  rw [List.drop_left] at hx
  -- the filter finds nothing behind the first run
  have hnone : (l.dropWhile fun y => decide (stamp y < bound)).filter
      (fun y => decide (stamp y < bound)) = [] := by
    have hfilter := congrArg (List.filter fun y => decide (stamp y < bound)) hsplit
    rw [List.filter_append, htake, List.filter_filter] at hfilter
    simpa using hfilter
  simpa using List.filter_eq_nil_iff.mp hnone x hx

/-- A list in secondary-index order, together with the proof that it is one and
that the primary key is unique. -/
structure Container (key : α → κ) (stamp : α → τ) where
  items : List α
  keys_nodup : (items.map key).Nodup
  stamps_sorted : items.Pairwise fun x y => stamp x ≤ stamp y

namespace Container

variable {key : α → κ} {stamp : α → τ}

@[ext] theorem ext {c d : Container key stamp} (h : c.items = d.items) : c = d := by
  cases c
  cases d
  cases h
  rfl

def empty : Container key stamp := ⟨[], by simp, by simp⟩

instance : Inhabited (Container key stamp) := ⟨empty⟩

/-- Two elements of one container with the same key are the same element. -/
theorem eq_of_key_eq (c : Container key stamp) {x y : α} (hx : x ∈ c.items) (hy : y ∈ c.items)
    (hkey : key x = key y) : x = y :=
  List.inj_on_of_nodup_map c.keys_nodup hx hy hkey

/-! ## Operations -/

variable [DecidableEq κ]

/-- The element under a key. -/
def find? (c : Container key stamp) (k : κ) : Option α :=
  c.items.find? fun x => decide (key x = k)

theorem find?_eq_some {c : Container key stamp} {k : κ} {x : α} :
    c.find? k = some x ↔ x ∈ c.items ∧ key x = k := by
  constructor
  · intro h
    exact ⟨List.mem_of_find?_eq_some h, by simpa using List.find?_some h⟩
  · rintro ⟨hmem, hkey⟩
    cases hfind : c.find? k with
    | none =>
        have := List.find?_eq_none.mp hfind x hmem
        simp [hkey] at this
    | some y =>
        have hykey : key y = k := by simpa using List.find?_some hfind
        rw [c.eq_of_key_eq (List.mem_of_find?_eq_some hfind) hmem (hykey.trans hkey.symm)]

theorem find?_eq_none {c : Container key stamp} {k : κ} :
    c.find? k = none ↔ ∀ x ∈ c.items, key x ≠ k := by
  simp [find?, List.find?_eq_none]

theorem find?_isSome {c : Container key stamp} {k : κ} :
    (c.find? k).isSome ↔ k ∈ c.items.map key := by
  simp [find?, List.find?_isSome]

/-- Insert `x` unless its key is taken; the flag says whether it was inserted. -/
def emplace (c : Container key stamp) (x : α) : Container key stamp × Bool :=
  if h : (c.find? (key x)).isSome then (c, false)
  else
    (⟨insertUpper stamp x c.items, by
      rw [((insertUpper_perm stamp x c.items).map key).nodup_iff, List.map_cons,
        List.nodup_cons]
      exact ⟨fun hmem => h (find?_isSome.mpr hmem), c.keys_nodup⟩,
      insertUpper_sorted c.stamps_sorted⟩, true)

/-- Remove the element under a key, if there is one. -/
def erase (c : Container key stamp) (k : κ) : Container key stamp :=
  ⟨c.items.filter fun x => decide (key x ≠ k),
    c.keys_nodup.sublist (List.filter_sublist.map key),
    c.stamps_sorted.sublist List.filter_sublist⟩

/-- Rewrite the element under a key by a function that keeps key and stamp. -/
def modify (c : Container key stamp) (k : κ) (f : α → α) (hkey : ∀ x, key (f x) = key x)
    (hstamp : ∀ x, stamp (f x) = stamp x) : Container key stamp :=
  ⟨c.items.map fun x => if key x = k then f x else x, by
    have hmap : (c.items.map fun x => if key x = k then f x else x).map key =
        c.items.map key := by
      rw [List.map_map]
      exact List.map_congr_left fun x _ => by
        simp only [Function.comp_apply]
        split <;> simp [hkey]
    rw [hmap]
    exact c.keys_nodup, by
    rw [List.pairwise_map]
    refine c.stamps_sorted.imp ?_
    intro x y hle
    split <;> split <;> simpa [hstamp] using hle⟩

/-- Remove the first `n` elements of the secondary index. -/
def dropFront (c : Container key stamp) (n : ℕ) : Container key stamp :=
  ⟨c.items.drop n, c.keys_nodup.sublist ((List.drop_sublist n _).map key),
    c.stamps_sorted.sublist (List.drop_sublist n _)⟩

/-! ## What the operations do to `find?` -/

@[simp] theorem find?_empty (k : κ) : (empty : Container key stamp).find? k = none := rfl

theorem emplace_of_isSome {c : Container key stamp} {x : α} (h : (c.find? (key x)).isSome) :
    c.emplace x = (c, false) := by
  simp [emplace, h]

theorem emplace_snd (c : Container key stamp) (x : α) :
    (c.emplace x).2 = (c.find? (key x)).isNone := by
  unfold emplace
  split
  next h => simpa using h
  next h => simpa using h

theorem emplace_items_of_none {c : Container key stamp} {x : α} (h : c.find? (key x) = none) :
    (c.emplace x).1.items = insertUpper stamp x c.items := by
  simp [emplace, h]

theorem mem_of_mem_emplace {c : Container key stamp} {x y : α}
    (h : y ∈ (c.emplace x).1.items) : y ∈ c.items ∨ y = x := by
  cases hfind : c.find? (key x) with
  | none =>
      rw [emplace_items_of_none hfind] at h
      exact (mem_insertUpper.mp h).symm
  | some found =>
      rw [emplace_of_isSome (by simp [hfind])] at h
      exact .inl h

theorem find?_emplace (c : Container key stamp) (x : α) (k : κ) :
    (c.emplace x).1.find? k = (c.find? k).or (if key x = k then some x else none) := by
  by_cases hpresent : (c.find? (key x)).isSome
  · -- the key is taken, and nothing is inserted
    rw [emplace_of_isSome hpresent]
    by_cases hk : key x = k
    · subst hk
      obtain ⟨y, hy⟩ := Option.isSome_iff_exists.mp hpresent
      simp [hy]
    · simp [hk]
  · have hnone : c.find? (key x) = none := by simpa using hpresent
    ext y
    rw [find?_eq_some, emplace_items_of_none hnone, mem_insertUpper]
    by_cases hk : key x = k
    · subst hk
      have hfresh : ∀ z ∈ c.items, key z ≠ key x := find?_eq_none.mp hnone
      simp only [hnone, Option.none_or, if_true, Option.some.injEq]
      constructor
      · rintro ⟨rfl | hmem, hkey⟩
        · rfl
        · exact absurd hkey (hfresh y hmem)
      · rintro rfl
        exact ⟨Or.inl rfl, rfl⟩
    · simp only [if_neg hk, Option.or_none, find?_eq_some]
      constructor
      · rintro ⟨rfl | hmem, hkey⟩
        · exact absurd hkey hk
        · exact ⟨hmem, hkey⟩
      · rintro ⟨hmem, hkey⟩
        exact ⟨Or.inr hmem, hkey⟩

theorem find?_erase (c : Container key stamp) (k k' : κ) :
    (c.erase k).find? k' = if k' = k then none else c.find? k' := by
  ext y
  rw [find?_eq_some]
  simp only [erase, List.mem_filter, decide_eq_true_eq]
  split
  next heq =>
    subst heq
    simp only [reduceCtorEq, iff_false]
    exact fun h => h.1.2 h.2
  next hne =>
    rw [find?_eq_some]
    constructor
    · exact fun h => ⟨h.1.1, h.2⟩
    · rintro ⟨hmem, rfl⟩
      exact ⟨⟨hmem, hne⟩, rfl⟩

theorem find?_modify (c : Container key stamp) (k : κ) (f : α → α)
    (hkey : ∀ x, key (f x) = key x) (hstamp : ∀ x, stamp (f x) = stamp x) (k' : κ) :
    (c.modify k f hkey hstamp).find? k' =
      if k' = k then (c.find? k').map f else c.find? k' := by
  unfold find? modify
  rw [List.find?_map]
  have hpred : ((fun x => decide (key x = k')) ∘ fun x => if key x = k then f x else x) =
      fun x => decide (key x = k') := by
    funext x
    simp only [Function.comp_apply]
    split <;> simp [hkey]
  rw [hpred]
  cases hfind : c.items.find? (fun x => decide (key x = k')) with
  | none => simp
  | some y =>
      have hy : key y = k' := by simpa using List.find?_some hfind
      subst hy
      simp only [Option.map_some]
      split <;> rfl

theorem find?_dropFront (c : Container key stamp) (n : ℕ) (k : κ) :
    (c.dropFront n).find? k =
      if k ∈ (c.items.take n).map key then none else c.find? k := by
  have hsplit : c.items.take n ++ c.items.drop n = c.items := List.take_append_drop n c.items
  -- a key occurs on one side of the cut only
  have hdisjoint : ((c.items.take n).map key).Disjoint ((c.items.drop n).map key) := by
    have hnodup := c.keys_nodup
    rw [← hsplit, List.map_append] at hnodup
    exact List.disjoint_of_nodup_append hnodup
  split
  next hmem =>
    rw [find?_eq_none]
    intro x hx hkey
    exact hdisjoint hmem (hkey ▸ List.mem_map_of_mem hx)
  next hnot =>
    ext y
    rw [find?_eq_some, find?_eq_some]
    constructor
    · exact fun h => ⟨List.mem_of_mem_drop h.1, h.2⟩
    · rintro ⟨hmem, rfl⟩
      rw [← hsplit] at hmem
      rcases List.mem_append.mp hmem with htake | hdrop
      · exact absurd (List.mem_map_of_mem htake) hnot
      · exact ⟨hdrop, rfl⟩

/-- Searching an initial run of the secondary index. -/
theorem find?_take (c : Container key stamp) (n : ℕ) (k : κ) :
    (c.items.take n).find? (fun x => decide (key x = k)) =
      if k ∈ (c.items.take n).map key then c.find? k else none := by
  split
  next hmem =>
    obtain ⟨x, hx, hkey⟩ := List.mem_map.mp hmem
    have hsome : ((c.items.take n).find? fun x => decide (key x = k)).isSome :=
      List.find?_isSome.mpr ⟨x, hx, by simp [hkey]⟩
    obtain ⟨y, hy⟩ := Option.isSome_iff_exists.mp hsome
    have hykey : key y = k := by simpa using List.find?_some hy
    have hymem : y ∈ c.items := List.mem_of_mem_take (List.mem_of_find?_eq_some hy)
    rw [hy, find?_eq_some.mpr ⟨hymem, hykey⟩]
  next hnot =>
    rw [List.find?_eq_none]
    intro x hx
    simp only [decide_eq_true_eq]
    exact fun hkey => hnot (List.mem_map.mpr ⟨x, hx, hkey⟩)

/-! ## Rewriting every element -/

section Map

variable (f : α → α) (hkey : ∀ x, key (f x) = key x) (hstamp : ∀ x, stamp (f x) = stamp x)

omit [DecidableEq κ] in
private theorem map_key_map (l : List α) (hkey : ∀ x, key (f x) = key x) :
    (l.map f).map key = l.map key := by
  rw [List.map_map]
  exact List.map_congr_left fun x _ => hkey x

omit [DecidableEq κ] in
private theorem pairwise_map_stamp (c : Container key stamp)
    (hstamp : ∀ x, stamp (f x) = stamp x) :
    (c.items.map f).Pairwise fun x y => stamp x ≤ stamp y := by
  rw [List.pairwise_map]
  exact c.stamps_sorted.imp fun {x y} hle => by rwa [hstamp x, hstamp y]

/-- Rewrite every element by a function that keeps key and stamp. -/
def map (c : Container key stamp) : Container key stamp :=
  ⟨c.items.map f, (map_key_map f c.items hkey).symm ▸ c.keys_nodup, pairwise_map_stamp f c hstamp⟩

theorem find?_map (c : Container key stamp) (k : κ) :
    (c.map f hkey hstamp).find? k = (c.find? k).map f := by
  unfold find? map
  rw [List.find?_map]
  congr 2
  funext x
  simp [hkey]

theorem emplace_map (c : Container key stamp) {x x' : α} (hx : x' = f x) :
    (c.map f hkey hstamp).emplace x' =
      ((c.emplace x).1.map f hkey hstamp, (c.emplace x).2) := by
  subst hx
  have hfind : (c.map f hkey hstamp).find? (key (f x)) = (c.find? (key x)).map f := by
    rw [find?_map, hkey]
  by_cases hsome : (c.find? (key x)).isSome
  · rw [emplace_of_isSome hsome, emplace_of_isSome (by rw [hfind]; simpa using hsome)]
  · have hnone : c.find? (key x) = none := by simpa using hsome
    have hnone' : (c.map f hkey hstamp).find? (key (f x)) = none := by simp [hfind, hnone]
    refine Prod.ext (Container.ext ?_) ?_
    · rw [emplace_items_of_none hnone']
      exact (insertUpper_map hstamp x c.items).trans
        (by rw [← emplace_items_of_none hnone]; rfl)
    · simp only [emplace_snd, hnone, hnone']

theorem erase_map (c : Container key stamp) (k : κ) :
    (c.map f hkey hstamp).erase k = (c.erase k).map f hkey hstamp := by
  refine Container.ext ?_
  simp [erase, map, List.filter_map, Function.comp_def, hkey]

theorem modify_map (c : Container key stamp) (k : κ) {g g' : α → α}
    (hgkey : ∀ x, key (g x) = key x) (hgstamp : ∀ x, stamp (g x) = stamp x)
    (hgkey' : ∀ x, key (g' x) = key x) (hgstamp' : ∀ x, stamp (g' x) = stamp x)
    (hcomm : ∀ x, g' (f x) = f (g x)) :
    (c.map f hkey hstamp).modify k g' hgkey' hgstamp' =
      (c.modify k g hgkey hgstamp).map f hkey hstamp := by
  refine Container.ext ?_
  simp only [modify, map, List.map_map]
  refine List.map_congr_left fun x _ => ?_
  simp only [Function.comp_apply, hkey]
  split
  · exact hcomm x
  · rfl

omit [DecidableEq κ] in
theorem dropFront_map (c : Container key stamp) (n : ℕ) :
    (c.map f hkey hstamp).dropFront n = (c.dropFront n).map f hkey hstamp := by
  refine Container.ext ?_
  simp [dropFront, map, List.map_drop]

end Map

end Container

end MultiIndex
