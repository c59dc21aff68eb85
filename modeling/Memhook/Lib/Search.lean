import Mathlib.Data.List.Nodup
import Mathlib.Data.List.Perm.Subperm

/-!
# Searching along a successor

A chain in an array is given by its successors: `next i` is the place after `i`, if there is
one.  Both `next` and a visit can fail, which is the outer `none`.  `walk` visits one place
after the other until it finds something, and `Path next i l` says that the places from `i` to
the end of the chain are `l`.

A place has one successor, so a chain that ends does not come back to a place
(`Path.nodup`), and `walk` with as many steps as there are places finds what a search of the
list finds (`walk_eq_findSome?`).  Where at most one place is looked for, the order of the
places does not matter either (`find?_eq_find?`).
-/

namespace Search

variable {ι β : Type*}

/-- Visit the places from `i` on until something is found; fails when `fuel` places were not
enough. -/
def walk (visit : ι → Option (Option β)) (next : ι → Option (Option ι)) :
    ℕ → ι → Option (Option β)
  | 0, _ => none
  | fuel + 1, i =>
      (visit i).bind fun
        | some found => some (some found)
        | none =>
            (next i).bind fun
              | some j => walk visit next fuel j
              | none => some none

/-- The places from `i` to the end of its chain. -/
inductive Path (next : ι → Option (Option ι)) : ι → List ι → Prop
  | last {i : ι} (hnext : next i = some none) : Path next i [i]
  | step {i j : ι} {l : List ι} (hnext : next i = some (some j)) (hpath : Path next j l) :
      Path next i (i :: l)

namespace Path

variable {next : ι → Option (Option ι)} {i j : ι} {l l' : List ι}

theorem unique (hpath : Path next i l) (hpath' : Path next i l') : l = l' := by
  induction hpath generalizing l' with
  | last hnext =>
      cases hpath' with
      | last => rfl
      | step hnext' => simp [hnext] at hnext'
  | step hnext _ ih =>
      cases hpath' with
      | last hnext' => simp [hnext] at hnext'
      | step hnext' hrest =>
          obtain rfl : _ = _ := by simpa [hnext] using hnext'
          rw [ih hrest]

theorem isSome_next (hpath : Path next i l) (hj : j ∈ l) : (next j).isSome := by
  induction hpath with
  | last hnext =>
      rw [List.mem_singleton.mp hj, hnext]
      rfl
  | step hnext _ ih =>
      rcases List.mem_cons.mp hj with rfl | hrest
      · rw [hnext]
        rfl
      · exact ih hrest

/-- The chain from a later place is an end of the chain. -/
theorem suffix (hpath : Path next i l) (hj : j ∈ l) : ∃ tail, tail <:+ l ∧ Path next j tail := by
  induction hpath with
  | last hnext =>
      obtain rfl := List.mem_singleton.mp hj
      exact ⟨_, List.suffix_rfl, .last hnext⟩
  | step hnext hrest ih =>
      rcases List.mem_cons.mp hj with rfl | hmem
      · exact ⟨_, List.suffix_rfl, .step hnext hrest⟩
      · obtain ⟨tail, htail, hpath⟩ := ih hmem
        exact ⟨tail, htail.trans (List.suffix_cons _ _), hpath⟩

/-- A chain that ends visits no place twice. -/
theorem nodup (hpath : Path next i l) : l.Nodup := by
  induction hpath with
  | last => exact List.nodup_singleton _
  | step hnext hrest ih =>
      refine List.nodup_cons.mpr ⟨?_, ih⟩
      -- from the second visit on, the chain would be the whole chain again
      intro hmem
      obtain ⟨tail, htail, hpath⟩ := hrest.suffix hmem
      have hlength := htail.length_le
      rw [hpath.unique (.step hnext hrest), List.length_cons] at hlength
      omega

theorem length_le {next : ℕ → Option (Option ℕ)} {i n : ℕ} {l : List ℕ} (hpath : Path next i l)
    (hnext : ∀ j, (next j).isSome → j < n) : l.length ≤ n := by
  have hsubset : l ⊆ List.range n := by
    intro j hj
    exact List.mem_range.mpr (hnext j (hpath.isSome_next hj))
  simpa using (hpath.nodup.subperm hsubset).length_le

end Path

theorem walk_eq_findSome? {visit : ι → Option (Option β)} {next : ι → Option (Option ι)}
    {found : ι → Option β} {i : ι} {l : List ι} {fuel : ℕ} (hpath : Path next i l)
    (hvisit : ∀ j ∈ l, visit j = some (found j)) (hfuel : l.length ≤ fuel) :
    walk visit next fuel i = some (l.findSome? found) := by
  induction hpath generalizing fuel with
  | @last i hnext =>
      obtain ⟨fuel, rfl⟩ : ∃ n, fuel = n + 1 := Nat.exists_eq_add_one.mpr hfuel
      rw [walk, hvisit i (List.mem_singleton_self i), Option.bind_some, List.findSome?_cons]
      cases found i with
      | some b => rfl
      | none =>
          rw [hnext]
          rfl
  | @step i j l hnext _ ih =>
      obtain ⟨fuel, rfl⟩ : ∃ n, fuel = n + 1 :=
        Nat.exists_eq_add_one.mpr (Nat.lt_of_lt_of_le (Nat.succ_pos _) hfuel)
      rw [walk, hvisit i List.mem_cons_self, Option.bind_some, List.findSome?_cons]
      cases found i with
      | some b => rfl
      | none =>
          simp only [hnext, Option.bind_some]
          refine ih ?_ (Nat.le_of_succ_le_succ hfuel)
          intro k hk
          exact hvisit k (List.mem_cons_of_mem i hk)

/-! ## Looking for one thing -/

section Unique

variable {α : Type*} {p q : α → Bool} {l m : List α}

/-- At most one element of the list is looked for. -/
def AtMostOne (p : α → Bool) (l : List α) : Prop :=
  ∀ a ∈ l, ∀ b ∈ l, p a = true → p b = true → a = b

theorem find?_eq_some_iff_of_atMostOne (hunique : AtMostOne p l) {a : α} :
    l.find? p = some a ↔ a ∈ l ∧ p a = true := by
  constructor
  · intro hfind
    exact ⟨List.mem_of_find?_eq_some hfind, List.find?_some hfind⟩
  · rintro ⟨ha, hp⟩
    obtain ⟨b, hb⟩ : ∃ b, l.find? p = some b :=
      Option.isSome_iff_exists.mp (List.find?_isSome.mpr ⟨a, ha, hp⟩)
    rw [hb, hunique a ha b (List.mem_of_find?_eq_some hb) hp (List.find?_some hb)]

theorem find?_eq_find? (hunique : AtMostOne p l)
    (hsame : ∀ a, a ∈ l ∧ p a = true ↔ a ∈ m ∧ q a = true) : l.find? p = m.find? q := by
  have hunique' : AtMostOne q m := by
    intro a ha b hb hqa hqb
    obtain ⟨hal, hpa⟩ := (hsame a).mpr ⟨ha, hqa⟩
    obtain ⟨hbl, hpb⟩ := (hsame b).mpr ⟨hb, hqb⟩
    exact hunique a hal b hbl hpa hpb
  ext a
  rw [find?_eq_some_iff_of_atMostOne hunique, find?_eq_some_iff_of_atMostOne hunique']
  exact hsame a

/-- What is asked of the one that was found can be asked of each. -/
theorem filter_find? (hunique : AtMostOne p l) (q : α → Bool) :
    (l.find? p).filter q = l.find? fun a => p a && q a := by
  have hunique' : AtMostOne (fun a => p a && q a) l := by
    intro a ha b hb hpa hpb
    exact hunique a ha b hb (Bool.and_eq_true_iff.mp hpa).1 (Bool.and_eq_true_iff.mp hpb).1
  ext a
  rw [Option.filter_eq_some_iff, find?_eq_some_iff_of_atMostOne hunique,
    find?_eq_some_iff_of_atMostOne hunique', Bool.and_eq_true_iff, and_assoc]

end Unique

end Search
