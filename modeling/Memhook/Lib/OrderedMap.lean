import Mathlib.Data.List.Basic

/-!
# Maps in the order of their keys

A list of entries in the strict order of their keys, as an ordered map keeps them.  A loop over
the entries is a loop over the keys, in their order: what it takes from the map depends only on
which entry is under which key (`filterMap_entries`).
-/

/-- Entries in the strict order of their keys. -/
structure OrderedMap {α κ : Type*} [LT κ] (key : α → κ) where
  entries : List α
  sorted : entries.Pairwise fun x y => key x < key y

namespace OrderedMap

variable {α κ : Type*} [LT κ] {key : α → κ}

section Find

variable [DecidableEq κ]

/-- The entry under a key. -/
def find? (map : OrderedMap key) (k : κ) : Option α := map.entries.find? fun x => key x = k

theorem key_of_find? {map : OrderedMap key} {k : κ} {x : α} (h : map.find? k = some x) :
    key x = k := by
  simpa using List.find?_some h

/-- A projection matters only on the entries with the key. -/
theorem bind_find?_congr {β : Type*} (map : OrderedMap key) {k : κ} {f g : α → Option β}
    (h : ∀ x, key x = k → f x = g x) : (map.find? k).bind f = (map.find? k).bind g := by
  cases hfind : map.find? k with
  | none => rfl
  | some x => exact h x (key_of_find? hfind)

variable [Std.Asymm fun k l : κ => k < l]

omit [DecidableEq κ] in
theorem not_lt_of_lt {k l : κ} (h : k < l) : ¬ l < k :=
  Std.Asymm.asymm (r := fun k l : κ => k < l) k l h

/-- A sorted list of entries is put together from its keys. -/
theorem eq_flatMap_find? {entries : List α} (hentries : entries.Pairwise fun x y => key x < key y)
    {keys : List κ} (hkeys : keys.Pairwise (· < ·)) (hall : ∀ x ∈ entries, key x ∈ keys) :
    entries = keys.flatMap fun k => (entries.find? fun x => key x = k).toList := by
  induction keys generalizing entries with
  | nil =>
      cases entries with
      | nil => rfl
      | cons x rest => exact absurd (hall x List.mem_cons_self) List.not_mem_nil
  | cons k keys ih =>
      obtain ⟨hfirst, hkeys⟩ := List.pairwise_cons.mp hkeys
      cases entries with
      | nil => simp
      | cons x rest =>
          obtain ⟨hlater, hrest⟩ := List.pairwise_cons.mp hentries
          by_cases hx : key x = k
          · -- the first entry has the first key, and all others have later ones
            have hothers : ∀ y ∈ rest, key y ∈ keys := by
              intro y hy
              rcases List.mem_cons.mp (hall y (List.mem_cons_of_mem x hy)) with heq | hmem
              · have hlt := hlater y hy
                rw [heq, hx] at hlt
                exact absurd hlt (not_lt_of_lt hlt)
              · exact hmem
            have hskip : ∀ l ∈ keys, ((x :: rest).find? fun y => key y = l).toList =
                (rest.find? fun y => key y = l).toList := by
              intro l hl
              have hne : key x ≠ l := by
                rintro rfl
                have hlt := hfirst (key x) hl
                rw [hx] at hlt
                exact absurd hlt (not_lt_of_lt hlt)
              rw [List.find?_cons_of_neg (by simpa using hne)]
            rw [List.flatMap_cons, List.flatMap_congr hskip, ← ih hrest hkeys hothers,
              List.find?_cons_of_pos (by simpa using hx)]
            rfl
          · -- nothing is under the first key
            have hmem : key x ∈ keys := by
              rcases List.mem_cons.mp (hall x List.mem_cons_self) with heq | hmem
              · exact absurd heq hx
              · exact hmem
            have hnone : ∀ y ∈ x :: rest, key y ≠ k := by
              intro y hy heq
              rcases List.mem_cons.mp hy with rfl | hy
              · exact hx heq
              · have hlt := hlater y hy
                rw [heq] at hlt
                exact absurd hlt (not_lt_of_lt (hfirst (key x) hmem))
            have hothers : ∀ y ∈ x :: rest, key y ∈ keys := by
              intro y hy
              rcases List.mem_cons.mp (hall y hy) with heq | hmem
              · exact absurd heq (hnone y hy)
              · exact hmem
            have hfind : ((x :: rest).find? fun y => key y = k) = none :=
              List.find?_eq_none.mpr fun y hy => by simpa using hnone y hy
            rw [List.flatMap_cons, hfind, ← ih hentries hkeys hothers]
            rfl

/-- What a projection takes from a map, key by key; keys under which there is nothing to take are
left out. -/
theorem filterMap_entries {β : Type*} (map : OrderedMap key) (project : α → Option β)
    {keys : List κ} (hkeys : keys.Pairwise (· < ·)) (hall : ∀ x, key x ∈ keys)
    {relevant : List κ} (hrelevant : ∀ x, (project x).isSome → key x ∈ relevant) :
    map.entries.filterMap project =
      (keys.filter (· ∈ relevant)).flatMap fun k => ((map.find? k).bind project).toList := by
  have hentries : map.entries = keys.flatMap fun k => (map.find? k).toList :=
    eq_flatMap_find? map.sorted hkeys fun x _ => hall x
  rw [hentries, List.filterMap_flatMap]
  clear hentries hkeys hall
  induction keys with
  | nil => rfl
  | cons k keys ih =>
      have hhead : (map.find? k).toList.filterMap project =
          ((map.find? k).bind project).toList := by
        cases map.find? k with
        | none => rfl
        | some x => cases hproject : project x <;> simp [hproject]
      rw [List.flatMap_cons, ih, hhead, List.filter_cons]
      split
      · rw [List.flatMap_cons]
      · next hk =>
          have hnone : (map.find? k).bind project = none := by
            rw [Option.bind_eq_none_iff]
            intro x hx
            by_contra hproject
            refine hk (decide_eq_true ?_)
            rw [← key_of_find? hx]
            exact hrelevant x (Option.isSome_iff_ne_none.mpr hproject)
          rw [hnone]
          rfl

end Find

end OrderedMap
