import Mathlib.Algebra.BigOperators.Group.List.Basic
import Mathlib.Data.List.Nodup

/-!
# Grouping by a key

Items with a key and an amount are recorded one after the other: the amount is added to the
group of the key, which is made when the key is met for the first time.  `Groups items groups`
says what comes of it: there is one group for each key, and its amount is the sum of the
amounts under the key.  It determines the groups up to their order, and the order of the items
does not matter for it, because amounts form a commutative monoid.
-/

namespace GroupBy

variable {κ M : Type*} [DecidableEq κ] [AddCommMonoid M]

/-- Add an item to the group of its key. -/
def record (groups : List (κ × M)) (item : κ × M) : List (κ × M) :=
  if item.1 ∈ groups.map Prod.fst then
    groups.map fun group => if group.1 = item.1 then (group.1, group.2 + item.2) else group
  else groups ++ [item]

/-- The sum of the amounts under a key. -/
def totalAt (k : κ) (items : List (κ × M)) : M :=
  ((items.filter fun item => item.1 = k).map Prod.snd).sum

/-- The groups of a list of items. -/
structure Groups (items groups : List (κ × M)) : Prop where
  nodup : (groups.map Prod.fst).Nodup
  keys : ∀ k, k ∈ groups.map Prod.fst ↔ k ∈ items.map Prod.fst
  amount : ∀ group ∈ groups, group.2 = totalAt group.1 items

theorem totalAt_cons (k : κ) (item : κ × M) (items : List (κ × M)) :
    totalAt k (item :: items) = (if item.1 = k then item.2 else 0) + totalAt k items := by
  by_cases h : item.1 = k <;> simp [totalAt, h]

theorem totalAt_append_singleton (k : κ) (items : List (κ × M)) (item : κ × M) :
    totalAt k (items ++ [item]) = totalAt k items + if item.1 = k then item.2 else 0 := by
  by_cases h : item.1 = k <;> simp [totalAt, List.filter_append, h]

theorem totalAt_eq_zero {k : κ} {items : List (κ × M)} (h : k ∉ items.map Prod.fst) :
    totalAt k items = 0 := by
  have hnone : items.filter (fun item => item.1 = k) = [] := by
    rw [List.filter_eq_nil_iff]
    intro item hitem hkey
    exact h (List.mem_map.mpr ⟨item, hitem, by simpa using hkey⟩)
  rw [totalAt, hnone]
  rfl

theorem totalAt_perm {items items' : List (κ × M)} (h : items.Perm items') (k : κ) :
    totalAt k items = totalAt k items' :=
  ((h.filter _).map _).sum_eq

/-! ## Recording -/

theorem groups_nil : Groups ([] : List (κ × M)) [] :=
  ⟨List.nodup_nil, fun _ => Iff.rfl, fun _ hgroup => absurd hgroup List.not_mem_nil⟩

theorem map_fst_record_of_mem {groups : List (κ × M)} {item : κ × M}
    (h : item.1 ∈ groups.map Prod.fst) :
    (record groups item).map Prod.fst = groups.map Prod.fst := by
  rw [record, if_pos h, List.map_map]
  refine List.map_congr_left ?_
  intro group _
  simp only [Function.comp_apply]
  split <;> rfl

theorem map_fst_record_of_notMem {groups : List (κ × M)} {item : κ × M}
    (h : item.1 ∉ groups.map Prod.fst) :
    (record groups item).map Prod.fst = groups.map Prod.fst ++ [item.1] := by
  rw [record, if_neg h, List.map_append, List.map_singleton]

namespace Groups

variable {items items' groups groups' : List (κ × M)}

/-- One more item. -/
theorem record (h : Groups items groups) (item : κ × M) :
    Groups (items ++ [item]) (GroupBy.record groups item) := by
  by_cases hmem : item.1 ∈ groups.map Prod.fst
  · have hmap := map_fst_record_of_mem hmem
    refine ⟨hmap ▸ h.nodup, ?_, ?_⟩
    · intro k
      rw [hmap, h.keys, List.map_append, List.mem_append, List.map_singleton,
        List.mem_singleton]
      refine ⟨.inl, ?_⟩
      rintro (hk | rfl)
      · exact hk
      · exact (h.keys item.1).mp hmem
    · intro group hgroup
      rw [GroupBy.record, if_pos hmem] at hgroup
      obtain ⟨old, hold, rfl⟩ := List.mem_map.mp hgroup
      have hamount := h.amount old hold
      split
      next hkey => rw [totalAt_append_singleton, ← hamount, if_pos hkey.symm]
      next hkey => rw [totalAt_append_singleton, ← hamount, if_neg (Ne.symm hkey), add_zero]
  · have hmap := map_fst_record_of_notMem hmem
    have hfresh : item.1 ∉ items.map Prod.fst := fun hitem => hmem ((h.keys _).mpr hitem)
    refine ⟨?_, ?_, ?_⟩
    · rw [hmap]
      exact List.nodup_append'.mpr ⟨h.nodup, List.nodup_singleton _, by simpa using hmem⟩
    · intro k
      rw [hmap, List.mem_append, h.keys, List.map_append, List.mem_append, List.map_singleton]
    · intro group hgroup
      rw [GroupBy.record, if_neg hmem] at hgroup
      rcases List.mem_append.mp hgroup with hold | hnew
      · have hkey : item.1 ≠ group.1 := by
          intro hkey
          exact hmem (hkey ▸ List.mem_map_of_mem hold)
        rw [totalAt_append_singleton, ← h.amount group hold, if_neg hkey, add_zero]
      · rw [List.mem_singleton.mp hnew, totalAt_append_singleton, totalAt_eq_zero hfresh,
          if_pos rfl, zero_add]

/-- All items, one after the other. -/
theorem foldl_record (h : Groups items groups) (later : List (κ × M)) :
    Groups (items ++ later) (later.foldl GroupBy.record groups) := by
  induction later generalizing items groups with
  | nil => rwa [List.append_nil]
  | cons item later ih =>
      have hnext := ih (h.record item)
      rwa [List.append_assoc] at hnext

/-! ## What the groups are -/

theorem mem_iff (h : Groups items groups) (group : κ × M) :
    group ∈ groups ↔ group.1 ∈ items.map Prod.fst ∧ group.2 = totalAt group.1 items := by
  constructor
  · intro hgroup
    exact ⟨(h.keys _).mp (List.mem_map_of_mem hgroup), h.amount group hgroup⟩
  · rintro ⟨hkey, hamount⟩
    obtain ⟨other, hother, heq⟩ := List.mem_map.mp ((h.keys _).mpr hkey)
    have hsame : other = group := Prod.ext heq (by rw [h.amount other hother, heq, hamount])
    exact hsame ▸ hother

/-- The order of the items does not matter. -/
theorem perm (h : Groups items groups) (h' : Groups items' groups') (hperm : items.Perm items') :
    groups.Perm groups' := by
  refine (List.perm_ext_iff_of_nodup h.nodup.of_map h'.nodup.of_map).mpr ?_
  intro group
  rw [h.mem_iff, h'.mem_iff, totalAt_perm hperm, (hperm.map Prod.fst).mem_iff]

/-- The order of the groups does not matter. -/
theorem of_perm (h : Groups items groups) (hperm : groups'.Perm groups) : Groups items groups' := by
  have hkeys := hperm.map Prod.fst
  refine ⟨hkeys.nodup_iff.mpr h.nodup, ?_, ?_⟩
  · intro k
    rw [hkeys.mem_iff, h.keys]
  · intro group hgroup
    exact h.amount group (hperm.mem_iff.mp hgroup)

end Groups

theorem sum_map_ite_eq {ks : List κ} (hnodup : ks.Nodup) {key : κ} (hkey : key ∈ ks)
    (amount : M) : (ks.map fun k => if key = k then amount else 0).sum = amount := by
  have hother : ∀ k, k ≠ key → k ∈ ks → (if key = k then amount else 0) = 0 := by
    intro k hne _
    exact if_neg (Ne.symm hne)
  rw [List.sum_map_eq_nsmul_single key _ hother, List.count_eq_one_of_mem hnodup hkey, one_nsmul,
    if_pos rfl]

/-- The amounts under different keys make up all amounts. -/
theorem sum_totalAt {ks : List κ} (hnodup : ks.Nodup) {items : List (κ × M)}
    (hkeys : ∀ item ∈ items, item.1 ∈ ks) :
    (ks.map fun k => totalAt k items).sum = (items.map Prod.snd).sum := by
  induction items with
  | nil => simp [totalAt]
  | cons item items ih =>
      obtain ⟨hitem, hitems⟩ := List.forall_mem_cons.mp hkeys
      simp only [totalAt_cons, List.sum_map_add, sum_map_ite_eq hnodup hitem, ih hitems,
        List.map_cons, List.sum_cons]

end GroupBy
