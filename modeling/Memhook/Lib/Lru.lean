import Mathlib.Data.List.Dedup
import Mathlib.Data.List.DropRight

/-!
# Caches in order of last use

A cache of bounded capacity is the list of its keys in order of last use.  `touch` uses a
key: one that is there moves to the end, and one that is not takes the place of the first
if the cache is full.

`List.dedup` keeps the last occurrence of each element, so `recent` lists the keys that
were used last, each at its last use.  `touch_recent` is the law of such a cache: what it
holds is always the `recent` of what was used.

Keys that are kept on a ring can be read from any of them on.  `turn` reads them from the one
that is used, which makes it the first and not the last: that is a use only of a key that is
there alone (`turn_eq_touch_iff`).
-/

namespace Lru

variable {α : Type*} [DecidableEq α]

/-- The keys after `x` is used. -/
def touch (capacity : ℕ) (keys : List α) (x : α) : List α :=
  if x ∈ keys then keys.filter (· ≠ x) ++ [x]
  else (if capacity ≤ keys.length then keys.drop 1 else keys) ++ [x]

/-- The last `capacity` keys that were used, in order of last use. -/
def recent (capacity : ℕ) (uses : List α) : List α := uses.dedup.rtake capacity

@[simp] theorem recent_nil (capacity : ℕ) : recent capacity ([] : List α) = [] := by
  simp [recent]

/-- A key that is used once more goes to the end. -/
theorem dedup_concat (uses : List α) (x : α) :
    (uses ++ [x]).dedup = uses.dedup.filter (· ≠ x) ++ [x] := by
  induction uses with
  | nil => simp
  | cons y uses ih =>
      by_cases hyx : y = x
      · subst hyx
        have hlater : y ∈ uses ++ [y] := by simp
        rw [List.cons_append, List.dedup_cons_of_mem hlater, ih]
        by_cases hmem : y ∈ uses
        · rw [List.dedup_cons_of_mem hmem]
        · rw [List.dedup_cons_of_notMem hmem]
          simp
      · by_cases hmem : y ∈ uses
        · have hlater : y ∈ uses ++ [x] := List.mem_append_left _ hmem
          rw [List.cons_append, List.dedup_cons_of_mem hlater, ih, List.dedup_cons_of_mem hmem]
        · have hlater : y ∉ uses ++ [x] := by simp [hmem, hyx]
          rw [List.cons_append, List.dedup_cons_of_notMem hlater, ih,
            List.dedup_cons_of_notMem hmem]
          simp [hyx]

theorem filter_ne_eq_self {l : List α} {x : α} (h : x ∉ l) : l.filter (· ≠ x) = l := by
  refine List.filter_eq_self.mpr ?_
  intro y hy
  rw [decide_eq_true_iff]
  rintro rfl
  exact h hy

theorem length_filter_ne {l : List α} {x : α} (hnodup : l.Nodup) (h : x ∈ l) :
    (l.filter (· ≠ x)).length + 1 = l.length := by
  have herase : l.filter (· ≠ x) = l.erase x := by
    rw [hnodup.erase_eq_filter]
    refine List.filter_congr ?_
    intro y _
    simp [bne, beq_eq_decide]
  rw [herase, List.length_erase_of_mem h]
  have := List.length_pos_of_mem h
  omega

omit [DecidableEq α] in
/-- The last elements of a list are found in any part of it that is long enough. -/
theorem rtake_append {front back : List α} {n : ℕ} (hlength : back.length ≤ n)
    (hfront : front ≠ [] → back.length = n) : (front ++ back).rtake n = back := by
  rw [List.rtake, List.length_append]
  cases front with
  | nil =>
      have hnone : back.length - n = 0 := by omega
      simp [hnone]
  | cons x front =>
      have hall : (x :: front).length + back.length - n = (x :: front).length := by
        have := hfront (List.cons_ne_nil x front)
        omega
      rw [hall, List.drop_left]

/-- A use of a cache that holds the last keys of a list without duplicates. -/
theorem touch_rtake {capacity : ℕ} (hcapacity : 1 ≤ capacity) {l : List α} (hnodup : l.Nodup)
    (x : α) : touch capacity (l.rtake capacity) x = (l.filter (· ≠ x) ++ [x]).rtake capacity := by
  obtain ⟨n, rfl⟩ : ∃ n, capacity = n + 1 := ⟨capacity - 1, by omega⟩
  rw [List.rtake_concat_succ]
  -- the cache is `back`, and `front` is what it has forgotten
  obtain ⟨front, back, hl, hback, hlength, hfront⟩ : ∃ front back, l = front ++ back ∧
      l.rtake (n + 1) = back ∧ back.length ≤ n + 1 ∧ (front ≠ [] → back.length = n + 1) := by
    refine ⟨l.take (l.length - (n + 1)), l.rtake (n + 1), (List.take_append_drop _ _).symm, rfl,
      ?_, ?_⟩
    · rw [List.rtake, List.length_drop]
      omega
    · intro hne
      have : l.length - (n + 1) ≠ 0 := by
        intro hzero
        rw [hzero, List.take_zero] at hne
        exact hne rfl
      rw [List.rtake, List.length_drop]
      omega
  rw [hback, hl, List.filter_append, touch]
  rw [hl] at hnodup
  obtain ⟨hnodupFront, hnodupBack, hdisjoint⟩ := List.nodup_append'.mp hnodup
  by_cases hmem : x ∈ back
  · have hcount := length_filter_ne hnodupBack hmem
    rw [if_pos hmem, filter_ne_eq_self fun hx => hdisjoint hx hmem, rtake_append (by omega)]
    intro hne
    have := hfront hne
    omega
  · rw [if_neg hmem, filter_ne_eq_self hmem]
    split
    next hfull =>
      -- the first of the cache is forgotten too
      have hsplit : front.filter (· ≠ x) ++ back =
          (front.filter (· ≠ x) ++ back.take 1) ++ back.drop 1 := by
        rw [List.append_assoc, List.take_append_drop]
      have hdrop : (back.drop 1).length = n := by
        rw [List.length_drop]
        omega
      rw [hsplit, rtake_append (by omega) fun _ => hdrop]
    next hroom =>
      have hnil : front = [] := by
        by_contra hne
        have := hfront hne
        omega
      rw [hnil, List.filter_nil, rtake_append (by omega) fun h => absurd rfl h]

theorem touch_recent {capacity : ℕ} (hcapacity : 1 ≤ capacity) (uses : List α) (x : α) :
    touch capacity (recent capacity uses) x = recent capacity (uses ++ [x]) := by
  rw [recent, touch_rtake hcapacity (List.nodup_dedup uses), recent, dedup_concat]

/-! ## Turning a ring -/

/-- The keys of a ring, read from `x` on. -/
def turn (keys : List α) (x : α) : List α :=
  keys.dropWhile (· ≠ x) ++ keys.takeWhile (· ≠ x)

theorem turn_append {front back : List α} {x : α} (h : x ∉ front) :
    turn (front ++ x :: back) x = x :: back ++ front := by
  have hother : ∀ y ∈ front, decide (y ≠ x) = true := by
    intro y hy
    rw [decide_eq_true_iff]
    rintro rfl
    exact h hy
  rw [turn, List.dropWhile_append_of_pos hother, List.takeWhile_append_of_pos hother]
  simp

omit [DecidableEq α] in
theorem dropWhile_append_takeWhile_perm (p : α → Bool) (l : List α) :
    (l.dropWhile p ++ l.takeWhile p).Perm l := by
  have hcut := List.takeWhile_append_dropWhile (p := p) (l := l)
  conv_rhs => rw [← hcut]
  exact List.perm_append_comm

theorem turn_perm (keys : List α) (x : α) : (turn keys x).Perm keys :=
  dropWhile_append_takeWhile_perm _ keys

/-- A key that is there is the first after a turn and the last after a use. -/
theorem turn_eq_touch_iff {capacity : ℕ} {keys : List α} {x : α} (hmem : x ∈ keys) :
    turn keys x = touch capacity keys x ↔ keys = [x] := by
  constructor
  · intro hturn
    obtain ⟨front, back, rfl, hfront⟩ := List.eq_append_cons_of_mem hmem
    rw [turn_append hfront, touch, if_pos hmem] at hturn
    cases hrest : (front ++ x :: back).filter (· ≠ x) with
    | nil =>
        rw [hrest] at hturn
        have hlength := congrArg List.length hturn
        simp only [List.length_append, List.length_cons, List.length_nil] at hlength
        have hback : back = [] := List.length_eq_zero_iff.mp (by omega)
        have hfront : front = [] := List.length_eq_zero_iff.mp (by omega)
        rw [hback, hfront, List.nil_append]
    | cons y rest =>
        -- the first of the others would be `x` itself
        rw [hrest] at hturn
        have hy : y ∈ (front ++ x :: back).filter (· ≠ x) := by rw [hrest]; simp
        simp only [List.cons_append, List.cons.injEq] at hturn
        exact absurd hturn.1.symm (by simpa using (List.mem_filter.mp hy).2)
  · rintro rfl
    simp [turn, touch]

end Lru
