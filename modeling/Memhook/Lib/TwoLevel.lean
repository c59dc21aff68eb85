import Mathlib.Logic.Function.Basic

/-!
# Two levels that stand for one map

A store with an upper level in front of a lower one, seen at one key: each level
may hold an entry there.  Lookups, removals and rewrites act on the upper entry
if there is one, and at any time an entry may sink to the lower level, where an
entry that is already present wins.

`Refines cells m` says that a family of such cells stands for the map `m`: no
key has an entry in both levels, and the one entry a key may have is `m`'s.  The
lemmas of the last section are the steps of a simulation: sinking is invisible,
and each operation on one cell is the corresponding update of `m`, provided an
entry is only announced where there is none.
-/

namespace TwoLevel

/-- The entries of the two levels under one key. -/
structure Cell (ρ : Type*) where
  upper : Option ρ
  lower : Option ρ
  deriving DecidableEq

namespace Cell

variable {ρ : Type*}

/-- What a lookup finds. -/
def get (cell : Cell ρ) : Option ρ := cell.upper.or cell.lower

/-- Insert into the upper level unless it has an entry. -/
def announce (entry : ρ) (cell : Cell ρ) : Cell ρ := ⟨cell.upper.or (some entry), cell.lower⟩

/-- Remove the entry a lookup finds. -/
def discard (cell : Cell ρ) : Cell ρ :=
  match cell.upper with
  | some _ => ⟨none, cell.lower⟩
  | none => ⟨none, none⟩

/-- Rewrite the entry a lookup finds. -/
def rewrite (f : ρ → ρ) (cell : Cell ρ) : Cell ρ :=
  match cell.upper with
  | some entry => ⟨some (f entry), cell.lower⟩
  | none => ⟨none, cell.lower.map f⟩

/-- Move the upper entry down, where an existing entry stays. -/
def sink (cell : Cell ρ) : Cell ρ := ⟨none, cell.lower.or cell.upper⟩

/-- `settled` is `cell`, or `cell` after its entry has sunk. -/
def Settles (cell settled : Cell ρ) : Prop := settled = cell ∨ settled = cell.sink

/-- At most one level has an entry. -/
def Exclusive (cell : Cell ρ) : Prop := cell.upper = none ∨ cell.lower = none

theorem Settles.refl (cell : Cell ρ) : cell.Settles cell := Or.inl rfl

theorem get_eq_none {cell : Cell ρ} : cell.get = none ↔ cell.upper = none ∧ cell.lower = none := by
  unfold get
  cases cell.upper <;> simp

/-- Without a second entry the levels hold what a lookup finds. -/
theorem Exclusive.eq_some_iff {cell : Cell ρ} (h : cell.Exclusive) {entry : ρ} :
    cell.upper = some entry ∨ cell.lower = some entry ↔ cell.get = some entry := by
  unfold get
  rcases h with h | h <;> simp [h]

theorem exclusive_sink (cell : Cell ρ) : cell.sink.Exclusive := Or.inl rfl

theorem get_sink {cell : Cell ρ} (h : cell.Exclusive) : cell.sink.get = cell.get := by
  obtain ⟨upper, lower⟩ := cell
  rcases h with h | h <;> simp only at h <;> subst h
  · simp [sink, get]
  · simp [sink, get]

theorem Settles.exclusive {cell settled : Cell ρ} (h : cell.Settles settled)
    (hexclusive : cell.Exclusive) : settled.Exclusive := by
  rcases h with rfl | rfl
  · exact hexclusive
  · exact exclusive_sink cell

theorem Settles.get_eq {cell settled : Cell ρ} (h : cell.Settles settled)
    (hexclusive : cell.Exclusive) : settled.get = cell.get := by
  rcases h with rfl | rfl
  · rfl
  · exact get_sink hexclusive

theorem announce_of_get_eq_none {cell : Cell ρ} (h : cell.get = none) (entry : ρ) :
    cell.announce entry = ⟨some entry, none⟩ := by
  obtain ⟨hupper, hlower⟩ := get_eq_none.mp h
  simp [announce, hupper, hlower]

/-- After an announcement the only entry is the one that was already there, if any. -/
theorem Settles.sole_of_announce {cell settled : Cell ρ} {entry sole : ρ}
    (h : (cell.announce entry).Settles settled)
    (hsole : settled = ⟨some sole, none⟩ ∨ settled = ⟨none, some sole⟩) :
    cell.get = none ∨ cell.sink.lower = some sole := by
  obtain ⟨upper, lower⟩ := cell
  rcases h with rfl | rfl <;> cases upper <;> cases lower <;>
    simp_all [announce, sink, get]

theorem discard_of_exclusive {cell : Cell ρ} (h : cell.Exclusive) :
    cell.discard = ⟨none, none⟩ := by
  obtain ⟨upper, lower⟩ := cell
  cases upper with
  | none => rfl
  | some entry =>
      rcases h with h | h
      · simp at h
      · simp only at h
        simp [discard, h]

theorem exclusive_rewrite {cell : Cell ρ} (h : cell.Exclusive) (f : ρ → ρ) :
    (cell.rewrite f).Exclusive := by
  obtain ⟨upper, lower⟩ := cell
  cases upper with
  | none => exact Or.inl rfl
  | some entry =>
      rcases h with h | h
      · simp at h
      · exact Or.inr h

theorem get_rewrite (cell : Cell ρ) (f : ρ → ρ) : (cell.rewrite f).get = cell.get.map f := by
  obtain ⟨upper, lower⟩ := cell
  cases upper <;> simp [rewrite, get]

/-! ### An entry on top of an older one -/

/-- The only entry that can lie under another one is `older`. -/
def Covers (older : Option ρ) (cell : Cell ρ) : Prop := cell.Exclusive ∨ cell.lower = older

theorem covers_announce (cell : Cell ρ) (entry : ρ) :
    (cell.announce entry).Covers cell.lower := Or.inr rfl

theorem Settles.covers {cell settled : Cell ρ} {older : Option ρ} (h : cell.Settles settled)
    (hcovers : cell.Covers older) : settled.Covers older := by
  rcases h with rfl | rfl
  · exact hcovers
  · exact Or.inl (exclusive_sink cell)

theorem Covers.rewrite {cell : Cell ρ} {older : Option ρ} (h : cell.Covers older) (f : ρ → ρ) :
    (cell.rewrite f).Covers older := by
  rcases h with h | h
  · exact Or.inl (exclusive_rewrite h f)
  · obtain ⟨upper, lower⟩ := cell
    cases upper with
    | none => exact Or.inl (Or.inl rfl)
    | some entry => exact Or.inr h

/-- Removing what a lookup finds leaves at most the older entry. -/
theorem Covers.discard {cell : Cell ρ} {older : Option ρ} (h : cell.Covers older) :
    cell.discard.upper = none ∧ (cell.discard.lower = none ∨ cell.discard.lower = older) := by
  rcases h with h | h
  · rw [discard_of_exclusive h]
    exact ⟨rfl, Or.inl rfl⟩
  · obtain ⟨upper, lower⟩ := cell
    cases upper with
    | none => exact ⟨rfl, Or.inl rfl⟩
    | some entry => exact ⟨rfl, Or.inr h⟩

/-- A cell without an upper entry has nothing to sink. -/
theorem Settles.eq_of_upper {cell settled : Cell ρ} (h : cell.Settles settled)
    (hupper : cell.upper = none) : settled = cell := by
  rcases h with rfl | rfl
  · rfl
  · obtain ⟨upper, lower⟩ := cell
    simp only at hupper
    simp [sink, hupper]

end Cell

/-! ## Refinement -/

variable {κ ρ : Type*}

/-- The cells stand for the map `m`. -/
def Refines (cells : κ → Cell ρ) (m : κ → Option ρ) : Prop :=
  ∀ k, (cells k).Exclusive ∧ (cells k).get = m k

namespace Refines

variable {cells cells' : κ → Cell ρ} {m : κ → Option ρ}

theorem get_eq (h : Refines cells m) (k : κ) : (cells k).get = m k := (h k).2

theorem settle (h : Refines cells m) (hsettles : ∀ k, (cells k).Settles (cells' k)) :
    Refines cells' m := by
  intro k
  obtain ⟨hexclusive, hget⟩ := h k
  exact ⟨(hsettles k).exclusive hexclusive, ((hsettles k).get_eq hexclusive).trans hget⟩

variable [DecidableEq κ]

theorem announce (h : Refines cells m) {key : κ} (hfresh : m key = none) (entry : ρ) :
    Refines (fun k => if k = key then (cells k).announce entry else cells k)
      (Function.update m key (some entry)) := by
  intro k
  by_cases hk : k = key
  · subst hk
    have hnone : (cells k).get = none := (h.get_eq k).trans hfresh
    simp [Cell.announce_of_get_eq_none hnone, Cell.Exclusive, Cell.get]
  · simpa [hk] using h k

theorem discard (h : Refines cells m) (key : κ) :
    Refines (fun k => if k = key then (cells k).discard else cells k)
      (Function.update m key none) := by
  intro k
  by_cases hk : k = key
  · subst hk
    simp [Cell.discard_of_exclusive (h k).1, Cell.Exclusive, Cell.get]
  · simpa [hk] using h k

theorem rewrite (h : Refines cells m) (key : κ) (f : ρ → ρ) :
    Refines (fun k => if k = key then (cells k).rewrite f else cells k)
      (Function.update m key ((m key).map f)) := by
  intro k
  by_cases hk : k = key
  · subst hk
    simp only [if_true, Function.update_self]
    exact ⟨Cell.exclusive_rewrite (h k).1 f, by rw [Cell.get_rewrite, h.get_eq]⟩
  · simpa [hk] using h k

end Refines

end TwoLevel
