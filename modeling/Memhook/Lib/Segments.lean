import Mathlib.Order.MinMax

/-!
# Segments of a line

A segment is a half-open interval, given by its ends.  Cutting a hole out of a list of
segments leaves the points outside the hole, in pieces: a segment that the hole meets loses
its middle, its head, its tail or everything.

A hole is `Whole` when it only swallows segments, each of them from its own left end on.  Then
cutting it out is leaving these segments out.
-/

/-- A half-open interval of a line. -/
structure Segment (α : Type*) where
  start : α
  stop : α
  deriving DecidableEq, Repr

namespace Segment

variable {α : Type*} [LinearOrder α]

instance : Membership α (Segment α) := ⟨fun segment x => segment.start ≤ x ∧ x < segment.stop⟩

theorem mem_iff {segment : Segment α} {x : α} :
    x ∈ segment ↔ segment.start ≤ x ∧ x < segment.stop := Iff.rfl

/-- The segment has a point. -/
def Nonempty (segment : Segment α) : Prop := segment.start < segment.stop

instance (segment : Segment α) : Decidable segment.Nonempty :=
  inferInstanceAs (Decidable (segment.start < segment.stop))

/-- The two segments have a common point. -/
def Touches (segment other : Segment α) : Prop :=
  max segment.start other.start < min segment.stop other.stop

instance (segment other : Segment α) : Decidable (segment.Touches other) :=
  inferInstanceAs (Decidable (_ < _))

theorem Touches.of_mem {segment other : Segment α} {x : α} (h : x ∈ segment) (hother : x ∈ other) :
    segment.Touches other :=
  (max_le h.1 hother.1).trans_lt (lt_min h.2 hother.2)

theorem Touches.symm {segment other : Segment α} (h : segment.Touches other) :
    other.Touches segment := by
  unfold Touches at h ⊢
  rwa [max_comm, min_comm]

theorem Touches.exists_mem {segment other : Segment α} (h : segment.Touches other) :
    ∃ x, x ∈ segment ∧ x ∈ other := by
  obtain ⟨hleft, hright⟩ := lt_min_iff.mp h
  exact ⟨_, ⟨le_max_left _ _, hleft⟩, ⟨le_max_right _ _, hright⟩⟩

/-- A longer segment from the same start touches no less. -/
theorem Touches.extend {segment : Segment α} {start stop stop' : α}
    (h : segment.Touches ⟨start, stop⟩) (hle : stop ≤ stop') : segment.Touches ⟨start, stop'⟩ :=
  lt_of_lt_of_le h (min_le_min_left _ hle)

theorem start_mem {segment : Segment α} (h : segment.Nonempty) : segment.start ∈ segment :=
  ⟨le_rfl, h⟩

/-! ## Cutting -/

/-- What is left of a segment on the two sides of a hole. -/
def cut (hole segment : Segment α) : List (Segment α) :=
  [⟨segment.start, min segment.stop hole.start⟩,
    ⟨max segment.start hole.stop, segment.stop⟩].filter fun piece => piece.Nonempty

/-- What is left of all of them. -/
def cutAll (hole : Segment α) (segments : List (Segment α)) : List (Segment α) :=
  segments.flatMap (cut hole)

/-- The points outside the hole. -/
theorem exists_mem_cut {hole segment : Segment α} {x : α} :
    (∃ piece ∈ cut hole segment, x ∈ piece) ↔ x ∈ segment ∧ x ∉ hole := by
  simp only [cut, List.mem_filter, List.mem_cons, List.not_mem_nil, or_false,
    decide_eq_true_eq, mem_iff, not_and, not_lt]
  constructor
  · rintro ⟨piece, ⟨rfl | rfl, -⟩, hstart, hstop⟩
    · obtain ⟨hleft, hright⟩ := lt_min_iff.mp hstop
      exact ⟨⟨hstart, hleft⟩, fun hle => absurd hright hle.not_gt⟩
    · obtain ⟨hleft, hright⟩ := max_le_iff.mp hstart
      exact ⟨⟨hleft, hstop⟩, fun _ => hright⟩
  · rintro ⟨⟨hstart, hstop⟩, houtside⟩
    by_cases hle : hole.start ≤ x
    · have hpiece := max_le hstart (houtside hle)
      exact ⟨_, ⟨.inr rfl, hpiece.trans_lt hstop⟩, hpiece, hstop⟩
    · have hpiece := lt_min hstop (not_le.mp hle)
      exact ⟨_, ⟨.inl rfl, hstart.trans_lt hpiece⟩, hstart, hpiece⟩

theorem exists_mem_cutAll {hole : Segment α} {segments : List (Segment α)} {x : α} :
    (∃ piece ∈ cutAll hole segments, x ∈ piece) ↔
      (∃ segment ∈ segments, x ∈ segment) ∧ x ∉ hole := by
  simp only [cutAll, List.mem_flatMap]
  constructor
  · rintro ⟨piece, ⟨segment, hsegment, hpiece⟩, hx⟩
    obtain ⟨hmem, houtside⟩ := exists_mem_cut.mp ⟨piece, hpiece, hx⟩
    exact ⟨⟨segment, hsegment, hmem⟩, houtside⟩
  · rintro ⟨⟨segment, hsegment, hmem⟩, houtside⟩
    obtain ⟨piece, hpiece, hx⟩ := exists_mem_cut.mpr ⟨hmem, houtside⟩
    exact ⟨piece, ⟨segment, hsegment, hpiece⟩, hx⟩

/-- A hole that misses the segment. -/
theorem cut_of_not_touches {hole segment : Segment α} (hhole : hole.Nonempty)
    (hsegment : segment.Nonempty) (h : ¬ segment.Touches hole) : cut hole segment = [segment] := by
  obtain ⟨start, stop⟩ := segment
  obtain ⟨left, right⟩ := hole
  simp only [Nonempty] at hhole hsegment
  simp only [Touches, max_lt_iff, lt_min_iff, not_and] at h
  rcases le_or_gt right start with hright | hright
  · -- the hole lies to the left
    have hempty : ¬ start < min stop left := by
      rw [lt_min_iff]
      exact fun hlt => absurd (hhole.trans_le hright) hlt.2.asymm
    simp [cut, Nonempty, hempty, max_eq_left hright, hsegment]
  · have hstop : stop ≤ left := by
      by_contra hlt
      exact h ⟨hsegment, not_le.mp hlt⟩ hright hhole
    have hempty : ¬ max start right < stop := by
      rw [max_lt_iff]
      exact fun hlt => absurd (hhole.trans hlt.2) hstop.not_gt
    simp [cut, Nonempty, hempty, min_eq_left hstop, hsegment]

/-- A hole that swallows the segment. -/
theorem cut_of_within {hole segment : Segment α} (hstart : hole.start ≤ segment.start)
    (hstop : segment.stop ≤ hole.stop) : cut hole segment = [] := by
  simp [cut, Nonempty, hstart, hstop]

/-! ## Segments apart -/

/-- Different segments have no common point. -/
def Apart (segments : List (Segment α)) : Prop :=
  ∀ segment ∈ segments, ∀ other ∈ segments, segment.Touches other → segment = other

theorem Apart.mono {segments segments' : List (Segment α)} (h : Apart segments)
    (hsub : ∀ segment ∈ segments', segment ∈ segments) : Apart segments' :=
  fun segment hsegment other hother => h segment (hsub segment hsegment) other (hsub other hother)

theorem Apart.cons {segments : List (Segment α)} (h : Apart segments) {segment : Segment α}
    (hfree : ∀ other ∈ segments, ¬ other.Touches segment) : Apart (segment :: segments) := by
  intro first hfirst second hsecond htouches
  rcases List.mem_cons.mp hfirst with hfirst | hfirst <;>
    rcases List.mem_cons.mp hsecond with hsecond | hsecond
  · rw [hfirst, hsecond]
  · exact absurd (hfirst ▸ htouches.symm) (hfree second hsecond)
  · exact absurd (hsecond ▸ htouches) (hfree first hfirst)
  · exact h first hfirst second hsecond htouches

/-! ## Whole segments -/

/-- The hole meets a segment only to swallow it, from its left end on. -/
def Whole (hole : Segment α) (segments : List (Segment α)) : Prop :=
  ∀ segment ∈ segments, segment.Touches hole →
    segment.start = hole.start ∧ segment.stop ≤ hole.stop

instance (hole : Segment α) (segments : List (Segment α)) : Decidable (hole.Whole segments) :=
  inferInstanceAs (Decidable (∀ segment ∈ segments, _))

theorem whole_of_not_touches {hole : Segment α} {segments : List (Segment α)}
    (h : ∀ segment ∈ segments, ¬ segment.Touches hole) : hole.Whole segments :=
  fun segment hsegment htouches => absurd htouches (h segment hsegment)

/-- Cutting out a whole hole leaves the other segments as they are. -/
theorem mem_cutAll_of_whole {hole : Segment α} (hhole : hole.Nonempty)
    {segments : List (Segment α)} (hsegments : ∀ segment ∈ segments, segment.Nonempty)
    (hwhole : hole.Whole segments) {segment : Segment α} :
    segment ∈ cutAll hole segments ↔ segment ∈ segments ∧ segment.start ≠ hole.start := by
  have hcut : ∀ other ∈ segments,
      cut hole other = if other.start = hole.start then [] else [other] := by
    intro other hother
    by_cases htouches : other.Touches hole
    · obtain ⟨hstart, hstop⟩ := hwhole other hother htouches
      rw [if_pos hstart, cut_of_within hstart.ge hstop]
    · have hstart : other.start ≠ hole.start := by
        intro hstart
        refine htouches (.of_mem (start_mem (hsegments other hother)) ?_)
        rw [hstart]
        exact start_mem hhole
      rw [if_neg hstart, cut_of_not_touches hhole (hsegments other hother) htouches]
  simp only [cutAll, List.mem_flatMap]
  constructor
  · rintro ⟨other, hother, hpiece⟩
    rw [hcut other hother] at hpiece
    split_ifs at hpiece with hstart
    · simp at hpiece
    · obtain rfl := List.mem_singleton.mp hpiece
      exact ⟨hother, hstart⟩
  · rintro ⟨hsegment, hstart⟩
    refine ⟨segment, hsegment, ?_⟩
    rw [hcut segment hsegment, if_neg hstart]
    exact List.mem_singleton_self segment

end Segment
