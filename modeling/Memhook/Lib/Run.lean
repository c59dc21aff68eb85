import Mathlib.Data.List.Basic

/-!
# Runs

A run applies one event after the other.  `Along step P` says that every event of a run
meets a condition in the state in which it happens.  Under such a condition an invariant
of one step is one of whole runs, and a relation between two systems that make the same
events keeps up with both.  Events that touch different keys of a store never show a key
anything else than it has before all of them or after all of them.
-/

namespace Run

variable {σ τ ε : Type*}

/-- Every event meets the condition in the state in which it happens. -/
def Along (step : σ → ε → σ) (P : σ → ε → Prop) : σ → List ε → Prop
  | _, [] => True
  | state, event :: rest => P state event ∧ Along step P (step state event) rest

/-- A run can be checked event by event. -/
instance Along.decidable {step : σ → ε → σ} {P : σ → ε → Prop}
    [∀ state event, Decidable (P state event)] :
    (state : σ) → (events : List ε) → Decidable (Along step P state events)
  | _, [] => isTrue trivial
  | state, event :: rest =>
      have : Decidable (Along step P (step state event) rest) :=
        Along.decidable (step state event) rest
      inferInstanceAs (Decidable (P state event ∧ Along step P (step state event) rest))

variable {step : σ → ε → σ} {step' : τ → ε → τ} {P Q : σ → ε → Prop} {state : σ} {state' : τ}
  {events : List ε}

/-- The last event of a kind, if there is one. -/
theorem exists_last (kind : ε → Prop) (events : List ε) :
    (∀ event ∈ events, ¬ kind event) ∨
      ∃ before event after, events = before ++ event :: after ∧ kind event ∧
        ∀ later ∈ after, ¬ kind later := by
  induction events with
  | nil => exact .inl (by simp)
  | cons first rest ih =>
      rcases ih with hnone | ⟨before, event, after, rfl, hevent, hafter⟩
      · by_cases hfirst : kind first
        · exact .inr ⟨[], first, rest, rfl, hfirst, hnone⟩
        · exact .inl (List.forall_mem_cons.mpr ⟨hfirst, hnone⟩)
      · exact .inr ⟨first :: before, event, after, rfl, hevent, hafter⟩

/-- A condition that does not depend on the state. -/
theorem Along.of_forall {P : ε → Prop} (h : ∀ event ∈ events, P event) :
    Along step (fun _ event => P event) state events := by
  induction events generalizing state with
  | nil => exact trivial
  | cons event rest ih =>
      obtain ⟨hevent, hrest⟩ := List.forall_mem_cons.mp h
      exact ⟨hevent, ih hrest⟩

theorem Along.and (hP : Along step P state events) (hQ : Along step Q state events) :
    Along step (fun state event => P state event ∧ Q state event) state events := by
  induction events generalizing state with
  | nil => exact trivial
  | cons event rest ih => exact ⟨⟨hP.1, hQ.1⟩, ih hP.2 hQ.2⟩

/-- The events after an initial part of a run. -/
theorem Along.of_append {first : List ε} (h : Along step P state (first ++ events)) :
    Along step P (first.foldl step state) events := by
  induction first generalizing state with
  | nil => exact h
  | cons event rest ih => exact ih h.2

theorem along_append_iff {first : List ε} :
    Along step P state (first ++ events) ↔
      Along step P state first ∧ Along step P (first.foldl step state) events := by
  induction first generalizing state with
  | nil => exact ⟨fun h => ⟨trivial, h⟩, fun h => h.2⟩
  | cons event rest ih =>
      rw [List.cons_append, Along, ih, Along, and_assoc]
      rfl

/-- A condition on a part of the state that changes by itself. -/
theorem along_comap_iff {part : τ → σ}
    (hpart : ∀ state event, part (step' state event) = step (part state) event) :
    Along step' (fun state event => P (part state) event) state' events ↔
      Along step P (part state') events := by
  induction events generalizing state' with
  | nil => exact Iff.rfl
  | cons event rest ih =>
      refine and_congr_right fun _ => ?_
      rw [ih, hpart]

theorem Along.comap {part : τ → σ}
    (hpart : ∀ state event, part (step' state event) = step (part state) event)
    (h : Along step P (part state') events) :
    Along step' (fun state event => P (part state) event) state' events :=
  (along_comap_iff hpart).mpr h

theorem simulation {R : σ → τ → Prop}
    (hstep : ∀ {state state' event}, R state state' → P state event →
      R (step state event) (step' state' event))
    (h : R state state') (halong : Along step P state events) :
    R (events.foldl step state) (events.foldl step' state') := by
  induction events generalizing state state' with
  | nil => exact h
  | cons event rest ih => exact ih (hstep h halong.1) halong.2

theorem invariant {I : σ → Prop}
    (hstep : ∀ {state event}, I state → P state event → I (step state event))
    (h : I state) (halong : Along step P state events) : I (events.foldl step state) := by
  induction events generalizing state with
  | nil => exact h
  | cons event rest ih => exact ih (hstep h halong.1) halong.2

/-- What an invariant says about the events of a run. -/
theorem Along.of_invariant {I : σ → Prop}
    (hstep : ∀ {state event}, I state → P state event → I (step state event))
    (himp : ∀ {state event}, I state → P state event → Q state event)
    (h : I state) (halong : Along step P state events) : Along step Q state events := by
  induction events generalizing state with
  | nil => exact trivial
  | cons event rest ih => exact ⟨himp h halong.1, ih (hstep h halong.1) halong.2⟩

/-- An invariant that a step keeps under a condition, while a step against the condition
breaks what the invariant promises.  Then the promise is kept throughout a run if and only if
every event of the run meets the condition. -/
theorem forall_prefix_iff_of_breaks {I A : σ → Prop}
    (hstep : ∀ {state event}, I state → Q state event → P state event → I (step state event))
    (hbreaks : ∀ {state event}, I state → Q state event → ¬ P state event →
      ¬ A (step state event))
    (hpromise : ∀ {state}, I state → A state) (h : I state) (halong : Along step Q state events) :
    (∀ before, before <+: events → A (before.foldl step state)) ↔ Along step P state events := by
  induction events generalizing state with
  | nil =>
      refine ⟨fun _ => trivial, ?_⟩
      intro _ before hbefore
      rw [List.prefix_nil.mp hbefore]
      exact hpromise h
  | cons event rest ih =>
      obtain ⟨hside, hrest⟩ := halong
      constructor
      · intro hall
        have hevent : P state event := by
          by_contra hevent
          exact hbreaks h hside hevent (hall [event] (by simp))
        refine ⟨hevent, (ih (hstep h hside hevent) hrest).mp ?_⟩
        intro before hbefore
        exact hall (event :: before) (List.cons_prefix_cons.mpr ⟨rfl, hbefore⟩)
      · rintro ⟨hevent, hlater⟩ before hbefore
        cases before with
        | nil => exact hpromise h
        | cons first before =>
            obtain ⟨rfl, htail⟩ := List.cons_prefix_cons.mp hbefore
            exact (ih (hstep h hside hevent) hrest).mpr hlater before htail

/-- An invariant that a step keeps exactly under a condition holds throughout a run if and
only if every event of the run meets the condition. -/
theorem forall_prefix_iff {I : σ → Prop}
    (hstep : ∀ {state event}, I state → (I (step state event) ↔ P state event)) (h : I state) :
    (∀ before, before <+: events → I (before.foldl step state)) ↔ Along step P state events :=
  forall_prefix_iff_of_breaks (Q := fun _ _ => True) (fun h _ hevent => (hstep h).mpr hevent)
    (fun h _ hevent hkept => hevent ((hstep h).mp hkept)) id h (.of_forall fun _ _ => trivial)

/-! ## Events that touch different keys -/

section Touching

variable {κ ν : Type*} (look : σ → κ → ν) {touches : ε → κ → Prop}

/-- Events that do not touch a key leave what is under it. -/
theorem look_foldl_of_untouched
    (hframe : ∀ state event k, ¬ touches event k → look (step state event) k = look state k)
    {k : κ} (h : ∀ event ∈ events, ¬ touches event k) (state : σ) :
    look (events.foldl step state) k = look state k := by
  induction events generalizing state with
  | nil => rfl
  | cons event rest ih =>
      obtain ⟨hevent, hrest⟩ := List.forall_mem_cons.mp h
      rw [List.foldl_cons, ih hrest, hframe state event k hevent]

/-- If no two events touch one key, then in the middle of a run every key has what it had
at the beginning or what it has at the end. -/
theorem look_foldl_append
    (hframe : ∀ state event k, ¬ touches event k → look (step state event) k = look state k)
    {made later : List ε}
    (hdistinct : (made ++ later).Pairwise fun event other =>
      ∀ k, touches event k → ¬ touches other k) (state : σ) (k : κ) :
    look (made.foldl step state) k = look state k ∨
      look (made.foldl step state) k = look ((made ++ later).foldl step state) k := by
  by_cases htouched : ∃ event ∈ made, touches event k
  · obtain ⟨event, hevent, htouches⟩ := htouched
    right
    have hlater : ∀ other ∈ later, ¬ touches other k := fun other hother =>
      (List.pairwise_append.mp hdistinct).2.2 event hevent other hother k htouches
    rw [List.foldl_append]
    exact (look_foldl_of_untouched look hframe hlater _).symm
  · left
    push Not at htouched
    exact look_foldl_of_untouched look hframe htouched state

end Touching

end Run
