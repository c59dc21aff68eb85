import Mathlib.Data.List.Basic

/-!
# Programs that ask

A program that asks its environment a yes-or-no question now and then, and has a result in the
end.  `run` answers the questions from a table, and `Answered` one after the other.
-/

inductive Asking (R : Type*)
  | done (result : R)
  | ask (next : Bool → Asking R)

namespace Asking

variable {R : Type*}

/-- The `n`-th question and those after it are answered from a table. -/
def run (answers : ℕ → Bool) : ℕ → Asking R → R
  | _, done result => result
  | n, ask next => run answers (n + 1) (next (answers n))

/-- What is left of the program once the questions have these answers. -/
inductive Answered (program : Asking R) : List Bool → Asking R → Prop
  | start : Answered program [] program
  | answer {answers : List Bool} {next : Bool → Asking R} (value : Bool)
      (before : Answered program answers (ask next)) :
      Answered program (answers ++ [value]) (next value)

/-- The rest of the program runs as the whole does. -/
theorem Answered.run_eq {program rest : Asking R} {given : List Bool}
    (h : Answered program given rest) (answers : ℕ → Bool)
    (hgiven : ∀ n (hn : n < given.length), answers n = given[n]) :
    rest.run answers given.length = program.run answers 0 := by
  induction h with
  | start => rfl
  | @answer earlier next value before ih =>
      have hlast : answers earlier.length = value := by
        rw [hgiven earlier.length (by simp)]
        simp
      rw [List.length_append, List.length_singleton, ← hlast, ← Asking.run]
      refine ih fun n hn => ?_
      rw [hgiven n (by simp; omega), List.getElem_append_left hn]

/-- The result of a program all of whose questions are answered. -/
theorem Answered.result_eq {program : Asking R} {given : List Bool} {result : R}
    (h : Answered program given (done result)) :
    result = program.run (fun n => given.getD n false) 0 := by
  rw [← h.run_eq _ fun n hn => by rw [List.getD_eq_getElem?_getD, List.getElem?_eq_getElem hn,
    Option.getD_some]]
  rfl

end Asking
