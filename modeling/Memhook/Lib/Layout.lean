import Mathlib.Algebra.Group.Nat.Defs
import Mathlib.Data.List.Basic

/-!
# Text that can be read back

A printer lays a value out as text.  `Determines Ok Follow print field` says that a text that
starts with the print of a value, with text of a certain kind behind it, tells the field of the
value and where the print ends.  The laws below follow the ways printers are put together: fixed
words, letters of one kind up to another, everything up to a stop, one print after the other, and
any number of prints in a row.
-/

namespace Layout

variable {α α' β δ γ : Type*}

/-- What is printed in front of the rest tells the field and the rest. -/
def Determines (Ok : α → Prop) (Follow : List γ → Prop) (print : α → List γ) (field : α → β) :
    Prop :=
  ∀ ⦃a b rest rest'⦄, Ok a → Ok b → Follow rest → Follow rest' →
    print a ++ rest = print b ++ rest' → field a = field b ∧ rest = rest'

/-- The text does not go on with a letter of the kind. -/
def Stops (kind : γ → Prop) (text : List γ) : Prop := ∀ c ∈ text.head?, ¬ kind c

instance {kind : γ → Prop} [DecidablePred kind] : (text : List γ) → Decidable (Stops kind text)
  | [] => isTrue (by simp [Stops])
  | c :: _ => decidable_of_iff (¬ kind c) (by simp [Stops])

/-- Any text. -/
def Anything (_ : List γ) : Prop := True

theorem stops_append {kind : γ → Prop} {first : List γ} (hne : first ≠ [])
    (h : Stops kind first) (text : List γ) : Stops kind (first ++ text) := by
  cases first with
  | nil => exact absurd rfl hne
  | cons c first => exact h

/-- The longest run of letters of one kind. -/
theorem append_inj_of_stops {kind : γ → Prop} {run run' rest rest' : List γ}
    (hrun : ∀ c ∈ run, kind c) (hrun' : ∀ c ∈ run', kind c) (hrest : Stops kind rest)
    (hrest' : Stops kind rest') (h : run ++ rest = run' ++ rest') : run = run' ∧ rest = rest' := by
  induction run generalizing run' with
  | nil =>
      cases run' with
      | nil => exact ⟨rfl, h⟩
      | cons c run' =>
          rw [List.nil_append] at h
          exact absurd (hrun' c List.mem_cons_self) (hrest c (by rw [h]; rfl))
  | cons c run ih =>
      cases run' with
      | nil =>
          rw [List.nil_append] at h
          exact absurd (hrun c List.mem_cons_self) (hrest' c (by rw [← h]; rfl))
      | cons c' run' =>
          obtain ⟨rfl, htail⟩ := List.cons_eq_cons.mp h
          obtain ⟨-, hrun⟩ := List.forall_mem_cons.mp hrun
          obtain ⟨-, hrun'⟩ := List.forall_mem_cons.mp hrun'
          obtain ⟨rfl, hrest⟩ := ih hrun hrun' htail
          exact ⟨rfl, hrest⟩

/-- The longest run at the end of a text. -/
theorem append_cons_inj_of_kind (kind : γ → Prop) {text text' run run' : List γ} {c : γ}
    (hc : ¬ kind c) (hrun : ∀ d ∈ run, kind d) (hrun' : ∀ d ∈ run', kind d)
    (h : text ++ c :: run = text' ++ c :: run') : text = text' ∧ run = run' := by
  have hreverse := congrArg List.reverse h
  simp only [List.reverse_append, List.reverse_cons, List.append_assoc] at hreverse
  have hstops : ∀ rest, Stops kind ([c] ++ rest) := by simp [Stops, hc]
  obtain ⟨hruns, hbehind⟩ := append_inj_of_stops (by simpa using hrun) (by simpa using hrun')
    (hstops text.reverse) (hstops text'.reverse) hreverse
  exact ⟨List.reverse_injective (List.append_cancel_left hbehind),
    List.reverse_injective hruns⟩

variable {Ok : α → Prop} {Follow Follow' : List γ → Prop} {print print' : α → List γ}
  {field : α → β} {field' : α → δ}

theorem Determines.map (h : Determines Ok Follow print field)
    (hfield : ∀ a b, field a = field b → field' a = field' b) :
    Determines Ok Follow print field' := by
  intro a b rest rest' ha hb hrest hrest' heq
  obtain ⟨hsame, hrests⟩ := h ha hb hrest hrest' heq
  exact ⟨hfield a b hsame, hrests⟩

theorem Determines.congr (h : Determines Ok Follow print field)
    (hprint : ∀ a, print' a = print a) : Determines Ok Follow print' field := by
  rwa [show print' = print from funext hprint]

/-- A field of a field. -/
theorem Determines.comap (h : Determines Ok Follow print field) (part : α' → α) :
    Determines (fun a => Ok (part a)) Follow (fun a => print (part a)) fun a => field (part a) :=
  fun _ _ _ _ ha hb => h ha hb

theorem Determines.mono {Ok' : α → Prop} (h : Determines Ok Follow print field)
    (hok : ∀ a, Ok' a → Ok a) (hfollow : ∀ text, Follow' text → Follow text) :
    Determines Ok' Follow' print field :=
  fun _ _ _ _ ha hb hrest hrest' => h (hok _ ha) (hok _ hb) (hfollow _ hrest) (hfollow _ hrest')

/-- One print after the other. -/
theorem Determines.append (h : Determines Ok Follow print field)
    (h' : Determines Ok Follow' print' field')
    (hfollow : ∀ a rest, Ok a → Follow' rest → Follow (print' a ++ rest)) :
    Determines Ok Follow' (fun a => print a ++ print' a) fun a => (field a, field' a) := by
  intro a b rest rest' ha hb hrest hrest' heq
  rw [List.append_assoc, List.append_assoc] at heq
  obtain ⟨hfirst, hbehind⟩ := h ha hb (hfollow a rest ha hrest) (hfollow b rest' hb hrest') heq
  obtain ⟨hsecond, hrests⟩ := h' ha hb hrest hrest' hbehind
  exact ⟨Prod.ext hfirst hsecond, hrests⟩

/-- A fixed word, and a print behind it. -/
theorem Determines.word (word : List γ) (h : Determines Ok Follow print field) :
    Determines Ok Follow (fun a => word ++ print a) field := by
  intro a b rest rest' ha hb hrest hrest' heq
  rw [List.append_assoc, List.append_assoc] at heq
  exact h ha hb hrest hrest' (List.append_cancel_left heq)

/-- Nothing. -/
theorem determines_nil : Determines Ok Follow (fun _ => []) fun _ => () :=
  fun _ _ _ _ _ _ _ _ heq => ⟨rfl, heq⟩

/-- Letters of one kind that stand for the field. -/
theorem determines_of_kind {kind : γ → Prop} (hkind : ∀ a, Ok a → ∀ c ∈ print a, kind c)
    (hfield : ∀ a b, print a = print b → field a = field b) :
    Determines Ok (Stops kind) print field := by
  intro a b rest rest' ha hb hrest hrest' heq
  obtain ⟨hprint, hrests⟩ := append_inj_of_stops (hkind a ha) (hkind b hb) hrest hrest' heq
  exact ⟨hfield a b hprint, hrests⟩

/-- A stop, and everything before it. -/
theorem determines_until (stop : γ) (hstop : ∀ a, Ok a → stop ∉ print a) :
    Determines Ok Anything (fun a => print a ++ [stop]) print := by
  intro a b rest rest' ha hb _ _ heq
  rw [List.append_assoc, List.append_assoc] at heq
  have hstops : ∀ text, Stops (· ≠ stop) ([stop] ++ text) := by simp [Stops]
  have hkind : ∀ a, Ok a → ∀ c ∈ print a, c ≠ stop := fun a ha c hc hcs => hstop a ha (hcs ▸ hc)
  obtain ⟨hprint, hbehind⟩ :=
    append_inj_of_stops (hkind a ha) (hkind b hb) (hstops rest) (hstops rest') heq
  exact ⟨hprint, List.append_cancel_left hbehind⟩

/-- Any number of prints, up to a text that is not the start of another one. -/
theorem Determines.flatMap (Start : List γ → Prop) (h : Determines Ok Follow print field)
    (hstart : ∀ a rest, Ok a → Start (print a ++ rest))
    (hnext : ∀ text, Start text → Follow text)
    (hend : ∀ text, Follow' text → Follow text ∧ ¬ Start text) :
    Determines (fun l : List α => ∀ a ∈ l, Ok a) Follow' (fun l => l.flatMap print)
      fun l => l.map field := by
  have hbehind : ∀ (l : List α) (text : List γ), (∀ a ∈ l, Ok a) → Follow' text →
      Follow (l.flatMap print ++ text) := by
    intro l text hl htext
    cases l with
    | nil => exact (hend text htext).1
    | cons a l =>
        rw [List.flatMap_cons, List.append_assoc]
        exact hnext _ (hstart a _ (hl a List.mem_cons_self))
  intro l
  induction l with
  | nil =>
      intro l' rest rest' _ hl' hrest _ heq
      cases l' with
      | nil => exact ⟨rfl, heq⟩
      | cons b l' =>
          simp only [List.flatMap_nil, List.nil_append, List.flatMap_cons,
            List.append_assoc] at heq
          exact absurd (heq ▸ hstart b _ (hl' b List.mem_cons_self)) (hend rest hrest).2
  | cons a l ih =>
      intro l' rest rest' hl hl' hrest hrest' heq
      obtain ⟨ha, hl⟩ := List.forall_mem_cons.mp hl
      cases l' with
      | nil =>
          simp only [List.flatMap_nil, List.nil_append, List.flatMap_cons,
            List.append_assoc] at heq
          exact absurd (heq ▸ hstart a _ ha) (hend rest' hrest').2
      | cons b l' =>
          obtain ⟨hb, hl'⟩ := List.forall_mem_cons.mp hl'
          simp only [List.flatMap_cons, List.append_assoc] at heq
          obtain ⟨hhead, htail⟩ :=
            h ha hb (hbehind l rest hl hrest) (hbehind l' rest' hl' hrest') heq
          obtain ⟨htails, hrests⟩ := ih hl hl' hrest hrest' htail
          exact ⟨List.cons_eq_cons.mpr ⟨hhead, htails⟩, hrests⟩

/-! ## Numerals -/

/-- The bytes of an ASCII text. -/
def ascii (text : List Char) : List UInt8 := text.map fun c => UInt8.ofNat c.toNat

/-- A number in a base up to sixteen, without leading zeros and with small letters. -/
def numeral (base n : ℕ) : List UInt8 := ascii (Nat.toDigits base n)

/-- A number with zeros in front of it, up to a width. -/
def padded (base width n : ℕ) : List UInt8 := (numeral base n).leftpad width 48

/-- A digit of base sixteen. -/
def IsDigit (c : UInt8) : Prop := 48 ≤ c ∧ c ≤ 57 ∨ 97 ≤ c ∧ c ≤ 102

instance (c : UInt8) : Decidable (IsDigit c) := inferInstanceAs (Decidable (_ ∨ _))

def digitValue (c : UInt8) : ℕ := if c ≤ 57 then c.toNat - 48 else c.toNat - 87

/-- The number some digits stand for. -/
def value (base : ℕ) (digits : List UInt8) : ℕ :=
  digits.foldl (fun v c => v * base + digitValue c) 0

theorem digitChar_spec : ∀ d < 16, IsDigit (UInt8.ofNat (Nat.digitChar d).toNat) ∧
    digitValue (UInt8.ofNat (Nat.digitChar d).toNat) = d := by
  decide

section Numerals

variable {base : ℕ} (hbase : 1 < base) (hle : base ≤ 16)

include hbase hle

theorem numeral_spec (n : ℕ) :
    (∀ c ∈ numeral base n, IsDigit c) ∧ value base (numeral base n) = n := by
  induction n using Nat.strongRecOn with
  | _ n ih =>
      by_cases hlt : n < base
      · obtain ⟨hdigit, hvalue⟩ := digitChar_spec n (by omega)
        simp only [numeral, Nat.toDigits_of_lt_base hlt, ascii, List.map_cons, List.map_nil, value,
          List.foldl_cons, List.foldl_nil, hvalue, List.forall_mem_singleton]
        exact ⟨hdigit, by omega⟩
      · have hmod : n % base < base := Nat.mod_lt n (by omega)
        obtain ⟨hdigits, hvalues⟩ := ih (n / base) (Nat.div_lt_self (by omega) hbase)
        obtain ⟨hdigit, hvalue⟩ := digitChar_spec (n % base) (by omega)
        have hnumeral : numeral base n =
            numeral base (n / base) ++ [UInt8.ofNat (Nat.digitChar (n % base)).toNat] := by
          simp only [numeral, Nat.toDigits_of_base_le hbase (Nat.le_of_not_lt hlt), ascii,
            List.map_append, List.map_cons, List.map_nil]
        rw [hnumeral]
        refine ⟨List.forall_mem_append.mpr ⟨hdigits, by simpa using hdigit⟩, ?_⟩
        calc value base (numeral base (n / base) ++ [UInt8.ofNat (Nat.digitChar (n % base)).toNat])
            = value base (numeral base (n / base)) * base +
                digitValue (UInt8.ofNat (Nat.digitChar (n % base)).toNat) := by simp [value]
          _ = n / base * base + n % base := by rw [hvalues, hvalue]
          _ = n := Nat.div_add_mod' n base

theorem padded_spec (width n : ℕ) :
    (∀ c ∈ padded base width n, IsDigit c) ∧ value base (padded base width n) = n := by
  obtain ⟨hdigits, hvalue⟩ := numeral_spec hbase hle n
  have hzeros : ∀ k, value base (List.replicate k 48) = 0 := by
    intro k
    induction k with
    | zero => rfl
    | succ k ih =>
        rw [value, List.replicate_succ', List.foldl_append, ← value, ih]
        simp [digitValue]
  refine ⟨?_, ?_⟩
  · intro c hc
    rcases List.mem_append.mp hc with hzero | hdigit
    · rw [List.eq_of_mem_replicate hzero]
      decide
    · exact hdigits c hdigit
  · rw [padded, List.leftpad, value, List.foldl_append, ← value, hzeros, ← value, hvalue]

theorem determines_padded (width : ℕ) (number : α → ℕ) :
    Determines Ok (Stops IsDigit) (fun a => padded base width (number a)) number := by
  refine determines_of_kind (fun a _ => (padded_spec hbase hle width (number a)).1) ?_
  intro a b h
  have hvalue := congrArg (value base) h
  rwa [(padded_spec hbase hle width _).2, (padded_spec hbase hle width _).2] at hvalue

end Numerals

section Numbers

variable {Follow : List UInt8 → Prop} {print : α → List UInt8}
  (h : Determines Ok Follow print field) (width : ℕ) (number : α → ℕ) (word : List UInt8)
  (hne : word ≠ []) (hstops : Stops IsDigit word)

include h hne hstops

/-- A number, a word that ends it, and a print behind both. -/
theorem Determines.padded {base : ℕ} (hbase : 1 < base) (hle : base ≤ 16) :
    Determines Ok Follow (fun a => Layout.padded base width (number a) ++ (word ++ print a))
      fun a => (number a, field a) := by
  refine (determines_padded hbase hle width number).append (h.word word) ?_
  intro a rest _ _
  rw [List.append_assoc]
  exact stops_append hne hstops _

theorem Determines.decimal :
    Determines Ok Follow (fun a => Layout.padded 10 width (number a) ++ (word ++ print a))
      fun a => (number a, field a) :=
  h.padded width number word hne hstops (by decide) (by decide)

theorem Determines.hexadecimal :
    Determines Ok Follow (fun a => Layout.padded 16 width (number a) ++ (word ++ print a))
      fun a => (number a, field a) :=
  h.padded width number word hne hstops (by decide) (by decide)

end Numbers

end Layout
