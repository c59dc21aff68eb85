import Mathlib.Data.List.Induction
import Memhook.View.MappedView

/-!
# Filters in a row

`CheckTraceInfoOptions` asks one option after the other and stops at the first that
rejects the record.  Over a whole index this is a row of sieves (`Memhook.Lib.Sieve`):
each option sees the records that the options before it accept, and no others.

The options that measure from the start take the timestamp of the first record they see
for the start.  So an option before them, by rejecting that record, moves the start, and
the accepted records are not those that each list of options accepts alone.
`StartsKept` says that this does not happen; `filters_conjunction` proves that filters
then combine as a conjunction, and that a start that is moved shows for some duration.
-/

namespace Memhook

namespace MappedViewOption

/-- The options that measure from the start. -/
def FromStart : MappedViewOption → Prop
  | minTimeFromStart _ _ | maxTimeFromStart _ _ => True
  | _ => False

/-- The answer of a new option when the start has turned out to be `start`. -/
def accepts (option : MappedViewOption) (tinfo : BasicTraceInfo) (start : TimePoint) : Bool :=
  match option with
  | minTimeFromStart _ minDuration => tinfo.timestamp - start ≥ minDuration
  | maxTimeFromStart _ maxDuration => tinfo.timestamp - start ≤ maxDuration
  | _ => (option.call tinfo.toTraceInfoBase).1

/-- The option once it has taken `start` for the start. -/
def startingAt (start : TimePoint) : MappedViewOption → MappedViewOption
  | minTimeFromStart _ minDuration => minTimeFromStart start minDuration
  | maxTimeFromStart _ maxDuration => maxTimeFromStart start maxDuration
  | option => option

theorem startingAt_zero {option : MappedViewOption} (hfresh : option.Fresh) :
    option.startingAt 0 = option := by
  cases option with
  | minTimeFromStart startTime minDuration => rw [startingAt, show startTime = 0 from hfresh]
  | maxTimeFromStart startTime maxDuration => rw [startingAt, show startTime = 0 from hfresh]
  | _ => rfl

theorem call_startingAt (option : MappedViewOption) (start : TimePoint)
    (tinfo : BasicTraceInfo) :
    (option.startingAt start).call tinfo.toTraceInfoBase =
      (option.accepts tinfo (if start = 0 then tinfo.timestamp else start),
        option.startingAt (if start = 0 then tinfo.timestamp else start)) := by
  cases option <;> rfl

theorem accepts_of_not_fromStart {option : MappedViewOption} (h : ¬ option.FromStart)
    (tinfo : BasicTraceInfo) (start start' : TimePoint) :
    option.accepts tinfo start = option.accepts tinfo start' := by
  cases option with
  | minTimeFromStart => exact absurd trivial h
  | maxTimeFromStart => exact absurd trivial h
  | _ => rfl

end MappedViewOption

open MappedViewOption

/-- The records of an index that `CheckTraceInfoOptions` accepts, one after the other. -/
def accepted (options : List MappedViewOption) (index : List BasicTraceInfo) :
    List BasicTraceInfo :=
  Sieve.sift (fun options (tinfo : BasicTraceInfo) =>
    MappedViewBase.checkOptions options tinfo.toTraceInfoBase) options index

/-- Each record with the time from which an option that sees these records in this order
measures it: the first timestamp that is not the epoch. -/
def measured (index : List BasicTraceInfo) : List (BasicTraceInfo × TimePoint) :=
  Sieve.mark 0 (fun tinfo => tinfo.timestamp) 0 index

/-! ## The options as a row of sieves -/

theorem checkOptions_eq_row (options : List MappedViewOption) (tinfo : BasicTraceInfo) :
    MappedViewBase.checkOptions options tinfo.toTraceInfoBase =
      Sieve.row (fun option (tinfo : BasicTraceInfo) => option.call tinfo.toTraceInfoBase)
        options tinfo := by
  induction options with
  | nil => rfl
  | cons option rest ih => rw [MappedViewBase.checkOptions, Sieve.row, ih]

theorem accepted_eq_sift (options : List MappedViewOption) (index : List BasicTraceInfo) :
    accepted options index =
      Sieve.sift (Sieve.row fun option (tinfo : BasicTraceInfo) =>
        option.call tinfo.toTraceInfoBase) options index := by
  unfold accepted
  congr 1
  funext options tinfo
  exact checkOptions_eq_row options tinfo

@[simp] theorem accepted_nil (index : List BasicTraceInfo) : accepted [] index = index := by
  rw [accepted_eq_sift, Sieve.sift_row_nil]

theorem accepted_append (options options' : List MappedViewOption)
    (index : List BasicTraceInfo) :
    accepted (options ++ options') index = accepted options' (accepted options index) := by
  simp only [accepted_eq_sift, Sieve.sift_row_append]

theorem accepted_cons (option : MappedViewOption) (rest : List MappedViewOption)
    (index : List BasicTraceInfo) :
    accepted (option :: rest) index = accepted rest (accepted [option] index) :=
  accepted_append [option] rest index

theorem accepted_sublist (options : List MappedViewOption) (index : List BasicTraceInfo) :
    (accepted options index).Sublist index :=
  Sieve.sift_sublist options index

/-- One new option accepts by record and start. -/
theorem accepted_singleton {option : MappedViewOption} (hfresh : option.Fresh)
    (index : List BasicTraceInfo) :
    accepted [option] index =
      ((measured index).filter fun p => option.accepts p.1 p.2).map Prod.fst := by
  rw [accepted_eq_sift, Sieve.sift_row_cons, Sieve.sift_row_nil]
  conv_lhs => rw [← startingAt_zero hfresh]
  exact Sieve.sift_eq_mark (fun start => option.startingAt start)
    (fun start tinfo => call_startingAt option start tinfo) 0 index

theorem mem_accepted_singleton {option : MappedViewOption} (hfresh : option.Fresh)
    {index : List BasicTraceInfo} {tinfo : BasicTraceInfo} :
    tinfo ∈ accepted [option] index ↔
      ∃ start, (tinfo, start) ∈ measured index ∧ option.accepts tinfo start := by
  rw [accepted_singleton hfresh]
  simp

theorem exists_measured {index : List BasicTraceInfo} {tinfo : BasicTraceInfo}
    (h : tinfo ∈ index) : ∃ start, (tinfo, start) ∈ measured index :=
  Sieve.exists_mem_mark 0 h

theorem mem_of_mem_measured {index : List BasicTraceInfo} {tinfo : BasicTraceInfo}
    {start : TimePoint} (h : (tinfo, start) ∈ measured index) : tinfo ∈ index :=
  Sieve.mem_of_mem_mark h

/-- The answer to a record that is measured from a known start. -/
theorem mem_accepted_iff_accepts {index : List BasicTraceInfo} (hnodup : index.Nodup)
    {option : MappedViewOption} (hfresh : option.Fresh) {tinfo : BasicTraceInfo}
    {start : TimePoint} (hmeasured : (tinfo, start) ∈ measured index) :
    tinfo ∈ accepted [option] index ↔ option.accepts tinfo start := by
  rw [mem_accepted_singleton hfresh]
  constructor
  · rintro ⟨other, hother, haccepts⟩
    rwa [Sieve.mark_unique hnodup hmeasured hother]
  · exact fun haccepts => ⟨start, hmeasured, haccepts⟩

/-- Two start times of a record that no duration tells apart are equal. -/
theorem start_eq_of_mem_accepted {index index' : List BasicTraceInfo} (hnodup : index.Nodup)
    (hnodup' : index'.Nodup) {tinfo : BasicTraceInfo} {start start' : TimePoint}
    (hmeasured : (tinfo, start) ∈ measured index)
    (hmeasured' : (tinfo, start') ∈ measured index')
    (h : ∀ duration, tinfo ∈ accepted [maxTimeFromStart 0 duration] index ↔
      tinfo ∈ accepted [maxTimeFromStart 0 duration] index') : start = start' := by
  have hiff : ∀ duration, tinfo.timestamp - start ≤ duration ↔
      tinfo.timestamp - start' ≤ duration := by
    intro duration
    have h := h duration
    have hfresh : (maxTimeFromStart 0 duration).Fresh := rfl
    rw [mem_accepted_iff_accepts hnodup hfresh hmeasured,
      mem_accepted_iff_accepts hnodup' hfresh hmeasured'] at h
    simpa [accepts] using h
  have hle : tinfo.timestamp - start ≤ tinfo.timestamp - start' :=
    (hiff _).mpr (Int64.le_refl _)
  have hge : tinfo.timestamp - start' ≤ tinfo.timestamp - start :=
    (hiff _).mp (Int64.le_refl _)
  exact (Int64.sub_right_inj tinfo.timestamp).mp (Int64.le_antisymm hle hge)

/-! ## The options in front of a start -/

/-- `P` holds of the options in front of each option that measures from the start. -/
def AtStarts (P : List MappedViewOption → Prop) (options : List MappedViewOption) : Prop :=
  ∀ before option after, options = before ++ option :: after → option.FromStart → P before

namespace AtStarts

variable {P : List MappedViewOption → Prop} {option : MappedViewOption}
  {options : List MappedViewOption}

theorem head (h : AtStarts P (option :: options)) (hfrom : option.FromStart) : P [] :=
  h [] option options rfl hfrom

theorem tail (h : AtStarts P (option :: options)) :
    AtStarts (fun before => P (option :: before)) options := by
  intro before later after hsplit hfrom
  exact h (option :: before) later after (by rw [hsplit, List.cons_append]) hfrom

theorem init (h : AtStarts P (options ++ [option])) : AtStarts P options := by
  intro before later after hsplit hfrom
  exact h before later (after ++ [option]) (by simp [hsplit]) hfrom

theorem last (h : AtStarts P (options ++ [option])) (hfrom : option.FromStart) : P options :=
  h options option [] (by simp) hfrom

theorem concat (h : AtStarts P options) (hlast : option.FromStart → P options) :
    AtStarts P (options ++ [option]) := by
  intro before later after hsplit hfrom
  rcases List.eq_nil_or_concat after with rfl | ⟨after, last, rfl⟩
  · obtain ⟨rfl, rfl⟩ : options = before ∧ option = later := by
      simpa using List.append_inj' hsplit rfl
    exact hlast hfrom
  · have hsplit' : options ++ [option] = (before ++ later :: after) ++ [last] := by
      simpa using hsplit
    exact h before later after (List.append_inj' hsplit' rfl).1 hfrom

end AtStarts

/-! ## Fewer records -/

/-- Each record that comes to an option that measures from the start is measured alike
among `some` of the records and among `all` of them. -/
def StartsKept (options : List MappedViewOption) (some all : List BasicTraceInfo) : Prop :=
  AtStarts (fun before =>
    ∀ p ∈ measured (accepted before some), p ∈ measured (accepted before all)) options

theorem StartsKept.tail {option : MappedViewOption} {rest : List MappedViewOption}
    {some all : List BasicTraceInfo} (h : StartsKept (option :: rest) some all) :
    StartsKept rest (accepted [option] some) (accepted [option] all) := by
  unfold StartsKept
  simp only [← accepted_cons]
  exact AtStarts.tail h

section Fewer

variable {some all : List BasicTraceInfo}

theorem mem_measured_iff (hall : all.Nodup) (hsub : ∀ p ∈ measured some, p ∈ measured all)
    {tinfo : BasicTraceInfo} {start : TimePoint} :
    (tinfo, start) ∈ measured some ↔ tinfo ∈ some ∧ (tinfo, start) ∈ measured all := by
  constructor
  · exact fun h => ⟨mem_of_mem_measured h, hsub _ h⟩
  · rintro ⟨hmem, hstart⟩
    obtain ⟨start', hstart'⟩ := exists_measured hmem
    rwa [Sieve.mark_unique hall hstart (hsub _ hstart')]

/-- One option among fewer records. -/
theorem mem_accepted_singleton_of_startsKept {option : MappedViewOption} (hfresh : option.Fresh)
    (hall : all.Nodup) (hsub : some ⊆ all)
    (hkept : option.FromStart → ∀ p ∈ measured some, p ∈ measured all) {tinfo : BasicTraceInfo} :
    tinfo ∈ accepted [option] some ↔ tinfo ∈ some ∧ tinfo ∈ accepted [option] all := by
  rw [mem_accepted_singleton hfresh, mem_accepted_singleton hfresh]
  by_cases hfrom : option.FromStart
  · simp only [mem_measured_iff hall (hkept hfrom), and_assoc, exists_and_left]
  · -- the answer does not depend on the start
    constructor
    · rintro ⟨start, hstart, haccepts⟩
      have hmem : tinfo ∈ some := mem_of_mem_measured hstart
      obtain ⟨start', hstart'⟩ := exists_measured (hsub hmem)
      exact ⟨hmem, start', hstart', accepts_of_not_fromStart hfrom tinfo start start' ▸ haccepts⟩
    · rintro ⟨hmem, start, -, haccepts⟩
      obtain ⟨start', hstart'⟩ := exists_measured hmem
      exact ⟨start', hstart', accepts_of_not_fromStart hfrom tinfo start start' ▸ haccepts⟩

theorem mem_accepted_of_startsKept {options : List MappedViewOption}
    (hfresh : ∀ option ∈ options, option.Fresh) (hall : all.Nodup) (hsub : some ⊆ all)
    (hkept : StartsKept options some all) {tinfo : BasicTraceInfo} :
    tinfo ∈ accepted options some ↔ tinfo ∈ some ∧ tinfo ∈ accepted options all := by
  induction options generalizing some all with
  | nil =>
      simp only [accepted_nil]
      exact ⟨fun h => ⟨h, hsub h⟩, fun h => h.1⟩
  | cons option rest ih =>
      obtain ⟨hoption, hrest⟩ := List.forall_mem_cons.mp hfresh
      have hone : ∀ {tinfo}, tinfo ∈ accepted [option] some ↔
          tinfo ∈ some ∧ tinfo ∈ accepted [option] all :=
        mem_accepted_singleton_of_startsKept hoption hall hsub (by simpa using hkept.head)
      have hnodup : (accepted [option] all).Nodup := hall.sublist (accepted_sublist [option] all)
      rw [accepted_cons, accepted_cons option rest all,
        ih hrest hnodup (fun x hx => (hone.mp hx).2) hkept.tail, hone]
      constructor
      · exact fun h => ⟨h.1.1, h.2⟩
      · exact fun h => ⟨⟨h.1, (accepted_sublist rest _).subset h.2⟩, h.2⟩

end Fewer

/-! ## Conjunction -/

/-- The two lists of options together accept what both accept. -/
def Combine (index : List BasicTraceInfo) (options₁ options₂ : List MappedViewOption) : Prop :=
  ∀ tinfo, tinfo ∈ accepted (options₁ ++ options₂) index ↔
    tinfo ∈ accepted options₁ index ∧ tinfo ∈ accepted options₂ index

theorem combine_of_startsKept {index : List BasicTraceInfo} (hnodup : index.Nodup)
    {options₁ options₂ : List MappedViewOption} (hfresh : ∀ option ∈ options₂, option.Fresh)
    (hkept : StartsKept options₂ (accepted options₁ index) index) :
    Combine index options₁ options₂ := by
  intro tinfo
  rw [accepted_append]
  exact mem_accepted_of_startsKept hfresh hnodup (accepted_sublist options₁ index).subset hkept

/-- A start that the options before it move shows for some duration. -/
theorem startsKept_of_combine {index : List BasicTraceInfo} (hnodup : index.Nodup)
    {options₁ options₂ : List MappedViewOption} (hfresh : ∀ option ∈ options₂, option.Fresh)
    (hkept : StartsKept options₂ (accepted options₁ index) index)
    (hcombine : ∀ duration, Combine index options₁ (options₂ ++ [maxTimeFromStart 0 duration]))
    (duration : Int64) :
    StartsKept (options₂ ++ [maxTimeFromStart 0 duration]) (accepted options₁ index) index := by
  refine AtStarts.concat hkept fun _ p hp => ?_
  obtain ⟨tinfo, start⟩ := p
  -- the record is also accepted by the second list alone, and measured there from somewhere
  have hmem : tinfo ∈ accepted (options₁ ++ options₂) index := by
    rw [accepted_append]
    exact mem_of_mem_measured hp
  obtain ⟨hfirst, hsecond⟩ := (combine_of_startsKept hnodup hfresh hkept tinfo).mp hmem
  obtain ⟨start', hstart'⟩ := exists_measured hsecond
  have hnodup₁ := hnodup.sublist (accepted_sublist options₁ index)
  have hequal : start = start' := by
    refine start_eq_of_mem_accepted (hnodup₁.sublist (accepted_sublist options₂ _))
      (hnodup.sublist (accepted_sublist options₂ _)) hp hstart' ?_
    intro duration
    have h := hcombine duration tinfo
    rw [accepted_append, accepted_append options₂, accepted_append options₂] at h
    exact h.trans ⟨fun h => h.2, fun h => ⟨hfirst, h⟩⟩
  rwa [hequal]

/-! ## The order of the options -/

/-- Each option that measures from the start does so as if it were the only one. -/
def Standalone (options : List MappedViewOption) (index : List BasicTraceInfo) : Prop :=
  AtStarts (fun before => ∀ p ∈ measured (accepted before index), p ∈ measured index) options

theorem mem_accepted_of_standalone {options : List MappedViewOption}
    (hfresh : ∀ option ∈ options, option.Fresh) {index : List BasicTraceInfo}
    (hnodup : index.Nodup) (halone : Standalone options index) {tinfo : BasicTraceInfo} :
    tinfo ∈ accepted options index ↔
      tinfo ∈ index ∧ ∀ option ∈ options, tinfo ∈ accepted [option] index := by
  induction options using List.reverseRecOn with
  | nil => simp
  | append_singleton before last ih =>
      rw [accepted_append, mem_accepted_singleton_of_startsKept
        (hfresh last (by simp)) hnodup (accepted_sublist before index).subset
        (AtStarts.last halone),
        ih (fun option hoption => hfresh option (by simp [hoption])) (AtStarts.init halone),
        and_assoc]
      refine and_congr_right fun _ => ?_
      simp only [List.mem_append, List.mem_singleton, or_imp, forall_and, forall_eq]

theorem StoredRecords.nodup (records : StoredRecords) : records.items.Nodup :=
  List.Nodup.of_map _ records.keys_nodup

/-- **Filters combine as a conjunction** along the timestamp index if the first list of
options moves no start of the second.  If it moves none so far, then one more option that
measures from the start combines for every duration exactly if its start is not moved
either.  And where every option measures as it does alone, the order of the options does
not matter. -/
theorem filters_conjunction (container : BasicMappedStorage)
    (options₁ options₂ : List MappedViewOption)
    (hfresh : ∀ option ∈ options₁ ++ options₂, option.Fresh) :
    let index := container.indexedContainer.items
    (StartsKept options₂ (accepted options₁ index) index →
      Combine index options₁ options₂ ∧
        ((∀ duration, Combine index options₁ (options₂ ++ [maxTimeFromStart 0 duration])) ↔
          ∀ duration, StartsKept (options₂ ++ [maxTimeFromStart 0 duration])
            (accepted options₁ index) index)) ∧
      ∀ options, options.Perm (options₁ ++ options₂) →
        Standalone options index → Standalone (options₁ ++ options₂) index →
        ∀ tinfo,
          tinfo ∈ accepted options index ↔ tinfo ∈ accepted (options₁ ++ options₂) index := by
  intro index
  have hnodup : index.Nodup := container.indexedContainer.nodup
  have hfresh₂ : ∀ option ∈ options₂, option.Fresh :=
    fun option hoption => hfresh option (List.mem_append_right _ hoption)
  refine ⟨fun hkept => ⟨combine_of_startsKept hnodup hfresh₂ hkept, ?_, ?_⟩, ?_⟩
  · exact fun hcombine duration => startsKept_of_combine hnodup hfresh₂ hkept hcombine duration
  · intro hlast duration
    refine combine_of_startsKept hnodup ?_ (hlast duration)
    intro option hoption
    rcases List.mem_append.mp hoption with hoption | hoption
    · exact hfresh₂ option hoption
    · rw [List.mem_singleton.mp hoption]
      rfl
  · intro options hperm halone halone' tinfo
    rw [mem_accepted_of_standalone (fun option h => hfresh option (hperm.mem_iff.mp h)) hnodup
        halone, mem_accepted_of_standalone hfresh hnodup halone']
    simp only [hperm.mem_iff]

/-- A small record, and a large one nine nanoseconds later. -/
def smallThenLarge : BasicMappedStorage :=
  (BasicMappedStorage.empty.add 16 1 [] 1).add 32 200 [] 10

/-- A minimal size that every record has moves no start. -/
theorem filters_conjunction_smallThenLarge :
    accepted ([.minSize 1] ++ [.maxTimeFromStart 0 5]) smallThenLarge.indexedContainer.items =
        [⟨⟨16, 1, 1⟩, []⟩] ∧
      Combine smallThenLarge.indexedContainer.items [.minSize 1] [.maxTimeFromStart 0 5] := by
  refine ⟨by decide, ((filters_conjunction smallThenLarge [.minSize 1] [.maxTimeFromStart 0 5]
    (by simp [Fresh])).1 ?_).1⟩
  intro before option after _ _ p hp
  have hall : accepted [.minSize 1] smallThenLarge.indexedContainer.items =
      smallThenLarge.indexedContainer.items := by decide
  rwa [hall] at hp

/-- With a minimal size of 100 the large record becomes the start, and passes although it
comes too late for the second option alone. -/
theorem moved_start_accepts_more :
    (∀ option ∈ [minSize 100, maxTimeFromStart 0 5], option.Fresh) ∧
      (⟨⟨32, 200, 10⟩, []⟩ : BasicTraceInfo) ∈
        accepted ([.minSize 100] ++ [.maxTimeFromStart 0 5])
          smallThenLarge.indexedContainer.items ∧
      (⟨⟨32, 200, 10⟩, []⟩ : BasicTraceInfo) ∉
        accepted [.maxTimeFromStart 0 5] smallThenLarge.indexedContainer.items ∧
      ¬ Combine smallThenLarge.indexedContainer.items [.minSize 100] [.maxTimeFromStart 0 5] := by
  have htogether : (⟨⟨32, 200, 10⟩, []⟩ : BasicTraceInfo) ∈
      accepted ([.minSize 100] ++ [.maxTimeFromStart 0 5])
        smallThenLarge.indexedContainer.items := by decide
  have halone : (⟨⟨32, 200, 10⟩, []⟩ : BasicTraceInfo) ∉
      accepted [.maxTimeFromStart 0 5] smallThenLarge.indexedContainer.items := by decide
  refine ⟨by simp [Fresh], htogether, halone, ?_⟩
  intro hcombine
  exact halone ((hcombine _).mp htogether).2

end Memhook
