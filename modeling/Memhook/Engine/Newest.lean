import Memhook.Engine.Refinement

/-!
# Announcing an address again

Both levels insert with `emplace`, which keeps an element that is already there.
An announcement therefore decides what is known about its address only if the
address had no record: `newest_wins` follows such a record through any later
calls on other addresses and any flushes, from any reachable state, and shows that
next to an older record it at best looks the same.

An older record survives.  A cached one stays as it is, and one that had already
been flushed comes back as soon as the address is released, because `DoHookFree`
removes only the cached record.
-/

namespace Memhook

open MultiIndex TwoLevel

variable {U R : Type*} [CallStackUnwinder U R]

/-- A call on the engine, or a flush of its cache with any clock reading, timeout
and extent. -/
inductive EngineStep (R : Type*)
  | op (op : EngineOp R)
  | flush (ctx : Context R) (now : TimePoint) (timeout : Int64) (dumpAll : Bool)

/-- The call is about `mem`. -/
def EngineOp.Touches (mem : Address) : EngineOp R → Prop
  | alloc _ address _ => address = mem
  | free address => address = mem
  | realloc _ oldMem newMem _ => oldMem = mem ∨ newMem = mem
  | updateSize address _ => address = mem

namespace EngineStep

def apply (engine : Engine U BasicMappedStorage) : EngineStep R → Engine U BasicMappedStorage
  | op call => call.apply engine
  | flush ctx now timeout dumpAll => engine.flushLocalCache ctx now timeout dumpAll

def Touches (mem : Address) : EngineStep R → Prop
  | op call => call.Touches mem
  | flush _ _ _ _ => False

end EngineStep

namespace Engine

def runSteps (engine : Engine U BasicMappedStorage) (steps : List (EngineStep R)) :
    Engine U BasicMappedStorage :=
  steps.foldl EngineStep.apply engine

/-! ## Calls on other addresses -/

section Other

variable {engine : Engine U BasicMappedStorage} {mem other : Address}

theorem cell_doHookFree_other (hne : other ≠ mem) :
    (engine.doHookFree mem).cell other = engine.cell other := by
  by_cases hmem : mem = 0
  · rw [hmem, doHookFree_null]
  · rw [cell_doHookFree hmem, if_neg hne]

theorem cell_doHookUpdateSize_other (hne : other ≠ mem) (newsize : UInt64) :
    (engine.doHookUpdateSize mem newsize).cell other = engine.cell other := by
  by_cases hmem : mem = 0
  · rw [hmem, doHookUpdateSize_null]
  · rw [cell_doHookUpdateSize hmem, if_neg hne]

theorem settles_doHookAlloc_other (hne : other ≠ mem) (ctx : Context R) (memsize : UInt64) :
    (engine.cell other).Settles ((engine.doHookAlloc ctx mem memsize).cell other) := by
  by_cases hmem : mem = 0
  · rw [hmem, doHookAlloc_null]
    exact Cell.Settles.refl _
  · simpa [hne] using settles_doHookAlloc hmem ctx memsize engine other

/-- A step that is not about `other` lets its record sink at most. -/
theorem settles_step {step : EngineStep R} (hstep : ¬ step.Touches other) :
    (engine.cell other).Settles ((step.apply engine).cell other) := by
  cases step with
  | flush ctx now timeout dumpAll =>
      exact settles_flushLocalCache ctx now timeout dumpAll engine other
  | op call =>
      cases call with
      | alloc ctx address memsize =>
          exact settles_doHookAlloc_other (fun h => hstep h.symm) ctx memsize
      | free address =>
          rw [EngineStep.apply, EngineOp.apply, cell_doHookFree_other fun h => hstep h.symm]
          exact Cell.Settles.refl _
      | updateSize address newsize =>
          rw [EngineStep.apply, EngineOp.apply,
            cell_doHookUpdateSize_other (fun h => hstep h.symm)]
          exact Cell.Settles.refl _
      | realloc ctx oldMem newMem newSize =>
          have hold : other ≠ oldMem := fun h => hstep (Or.inl h.symm)
          have hnew : other ≠ newMem := fun h => hstep (Or.inr h.symm)
          rw [EngineStep.apply, EngineOp.apply]
          unfold doHookRealloc
          split
          · rw [cell_doHookUpdateSize_other hold]
            exact Cell.Settles.refl _
          · rw [← cell_doHookFree_other hold]
            exact settles_doHookAlloc_other hnew ctx newSize

end Other

/-! ## The newest announcement -/

/-- `record` is the only record of `mem`, in one of the two levels. -/
def OnlyRecord (engine : Engine U BasicMappedStorage) (mem : Address) (record : Record) : Prop :=
  engine.cell mem = ⟨some record, none⟩ ∨ engine.cell mem = ⟨none, some record⟩

theorem OnlyRecord.of_settles {engine engine' : Engine U BasicMappedStorage} {mem : Address}
    {record : Record} (h : engine.OnlyRecord mem record)
    (hsettles : (engine.cell mem).Settles (engine'.cell mem)) :
    engine'.OnlyRecord mem record := by
  rcases hsettles with hsame | hsink
  · rwa [OnlyRecord, hsame]
  · refine Or.inr ?_
    rw [hsink]
    rcases h with h | h <;> rw [h] <;> rfl

theorem OnlyRecord.runSteps {engine : Engine U BasicMappedStorage} {mem : Address}
    {record : Record} (h : engine.OnlyRecord mem record) {steps : List (EngineStep R)}
    (hsteps : ∀ step ∈ steps, ¬ step.Touches mem) :
    (engine.runSteps steps).OnlyRecord mem record :=
  Run.invariant (I := fun engine => OnlyRecord engine mem record)
    (fun h hstep => h.of_settles (settles_step hstep)) h (.of_forall hsteps)

theorem OnlyRecord.doHookFree {engine : Engine U BasicMappedStorage} {mem : Address}
    {record : Record} (h : engine.OnlyRecord mem record) (hmem : mem ≠ 0) :
    (engine.doHookFree mem).cell mem = ⟨none, none⟩ := by
  rw [cell_doHookFree hmem, if_pos rfl]
  rcases h with h | h <;> rw [h] <;> rfl

theorem onlyRecord_doHookAlloc {engine : Engine U BasicMappedStorage} {mem : Address}
    (hmem : mem ≠ 0) (hfresh : engine.record? mem = none) (ctx : Context R) (memsize : UInt64) :
    (engine.doHookAlloc ctx mem memsize).OnlyRecord mem (ctx.announced memsize) := by
  have hsettles := settles_doHookAlloc hmem ctx memsize engine mem
  rw [if_pos rfl, Cell.announce_of_get_eq_none hfresh] at hsettles
  rcases hsettles with h | h <;> rw [OnlyRecord, h]
  · exact Or.inl rfl
  · exact Or.inr rfl

/-- After `DoHookAlloc` and any steps on other addresses the only record has the
announced size and time, and releasing the address leaves no record in either level. -/
def NewestWins (engine : Engine U BasicMappedStorage) (ctx : Context R) (mem : Address)
    (memsize : UInt64) : Prop :=
  ∀ later : List (EngineStep R), (∀ step ∈ later, ¬ step.Touches mem) →
    let after := (engine.doHookAlloc ctx mem memsize).runSteps later
    (∃ record, after.OnlyRecord mem record ∧ record.memsize = memsize ∧
        record.timestamp = ctx.now) ∧
      (after.doHookFree mem).cell mem = ⟨none, none⟩

/-- **The newest announcement wins** if the address has no record, from any reachable
state.  If it has one, the announcement can only seem to win: the record that is left
was there before, and its size and time happened to be the announced ones. -/
theorem newest_wins (storage : Option BasicMappedStorage) (unwinder : U) (timeout : Int64)
    (maxItems : UInt64) (policy : CallStackUnwindProcInfoPolicy)
    (before : List (EngineStep R)) (ctx : Context R) (mem : Address) (hmem : mem ≠ 0)
    (memsize : UInt64) :
    let engine := (onInitialize storage unwinder timeout maxItems policy).runSteps before
    (engine.record? mem = none → engine.NewestWins ctx mem memsize) ∧
      (engine.NewestWins ctx mem memsize → engine.record? mem = none ∨
        ∃ record, (engine.cell mem).sink.lower = some record ∧ record.memsize = memsize ∧
          record.timestamp = ctx.now) := by
  intro engine
  refine ⟨?_, ?_⟩
  · intro hfresh later hlater
    have honly := (onlyRecord_doHookAlloc hmem hfresh ctx memsize).runSteps hlater
    exact ⟨⟨ctx.announced memsize, honly, rfl, rfl⟩, honly.doHookFree hmem⟩
  · intro hwins
    -- nothing needs to happen later for an older record to show
    obtain ⟨⟨record, honly, hsize, htime⟩, -⟩ := hwins [] (by simp)
    have hsettles := settles_doHookAlloc hmem ctx memsize engine mem
    rw [if_pos rfl] at hsettles
    refine (hsettles.sole_of_announce honly).imp id ?_
    intro hold
    exact ⟨record, hold, hsize, htime⟩

/-- An engine that flushes whatever is older than the clock. -/
abbrev eager : Engine Impl.Usable BasicMappedStorage :=
  onInitialize (some .empty) .initial 0 8 .kFlushLocalCacheWhen

def sampleBefore : List (EngineStep Resolver) := [.op (.alloc ⟨1, [], .silent⟩ 32 8)]

def sampleLater : List (EngineStep Resolver) :=
  [.flush ⟨3, [], .silent⟩ 3 0 true, .op (.free 32)]

theorem newest_wins_eager :
    (eager.runSteps sampleBefore).record? 16 = none ∧
      (((((eager.runSteps sampleBefore).doHookAlloc ⟨2, [], .silent⟩ 16 100).runSteps
        sampleLater).doHookFree 16).cell 16 = ⟨none, none⟩) := by
  have hfresh : (eager.runSteps sampleBefore).record? 16 = none := by decide
  have hlater : ∀ step ∈ sampleLater, ¬ step.Touches 16 := by
    simp [sampleLater, EngineStep.Touches, EngineOp.Touches]
  have hwins := (newest_wins (some .empty) Impl.Usable.initial 0 8 .kFlushLocalCacheWhen
    sampleBefore ⟨2, [], .silent⟩ 16 (by decide) 100).1 hfresh
  exact ⟨hfresh, (hwins sampleLater hlater).2⟩

/-- Announced twice while cached, an address keeps its first size and time;
announced again after a flush, it has two records, and releasing it leaves the
first one behind. -/
theorem reannounced_keeps_first :
    ¬ (eager.doHookAlloc ⟨1, [], .silent⟩ 16 100).NewestWins ⟨1, [], .silent⟩ 16 200 ∧
      ¬ ((eager.doHookAlloc ⟨1, [], .silent⟩ 16 100).doHookAlloc ⟨2, [], .silent⟩ 32
        8).NewestWins ⟨2, [], .silent⟩ 16 200 := by
  refine ⟨?_, ?_⟩
  · intro hwins
    obtain ⟨⟨record, honly, hsize, -⟩, -⟩ := hwins [] (by simp)
    have hcell : ((eager.doHookAlloc ⟨1, [], .silent⟩ 16 100).doHookAlloc ⟨1, [], .silent⟩ 16
        200).cell 16 = ⟨some ⟨100, 1, []⟩, none⟩ := by decide
    rcases honly with h | h
    · obtain rfl : (⟨100, 1, []⟩ : Record) = record := by simpa using hcell.symm.trans h
      exact absurd hsize (by decide)
    · simpa using hcell.symm.trans h
  · intro hwins
    have hleft : ((((eager.doHookAlloc ⟨1, [], .silent⟩ 16 100).doHookAlloc ⟨2, [], .silent⟩ 32
        8).doHookAlloc ⟨2, [], .silent⟩ 16 200).doHookFree 16).cell 16 =
        ⟨none, some ⟨100, 1, []⟩⟩ := by decide
    have hnone := hleft.symm.trans (hwins [] (by simp)).2
    simp at hnone

end Engine

end Memhook
