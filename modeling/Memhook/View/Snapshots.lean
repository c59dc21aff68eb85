import Memhook.Lib.Asking
import Memhook.Lib.Mutex
import Memhook.Lib.Run
import Memhook.Storage.SignalLock
import Memhook.View.Aggregation

/-!
# Viewers, writers and signals

`Write` of `src/memview/basic_mapped_view.h` reads a container that another process writes to.
Both take the mutex in the segment, the writer under a `ScopedSignalLock`
(`src/memhookcore/basic_mapped_storage.h`) and the viewer under an `InterprocessScopedLock`
(`src/memview/interprocess_scoped_lock.cpp`): a signal mask that lets `SIGINT` through, a handler
for it (`src/memhookcore/scoped_signal.cpp`), and the mutex, given back in reverse order.

Any number of processes, each with one thread, write and view in any interleaving, and any signal
may arrive at any time.  A process that a signal terminates stays where it is, and the mutex is
held for ever if it had it.  `views_are_snapshots` says that this does not come from the signals
that the scopes are about, and that what a viewer prints is what the container held at one moment.

A view with `kNoLock` takes the scopes without the mutex; what it prints is left open.
-/

namespace Memhook

/-! ## A view as a program that asks for the flag -/

/-- What a view prints. -/
inductive Report
  | records (printed : List Printed)
  | groups (printed : List PrintedGroup)

/-- The first report is the second one or breaks off early. -/
def Report.Begins : Report → Report → Prop
  | records printed, records printed' => printed <+: printed'
  | groups printed, groups printed' => printed <+: printed'
  | _, _ => False

/-- How the indexes are traversed, which the order of their keys leaves open in part. -/
structure Traversals where
  hashCombine : UInt64 → UInt64 → UInt64
  indexes : (records : StoredRecords) → Indexes records
  aggregated : (container : AggregatedIndexedContainer) → AggregatedIndexes container

/-- A view that `memview` makes: `NewAggregatedView` or `NewSimpleView`, with its options. -/
structure MappedView where
  base : MappedViewBase
  aggregated : Bool

namespace MappedView

variable (traversals : Traversals)

/-- `WriteImpl`; `isInterrupted n` says whether the flag of the signal handler is set when it is
asked for the `n`-th time. -/
def writeImpl (isInterrupted : ℕ → Bool) (container : BasicMappedStorage) (view : MappedView) :
    Report :=
  if view.aggregated then
    .groups (BasicAggregatedMappedView.writeImpl traversals.hashCombine isInterrupted
      traversals.aggregated container view.base)
  else
    .records (BasicSimpleMappedView.writeImpl isInterrupted
      ⟨view.base, container, traversals.indexes container.indexedContainer⟩)

end MappedView

namespace BasicSimpleMappedView

/-- `ForEachDo`, with what is printed so far. -/
def askingForEachDo (container : BasicMappedStorage) :
    List BasicTraceInfo → MappedViewBase → List Printed → Asking Report
  | [], _, printed => .done (.records printed)
  | tinfo :: rest, view, printed => .ask fun interrupted =>
      let called := SimpleTraceInfoPrinter.call container interrupted view tinfo
      if called.1 then askingForEachDo container rest called.2.2 (printed ++ called.2.1)
      else .done (.records (printed ++ called.2.1))

theorem run_askingForEachDo (container : BasicMappedStorage) (answers : ℕ → Bool) (n : ℕ)
    (index : List BasicTraceInfo) (view : MappedViewBase) (printed : List Printed) :
    (askingForEachDo container index view printed).run answers n =
      .records (printed ++ forEachDo container answers n index view) := by
  induction index generalizing n view printed with
  | nil => simp [askingForEachDo, forEachDo, Asking.run]
  | cons tinfo rest ih =>
      simp only [askingForEachDo, Asking.run, forEachDo]
      cases (SimpleTraceInfoPrinter.call container (answers n) view tinfo).1 with
      | true => simp only [if_true, ih, List.append_assoc]
      | false => rfl

/-- An interruption takes away the end. -/
theorem forEachDo_prefix (container : BasicMappedStorage) (answers : ℕ → Bool) (n : ℕ)
    (index : List BasicTraceInfo) (view : MappedViewBase) :
    forEachDo container answers n index view <+:
      forEachDo container (fun _ => false) n index view := by
  induction index generalizing n view with
  | nil => exact List.prefix_rfl
  | cons tinfo rest ih =>
      simp only [forEachDo]
      cases answers n with
      | true => exact List.nil_prefix
      | false => exact (List.prefix_append_right_inj _).mpr (ih (n + 1) _)

end BasicSimpleMappedView

namespace BasicAggregatedMappedView

/-- `ForEachDo_2`, with what is printed so far. -/
def askingForEachDo2 (print : AggregatedTraceInfo → PrintedGroup) :
    List AggregatedTraceInfo → List PrintedGroup → Asking Report
  | [], printed => .done (.groups printed)
  | info :: rest, printed => .ask fun interrupted =>
      if interrupted then .done (.groups printed)
      else askingForEachDo2 print rest (printed ++ [print info])

theorem run_askingForEachDo2 (print : AggregatedTraceInfo → PrintedGroup) (answers : ℕ → Bool)
    (n : ℕ) (index : List AggregatedTraceInfo) (printed : List PrintedGroup) :
    (askingForEachDo2 print index printed).run answers n =
      .groups (printed ++ (forEachDo2 answers n index).map print) := by
  induction index generalizing n printed with
  | nil => simp [askingForEachDo2, forEachDo2, Asking.run]
  | cons info rest ih =>
      rw [askingForEachDo2, Asking.run, forEachDo2]
      split
      · simp [Asking.run]
      · rw [ih, List.append_assoc, List.singleton_append, List.map_cons]

theorem forEachDo2_prefix (answers : ℕ → Bool) (n : ℕ) (index : List AggregatedTraceInfo) :
    forEachDo2 answers n index <+: index := by
  induction index generalizing n with
  | nil => exact List.prefix_rfl
  | cons info rest ih =>
      rw [forEachDo2]
      split
      · exact List.nil_prefix
      · exact List.cons_prefix_cons.mpr ⟨rfl, ih (n + 1)⟩

variable (traversals : Traversals)

/-- `ForEachDo`: the builder, and then the index of the counts. -/
def askingForEachDo (base : MappedViewBase) (print : AggregatedTraceInfo → PrintedGroup) :
    List BasicTraceInfo → MappedViewBase → AggregatedIndexedContainer → Asking Report
  | [], _, container =>
      askingForEachDo2 print (if base.getOptionFlag .kSortBySize then
        (traversals.aggregated container).bySize else (traversals.aggregated container).byTimes) []
  | tinfo :: rest, view, container => .ask fun interrupted =>
      let called := AggregatedIndexedContainerBuilder.call traversals.hashCombine interrupted view
        container tinfo
      if called.1 then askingForEachDo base print rest called.2.1 called.2.2
      else .done (.groups [])

theorem run_askingForEachDo (base : MappedViewBase) (print : AggregatedTraceInfo → PrintedGroup)
    (answers : ℕ → Bool) (n : ℕ) (index : List BasicTraceInfo) (view : MappedViewBase)
    (container : AggregatedIndexedContainer) :
    (askingForEachDo traversals base print index view container).run answers n =
      .groups (List.map print
        (match AggregatedIndexedContainerBuilder.build traversals.hashCombine answers n index
          view container with
        | none => []
        | some container =>
            forEachDo2 answers (n + index.length) (if base.getOptionFlag .kSortBySize then
              (traversals.aggregated container).bySize
              else (traversals.aggregated container).byTimes))) := by
  induction index generalizing n view container with
  | nil =>
      rw [askingForEachDo, run_askingForEachDo2, List.nil_append]
      rfl
  | cons tinfo rest ih =>
      simp only [askingForEachDo, Asking.run, AggregatedIndexedContainerBuilder.build]
      cases (AggregatedIndexedContainerBuilder.call traversals.hashCombine (answers n) view
          container tinfo).1 with
      | true => simp only [if_true, ih, List.length_cons, Nat.add_right_comm n 1, Nat.add_assoc n]
      | false => rfl

/-- A builder that is not interrupted builds the same. -/
theorem build_eq_of_eq_some {hashCombine : UInt64 → UInt64 → UInt64} {answers : ℕ → Bool} {n : ℕ}
    {index : List BasicTraceInfo} {view : MappedViewBase}
    {container built : AggregatedIndexedContainer}
    (h : AggregatedIndexedContainerBuilder.build hashCombine answers n index view container =
      some built) :
    AggregatedIndexedContainerBuilder.build hashCombine (fun _ => false) n index view container =
      some built := by
  induction index generalizing n view container with
  | nil => exact h
  | cons tinfo rest ih =>
      rw [AggregatedIndexedContainerBuilder.build] at h ⊢
      cases hanswer : answers n with
      | true => simp [hanswer, AggregatedIndexedContainerBuilder.call] at h
      | false =>
          rw [hanswer] at h
          exact ih h

end BasicAggregatedMappedView

namespace MappedView

variable (traversals : Traversals)

/-- `WriteImpl` as a program that asks `IsInterrupted`. -/
def askingWriteImpl (container : BasicMappedStorage) (view : MappedView) : Asking Report :=
  if view.aggregated then
    BasicAggregatedMappedView.askingForEachDo traversals view.base
      (AggregatedTraceInfo.print container (view.base.getOptionFlag .kShowCallStack))
      container.indexedContainer.items view.base []
  else
    BasicSimpleMappedView.askingForEachDo container (BasicSimpleMappedView.index
      ⟨view.base, container, traversals.indexes container.indexedContainer⟩) view.base []

theorem run_askingWriteImpl (answers : ℕ → Bool) (container : BasicMappedStorage)
    (view : MappedView) :
    (view.askingWriteImpl traversals container).run answers 0 =
      view.writeImpl traversals answers container := by
  unfold askingWriteImpl writeImpl
  split
  · rw [BasicAggregatedMappedView.run_askingForEachDo, Nat.zero_add]
    rfl
  · rw [BasicSimpleMappedView.run_askingForEachDo, List.nil_append]
    rfl

/-- An interrupted report is the beginning of the whole one. -/
theorem writeImpl_begins (answers : ℕ → Bool) (container : BasicMappedStorage)
    (view : MappedView) :
    (view.writeImpl traversals answers container).Begins
      (view.writeImpl traversals (fun _ => false) container) := by
  unfold writeImpl
  split
  · unfold BasicAggregatedMappedView.writeImpl BasicAggregatedMappedView.forEachDo
    cases hbuild : AggregatedIndexedContainerBuilder.build traversals.hashCombine answers 0
        container.indexedContainer.items view.base [] with
    | none => exact List.nil_prefix
    | some built =>
        rw [BasicAggregatedMappedView.build_eq_of_eq_some hbuild]
        refine List.IsPrefix.map _ ?_
        show _ <+: BasicAggregatedMappedView.forEachDo2 _ _ _
        rw [BasicAggregatedMappedView.forEachDo2_eq_self fun _ => rfl]
        exact BasicAggregatedMappedView.forEachDo2_prefix answers _ _
  · exact BasicSimpleMappedView.forEachDo_prefix container answers 0 _ _

end MappedView

/-! ## Processes and their signals -/

/-- What a signal does; the handlers of an application are told apart by numbers. -/
inductive SigAction
  | SIG_DFL
  | SIG_IGN
  | interruptHandler
  | handler (id : ℕ)

/-- A process with one thread.  `isInterrupted` is `g_is_interrupted`. -/
structure SharingProcess where
  mask : SignalMask
  action : Signal → SigAction
  pending : SigSet
  isInterrupted : Bool
  terminated : Option Signal

namespace SharingProcess

/-- A `ScopedSignalLock` that blocks these signals. -/
def lockSignals (newMask : SigSet) (process : SharingProcess) : SharingProcess :=
  { process with mask := process.mask.pthreadSigmask .SIG_SETMASK newMask }

/-- Its destructor. -/
def unlockSignals (oldMask : SignalMask) (process : SharingProcess) : SharingProcess :=
  { process with mask := process.mask.pthreadSigmask .SIG_SETMASK oldMask.set }

/-- `sigaction`, in the constructor and the destructor of `ScopedSignal`. -/
def sigaction (signum : Signal) (action : SigAction) (process : SharingProcess) : SharingProcess :=
  { process with action := Function.update process.action signum action }

variable (terminates : Signal → Bool)

/-- The signal takes effect; `terminates` says whether it does so by default. -/
def deliver (signum : Signal) (process : SharingProcess) : SharingProcess :=
  match process.action signum with
  | .SIG_DFL => if terminates signum then { process with terminated := some signum } else process
  | .interruptHandler => { process with isInterrupted := true }
  | .SIG_IGN | .handler _ => process

/-- A signal arrives; a blocked one waits. -/
def raise (signum : Signal) (process : SharingProcess) : SharingProcess :=
  if signum ∈ process.mask.set then { process with pending := insert signum process.pending }
  else process.deliver terminates signum

/-- A signal that waits takes effect once it is not blocked any more. -/
def deliverPending (signum : Signal) (process : SharingProcess) : SharingProcess :=
  if signum ∈ process.pending ∧ signum ∉ process.mask.set then
    { process with pending := process.pending.erase signum }.deliver terminates signum
  else process

end SharingProcess

namespace StorageCall

/-- The frames that `Add` enters into the symbol tables. -/
def frames : StorageCall → CallStackInfo
  | add _ _ callstack _ => callstack
  | _ => []

/-- The change of the records, after the frames. -/
def commit (container : BasicMappedStorage) : StorageCall → BasicMappedStorage
  | add address memsize callstack timestamp =>
      { container with
        indexedContainer := (container.indexedContainer.emplace
          (BasicTraceInfo.build address memsize timestamp callstack)).1 }
  | call => call.apply container

theorem commit_foldl_frames (call : StorageCall) (container : BasicMappedStorage) :
    call.commit (call.frames.foldl BasicMappedStorage.symbolTableUpdater container) =
      call.apply container := by
  cases call <;> rfl

end StorageCall

/-- The container after some calls. -/
def replay (calls : List StorageCall) : BasicMappedStorage :=
  calls.foldl StorageCall.apply .empty

theorem replay_concat (calls : List StorageCall) (call : StorageCall) :
    replay (calls ++ [call]) = call.apply (replay calls) := by
  simp [replay]

/-! ## The machine -/

/-- Where a process is.  `begun` are the calls that were done when `Write` was called. -/
inductive SharingPc
  | idle
  | waiting (call : StorageCall) (oldMask : SignalMask)
  | working (call : StorageCall) (frames : CallStackInfo) (oldMask : SignalMask)
  | worked (oldMask : SignalMask)
  | unlocked (oldMask : SignalMask)
  | masked (view : MappedView) (begun : List StorageCall) (oldMask : SignalMask)
  | handled (view : MappedView) (begun : List StorageCall) (oldMask : SignalMask)
      (oldSa : SigAction)
  | viewing (view : MappedView) (begun : List StorageCall) (program : Asking Report)
      (oldMask : SignalMask) (oldSa : SigAction)
  | peeking (oldMask : SignalMask) (oldSa : SigAction)
  | viewed (oldMask : SignalMask) (oldSa : SigAction)
  | unhandled (oldMask : SignalMask)

namespace SharingPc

/-- It has the mutex. -/
def Owns : SharingPc → Prop
  | working _ _ _ | worked _ | viewing _ _ _ _ _ => True
  | _ => False

/-- It is in the middle of a change. -/
def Working : SharingPc → Prop
  | working _ _ _ => True
  | _ => False

end SharingPc

/-- A report, with the calls that were done when `Write` began and when it let go of the mutex, and
the flag then. -/
structure FinishedReport where
  view : MappedView
  begun : List StorageCall
  ended : List StorageCall
  interrupted : Bool
  report : Report

/-- `calls` are the calls on the storage that changed the container, in this order. -/
structure Sharing (T : Type*) where
  container : BasicMappedStorage
  mutex : Mutex.State T
  processes : T → SharingProcess
  pc : T → SharingPc
  calls : List StorageCall
  reports : List FinishedReport

/-- A process calls the storage or writes a view, a process goes on, or a signal arrives or ceases
to wait. -/
inductive SharingEvent (T : Type*)
  | storage (t : T) (call : StorageCall)
  | write (t : T) (view : MappedView)
  | step (t : T)
  | raise (t : T) (signum : Signal)
  | deliverPending (t : T) (signum : Signal)

namespace Sharing

variable {T : Type*} [DecidableEq T] (traversals : Traversals) (terminates : Signal → Bool)

def goto (machine : Sharing T) (t : T) (process : SharingProcess) (pc : SharingPc) : Sharing T :=
  { machine with
    processes := Function.update machine.processes t process
    pc := Function.update machine.pc t pc }

@[simp] theorem goto_processes_self (machine : Sharing T) (t : T) (process : SharingProcess)
    (pc : SharingPc) : (machine.goto t process pc).processes t = process :=
  Function.update_self (β := fun _ => SharingProcess) t process machine.processes

@[simp] theorem goto_pc_self (machine : Sharing T) (t : T) (process : SharingProcess)
    (pc : SharingPc) : (machine.goto t process pc).pc t = pc :=
  Function.update_self (β := fun _ => SharingPc) t pc machine.pc

/-- The next step of the process.  The members of an `InterprocessScopedLock` are destroyed in
the reverse order: the mutex first, then the handler, then the mask. -/
def stepOf (machine : Sharing T) (t : T) : Sharing T :=
  let process := machine.processes t
  match machine.pc t with
  | .idle => machine
  | .waiting call oldMask =>
      match Mutex.lock? t machine.mutex with
      | none => machine
      | some mutex =>
          { machine with mutex }.goto t process (.working call call.frames oldMask)
  | .working call (item :: rest) oldMask =>
      { machine with container := machine.container.symbolTableUpdater item }.goto t process
        (.working call rest oldMask)
  | .working call [] oldMask =>
      { machine with
        container := call.commit machine.container
        calls := machine.calls ++ [call] }.goto t process (.worked oldMask)
  | .worked oldMask =>
      match Mutex.unlock? t machine.mutex with
      | none => machine
      | some mutex => { machine with mutex }.goto t process (.unlocked oldMask)
  | .unlocked oldMask => machine.goto t (process.unlockSignals oldMask) .idle
  | .masked view begun oldMask =>
      machine.goto t (process.sigaction SIGINT .interruptHandler)
        (.handled view begun oldMask (process.action SIGINT))
  | .handled view begun oldMask oldSa =>
      if view.base.getOptionFlag .kNoLock then machine.goto t process (.peeking oldMask oldSa)
      else
        match Mutex.lock? t machine.mutex with
        | none => machine
        | some mutex =>
            { machine with mutex }.goto t process (.viewing view begun
              (view.askingWriteImpl traversals machine.container) oldMask oldSa)
  | .viewing view begun (.ask next) oldMask oldSa =>
      machine.goto t process (.viewing view begun (next process.isInterrupted) oldMask oldSa)
  | .viewing view begun (.done report) oldMask oldSa =>
      match Mutex.unlock? t machine.mutex with
      | none => machine
      | some mutex =>
          let finished : FinishedReport :=
            ⟨view, begun, machine.calls, process.isInterrupted, report⟩
          { machine with mutex, reports := machine.reports ++ [finished] }.goto t process
            (.viewed oldMask oldSa)
  | .peeking oldMask oldSa => machine.goto t process (.viewed oldMask oldSa)
  | .viewed oldMask oldSa => machine.goto t (process.sigaction SIGINT oldSa) (.unhandled oldMask)
  | .unhandled oldMask => machine.goto t (process.unlockSignals oldMask) .idle

/-- A call begins if the process is idle; `Flush` has no scope and does nothing. -/
def call (machine : Sharing T) (t : T) (call : StorageCall) : Sharing T :=
  match machine.pc t with
  | .idle =>
      if call = .flush then machine
      else
        machine.goto t ((machine.processes t).lockSignals gNewMask)
          (.waiting call (machine.processes t).mask)
  | _ => machine

/-- `Write` begins if the process is idle. -/
def write (machine : Sharing T) (t : T) (view : MappedView) : Sharing T :=
  match machine.pc t with
  | .idle =>
      machine.goto t ((machine.processes t).lockSignals (gNewMask.erase SIGINT))
        (.masked view machine.calls (machine.processes t).mask)
  | _ => machine

/-- The process of an event. -/
def processOf : SharingEvent T → T
  | .storage t _ | .write t _ | .step t | .raise t _ | .deliverPending t _ => t

/-- Nothing happens to a process that is terminated. -/
def step (machine : Sharing T) (event : SharingEvent T) : Sharing T :=
  if (machine.processes (processOf event)).terminated.isSome then machine
  else
    match event with
    | .storage t storageCall => machine.call t storageCall
    | .write t view => machine.write t view
    | .step t => machine.stepOf traversals t
    | .raise t signum =>
        machine.goto t ((machine.processes t).raise terminates signum) (machine.pc t)
    | .deliverPending t signum =>
        machine.goto t ((machine.processes t).deliverPending terminates signum) (machine.pc t)

def run (machine : Sharing T) (events : List (SharingEvent T)) : Sharing T :=
  events.foldl (step traversals terminates) machine

/-- All processes have their own masks and actions, and the container is new. -/
def initial (own : T → SignalMask) (ownAction : T → Signal → SigAction) : Sharing T where
  container := .empty
  mutex := .free
  processes t := ⟨own t, ownAction t, ∅, false, none⟩
  pc _ := .idle
  calls := []
  reports := []

end Sharing

/-! ## What the scopes keep -/

/-- The report is what the container held at the end, and `Write` began before; it breaks off only
if the process was interrupted. -/
def FinishedReport.Snapshot (traversals : Traversals) (calls : List StorageCall)
    (finished : FinishedReport) : Prop :=
  finished.begun <+: finished.ended ∧ finished.ended <+: calls ∧
    finished.report.Begins
      (finished.view.writeImpl traversals (fun _ => false) (replay finished.ended)) ∧
    (finished.interrupted = false → finished.report =
      finished.view.writeImpl traversals (fun _ => false) (replay finished.ended))

theorem FinishedReport.Snapshot.mono {traversals : Traversals} {calls calls' : List StorageCall}
    {finished : FinishedReport} (h : finished.Snapshot traversals calls)
    (hcalls : calls <+: calls') : finished.Snapshot traversals calls' :=
  ⟨h.1, h.2.1.trans hcalls, h.2.2⟩

namespace SharingPc

/-- The signals of a process in its scopes. -/
def Scopes (own : SignalMask) (ownAction : Signal → SigAction) (process : SharingProcess) :
    SharingPc → Prop
  | idle => process.mask = own ∧ process.action = ownAction
  | waiting _ oldMask | working _ _ oldMask | worked oldMask | unlocked oldMask =>
      process.mask.set = gNewMask ∧ process.action = ownAction ∧ oldMask = own
  | masked _ _ oldMask | unhandled oldMask =>
      process.mask.set = gNewMask.erase SIGINT ∧ process.action = ownAction ∧ oldMask = own
  | handled _ _ oldMask oldSa | viewing _ _ _ oldMask oldSa | peeking oldMask oldSa
  | viewed oldMask oldSa =>
      process.mask.set = gNewMask.erase SIGINT ∧
        process.action = Function.update ownAction SIGINT .interruptHandler ∧
        oldSa = ownAction SIGINT ∧ oldMask = own

/-- What a process has read and written. -/
def Reads (traversals : Traversals) (container : BasicMappedStorage) (calls : List StorageCall)
    (process : SharingProcess) : SharingPc → Prop
  | working call frames _ =>
      call.commit (frames.foldl BasicMappedStorage.symbolTableUpdater container) =
        call.apply (replay calls)
  | masked _ begun _ | handled _ begun _ _ => begun <+: calls
  | viewing view begun program _ _ =>
      begun <+: calls ∧ ∃ answers,
        (view.askingWriteImpl traversals (replay calls)).Answered answers program ∧
          (process.isInterrupted = false → ∀ value ∈ answers, value = false)
  | _ => True

variable {traversals : Traversals} {container container' : BasicMappedStorage}
  {calls calls' : List StorageCall} {process process' : SharingProcess} {pc : SharingPc}
  {own : SignalMask} {ownAction : Signal → SigAction}

/-- Who does not have the mutex does not depend on the container. -/
theorem Reads.mono (h : pc.Reads traversals container calls process) (howns : ¬ pc.Owns)
    (hcalls : calls <+: calls') : pc.Reads traversals container' calls' process := by
  cases pc with
  | working | viewing => exact absurd trivial howns
  | masked | handled => exact List.IsPrefix.trans h hcalls
  | _ => trivial

theorem Working.owns (h : pc.Working) : pc.Owns := by
  cases pc with
  | working => trivial
  | _ => exact absurd h id

/-- A flag that is set later was not seen. -/
theorem Reads.raise (h : pc.Reads traversals container calls process)
    (hflag : process'.isInterrupted = false → process.isInterrupted = false) :
    pc.Reads traversals container calls process' := by
  cases pc with
  | viewing =>
      obtain ⟨hbegun, answers, hanswered, hquiet⟩ := h
      exact ⟨hbegun, answers, hanswered, fun hlater => hquiet (hflag hlater)⟩
  | _ => exact h

theorem Scopes.raise (h : pc.Scopes own ownAction process) (hmask : process'.mask = process.mask)
    (haction : process'.action = process.action) : pc.Scopes own ownAction process' := by
  cases pc <;> simpa only [Scopes, hmask, haction] using h

end SharingPc

namespace SharingProcess

theorem set_mask_lockSignals {newMask : SigSet} (hnew : newMask ⊆ gNewMask)
    (process : SharingProcess) : (process.lockSignals newMask).mask.set = newMask := by
  refine Finset.filter_true_of_mem fun signum hsignum => ?_
  have hblockable : ∀ signum ∈ gNewMask, signum ≠ SIGKILL ∧ signum ≠ SIGSTOP := by decide
  exact hblockable signum (hnew hsignum)

variable {terminates : Signal → Bool} {signum : Signal} {process : SharingProcess}

/-- What a signal leaves alone. -/
structure Signalled (signum : Signal) (process process' : SharingProcess) : Prop where
  mask : process'.mask = process.mask
  action : process'.action = process.action
  isInterrupted : process'.isInterrupted = false → process.isInterrupted = false
  terminated : process'.terminated = process.terminated ∨
    process'.terminated = some signum ∧ signum ∉ process.mask.set ∧ process.action signum = .SIG_DFL

theorem signalled_deliver (hmask : signum ∉ process.mask.set) :
    Signalled signum process (process.deliver terminates signum) := by
  unfold deliver
  split
  · next haction =>
      split
      · exact ⟨rfl, rfl, id, .inr ⟨rfl, hmask, haction⟩⟩
      · exact ⟨rfl, rfl, id, .inl rfl⟩
  · exact ⟨rfl, rfl, nofun, .inl rfl⟩
  · exact ⟨rfl, rfl, id, .inl rfl⟩
  · exact ⟨rfl, rfl, id, .inl rfl⟩

theorem signalled_raise : Signalled signum process (process.raise terminates signum) := by
  unfold raise
  split
  · exact ⟨rfl, rfl, id, .inl rfl⟩
  · next hmask => exact signalled_deliver hmask

theorem signalled_deliverPending :
    Signalled signum process (process.deliverPending terminates signum) := by
  unfold deliverPending
  split
  · next hwaiting =>
      let waited := { process with pending := process.pending.erase signum }
      have h : Signalled signum waited (waited.deliver terminates signum) :=
        signalled_deliver hwaiting.2
      exact ⟨h.mask, h.action, h.isInterrupted, h.terminated⟩
  · exact ⟨rfl, rfl, id, .inl rfl⟩

end SharingProcess

/-- Whoever has the mutex is not terminated by one of the four signals. -/
theorem SharingPc.Scopes.shields {own : SignalMask} {ownAction : Signal → SigAction}
    {process : SharingProcess} {pc : SharingPc} {signum : Signal}
    (h : pc.Scopes own ownAction process) (howns : pc.Owns) (hsignum : signum ∈ gNewMask)
    (hmask : signum ∉ process.mask.set) : process.action signum ≠ .SIG_DFL := by
  cases pc with
  | working | worked =>
      obtain ⟨hset, -⟩ := h
      exact absurd (hset ▸ hsignum) hmask
  | viewing =>
      obtain ⟨hset, haction, -⟩ := h
      obtain rfl : signum = SIGINT := by
        by_contra hother
        exact hmask (hset ▸ Finset.mem_erase.mpr ⟨hother, hsignum⟩)
      rw [haction, Function.update_self]
      exact nofun
  | _ => exact absurd howns id

namespace Sharing

variable {T : Type*} {traversals : Traversals} {own : T → SignalMask}
  {ownAction : T → Signal → SigAction} {machine machine' : Sharing T}

variable (traversals own ownAction) in
/-- The mutex keeps the processes apart, everybody's signals are as the scopes want them, and the
container is what the calls made of it unless somebody is in the middle of the next one. -/
structure Sound (machine : Sharing T) : Prop where
  guards : Mutex.Guards SharingPc.Owns machine.mutex machine.pc
  scopes : ∀ t, (machine.pc t).Scopes (own t) (ownAction t) (machine.processes t)
  reads : ∀ t, (machine.pc t).Reads traversals machine.container machine.calls
    (machine.processes t)
  settled : machine.container = replay machine.calls ∨ ∃ t, (machine.pc t).Working
  alive : ∀ t signum, (machine.processes t).terminated = some signum → signum ∈ gNewMask →
    ¬ (machine.pc t).Owns
  reports : ∀ finished ∈ machine.reports, finished.Snapshot traversals machine.calls

theorem sound_initial [DecidableEq T] : Sound traversals own ownAction (initial own ownAction) where
  guards _ := id
  scopes _ := ⟨rfl, rfl⟩
  reads _ := trivial
  settled := .inl rfl
  alive := nofun
  reports := nofun

/-- One process makes a step.  The others rely on the mutex and on what is theirs. -/
theorem Sound.of_step (h : Sound traversals own ownAction machine) (t : T)
    (hpc : ∀ u, u ≠ t → machine'.pc u = machine.pc u)
    (hprocesses : ∀ u, u ≠ t → machine'.processes u = machine.processes u)
    (hguards : Mutex.Guards SharingPc.Owns machine'.mutex machine'.pc)
    (hcalls : machine.calls <+: machine'.calls)
    (hkept : ¬ (machine.pc t).Owns →
      machine'.container = machine.container ∧ machine'.calls = machine.calls)
    (hscopes : (machine'.pc t).Scopes (own t) (ownAction t) (machine'.processes t))
    (hreads : (machine'.pc t).Reads traversals machine'.container machine'.calls
      (machine'.processes t))
    (hsettled : machine'.container = replay machine'.calls ∨ ∃ t, (machine'.pc t).Working)
    (halive : ∀ signum, (machine'.processes t).terminated = some signum → signum ∈ gNewMask →
      ¬ (machine'.pc t).Owns)
    (hreports : ∀ finished ∈ machine'.reports, finished ∈ machine.reports ∨
      finished.Snapshot traversals machine'.calls) :
    Sound traversals own ownAction machine' where
  guards := hguards
  scopes u := by
    by_cases hu : u = t
    · exact hu ▸ hscopes
    · rw [hpc u hu, hprocesses u hu]
      exact h.scopes u
  reads u := by
    by_cases hu : u = t
    · exact hu ▸ hreads
    · rw [hpc u hu, hprocesses u hu]
      by_cases howns : (machine.pc u).Owns
      · -- the other one has the mutex, so this step changes nothing
        obtain ⟨hcontainer, hsame⟩ := hkept fun ht => hu (h.guards.unique howns ht)
        rw [hcontainer, hsame]
        exact h.reads u
      · exact (h.reads u).mono howns hcalls
  settled := hsettled
  alive u := by
    by_cases hu : u = t
    · exact hu ▸ halive
    · rw [hpc u hu, hprocesses u hu]
      exact h.alive u
  reports finished hfinished := by
    rcases hreports finished hfinished with hold | hnew
    · exact (h.reports finished hold).mono hcalls
    · exact hnew

variable [DecidableEq T]

/-- A process that is not in the middle of a change goes on, and does not touch the container. -/
theorem Sound.goto (h : Sound traversals own ownAction machine) {t : T} {mutex : Mutex.State T}
    {process : SharingProcess} {pc : SharingPc} {reports : List FinishedReport}
    (hguards : Mutex.Guards SharingPc.Owns mutex (Function.update machine.pc t pc))
    (hworking : (machine.pc t).Working → pc.Working)
    (hscopes : pc.Scopes (own t) (ownAction t) process)
    (hreads : pc.Reads traversals machine.container machine.calls process)
    (halive : ∀ signum, process.terminated = some signum → signum ∈ gNewMask → ¬ pc.Owns)
    (hreports : ∀ finished ∈ reports, finished ∈ machine.reports ∨
      finished.Snapshot traversals machine.calls) :
    Sound traversals own ownAction ({ machine with mutex, reports }.goto t process pc) := by
  refine h.of_step t (fun u hu => Function.update_of_ne hu _ _)
    (fun u hu => Function.update_of_ne hu _ _) hguards List.prefix_rfl (fun _ => ⟨rfl, rfl⟩)
    ?_ ?_ ?_ ?_ hreports
  · rw [goto_pc_self, goto_processes_self]
    exact hscopes
  · rw [goto_pc_self, goto_processes_self]
    exact hreads
  · refine h.settled.imp id ?_
    rintro ⟨u, hu⟩
    refine ⟨u, ?_⟩
    by_cases heq : u = t
    · rw [heq] at hu ⊢
      rw [goto_pc_self]
      exact hworking hu
    · simpa only [Sharing.goto, Function.update_of_ne heq] using hu
  · rw [goto_pc_self, goto_processes_self]
    exact halive

/-- The owner of the mutex changes the container. -/
theorem Sound.work (h : Sound traversals own ownAction machine) {t : T} {process : SharingProcess}
    {pc : SharingPc} {container : BasicMappedStorage} {calls : List StorageCall}
    (howns : (machine.pc t).Owns) (hnext : pc.Owns) (hcalls : machine.calls <+: calls)
    (hscopes : pc.Scopes (own t) (ownAction t) process)
    (hreads : pc.Reads traversals container calls process)
    (hsettled : container = replay calls ∨ pc.Working)
    (halive : ∀ signum, process.terminated = some signum → signum ∈ gNewMask → ¬ pc.Owns) :
    Sound traversals own ownAction ({ machine with container, calls }.goto t process pc) := by
  refine h.of_step t (fun u hu => Function.update_of_ne hu _ _)
    (fun u hu => Function.update_of_ne hu _ _) (h.guards.stay (iff_of_true hnext howns)) hcalls
    (fun houtside => absurd howns houtside) ?_ ?_ ?_ ?_ fun _ => .inl
  · rw [goto_pc_self, goto_processes_self]
    exact hscopes
  · rw [goto_pc_self, goto_processes_self]
    exact hreads
  · refine hsettled.imp id fun hworking => ⟨t, ?_⟩
    rw [goto_pc_self]
    exact hworking
  · rw [goto_pc_self, goto_processes_self]
    exact halive

/-- The process goes on without the mutex, or with it as before. -/
theorem Sound.stay (h : Sound traversals own ownAction machine) {t : T} {process : SharingProcess}
    {pc : SharingPc} (howns : pc.Owns ↔ (machine.pc t).Owns)
    (hworking : (machine.pc t).Working → pc.Working)
    (hscopes : pc.Scopes (own t) (ownAction t) process)
    (hreads : pc.Reads traversals machine.container machine.calls process)
    (halive : ∀ signum, process.terminated = some signum → signum ∈ gNewMask → ¬ pc.Owns) :
    Sound traversals own ownAction (machine.goto t process pc) :=
  h.goto (h.guards.stay howns) hworking hscopes hreads halive fun _ => .inl

/-- A signal arrives at a process, whether it has the mutex or not. -/
theorem Sound.signalled (h : Sound traversals own ownAction machine) {t : T} {signum : Signal}
    {process : SharingProcess}
    (hsignalled : SharingProcess.Signalled signum (machine.processes t) process) :
    Sound traversals own ownAction (machine.goto t process (machine.pc t)) := by
  refine h.stay Iff.rfl id ((h.scopes t).raise hsignalled.mask hsignalled.action)
    ((h.reads t).raise hsignalled.isInterrupted) ?_
  intro other hterminated hother howns
  rcases hsignalled.terminated with hsame | ⟨hnew, hmask, haction⟩
  · exact h.alive t other (hsame ▸ hterminated) hother howns
  · obtain rfl : signum = other := Option.some.inj (hnew.symm.trans hterminated)
    exact (h.scopes t).shields howns hother hmask haction

/-- A process that was interrupted has printed the beginning. -/
theorem snapshot_of_answered {calls begun : List StorageCall} {view : MappedView}
    {answers : List Bool} {report : Report} {interrupted : Bool} (hbegun : begun <+: calls)
    (hanswered : (view.askingWriteImpl traversals (replay calls)).Answered answers (.done report))
    (hquiet : interrupted = false → ∀ value ∈ answers, value = false) :
    FinishedReport.Snapshot traversals calls ⟨view, begun, calls, interrupted, report⟩ := by
  have hreport : report = view.writeImpl traversals (fun n => answers.getD n false)
      (replay calls) :=
    hanswered.result_eq.trans (view.run_askingWriteImpl traversals _ _)
  refine ⟨hbegun, List.prefix_rfl, ?_, ?_⟩
  · rw [hreport]
    exact view.writeImpl_begins traversals _ _
  · intro hflag
    have hnever : (fun n => answers.getD n false) = fun _ => false := by
      funext n
      rw [List.getD_eq_getElem?_getD]
      cases hvalue : answers[n]? with
      | none => rfl
      | some value => exact hquiet hflag value (List.mem_of_getElem? hvalue)
    rw [hreport, hnever]

/-- Whoever gets the mutex finds the container as the calls left it. -/
theorem Sound.container_eq_of_lock (h : Sound traversals own ownAction machine) {t : T}
    {mutex : Mutex.State T} (hlock : Mutex.lock? t machine.mutex = some mutex)
    (houtside : ¬ (machine.pc t).Owns) : machine.container = replay machine.calls := by
  refine h.settled.resolve_right ?_
  rintro ⟨u, hu⟩
  have hguards := h.guards
  rw [hguards.eq_free_of_lock hlock houtside] at hguards
  exact hguards u hu.owns

/-- One step of a process that is not terminated. -/
theorem Sound.stepOf (h : Sound traversals own ownAction machine) {t : T}
    (hrunning : (machine.processes t).terminated = none) :
    Sound traversals own ownAction (machine.stepOf traversals t) := by
  have hscopes := h.scopes t
  have hreads := h.reads t
  have halive : ∀ {pc : SharingPc} signum, (machine.processes t).terminated = some signum →
      signum ∈ gNewMask → ¬ pc.Owns := by
    intro pc signum hterminated
    rw [hrunning] at hterminated
    cases hterminated
  unfold Sharing.stepOf
  cases hpc : machine.pc t with
  | idle => exact h
  | waiting call oldMask =>
      rw [hpc] at hscopes
      cases hlock : Mutex.lock? t machine.mutex with
      | none => exact h
      | some mutex =>
          have houtside : ¬ (machine.pc t).Owns := by rw [hpc]; exact id
          refine h.goto (h.guards.lock hlock houtside trivial) (fun _ => trivial) hscopes ?_ halive
            fun _ => .inl
          rw [SharingPc.Reads, h.container_eq_of_lock hlock houtside]
          exact call.commit_foldl_frames _
  | working call frames oldMask =>
      rw [hpc] at hscopes hreads
      have howns : (machine.pc t).Owns := by rw [hpc]; trivial
      cases frames with
      | nil =>
          -- the change is complete, and the calls are one more
          exact h.work howns trivial (List.prefix_append _ _) hscopes trivial
            (.inl (hreads.trans (replay_concat _ _).symm)) halive
      | cons item rest =>
          exact h.work howns trivial List.prefix_rfl hscopes hreads (.inr trivial) halive
  | worked oldMask =>
      rw [hpc] at hscopes
      have howns : (machine.pc t).Owns := by rw [hpc]; trivial
      rw [h.guards.unlock?_eq howns]
      exact h.goto (h.guards.unlock howns id) (by rw [hpc]; exact id) hscopes trivial halive
        fun _ => .inl
  | unlocked oldMask =>
      rw [hpc] at hscopes
      obtain ⟨-, haction, rfl⟩ := hscopes
      refine h.stay (by rw [hpc]; exact Iff.rfl) (by rw [hpc]; exact id) ⟨?_, haction⟩ trivial
        halive
      exact SignalMask.ofSet_set _
  | masked view begun oldMask =>
      rw [hpc] at hscopes hreads
      obtain ⟨hmask, haction, rfl⟩ := hscopes
      refine h.stay (by rw [hpc]; exact Iff.rfl) (by rw [hpc]; exact id)
        ⟨hmask, ?_, congrFun haction SIGINT, rfl⟩ hreads halive
      rw [← haction]
      rfl
  | handled view begun oldMask oldSa =>
      rw [hpc] at hscopes hreads
      dsimp only
      split
      · exact h.stay (by rw [hpc]; exact Iff.rfl) (by rw [hpc]; exact id) hscopes trivial halive
      · cases hlock : Mutex.lock? t machine.mutex with
        | none => exact h
        | some mutex =>
            have houtside : ¬ (machine.pc t).Owns := by rw [hpc]; exact id
            refine h.goto (h.guards.lock hlock houtside trivial) (by rw [hpc]; exact id) hscopes
              ⟨hreads, [], ?_, nofun⟩ halive fun _ => .inl
            rw [h.container_eq_of_lock hlock houtside]
            exact .start
  | viewing view begun program oldMask oldSa =>
      rw [hpc] at hscopes hreads
      obtain ⟨hbegun, answers, hanswered, hquiet⟩ := hreads
      have howns : (machine.pc t).Owns := by rw [hpc]; trivial
      cases program with
      | ask next =>
          refine h.stay (by rw [hpc]; exact Iff.rfl) (by rw [hpc]; exact id) hscopes
            ⟨hbegun, _, hanswered.answer _, ?_⟩ halive
          intro hflag value hvalue
          rcases List.mem_append.mp hvalue with hold | hnew
          · exact hquiet hflag value hold
          · rw [List.mem_singleton.mp hnew, hflag]
      | done report =>
          dsimp only
          rw [h.guards.unlock?_eq howns]
          refine h.goto (h.guards.unlock howns id) (by rw [hpc]; exact id) hscopes trivial halive
            ?_
          intro finished hfinished
          rcases List.mem_append.mp hfinished with hold | hnew
          · exact .inl hold
          · rw [List.mem_singleton.mp hnew]
            exact .inr (snapshot_of_answered hbegun hanswered hquiet)
  | peeking oldMask oldSa =>
      rw [hpc] at hscopes
      exact h.stay (by rw [hpc]; exact Iff.rfl) (by rw [hpc]; exact id) hscopes trivial halive
  | viewed oldMask oldSa =>
      rw [hpc] at hscopes
      obtain ⟨hmask, haction, rfl, rfl⟩ := hscopes
      refine h.stay (by rw [hpc]; exact Iff.rfl) (by rw [hpc]; exact id) ⟨hmask, ?_, rfl⟩ trivial
        halive
      show Function.update (machine.processes t).action SIGINT (ownAction t SIGINT) = ownAction t
      rw [haction, Function.update_idem, Function.update_eq_self]
  | unhandled oldMask =>
      rw [hpc] at hscopes
      obtain ⟨-, haction, rfl⟩ := hscopes
      refine h.stay (by rw [hpc]; exact Iff.rfl) (by rw [hpc]; exact id) ⟨?_, haction⟩ trivial
        halive
      exact SignalMask.ofSet_set _

variable {terminates : Signal → Bool}

theorem Sound.step (h : Sound traversals own ownAction machine) (event : SharingEvent T) :
    Sound traversals own ownAction (machine.step traversals terminates event) := by
  unfold Sharing.step
  split
  · exact h
  · next hrunning =>
      have hnone : (machine.processes (processOf event)).terminated = none :=
        Option.not_isSome_iff_eq_none.mp hrunning
      have halive : ∀ {pc : SharingPc} signum,
          (machine.processes (processOf event)).terminated = some signum →
            signum ∈ gNewMask → ¬ pc.Owns := by
        intro pc signum hterminated
        rw [hnone] at hterminated
        cases hterminated
      cases event with
      | storage t call =>
          dsimp only [Sharing.call]
          have hscopes := h.scopes t
          cases hpc : machine.pc t with
          | idle =>
              rw [hpc] at hscopes
              dsimp only
              split
              · exact h
              · refine h.stay (by rw [hpc]; exact Iff.rfl) (by rw [hpc]; exact id)
                  ⟨?_, hscopes.2, hscopes.1⟩ trivial halive
                exact SharingProcess.set_mask_lockSignals (Finset.Subset.refl _) _
          | _ => exact h
      | write t view =>
          dsimp only [Sharing.write]
          have hscopes := h.scopes t
          cases hpc : machine.pc t with
          | idle =>
              rw [hpc] at hscopes
              refine h.stay (by rw [hpc]; exact Iff.rfl) (by rw [hpc]; exact id)
                ⟨?_, hscopes.2, hscopes.1⟩ List.prefix_rfl halive
              exact SharingProcess.set_mask_lockSignals (Finset.erase_subset _ _) _
          | _ => exact h
      | step t => exact h.stepOf hnone
      | raise t signum => exact h.signalled SharingProcess.signalled_raise
      | deliverPending t signum => exact h.signalled SharingProcess.signalled_deliverPending

/-- **Views are snapshots, and the four signals do not cost the mutex.**  Whatever the processes
do and whatever signals arrive at whatever moments: no two processes are inside the container, and
the one that has the mutex is in its critical section and was not terminated by one of the signals
of the scopes.  A process between its calls has its own mask and its own handlers.  While the mutex
is free, the container is what the calls made of it one after the other; and every finished report
is what it was at one moment of the `Write`, or the beginning of that if the viewer was
interrupted. -/
theorem views_are_snapshots (own : T → SignalMask) (ownAction : T → Signal → SigAction)
    (traversals : Traversals) (terminates : Signal → Bool) (events : List (SharingEvent T)) :
    let machine := (initial own ownAction).run traversals terminates events
    (∀ t u, (machine.pc t).Owns → (machine.pc u).Owns → t = u) ∧
      (∀ t again, machine.mutex = .held t again → (machine.pc t).Owns ∧
        ∀ signum ∈ gNewMask, (machine.processes t).terminated ≠ some signum) ∧
      (∀ t, machine.pc t = .idle →
        (machine.processes t).mask = own t ∧ (machine.processes t).action = ownAction t) ∧
      (machine.mutex = .free → machine.container = replay machine.calls) ∧
      ∀ finished ∈ machine.reports, finished.Snapshot traversals machine.calls := by
  intro machine
  have h : Sound traversals own ownAction machine :=
    Run.invariant (P := fun _ _ => True) (fun h _ => h.step _) sound_initial
      (Run.Along.of_forall fun _ _ => trivial)
  refine ⟨fun t u => h.guards.unique, ?_, ?_, ?_, h.reports⟩
  · intro t again hheld
    have hguards := h.guards
    rw [hheld] at hguards
    have howns : (machine.pc t).Owns := (hguards.2 t).mpr rfl
    exact ⟨howns, fun signum hsignum hterminated => h.alive t signum hterminated hsignum howns⟩
  · intro t hidle
    have hscopes := h.scopes t
    rw [hidle] at hscopes
    exact hscopes
  · intro hfree
    have hguards := h.guards
    rw [hfree] at hguards
    refine h.settled.resolve_right ?_
    rintro ⟨t, ht⟩
    exact hguards t ht.owns

theorem pairwise_mergeSort_key {α : Type*} (key : α → UInt64) (l : List α) :
    (l.mergeSort fun x y => key x ≤ key y).Pairwise fun x y => key x ≤ key y := by
  have htrans : ∀ x y z, decide (key x ≤ key y) → decide (key y ≤ key z) →
      decide (key x ≤ key z) := by
    simp only [decide_eq_true_eq]
    exact fun x y z => UInt64.le_trans
  have htotal : ∀ x y, decide (key x ≤ key y) || decide (key y ≤ key x) := by
    intro x y
    simpa using UInt64.le_total (key x) (key y)
  simpa using List.pairwise_mergeSort htrans htotal l

/-- Traversals in which equal keys keep the order of the timestamps, or of the hashed index. -/
def stableTraversals : Traversals where
  hashCombine := sampleHashCombine
  indexes records :=
    ⟨records.items.mergeSort fun x y => x.address ≤ y.address,
      records.items.mergeSort fun x y => x.memsize ≤ y.memsize, List.mergeSort_perm _ _,
      pairwise_mergeSort_key _ records.items, List.mergeSort_perm _ _,
      pairwise_mergeSort_key _ records.items⟩
  aggregated container :=
    ⟨container.mergeSort fun x y => x.memsize ≤ y.memsize,
      container.mergeSort fun x y => x.times ≤ y.times, List.mergeSort_perm _ _,
      pairwise_mergeSort_key _ container, List.mergeSort_perm _ _,
      pairwise_mergeSort_key _ container⟩

/-- One process adds two records.  Another one views them; after the first record `SIGINT` and
`SIGTERM` arrive, and the second of them waits for the end of the scopes. -/
def interruptedView : List (SharingEvent Bool) :=
  [.storage false (.add 16 1 [] 1), .step false, .step false, .step false, .step false,
    .storage false (.add 32 200 [] 10), .step false, .step false, .step false, .step false,
    .write true ⟨.new, false⟩, .step true, .step true, .step true, .raise true SIGINT,
    .raise true SIGTERM, .step true, .step true, .step true, .step true,
    .deliverPending true SIGTERM]

theorem views_are_snapshots_interruptedView :
    let machine := (initial (fun _ => .ofSet {SIGUSR1}) fun _ _ => .SIG_DFL).run stableTraversals
      (fun _ => true) interruptedView
    (machine.processes true).terminated = some SIGTERM ∧ machine.mutex = .free ∧
      (machine.processes true).mask = .ofSet {SIGUSR1} ∧
      ∃ finished, machine.reports = [finished] ∧
        finished.report = .records [⟨⟨16, 1, 1⟩, []⟩] ∧
        finished.Snapshot stableTraversals machine.calls := by
  intro machine
  obtain ⟨-, -, hidle, -, hreports⟩ := views_are_snapshots (fun _ => .ofSet {SIGUSR1})
    (fun _ _ => .SIG_DFL) stableTraversals (fun _ => true) interruptedView
  refine ⟨rfl, rfl, (hidle true rfl).1, _, rfl, rfl, hreports _ ?_⟩
  exact List.mem_singleton_self _

end Sharing

end Memhook
