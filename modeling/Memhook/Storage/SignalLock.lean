import Mathlib.Data.Finset.Basic
import Memhook.Storage.BasicMappedStorage

/-!
# Signals while a storage is locked

Every operation of `BasicMappedStorage` begins with a `ScopedSignalLock`
(`src/memhookcore/scoped_signal_lock.cpp`), which is to hold four signals back while the
mutex in the segment is taken.  The scopes nest, on whatever thread of the application
allocates and with whatever mask that thread has.

`ScopeTree` is what a thread does: scopes, one after the other and inside each other, and
calls on the storage.  An exception ends the bodies around it early and runs the same
destructors, so that what was done is a tree again.

The constructor asks `pthread_sigmask` for `SIG_SETMASK` where `SIG_BLOCK` would add to the
mask.  The destructor restores what was there, so the mask is the thread's own between
scopes.  Inside a scope it is the four signals and nothing else: what the application had
blocked besides them can be delivered there.
-/

namespace Memhook

abbrev Signal := ℕ

def SIGINT : Signal := 2
def SIGQUIT : Signal := 3
def SIGABRT : Signal := 6
def SIGKILL : Signal := 9
def SIGUSR1 : Signal := 10
def SIGTERM : Signal := 15
def SIGSTOP : Signal := 19

/-- `sigset_t`. -/
abbrev SigSet := Finset Signal

/-- The signal mask of a thread; two signals cannot be blocked. -/
structure SignalMask where
  set : SigSet
  blockable : ∀ signum ∈ set, signum ≠ SIGKILL ∧ signum ≠ SIGSTOP

/-- The first argument of `pthread_sigmask`. -/
inductive SigHow
  | SIG_BLOCK
  | SIG_UNBLOCK
  | SIG_SETMASK

namespace SignalMask

@[ext] theorem ext {mask other : SignalMask} (h : mask.set = other.set) : mask = other := by
  cases mask
  cases other
  cases h
  rfl

/-- What can be blocked of a set. -/
def ofSet (set : SigSet) : SignalMask where
  set := set.filter fun signum => signum ≠ SIGKILL ∧ signum ≠ SIGSTOP
  blockable _ hsignum := (Finset.mem_filter.mp hsignum).2

@[simp] theorem ofSet_set (mask : SignalMask) : ofSet mask.set = mask := by
  ext1
  exact Finset.filter_true_of_mem mask.blockable

/-- `pthread_sigmask`; the old mask is the argument. -/
def pthreadSigmask (how : SigHow) (set : SigSet) (mask : SignalMask) : SignalMask :=
  match how with
  | .SIG_BLOCK => ofSet (mask.set ∪ set)
  | .SIG_UNBLOCK => ofSet (mask.set \ set)
  | .SIG_SETMASK => ofSet set

end SignalMask

/-- `g_new_mask`, as `FillNewMask` makes it. -/
def gNewMask : SigSet := insert SIGTERM (insert SIGABRT (insert SIGQUIT (insert SIGINT ∅)))

/-- A thread of the application and the storage it calls. -/
structure SignalThread where
  mask : SignalMask
  storage : BasicMappedStorage

namespace SignalThread

/-- The constructor of `ScopedSignalLock`; `m_old_mask` is the mask of before. -/
def lockSignals (thread : SignalThread) : SignalThread :=
  { thread with mask := thread.mask.pthreadSigmask .SIG_SETMASK gNewMask }

/-- The destructor of `ScopedSignalLock`. -/
def unlockSignals (oldMask : SignalMask) (thread : SignalThread) : SignalThread :=
  { thread with mask := thread.mask.pthreadSigmask .SIG_SETMASK oldMask.set }

end SignalThread

/-- What a thread does. -/
inductive ScopeTree
  | done
  | scope (body next : ScopeTree)
  | storage (call : StorageCall) (next : ScopeTree)

/-- The mask at a moment, and how many scopes are open. -/
structure MaskMoment where
  depth : ℕ
  mask : SignalMask

namespace ScopeTree

/-- One operation of `BasicMappedStorage`, with the moments inside its scope; `Flush` has
no scope. -/
def storageCall (depth : ℕ) (call : StorageCall) (thread : SignalThread) :
    List MaskMoment × SignalThread :=
  match call with
  | .flush => ([], { thread with storage := call.apply thread.storage })
  | _ =>
      let locked := thread.lockSignals
      let worked := { locked with storage := call.apply locked.storage }
      ([⟨depth + 1, locked.mask⟩, ⟨depth + 1, worked.mask⟩], worked.unlockSignals thread.mask)

/-- All moments of a run, with `depth` scopes open around it, and the thread afterwards. -/
def run (depth : ℕ) : ScopeTree → SignalThread → List MaskMoment × SignalThread
  | done, thread => ([⟨depth, thread.mask⟩], thread)
  | scope body next, thread =>
      let inner := body.run (depth + 1) thread.lockSignals
      let outer := next.run depth (inner.2.unlockSignals thread.mask)
      (⟨depth, thread.mask⟩ :: (inner.1 ++ outer.1), outer.2)
  | storage call next, thread =>
      let inner := storageCall depth call thread
      let outer := next.run depth inner.2
      (⟨depth, thread.mask⟩ :: (inner.1 ++ outer.1), outer.2)

/-- Some scope is entered. -/
def enters : ScopeTree → Prop
  | done => False
  | scope _ _ => True
  | storage call next => call ≠ .flush ∨ next.enters

end ScopeTree

namespace MaskMoment

/-- Inside a scope, what the application has blocked is blocked, and the four signals are;
outside, the mask is the application's. -/
def Undisturbed (own : SignalMask) (moment : MaskMoment) : Prop :=
  if 0 < moment.depth then own.set ⊆ moment.mask.set ∧ gNewMask ⊆ moment.mask.set
  else moment.mask = own

instance (own : SignalMask) (moment : MaskMoment) : Decidable (moment.Undisturbed own) :=
  decidable_of_iff (if 0 < moment.depth then own.set ⊆ moment.mask.set ∧ gNewMask ⊆ moment.mask.set
    else moment.mask.set = own.set) (by
      unfold Undisturbed
      split
      · exact Iff.rfl
      · exact SignalMask.ext_iff.symm)

end MaskMoment

/-! ## The mask inside and outside -/

namespace SignalThread

@[simp] theorem set_mask_lockSignals (thread : SignalThread) :
    thread.lockSignals.mask.set = gNewMask := by
  show gNewMask.filter _ = gNewMask
  decide

@[simp] theorem mask_unlockSignals (oldMask : SignalMask) (thread : SignalThread) :
    (thread.unlockSignals oldMask).mask = oldMask :=
  SignalMask.ofSet_set oldMask

end SignalThread

namespace ScopeTree

variable {depth : ℕ} {thread : SignalThread} {moment : MaskMoment}

@[simp] theorem mask_storageCall (depth : ℕ) (call : StorageCall) (thread : SignalThread) :
    (storageCall depth call thread).2.mask = thread.mask := by
  cases call <;> simp [storageCall]

theorem mem_storageCall {call : StorageCall}
    (h : moment ∈ (storageCall depth call thread).1) :
    call ≠ .flush ∧ moment.depth = depth + 1 ∧ moment.mask.set = gNewMask := by
  cases call with
  | flush => exact absurd h List.not_mem_nil
  | _ =>
      rcases List.mem_pair.mp h with rfl | rfl
      · exact ⟨by simp, rfl, thread.set_mask_lockSignals⟩
      · exact ⟨by simp, rfl, thread.set_mask_lockSignals⟩

/-- The destructors restore the mask. -/
theorem mask_run (tree : ScopeTree) (depth : ℕ) (thread : SignalThread) :
    (tree.run depth thread).2.mask = thread.mask := by
  induction tree generalizing depth thread with
  | done => rfl
  | scope body next _ ihnext => simp [run, ihnext]
  | storage call next ih => simp [run, ih]

/-- At any moment the mask is the one of before, or some scope of the tree is open and the
mask is the four signals. -/
theorem mem_run {tree : ScopeTree} (h : moment ∈ (tree.run depth thread).1) :
    moment = ⟨depth, thread.mask⟩ ∨
      tree.enters ∧ depth < moment.depth ∧ moment.mask.set = gNewMask := by
  induction tree generalizing depth thread with
  | done => exact .inl (List.mem_singleton.mp h)
  | scope body next ihbody ihnext =>
      rcases List.mem_cons.mp h with rfl | h
      · exact .inl rfl
      rcases List.mem_append.mp h with h | h
      · -- in the body the mask of before is the one of the constructor
        rcases ihbody h with rfl | ⟨-, hdepth, hmask⟩
        · exact .inr ⟨trivial, Nat.lt_succ_self depth, thread.set_mask_lockSignals⟩
        · exact .inr ⟨trivial, Nat.lt_of_succ_lt hdepth, hmask⟩
      · rcases ihnext h with rfl | ⟨-, hdepth, hmask⟩
        · rw [SignalThread.mask_unlockSignals]
          exact .inl rfl
        · exact .inr ⟨trivial, hdepth, hmask⟩
  | storage call next ih =>
      rcases List.mem_cons.mp h with rfl | h
      · exact .inl rfl
      rcases List.mem_append.mp h with h | h
      · obtain ⟨hcall, hdepth, hmask⟩ := mem_storageCall h
        exact .inr ⟨.inl hcall, by omega, hmask⟩
      · rcases ih h with rfl | ⟨henters, hdepth, hmask⟩
        · rw [mask_storageCall]
          exact .inl rfl
        · exact .inr ⟨.inr henters, hdepth, hmask⟩

theorem mem_run_self (tree : ScopeTree) (depth : ℕ) (thread : SignalThread) :
    ⟨depth, thread.mask⟩ ∈ (tree.run depth thread).1 := by
  cases tree <;> simp [run]

/-- If a scope is entered, there is a moment inside it. -/
theorem exists_mem_run {tree : ScopeTree} (henters : tree.enters) (depth : ℕ)
    (thread : SignalThread) :
    ∃ moment ∈ (tree.run depth thread).1, depth < moment.depth ∧ moment.mask.set = gNewMask := by
  induction tree generalizing depth thread with
  | done => exact absurd henters id
  | scope body next _ _ =>
      have hbody := body.mem_run_self (depth + 1) thread.lockSignals
      exact ⟨_, List.mem_cons_of_mem _ (List.mem_append_left _ hbody), Nat.lt_succ_self depth,
        thread.set_mask_lockSignals⟩
  | storage call next ih =>
      by_cases hcall : call = .flush
      · have hnext : next.enters := henters.resolve_left (not_not.mpr hcall)
        obtain ⟨moment, hmem, hmoment⟩ := ih hnext depth (storageCall depth call thread).2
        exact ⟨moment, List.mem_cons_of_mem _ (List.mem_append_right _ hmem), hmoment⟩
      · have hmem : (⟨depth + 1, thread.lockSignals.mask⟩ : MaskMoment) ∈
            (storageCall depth call thread).1 := by
          cases call <;> simp [storageCall] at hcall ⊢
        exact ⟨_, List.mem_cons_of_mem _ (List.mem_append_left _ hmem), Nat.lt_succ_self depth,
          thread.set_mask_lockSignals⟩

end ScopeTree

/-- **When the application's mask is left alone.**  Whatever the scopes and the calls, the
signals that the application has blocked stay blocked throughout, the four signals are
blocked inside every scope and the mask is the application's outside, if and only if the
application has blocked none but the four signals or no scope is entered. -/
theorem signalMask_undisturbed_iff (own : SignalMask) (tree : ScopeTree)
    (storage : BasicMappedStorage) :
    (∀ moment ∈ (tree.run 0 ⟨own, storage⟩).1, moment.Undisturbed own) ∧
        (tree.run 0 ⟨own, storage⟩).2.mask = own ↔
      own.set ⊆ gNewMask ∨ ¬ tree.enters := by
  rw [and_iff_left (tree.mask_run 0 ⟨own, storage⟩)]
  constructor
  · intro hall
    refine or_iff_not_imp_right.mpr ?_
    intro henters
    obtain ⟨moment, hmem, hdepth, hmask⟩ :=
      ScopeTree.exists_mem_run (not_not.mp henters) 0 ⟨own, storage⟩
    have hmoment := hall moment hmem
    rw [MaskMoment.Undisturbed, if_pos hdepth, hmask] at hmoment
    exact hmoment.1
  · intro hown moment hmem
    rcases ScopeTree.mem_run hmem with rfl | ⟨henters, hdepth, hmask⟩
    · rw [MaskMoment.Undisturbed, if_neg (Nat.lt_irrefl 0)]
    · rw [MaskMoment.Undisturbed, if_pos hdepth, hmask]
      exact ⟨hown.resolve_right (not_not.mpr henters), Finset.Subset.refl _⟩

/-- An application that has blocked `SIGUSR1` can receive it while a block is removed. -/
theorem signalMask_disturbed_sigusr1 :
    ¬ ∀ moment ∈ ((ScopeTree.storage (.remove 4096) .done).run 0
      ⟨.ofSet {SIGUSR1}, .empty⟩).1, moment.Undisturbed (.ofSet {SIGUSR1}) := by
  decide

end Memhook
