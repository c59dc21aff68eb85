import Memhook.Engine.CallStackUnwinder
import Memhook.Lib.Run
import Memhook.Lib.Threads

/-!
# Concurrent lookups in the symbol cache

Any number of threads look up instruction pointers, by `GetUnwProcInfo` or by
`GetUnwProcInfoByIP`, and call `memhook_dlclose`.  A lookup that misses gives up the lock,
asks libunwind and `dladdr`, takes the lock to record the path of the module, and takes it
once more to insert its entry.  `GetUnwProcInfoByIP` makes room inside that last section,
`GetUnwProcInfo` before it and without the lock.  Each of these is one step, and so is
`FlushUnwCache`.

Between the step in which `GetUnwProcInfo` makes room and the one in which it inserts,
another thread may take the room: `LookupMachine.HasRoom` is the condition under which
this does not happen, and `cache_bounded` says that the cache then keeps its bound.
The machine also keeps track of when its information was resolved, which is the subject
of `Engine.Staleness`.
-/

namespace Memhook

open Threads

/-- The two lookup functions. -/
inductive LookupKind
  | getUnwProcInfo
  | getUnwProcInfoByIP
  deriving DecidableEq, Repr

/-- What a lookup that missed has found out, and how many libraries had been closed when
it asked for the name and for the module. -/
structure Resolution where
  info : UnwProcNameInfo
  shlPath : Bytes
  named : ℕ
  located : ℕ

/-- The next step of a thread. -/
inductive LookupPc
  | idle
  /-- The locked search. -/
  | finding (kind : LookupKind) (ip : Address)
  /-- The call of `unw_get_proc_name` or `get_proc_name`. -/
  | naming (kind : LookupKind) (ip : Address)
  /-- The call of `dladdr`. -/
  | locating (kind : LookupKind) (ip : Address) (procName : Option (Bytes × Address)) (named : ℕ)
  /-- The locked section that records the path of the module. -/
  | recording (kind : LookupKind) (resolution : Resolution) (dlInfo : DlInfo)
  /-- The unlocked check of the size in `GetUnwProcInfo`. -/
  | evicting (resolution : Resolution)
  /-- The last locked section. -/
  | inserting (kind : LookupKind) (resolution : Resolution)
  /-- `memhook_dlclose` between `do_dlclose` and `FlushUnwCache`. -/
  | flushing (closed : ℕ)

/-- Where a lookup goes on once the path is recorded. -/
def LookupPc.recorded : LookupKind → Resolution → LookupPc
  | .getUnwProcInfo, resolution => evicting resolution
  | .getUnwProcInfoByIP, resolution => inserting .getUnwProcInfoByIP resolution

/-- The thread has made room for its entry and has not inserted it. -/
def LookupPc.MadeRoom : LookupPc → Prop
  | inserting .getUnwProcInfo _ => True
  | _ => False

instance : DecidablePred LookupPc.MadeRoom
  | .inserting .getUnwProcInfo _ => isTrue trivial
  | .inserting .getUnwProcInfoByIP _ => isFalse id
  | .idle | .finding .. | .naming .. | .locating .. | .recording .. | .evicting _
  | .flushing _ => isFalse id

/-- The thread is about to compare the size of the cache with its bound. -/
def LookupPc.checksSize : LookupPc → Bool
  | evicting _ | inserting .getUnwProcInfoByIP _ => true
  | _ => false

/-- The symbol cache and the threads.  The last five fields only watch: `epoch` counts the
calls of `do_dlclose`, `horizon` is the last one of which the `memhook_dlclose` has
returned, `since` the horizon at the start of a thread's lookup, and the stamps are the
epochs in which the name and the base of an entry and the path of a module were
resolved. -/
structure LookupMachine (T : Type*) where
  impl : Impl
  pc : T → LookupPc
  /-- What the last lookup of a thread returned. -/
  result : T → Option UnwProcInfo
  /-- The first element of an empty sequence has been erased. -/
  faulted : Bool
  epoch : ℕ
  horizon : ℕ
  since : T → ℕ
  stamp : Address → ℕ × ℕ
  pathStamp : Address → ℕ

/-- A thread calls a lookup or `memhook_dlclose`, or it makes its next step.  The answers
are those it gets if the step asks libunwind or `dladdr`. -/
inductive LookupEvent (T : Type*)
  | lookup (t : T) (kind : LookupKind) (ip : Address)
  | dlclose (t : T)
  | advance (t : T) (procName : Option (Bytes × Address)) (dlInfo : Option DlInfo)

namespace LookupMachine

variable {T : Type*} [DecidableEq T]

/-- No thread has begun, and the cache is as the constructor leaves it. -/
def initial (cacheMaxSize : Option UInt64) : LookupMachine T :=
  ⟨.new cacheMaxSize, fun _ => .idle, fun _ => none, false, 0, 0, fun _ => 0, fun _ => (0, 0),
    fun _ => 0⟩

def goto (machine : LookupMachine T) (t : T) (pc : LookupPc) : LookupMachine T :=
  { machine with pc := Function.update machine.pc t pc }

theorem pc_goto (machine : LookupMachine T) (t t' : T) (pc : LookupPc) :
    (machine.goto t pc).pc t' = if t' = t then pc else machine.pc t' :=
  Function.update_apply ..

/-- The lookup of a thread returns. -/
def answer (machine : LookupMachine T) (t : T) (result : UnwProcInfo) : LookupMachine T :=
  { machine with result := Function.update machine.result t (some result) }.goto t .idle

/-- The locked search. -/
def find (machine : LookupMachine T) (t : T) (kind : LookupKind) (ip : Address) :
    LookupMachine T :=
  match machine.impl.hit ip with
  | some found => { machine with impl := found.2 }.answer t found.1
  | none => machine.goto t (.naming kind ip)

/-- The answer of `dladdr`. -/
def locate (machine : LookupMachine T) (t : T) (kind : LookupKind) (ip : Address)
    (procName : Option (Bytes × Address)) (named : ℕ) (dlInfo : Option DlInfo) :
    LookupMachine T :=
  let resolution : Resolution :=
    ⟨Impl.resolve procName dlInfo ip,
      (dlInfo.map fun info => info.dliFname.getD unknownTag).getD unknownTag, named,
      machine.epoch⟩
  match dlInfo with
  | some info => machine.goto t (.recording kind resolution info)
  | none => machine.goto t (.recorded kind resolution)

/-- The locked section that records the path of a module. -/
def record (machine : LookupMachine T) (t : T) (kind : LookupKind) (resolution : Resolution)
    (dlInfo : DlInfo) : LookupMachine T :=
  { machine with
    impl := machine.impl.emplaceShlPath (some dlInfo)
    pathStamp :=
      if (machine.impl.shlPathMap dlInfo.dliFbase).isSome then machine.pathStamp
      else Function.update machine.pathStamp dlInfo.dliFbase resolution.located }.goto t
    (.recorded kind resolution)

/-- Making room, with or without the lock, and what follows. -/
def evict (machine : LookupMachine T) (next : LookupMachine T → LookupMachine T) :
    LookupMachine T :=
  match machine.impl.evict with
  | some evicted => next { machine with impl := evicted }
  | none => { machine with faulted := true }

/-- Inserting the entry and returning. -/
def insert (t : T) (resolution : Resolution) (machine : LookupMachine T) : LookupMachine T :=
  { machine with
    impl := machine.impl.insert resolution.info
    stamp :=
      if machine.impl.procnameInfoMap.any fun other => other.ip = resolution.info.ip then
        machine.stamp
      else
        Function.update machine.stamp resolution.info.ip
          (resolution.named, resolution.located) }.answer t
    ⟨resolution.shlPath, resolution.info.shlAddr, resolution.info.procname, resolution.info.offp⟩

/-- `FlushUnwCache`, after which `memhook_dlclose` returns. -/
def flush (machine : LookupMachine T) (t : T) (closed : ℕ) : LookupMachine T :=
  { machine with
    impl := machine.impl.flushUnwCache
    horizon := max machine.horizon closed }.goto t .idle

/-- The next step of a thread. -/
def advance (machine : LookupMachine T) (t : T) (procName : Option (Bytes × Address))
    (dlInfo : Option DlInfo) : LookupMachine T :=
  match machine.pc t with
  | .idle => machine
  | .finding kind ip => machine.find t kind ip
  | .naming kind ip => machine.goto t (.locating kind ip procName machine.epoch)
  | .locating kind ip procName named => machine.locate t kind ip procName named dlInfo
  | .recording kind resolution dlInfo => machine.record t kind resolution dlInfo
  | .evicting resolution =>
      machine.evict fun machine => machine.goto t (.inserting .getUnwProcInfo resolution)
  | .inserting .getUnwProcInfo resolution => machine.insert t resolution
  | .inserting .getUnwProcInfoByIP resolution => machine.evict (insert t resolution)
  | .flushing closed => machine.flush t closed

/-- A thread that is busy begins nothing new, and after a fault nothing is said. -/
def step (machine : LookupMachine T) (event : LookupEvent T) : LookupMachine T :=
  if machine.faulted then machine
  else
    match event with
    | .lookup t kind ip =>
        match machine.pc t with
        | .idle =>
            { machine with since := Function.update machine.since t machine.horizon }.goto t
              (.finding kind ip)
        | _ => machine
    | .dlclose t =>
        match machine.pc t with
        | .idle =>
            { machine with epoch := machine.epoch + 1 }.goto t (.flushing (machine.epoch + 1))
        | _ => machine
    | .advance t procName dlInfo => machine.advance t procName dlInfo

omit [DecidableEq T] in
theorem cacheMaxSize_evict (machine : LookupMachine T)
    {next : LookupMachine T → LookupMachine T}
    (hnext : ∀ machine : LookupMachine T,
      (next machine).impl.cacheMaxSize = machine.impl.cacheMaxSize) :
    (machine.evict next).impl.cacheMaxSize = machine.impl.cacheMaxSize := by
  unfold evict
  split
  next evicted hevict => exact (hnext _).trans (Impl.cacheMaxSize_of_evict hevict)
  next => rfl

theorem cacheMaxSize_advance (machine : LookupMachine T) (t : T)
    (procName : Option (Bytes × Address)) (dlInfo : Option DlInfo) :
    (machine.advance t procName dlInfo).impl.cacheMaxSize = machine.impl.cacheMaxSize := by
  unfold advance
  split
  next => rfl
  next kind ip _ =>
    unfold find
    split
    next found hhit => exact Impl.cacheMaxSize_of_hit hhit
    next => rfl
  next => rfl
  next => cases dlInfo <;> rfl
  next => exact Impl.cacheMaxSize_emplaceShlPath ..
  next => exact machine.cacheMaxSize_evict fun _ => rfl
  next => exact Impl.cacheMaxSize_insert ..
  next => exact machine.cacheMaxSize_evict fun _ => Impl.cacheMaxSize_insert ..
  next => rfl

/-- The bound of the cache never changes. -/
theorem cacheMaxSize_step (machine : LookupMachine T) (event : LookupEvent T) :
    (machine.step event).impl.cacheMaxSize = machine.impl.cacheMaxSize := by
  unfold step
  split
  next => rfl
  next =>
    cases event with
    | advance t procName dlInfo => exact machine.cacheMaxSize_advance t procName dlInfo
    | lookup t kind ip => simp only; split <;> rfl
    | dlclose t => simp only; split <;> rfl

/-! ## A lookup that nobody interrupts -/

/-- The steps of one lookup; those that it does not need do nothing. -/
def soloLookup (t : T) (kind : LookupKind) (ip : Address) (procName : Option (Bytes × Address))
    (dlInfo : Option DlInfo) : List (LookupEvent T) :=
  .lookup t kind ip :: List.replicate 6 (.advance t procName dlInfo)

/-- The steps of both functions together do what the function of one thread does. -/
theorem solo_lookup {machine : LookupMachine T} {t : T} (hidle : machine.pc t = .idle)
    (hok : machine.faulted = false) (kind : LookupKind) (ip : Address)
    (procName : Option (Bytes × Address)) (dlInfo : Option DlInfo) :
    match Impl.getUnwProcInfo procName dlInfo machine.impl ip with
    | some found =>
        ((soloLookup t kind ip procName dlInfo).foldl step machine).impl = found.2 ∧
        ((soloLookup t kind ip procName dlInfo).foldl step machine).result t = some found.1 ∧
        ((soloLookup t kind ip procName dlInfo).foldl step machine).pc = machine.pc
    | none => ((soloLookup t kind ip procName dlInfo).foldl step machine).faulted := by
  have hback : Function.update machine.pc t .idle = machine.pc := by
    rw [← hidle, Function.update_eq_self]
  unfold Impl.getUnwProcInfo
  cases hhit : machine.impl.hit ip with
  | some found =>
      simp [soloLookup, step, hidle, hok, advance, find, hhit, goto, answer, hback]
  | none =>
      cases dlInfo with
      | none =>
          cases hevict : machine.impl.evict <;> cases kind <;>
            simp [soloLookup, step, hidle, hok, advance, find, hhit, goto, answer, locate,
              LookupPc.recorded, evict, insert, Impl.emplaceShlPath, hevict, hback]
      | some dl =>
          cases hevict : (machine.impl.emplaceShlPath (some dl)).evict <;> cases kind <;>
            simp [soloLookup, step, hidle, hok, advance, find, hhit, goto, answer, locate, record,
              LookupPc.recorded, evict, insert, hevict, hback]

/-! ## The bound -/

section Bound

variable [Fintype T]

def size (machine : LookupMachine T) : ℕ := machine.impl.procnameInfoMap.length

/-- The number of threads that have made room for an entry which is not there yet. -/
def pending (machine : LookupMachine T) : ℕ := census LookupPc.MadeRoom machine.pc

/-- A check of the size finds the cache full, but not empty, or with room for one more
entry beside those for which other threads have made room. -/
def HasRoom (machine : LookupMachine T) : LookupEvent T → Prop
  | .advance t _ _ =>
      (machine.pc t).checksSize →
        (machine.impl.cacheMaxSize ≤ machine.size ∧ 0 < machine.size) ∨
          machine.size + machine.pending < machine.impl.cacheMaxSize
  | _ => True

instance (machine : LookupMachine T) : DecidablePred machine.HasRoom
  | .advance .. => inferInstanceAs (Decidable (_ → _))
  | .lookup .. | .dlclose _ => isTrue trivial

/-- Nothing was erased from an empty sequence, and the cache keeps its bound. -/
def Bounded (capacity : ℕ) (machine : LookupMachine T) : Prop :=
  machine.faulted = false ∧ machine.size ≤ max 1 capacity

/-- There is room for all entries that are still to come. -/
structure Roomy (capacity : ℕ) (machine : LookupMachine T) : Prop where
  ok : machine.faulted = false
  size_eq : machine.impl.cacheMaxSize = capacity
  room : machine.size + machine.pending ≤ capacity

namespace Roomy

variable {capacity : ℕ} {machine machine' : LookupMachine T} {t : T} {pc : LookupPc}

/-- One thread moves. -/
theorem move (h : machine.Roomy capacity) (hok : machine'.faulted = false)
    (hcapacity : machine'.impl.cacheMaxSize = machine.impl.cacheMaxSize)
    (hpc : machine'.pc = Function.update machine.pc t pc)
    (hsize : machine'.size + machine.pending + (if pc.MadeRoom then 1 else 0) ≤
      capacity + if (machine.pc t).MadeRoom then 1 else 0) : machine'.Roomy capacity := by
  refine ⟨hok, hcapacity.trans h.size_eq, ?_⟩
  have hcount := census_update LookupPc.MadeRoom machine.pc t pc
  rw [← hpc] at hcount
  unfold pending at hsize ⊢
  omega

/-- A step that makes no entry and no room. -/
theorem quiet (h : machine.Roomy capacity) (hok : machine'.faulted = false)
    (hcapacity : machine'.impl.cacheMaxSize = machine.impl.cacheMaxSize)
    (hpc : machine'.pc = Function.update machine.pc t pc) (hsize : machine'.size ≤ machine.size)
    (hquiet : ¬ pc.MadeRoom) : machine'.Roomy capacity := by
  refine h.move hok hcapacity hpc ?_
  have hroom := h.room
  rw [if_neg hquiet]
  omega

theorem find (h : machine.Roomy capacity) (t : T) (kind : LookupKind) (ip : Address) :
    (machine.find t kind ip).Roomy capacity := by
  unfold LookupMachine.find
  split
  next found hhit =>
    exact h.quiet h.ok (Impl.cacheMaxSize_of_hit hhit) rfl (Impl.perm_of_hit hhit).length_eq.le id
  next => exact h.quiet h.ok rfl rfl le_rfl id

theorem not_madeRoom_recorded (kind : LookupKind) (resolution : Resolution) :
    ¬ (LookupPc.recorded kind resolution).MadeRoom := by
  cases kind <;> exact id

theorem locate (h : machine.Roomy capacity) (t : T) (kind : LookupKind) (ip : Address)
    (procName : Option (Bytes × Address)) (named : ℕ) (dlInfo : Option DlInfo) :
    (machine.locate t kind ip procName named dlInfo).Roomy capacity := by
  cases dlInfo with
  | some info => exact h.quiet h.ok rfl rfl le_rfl id
  | none => exact h.quiet h.ok rfl rfl le_rfl (not_madeRoom_recorded kind _)

/-- The check of the size, and a step that adds one entry or makes room for one. -/
theorem evict (h : machine.Roomy capacity)
    (hroom : (machine.impl.cacheMaxSize ≤ machine.size ∧ 0 < machine.size) ∨
      machine.size + machine.pending < machine.impl.cacheMaxSize)
    {next : LookupMachine T → LookupMachine T}
    (hok : ∀ machine : LookupMachine T, (next machine).faulted = machine.faulted)
    (hcapacity : ∀ machine : LookupMachine T,
      (next machine).impl.cacheMaxSize = machine.impl.cacheMaxSize)
    (hpc : ∀ machine : LookupMachine T, (next machine).pc = Function.update machine.pc t pc)
    (hsize : ∀ machine : LookupMachine T,
      (next machine).size + (if pc.MadeRoom then 1 else 0) ≤ machine.size + 1) :
    (machine.evict next).Roomy capacity := by
  have hold := h.room
  have hcap := h.size_eq
  unfold LookupMachine.evict
  split
  next evicted hevict =>
    refine h.move ((hok _).trans h.ok) ((hcapacity _).trans (Impl.cacheMaxSize_of_evict hevict))
      (hpc _) ?_
    have hnext := hsize { machine with impl := evicted }
    -- a full cache has dropped an entry, any other one has the room
    obtain ⟨hfew, rfl⟩ | ⟨first, rest, hfull, hmap, rfl⟩ := Impl.evict_cases hevict
    · have hsmall : machine.size < machine.impl.cacheMaxSize := hfew
      change (next machine).size + _ ≤ machine.size + 1 at hnext
      change (next machine).size + _ + _ ≤ _
      omega
    · have hlength : machine.size = rest.length + 1 := by
        unfold size
        rw [hmap, List.length_cons]
      have hrest : ({ machine with impl := { machine.impl with procnameInfoMap := rest } } :
          LookupMachine T).size = rest.length := rfl
      rw [hrest] at hnext
      have hfull' : machine.impl.cacheMaxSize ≤ machine.size := hfull
      omega
  next hnone =>
    -- a cache with an entry or with room has something to evict or nothing to do
    exfalso
    unfold Impl.evict at hnone
    split at hnone
    next hfull =>
      split at hnone
      next hnil =>
        have hempty : machine.size = 0 := by
          unfold size
          rw [hnil, List.length_nil]
        have hfull' : machine.impl.cacheMaxSize ≤ machine.size := hfull
        omega
      next => simp at hnone
    next => simp at hnone

theorem advance (h : machine.Roomy capacity) (t : T) (procName : Option (Bytes × Address))
    (dlInfo : Option DlInfo) (hroom : machine.HasRoom (.advance t procName dlInfo)) :
    (machine.advance t procName dlInfo).Roomy capacity := by
  unfold LookupMachine.advance
  split
  next => exact h
  next kind ip _ => exact h.find t kind ip
  next => exact h.quiet h.ok rfl rfl le_rfl id
  next kind ip procName named _ => exact h.locate t kind ip procName named dlInfo
  next kind resolution info _ =>
    exact h.quiet h.ok (Impl.cacheMaxSize_emplaceShlPath ..) rfl le_rfl
      (not_madeRoom_recorded kind resolution)
  next resolution hpc =>
    refine h.evict (hroom (by rw [hpc]; rfl)) (fun _ => rfl) (fun _ => rfl) (fun _ => rfl)
      fun machine => ?_
    exact le_of_eq (congrArg _ (if_pos trivial))
  next resolution hpc =>
    -- the room made before is used up
    refine h.move (t := t) h.ok (Impl.cacheMaxSize_insert ..) rfl ?_
    have hinsert : (machine.insert t resolution).size ≤ machine.size + 1 :=
      Impl.length_insert_le machine.impl resolution.info
    have hold := h.room
    rw [hpc, if_neg (show ¬ LookupPc.idle.MadeRoom from id),
      if_pos (show (LookupPc.inserting .getUnwProcInfo resolution).MadeRoom from trivial)]
    omega
  next resolution hpc =>
    refine h.evict (hroom (by rw [hpc]; rfl)) (fun _ => rfl)
      (fun _ => Impl.cacheMaxSize_insert ..) (fun _ => rfl) fun machine => ?_
    rw [if_neg (show ¬ LookupPc.idle.MadeRoom from id)]
    exact Impl.length_insert_le machine.impl resolution.info
  next => exact h.quiet h.ok rfl rfl (Nat.zero_le _) id

theorem step (h : machine.Roomy capacity) {event : LookupEvent T}
    (hroom : machine.HasRoom event) : (machine.step event).Roomy capacity := by
  unfold LookupMachine.step
  rw [if_neg (by simp [h.ok])]
  cases event with
  | lookup t kind ip =>
      simp only
      split
      · exact h.quiet h.ok rfl rfl le_rfl id
      · exact h
  | dlclose t =>
      simp only
      split
      · exact h.quiet h.ok rfl rfl le_rfl id
      · exact h
  | advance t procName dlInfo => exact h.advance t procName dlInfo hroom

end Roomy

omit [DecidableEq T] in
theorem roomy_initial (cacheMaxSize : Option UInt64) :
    (initial cacheMaxSize : LookupMachine T).Roomy (Impl.new cacheMaxSize).cacheMaxSize := by
  refine ⟨rfl, rfl, ?_⟩
  have hnone : (initial cacheMaxSize : LookupMachine T).pending = 0 := census_eq_zero fun _ => id
  rw [hnone]
  exact Nat.zero_le _

/-- **The cache keeps its bound**, and nothing is erased from an empty sequence, in every
interleaving in which each check of the size finds room that no other thread counts on. -/
theorem cache_bounded (cacheMaxSize : Option UInt64) {events : List (LookupEvent T)}
    (hroom : Run.Along step HasRoom (initial cacheMaxSize) events) :
    (events.foldl step (initial cacheMaxSize)).Bounded (Impl.new cacheMaxSize).cacheMaxSize := by
  have hroomy : (events.foldl step (initial cacheMaxSize)).Roomy
      (Impl.new cacheMaxSize).cacheMaxSize :=
    Run.invariant (fun h hevent => h.step hevent) (roomy_initial cacheMaxSize) hroom
  refine ⟨hroomy.ok, ?_⟩
  have hsum := hroomy.room
  omega

/-- One lookup after the other, with room for one entry. -/
def oneAfterTheOther : List (LookupEvent Bool) :=
  soloLookup false .getUnwProcInfo 4100 none none ++
    soloLookup true .getUnwProcInfoByIP 4200 none none

theorem cache_bounded_oneAfterTheOther :
    (oneAfterTheOther.foldl step (initial (some 1))).Bounded 1 ∧
      (oneAfterTheOther.foldl step (initial (some 1))).impl.procnameInfoMap.map
        UnwProcNameInfo.ip = [4200] :=
  ⟨cache_bounded (some 1) (by decide), by decide⟩

/-- Two threads make room for one entry before either inserts its own. -/
def bothMakeRoom : List (LookupEvent Bool) :=
  [.lookup false .getUnwProcInfo 4100, .lookup true .getUnwProcInfo 4200] ++
    List.replicate 4 (.advance false none none) ++ List.replicate 5 (.advance true none none) ++
    [.advance false none none]

/-- Without capacity the first lookup erases from the empty sequence, and with room for
one entry two lookups leave two. -/
theorem bound_exceeded :
    ¬ ((soloLookup () .getUnwProcInfoByIP 4100 none none).foldl step (initial (some 0))).Bounded
        (Impl.new (some 0)).cacheMaxSize ∧
      ¬ (bothMakeRoom.foldl step (initial (some 1))).Bounded (Impl.new (some 1)).cacheMaxSize ∧
      (bothMakeRoom.foldl step (initial (some 1))).size = 2 := by
  unfold Bounded
  decide

end Bound

end LookupMachine

end Memhook
