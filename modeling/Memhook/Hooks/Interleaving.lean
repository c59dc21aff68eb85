import Memhook.Hooks.HeapTracking
import Memhook.Hooks.Machine

/-!
# Records and blocks under any interleaving

`memhook_free` removes the record before the block is released.  A moving
`memhook_realloc` or `memhook_mremap`, and `memhook_munmap`, release first and
remove the record afterwards.  In between the allocator may give the address to
another thread; if that thread also announces it, the late `DoHookFree` removes the
record of the new block.  `Machine.Safe` excludes just this announcement.

The argument is made one address at a time.  `Agree` lists the ways in which the
roles of all threads, the recorded size and the size of the block can stand to each
other, and each kind of step is one lemma about it.
-/

namespace Memhook

open TwoLevel

/-! ## The situations of one address -/

namespace Role

/-- The thread found the block recorded and live when it took the role, so nobody
else can have one. -/
def Exclusive : Role → Prop
  | held | dropped | resizing _ => True
  | _ => False

/-- The recorded size and the size of the block while one thread has the role and
the others have none.  Of a released block the record says nothing. -/
def Situation (recorded block : Option UInt64) : Role → Prop
  | none => recorded = block
  | held => recorded = block ∧ block.isSome
  | dropped => recorded = Option.none ∧ block.isSome
  | allocating size => recorded = Option.none ∧ block = some size
  | resizing size => recorded.isSome ∧ block = some size
  | released => block = Option.none

end Role

section Agree

variable {T : Type*} [DecidableEq T]

/-- One thread has a role, the others have none. -/
def single (t : T) (role : Role) : T → Role := Function.update (fun _ => .none) t role

/-- The possible situations of one address: nobody is at it, one thread is, or a
second thread has been given what the first one released. -/
inductive Agree (roles : T → Role) (recorded block : Option UInt64) : Prop
  | settled (hroles : roles = fun _ => .none) (hsize : recorded = block)
  | alone (t : T) (role : Role) (hroles : roles = single t role)
      (hsituation : role.Situation recorded block)
  | reused (t t' : T) (size : UInt64) (hne : t' ≠ t)
      (hroles : roles = Function.update (single t .released) t' (.allocating size))
      (hblock : block = some size)

theorem single_apply (t t' : T) (role : Role) :
    single t role t' = if t' = t then role else .none := by
  unfold single
  rw [Function.update_apply]

@[simp] theorem update_single (t : T) (role role' : Role) :
    Function.update (single t role) t role' = single t role' := by
  unfold single
  rw [Function.update_idem]

@[simp] theorem single_none (t : T) : single t .none = fun _ => .none :=
  Function.update_eq_self t _

/-- Who has a role when one thread does. -/
theorem eq_of_single {t t' : T} {role role' : Role} (h : single t role t' = role')
    (hrole : role' ≠ .none) : t' = t ∧ role = role' := by
  rw [single_apply] at h
  split_ifs at h with heq
  · exact ⟨heq, h⟩
  · exact absurd h.symm hrole

namespace Agree

variable {roles : T → Role} {recorded block : Option UInt64} {t : T}

/-- A thread with a role is alone, or one of the two of a reused address. -/
theorem of_role (h : Agree roles recorded block) {role : Role} (ht : roles t = role)
    (hrole : role ≠ .none) :
    (roles = single t role ∧ role.Situation recorded block) ∨
      ∃ t' size, t' ≠ t ∧ block = some size ∧
        (role = .allocating size ∧ roles = Function.update (single t' .released) t role ∨
          role = .released ∧ roles = Function.update (single t role) t' (.allocating size)) := by
  cases h with
  | settled hroles =>
      subst hroles
      exact absurd ht.symm hrole
  | alone x role' hroles hsituation =>
      subst hroles
      obtain ⟨rfl, rfl⟩ := eq_of_single ht hrole
      exact .inl ⟨rfl, hsituation⟩
  | reused x x' size hne hroles hblock =>
      subst hroles
      rw [Function.update_apply] at ht
      split_ifs at ht with heq
      · subst heq ht
        exact .inr ⟨x, size, hne.symm, hblock, .inl ⟨rfl, rfl⟩⟩
      · obtain ⟨rfl, rfl⟩ := eq_of_single ht hrole
        exact .inr ⟨x', size, hne, hblock, .inr ⟨rfl, rfl⟩⟩

/-! ### Transitions -/

/-- A thread alone at the address goes on by itself. -/
theorem advance (h : Agree roles recorded block) {role : Role} (ht : roles t = role)
    (hexclusive : role.Exclusive) {role' : Role} {recorded' block' : Option UInt64}
    (hnext : role.Situation recorded block → role'.Situation recorded' block') :
    Agree (Function.update roles t role') recorded' block' := by
  have hrole : role ≠ .none := by
    rintro rfl
    exact hexclusive
  rcases h.of_role ht hrole with ⟨rfl, hsituation⟩ | ⟨t', size, -, -, ⟨rfl, -⟩ | ⟨rfl, -⟩⟩
  · exact .alone t role' (update_single t role role') (hnext hsituation)
  · exact hexclusive.elim
  · exact hexclusive.elim

/-- A call on a live block that nobody owns. -/
theorem begin (h : Agree roles recorded block) (hlive : block.isSome)
    (hfree : ∀ t', ¬ (roles t').Owns) : Agree (Function.update roles t .held) recorded block := by
  cases h with
  | settled hroles hsize =>
      subst hroles
      exact .alone t .held rfl ⟨hsize, hlive⟩
  | alone t' role hroles hsituation =>
      subst hroles
      have hrole : ¬ role.Owns := by simpa [single_apply] using hfree t'
      cases role with
      | none =>
          rw [single_none]
          exact .alone t .held rfl ⟨hsituation, hlive⟩
      | released => simp [show block = none from hsituation] at hlive
      -- every other role owns the block
      | _ => exact absurd trivial hrole
  | reused t' x size hne hroles hblock =>
      have hfree' := hfree x
      rw [hroles, Function.update_self] at hfree'
      exact absurd trivial hfree'

/-- The allocator hands out an address, perhaps one whose record is still to go. -/
theorem allocate (h : Agree roles recorded block) (ht : roles t = .none) (hblock : block = none)
    (size : UInt64) : Agree (Function.update roles t (.allocating size)) recorded (some size) := by
  subst hblock
  cases h with
  | settled hroles hsize =>
      subst hroles
      exact .alone t (.allocating size) rfl ⟨hsize, rfl⟩
  | alone t' role hroles hsituation =>
      subst hroles
      cases role with
      | none =>
          rw [single_none]
          exact .alone t (.allocating size) rfl ⟨hsituation, rfl⟩
      | released =>
          -- the first thread has released the block and has still to remove its record
          have hne : t ≠ t' := by
            intro heq
            simp [single_apply, heq] at ht
          exact .reused t' t size hne rfl rfl
      | _ => exact absurd hsituation.2 (by simp)
  | reused _ _ _ _ _ hblock => simp at hblock

/-- An announcement that no late removal threatens. -/
theorem announce (h : Agree roles recorded block) {size : UInt64}
    (ht : roles t = .allocating size) (hsafe : ∀ t', roles t' ≠ .released) :
    recorded = none ∧ Agree (Function.update roles t .none) (some size) block := by
  rcases h.of_role ht (by simp) with
    ⟨rfl, hrecorded, hblock⟩ | ⟨t', size', hne, -, ⟨-, rfl⟩ | ⟨hrole, -⟩⟩
  · exact ⟨hrecorded, .alone t .none (update_single ..) hblock.symm⟩
  · exact absurd (by rw [Function.update_of_ne hne, single_apply, if_pos rfl]) (hsafe t')
  · simp at hrole

/-- The removal after a release. -/
theorem remove (h : Agree roles recorded block) (ht : roles t = .released) :
    Agree (Function.update roles t .none) none block := by
  rcases h.of_role ht (by simp) with
    ⟨rfl, hblock⟩ | ⟨t', size, hne, hblock, ⟨hrole, -⟩ | ⟨-, rfl⟩⟩
  · exact .alone t .none (update_single ..) (show none = block from Eq.symm hblock)
  · simp at hrole
  · -- the new block is not announced yet, so only the old record goes
    refine .alone t' (.allocating size) ?_ ⟨rfl, hblock⟩
    rw [Function.update_comm hne, update_single, single_none]
    rfl

theorem stay (h : Agree roles recorded block) {role : Role} (ht : roles t = role) :
    Agree (Function.update roles t role) recorded block := by
  rwa [← ht, Function.update_eq_self]

end Agree

end Agree

/-! ## One step -/

theorem Blocks.allocated_apply (blocks : Blocks) (mem : Address) (size : UInt64)
    (address : Address) :
    blocks.allocated mem size address = if IsAt mem address then some size else blocks address := by
  by_cases hmem : mem = 0 <;> simp [allocated, IsAt, hmem, Function.update_apply]

theorem Blocks.released_apply (blocks : Blocks) (mem address : Address) :
    blocks.released mem address = if IsAt mem address then none else blocks address := by
  by_cases hmem : mem = 0 <;> simp [released, IsAt, hmem, Function.update_apply]

theorem RecordMap.sizes_updateSize_apply (m : RecordMap) (mem : Address) (size : UInt64)
    (address : Address) :
    (m.updateSize mem size).sizes address =
      if IsAt mem address then (m.sizes address).map fun _ => size else m.sizes address := by
  by_cases hmem : mem = 0
  · simp [updateSize, IsAt, hmem]
  · by_cases heq : address = mem
    · subst heq
      simp [updateSize, sizes, IsAt, hmem, Record.resize, Function.comp_def]
    · simp [updateSize, sizes, IsAt, hmem, heq]

namespace Machine

variable {T U R : Type*} [DecidableEq T] [CallStackUnwinder U R]

def roles (machine : Machine T U) (address : Address) : T → Role :=
  fun t => (machine.pc t).role address

theorem roles_goto (machine : Machine T U) (t : T) (pc : Pc) (address : Address) :
    (machine.goto t pc).roles address =
      Function.update (machine.roles address) t (pc.role address) := by
  funext t'
  by_cases heq : t' = t
  · subst heq
    simp [roles, goto]
  · simp [roles, goto, heq]

omit [DecidableEq T] in
theorem roles_eq {machine : Machine T U} {t : T} {pc : Pc} (hpc : machine.pc t = pc)
    (address : Address) : machine.roles address t = pc.role address := by
  rw [roles, hpc]

/-- The next step of the thread does not announce an address that another call has
released and whose record it has still to remove. -/
def Safe (machine : Machine T U) (t : T) : Prop :=
  ∀ mem size, machine.pc t = .hookAlloc mem size →
    ∀ t', (machine.pc t').role mem ≠ .released

def Quiescent (machine : Machine T U) : Prop := ∀ t, machine.pc t = .idle

/-- The engine stands for a map that agrees with the blocks at every address, up to
what the calls in progress are doing there. -/
def Coherent (machine : Machine T U) : Prop :=
  ∃ m : RecordMap, machine.engine.Refines m ∧
    ∀ address, Agree (machine.roles address) (m.sizes address) (machine.blocks address)

/-- A step that leaves the engine alone. -/
theorem coherent_blocks {s : Machine T U} (h : s.Coherent) {t : T} {pc : Pc} {blocks : Blocks}
    (hagree : ∀ address recorded, Agree (s.roles address) recorded (s.blocks address) →
      Agree (Function.update (s.roles address) t (pc.role address)) recorded (blocks address)) :
    ({ s with blocks := blocks }.goto t pc).Coherent := by
  obtain ⟨m, hrefines, hbefore⟩ := h
  refine ⟨m, hrefines, ?_⟩
  intro address
  rw [roles_goto]
  exact hagree address _ (hbefore address)

theorem Coherent.call {s : Machine T U} (h : s.Coherent) {t : T} {c : Call}
    (hpc : s.pc t = .idle) (hcall : s.MayCall c) : (s.goto t c.start).Coherent := by
  have hnone : ∀ address, s.roles address t = .none := fun address => roles_eq hpc address
  -- the calls that get a block as argument hold it from now on
  have hheld : ∀ mem, mem = 0 ∨ s.Available mem → ∀ address recorded,
      Agree (s.roles address) recorded (s.blocks address) →
      Agree (Function.update (s.roles address) t (if IsAt mem address then .held else .none))
        recorded (s.blocks address) := by
    intro mem hmem address recorded hagree
    split
    · next hat =>
        obtain ⟨rfl, hnull⟩ := hat
        obtain ⟨hlive, hfree⟩ := hmem.resolve_left hnull
        exact hagree.begin hlive hfree
    · exact hagree.stay (hnone address)
  cases c with
  | malloc size => exact coherent_blocks h fun address _ hagree => hagree.stay (hnone address)
  | mmap length => exact coherent_blocks h fun address _ hagree => hagree.stay (hnone address)
  | free mem => exact coherent_blocks h (hheld mem hcall)
  | realloc mem size => exact coherent_blocks h (hheld mem hcall)
  | mremap addr newLen => exact coherent_blocks h (hheld addr (.inr hcall))
  | munmap addr => exact coherent_blocks h (hheld addr (.inr hcall))

/-- `pc` and `pc'` differ at one address only, where the block changes as well. -/
theorem Coherent.underlying {s : Machine T U} (h : s.Coherent) {t : T} {pc pc' : Pc}
    (hpc : s.pc t = pc) (mem : Address) {blocks : Blocks}
    (hother : ∀ address, ¬ IsAt mem address →
      pc'.role address = pc.role address ∧ blocks address = s.blocks address)
    (hagree : ∀ recorded, mem ≠ 0 → s.roles mem t = pc.role mem →
      Agree (s.roles mem) recorded (s.blocks mem) →
      Agree (Function.update (s.roles mem) t (pc'.role mem)) recorded (blocks mem)) :
    ({ s with blocks := blocks }.goto t pc').Coherent := by
  refine coherent_blocks h ?_
  intro address recorded hbefore
  by_cases hat : IsAt mem address
  · obtain ⟨rfl, hnull⟩ := hat
    exact hagree recorded hnull (roles_eq hpc address) hbefore
  · obtain ⟨hrole, hblock⟩ := hother address hat
    rw [hblock, hrole]
    exact hbefore.stay (roles_eq hpc address)

theorem Coherent.free {s : Machine T U} (h : s.Coherent) {t : T} {mem : Address}
    (hpc : s.pc t = .free mem) :
    ({ s with blocks := s.blocks.released mem }.goto t .idle).Coherent := by
  refine h.underlying hpc mem ?_ ?_
  · intro address hat
    simp [Pc.role, Blocks.released_apply, hat]
  · intro recorded hnull ht hagree
    have hat : IsAt mem mem := ⟨rfl, hnull⟩
    rw [Blocks.released_apply, if_pos hat]
    simp only [Pc.role, if_pos hat] at ht ⊢
    exact hagree.advance ht trivial fun hsituation => hsituation.1

theorem Coherent.alloc {s : Machine T U} (h : s.Coherent) {t : T} {mem : Address} {size : UInt64}
    (hpc : s.pc t = .alloc size) (hfresh : s.blocks mem = none) :
    ({ s with blocks := s.blocks.allocated mem size }.goto t (.hookAlloc mem size)).Coherent := by
  refine h.underlying hpc mem ?_ ?_
  · intro address hat
    simp [Pc.role, Blocks.allocated_apply, hat]
  · intro recorded hnull ht hagree
    have hat : IsAt mem mem := ⟨rfl, hnull⟩
    rw [Blocks.allocated_apply, if_pos hat]
    simp only [Pc.role, if_pos hat] at ht ⊢
    exact hagree.allocate ht hfresh size

theorem Coherent.inPlace {s : Machine T U} (h : s.Coherent) {t : T} {mem : Address}
    {size : UInt64} (hpc : s.pc t = .realloc mem size) :
    ({ s with blocks := s.blocks.allocated mem size }.goto t
      (.hookRealloc mem mem size)).Coherent := by
  refine h.underlying hpc mem ?_ ?_
  · intro address hat
    simp [Pc.role, Blocks.allocated_apply, hat]
  · intro recorded hnull ht hagree
    have hat : IsAt mem mem := ⟨rfl, hnull⟩
    rw [Blocks.allocated_apply, if_pos hat]
    simp only [Pc.role, if_pos hat, if_true] at ht ⊢
    refine hagree.advance ht trivial fun hsituation => ⟨?_, rfl⟩
    rw [hsituation.1]
    exact hsituation.2

theorem Coherent.munmap {s : Machine T U} (h : s.Coherent) {t : T} {addr : Address}
    (hpc : s.pc t = .munmap addr) :
    ({ s with blocks := s.blocks.released addr }.goto t (.hookMunmap addr)).Coherent := by
  refine h.underlying hpc addr ?_ ?_
  · intro address hat
    simp [Pc.role, Blocks.released_apply, hat]
  · intro recorded hnull ht hagree
    have hat : IsAt addr addr := ⟨rfl, hnull⟩
    rw [Blocks.released_apply, if_pos hat]
    simp only [Pc.role, if_pos hat] at ht ⊢
    exact hagree.advance ht trivial fun _ => rfl

/-- The two addresses of a move: one is released, the other is handed out. -/
theorem Coherent.moved {s : Machine T U} (h : s.Coherent) {t : T} {oldMem newMem : Address}
    {size : UInt64} (hpc : s.pc t = .realloc oldMem size) (hne : oldMem ≠ newMem)
    (hfresh : newMem ≠ 0 → s.blocks newMem = none) :
    ({ s with blocks := (s.blocks.released oldMem).allocated newMem size }.goto t
      (.hookRealloc oldMem newMem size)).Coherent := by
  refine coherent_blocks h ?_
  intro address recorded hagree
  have ht : s.roles address t = if IsAt oldMem address then .held else .none :=
    roles_eq hpc address
  rw [Blocks.allocated_apply, Blocks.released_apply]
  simp only [Pc.role, if_neg hne]
  by_cases hold : IsAt oldMem address
  · have hnew : ¬ IsAt newMem address := fun hnew => hne (hold.1.symm.trans hnew.1)
    rw [if_pos hold] at ht
    rw [if_pos hold, if_neg hnew, if_pos hold]
    exact hagree.advance ht trivial fun _ => rfl
  · rw [if_neg hold] at ht
    rw [if_neg hold, if_neg hold]
    split
    · next hnew =>
        obtain ⟨rfl, hnull⟩ := hnew
        exact hagree.allocate ht (hfresh hnull) size
    · exact hagree.stay ht

/-- `DoHookFree` at one address, whose role is the only one that changes. -/
theorem Coherent.hookFree {s : Machine T U} (h : s.Coherent) {t : T} {pc pc' : Pc}
    (hpc : s.pc t = pc) {mem : Address}
    (hother : ∀ address, ¬ IsAt mem address → pc'.role address = pc.role address)
    (hagree : ∀ recorded, mem ≠ 0 → s.roles mem t = pc.role mem →
      Agree (s.roles mem) recorded (s.blocks mem) →
      Agree (Function.update (s.roles mem) t (pc'.role mem)) none (s.blocks mem)) :
    ({ s with engine := s.engine.doHookFree mem }.goto t pc').Coherent := by
  obtain ⟨m, hrefines, hbefore⟩ := h
  refine ⟨m.free mem, hrefines.doHookFree mem, ?_⟩
  intro address
  rw [roles_goto, RecordMap.sizes_free, Blocks.released_apply]
  by_cases hat : IsAt mem address
  · rw [if_pos hat]
    obtain ⟨rfl, hnull⟩ := hat
    exact hagree _ hnull (roles_eq hpc address) (hbefore address)
  · rw [if_neg hat, hother address hat]
    exact (hbefore address).stay (roles_eq hpc address)

theorem Coherent.hookAlloc {s : Machine T U} (h : s.Coherent) {t : T} (hsafe : s.Safe t)
    (ctx : Context R) {mem : Address} {size : UInt64} (hpc : s.pc t = .hookAlloc mem size) :
    ({ s with engine := s.engine.doHookAlloc ctx mem size }.goto t .idle).Coherent := by
  obtain ⟨m, hrefines, hbefore⟩ := h
  have ht : ∀ address, s.roles address t = if IsAt mem address then .allocating size else .none :=
    roles_eq hpc
  -- no removal is pending, so the address has no record
  have hannounce : mem ≠ 0 → m.sizes mem = none ∧
      Agree (Function.update (s.roles mem) t .none) (some size) (s.blocks mem) := by
    intro hnull
    refine (hbefore mem).announce ?_ (hsafe mem size hpc)
    rw [ht, if_pos ⟨rfl, hnull⟩]
  have hfresh : mem ≠ 0 → m mem = none := by
    intro hnull
    simpa [RecordMap.sizes] using (hannounce hnull).1
  refine ⟨m.alloc mem (ctx.announced size), hrefines.doHookAlloc ctx hfresh size,
    fun address => ?_⟩
  rw [roles_goto, RecordMap.sizes_alloc, Blocks.allocated_apply]
  split
  · next hat =>
      obtain ⟨rfl, hnull⟩ := hat
      exact (hannounce hnull).2
  · next hat => exact (hbefore address).stay ((ht address).trans (if_neg hat))

theorem Coherent.hookUpdateSize {s : Machine T U} (h : s.Coherent) {t : T} {mem : Address}
    {size : UInt64} (hpc : s.pc t = .hookRealloc mem mem size) :
    ({ s with engine := s.engine.doHookUpdateSize mem size }.goto t .idle).Coherent := by
  obtain ⟨m, hrefines, hbefore⟩ := h
  refine ⟨m.updateSize mem size, hrefines.doHookUpdateSize mem size, ?_⟩
  intro address
  have ht : s.roles address t = if IsAt mem address then .resizing size else .none := by
    simpa [Pc.role] using roles_eq hpc address
  rw [roles_goto, RecordMap.sizes_updateSize_apply]
  split
  · next hat =>
      rw [if_pos hat] at ht
      refine (hbefore address).advance ht trivial ?_
      intro hsituation
      obtain ⟨old, hold⟩ := Option.isSome_iff_exists.mp hsituation.1
      show Option.map (fun _ => size) (m.sizes address) = s.blocks address
      rw [hold, hsituation.2]
      rfl
  · next hat => exact (hbefore address).stay (ht.trans (if_neg hat))

/-- Every safe step of every thread keeps the machine coherent. -/
theorem Coherent.step {s s' : Machine T U} (h : s.Coherent) {t : T} (hsafe : s.Safe t)
    (hstep : Step t s s') : s'.Coherent := by
  cases hstep with
  | call c hpc hcall => exact h.call hpc hcall
  | @hookFree mem hpc =>
      refine h.hookFree hpc ?_ ?_
      · intro address hat
        simp [Pc.role, hat]
      · intro recorded hnull ht hagree
        have hat : IsAt mem mem := ⟨rfl, hnull⟩
        simp only [Pc.role, if_pos hat] at ht ⊢
        exact hagree.advance ht trivial fun hsituation => ⟨rfl, hsituation.2⟩
  | free hpc => exact h.free hpc
  | alloc mem hpc _ hfresh => exact h.alloc hpc hfresh
  | hookAlloc ctx hpc => exact h.hookAlloc hsafe ctx hpc
  | inPlace hpc _ => exact h.inPlace hpc
  | moved newMem hpc hne _ hfresh => exact h.moved hpc hne hfresh
  | hookUpdateSize hpc => exact h.hookUpdateSize hpc
  | @hookReallocFree oldMem newMem size hpc hne =>
      refine h.hookFree hpc ?_ ?_
      · intro address hat
        simp [Pc.role, hne, hat]
      · intro recorded hnull ht hagree
        have hold : IsAt oldMem oldMem := ⟨rfl, hnull⟩
        have hnew : ¬ IsAt newMem oldMem := fun hnew => hne hnew.1
        simp only [Pc.role, if_neg hne, if_pos hold] at ht
        simp only [Pc.role, if_neg hnew]
        exact hagree.remove ht
  | munmap hpc => exact h.munmap hpc
  | @hookMunmap addr hpc =>
      refine h.hookFree hpc ?_ ?_
      · intro address hat
        simp [Pc.role, hat]
      · intro recorded hnull ht hagree
        have hat : IsAt addr addr := ⟨rfl, hnull⟩
        simp only [Pc.role, if_pos hat] at ht ⊢
        exact hagree.remove ht

/-! ## Whole runs -/

/-- Some thread takes a step that is safe in the state in which it is taken. -/
def SafeStep (s s' : Machine T U) : Prop := ∃ t, s.Safe t ∧ Step t s s'

def initial (withStorage : Bool) (unwinder : U) (timeout : Int64) (maxItems : UInt64)
    (policy : CallStackUnwindProcInfoPolicy) : Machine T U :=
  ⟨(World.initial withStorage unwinder timeout maxItems policy).engine, fun _ => none,
    fun _ => .idle⟩

theorem coherent_initial (withStorage : Bool) (unwinder : U) (timeout : Int64)
    (maxItems : UInt64) (policy : CallStackUnwindProcInfoPolicy) :
    (initial (T := T) withStorage unwinder timeout maxItems policy).Coherent :=
  ⟨_, World.refines_initial withStorage unwinder timeout maxItems policy,
    fun _ => .settled rfl rfl⟩

theorem Coherent.run {s s' : Machine T U} (h : s.Coherent)
    (hrun : Relation.ReflTransGen SafeStep s s') : s'.Coherent := by
  induction hrun with
  | refl => exact h
  | tail _ hstep ih =>
      obtain ⟨t, hsafe, hstep⟩ := hstep
      exact ih.step hsafe hstep

/-- **The records are the blocks whenever no hooked call is in progress**, however
the steps of the threads interleave, as long as no thread announces an address that
another call has released and not yet removed. -/
theorem quiescent_records_eq_blocks (withStorage : Bool) (unwinder : U) (timeout : Int64)
    (maxItems : UInt64) (policy : CallStackUnwindProcInfoPolicy) (machine : Machine T U)
    (hrun : Relation.ReflTransGen SafeStep
      (initial withStorage unwinder timeout maxItems policy) machine)
    (hquiescent : machine.Quiescent) (address : Address) :
    (machine.engine.record? address).map Record.memsize = machine.blocks address ∧
      ((machine.engine.cell address).upper = none ∨
        (machine.engine.cell address).lower = none) := by
  obtain ⟨m, hrefines, hagree⟩ :=
    (coherent_initial withStorage unwinder timeout maxItems policy).run hrun
  refine ⟨?_, (hrefines address).1⟩
  have hnone : machine.roles address = fun _ => .none :=
    funext fun t => roles_eq (hquiescent t) address
  have hget : machine.engine.record? address = m address := hrefines.get_eq address
  have hsize : m.sizes address = machine.blocks address := by
    cases hagree address with
    | settled _ hsize => exact hsize
    | alone t role hroles hsituation =>
        rw [hnone] at hroles
        have hrole := congrFun hroles t
        rw [single_apply, if_pos rfl] at hrole
        subst hrole
        exact hsituation
    | reused t t' size _ hroles =>
        rw [hnone] at hroles
        have hrole := congrFun hroles t'
        simp at hrole
  rw [hget]
  exact hsize

section Example

/-! Two threads.  The first maps 65536 and unmaps it; before it has removed the record
the second is given the same address. -/

private def clock : Context Resolver := ⟨1, [], .silent⟩

private def fresh : Machine Bool Impl.Usable :=
  initial true Impl.Usable.initial 2 1 .kFlushLocalCacheWhen

private def mapping : Machine Bool Impl.Usable := fresh.goto false (.alloc 4096)

private def announcing : Machine Bool Impl.Usable :=
  { mapping with blocks := mapping.blocks.allocated 65536 4096 }.goto false (.hookAlloc 65536 4096)

private def recorded : Machine Bool Impl.Usable :=
  { announcing with engine := announcing.engine.doHookAlloc clock 65536 4096 }.goto false .idle

private def unmapping : Machine Bool Impl.Usable := recorded.goto false (.munmap 65536)

private def unmapped : Machine Bool Impl.Usable :=
  { unmapping with blocks := unmapping.blocks.released 65536 }.goto false (.hookMunmap 65536)

private def remapping : Machine Bool Impl.Usable := unmapped.goto true (.alloc 8192)

/-- One thread is about to remove the record of 65536, the other to announce it. -/
private def racing : Machine Bool Impl.Usable :=
  { remapping with blocks := remapping.blocks.allocated 65536 8192 }.goto true
    (.hookAlloc 65536 8192)

private theorem safe_of_pc {s : Machine Bool Impl.Usable} {t : Bool} (pc : Pc) (hpc : s.pc t = pc)
    (hne : ∀ mem size, pc ≠ .hookAlloc mem size) : s.Safe t :=
  fun mem size h => absurd (hpc.symm.trans h) (hne mem size)

private theorem safe_of_roles {s : Machine Bool Impl.Usable} {t : Bool} (mem : Address)
    (size : UInt64) (hpc : s.pc t = .hookAlloc mem size)
    (hroles : ∀ t', (s.pc t').role mem ≠ .released) : s.Safe t := by
  intro mem' size' h
  obtain ⟨rfl, rfl⟩ : mem = mem' ∧ size = size' := by simpa using hpc.symm.trans h
  exact hroles

private theorem run_racing : Relation.ReflTransGen SafeStep fresh racing := by
  have hcall : SafeStep fresh mapping :=
    ⟨false, safe_of_pc .idle rfl (by simp), .call (.mmap 4096) rfl trivial⟩
  have halloc : SafeStep mapping announcing :=
    ⟨false, safe_of_pc (.alloc 4096) rfl (by simp), .alloc 65536 rfl (by decide) rfl⟩
  have hannounce : SafeStep announcing recorded :=
    ⟨false, safe_of_roles 65536 4096 rfl (by decide), .hookAlloc clock rfl⟩
  have hunmap : SafeStep recorded unmapping := by
    refine ⟨false, safe_of_pc .idle rfl (by simp), .call (.munmap 65536) rfl ⟨rfl, ?_⟩⟩
    intro t
    cases t <;> exact id
  have hrelease : SafeStep unmapping unmapped :=
    ⟨false, safe_of_pc (.munmap 65536) rfl (by simp), .munmap rfl⟩
  have hremap : SafeStep unmapped remapping :=
    ⟨true, safe_of_pc .idle rfl (by simp), .call (.mmap 8192) rfl trivial⟩
  have hreuse : SafeStep remapping racing :=
    ⟨true, safe_of_pc (.alloc 8192) rfl (by simp), .alloc 65536 rfl (by decide) rfl⟩
  exact .tail (.tail (.tail (.tail (.tail (.tail (.single hcall) halloc) hannounce) hunmap)
    hrelease) hremap) hreuse

/-- The record is removed in time and the new block is announced afterwards. -/
theorem quiescent_records_eq_blocks_reused :
    ∃ machine : Machine Bool Impl.Usable,
      Relation.ReflTransGen SafeStep (initial true Impl.Usable.initial 2 1 .kFlushLocalCacheWhen)
        machine ∧ machine.Quiescent ∧ machine.blocks 65536 = some 8192 ∧
      (machine.engine.record? 65536).map Record.memsize = some 8192 := by
  let removed := { racing with engine := racing.engine.doHookFree 65536 }.goto false .idle
  let machine :=
    { removed with engine := removed.engine.doHookAlloc clock 65536 8192 }.goto true .idle
  have hremove : SafeStep racing removed :=
    ⟨false, safe_of_pc (.hookMunmap 65536) rfl (by simp), .hookMunmap rfl⟩
  have hannounce : SafeStep removed machine :=
    ⟨true, safe_of_roles 65536 8192 rfl (by decide), .hookAlloc clock rfl⟩
  have hrun : Relation.ReflTransGen SafeStep fresh machine :=
    .tail (.tail run_racing hremove) hannounce
  have hquiescent : machine.Quiescent := fun t => by cases t <;> rfl
  have hblock : machine.blocks 65536 = some 8192 := by decide
  refine ⟨machine, hrun, hquiescent, hblock, ?_⟩
  exact ((quiescent_records_eq_blocks true Impl.Usable.initial 2 1 .kFlushLocalCacheWhen machine
    hrun hquiescent 65536).1).trans hblock

/-- The new block is announced first, and the late removal takes its record away. -/
theorem late_removal_forgets :
    ∃ machine : Machine Bool Impl.Usable,
      Relation.ReflTransGen (fun s s' => ∃ t, Step t s s')
        (initial true Impl.Usable.initial 2 1 .kFlushLocalCacheWhen) machine ∧
      machine.Quiescent ∧ machine.blocks 65536 = some 8192 ∧
      machine.engine.record? 65536 = none := by
  let announced :=
    { racing with engine := racing.engine.doHookAlloc clock 65536 8192 }.goto true .idle
  let machine :=
    { announced with engine := announced.engine.doHookFree 65536 }.goto false .idle
  have hannounce : Step true racing announced := .hookAlloc clock rfl
  have hremove : Step false announced machine := .hookMunmap rfl
  have hracing : Relation.ReflTransGen (fun s s' => ∃ t, Step t s s') fresh racing :=
    Relation.ReflTransGen.mono (fun _ _ ⟨t, _, hstep⟩ => ⟨t, hstep⟩) _ _ run_racing
  refine ⟨machine, .tail (.tail hracing ⟨true, hannounce⟩) ⟨false, hremove⟩, fun t => ?_,
    by decide, by decide⟩
  cases t <;> rfl

end Example

end Machine

end Memhook
