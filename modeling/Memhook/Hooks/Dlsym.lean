import Memhook.Glibc.DoSym
import Memhook.Lib.Run

/-!
# The hooks of `dlsym` and `dlvsym`

`memhook_dlsym` of `src/memhook/memhook.cpp` passes a call on to the next `dlsym`.  It cannot ask
`dlsym` for that one, so it asks `GLIBC_find_dl_symbol`, then `_dl_sym`, and keeps the answer in
`g_dl_functions.dlsym`.  `memhook_dlvsym` does the same with its own name and pointer.

The pointers are shared by all threads and read and written without a lock; a thread that finds
one null looks for itself.  A lookup is one step: the marks it leaves are all it changes, and no
lookup reads them.  `GLIBC_find_dl_symbol` is asked on behalf of `libmemhook`, but `_dl_sym` on
behalf of whoever called the hook, so that calls from different objects may get different answers
from it; the pointer keeps what the first of them was told.

`plain asker` is the hook without the pointer, with the lookup made for the call `asker`.  Every
call in every interleaving returns what `plain asker` returns for one of the calls made so far,
after at most six steps of its own thread.  Where `GLIBC_find_dl_symbol` finds the function, or
`_dl_sym` tells all callers the same, it is no matter for whom the lookup was made.

What the functions at an address do is a parameter, and so is `_dl_sym`.  Log output is left out.
-/

namespace Memhook

/-- The two hooks. -/
inductive DlHook
  | dlsym
  | dlvsym
  deriving DecidableEq

/-- The name under which a hook looks for the next function. -/
def DlHook.name : DlHook → CString
  | dlsym => ⟨[100, 108, 115, 121, 109], by decide⟩
  | dlvsym => ⟨[100, 108, 118, 115, 121, 109], by decide⟩

/-- The arguments of a call; `dlsym` has no version. -/
structure DlQuery (p : ElfPlatform) where
  handle : BitVec p.native.bits
  name : CString
  version : Option CString

/-- A call of a hook, and `MEMHOOK_RETURN_ADDRESS(0)` in it. -/
structure DlCall (p : ElfPlatform) where
  hook : DlHook
  query : DlQuery p
  returnAddress : BitVec p.native.bits

/-- `RTLD_NEXT`, which is minus one. -/
def rtldNext (p : ElfPlatform) : BitVec p.native.bits := BitVec.allOnes _

/-- A call of a hook for the next function of its own name. -/
def DlCall.IsSelf {p : ElfPlatform} (call : DlCall p) : Prop :=
  call.query.handle = rtldNext p ∧ call.query.name = call.hook.name

instance {p : ElfPlatform} (call : DlCall p) : Decidable call.IsSelf :=
  inferInstanceAs (Decidable (_ ∧ _))

/-- What the hooks use of the process.  `who` is an address in `libmemhook`. -/
structure DynamicLinker (p : ElfPlatform) (M : Type*) extends LinkedProcess p M where
  who : BitVec p.native.bits
  /-- `_dl_sym(RTLD_NEXT, name, caller)` for the name of a hook. -/
  dlSymNext : DlHook → BitVec p.native.bits → BitVec p.native.bits
  /-- `_dl_sym` and `_dl_vsym` with the arguments and the return address of a call. -/
  dlSym : DlCall p → BitVec p.native.bits
  /-- What the function at an address returns to `libmemhook`. -/
  invoke : BitVec p.native.bits → DlQuery p → BitVec p.native.bits
  /-- `&memhook_dlsym` and `&memhook_dlvsym`. -/
  self : DlHook → BitVec p.native.bits

/-- Where a thread is in its call. -/
inductive DlPc (p : ElfPlatform)
  | idle
  | entered (call : DlCall p)
  | checking (call : DlCall p)
  | finding (call : DlCall p)
  | fallingBack (call : DlCall p)
  | storing (call : DlCall p) (fn : BitVec p.native.bits)
  | invoking (call : DlCall p)

/-- A call that has returned. -/
structure DlReturn (p : ElfPlatform) (T : Type*) where
  thread : T
  call : DlCall p
  result : BitVec p.native.bits

/-- The pointers, the marks of the maps, and the threads with their hook depths.  The calls made
and the calls returned are kept in their order. -/
structure DlMachine (p : ElfPlatform) (M T : Type*) where
  cached : DlHook → BitVec p.native.bits
  maps : M → LinkMap p M
  pc : T → DlPc p
  hookDepth : T → ℤ
  called : List (DlCall p)
  returned : List (DlReturn p T)

/-- A thread that is idle calls a hook, or a thread goes on. -/
inductive DlEvent (p : ElfPlatform) (T : Type*)
  | call (t : T) (call : DlCall p)
  | step (t : T)

/-- The event is a step of the thread. -/
def DlEvent.isStepOf {p : ElfPlatform} {T : Type*} [DecidableEq T] (t : T) : DlEvent p T → Bool
  | call _ _ => false
  | step u => u = t

namespace DlMachine

variable {p : ElfPlatform} {M T : Type*} [DecidableEq M] [Fintype M] [DecidableEq T]

def goto (machine : DlMachine p M T) (t : T) (pc : DlPc p) : DlMachine p M T :=
  { machine with pc := Function.update machine.pc t pc }

/-- `NoHook` is constructed or destroyed. -/
def addDepth (machine : DlMachine p M T) (t : T) (d : ℤ) : DlMachine p M T :=
  { machine with hookDepth := Function.update machine.hookDepth t (machine.hookDepth t + d) }

def ret (machine : DlMachine p M T) (t : T) (call : DlCall p) (result : BitVec p.native.bits) :
    DlMachine p M T :=
  { machine with returned := machine.returned ++ [DlReturn.mk t call result] }.goto t .idle

omit [DecidableEq M] [Fintype M] in
@[simp] theorem goto_pc_self (machine : DlMachine p M T) (t : T) (pc : DlPc p) :
    (machine.goto t pc).pc t = pc :=
  Function.update_self ..

omit [DecidableEq M] [Fintype M] in
@[simp] theorem ret_pc_self (machine : DlMachine p M T) (t : T) (call : DlCall p)
    (result : BitVec p.native.bits) : (machine.ret t call result).pc t = .idle :=
  Function.update_self ..

omit [DecidableEq M] [Fintype M] in
@[simp] theorem goto_returned (machine : DlMachine p M T) (t : T) (pc : DlPc p) :
    (machine.goto t pc).returned = machine.returned :=
  rfl

omit [DecidableEq M] [Fintype M] in
@[simp] theorem ret_returned (machine : DlMachine p M T) (t : T) (call : DlCall p)
    (result : BitVec p.native.bits) :
    (machine.ret t call result).returned = machine.returned ++ [DlReturn.mk t call result] :=
  rfl

/-- The next step of a thread.  There is none while a lookup does not end. -/
def stepOf (linker : DynamicLinker p M) (machine : DlMachine p M T) (t : T) : DlMachine p M T :=
  match machine.pc t with
  | .idle => machine
  | .entered call =>
      if call.IsSelf then machine.ret t call (linker.self call.hook)
      else (machine.addDepth t 1).goto t (.checking call)
  | .checking call =>
      if machine.cached call.hook = 0#_ then machine.goto t (.finding call)
      else machine.goto t (.invoking call)
  | .finding call =>
      match ({ linker.toLinkedProcess with maps := machine.maps }).doSym call.hook.name
        linker.who with
      | none => machine
      | some (fn, maps) =>
          { machine with maps }.goto t (if fn = 0#_ then .fallingBack call else .storing call fn)
  | .fallingBack call =>
      let fn := linker.dlSymNext call.hook call.returnAddress
      if fn = 0#_ then (machine.addDepth t (-1)).ret t call (linker.dlSym call)
      else machine.goto t (.storing call fn)
  | .storing call fn =>
      { machine with cached := Function.update machine.cached call.hook fn }.goto t
        (.invoking call)
  | .invoking call =>
      (machine.addDepth t (-1)).ret t call (linker.invoke (machine.cached call.hook) call.query)

def step (linker : DynamicLinker p M) (machine : DlMachine p M T) :
    DlEvent p T → DlMachine p M T
  | .call t call =>
      match machine.pc t with
      | .idle => { machine with called := machine.called ++ [call] }.goto t (.entered call)
      | _ => machine
  | .step t => machine.stepOf linker t

def initial (linker : DynamicLinker p M) (hookDepth : T → ℤ) : DlMachine p M T where
  cached _ := 0#_
  maps := linker.maps
  pc _ := .idle
  hookDepth := hookDepth
  called := []
  returned := []

end DlMachine

/-! ## The hook without the pointer -/

namespace DynamicLinker

variable {p : ElfPlatform} {M : Type*} [DecidableEq M]

/-- The next function of a hook's name, looked up for a call of the hook. -/
def nextOf (linker : DynamicLinker p M) (symbias : M → ℕ) (caller l : M) (asker : DlCall p) :
    BitVec p.native.bits :=
  let fn := linker.nextFunction symbias asker.hook.name caller l
  if fn = 0#_ then linker.dlSymNext asker.hook asker.returnAddress else fn

/-- What a call returns if the next function is looked up for `asker`. -/
def plain (linker : DynamicLinker p M) (symbias : M → ℕ) (caller l : M) (asker call : DlCall p) :
    BitVec p.native.bits :=
  if call.IsSelf then linker.self call.hook
  else if linker.nextOf symbias caller l asker = 0#_ then linker.dlSym call
  else linker.invoke (linker.nextOf symbias caller l asker) call.query

variable {linker : DynamicLinker p M} {symbias : M → ℕ} {caller l : M} {asker call : DlCall p}

/-- For whom the next function is looked up matters only to `_dl_sym`. -/
theorem plain_eq_of_same (hhook : asker.hook = call.hook)
    (h : linker.nextFunction symbias call.hook.name caller l ≠ 0#_ ∨
      linker.dlSymNext call.hook asker.returnAddress =
        linker.dlSymNext call.hook call.returnAddress) :
    linker.plain symbias caller l asker call = linker.plain symbias caller l call call := by
  have hnextOf : linker.nextOf symbias caller l asker = linker.nextOf symbias caller l call := by
    unfold nextOf
    rw [hhook]
    rcases h with hfound | hsame
    · rw [if_neg hfound, if_neg hfound]
    · rw [hsame]
  unfold plain
  rw [hnextOf]

end DynamicLinker

namespace DlPc

/-- How many steps the call has left at most. -/
def work {p : ElfPlatform} : DlPc p → ℕ
  | idle => 0
  | invoking _ => 1
  | storing _ _ => 2
  | fallingBack _ => 3
  | finding _ => 4
  | checking _ => 5
  | entered _ => 6

/-- The call a thread is in. -/
def call? {p : ElfPlatform} : DlPc p → Option (DlCall p)
  | idle => none
  | entered call | checking call | finding call | fallingBack call | storing call _
  | invoking call => some call

/-- The `NoHook` of the call is there. -/
def inside {p : ElfPlatform} : DlPc p → ℤ
  | idle | entered _ => 0
  | _ => 1

variable {p : ElfPlatform} {M : Type*} [DecidableEq M]

/-- What a thread knows in the middle of a call. -/
def Holds (linker : DynamicLinker p M) (symbias : M → ℕ) (caller l : M)
    (cached : DlHook → BitVec p.native.bits) : DlPc p → Prop
  | idle | entered _ => True
  | checking call | finding call => ¬ call.IsSelf
  | fallingBack call =>
      ¬ call.IsSelf ∧ linker.nextFunction symbias call.hook.name caller l = 0#_
  | storing call fn => ¬ call.IsSelf ∧ fn = linker.nextOf symbias caller l call ∧ fn ≠ 0#_
  | invoking call => ¬ call.IsSelf ∧ cached call.hook ≠ 0#_

end DlPc

namespace DlMachine

variable {p : ElfPlatform} {M T : Type*} [DecidableEq M] [DecidableEq T]
  {linker : DynamicLinker p M} {symbias : M → ℕ} {caller l : M} {hookDepth : T → ℤ}
  {machine : DlMachine p M T} {t : T}

variable (linker symbias caller l) in
/-- A function that a call of the hook found, or was told. -/
def Found (called : List (DlCall p)) (hook : DlHook) (fn : BitVec p.native.bits) : Prop :=
  ∃ asker ∈ called, asker.hook = hook ∧ fn = linker.nextOf symbias caller l asker

variable (linker symbias caller l) in
/-- What has returned is what `plain` returns for one of the calls of the hook. -/
def Explained (called : List (DlCall p)) (reply : DlReturn p T) : Prop :=
  ∃ asker ∈ called, asker.hook = reply.call.hook ∧
    reply.result = linker.plain symbias caller l asker reply.call

omit [DecidableEq T] in
theorem Explained.mono {called : List (DlCall p)} {reply : DlReturn p T}
    (h : Explained linker symbias caller l called reply) (other : DlCall p) :
    Explained linker symbias caller l (called ++ [other]) reply := by
  obtain ⟨asker, hasker, hreply⟩ := h
  exact ⟨asker, List.mem_append_left _ hasker, hreply⟩

variable (linker symbias caller l hookDepth) in
/-- A pointer is null or what a call found, each thread knows what it needs, and what has returned
is what `plain` returns. -/
structure Sound (machine : DlMachine p M T) : Prop where
  maps : LinkedProcess.SameTables linker.maps machine.maps
  cached : ∀ hook, machine.cached hook = 0#_ ∨
    Found linker symbias caller l machine.called hook (machine.cached hook)
  pcs : ∀ t, (machine.pc t).Holds linker symbias caller l machine.cached
  made : ∀ t, ∀ call ∈ (machine.pc t).call?, call ∈ machine.called
  depths : ∀ t, machine.hookDepth t = hookDepth t + (machine.pc t).inside
  returned : ∀ reply ∈ machine.returned, Explained linker symbias caller l machine.called reply

omit [DecidableEq T] in
theorem sound_initial : Sound linker symbias caller l hookDepth (initial linker hookDepth) where
  maps := LinkedProcess.sameTables_refl _
  cached _ := .inl rfl
  pcs _ := trivial
  made _ _ hcall := nomatch hcall
  depths _ := (add_zero _).symm
  returned _ hreply := absurd hreply List.not_mem_nil

/-- A thread goes on without touching the pointers. -/
theorem Sound.goto (h : Sound linker symbias caller l hookDepth machine) {pc : DlPc p} {d : ℤ}
    {returned : List (DlReturn p T)} {maps : M → LinkMap p M}
    (hmaps : LinkedProcess.SameTables linker.maps maps)
    (hpc : pc.Holds linker symbias caller l machine.cached)
    (hmade : ∀ call ∈ pc.call?, call ∈ machine.called)
    (hdepth : (machine.pc t).inside + d = pc.inside)
    (hreturned : ∀ reply ∈ returned, Explained linker symbias caller l machine.called reply) :
    Sound linker symbias caller l hookDepth
      (({ machine with maps, returned }.addDepth t d).goto t pc) where
  maps := hmaps
  cached := h.cached
  pcs u := by
    by_cases hu : u = t
    · subst hu
      simpa [DlMachine.goto, addDepth] using hpc
    · simpa [DlMachine.goto, addDepth, hu] using h.pcs u
  made u := by
    by_cases hu : u = t
    · subst hu
      simpa [DlMachine.goto, addDepth] using hmade
    · simpa [DlMachine.goto, addDepth, hu] using h.made u
  depths u := by
    by_cases hu : u = t
    · subst hu
      simp [DlMachine.goto, addDepth, h.depths, ← hdepth, add_assoc]
    · simpa [DlMachine.goto, addDepth, hu] using h.depths u
  returned := hreturned

omit [DecidableEq M] in
@[simp] theorem addDepth_zero (machine : DlMachine p M T) (t : T) :
    machine.addDepth t 0 = machine := by
  simp [addDepth]

theorem Sound.found (h : Sound linker symbias caller l hookDepth machine) {pc : DlPc p}
    {maps : M → LinkMap p M} (hmaps : LinkedProcess.SameTables linker.maps maps)
    (hpc : pc.Holds linker symbias caller l machine.cached)
    (hcall : pc.call? = (machine.pc t).call?) (hdepth : (machine.pc t).inside = pc.inside) :
    Sound linker symbias caller l hookDepth ({ machine with maps }.goto t pc) := by
  have hmade : ∀ call ∈ pc.call?, call ∈ machine.called := hcall ▸ h.made t
  have hgoto := h.goto (d := 0) hmaps hpc hmade (by rw [hdepth, add_zero]) h.returned
  rwa [addDepth_zero] at hgoto

theorem Sound.stay (h : Sound linker symbias caller l hookDepth machine) {pc : DlPc p}
    (hpc : pc.Holds linker symbias caller l machine.cached)
    (hcall : pc.call? = (machine.pc t).call?) (hdepth : (machine.pc t).inside = pc.inside) :
    Sound linker symbias caller l hookDepth (machine.goto t pc) :=
  h.found h.maps hpc hcall hdepth

/-- The call returns. -/
theorem Sound.ret (h : Sound linker symbias caller l hookDepth machine) {call : DlCall p}
    {result : BitVec p.native.bits} {d : ℤ} (hdepth : (machine.pc t).inside + d = 0)
    (hresult : Explained linker symbias caller l machine.called (DlReturn.mk t call result)) :
    Sound linker symbias caller l hookDepth ((machine.addDepth t d).ret t call result) := by
  have hidle : (DlPc.idle : DlPc p).Holds linker symbias caller l machine.cached := trivial
  have hmade : ∀ call ∈ (DlPc.idle : DlPc p).call?, call ∈ machine.called :=
    fun _ hcall => nomatch hcall
  have hreturned : ∀ reply ∈ machine.returned ++ [DlReturn.mk t call result],
      Explained linker symbias caller l machine.called reply := by
    intro reply hreply
    rcases List.mem_append.mp hreply with hold | hnew
    · exact h.returned reply hold
    · rw [List.mem_singleton.mp hnew]
      exact hresult
  exact h.goto h.maps hidle hmade hdepth hreturned

omit [DecidableEq T] in
/-- A pointer is set.  Whoever is about to use it finds a function as before. -/
theorem Sound.store (h : Sound linker symbias caller l hookDepth machine) {hook : DlHook}
    {fn : BitVec p.native.bits} (hfn : Found linker symbias caller l machine.called hook fn)
    (hne : fn ≠ 0#_) :
    Sound linker symbias caller l hookDepth
      { machine with cached := Function.update machine.cached hook fn } where
  maps := h.maps
  cached other := by
    by_cases hother : other = hook
    · subst hother
      simpa using .inr hfn
    · simpa [hother] using h.cached other
  pcs u := by
    have hholds := h.pcs u
    show (machine.pc u).Holds linker symbias caller l (Function.update machine.cached hook fn)
    cases hpc : machine.pc u with
    | invoking call =>
        rw [hpc] at hholds
        obtain ⟨hself, hnull⟩ := hholds
        by_cases hother : call.hook = hook
        · exact ⟨hself, by simpa [hother] using hne⟩
        · exact ⟨hself, by simpa [hother] using hnull⟩
    | _ =>
        rw [hpc] at hholds
        exact hholds
  made := h.made
  depths := h.depths
  returned := h.returned

variable [Fintype M]

omit [DecidableEq T] in
/-- A lookup finds the next function, whatever the marks of the lookups before it are. -/
theorem Sound.lookup (h : Sound linker symbias caller l hookDepth machine)
    (hask : linker.MayAsk symbias linker.who caller l) (hook : DlHook) :
    ∃ maps, ({ linker.toLinkedProcess with maps := machine.maps }).doSym hook.name linker.who =
        some (linker.nextFunction symbias hook.name caller l, maps) ∧
      LinkedProcess.SameTables linker.maps maps := by
  have hlookup := (hask.same h.maps).doSym_eq hook.name
  rw [LinkedProcess.nextFunction_same h.maps] at hlookup
  exact ⟨_, hlookup, h.maps.of_reply (linearSearch machine.maps symbias hook.name
    (linker.lLocalScope l) (some caller))⟩

/-- One step of a thread. -/
theorem Sound.stepOf (h : Sound linker symbias caller l hookDepth machine)
    (hask : linker.MayAsk symbias linker.who caller l) (t : T) :
    Sound linker symbias caller l hookDepth (machine.stepOf linker t) := by
  have hholds := h.pcs t
  have hmade := h.made t
  unfold DlMachine.stepOf
  cases hpc : machine.pc t with
  | idle => exact h
  | entered call =>
      rw [hpc] at hmade
      dsimp only
      split
      · next hself =>
          have hret : Sound linker symbias caller l hookDepth
              ((machine.addDepth t 0).ret t call (linker.self call.hook)) :=
            h.ret (by rw [hpc]; rfl)
              ⟨call, hmade call rfl, rfl, by rw [DynamicLinker.plain, if_pos hself]⟩
          rwa [addDepth_zero] at hret
      · next hself => exact h.goto h.maps hself hmade (by rw [hpc]; rfl) h.returned
  | checking call =>
      rw [hpc] at hholds
      dsimp only
      split
      · exact h.stay hholds (by rw [hpc]; rfl) (by rw [hpc]; rfl)
      · next hnull => exact h.stay ⟨hholds, hnull⟩ (by rw [hpc]; rfl) (by rw [hpc]; rfl)
  | finding call =>
      rw [hpc] at hholds
      obtain ⟨maps, hlookup, hmaps⟩ := h.lookup hask call.hook
      dsimp only
      rw [hlookup]
      dsimp only
      split
      · next hnull => exact h.found hmaps ⟨hholds, hnull⟩ (by rw [hpc]; rfl) (by rw [hpc]; rfl)
      · next hnull =>
          refine h.found hmaps ⟨hholds, ?_, hnull⟩ (by rw [hpc]; rfl) (by rw [hpc]; rfl)
          rw [DynamicLinker.nextOf, if_neg hnull]
  | fallingBack call =>
      rw [hpc] at hholds hmade
      obtain ⟨hself, hnext⟩ := hholds
      have hnextOf : linker.nextOf symbias caller l call =
          linker.dlSymNext call.hook call.returnAddress := by
        rw [DynamicLinker.nextOf, if_pos hnext]
      dsimp only
      split
      · next hnull =>
          refine h.ret (by rw [hpc]; rfl) ⟨call, hmade call rfl, rfl, ?_⟩
          rw [DynamicLinker.plain, if_neg hself, if_pos (hnextOf.trans hnull)]
      · next hnull =>
          exact h.stay ⟨hself, hnextOf.symm, hnull⟩ (by rw [hpc]; rfl) (by rw [hpc]; rfl)
  | storing call fn =>
      rw [hpc] at hholds hmade
      obtain ⟨hself, hfn, hnull⟩ := hholds
      have hstored := h.store ⟨call, hmade call rfl, rfl, hfn⟩ hnull
      refine hstored.stay ⟨hself, by simpa using hnull⟩ ?_ ?_
      · show _ = (machine.pc t).call?
        rw [hpc]
        rfl
      · show (machine.pc t).inside = _
        rw [hpc]
        rfl
  | invoking call =>
      rw [hpc] at hholds
      obtain ⟨hself, hnull⟩ := hholds
      obtain ⟨asker, hasker, hhook, hcached⟩ := (h.cached call.hook).resolve_left hnull
      refine h.ret (by rw [hpc]; rfl) ⟨asker, hasker, hhook, ?_⟩
      rw [DynamicLinker.plain, if_neg hself, if_neg (hcached ▸ hnull), hcached]

omit [Fintype M] in
/-- A thread that is idle makes a call. -/
theorem Sound.call (h : Sound linker symbias caller l hookDepth machine)
    (hidle : machine.pc t = .idle) (call : DlCall p) :
    Sound linker symbias caller l hookDepth
      ({ machine with called := machine.called ++ [call] }.goto t (.entered call)) := by
  have hcalled : Sound linker symbias caller l hookDepth
      { machine with called := machine.called ++ [call] } := by
    refine ⟨h.maps, fun hook => ?_, h.pcs, fun u other hother => ?_, h.depths,
      fun reply hreply => ?_⟩
    · rcases h.cached hook with hnull | ⟨asker, hasker, hfound⟩
      · exact .inl hnull
      · exact .inr ⟨asker, List.mem_append_left _ hasker, hfound⟩
    · exact List.mem_append_left _ (h.made u other hother)
    · exact (h.returned reply hreply).mono call
  have hmade : ∀ other ∈ (DlPc.entered call).call?, other ∈ machine.called ++ [call] := by
    intro other hother
    rw [DlPc.call?, Option.mem_some] at hother
    exact List.mem_append_right _ (List.mem_singleton.mpr hother.symm)
  have hholds : (DlPc.entered call).Holds linker symbias caller l machine.cached := trivial
  have hinside : (machine.pc t).inside + 0 = (DlPc.entered call).inside := by
    rw [hidle]
    rfl
  have hgoto := hcalled.goto h.maps hholds hmade hinside hcalled.returned
  rwa [addDepth_zero] at hgoto

theorem Sound.step (h : Sound linker symbias caller l hookDepth machine)
    (hask : linker.MayAsk symbias linker.who caller l) (event : DlEvent p T) :
    Sound linker symbias caller l hookDepth (machine.step linker event) := by
  cases event with
  | call t call =>
      unfold DlMachine.step
      dsimp only
      split
      · next hidle => exact h.call hidle call
      · exact h
  | step t => exact h.stepOf hask t

theorem Sound.run (h : Sound linker symbias caller l hookDepth machine)
    (hask : linker.MayAsk symbias linker.who caller l) (events : List (DlEvent p T)) :
    Sound linker symbias caller l hookDepth (events.foldl (DlMachine.step linker) machine) :=
  Run.invariant (P := fun _ _ => True) (fun h _ => h.step hask _) h
    (.of_forall fun _ _ => trivial)

/-! ## A call returns -/

/-- A step leaves the other threads where they are and takes no return back. -/
theorem stepOf_frame (linker : DynamicLinker p M) (machine : DlMachine p M T) (t : T) :
    (∀ u, u ≠ t → (machine.stepOf linker t).pc u = machine.pc u) ∧
      machine.returned <+: (machine.stepOf linker t).returned := by
  have hgoto : ∀ (next : DlMachine p M T) (pc : DlPc p), next.pc = machine.pc →
      machine.returned <+: next.returned →
      (∀ u, u ≠ t → (next.goto t pc).pc u = machine.pc u) ∧
        machine.returned <+: (next.goto t pc).returned := by
    intro next pc hpc hreturned
    refine ⟨fun u hu => ?_, hreturned⟩
    rw [← hpc]
    exact Function.update_of_ne hu ..
  unfold stepOf
  split
  · exact ⟨fun _ _ => rfl, List.prefix_rfl⟩
  · split
    · exact hgoto _ _ rfl (List.prefix_append ..)
    · exact hgoto _ _ rfl List.prefix_rfl
  · split <;> exact hgoto _ _ rfl List.prefix_rfl
  · split
    · exact ⟨fun _ _ => rfl, List.prefix_rfl⟩
    · exact hgoto _ _ rfl List.prefix_rfl
  · dsimp only
    split
    · exact hgoto _ _ rfl (List.prefix_append ..)
    · exact hgoto _ _ rfl List.prefix_rfl
  · exact hgoto _ _ rfl List.prefix_rfl
  · exact hgoto _ _ rfl (List.prefix_append ..)

/-- A thread in a call is nearer to its end, or the call has returned. -/
def Advances (machine next : DlMachine p M T) (t : T) : Prop :=
  ∀ call, (machine.pc t).call? = some call →
    ((next.pc t).call? = some call ∧ (next.pc t).work < (machine.pc t).work) ∨
      ∃ result, next.returned = machine.returned ++ [DlReturn.mk t call result]

/-- A step of a thread takes its call on, since a lookup ends. -/
theorem Sound.advances (h : Sound linker symbias caller l hookDepth machine)
    (hask : linker.MayAsk symbias linker.who caller l) (t : T) :
    machine.Advances (machine.stepOf linker t) t := by
  unfold DlMachine.stepOf
  cases hpc : machine.pc t with
  | finding call =>
      obtain ⟨maps, hlookup, -⟩ := h.lookup hask call.hook
      dsimp only
      rw [hlookup]
      dsimp only
      split <;> simp [Advances, hpc, DlPc.call?, DlPc.work]
  | idle | storing _ _ | invoking _ => simp [Advances, addDepth, hpc, DlPc.call?, DlPc.work]
  | entered _ | checking _ | fallingBack _ =>
      dsimp only
      split <;> simp [Advances, addDepth, hpc, DlPc.call?, DlPc.work]

/-- Beyond `old` returns, the call has returned to its thread, or the thread needs `n` more steps
at most. -/
def Pending (machine : DlMachine p M T) (old : ℕ) (t : T) (call : DlCall p) (n : ℕ) : Prop :=
  old ≤ machine.returned.length ∧
    ((∃ result, DlReturn.mk t call result ∈ machine.returned.drop old) ∨
      ((machine.pc t).call? = some call ∧ (machine.pc t).work ≤ n))

variable {call : DlCall p} {old n : ℕ}

omit [DecidableEq M] [DecidableEq T] [Fintype M] in
theorem Pending.of_returned {next : DlMachine p M T}
    (h : ∃ result, DlReturn.mk t call result ∈ machine.returned.drop old)
    (hold : old ≤ machine.returned.length) (hreturned : machine.returned <+: next.returned) :
    next.Pending old t call n := by
  obtain ⟨result, hback⟩ := h
  obtain ⟨more, hmore⟩ := hreturned
  refine ⟨?_, .inl ⟨result, ?_⟩⟩
  · rw [← hmore, List.length_append]
    omega
  · rw [← hmore, List.drop_append_of_le_length hold]
    exact List.mem_append_left _ hback

omit [DecidableEq M] [DecidableEq T] [Fintype M] in
/-- Whatever leaves the thread alone leaves its call pending. -/
theorem Pending.frame {next : DlMachine p M T} (h : machine.Pending old t call n)
    (hpc : next.pc t = machine.pc t) (hreturned : machine.returned <+: next.returned) :
    next.Pending old t call n := by
  obtain ⟨hold, hback | ⟨hcall, hwork⟩⟩ := h
  · exact .of_returned hback hold hreturned
  · exact ⟨hold.trans hreturned.length_le, .inr ⟨by rw [hpc, hcall], by rw [hpc]; exact hwork⟩⟩

/-- A step of the thread itself. -/
theorem Pending.stepOf_self (h : machine.Pending old t call (n + 1))
    (hsound : Sound linker symbias caller l hookDepth machine)
    (hask : linker.MayAsk symbias linker.who caller l) :
    (machine.stepOf linker t).Pending old t call n := by
  have hreturned := (stepOf_frame linker machine t).2
  obtain ⟨hold, hback | ⟨hcall, hwork⟩⟩ := h
  · exact .of_returned hback hold hreturned
  · refine ⟨hold.trans hreturned.length_le, ?_⟩
    rcases hsound.advances hask t _ hcall with ⟨hsame, hless⟩ | ⟨result, hback⟩
    · exact .inr ⟨hsame, by omega⟩
    · refine .inl ⟨result, ?_⟩
      rw [hback, List.drop_append_of_le_length hold]
      exact List.mem_append_right _ (List.mem_singleton_self _)

/-- An event that is no step of the thread.  A thread that is in a call makes no other. -/
theorem Pending.step_other (h : machine.Pending old t call n) {event : DlEvent p T}
    (hevent : event.isStepOf t = false) : (machine.step linker event).Pending old t call n := by
  cases event with
  | step u =>
      have hne : t ≠ u := fun heq => by simp [DlEvent.isStepOf, heq] at hevent
      obtain ⟨hpc, hreturned⟩ := stepOf_frame linker machine u
      exact h.frame (hpc t hne) hreturned
  | call u other =>
      unfold DlMachine.step
      dsimp only
      split
      · next hidle =>
          obtain ⟨hold, hback | ⟨hcall, hwork⟩⟩ := h
          · exact .of_returned hback hold List.prefix_rfl
          · have hne : t ≠ u := by
              rintro rfl
              simp [hidle, DlPc.call?] at hcall
            have hpc : ({ machine with called := machine.called ++ [other] }.goto u
                (.entered other)).pc t = machine.pc t := Function.update_of_ne hne ..
            exact ⟨hold, .inr ⟨by rw [hpc, hcall], by rw [hpc]; exact hwork⟩⟩
      · exact h

theorem Pending.run {events : List (DlEvent p T)} (h : machine.Pending old t call n)
    (hsound : Sound linker symbias caller l hookDepth machine)
    (hask : linker.MayAsk symbias linker.who caller l)
    (hsteps : n ≤ events.countP (DlEvent.isStepOf t)) :
    (events.foldl (DlMachine.step linker) machine).Pending old t call 0 := by
  induction events generalizing machine n with
  | nil =>
      obtain rfl : n = 0 := Nat.le_zero.mp hsteps
      exact h
  | cons event rest ih =>
      have hnext := hsound.step hask event
      cases hevent : event.isStepOf t with
      | false =>
          rw [List.countP_cons_of_neg (by simp [hevent])] at hsteps
          exact ih (h.step_other hevent) hnext hsteps
      | true =>
          rw [List.countP_cons_of_pos hevent] at hsteps
          cases event with
          | call u other => simp [DlEvent.isStepOf] at hevent
          | step u =>
              obtain rfl : u = t := by simpa [DlEvent.isStepOf] using hevent
              have hmore : machine.Pending old u call (n - 1 + 1) := by
                obtain ⟨hold, hback | ⟨hcall, hwork⟩⟩ := h
                · exact ⟨hold, .inl hback⟩
                · exact ⟨hold, .inr ⟨hcall, by omega⟩⟩
              exact ih (hmore.stepOf_self hsound hask) hnext (by omega)

omit [DecidableEq M] [DecidableEq T] [Fintype M] in
/-- With no step left the call has returned. -/
theorem Pending.returned (h : machine.Pending old t call 0) :
    ∃ result, DlReturn.mk t call result ∈ machine.returned.drop old := by
  obtain ⟨-, hback | ⟨hcall, hwork⟩⟩ := h
  · exact hback
  · cases hpc : machine.pc t <;> simp [hpc, DlPc.call?, DlPc.work] at hcall hwork

/-- **The hooks of `dlsym` and `dlvsym` are transparent.**  However the threads are interleaved,
every call that has returned returned what the hook without the pointer returns if it looks the
next function up for one of the calls of this hook made so far, although the threads race for the
pointers.  It is what it returns if it looks the function up for the call itself, where
`GLIBC_find_dl_symbol` finds the function or `_dl_sym` tells all these callers the same.  A
pointer is null or the next function looked up for one of the calls, and a thread outside is
hooked as deep as before.  A call needs six steps of its own thread at most, whatever the others
do. -/
theorem dlsym_transparent (hask : linker.MayAsk symbias linker.who caller l)
    (hookDepth : T → ℤ) (events : List (DlEvent p T)) :
    let machine := events.foldl (DlMachine.step linker) (initial linker hookDepth)
    (∀ reply ∈ machine.returned, ∃ asker ∈ machine.called, asker.hook = reply.call.hook ∧
        reply.result = linker.plain symbias caller l asker reply.call) ∧
      (∀ reply ∈ machine.returned,
        (linker.nextFunction symbias reply.call.hook.name caller l ≠ 0#_ ∨
          ∀ asker ∈ machine.called, asker.hook = reply.call.hook →
            linker.dlSymNext reply.call.hook asker.returnAddress =
              linker.dlSymNext reply.call.hook reply.call.returnAddress) →
        reply.result = linker.plain symbias caller l reply.call reply.call) ∧
      (∀ hook, machine.cached hook = 0#_ ∨ ∃ asker ∈ machine.called, asker.hook = hook ∧
        machine.cached hook = linker.nextOf symbias caller l asker) ∧
      (∀ t, machine.pc t = .idle → machine.hookDepth t = hookDepth t) ∧
      ∀ t call later, machine.pc t = .idle → 6 ≤ later.countP (DlEvent.isStepOf t) →
        ∃ result, DlReturn.mk t call result ∈
          ((.call t call :: later).foldl (DlMachine.step linker) machine).returned.drop
            machine.returned.length := by
  intro machine
  have hsound : Sound linker symbias caller l hookDepth machine := sound_initial.run hask events
  refine ⟨hsound.returned, ?_, hsound.cached, ?_, ?_⟩
  · intro reply hreply hsame
    obtain ⟨asker, hasker, hhook, hresult⟩ := hsound.returned reply hreply
    rw [hresult]
    exact DynamicLinker.plain_eq_of_same hhook (hsame.imp_right fun h => h asker hasker hhook)
  · intro t hidle
    rw [hsound.depths t, hidle]
    exact add_zero _
  · intro t call later hidle hsteps
    have hcalled : (machine.step linker (.call t call)).pc t = .entered call := by
      simp [DlMachine.step, hidle]
    have hreturned : (machine.step linker (.call t call)).returned = machine.returned := by
      simp [DlMachine.step, hidle]
    have hpending : (machine.step linker (.call t call)).Pending machine.returned.length t call
        6 :=
      ⟨by rw [hreturned], .inr ⟨by rw [hcalled]; rfl, by rw [hcalled]; exact Nat.le_refl 6⟩⟩
    exact (hpending.run (hsound.step hask _) hask hsteps).returned

/-- The process of `librariesProcess`, which has no `dlsym` but the one of `_dl_sym`; that one
depends on who asks. -/
def sampleLinker : DynamicLinker lp64 (Fin 3) where
  toLinkedProcess := LinkedProcess.librariesProcess
  who := 0#_
  dlSymNext hook who := if hook = .dlsym ∧ who ≠ 0#_ then 0x31000#_ + who else 0#_
  dlSym call := call.query.handle
  invoke fn query := fn + query.handle
  self hook := if hook = .dlsym then 0x41000#_ else 0x42000#_

/-- A call of `dlsym` from an object. -/
def sampleCall (handle : BitVec 64) (returnAddress : BitVec 64) : DlCall lp64 :=
  ⟨.dlsym, ⟨handle, mallocName, none⟩, returnAddress⟩

/-- Two threads, called from different objects, look for `dlsym`, and both store it. -/
theorem dlsym_transparent_race :
    let begun : List (DlEvent lp64 Bool) :=
      [.call false (sampleCall 4#_ 0x200#_), .step false, .step false]
    let later : List (DlEvent lp64 Bool) :=
      [.step true, .step true, .step false, .step true, .step false, .step true, .step false,
        .step true, .step false, .step true]
    let events := begun ++ .call true (sampleCall 8#_ 0x100#_) :: later
    let final := events.foldl (DlMachine.step sampleLinker) (initial sampleLinker fun _ => 0)
    (∃ result, DlReturn.mk true (sampleCall 8#_ 0x100#_) result ∈ final.returned ∧
        (result = 0x31108#_ ∨ result = 0x31208#_)) ∧
      final.returned.map DlReturn.result = [0x31104#_, 0x31108#_] := by
  intro begun later events final
  have hask : sampleLinker.MayAsk (fun _ => 1) sampleLinker.who 0 2 := by
    refine ⟨rfl, ⟨[0, 1, 2], .step rfl (.step rfl (.last rfl)), rfl⟩, ?_,
      ⟨List.finRange 3, rfl, by decide⟩, ?_⟩
    · exact fun id _ => ⟨wellFormed_libraries _, uniqueFunctions_libraries _⟩
    · simp [sampleLinker, LinkedProcess.librariesProcess]
  have hfinal : final = (.call true (sampleCall 8#_ 0x100#_) :: later).foldl
      (DlMachine.step sampleLinker)
        (begun.foldl (DlMachine.step sampleLinker) (initial sampleLinker fun _ => 0)) :=
    List.foldl_append ..
  obtain ⟨hexplained, -⟩ := dlsym_transparent hask (fun _ : Bool => 0) events
  obtain ⟨-, -, -, -, hreturns⟩ := dlsym_transparent hask (fun _ : Bool => 0) begun
  obtain ⟨result, hresult⟩ := hreturns true (sampleCall 8#_ 0x100#_) later rfl (by decide)
  have hback : DlReturn.mk true (sampleCall 8#_ 0x100#_) result ∈ final.returned := by
    rw [hfinal]
    exact List.mem_of_mem_drop hresult
  refine ⟨⟨result, hback, ?_⟩, by decide⟩
  obtain ⟨asker, hasker, -, hplain⟩ : ∃ asker ∈ final.called, asker.hook = DlHook.dlsym ∧
      result = sampleLinker.plain (fun _ => 1) 0 2 asker (sampleCall 8#_ 0x100#_) :=
    hexplained _ hback
  have hcalled : final.called = [sampleCall 4#_ 0x200#_, sampleCall 8#_ 0x100#_] := rfl
  rw [hcalled] at hasker
  simp only [List.mem_cons, List.not_mem_nil, or_false] at hasker
  rcases hasker with rfl | rfl
  · exact .inr (hplain.trans (by decide))
  · exact .inl (hplain.trans (by decide))

end DlMachine

end Memhook
