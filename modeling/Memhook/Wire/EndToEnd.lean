import Memhook.Engine.Calls
import Memhook.Wire.Remote

/-!
# From the hooks to the server

With `MEMHOOK_NET_HOST` set the storage of the engine is a `NetworkMappedStorage`, so what the
hooks report passes through the cache of the engine, a stream of frames and the session of a
server before it is in a database.  This file puts the pieces together.

The engine never clears its storage, and what it adds can be sent: a procedure name comes from
a buffer of 1024 characters, and the other lengths are far below what the format can hold.
Both are invariants of the engine over the log of its calls (`Tame`).
-/

namespace Memhook

open MultiIndex

/-! ## Call stacks that can be sent -/

/-- What `unw_get_proc_name` leaves in a buffer of 1024 characters is shorter, and so, by far,
are paths than `2 ^ 31`. -/
structure Resolver.Bounded (resolver : Resolver) : Prop where
  unwGetProcName : ∀ ip, ∀ answer ∈ resolver.unwGetProcName ip, answer.1.length < 1024
  getProcName : ∀ ip, ∀ answer ∈ resolver.getProcName ip, answer.1.length < 1024
  dladdr : ∀ ip, ∀ info ∈ resolver.dladdr ip, ∀ path ∈ info.dliFname, path.length < 2 ^ 31

def CallStackInfoItem.Bounded (item : CallStackInfoItem) : Prop :=
  item.procname.length < 1024 ∧ item.shlPath.length < 2 ^ 31

structure CallStackInfo.Bounded (callstack : CallStackInfo) : Prop where
  length : callstack.length < 2 ^ 32
  items : ∀ item ∈ callstack, item.Bounded

theorem length_unknownTag : unknownTag.length = 9 := rfl

theorem CallStackInfoItem.Bounded.length_encode {item : CallStackInfoItem} (h : item.Bounded) :
    item.encode.length ≤ 2 ^ 31 + 1064 := by
  obtain ⟨hname, hpath⟩ := h
  simp only [encode, encodeString, List.length_append, length_encode32, length_encode64]
  omega

theorem length_flatMap_encode {callstack : CallStackInfo} (h : ∀ item ∈ callstack, item.Bounded) :
    (callstack.flatMap CallStackInfoItem.encode).length ≤ callstack.length * (2 ^ 31 + 1064) := by
  induction callstack with
  | nil => simp
  | cons item rest ih =>
      obtain ⟨hitem, hrest⟩ := List.forall_mem_cons.mp h
      have hhead := hitem.length_encode
      have htail := ih hrest
      rw [List.flatMap_cons, List.length_append, List.length_cons, Nat.succ_mul]
      omega

theorem CallStackInfo.Bounded.sendable {callstack : CallStackInfo} (h : callstack.Bounded)
    (type : NetReqType) (traceinfo : TraceInfoBase) :
    (⟨type, traceinfo, callstack⟩ : NetRequest).Sendable := by
  refine ⟨⟨h.length, fun item hitem => ?_⟩, ?_⟩
  · obtain ⟨hname, hpath⟩ := h.items item hitem
    exact ⟨by omega, by omega⟩
  · have hitems := length_flatMap_encode h.items
    have hlength : callstack.length * (2 ^ 31 + 1064) ≤ 2 ^ 32 * (2 ^ 31 + 1064) :=
      Nat.mul_le_mul_right _ h.length.le
    simp only [NetRequest.encode, TraceInfoBase.encode, List.length_append, length_encode32,
      length_encode64]
    omega

/-! ## The unwinder -/

namespace Impl

/-- Everything in the cache of the unwinder is short enough. -/
structure Bounded (impl : Impl) : Prop where
  names : ∀ info ∈ impl.procnameInfoMap, info.procname.length < 1024
  paths : ∀ shlAddr, ∀ path ∈ impl.shlPathMap shlAddr, path.length < 2 ^ 31

theorem bounded_new (cacheMaxSize : Option UInt64) : (new cacheMaxSize).Bounded :=
  ⟨by simp [new], by simp [new]⟩

end Impl

def UnwProcInfo.Bounded (info : UnwProcInfo) : Prop :=
  info.procname.length < 1024 ∧ info.shlPath.length < 2 ^ 31

namespace Impl

/-- The answers about one instruction pointer. -/
structure AnswersBounded (procName : Option (Bytes × Address)) (dlInfo : Option DlInfo) : Prop where
  name : ∀ answer ∈ procName, answer.1.length < 1024
  path : ∀ info ∈ dlInfo, ∀ path ∈ info.dliFname, path.length < 2 ^ 31

section Lookup

variable {procName : Option (Bytes × Address)} {dlInfo : Option DlInfo} {impl : Impl}
  {ip : Address}

theorem AnswersBounded.resolve (h : AnswersBounded procName dlInfo) (ip : Address) :
    (Impl.resolve procName dlInfo ip).procname.length < 1024 := by
  cases procName with
  | none => simp [Impl.resolve, length_unknownTag]
  | some answer => exact h.name answer rfl

theorem AnswersBounded.path_getD (h : AnswersBounded procName dlInfo) :
    ∀ info ∈ dlInfo, (info.dliFname.getD unknownTag).length < 2 ^ 31 := by
  intro info hinfo
  cases hfname : info.dliFname with
  | none => simp [length_unknownTag]
  | some path => exact h.path info hinfo path hfname

theorem Bounded.emplaceShlPath (h : impl.Bounded) (hanswers : AnswersBounded procName dlInfo) :
    (impl.emplaceShlPath dlInfo).Bounded := by
  cases hdlInfo : dlInfo with
  | none => exact h
  | some info =>
      refine ⟨h.names, fun shlAddr path hpath => ?_⟩
      simp only [Impl.emplaceShlPath, SymbolTable.emplace, Option.mem_def] at hpath
      split at hpath
      · -- the path that is there already, or the new one
        rcases Option.or_eq_some_iff.mp hpath with hold | ⟨-, hnew⟩
        · exact h.paths info.dliFbase path hold
        · rw [Option.some.injEq] at hnew
          exact hnew ▸ hanswers.path_getD info hdlInfo
      · exact h.paths shlAddr path hpath

theorem Bounded.hit (h : impl.Bounded) {found : UnwProcInfo × Impl}
    (hhit : impl.hit ip = some found) : found.1.Bounded ∧ found.2.Bounded := by
  refine ⟨?_, ⟨fun info hinfo => h.names info ((perm_of_hit hhit).mem_iff.mp hinfo), ?_⟩⟩
  · obtain ⟨info, hinfo, -, rfl⟩ := find?_of_hit hhit
    refine ⟨h.names info hinfo, ?_⟩
    cases hpath : impl.shlPathMap info.shlAddr with
    | none => simp [length_unknownTag]
    | some path => exact h.paths info.shlAddr path hpath
  · rw [shlPathMap_of_hit hhit]
    exact h.paths

theorem Bounded.getUnwProcInfo (h : impl.Bounded) (hanswers : AnswersBounded procName dlInfo)
    {found : UnwProcInfo × Impl} (hfound : getUnwProcInfo procName dlInfo impl ip = some found) :
    found.1.Bounded ∧ found.2.Bounded := by
  unfold Impl.getUnwProcInfo at hfound
  split at hfound
  next hit hhit =>
    rw [Option.some.injEq] at hfound
    exact hfound ▸ h.hit hhit
  next =>
    obtain ⟨evicted, hevict, rfl⟩ := Option.map_eq_some_iff.mp hfound
    have hemplaced := h.emplaceShlPath hanswers
    refine ⟨⟨hanswers.resolve ip, ?_⟩, ?_, ?_⟩
    · cases hdlInfo : dlInfo with
      | none => simp [length_unknownTag]
      | some info => exact hanswers.path_getD info hdlInfo
    · intro info hinfo
      rcases mem_of_mem_insert hinfo with hold | rfl
      · exact hemplaced.names info (mem_of_evict hevict hold)
      · exact hanswers.resolve ip
    · rw [shlPathMap_insert, shlPathMap_of_evict hevict]
      exact hemplaced.paths

end Lookup

namespace Usable

variable {resolver : Resolver} {unwinder : Usable}

theorem bounded_lookup (h : unwinder.1.Bounded) {procName : Option (Bytes × Address)}
    {dlInfo : Option DlInfo} (hanswers : AnswersBounded procName dlInfo) (ip : Address) :
    (unwinder.lookup procName dlInfo ip).1.Bounded ∧
      (unwinder.lookup procName dlInfo ip).2.1.Bounded := by
  unfold lookup
  split
  next found hfound => exact h.getUnwProcInfo hanswers hfound
  next hnone =>
    have hsome := getUnwProcInfo_isSome procName dlInfo unwinder.2 ip
    rw [hnone] at hsome
    simp at hsome

theorem bounded_unwindLoop (hresolver : resolver.Bounded) (needUnwindProcInfo : Bool)
    (frames : List Frame) (h : unwinder.1.Bounded) :
    (∀ item ∈ (unwindLoop resolver needUnwindProcInfo frames unwinder).1, item.Bounded) ∧
      (unwindLoop resolver needUnwindProcInfo frames unwinder).2.1.Bounded := by
  induction frames generalizing unwinder with
  | nil => exact ⟨by simp [unwindLoop], h⟩
  | cons frame rest ih =>
      unfold unwindLoop
      split
      · obtain ⟨hfound, hnext⟩ := bounded_lookup h
          ⟨hresolver.unwGetProcName frame.ip, hresolver.dladdr frame.ip⟩ frame.ip
        obtain ⟨hitems, hlast⟩ := ih hnext
        exact ⟨List.forall_mem_cons.mpr ⟨hfound, hitems⟩, hlast⟩
      · obtain ⟨hitems, hlast⟩ := ih h
        refine ⟨List.forall_mem_cons.mpr ⟨?_, hitems⟩, hlast⟩
        exact ⟨by simp [newItem], by simp [newItem]⟩

theorem bounded_resolveLoop (hresolver : resolver.Bounded) (callstack : CallStackInfo)
    (h : unwinder.1.Bounded) :
    (∀ item ∈ (resolveLoop resolver callstack unwinder).1, item.Bounded) ∧
      (resolveLoop resolver callstack unwinder).2.1.Bounded := by
  induction callstack generalizing unwinder with
  | nil => exact ⟨by simp [resolveLoop], h⟩
  | cons item rest ih =>
      obtain ⟨hfound, hnext⟩ := bounded_lookup h
        ⟨hresolver.getProcName item.ip, hresolver.dladdr item.ip⟩ item.ip
      obtain ⟨hitems, hlast⟩ := ih hnext
      exact ⟨List.forall_mem_cons.mpr ⟨hfound, hitems⟩, hlast⟩

theorem bounded_getCallStackInfo (hresolver : resolver.Bounded) {frames : List Frame}
    (hframes : frames.length < 2 ^ 32) (skipFrames : ℕ) (needUnwindProcInfo : Bool)
    (h : unwinder.1.Bounded) :
    let unwound := CallStackUnwinder.getCallStackInfo resolver unwinder frames skipFrames
      needUnwindProcInfo
    CallStackInfo.Bounded unwound.1 ∧ unwound.2.1.Bounded := by
  intro unwound
  obtain ⟨hitems, hlast⟩ := bounded_unwindLoop hresolver needUnwindProcInfo
    (walk frames skipFrames) h
  refine ⟨⟨?_, hitems⟩, hlast⟩
  have hwalk := congrArg List.length (CallStackUnwinder.frames_getCallStackInfo resolver unwinder
    frames skipFrames needUnwindProcInfo)
  rw [List.length_map] at hwalk
  calc unwound.1.length
      = (walk frames skipFrames).length := hwalk
    _ ≤ (frames.drop (stepsSkipped skipFrames)).length := (List.takeWhile_sublist _).length_le
    _ ≤ frames.length := by simp
    _ < 2 ^ 32 := hframes

theorem bounded_getCallStackUnwindProcInfo (hresolver : resolver.Bounded)
    {callstack : CallStackInfo} (hcallstack : callstack.Bounded) (h : unwinder.1.Bounded) :
    let resolved := CallStackUnwinder.getCallStackUnwindProcInfo resolver unwinder callstack
    CallStackInfo.Bounded resolved.1 ∧ resolved.2.1.Bounded := by
  intro resolved
  obtain ⟨hitems, hlast⟩ := bounded_resolveLoop hresolver callstack h
  refine ⟨⟨?_, hitems⟩, hlast⟩
  have hlength := congrArg List.length
    (CallStackUnwinder.frames_getCallStackUnwindProcInfo resolver unwinder callstack)
  rw [List.length_map, List.length_map] at hlength
  exact hlength ▸ hcallstack.length

end Usable

end Impl

/-! ## The calls of the engine -/

/-- What a call reads fits. -/
structure Context.Bounded (ctx : Context Resolver) : Prop where
  frames : ctx.frames.length < 2 ^ 32
  resolver : ctx.resolver.Bounded

def EngineOp.Bounded : EngineOp Resolver → Prop
  | alloc ctx _ _ => ctx.Bounded
  | realloc ctx _ _ _ => ctx.Bounded
  | _ => True

/-- A call that the server can follow. -/
def StorageCall.Followed : StorageCall → Prop
  | add _ _ callstack _ => CallStackInfo.Bounded callstack
  | clear => False
  | _ => True

theorem StorageCall.Followed.sendable {call : StorageCall} (h : call.Followed) :
    call.Sendable := by
  intro request hrequest
  cases call with
  | add address memsize callstack timestamp =>
      cases hrequest
      exact CallStackInfo.Bounded.sendable h _ _
  | clear => exact absurd h not_false
  | flush => cases hrequest
  | _ =>
      cases hrequest
      exact NetRequest.sendable_of_nil _ _

theorem clear_notMem_of_followed {calls : List StorageCall}
    (h : ∀ call ∈ calls, call.Followed) : StorageCall.clear ∉ calls := fun hclear =>
  h _ hclear

namespace Engine

/-- The engine keeps to what can be sent. -/
structure Tame (engine : Engine Impl.Usable CallLog) : Prop where
  unwinder : engine.callstackUnwinder.1.Bounded
  cached : ∀ info ∈ engine.cache.items, CallStackInfo.Bounded info.callstack
  calls : ∀ log ∈ engine.storage, ∀ call ∈ log.calls, call.Followed

section Calls

variable {engine : Engine Impl.Usable CallLog} {ctx : Context Resolver}

theorem followed_push {log : CallLog} {call : StorageCall} (hcall : call.Followed)
    (h : ∀ other ∈ log.calls, other.Followed) :
    ∀ other ∈ (log.push call).calls, other.Followed := by
  intro other hother
  rcases List.mem_append.mp hother with hother | hother
  · exact h other hother
  · rwa [List.mem_singleton.mp hother]

theorem tame_onInitialize {unwinder : Impl.Usable} (hunwinder : unwinder.1.Bounded)
    (timeout : Int64) (maxItems : UInt64) (policy : CallStackUnwindProcInfoPolicy) :
    (onInitialize (some (⟨[]⟩ : CallLog)) unwinder timeout maxItems policy).Tame where
  unwinder := hunwinder
  cached := by simp [onInitialize, Container.empty]
  calls := by simp [onInitialize]

theorem followed_dump (hresolver : ctx.resolver.Bounded) (policy : CallStackUnwindProcInfoPolicy)
    {batch : List TraceInfo} (hbatch : ∀ info ∈ batch, CallStackInfo.Bounded info.callstack)
    {unwinder : Impl.Usable} (hunwinder : unwinder.1.Bounded) {log : CallLog}
    (hlog : ∀ call ∈ log.calls, call.Followed) :
    (dump ctx.resolver policy batch unwinder log).1.1.Bounded ∧
      ∀ call ∈ (dump ctx.resolver policy batch unwinder log).2.calls, call.Followed := by
  induction batch generalizing unwinder log with
  | nil => exact ⟨hunwinder, hlog⟩
  | cons info rest ih =>
      obtain ⟨hinfo, hrest⟩ := List.forall_mem_cons.mp hbatch
      simp only [dump]
      split
      · obtain ⟨hstack, hnext⟩ :=
          Impl.Usable.bounded_getCallStackUnwindProcInfo hresolver hinfo hunwinder
        exact ih hrest hnext (followed_push hstack hlog)
      · exact ih hrest hunwinder (followed_push hinfo hlog)

theorem mem_of_mem_flushBatch {now : TimePoint} {timeout : Int64} {dumpAll : Bool}
    {info : TraceInfo} (h : info ∈ engine.flushBatch now timeout dumpAll) :
    info ∈ engine.cache.items := by
  unfold flushBatch at h
  split at h
  · exact h
  · exact (List.takeWhile_sublist _).subset (List.mem_of_mem_take h)

theorem Tame.flushLocalCache (h : engine.Tame) (hresolver : ctx.resolver.Bounded)
    (now : TimePoint) (timeout : Int64) (dumpAll : Bool) :
    (engine.flushLocalCache ctx now timeout dumpAll).Tame := by
  unfold Engine.flushLocalCache
  cases hstorage : engine.storage with
  | none => exact h
  | some log =>
      have hbatch : ∀ info ∈ engine.flushBatch now timeout dumpAll,
          CallStackInfo.Bounded info.callstack := fun info hinfo =>
        h.cached info (mem_of_mem_flushBatch hinfo)
      obtain ⟨hunwinder, hcalls⟩ := followed_dump hresolver engine.getprocinfoPolicy hbatch
        h.unwinder (h.calls log hstorage)
      refine ⟨hunwinder, fun info hinfo => h.cached info (List.mem_of_mem_drop hinfo), ?_⟩
      intro log' hlog'
      simp only [Option.mem_some_iff] at hlog'
      subst hlog'
      split
      · exact followed_push trivial hcalls
      · exact hcalls

theorem Tame.doHookAlloc (h : engine.Tame) (hctx : ctx.Bounded) (mem : Address)
    (memsize : UInt64) : (engine.doHookAlloc ctx mem memsize).Tame := by
  unfold Engine.doHookAlloc
  split
  · exact h
  · obtain ⟨hstack, hunwinder⟩ := Impl.Usable.bounded_getCallStackInfo hctx.resolver hctx.frames 2
      (engine.getprocinfoPolicy = .kUnwindCallStackWhen) h.unwinder
    refine Tame.flushLocalCache ?_ hctx.resolver _ _ _
    refine ⟨hunwinder, ?_, h.calls⟩
    -- a record comes in without a call stack, and gets the one that was just unwound
    have hemplaced : ∀ info ∈ (engine.cache.emplace ⟨⟨mem, memsize, ctx.now⟩, []⟩).1.items,
        CallStackInfo.Bounded info.callstack := by
      intro info hinfo
      rcases Container.mem_of_mem_emplace hinfo with hold | rfl
      · exact h.cached info hold
      · exact ⟨by simp, by simp⟩
    intro info hinfo
    simp only at hinfo
    split at hinfo
    · obtain ⟨other, hother, rfl⟩ := List.mem_map.mp hinfo
      split
      · exact hstack
      · exact hemplaced other hother
    · exact hemplaced info hinfo

theorem Tame.doHookFree (h : engine.Tame) (mem : Address) : (engine.doHookFree mem).Tame := by
  unfold Engine.doHookFree
  split
  · exact h
  · split
    · exact ⟨h.unwinder, fun info hinfo => h.cached info (List.mem_of_mem_filter hinfo), h.calls⟩
    · refine ⟨h.unwinder, h.cached, fun log hlog => ?_⟩
      obtain ⟨before, hbefore, rfl⟩ := Option.map_eq_some_iff.mp hlog
      exact followed_push trivial (h.calls before hbefore)

theorem Tame.doHookUpdateSize (h : engine.Tame) (mem : Address) (newsize : UInt64) :
    (engine.doHookUpdateSize mem newsize).Tame := by
  unfold Engine.doHookUpdateSize
  split
  · exact h
  · split
    · refine ⟨h.unwinder, fun info hinfo => ?_, h.calls⟩
      obtain ⟨other, hother, rfl⟩ := List.mem_map.mp hinfo
      split
      · exact h.cached other hother
      · exact h.cached other hother
    · refine ⟨h.unwinder, h.cached, fun log hlog => ?_⟩
      obtain ⟨before, hbefore, rfl⟩ := Option.map_eq_some_iff.mp hlog
      exact followed_push trivial (h.calls before hbefore)

theorem Tame.apply (h : engine.Tame) {op : EngineOp Resolver} (hop : op.Bounded) :
    (op.apply engine).Tame := by
  cases op with
  | alloc ctx mem memsize => exact h.doHookAlloc hop mem memsize
  | free mem => exact h.doHookFree mem
  | updateSize mem newsize => exact h.doHookUpdateSize mem newsize
  | realloc ctx oldMem newMem newSize =>
      show (engine.doHookRealloc ctx oldMem newMem newSize).Tame
      unfold doHookRealloc
      split
      · exact h.doHookUpdateSize oldMem newSize
      · exact (h.doHookFree oldMem).doHookAlloc hop newMem newSize

theorem Tame.run (h : engine.Tame) {ops : List (EngineOp Resolver)}
    (hops : ∀ op ∈ ops, op.Bounded) : (engine.run ops).Tame :=
  Run.invariant (P := fun _ op => EngineOp.Bounded op) (fun h hop => Tame.apply h hop) h
    (.of_forall hops)

/-- All calls of an engine in its whole life can be followed. -/
theorem followed_lifetime {unwinder : Impl.Usable} (hunwinder : unwinder.1.Bounded)
    (timeout : Int64) (maxItems : UInt64) (policy : CallStackUnwindProcInfoPolicy)
    {ops : List (EngineOp Resolver)} (hops : ∀ op ∈ ops, op.Bounded) (hctx : ctx.Bounded) :
    ∀ log ∈ lifetime (⟨[]⟩ : CallLog) unwinder timeout maxItems policy ops ctx,
      ∀ call ∈ log.calls, call.Followed :=
  (((tame_onInitialize hunwinder timeout maxItems policy).run hops).flushLocalCache
    hctx.resolver ctx.now 0 true).calls

end Calls

end Engine

/-! ## The whole way -/

namespace Connection

open StorageCall

/-- The requests of a client have arrived up to somewhere: the server has made a part of the
calls on its storage, and all of them if nothing is missing. -/
theorem storage_of_arrived (clientBigEndian serverBigEndian : Bool) (pid : UInt32)
    (now : TimePoint) {calls : List StorageCall} (hcalls : ∀ call ∈ calls, call.Followed)
    {reads : List Bytes}
    (hreads : start.Delivers serverBigEndian (fun _ => BasicMappedStorage.empty) reads)
    (harrived : reads.flatten <+:
      (calls.foldl StorageCall.apply (NetworkMappedStorage.new clientBigEndian pid now)).sent) :
    ∃ session condition callback,
      start.run serverBigEndian (fun _ => BasicMappedStorage.empty) reads =
          .reading session condition callback ∧
        (session.storage = none ∨ ∃ made, made <+: calls ∧
          session.storage = some (made.foldl StorageCall.apply BasicMappedStorage.empty)) ∧
        (reads.flatten = (calls.foldl StorageCall.apply
            (NetworkMappedStorage.new clientBigEndian pid now)).sent →
          session.storage = some (calls.foldl StorageCall.apply BasicMappedStorage.empty)) := by
  have hsendable : ∀ call ∈ calls, call.Sendable := fun call hcall => (hcalls call hcall).sendable
  have hclear := clear_notMem_of_followed hcalls
  have hall := sendable_clientRequests pid now hsendable
  have hknown := (known_clientRequests_iff pid now calls).mpr hclear
  rw [sent_client clientBigEndian pid now hsendable] at harrived ⊢
  obtain ⟨future, hfuture⟩ := harrived
  have hconforming : Conforming false (reads.flatten ++ future) :=
    hfuture ▸ conforming_frames hall (.inr (by simp [clientRequests]))
  have hfollows : Follows (fun _ => BasicMappedStorage.empty) reads.flatten future
      (start.run serverBigEndian (fun _ => BasicMappedStorage.empty) reads) :=
    (follows_start hconforming).run serverBigEndian hreads
  obtain ⟨session, condition, callback, rest, hrun, -, hhandled, hrequests, -, -⟩ :=
    hfollows.of_frames hall hknown hfuture
  refine ⟨session, condition, callback, hrun, ?_, ?_⟩
  · cases hdone : session.handled with
    | nil =>
        refine .inl ?_
        rw [hhandled.storage, hdone]
        rfl
    | cons first done =>
        -- the first request makes the storage, and the others are those of some calls
        rw [hdone, clientRequests, List.cons_append, List.cons.injEq] at hrequests
        obtain ⟨hfirst, hdone'⟩ := hrequests
        obtain ⟨made, hmade, hrequests⟩ :=
          List.prefix_filterMap_iff.mp ⟨rest, hdone'.symm⟩
        refine .inr ⟨made, hmade, ?_⟩
        rw [hhandled.storage, hdone, ← hfirst, List.foldl_cons, hrequests]
        exact serve_requests _ (fun hmem => hclear (hmade.subset hmem)) BasicMappedStorage.empty
  · intro hflatten
    obtain rfl : future = [] := by simpa [hflatten] using hfuture
    rw [hrun, hflatten] at hfollows
    rw [(hfollows.complete hall).1.storage, clientRequests, List.foldl_cons]
    exact serve_requests _ hclear BasicMappedStorage.empty

open Engine in
/-- **What the hooks report reaches the server.**  An engine over the network serves any calls
and is destroyed.  Whatever part of its stream has arrived, in whatever pieces, the server has
made an initial part of the calls that the engine made on its storage.  Once everything has
arrived, the storage of the server is the one that the same engine would have left on the spot;
and if no address was announced twice, that is the abstract map. -/
theorem engine_over_network (clientBigEndian serverBigEndian : Bool) (pid : UInt32)
    (now : TimePoint) (unwinder : Impl.Usable) (hunwinder : unwinder.1.Bounded) (timeout : Int64)
    (maxItems : UInt64) (policy : CallStackUnwindProcInfoPolicy)
    (ops : List (EngineOp Resolver)) (hops : ∀ op ∈ ops, op.Bounded) (ctx : Context Resolver)
    (hctx : ctx.Bounded) :
    ∃ client log,
      lifetime (NetworkMappedStorage.new clientBigEndian pid now) unwinder timeout
          maxItems policy ops ctx = some client ∧
        lifetime (⟨[]⟩ : CallLog) unwinder timeout maxItems policy ops ctx =
          some log ∧
        ∀ reads, start.Delivers serverBigEndian (fun _ => BasicMappedStorage.empty) reads →
          reads.flatten <+: client.sent →
          ∃ session condition callback,
            start.run serverBigEndian (fun _ => BasicMappedStorage.empty) reads =
                .reading session condition callback ∧
              (session.storage = none ∨ ∃ made, made <+: log.calls ∧
                session.storage = some (made.foldl StorageCall.apply BasicMappedStorage.empty)) ∧
              (reads.flatten = client.sent →
                session.storage = lifetime BasicMappedStorage.empty unwinder
                    timeout maxItems policy ops ctx ∧
                  (AdmissibleRun ops → ∃ database, session.storage = some database ∧
                    ∀ address, database.record? address = runMap ops address)) := by
  have hlocal := lifetime_eq_replay BasicMappedStorage.empty unwinder timeout
    maxItems policy ops ctx
  have hremote := lifetime_eq_replay (NetworkMappedStorage.new clientBigEndian pid now)
    unwinder timeout maxItems policy ops ctx
  -- the storage is there from the beginning to the end
  have hstorage : (((onInitialize (some BasicMappedStorage.empty) unwinder timeout
      maxItems policy).run ops)).storage.isSome := by
    rw [isSome_storage_run]
    rfl
  have hsome : (lifetime BasicMappedStorage.empty unwinder timeout maxItems policy
      ops ctx).isSome := (isSome_storage_flushLocalCache ctx ctx.now 0 true _).trans hstorage
  rw [hlocal, Option.isSome_map] at hsome
  obtain ⟨log, hlog⟩ := Option.isSome_iff_exists.mp hsome
  rw [hlog, Option.map_some] at hlocal hremote
  refine ⟨_, log, hremote, hlog, ?_⟩
  intro reads hreads harrived
  have hfollowed := followed_lifetime hunwinder timeout maxItems policy hops hctx log hlog
  obtain ⟨session, condition, callback, hrun, hpart, hwhole⟩ := storage_of_arrived clientBigEndian
    serverBigEndian pid now hfollowed hreads harrived
  refine ⟨session, condition, callback, hrun, hpart, ?_⟩
  intro hflatten
  have hequal : session.storage = lifetime BasicMappedStorage.empty unwinder
      timeout maxItems policy ops ctx := (hwhole hflatten).trans hlocal.symm
  refine ⟨hequal, ?_⟩
  intro hadmissible
  have hrefines : ((onInitialize (some BasicMappedStorage.empty) unwinder timeout maxItems
      policy).run ops).Refines (runMap ops) :=
    Refines.run (refines_onInitialize (by simp) unwinder timeout maxItems policy) hadmissible
  obtain ⟨-, database, hdatabase, hrecords⟩ := hrefines.onDestroy hstorage ctx
  exact ⟨database, hequal.trans hdatabase, hrecords⟩

open Engine in
/-- The run of `sampleOps`, sent to a server of the other byte order in one piece. -/
theorem engine_over_network_sampleOps :
    ∃ client, lifetime (NetworkMappedStorage.new false 4321 7) Impl.Usable.initial 0 0
        .kFlushLocalCacheWhen sampleOps ⟨9, [], .silent⟩ = some client ∧
      ∃ session condition callback database,
        start.run true (fun _ => BasicMappedStorage.empty) [client.sent] =
            .reading session condition callback ∧
          session.storage = some database ∧ database.record? 16 = some ⟨120, 1, [9]⟩ ∧
          database.record? 32 = none ∧ database.record? 48 = some ⟨24, 4, []⟩ := by
  have hsilent : Resolver.silent.Bounded := ⟨nofun, nofun, nofun⟩
  have hctx : ∀ (now : TimePoint) (frames : List Frame), frames.length < 2 ^ 32 →
      (⟨now, frames, .silent⟩ : Context Resolver).Bounded := fun _ _ hframes => ⟨hframes, hsilent⟩
  have hops : ∀ op ∈ sampleOps, op.Bounded := by
    simp only [sampleOps, List.forall_mem_cons, EngineOp.Bounded]
    exact ⟨hctx _ _ (by decide), hctx _ _ (by decide), hctx _ _ (by decide), trivial, trivial,
      nofun⟩
  have hadmissible : AdmissibleRun sampleOps := by
    refine ⟨fun _ => rfl, fun _ => ?_, fun _ _ => ?_, trivial, trivial, trivial⟩ <;> decide
  have hunwinder : Impl.Usable.initial.1.Bounded := Impl.bounded_new none
  obtain ⟨client, log, hclient, hlog, hserver⟩ := engine_over_network false true 4321 7
    Impl.Usable.initial hunwinder 0 0 .kFlushLocalCacheWhen sampleOps hops ⟨9, [], .silent⟩
    (hctx _ _ (by decide))
  have hreplay := lifetime_eq_replay (NetworkMappedStorage.new false 4321 7) Impl.Usable.initial
    0 0 .kFlushLocalCacheWhen sampleOps ⟨9, [], .silent⟩
  rw [hclient, hlog, Option.map_some, Option.some.injEq] at hreplay
  have hfollowed := followed_lifetime hunwinder 0 0 .kFlushLocalCacheWhen hops
    (hctx 9 [] (by decide)) log hlog
  have hdelivers := deliversAll_wholeRead fun call hcall => (hfollowed call hcall).sendable
  obtain ⟨session, condition, callback, hrun, -, hwhole⟩ := hserver [client.sent]
    (hreplay ▸ hdelivers.1) (by simp)
  obtain ⟨-, hmap⟩ := hwhole (by simp)
  obtain ⟨database, hdatabase, hrecords⟩ := hmap hadmissible
  refine ⟨client, hclient, session, condition, callback, database, hrun, hdatabase, ?_, ?_, ?_⟩ <;>
    rw [hrecords] <;> decide

end Connection

end Memhook
