import Memhook.Wire.Delivery

/-!
# A remote storage and a local one

The operations of the storage interface made on a `NetworkMappedStorage` reach the
server as requests, and the server makes them on its own storage.  This is the local
behaviour at a distance for every operation but one: `HandleNetRequest` has no case
for `kNetReqClear`, so a `Clear` closes the session and everything after it is lost.
-/

namespace Memhook

open MemDBSession

namespace StorageCall

/-- The request the client sends for the call. -/
def request? : StorageCall → Option NetRequest
  | add address memsize callstack timestamp =>
      some ⟨kNetReqAdd, ⟨address, memsize, timestamp⟩, callstack⟩
  | remove address => some ⟨kNetReqRemove, ⟨address, 0, 0⟩, []⟩
  | updateSize address memsize => some ⟨kNetReqUpdateSize, ⟨address, memsize, 0⟩, []⟩
  | clear => some ⟨kNetReqClear, ⟨0, 0, 0⟩, []⟩
  | flush => none

/-- The call stack of an `Add` can be sent; the other requests always can. -/
def Sendable (call : StorageCall) : Prop := ∀ request ∈ call.request?, request.Sendable

theorem known_request_iff {call : StorageCall} {request : NetRequest}
    (h : call.request? = some request) : request.Known ↔ call ≠ clear := by
  cases call <;> cases h <;>
    simp [NetRequest.Known, NetRequest.IsUpdate, kNetReqAdd, kNetReqRemove, kNetReqUpdateSize,
      kNetReqClear, kNetReqNewStorage]

/-! ## The client -/

theorem sent_apply {call : StorageCall} (h : call.Sendable) (client : NetworkMappedStorage) :
    (call.apply client).sent =
      client.sent ++ call.request?.toList.flatMap NetRequest.frame := by
  have hsend : ∀ request, call.request? = some request →
      (client.send request).sent =
        client.sent ++ call.request?.toList.flatMap NetRequest.frame := by
    intro request hrequest
    simp [hrequest, NetworkMappedStorage.sent_send (h request hrequest)]
  cases call with
  | flush => simp [apply, request?, MappedStorage.flush, NetworkMappedStorage.flush]
  | _ => exact hsend _ rfl

/-- The requests of a client with these calls, after the first one. -/
def requests (calls : List StorageCall) : List NetRequest := calls.filterMap request?

theorem sent_foldl_apply {calls : List StorageCall} (h : ∀ call ∈ calls, call.Sendable)
    (client : NetworkMappedStorage) :
    (calls.foldl apply client).sent =
      client.sent ++ (requests calls).flatMap NetRequest.frame := by
  induction calls generalizing client with
  | nil => simp [requests]
  | cons call rest ih =>
      have hhead : call.Sendable := h call (List.mem_cons_self ..)
      rw [List.foldl_cons, ih fun other hother => h other (List.mem_cons_of_mem _ hother),
        sent_apply hhead, List.append_assoc]
      cases hrequest : call.request? <;> simp [requests, hrequest]

/-- All requests of a client, the one of its constructor first. -/
def clientRequests (pid : UInt32) (now : TimePoint) (calls : List StorageCall) : List NetRequest :=
  ⟨kNetReqNewStorage, ⟨pid.toUInt64, 0, now⟩, []⟩ :: requests calls

theorem sent_client (bigEndian : Bool) (pid : UInt32) (now : TimePoint) {calls : List StorageCall}
    (h : ∀ call ∈ calls, call.Sendable) :
    (calls.foldl apply (NetworkMappedStorage.new bigEndian pid now)).sent =
      (clientRequests pid now calls).flatMap NetRequest.frame := by
  rw [sent_foldl_apply h, NetworkMappedStorage.new,
    NetworkMappedStorage.sent_send (NetRequest.sendable_of_nil _ _), List.nil_append,
    clientRequests, List.flatMap_cons]

theorem sendable_clientRequests (pid : UInt32) (now : TimePoint) {calls : List StorageCall}
    (h : ∀ call ∈ calls, call.Sendable) :
    ∀ request ∈ clientRequests pid now calls, request.Sendable := by
  intro request hrequest
  rcases List.mem_cons.mp hrequest with rfl | hrequest
  · exact NetRequest.sendable_of_nil _ _
  · obtain ⟨call, hcall, hsome⟩ := List.mem_filterMap.mp hrequest
    exact h call hcall request hsome

/-- The server knows all requests of a client that never clears its storage. -/
theorem known_clientRequests_iff (pid : UInt32) (now : TimePoint) (calls : List StorageCall) :
    (∀ request ∈ clientRequests pid now calls, request.Known) ↔ clear ∉ calls := by
  constructor
  · intro h hclear
    have hrequest : (⟨kNetReqClear, ⟨0, 0, 0⟩, []⟩ : NetRequest) ∈ clientRequests pid now calls :=
      List.mem_cons_of_mem _ (List.mem_filterMap.mpr ⟨clear, hclear, rfl⟩)
    exact absurd (h _ hrequest) (by decide)
  · intro hclear request hrequest
    rcases List.mem_cons.mp hrequest with rfl | hrequest
    · exact .inr rfl
    · obtain ⟨call, hcall, hsome⟩ := List.mem_filterMap.mp hrequest
      exact (known_request_iff hsome).mpr fun heq => hclear (heq ▸ hcall)

/-! ## The server -/

variable (storageCreator : Address → BasicMappedStorage)

/-- The server does with a request what the client was asked to do. -/
theorem serve_request {call : StorageCall} (hclear : call ≠ clear)
    (storage : BasicMappedStorage) :
    call.request?.toList.foldl (NetRequest.serve storageCreator) (some storage) =
      some (call.apply storage) := by
  cases call with
  | clear => exact absurd rfl hclear
  | _ => rfl

theorem serve_requests {calls : List StorageCall} (hclear : clear ∉ calls)
    (storage : BasicMappedStorage) :
    (requests calls).foldl (NetRequest.serve storageCreator) (some storage) =
      some (calls.foldl apply storage) := by
  induction calls generalizing storage with
  | nil => rfl
  | cons call rest ih =>
      obtain ⟨hhead, htail⟩ : call ≠ clear ∧ clear ∉ rest := by
        simpa [eq_comm] using hclear
      have hserve := serve_request storageCreator hhead storage
      rw [List.foldl_cons, ← ih htail]
      cases hrequest : call.request? with
      | none =>
          simp only [hrequest, Option.toList_none, List.foldl_nil, Option.some.injEq] at hserve
          simp [requests, hrequest, ← hserve]
      | some request =>
          simp only [hrequest, Option.toList_some, List.foldl_cons, List.foldl_nil] at hserve
          simp [requests, hrequest, hserve]

end StorageCall

namespace Connection

open StorageCall

/-- The reads deliver the stream: all of it, unless the session stops reading before. -/
def DeliversAll {S : Type} [MappedStorage S] (bigEndian : Bool) (storageCreator : Address → S)
    (stream : Bytes) (reads : List Bytes) : Prop :=
  start.Delivers bigEndian storageCreator reads ∧ reads.flatten <+: stream ∧
    (reads.flatten = stream ∨ ∀ session condition callback,
      start.run bigEndian storageCreator reads ≠ .reading session condition callback)

/-- When all frames are delivered and the session waits, it has handled all requests. -/
theorem Follows.complete {S : Type} [MappedStorage S] {storageCreator : Address → S}
    {session : MemDBSession S} {condition : CompletionCondition} {callback : ParsingCallback}
    {requests : List NetRequest} (hsendable : ∀ request ∈ requests, request.Sendable)
    (h : Follows storageCreator (requests.flatMap NetRequest.frame) []
      (.reading session condition callback)) :
    Handled storageCreator .initial session requests ∧ ∀ request ∈ requests, request.Known := by
  cases h with
  | waits done hwaits hhandled hdone hbytes hmore =>
      obtain ⟨rest, hrequests, hrest⟩ := exists_rest_of_frames
        (fun request hrequest => (hdone request hrequest).1.fits)
        (fun request hrequest => (hsendable request hrequest).fits) hbytes.symm
      have hrestSendable : ∀ request ∈ rest, request.Sendable := fun request hrequest =>
        hsendable request (by rw [hrequests]; exact List.mem_append_right _ hrequest)
      have hnone : completeFrames rest (session.pending callback).length = [] :=
        completeFrames_pending hwaits hrestSendable (by rw [List.append_nil, hrest])
      obtain rfl : rest = [] := by
        cases rest with
        | nil => rfl
        | cons request rest =>
            rw [hrest, completeFrames, if_pos (by simp)] at hnone
            simp at hnone
      rw [List.append_nil] at hrequests
      subst hrequests
      exact ⟨hhandled, fun request hrequest => (hdone request hrequest).2⟩

/-- A refused request does not leave the session open. -/
theorem Follows.closed_of_unknown {S : Type} [MappedStorage S] {storageCreator : Address → S}
    {connection : Connection S} {requests : List NetRequest}
    (hsendable : ∀ request ∈ requests, request.Sendable)
    (h : Follows storageCreator (requests.flatMap NetRequest.frame) [] connection)
    {request : NetRequest} (hrequest : request ∈ requests) (hunknown : ¬ request.Known) :
    ∃ session, connection = .closed session := by
  cases connection with
  | reading session condition callback =>
      exact absurd ((h.complete hsendable).2 request hrequest) hunknown
  | closed session => exact ⟨session, rfl⟩
  | faulted fault => nomatch h

/-- **A remote storage simulates a local one as long as nobody clears it.**  Once
everything sent has been delivered, in whatever fragments, the session is open and
its storage is what a local one would be after the same calls, if and only if there
was no `Clear` among them. -/
theorem remote_simulates_local (clientBigEndian serverBigEndian : Bool) (pid : UInt32)
    (now : TimePoint) (calls : List StorageCall) (hsendable : ∀ call ∈ calls, call.Sendable)
    (reads : List Bytes)
    (hdelivers : DeliversAll serverBigEndian (fun _ => BasicMappedStorage.empty)
      (calls.foldl StorageCall.apply (NetworkMappedStorage.new clientBigEndian pid now)).sent
      reads) :
    (∃ session condition callback,
      start.run serverBigEndian (fun _ => BasicMappedStorage.empty) reads =
          .reading session condition callback ∧
        session.storage = some (calls.foldl StorageCall.apply BasicMappedStorage.empty)) ↔
      StorageCall.clear ∉ calls := by
  have hall := sendable_clientRequests pid now hsendable
  obtain ⟨hreads, ⟨future, hfuture⟩, hend⟩ := hdelivers
  rw [sent_client clientBigEndian pid now hsendable] at hfuture hend
  have hconforming : Conforming false (reads.flatten ++ future) :=
    hfuture ▸ conforming_frames hall (.inr (by simp [clientRequests]))
  have hfollows : Follows (fun _ => BasicMappedStorage.empty) reads.flatten future
      (start.run serverBigEndian (fun _ => BasicMappedStorage.empty) reads) :=
    (follows_start hconforming).run serverBigEndian hreads
  -- a session that still reads has handled every request
  have hopen : ∀ {session condition callback},
      start.run serverBigEndian (fun _ => BasicMappedStorage.empty) reads =
        .reading session condition callback →
      Handled (fun _ => BasicMappedStorage.empty) .initial session
          (clientRequests pid now calls) ∧
        ∀ request ∈ clientRequests pid now calls, request.Known := by
    intro session condition callback hrun
    have hflatten := hend.resolve_right fun h => h session condition callback hrun
    obtain rfl : future = [] := by simpa [hflatten] using hfuture
    rw [hrun, hflatten] at hfollows
    exact hfollows.complete hall
  constructor
  · rintro ⟨session, condition, callback, hrun, -⟩
    exact (known_clientRequests_iff pid now calls).mp (hopen hrun).2
  · intro hclear
    have hknown := (known_clientRequests_iff pid now calls).mpr hclear
    obtain ⟨session, condition, callback, -, hrun, -⟩ := hfollows.of_frames hall hknown hfuture
    refine ⟨session, condition, callback, hrun, ?_⟩
    rw [(hopen hrun).1.storage, clientRequests, List.foldl_cons]
    exact serve_requests _ hclear BasicMappedStorage.empty

def sampleCalls : List StorageCall :=
  [.add 16 100 [⟨[47], [109], 4096, 4100, 7, 4⟩] 1, .updateSize 16 200, .remove 32, .flush]

/-- All that a client with these calls sends, in one read. -/
def wholeRead (calls : List StorageCall) : List Bytes :=
  [(calls.foldl StorageCall.apply (NetworkMappedStorage.new false 4321 7)).sent]

theorem deliversAll_wholeRead {calls : List StorageCall}
    (hsendable : ∀ call ∈ calls, call.Sendable) :
    DeliversAll true (fun _ => BasicMappedStorage.empty)
      (calls.foldl StorageCall.apply (NetworkMappedStorage.new false 4321 7)).sent
      (wholeRead calls) := by
  have hlength : sizeofNetProtoOutbound ≤
      (calls.foldl StorageCall.apply (NetworkMappedStorage.new false 4321 7)).sent.length := by
    rw [sent_client false 4321 7 hsendable, clientRequests, List.flatMap_cons]
    simp only [List.length_append, NetRequest.frame, NetProtoOutbound.encode, length_encode64,
      sizeofNetProtoOutbound]
    omega
  exact ⟨⟨hlength, trivial⟩, by simp [wholeRead], .inl (by simp [wholeRead])⟩

theorem remote_simulates_local_sampleCalls :
    ∃ session condition callback storage,
      start.run true (fun _ => BasicMappedStorage.empty) (wholeRead sampleCalls) =
          .reading session condition callback ∧
        session.storage = some storage ∧ storage.record? 16 = some ⟨200, 1, [4100]⟩ ∧
        storage.symtab 4100 = some [109] := by
  have hsendable : ∀ call ∈ sampleCalls, call.Sendable := by
    simp only [sampleCalls, List.forall_mem_cons, StorageCall.Sendable, request?,
      Option.mem_some_iff, forall_eq']
    refine ⟨⟨⟨by simp, by simp [CallStackInfoItem.Fits]⟩, by decide⟩,
      NetRequest.sendable_of_nil _ _, NetRequest.sendable_of_nil _ _, ?_⟩
    simp
  obtain ⟨session, condition, callback, hrun, hstorage⟩ := (remote_simulates_local false true 4321 7
    sampleCalls hsendable (wholeRead sampleCalls) (deliversAll_wholeRead hsendable)).mpr (by decide)
  exact ⟨session, condition, callback, _, hrun, hstorage, by decide, by decide⟩

/-- A client that clears its storage finds the session closed. -/
theorem clear_closes_session :
    DeliversAll true (fun _ => BasicMappedStorage.empty)
        ([StorageCall.clear].foldl StorageCall.apply (NetworkMappedStorage.new false 4321 7)).sent
        (wholeRead [.clear]) ∧
      ∃ session, start.run true (fun _ => BasicMappedStorage.empty) (wholeRead [.clear]) =
        .closed session := by
  have hsendable : ∀ call ∈ [StorageCall.clear], call.Sendable := by
    simp [StorageCall.Sendable, request?, NetRequest.sendable_of_nil]
  have hdelivers := deliversAll_wholeRead hsendable
  have hall := sendable_clientRequests 4321 7 hsendable
  have hflatten : (wholeRead [.clear]).flatten =
      (clientRequests 4321 7 [.clear]).flatMap NetRequest.frame := by
    rw [wholeRead, List.flatten_singleton, sent_client false 4321 7 hsendable]
  have hconforming : Conforming false ((wholeRead [.clear]).flatten ++ []) := by
    rw [List.append_nil, hflatten]
    exact conforming_frames hall (.inr (by simp [clientRequests]))
  have hfollows := (follows_start hconforming).run true hdelivers.1
  rw [List.nil_append, hflatten] at hfollows
  have hrequest : (⟨kNetReqClear, ⟨0, 0, 0⟩, []⟩ : NetRequest) ∈ clientRequests 4321 7 [.clear] :=
    List.mem_cons_of_mem _ (List.mem_cons_self ..)
  exact ⟨hdelivers, hfollows.closed_of_unknown hall hrequest (by decide)⟩

end Connection

end Memhook
