import Memhook.Storage.Separation
import Memhook.Storage.UniquePaths
import Memhook.View.Text
import Memhook.Wire.EndToEnd

/-!
# The database server

`MemDBServer` of `src/memdb/memdb_server.cpp` starts a session for every connection it accepts.
The sessions share the creator of the storages, and through it the file system; what they receive
arrives in any order.  A session that reads the end of its stream is destroyed, and its storage
with it, but a memory-mapped file stays.

Programs that are traced over the network are kept apart: whoever opens the file of one of them
finds what this program has sent, whatever the others send, also after it has ended.

A read gives a session some requests, and handling one of them is a step, so that the handlers of
different sessions mix.  A session whose connection is closed or has faulted stays in that state,
and `Sound` says that there is none.  To create a storage is one step: two threads of the server
that look for a free name at the same time are left out.  The number of a session stands for its
object, and the storage of a session is the segment it has opened.
-/

namespace Memhook

open MemDBSession

/-! ## The machine -/

/-- `storage_` is there; what it holds is in its segment. -/
inductive StorageHandle
  | opened

instance : MappedStorage StorageHandle where
  add storage _ _ _ _ := storage
  remove storage _ := (storage, false)
  updateSize storage _ _ := (storage, false)
  clear storage := storage
  flush storage := storage

/-- What the session has passed to `HandleNetRequest`. -/
def Connection.handled {S : Type} : Connection S → List NetRequest
  | reading session _ _ | closed session => session.handled
  | faulted _ => []

/-- A session that `StartAccept` has made, or one with its connection, which may be closed or have
faulted, or one that is destroyed after the end of its stream. -/
inductive SessionState
  | waiting
  | started (connection : Connection StorageHandle)
  | over

/-- The names, what is behind them, and the sessions with the requests that they have received and
not passed to `HandleNetRequest` yet.  What has arrived for a session and the storage it opened are
kept for the theorems only. -/
structure MemDB where
  server : Server
  contents : ℕ → BasicMappedStorage
  sessions : ℕ → SessionState
  pending : ℕ → List NetRequest
  arrived : ℕ → Bytes
  opened : ℕ → Option OpenStorage

inductive MemDBEvent
  /-- `HandleAccept` without an error. -/
  | accept (session : ℕ)
  /-- `OnReadComplete` with these bytes. -/
  | read (session : ℕ) (bytes : Bytes)
  /-- `HandleNetRequest` with the next request that the bytes hold. -/
  | handle (session : ℕ)
  /-- `OnReadComplete` with an error, such as the end of the stream. -/
  | eof (session : ℕ)

namespace Server.Creation

variable (creation : Creation) (server : Server)

/-- The storage that is created. -/
def storage : OpenStorage :=
  ⟨creation.session, creation.guide, creation.name server, server.nextSegment⟩

theorem segments_run_self :
    (creation.run server).segments (creation.name server) = some server.nextSegment :=
  Function.update_self ..

theorem segments_run_of_ne {name : Name} (h : name ≠ creation.name server) :
    (creation.run server).segments name = server.segments name :=
  (Function.update_of_ne h ..).trans (Function.update_of_ne h ..)

end Server.Creation

namespace MemDB

/-- What somebody finds who opens a storage by its name. -/
def look (db : MemDB) (name : Name) : Option BasicMappedStorage :=
  (db.server.segments name).map db.contents

variable (creator : Creator) (bigEndian : Bool)

/-- `HandleNetRequest` of a session. -/
def handle (session : ℕ) (db : MemDB) (request : NetRequest) : MemDB :=
  if request.type = kNetReqNewStorage then
    let server := db.server.step creator (.newStorage session request.traceinfo.address)
    { db with
      server
      contents := Function.update db.contents db.server.nextSegment .empty
      opened := Function.update db.opened session (server.storage? session) }
  else
    match db.server.storage? session with
    | none => db
    | some storage =>
        let container := db.contents storage.segment
        { db with
          contents := Function.update db.contents storage.segment
            ((request.serve (fun _ => .empty) (some container)).getD container) }

/-- The session is destroyed, and its storage with it. -/
def destroy (session : ℕ) (db : MemDB) : MemDB :=
  { db with server := db.server.step creator (.close session) }

/-- A read gives the session requests to handle, and leaves its connection where it will be after
they are handled. -/
def read (session : ℕ) (bytes : Bytes) (db : MemDB) : MemDB :=
  match db.sessions session with
  | .started connection =>
      let after := connection.receive bigEndian (fun _ => .opened) bytes
      { db with
        arrived := Function.update db.arrived session (db.arrived session ++ bytes)
        sessions := Function.update db.sessions session (.started after)
        pending := Function.update db.pending session
          (after.handled.drop connection.handled.length) }
  | _ => db

/-- The next request.  A request that is refused is the last one, and its session is destroyed. -/
def next (session : ℕ) (db : MemDB) : MemDB :=
  match db.pending session with
  | [] => db
  | request :: rest =>
      let handled := { db.handle creator session request with
        pending := Function.update db.pending session rest }
      match db.sessions session, rest with
      | .started (.closed _), [] => handled.destroy creator session
      | _, _ => handled

def step (db : MemDB) : MemDBEvent → MemDB
  | .accept session =>
      match db.sessions session with
      | .waiting => { db with sessions := Function.update db.sessions session (.started .start) }
      | _ => db
  | .read session bytes => db.read bigEndian session bytes
  | .handle session => db.next creator session
  | .eof session =>
      match db.sessions session with
      | .started (.reading _ _ _) =>
          { db.destroy creator session with
            sessions := Function.update db.sessions session .over }
      | _ => db

/-- The server when it is started, with the files that are there. -/
def initial (files : List Name) (segments : Name → Option ℕ) (nextSegment : ℕ)
    (contents : ℕ → BasicMappedStorage) : MemDB where
  server := .initial files segments nextSegment
  contents := contents
  sessions _ := .waiting
  pending _ := []
  arrived _ := []
  opened _ := none

/-- A session reads when it has handled what it has received.  A read delivers as many bytes as the
session asked for, and they come from its stream. -/
def Delivers (streams : ℕ → Bytes) (db : MemDB) : MemDBEvent → Prop
  | .read session bytes => db.pending session = [] ∧
      match db.sessions session with
      | .started (.reading _ condition _) =>
          condition.Met bytes.length ∧ db.arrived session ++ bytes <+: streams session
      | _ => False
  | .eof session => db.pending session = []
  | _ => True

/-! ## Names and segments -/

/-- What a session's storage holds. -/
def content (db : MemDB) (session : ℕ) : Option BasicMappedStorage :=
  (db.opened session).map fun storage => db.contents storage.segment

/-- Every storage that was ever opened has its name and its segment for itself, and those of the
sessions that are not over are open. -/
structure Files (db : MemDB) : Prop where
  own : ∀ i storage, db.opened i = some storage →
    db.server.segments storage.name = some storage.segment
  named : ∀ i storage, db.opened i = some storage → storage.name ∈ db.server.files
  below : ∀ i storage, db.opened i = some storage → storage.segment < db.server.nextSegment
  distinct : ∀ i j storage other, db.opened i = some storage → db.opened j = some other → i ≠ j →
    storage.name ≠ other.name ∧ storage.segment ≠ other.segment
  listed : ∀ storage ∈ db.server.storages, db.opened storage.session = some storage
  held : ∀ i storage, db.opened i = some storage → db.sessions i ≠ .over →
    storage ∈ db.server.storages ∧ storage.session = i

theorem files_initial (files : List Name) (segments : Name → Option ℕ) (nextSegment : ℕ)
    (contents : ℕ → BasicMappedStorage) : (initial files segments nextSegment contents).Files where
  own _ _ h := absurd h (by simp [initial])
  named _ _ h := absurd h (by simp [initial])
  below _ _ h := absurd h (by simp [initial])
  distinct _ _ _ _ h := absurd h (by simp [initial])
  listed _ h := absurd h (by simp [initial, Server.initial])
  held _ _ h := absurd h (by simp [initial])

variable {creator} {db : MemDB} {i : ℕ}

/-- The storage of a session that is not over. -/
theorem Files.storage?_eq (h : db.Files) (halive : db.sessions i ≠ .over) :
    db.server.storage? i = db.opened i := by
  cases hopened : db.opened i with
  | none =>
      refine List.find?_eq_none.mpr ?_
      intro storage hstorage hsession
      have hlisted := h.listed storage hstorage
      rw [of_decide_eq_true hsession, hopened] at hlisted
      simp at hlisted
  | some storage =>
      obtain ⟨hmem, hsession⟩ := h.held i storage hopened halive
      have hsome : (db.server.storage? i).isSome :=
        List.find?_isSome.mpr ⟨storage, hmem, decide_eq_true hsession⟩
      obtain ⟨found, hfound⟩ := Option.isSome_iff_exists.mp hsome
      have hlisted := h.listed found (Server.mem_of_storage? hfound)
      have hfoundSession : found.session = i := by
        unfold Server.storage? at hfound
        simpa using List.find?_some hfound
      rw [hfoundSession, hopened] at hlisted
      rw [hfound, hlisted]

/-- A session that is not over starts, or goes on. -/
theorem Files.of_started (h : db.Files) (arrived : ℕ → Bytes) (pending : ℕ → List NetRequest)
    (halive : db.sessions i ≠ .over) {connection : Connection StorageHandle} :
    Files { db with
      arrived
      sessions := Function.update db.sessions i (.started connection)
      pending } := by
  refine ⟨h.own, h.named, h.below, h.distinct, h.listed, fun j storage hopened hover => ?_⟩
  refine h.held j storage hopened fun heq => hover ?_
  have hj : j ≠ i := fun hj => halive (hj ▸ heq)
  exact (Function.update_of_ne hj ..).trans heq

theorem sessions_handle (db : MemDB) (i : ℕ) (request : NetRequest) :
    (db.handle creator i request).sessions = db.sessions := by
  unfold handle
  split
  · rfl
  · split <;> rfl

theorem arrived_handle (db : MemDB) (i : ℕ) (request : NetRequest) :
    (db.handle creator i request).arrived = db.arrived := by
  unfold handle
  split
  · rfl
  · split <;> rfl

/-- What one step does to the storages: one session's content changes, the other ones keep
theirs. -/
structure Serves (db next : MemDB) (i : ℕ) (content : Option BasicMappedStorage) : Prop where
  files : next.Files
  content : next.content i = content
  others : ∀ j, j ≠ i → next.content j = db.content j

theorem not_isUpdate {request : NetRequest} (h : request.type = kNetReqNewStorage) :
    ¬ request.IsUpdate := by
  rw [NetRequest.IsUpdate, h]
  decide

/-- An update of a storage that is open. -/
theorem Files.handle_update (h : db.Files) (halive : db.sessions i ≠ .over) {request : NetRequest}
    (hupdate : request.IsUpdate) {container : BasicMappedStorage}
    (hcontent : db.content i = some container) :
    Serves db (db.handle creator i request) i
      (request.serve (fun _ => .empty) (some container)) := by
  obtain ⟨storage, hopened, rfl⟩ := Option.map_eq_some_iff.mp hcontent
  have hnew : request.type ≠ kNetReqNewStorage := fun htype => not_isUpdate htype hupdate
  obtain ⟨served, hserved⟩ : ∃ served,
      request.serve (fun _ => .empty) (some (db.contents storage.segment)) = some served :=
    Option.isSome_iff_exists.mp (isSome_serve (.inl hupdate) fun _ => rfl)
  have hhandle : db.handle creator i request =
      { db with contents := Function.update db.contents storage.segment served } := by
    unfold handle
    rw [if_neg hnew, h.storage?_eq halive, hopened]
    simp only [hserved, Option.getD_some]
  rw [hhandle, hserved]
  refine ⟨⟨h.own, h.named, h.below, h.distinct, h.listed, h.held⟩, ?_, ?_⟩
  · simp [content, hopened]
  · intro j hj
    cases hother : db.opened j with
    | none => simp [content, hother]
    | some other =>
        have hsegment := (h.distinct j i other storage hother hopened hj).2
        simp [content, hother, Function.update_of_ne hsegment]

/-- The storage of a session that had none.  Its name and its segment are new. -/
theorem Files.opens (h : db.Files) (creation : Server.Creation)
    (hnone : db.opened creation.session = none) (contents : ℕ → BasicMappedStorage) :
    Files { db with
      server := creation.run db.server
      contents
      opened := Function.update db.opened creation.session
        (some (creation.storage db.server)) } := by
  have hfresh : ∀ j other, db.opened j = some other →
      other.name ≠ creation.name db.server ∧ other.segment ≠ db.server.nextSegment := by
    intro j other hother
    refine ⟨fun heq => creation.name_notMem db.server ?_, (h.below j other hother).ne⟩
    exact heq ▸ h.named j other hother
  have hcases : ∀ j other, Function.update db.opened creation.session
      (some (creation.storage db.server)) j = some other →
      j = creation.session ∧ other = creation.storage db.server ∨ db.opened j = some other := by
    intro j other hother
    by_cases hj : j = creation.session
    · rw [hj, Function.update_self, Option.some.injEq] at hother
      exact .inl ⟨hj, hother.symm⟩
    · rw [Function.update_of_ne hj] at hother
      exact .inr hother
  refine ⟨?_, ?_, ?_, ?_, ?_, ?_⟩
  · intro j other hother
    rcases hcases j other hother with ⟨-, rfl⟩ | hold
    · exact creation.segments_run_self db.server
    · exact (creation.segments_run_of_ne db.server (hfresh j other hold).1).trans
        (h.own j other hold)
  · intro j other hother
    show other.name ∈ (creation.run db.server).files
    rw [creation.files_run db.server]
    rcases hcases j other hother with ⟨-, rfl⟩ | hold
    · exact List.mem_cons_self
    · exact List.mem_cons_of_mem _ (h.named j other hold)
  · intro j other hother
    show other.segment < db.server.nextSegment + 1
    rcases hcases j other hother with ⟨-, rfl⟩ | hold
    · exact Nat.lt_succ_self _
    · exact Nat.lt_succ_of_lt (h.below j other hold)
  · intro j k first second hfirst hsecond hjk
    rcases hcases j first hfirst with ⟨hj, rfl⟩ | hfirst <;>
      rcases hcases k second hsecond with ⟨hk, rfl⟩ | hsecond
    · exact absurd (hj.trans hk.symm) hjk
    · obtain ⟨hne, hsegment⟩ := hfresh k second hsecond
      exact ⟨hne.symm, hsegment.symm⟩
    · exact hfresh j first hfirst
    · exact h.distinct j k first second hfirst hsecond hjk
  · intro other hother
    rcases List.mem_cons.mp hother with rfl | hold
    · exact Function.update_self ..
    · have hlisted := h.listed other hold
      have hne : other.session ≠ creation.session := by
        intro heq
        rw [heq, hnone] at hlisted
        simp at hlisted
      exact (Function.update_of_ne hne ..).trans hlisted
  · intro j other hother hover
    rcases hcases j other hother with ⟨hj, rfl⟩ | hold
    · exact ⟨List.mem_cons_self, hj.symm⟩
    · obtain ⟨hmem, hsession⟩ := h.held j other hold hover
      exact ⟨List.mem_cons_of_mem _ hmem, hsession⟩

/-- A session opens its storage. -/
theorem Files.handle_new (h : db.Files) (hmmf : creator.backend = .mmf)
    (halive : db.sessions i ≠ .over) {request : NetRequest}
    (htype : request.type = kNetReqNewStorage) (hcontent : db.content i = none) :
    Serves db (db.handle creator i request) i (request.serve (fun _ => .empty) none) := by
  have hopened : db.opened i = none := Option.map_eq_none_iff.mp hcontent
  let creation : Server.Creation := ⟨creator, hmmf, i, request.traceinfo.address⟩
  have hstep : db.server.step creator (.newStorage i request.traceinfo.address) =
      creation.run db.server := by
    rw [Server.step, h.storage?_eq halive, hopened]
    rfl
  have hfind : (creation.run db.server).storage? i = some (creation.storage db.server) :=
    List.find?_cons_of_pos (decide_eq_true rfl)
  have hhandle : db.handle creator i request =
      { db with
        server := creation.run db.server
        contents := Function.update db.contents db.server.nextSegment .empty
        opened := Function.update db.opened i (some (creation.storage db.server)) } := by
    simp only [handle, if_pos htype, hstep, hfind]
  rw [hhandle]
  refine ⟨h.opens creation hopened _, ?_, ?_⟩
  · simp [content, Server.Creation.storage, NetRequest.serve, htype, kNetReqNewStorage, kNetReqAdd,
      kNetReqRemove, kNetReqUpdateSize]
  · intro j hj
    simp only [content, Function.update_of_ne hj]
    cases hother : db.opened j with
    | none => rfl
    | some other => simp [Function.update_of_ne (h.below j other hother).ne]

/-- A session is destroyed: its file stays. -/
theorem Files.eof (h : db.Files) (hmmf : creator.backend = .mmf) (halive : db.sessions i ≠ .over) :
    Files { db.destroy creator i with
      sessions := Function.update db.sessions i .over } := by
  -- nothing but the list of open storages changes, and only this session's leaves it
  obtain ⟨storages, hserver, hsub, hkept⟩ : ∃ storages,
      db.server.step creator (.close i) = { db.server with storages } ∧
        (∀ storage ∈ storages, storage ∈ db.server.storages) ∧
        ∀ storage ∈ db.server.storages, storage.session ≠ i → storage ∈ storages := by
    rw [Server.step, h.storage?_eq halive]
    cases hopened : db.opened i with
    | none => exact ⟨_, rfl, fun _ hmem => hmem, fun _ hmem _ => hmem⟩
    | some storage =>
        refine ⟨db.server.storages.filter (·.segment ≠ storage.segment), ?_, ?_, ?_⟩
        · simp [Server.destroy, hmmf]
        · exact fun other hother => (List.mem_filter.mp hother).1
        · intro other hother hsession
          refine List.mem_filter.mpr ⟨hother, decide_eq_true ?_⟩
          exact (h.distinct _ _ other storage (h.listed other hother) hopened hsession).2
  rw [MemDB.destroy, hserver]
  refine ⟨h.own, h.named, h.below, h.distinct, fun storage hmem => h.listed _ (hsub _ hmem), ?_⟩
  intro j storage hopened hover
  have hj : j ≠ i := fun heq => hover (heq ▸ Function.update_self ..)
  have hold : db.sessions j ≠ .over := fun heq => hover ((Function.update_of_ne hj ..).trans heq)
  obtain ⟨hmem, hsession⟩ := h.held j storage hopened hold
  exact ⟨hkept storage hmem (hsession ▸ hj), hsession⟩

/-! ## Streams of programs -/

end MemDB

/-- What a client sends: one request that opens a storage, then updates. -/
structure NetRequest.Orderly (requests : List NetRequest) : Prop where
  sendable : ∀ request ∈ requests, request.Sendable
  opens : ∀ request ∈ requests.head?, request.type = kNetReqNewStorage
  updates : ∀ request ∈ requests.tail, request.IsUpdate

theorem NetRequest.Orderly.known {requests : List NetRequest} (h : NetRequest.Orderly requests) :
    ∀ request ∈ requests, request.Known := by
  cases requests with
  | nil => simp
  | cons first rest =>
      exact List.forall_mem_cons.mpr ⟨.inr (h.opens first rfl), fun request hrequest =>
        .inl (h.updates request hrequest)⟩

/-- A storage that is open stays open. -/
theorem isSome_foldl_serve {S : Type} [MappedStorage S] (storageCreator : Address → S)
    (requests : List NetRequest) {storage : Option S} (h : storage.isSome) :
    (requests.foldl (NetRequest.serve storageCreator) storage).isSome := by
  induction requests generalizing storage with
  | nil => exact h
  | cons request rest ih =>
      refine ih ?_
      unfold NetRequest.serve
      split_ifs <;> simp [h]

theorem completeFrames_mono (requests : List NetRequest) {m n : ℕ} (h : m ≤ n) :
    completeFrames requests m <+: completeFrames requests n := by
  induction requests generalizing m n with
  | nil => exact List.prefix_refl _
  | cons request rest ih =>
      by_cases hframe : request.frame.length ≤ m
      · simp only [completeFrames, if_pos hframe, if_pos (hframe.trans h)]
        exact List.cons_prefix_cons.mpr ⟨rfl, ih (by omega)⟩
      · simp only [completeFrames, if_neg hframe]
        exact List.nil_prefix

theorem completeFrames_isPrefix (requests : List NetRequest) (n : ℕ) :
    completeFrames requests n <+: requests := by
  induction requests generalizing n with
  | nil => exact List.prefix_refl _
  | cons request rest ih =>
      unfold completeFrames
      split
      · exact List.cons_prefix_cons.mpr ⟨rfl, ih _⟩
      · exact List.nil_prefix

theorem completeFrames_zero (requests : List NetRequest) : completeFrames requests 0 = [] := by
  cases requests with
  | nil => rfl
  | cons request rest =>
      have hpos : 0 < request.frame.length := List.length_pos_iff.mpr (frame_ne_nil request)
      exact if_neg (by omega)

/-- A connection has handled the requests whose frames have arrived. -/
theorem Connection.Follows.handled_eq {S : Type} [MappedStorage S] {storageCreator : Address → S}
    {connection : Connection S} {delivered future : Bytes} {requests : List NetRequest}
    (h : Follows storageCreator delivered future connection)
    (horderly : NetRequest.Orderly requests)
    (hstream : delivered ++ future = requests.flatMap NetRequest.frame) :
    (∃ session condition callback, connection = .reading session condition callback) ∧
      connection.handled = completeFrames requests delivered.length := by
  obtain ⟨session, condition, callback, rest, rfl, hwaits, -, hrequests, hbytes, hrest⟩ :=
    h.of_frames horderly.sendable horderly.known hstream
  refine ⟨⟨session, condition, callback, rfl⟩, ?_⟩
  have hsendable : ∀ request ∈ rest, request.Sendable := fun request hrequest =>
    horderly.sendable request (hrequests ▸ List.mem_append_right _ hrequest)
  rw [hbytes, List.length_append, hrequests, completeFrames_append,
    completeFrames_pending hwaits hsendable hrest, List.append_nil]
  rfl

namespace MemDB

variable {creator} {db : MemDB} {i : ℕ}

/-- The next request of a session. -/
theorem Files.handle (h : db.Files) (hmmf : creator.backend = .mmf)
    (halive : db.sessions i ≠ .over) {requests done rest : List NetRequest} {request : NetRequest}
    (horderly : NetRequest.Orderly requests) (hrequests : requests = done ++ request :: rest)
    (hcontent : db.content i = done.foldl (NetRequest.serve fun _ => .empty) none) :
    Serves db (db.handle creator i request) i
      ((done ++ [request]).foldl (NetRequest.serve fun _ => .empty) none) := by
  rw [List.foldl_append, List.foldl_cons, List.foldl_nil, ← hcontent]
  cases done with
  | nil =>
      have htype := horderly.opens request (by rw [hrequests]; rfl)
      rw [show db.content i = none from hcontent]
      exact h.handle_new hmmf halive htype hcontent
  | cons first others =>
      have hupdate := horderly.updates request (by rw [hrequests]; simp)
      have hopen := horderly.opens first (by rw [hrequests]; rfl)
      have hsome : (db.content i).isSome := by
        rw [hcontent, List.foldl_cons]
        refine isSome_foldl_serve _ others ?_
        exact isSome_serve (.inr hopen) fun hfirst => absurd hfirst (not_isUpdate hopen)
      obtain ⟨container, hcontainer⟩ := Option.isSome_iff_exists.mp hsome
      rw [hcontainer]
      exact h.handle_update halive hupdate hcontainer

/-! ## The invariant -/

/-- Every session has handled the frames that have arrived for it, but for those that are pending,
and its storage holds what they amount to. -/
structure Sound (requests : ℕ → List NetRequest) (db : MemDB) : Prop where
  files : db.Files
  waiting : ∀ i, db.sessions i = .waiting → db.arrived i = []
  drained : ∀ i, db.sessions i = .over → db.pending i = []
  follows : ∀ i connection, db.sessions i = .started connection →
    ∃ future, db.arrived i ++ future = (requests i).flatMap NetRequest.frame ∧
      Connection.Follows (fun _ => .opened) (db.arrived i) future connection
  progress : ∀ i, ∃ done,
    done ++ db.pending i = completeFrames (requests i) (db.arrived i).length ∧
      db.content i = done.foldl (NetRequest.serve fun _ => .empty) none

variable {requests : ℕ → List NetRequest}

theorem sound_initial (files : List Name) (segments : Name → Option ℕ) (nextSegment : ℕ)
    (contents : ℕ → BasicMappedStorage) :
    (initial files segments nextSegment contents).Sound requests where
  files := files_initial files segments nextSegment contents
  waiting _ _ := rfl
  drained _ _ := rfl
  follows _ _ h := absurd h (by simp [initial])
  progress i := ⟨[], by simp [initial, completeFrames_zero], rfl⟩

/-- No session has been closed or has faulted. -/
theorem Sound.reading (h : db.Sound requests) (horderly : NetRequest.Orderly (requests i))
    {connection : Connection StorageHandle} (hstarted : db.sessions i = .started connection) :
    ∃ session condition callback, connection = .reading session condition callback := by
  obtain ⟨future, hstream, hfollows⟩ := h.follows i connection hstarted
  exact (hfollows.handled_eq horderly hstream).1

theorem Sound.accept (h : db.Sound requests) (horderly : NetRequest.Orderly (requests i))
    (hwaiting : db.sessions i = .waiting) :
    Sound requests { db with sessions := Function.update db.sessions i (.started .start) } where
  files := h.files.of_started db.arrived db.pending (by rw [hwaiting]; simp)
  waiting j hj := by
    by_cases hji : j = i
    · subst hji
      exact h.waiting j hwaiting
    · exact h.waiting j (by simpa [Function.update_of_ne hji] using hj)
  drained j hj := by
    by_cases hji : j = i
    · simp [hji] at hj
    · exact h.drained j (by simpa [Function.update_of_ne hji] using hj)
  follows j connection hj := by
    by_cases hji : j = i
    · subst hji
      obtain rfl : Connection.start = connection := by simpa using hj
      refine ⟨(requests j).flatMap NetRequest.frame, ?_, ?_⟩
      · rw [h.waiting j hwaiting, List.nil_append]
      · rw [h.waiting j hwaiting]
        exact Connection.follows_start (conforming_frames horderly.sendable (.inr horderly.opens))
    · exact h.follows j connection (by simpa [Function.update_of_ne hji] using hj)
  progress := h.progress

theorem Sound.eof (h : db.Sound requests) (hmmf : creator.backend = .mmf)
    (hstarted : db.sessions i ≠ .over) (hpending : db.pending i = []) :
    Sound requests { db.destroy creator i with
      sessions := Function.update db.sessions i .over } where
  files := h.files.eof hmmf hstarted
  waiting j hj := by
    refine h.waiting j ?_
    by_cases hji : j = i
    · simp [hji] at hj
    · simpa [Function.update_of_ne hji] using hj
  drained j hj := by
    by_cases hji : j = i
    · rw [hji]
      exact hpending
    · exact h.drained j (by simpa [Function.update_of_ne hji] using hj)
  follows j connection hj := by
    refine h.follows j connection ?_
    by_cases hji : j = i
    · simp [hji] at hj
    · simpa [Function.update_of_ne hji] using hj
  progress := h.progress

/-- The bytes that a read delivers hold the requests that are then pending. -/
theorem Sound.read (h : db.Sound requests) (bigEndian : Bool)
    (horderly : ∀ i, NetRequest.Orderly (requests i)) {bytes : Bytes}
    (hdelivers : db.Delivers (fun i => (requests i).flatMap NetRequest.frame) (.read i bytes)) :
    (db.read bigEndian i bytes).Sound requests := by
  obtain ⟨hnone, hreads⟩ := hdelivers
  obtain ⟨session, condition, callback, hsession, hmet, future, hfuture⟩ :
      ∃ session condition callback,
        db.sessions i = .started (.reading session condition callback) ∧
          condition.Met bytes.length ∧
          db.arrived i ++ bytes <+: (requests i).flatMap NetRequest.frame := by
    split at hreads
    · next session condition callback hsession =>
        exact ⟨session, condition, callback, hsession, hreads⟩
    · exact hreads.elim
  obtain ⟨before, hbefore, hfollows⟩ := h.follows i _ hsession
  have hhandled := (hfollows.handled_eq (horderly i) hbefore).2
  obtain rfl : before = bytes ++ future := by
    rw [List.append_assoc] at hfuture
    exact List.append_cancel_left (hbefore.trans hfuture.symm)
  have hafter := hfollows.receive bigEndian hmet
  have hhandled' := (hafter.handled_eq (horderly i) hfuture).2
  have hmore : (db.arrived i).length ≤ (db.arrived i ++ bytes).length := by simp
  obtain ⟨todo, htodo⟩ := completeFrames_mono (requests i) hmore
  have halive : db.sessions i ≠ .over := by rw [hsession]; simp
  simp only [MemDB.read, hsession]
  refine ⟨h.files.of_started _ _ halive, fun j hj => ?_, fun j hj => ?_, fun j connection hj => ?_,
    fun j => ?_⟩
  · by_cases hji : j = i
    · simp [hji] at hj
    · simp only [Function.update_of_ne hji] at hj ⊢
      exact h.waiting j hj
  · by_cases hji : j = i
    · simp [hji] at hj
    · simp only [Function.update_of_ne hji] at hj ⊢
      exact h.drained j hj
  · by_cases hji : j = i
    · subst hji
      simp only [Function.update_self, SessionState.started.injEq] at hj ⊢
      exact ⟨future, hfuture, hj ▸ hafter⟩
    · simp only [Function.update_of_ne hji] at hj ⊢
      exact h.follows j connection hj
  · by_cases hji : j = i
    · subst hji
      obtain ⟨done, hdone, hcontent⟩ := h.progress j
      rw [hnone, List.append_nil] at hdone
      refine ⟨done, ?_, hcontent⟩
      simp only [Function.update_self]
      rw [hhandled', hhandled, ← htodo, List.drop_left, hdone]
    · simp only [Function.update_of_ne hji]
      exact h.progress j

/-- A request that is pending is handled. -/
theorem Sound.next (h : db.Sound requests) (hmmf : creator.backend = .mmf)
    (horderly : ∀ i, NetRequest.Orderly (requests i)) (i : ℕ) :
    (db.next creator i).Sound requests := by
  cases hpending : db.pending i with
  | nil => simpa [MemDB.next, hpending] using h
  | cons request rest =>
      have halive : db.sessions i ≠ .over := by
        intro hover
        rw [h.drained i hover] at hpending
        cases hpending
      have hopen : ∀ session, db.sessions i ≠ .started (.closed session) := by
        intro session hclosed
        obtain ⟨_, _, _, hreading⟩ := h.reading (horderly i) hclosed
        cases hreading
      have hnext : db.next creator i = { db.handle creator i request with
          pending := Function.update db.pending i rest } := by
        simp only [MemDB.next, hpending]
        split
        · next session hclosed => exact absurd hclosed (hopen session)
        · rfl
      obtain ⟨done, hdone, hcontent⟩ := h.progress i
      obtain ⟨later, hlater⟩ := completeFrames_isPrefix (requests i) (db.arrived i).length
      rw [hpending] at hdone
      have hrequests : requests i = done ++ request :: (rest ++ later) := by
        rw [← hlater, ← hdone]
        simp
      have hserves := h.files.handle hmmf halive (horderly i) hrequests hcontent
      have hfiles := hserves.files
      rw [hnext]
      refine ⟨⟨hfiles.own, hfiles.named, hfiles.below, hfiles.distinct, hfiles.listed,
        hfiles.held⟩, fun j hj => ?_, fun j hj => ?_, fun j connection hj => ?_, fun j => ?_⟩
      · rw [sessions_handle] at hj
        rw [arrived_handle]
        exact h.waiting j hj
      · rw [sessions_handle] at hj
        have hji : j ≠ i := fun heq => halive (heq ▸ hj)
        simp only [Function.update_of_ne hji]
        exact h.drained j hj
      · rw [sessions_handle] at hj
        rw [arrived_handle]
        exact h.follows j connection hj
      · rw [arrived_handle]
        by_cases hji : j = i
        · subst hji
          refine ⟨done ++ [request], ?_, hserves.content⟩
          simp only [Function.update_self]
          rw [List.append_assoc, List.singleton_append, hdone]
        · obtain ⟨others, hothers, hkept⟩ := h.progress j
          simp only [Function.update_of_ne hji]
          exact ⟨others, hothers, (hserves.others j hji).trans hkept⟩

theorem Sound.step (h : db.Sound requests) (hmmf : creator.backend = .mmf) (bigEndian : Bool)
    (horderly : ∀ i, NetRequest.Orderly (requests i)) {event : MemDBEvent}
    (hdelivers : db.Delivers (fun i => (requests i).flatMap NetRequest.frame) event) :
    (db.step creator bigEndian event).Sound requests := by
  cases event with
  | accept i =>
      simp only [MemDB.step]
      split
      · next hwaiting => exact h.accept (horderly i) hwaiting
      · exact h
  | read i bytes => exact h.read bigEndian horderly hdelivers
  | handle i => exact h.next hmmf horderly i
  | eof i =>
      simp only [MemDB.step]
      split
      · next hstarted => exact h.eof hmmf (by rw [hstarted]; simp) hdelivers
      · exact h

theorem Sound.run (h : db.Sound requests) (hmmf : creator.backend = .mmf) (bigEndian : Bool)
    (horderly : ∀ i, NetRequest.Orderly (requests i)) {events : List MemDBEvent}
    (hdelivers : Run.Along (MemDB.step creator bigEndian)
      (Delivers fun i => (requests i).flatMap NetRequest.frame) db events) :
    (events.foldl (MemDB.step creator bigEndian) db).Sound requests :=
  Run.invariant (fun h hevent => Sound.step h hmmf bigEndian horderly hevent) h hdelivers

/-- Whoever opens the file of a session finds its content. -/
theorem Sound.look_eq (h : db.Sound requests) {storage : OpenStorage}
    (hopened : db.opened i = some storage) : db.look storage.name = db.content i := by
  rw [look, h.files.own i storage hopened, MemDB.content, hopened]
  rfl

end MemDB

/-! ## Traced programs -/

/-- A program that is traced over the network. -/
structure RemoteRun extends TracedRun Impl.Usable Resolver where
  bigEndian : Bool
  pid : UInt32
  now : TimePoint
  unwinder_bounded : unwinder.1.Bounded
  calls_bounded : ∀ call ∈ calls, call.1.Bounded
  ctx_bounded : ctx.Bounded

theorem HookCall.bounded_engineOp {ctx : Context Resolver} (h : ctx.Bounded) (call : HookCall) :
    (call.engineOp ctx).Bounded := by
  cases call with
  | free | cfree | cppDelete | munmap => exact trivial
  | mremap =>
      simp only [engineOp]
      split
      · exact h
      · exact trivial
  | _ => exact h

namespace RemoteRun

open StorageCall

variable (run : RemoteRun)

/-- The storage after the program, if its engine starts with this one. -/
def lifetime {S : Type} [MappedStorage S] (storage : S) : Option S :=
  Engine.lifetime storage run.unwinder run.timeout run.maxItems run.policy
    (World.engineOps run.calls) run.ctx

/-- The calls of the engine on its storage. -/
def log : CallLog := (run.lifetime (⟨[]⟩ : CallLog)).getD ⟨[]⟩

/-- What is sent. -/
def stream : Bytes :=
  ((run.lifetime (NetworkMappedStorage.new run.bigEndian run.pid run.now)).map
    NetworkMappedStorage.sent).getD []

def requests : List NetRequest := clientRequests run.pid run.now run.log.calls

theorem lifetime_log : run.lifetime (⟨[]⟩ : CallLog) = some run.log := by
  have hstorage : ((Engine.onInitialize (some BasicMappedStorage.empty) run.unwinder run.timeout
      run.maxItems run.policy).run (World.engineOps run.calls)).storage.isSome := by
    rw [Engine.isSome_storage_run]
    rfl
  have hsome : (run.lifetime BasicMappedStorage.empty).isSome :=
    (Engine.isSome_storage_flushLocalCache run.ctx run.ctx.now 0 true _).trans hstorage
  rw [lifetime, Engine.lifetime_eq_replay, Option.isSome_map, ← lifetime] at hsome
  obtain ⟨log, hlog⟩ := Option.isSome_iff_exists.mp hsome
  rw [RemoteRun.log, hlog, Option.getD_some]

theorem lifetime_eq {S : Type} [MappedStorage S] (storage : S) :
    run.lifetime storage = some (run.log.calls.foldl apply storage) := by
  rw [lifetime, Engine.lifetime_eq_replay, ← lifetime, lifetime_log]
  rfl

theorem followed_log : ∀ call ∈ run.log.calls, call.Followed := by
  have hops : ∀ op ∈ World.engineOps run.calls, EngineOp.Bounded op := by
    intro op hop
    obtain ⟨call, hcall, rfl⟩ := List.mem_map.mp hop
    exact HookCall.bounded_engineOp (run.calls_bounded call hcall) call.2
  exact Engine.followed_lifetime run.unwinder_bounded run.timeout run.maxItems run.policy hops
    run.ctx_bounded run.log run.lifetime_log

theorem stream_eq : run.stream = run.requests.flatMap NetRequest.frame := by
  have hsendable : ∀ call ∈ run.log.calls, call.Sendable := fun call hcall =>
    (run.followed_log call hcall).sendable
  rw [stream, lifetime_eq, Option.map_some, Option.getD_some, sent_client _ _ _ hsendable]
  rfl

theorem orderly_requests : NetRequest.Orderly run.requests where
  sendable := sendable_clientRequests run.pid run.now fun call hcall =>
    (run.followed_log call hcall).sendable
  opens request hrequest := by
    obtain rfl := Option.some_injective _ hrequest
    rfl
  updates request hrequest := by
    obtain ⟨call, hcall, hsome⟩ := List.mem_filterMap.mp hrequest
    have hfollowed := run.followed_log call hcall
    cases call with
    | clear => exact hfollowed.elim
    | flush => cases hsome
    | _ =>
        obtain rfl := Option.some_injective _ hsome
        simp [NetRequest.IsUpdate]

theorem database_eq : run.database = run.log.calls.foldl apply BasicMappedStorage.empty := by
  have hlifetime := run.lifetime_eq BasicMappedStorage.empty
  rw [TracedRun.database, TracedRun.world, World.engine_run]
  exact (congrArg (Option.getD · BasicMappedStorage.empty) hlifetime).trans rfl

/-- What a part of the requests amounts to. -/
theorem serve_part {done : List NetRequest} (hdone : done <+: run.requests) :
    done.foldl (NetRequest.serve fun _ => BasicMappedStorage.empty) none = none ∨
      ∃ made, made <+: run.log.calls ∧
        done.foldl (NetRequest.serve fun _ => BasicMappedStorage.empty) none =
          some (made.foldl apply BasicMappedStorage.empty) := by
  have hclear := clear_notMem_of_followed run.followed_log
  cases done with
  | nil => exact .inl rfl
  | cons first done =>
      obtain ⟨hfirst, hrest⟩ := List.cons_prefix_cons.mp hdone
      obtain ⟨made, hmade, hrequests⟩ := List.prefix_filterMap_iff.mp hrest
      refine .inr ⟨made, hmade, ?_⟩
      rw [List.foldl_cons, hfirst, hrequests]
      exact serve_requests _ (fun hmem => hclear (hmade.subset hmem)) BasicMappedStorage.empty

theorem serve_requests_eq :
    run.requests.foldl (NetRequest.serve fun _ => BasicMappedStorage.empty) none =
      some run.database := by
  rw [database_eq, requests, clientRequests, List.foldl_cons]
  exact serve_requests _ (clear_notMem_of_followed run.followed_log) BasicMappedStorage.empty

end RemoteRun

theorem completeFrames_all (requests : List NetRequest) :
    completeFrames requests (requests.flatMap NetRequest.frame).length = requests := by
  have hall := completeFrames_append requests [] 0
  simpa [completeFrames] using hall

/-- **The server keeps programs apart.**  Any number of traced programs send what their hooks
report to one server with memory-mapped files, and their streams arrive in any pieces and are
handled in any order, with sessions that start and end at any time.  No session is ever closed for
a request that the server refuses, or faults, and all files have names of their own.  Whoever opens
the file of a program finds what a part of its calls leaves in a storage, and all of it once its
stream has arrived and is handled, also after the session has ended: `memview` then lists exactly
the blocks that are live in this program. -/
theorem memdb_keeps_programs_apart {creator : Creator} (hmmf : creator.backend = .mmf)
    (bigEndian : Bool) (files : List Name) (segments : Name → Option ℕ) (nextSegment : ℕ)
    (contents : ℕ → BasicMappedStorage) (runs : ℕ → RemoteRun) (events : List MemDBEvent)
    (hdelivers : Run.Along (MemDB.step creator bigEndian)
      (MemDB.Delivers fun i => (runs i).stream)
      (MemDB.initial files segments nextSegment contents) events) :
    let db := events.foldl (MemDB.step creator bigEndian)
      (MemDB.initial files segments nextSegment contents)
    (∀ i connection, db.sessions i = .started connection → ∃ session condition callback,
        connection = .reading session condition callback) ∧
      (∀ i j storage other, db.opened i = some storage → db.opened j = some other → i ≠ j →
        storage.name ≠ other.name) ∧
      (∀ i storage, db.opened i = some storage → ∃ made, made <+: (runs i).log.calls ∧
        db.look storage.name = some (made.foldl StorageCall.apply BasicMappedStorage.empty)) ∧
      ∀ i, db.arrived i = (runs i).stream → db.pending i = [] → ∃ storage container,
        db.opened i = some storage ∧ db.look storage.name = some container ∧
          (∀ address, (runs i).world.blocks address =
            ((runs i).records address).map Record.memsize) ∧
          ∀ (base : MappedViewBase) (indexes : Indexes container.indexedContainer), base.Plain →
            base.Lists (runs i).records
              (BasicSimpleMappedView.writeImpl (fun _ => false) ⟨base, container, indexes⟩) := by
  intro db
  have horderly := fun i => (runs i).orderly_requests
  have hsound : db.Sound fun i => (runs i).requests := by
    refine (MemDB.sound_initial files segments nextSegment contents).run hmmf bigEndian horderly ?_
    simpa only [RemoteRun.stream_eq] using hdelivers
  refine ⟨?_, ?_, ?_, ?_⟩
  · intro i connection hstarted
    exact hsound.reading (horderly i) hstarted
  · intro i j storage other hopened hother hij
    exact (hsound.files.distinct i j storage other hopened hother hij).1
  · intro i storage hopened
    obtain ⟨done, hdone, hcontent⟩ := hsound.progress i
    have hpart : done <+: (runs i).requests :=
      (List.prefix_append done _).trans (hdone ▸ completeFrames_isPrefix _ _)
    rw [hsound.look_eq hopened, hcontent]
    refine ((runs i).serve_part hpart).resolve_left ?_
    rw [← hcontent, MemDB.content, hopened]
    simp
  · intro i harrived hpending
    obtain ⟨done, hdone, hdoneContent⟩ := hsound.progress i
    have hcontent : db.content i = some (runs i).database := by
      rw [harrived, hpending, List.append_nil, RemoteRun.stream_eq, completeFrames_all] at hdone
      rw [hdoneContent, hdone, RemoteRun.serve_requests_eq]
    obtain ⟨storage, hopened, -⟩ := Option.map_eq_some_iff.mp hcontent
    refine ⟨storage, (runs i).database, hopened, (hsound.look_eq hopened).trans hcontent,
      (runs i).blocks_eq, ?_⟩
    intro base indexes hplain
    exact BasicMappedView.lists_writeImpl ⟨base, (runs i).database, indexes⟩ hplain
      (runs i).record?_database

theorem RemoteRun.length_stream (run : RemoteRun) : sizeofNetProtoOutbound ≤ run.stream.length := by
  rw [run.stream_eq, RemoteRun.requests, StorageCall.clientRequests, List.flatMap_cons,
    NetRequest.frame]
  simp only [List.length_append, NetProtoOutbound.encode, length_encode64, sizeofNetProtoOutbound]
  omega

theorem Context.bounded_silent (now : TimePoint) :
    (⟨now, [], .silent⟩ : Context Resolver).Bounded :=
  ⟨by simp, by simp [Resolver.silent], by simp [Resolver.silent], by simp [Resolver.silent]⟩

/-- The programs of `sampleRun` and `shortRun`, and the second one again and again. -/
def sampleRuns (i : ℕ) : RemoteRun where
  toTracedRun := if i = 0 then sampleRun else shortRun
  bigEndian := false
  pid := UInt32.ofNat (i + 1)
  now := 7
  unwinder_bounded := by
    split <;> exact Impl.bounded_new none
  calls_bounded := by
    split
    · simp [sampleRun, World.sampleCalls, Context.bounded_silent]
    · simp [shortRun, Context.bounded_silent]
  ctx_bounded := by
    split <;> exact Context.bounded_silent 7

namespace MemDB

variable {creator : Creator} {bigEndian : Bool} {streams : ℕ → Bytes} {db : MemDB} {i : ℕ}

/-- A session that has just started gets the whole stream. -/
theorem delivers_stream (hstarted : db.sessions i = .started .start)
    (hpending : db.pending i = []) (harrived : db.arrived i = [])
    (hlength : sizeofNetProtoOutbound ≤ (streams i).length) :
    db.Delivers streams (.read i (streams i)) := by
  simp only [Delivers, hstarted, Connection.start, harrived, List.nil_append]
  exact ⟨hpending, hlength, List.prefix_refl _⟩

theorem read_of_started (bigEndian : Bool) (bytes : Bytes) {connection : Connection StorageHandle}
    (hstarted : db.sessions i = .started connection) :
    (db.read bigEndian i bytes).arrived =
        Function.update db.arrived i (db.arrived i ++ bytes) ∧
      ∀ j, j ≠ i → (db.read bigEndian i bytes).sessions j = db.sessions j ∧
        (db.read bigEndian i bytes).pending j = db.pending j := by
  simp only [MemDB.read, hstarted, true_and]
  exact fun j hj => ⟨Function.update_of_ne hj .., Function.update_of_ne hj ..⟩

variable (creator bigEndian) in
theorem eof_frame (db : MemDB) (i : ℕ) :
    (db.step creator bigEndian (.eof i)).arrived = db.arrived ∧
      (db.step creator bigEndian (.eof i)).pending = db.pending := by
  simp only [step]
  split <;> exact ⟨rfl, rfl⟩

variable (creator) in
theorem next_frame (db : MemDB) (i : ℕ) :
    (db.next creator i).sessions = db.sessions ∧ (db.next creator i).arrived = db.arrived ∧
      (db.next creator i).pending = Function.update db.pending i (db.pending i).tail := by
  cases hpending : db.pending i with
  | nil =>
      have hsame : Function.update db.pending i [] = db.pending := by
        rw [← hpending, Function.update_eq_self]
      simp [next, hpending, hsame]
  | cons request rest =>
      simp only [next, hpending]
      split <;> simp [destroy, sessions_handle, arrived_handle]

/-- As many requests are handled as there are steps, or all of them. -/
theorem foldl_handle (n : ℕ) (db : MemDB) (i : ℕ) :
    let after := (List.replicate n (MemDBEvent.handle i)).foldl (step creator bigEndian) db
    after.sessions = db.sessions ∧ after.arrived = db.arrived ∧
      after.pending = Function.update db.pending i ((db.pending i).drop n) := by
  induction n generalizing db with
  | zero => simp
  | succ n ih =>
      obtain ⟨hsessions, harrived, hpending⟩ := next_frame creator db i
      obtain ⟨hsessions', harrived', hpending'⟩ := ih (db.next creator i)
      refine ⟨hsessions'.trans hsessions, harrived'.trans harrived, hpending'.trans ?_⟩
      rw [hpending, Function.update_self, Function.update_idem, List.drop_tail]

theorem along_handle (n : ℕ) (db : MemDB) (i : ℕ) :
    Run.Along (step creator bigEndian) (Delivers streams) db
      (List.replicate n (MemDBEvent.handle i)) := by
  induction n generalizing db with
  | zero => trivial
  | succ n ih => exact ⟨trivial, ih _⟩

end MemDB

/-- Two programs send everything; the requests of the second one are handled first, and the first
one ends. -/
theorem memdb_keeps_programs_apart_sampleRuns :
    let step := MemDB.step sampleCreator true
    let received := [MemDBEvent.accept 0, .accept 1, .read 0 (sampleRuns 0).stream,
      .read 1 (sampleRuns 1).stream].foldl step (MemDB.initial [] (fun _ => none) 0 fun _ => .empty)
    let handleSecond := List.replicate (received.pending 1).length (MemDBEvent.handle 1)
    let handleFirst := List.replicate (received.pending 0).length (MemDBEvent.handle 0)
    let db := (handleSecond ++ (handleFirst ++ [MemDBEvent.eof 0])).foldl step received
    ∃ storage other, db.opened 0 = some storage ∧ db.opened 1 = some other ∧
      storage.name ≠ other.name ∧ (db.look storage.name).isSome := by
  intro step received handleSecond handleFirst db
  let start := MemDB.initial [] (fun _ => none) 0 fun _ => .empty
  let accepted := [MemDBEvent.accept 0, .accept 1].foldl step start
  let readFirst := accepted.read true 0 (sampleRuns 0).stream
  -- what has arrived, and what is left to handle
  have haccepted : accepted.sessions 0 = .started .start := rfl
  obtain ⟨harrivedFirst, hothers⟩ :=
    MemDB.read_of_started true (sampleRuns 0).stream haccepted
  have hsession : readFirst.sessions 1 = .started .start := (hothers 1 Nat.one_ne_zero).1
  have hpending : readFirst.pending 1 = [] := (hothers 1 Nat.one_ne_zero).2
  have harrivedNone : readFirst.arrived 1 = [] := by
    rw [harrivedFirst]
    rfl
  have harrived : received.arrived =
      Function.update readFirst.arrived 1 (sampleRuns 1).stream := by
    rw [show received = readFirst.read true 1 (sampleRuns 1).stream from rfl,
      (MemDB.read_of_started true _ hsession).1, harrivedNone, List.nil_append]
  let second := handleSecond.foldl step received
  let first := handleFirst.foldl step second
  obtain ⟨-, hsecondArrived, hsecondPending⟩ : second.sessions = _ ∧ second.arrived = _ ∧ _ :=
    MemDB.foldl_handle (received.pending 1).length received 1
  obtain ⟨-, hfirstArrived, hfirstPending⟩ : first.sessions = _ ∧ first.arrived = _ ∧ _ :=
    MemDB.foldl_handle (received.pending 0).length second 0
  have hnoneFirst : first.pending 0 = [] := by
    rw [hfirstPending, Function.update_self, hsecondPending,
      Function.update_of_ne Nat.zero_ne_one, List.drop_length]
  have hnoneSecond : first.pending 1 = [] := by
    rw [hfirstPending, Function.update_of_ne Nat.one_ne_zero, hsecondPending,
      Function.update_self, List.drop_length]
  obtain ⟨hdbArrived, hdbPending⟩ :=
    MemDB.eof_frame sampleCreator true first 0
  have hdb : db = first.step sampleCreator true (.eof 0) := by
    show (handleSecond ++ (handleFirst ++ [MemDBEvent.eof 0])).foldl step received = _
    rw [List.foldl_append, List.foldl_append]
    rfl
  have hdelivers : Run.Along step (MemDB.Delivers fun i => (sampleRuns i).stream) start
      ([MemDBEvent.accept 0, .accept 1, .read 0 (sampleRuns 0).stream,
        .read 1 (sampleRuns 1).stream] ++ (handleSecond ++ (handleFirst ++ [.eof 0]))) := by
    refine Run.along_append_iff.mpr ⟨⟨trivial, trivial, ?_, ?_, trivial⟩, ?_⟩
    · exact MemDB.delivers_stream haccepted rfl rfl (sampleRuns 0).length_stream
    · exact MemDB.delivers_stream hsession hpending harrivedNone (sampleRuns 1).length_stream
    · refine Run.along_append_iff.mpr ⟨MemDB.along_handle .., ?_⟩
      exact Run.along_append_iff.mpr ⟨MemDB.along_handle .., hnoneFirst, trivial⟩
  obtain ⟨-, hnames, -, hfound⟩ := memdb_keeps_programs_apart rfl true [] (fun _ => none) 0
    (fun _ => .empty) sampleRuns _ hdelivers
  rw [List.foldl_append, show List.foldl step received _ = db from rfl] at hnames hfound
  have harrivedAll : db.arrived = received.arrived := by
    rw [hdb, hdbArrived, hfirstArrived, hsecondArrived]
  obtain ⟨storage, container, hopened, hlook, -⟩ := hfound 0
    (by rw [harrivedAll, harrived, Function.update_of_ne Nat.zero_ne_one, harrivedFirst,
          Function.update_self]; rfl)
    (by rw [hdb, hdbPending]; exact hnoneFirst)
  obtain ⟨other, -, hother, -⟩ := hfound 1
    (by rw [harrivedAll, harrived, Function.update_self])
    (by rw [hdb, hdbPending]; exact hnoneSecond)
  refine ⟨storage, other, hopened, hother,
    hnames 0 1 storage other hopened hother Nat.zero_ne_one, ?_⟩
  rw [hlook]
  rfl

end Memhook
