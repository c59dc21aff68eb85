import Memhook.Lib.Mutex
import Memhook.Lib.Run
import Memhook.Wire.Remote

/-!
# Several threads send

All threads of a client share the buffer `m_sbuf` and the stream of its
`NetworkMappedStorage`.  `Send` of `src/memhookcore/network_mapped_storage.cpp` computes the
size of its request, takes `m_sbuf_mutex`, writes the frame into the buffer and hands as many
bytes from the buffer to the stream.  Here each byte that is written into the buffer and each
byte that is handed on is a step of its own, and the threads take their steps in any order.

`prepare` is never followed by a `commit`, so every call gets the same part of the buffer, with
whatever the call before left in it.  Only the mutex keeps the frames whole.  `called` and
`order` record the calls, and the calls that got the mutex; the program does not have them.
-/

namespace Memhook

/-- Where a thread is in `Send`. -/
inductive SendPc
  | idle
  /-- The constructor of the lock. -/
  | locking (request : NetRequest)
  /-- The two `Write`s, with so many bytes in the buffer. -/
  | writing (request : NetRequest) (count : ℕ)
  /-- `sputn`, with so many bytes handed on. -/
  | putting (request : NetRequest) (count : ℕ)
  /-- The destructor of the lock. -/
  | unlocking

/-- The thread holds the mutex. -/
def SendPc.Inside : SendPc → Prop
  | writing _ _ | putting _ _ | unlocking => True
  | _ => False

instance (pc : SendPc) : Decidable pc.Inside :=
  match pc with
  | .idle | .locking _ => isFalse id
  | .writing _ _ | .putting _ _ | .unlocking => isTrue trivial

/-- The request of a thread that waits for the mutex. -/
def SendPc.waiting : SendPc → List NetRequest
  | locking request => [request]
  | _ => []

structure Senders (T : Type*) where
  bigEndian : Bool
  sbufMutex : Mutex.State T
  /-- What `prepare` returns. -/
  sbuf : ℕ → UInt8
  sent : Bytes
  pc : T → SendPc
  called : List (T × NetRequest)
  order : List (T × NetRequest)

inductive SendEvent (T : Type*)
  /-- A call of `Send`. -/
  | send (t : T) (request : NetRequest)
  | advance (t : T)

def SendEvent.Sendable {T : Type*} : SendEvent T → Prop
  | send _ request => request.Sendable
  | advance _ => True

/-- `buf_size`. -/
def NetRequest.bufSize (request : NetRequest) : ℕ :=
  let outbound : NetProtoOutbound := ⟨UInt64.ofNat (getSize request)⟩
  outbound.size.toNat + getSize outbound

theorem NetRequest.Sendable.bufSize_eq {request : NetRequest} (h : request.Sendable) :
    request.bufSize = request.frame.length := by
  have hsize : getSize request = request.encode.length :=
    getSize_eq (show WireFormat.Fits request from h.fits)
  have houtbound : ∀ outbound : NetProtoOutbound, getSize outbound = 8 := fun outbound => by
    rw [getSize_eq (show WireFormat.Fits outbound from trivial)]
    exact length_encode64 outbound.size
  rw [bufSize, houtbound, hsize, UInt64.toNat_ofNat_of_lt' h.size, frame, List.length_append,
    NetProtoOutbound.encode, length_encode64, Nat.add_comm]

namespace Senders

variable {T : Type*} [DecidableEq T]

/-- The threads of a client, with anything in the buffer. -/
def start (client : NetworkMappedStorage) (sbuf : ℕ → UInt8) : Senders T :=
  ⟨client.bigEndian, .free, sbuf, client.sent, fun _ => .idle, [], []⟩

def goto (senders : Senders T) (t : T) (pc : SendPc) : Senders T :=
  { senders with pc := Function.update senders.pc t pc }

/-- The next step of a thread in `Send`. -/
def advance (senders : Senders T) (t : T) : Senders T :=
  match senders.pc t with
  | .idle => senders
  | .locking request =>
      match Mutex.lock? t senders.sbufMutex with
      | none => senders
      | some sbufMutex =>
          { senders.goto t (.writing request 0) with
            sbufMutex := sbufMutex, order := senders.order ++ [(t, request)] }
  | .writing request count =>
      -- what the two `Write`s leave in the buffer, byte by byte
      match (NetworkMappedStorage.sendBuffer senders.bigEndian request).written[count]? with
      | some byte =>
          { senders.goto t (.writing request (count + 1)) with
            sbuf := Function.update senders.sbuf count byte }
      | none => senders.goto t (.putting request 0)
  | .putting request count =>
      if count < request.bufSize then
        { senders.goto t (.putting request (count + 1)) with
          sent := senders.sent ++ [senders.sbuf count] }
      else senders.goto t .unlocking
  | .unlocking =>
      match Mutex.unlock? t senders.sbufMutex with
      | none => senders
      | some sbufMutex => { senders.goto t .idle with sbufMutex := sbufMutex }

def step (senders : Senders T) : SendEvent T → Senders T
  | .send t request =>
      match senders.pc t with
      | .idle =>
          { senders.goto t (.locking request) with called := senders.called ++ [(t, request)] }
      | _ => senders
  | .advance t => senders.advance t

def run (senders : Senders T) (events : List (SendEvent T)) : Senders T :=
  events.foldl step senders

/-- The frames of some calls. -/
def frames (calls : List (T × NetRequest)) : Bytes := calls.flatMap fun call => call.2.frame

/-- The requests of one thread. -/
def requestsOf (t : T) (calls : List (T × NetRequest)) : List NetRequest :=
  (calls.filter fun call => call.1 = t).map Prod.snd

/-! ## The invariant -/

/-- What the thread that holds the mutex has done of its call. -/
def Stands (opened : Bytes) (senders : Senders T) (t : T) : SendPc → Prop
  | .idle | .locking _ => True
  | .writing request count => ∃ done, senders.order = done ++ [(t, request)] ∧
      senders.sent = opened ++ frames done ∧ count ≤ request.frame.length ∧
      ∀ i < count, request.frame[i]? = some (senders.sbuf i)
  | .putting request count => ∃ done, senders.order = done ++ [(t, request)] ∧
      senders.sent = opened ++ frames done ++ request.frame.take count ∧
      count ≤ request.frame.length ∧
      ∀ i < request.frame.length, request.frame[i]? = some (senders.sbuf i)
  | .unlocking => senders.sent = opened ++ frames senders.order

structure Invariant (opened : Bytes) (senders : Senders T) : Prop where
  guards : Mutex.Guards SendPc.Inside senders.sbufMutex senders.pc
  stands : ∀ t, Stands opened senders t (senders.pc t)
  /-- Between two calls there are only whole frames. -/
  whole : (∀ t, ¬ (senders.pc t).Inside) → senders.sent = opened ++ frames senders.order
  called : ∀ t, requestsOf t senders.called =
    requestsOf t senders.order ++ (senders.pc t).waiting
  sendable : ∀ call ∈ senders.called, call.2.Sendable

variable {opened : Bytes} {senders senders' : Senders T} {t : T} {pc : SendPc}

omit [DecidableEq T] in
theorem stands_of_not_inside (h : ¬ pc.Inside) (t : T) : Stands opened senders t pc := by
  cases pc <;> first | trivial | exact absurd trivial h

theorem waiting_of_inside (h : pc.Inside) : pc.waiting = [] := by
  cases pc <;> first | rfl | exact h.elim

omit [DecidableEq T] in
@[simp] theorem frames_append_singleton (done : List (T × NetRequest)) (call : T × NetRequest) :
    frames (done ++ [call]) = frames done ++ call.2.frame := by
  simp [frames]

@[simp] theorem requestsOf_append_self (t : T) (calls : List (T × NetRequest))
    (request : NetRequest) : requestsOf t (calls ++ [(t, request)]) =
      requestsOf t calls ++ [request] := by
  simp [requestsOf]

theorem requestsOf_append_of_ne {t u : T} (h : u ≠ t) (calls : List (T × NetRequest))
    (request : NetRequest) : requestsOf u (calls ++ [(t, request)]) = requestsOf u calls := by
  simp [requestsOf, Ne.symm h]

theorem mem_requestsOf {calls : List (T × NetRequest)} {request : NetRequest} :
    request ∈ requestsOf t calls ↔ (t, request) ∈ calls := by
  simp [requestsOf]

theorem invariant_start (client : NetworkMappedStorage) (sbuf : ℕ → UInt8) :
    (start client sbuf : Senders T).Invariant client.sent where
  guards := fun _ => not_false
  stands := fun _ => trivial
  whole := fun _ => by simp [start, frames]
  called := fun _ => rfl
  sendable := by simp [start]

namespace Invariant

/-- The requests that got the mutex can be sent. -/
theorem sendable_order (h : senders.Invariant opened) :
    ∀ call ∈ senders.order, call.2.Sendable := by
  rintro ⟨t, request⟩ hcall
  have hrequest : request ∈ requestsOf t senders.called := by
    rw [h.called t]
    exact List.mem_append_left _ (mem_requestsOf.mpr hcall)
  exact h.sendable _ (mem_requestsOf.mp hrequest)

/-- The holder of the mutex goes on with its call. -/
theorem work (h : senders.Invariant opened) (hinside : (senders.pc t).Inside)
    (hpc : senders'.pc = Function.update senders.pc t pc) (hnext : pc.Inside)
    (hmutex : senders'.sbufMutex = senders.sbufMutex) (hcalled : senders'.called = senders.called)
    (horder : senders'.order = senders.order) (hstands : Stands opened senders' t pc) :
    senders'.Invariant opened := by
  have hself : senders'.pc t = pc := by rw [hpc, Function.update_self]
  have hother : ∀ u, u ≠ t → senders'.pc u = senders.pc u := fun u hu => by
    rw [hpc, Function.update_of_ne hu]
  have halone : ∀ u, u ≠ t → ¬ (senders'.pc u).Inside := fun u hu hinside' =>
    hu (h.guards.unique (hother u hu ▸ hinside') hinside)
  refine ⟨?_, ?_, ?_, ?_, hcalled ▸ h.sendable⟩
  · rw [hmutex, hpc]
    exact h.guards.stay (iff_of_true hnext hinside)
  · intro u
    by_cases hu : u = t
    · rw [hu, hself]
      exact hstands
    · exact stands_of_not_inside (halone u hu) u
  · intro hnobody
    exact absurd (hself ▸ hnext) (hnobody t)
  · intro u
    rw [hcalled, horder, h.called u]
    by_cases hu : u = t
    · rw [hu, hself, waiting_of_inside hnext, waiting_of_inside hinside]
    · rw [hother u hu]

theorem lock (h : senders.Invariant opened) {request : NetRequest}
    (hpc : senders.pc t = .locking request) {sbufMutex : Mutex.State T}
    (hlock : Mutex.lock? t senders.sbufMutex = some sbufMutex) :
    ({ senders.goto t (.writing request 0) with
        sbufMutex := sbufMutex, order := senders.order ++ [(t, request)] } :
      Senders T).Invariant opened := by
  have houtside : ¬ (senders.pc t).Inside := hpc ▸ not_false
  have hinside : (SendPc.writing request 0).Inside := trivial
  have hguards := h.guards.lock hlock houtside hinside
  -- the mutex was free, so the frames are whole
  have hnobody : ∀ u, ¬ (senders.pc u).Inside := by
    intro u hu
    have hne : u ≠ t := fun heq => houtside (heq ▸ hu)
    refine hne (hguards.unique (u := t) ?_ ?_)
    · rwa [Function.update_of_ne hne]
    · rwa [Function.update_self]
  refine ⟨hguards, ?_, ?_, ?_, h.sendable⟩
  · intro u
    by_cases hu : u = t
    · subst hu
      show Stands _ _ _ (Function.update senders.pc u (.writing request 0) u)
      rw [Function.update_self]
      exact ⟨senders.order, rfl, h.whole hnobody, Nat.zero_le _, by simp⟩
    · refine stands_of_not_inside ?_ u
      show ¬ (Function.update senders.pc t (.writing request 0) u).Inside
      rw [Function.update_of_ne hu]
      exact hnobody u
  · intro hnone
    refine absurd ?_ (hnone t)
    show (Function.update senders.pc t (.writing request 0) t).Inside
    rwa [Function.update_self]
  · intro u
    show requestsOf u senders.called = requestsOf u (senders.order ++ [(t, request)]) ++
      (Function.update senders.pc t (.writing request 0) u).waiting
    by_cases hu : u = t
    · rw [hu, Function.update_self, requestsOf_append_self, h.called t, hpc]
      simp [SendPc.waiting]
    · rw [Function.update_of_ne hu, requestsOf_append_of_ne hu, h.called u]

theorem unlock (h : senders.Invariant opened) (hpc : senders.pc t = .unlocking) :
    ({ senders.goto t .idle with sbufMutex := .free } : Senders T).Invariant opened := by
  have hinside : (senders.pc t).Inside := hpc ▸ trivial
  have houtside : ¬ SendPc.idle.Inside := not_false
  have hguards := h.guards.unlock hinside houtside
  have hsent : senders.sent = opened ++ frames senders.order := by
    have hstands := h.stands t
    rwa [hpc] at hstands
  refine ⟨hguards, fun u => stands_of_not_inside (hguards u) u, fun _ => hsent, ?_, h.sendable⟩
  intro u
  show requestsOf u senders.called = requestsOf u senders.order ++
    (Function.update senders.pc t .idle u).waiting
  by_cases hu : u = t
  · rw [hu, Function.update_self, h.called t, hpc]
    rfl
  · rw [Function.update_of_ne hu, h.called u]

theorem write (h : senders.Invariant opened) {request : NetRequest} {count : ℕ}
    (hpc : senders.pc t = .writing request count) : (senders.advance t).Invariant opened := by
  have hinside : (senders.pc t).Inside := hpc ▸ trivial
  have hstands := h.stands t
  rw [hpc] at hstands
  obtain ⟨done, horder, hsent, hcount, hbuffer⟩ := hstands
  have hrequest : request.Sendable := h.sendable_order (t, request) (by simp [horder])
  simp only [advance, hpc, NetworkMappedStorage.sendBuffer_eq senders.bigEndian hrequest]
  split
  next byte hbyte =>
    have hlt : count < request.frame.length := (List.getElem?_eq_some_iff.mp hbyte).1
    refine h.work hinside rfl trivial rfl rfl rfl ⟨done, horder, hsent, hlt, ?_⟩
    intro i hi
    show request.frame[i]? = some (Function.update senders.sbuf count byte i)
    -- the byte that is written now, or one from before
    by_cases heq : i = count
    · subst heq
      rw [Function.update_self, hbyte]
    · rw [Function.update_of_ne heq]
      exact hbuffer i (by omega)
  next hend =>
    have hle : request.frame.length ≤ count := List.getElem?_eq_none_iff.mp hend
    refine h.work hinside rfl trivial rfl rfl rfl ⟨done, horder, ?_, Nat.zero_le _, ?_⟩
    · rw [List.take_zero, List.append_nil]
      exact hsent
    · exact fun i hi => hbuffer i (by omega)

theorem put (h : senders.Invariant opened) {request : NetRequest} {count : ℕ}
    (hpc : senders.pc t = .putting request count) : (senders.advance t).Invariant opened := by
  have hinside : (senders.pc t).Inside := hpc ▸ trivial
  have hstands := h.stands t
  rw [hpc] at hstands
  obtain ⟨done, horder, hsent, hcount, hbuffer⟩ := hstands
  have hrequest : request.Sendable := h.sendable_order (t, request) (by simp [horder])
  simp only [advance, hpc, hrequest.bufSize_eq]
  split
  next hlt =>
    refine h.work hinside rfl trivial rfl rfl rfl ⟨done, horder, ?_, hlt, hbuffer⟩
    show senders.sent ++ [senders.sbuf count] = _
    rw [hsent, List.take_add_one, hbuffer count hlt, Option.toList_some, ← List.append_assoc]
  next hge =>
    refine h.work hinside rfl trivial rfl rfl rfl ?_
    show senders.sent = opened ++ frames senders.order
    rw [hsent, horder, frames_append_singleton, List.take_of_length_le (Nat.not_lt.mp hge),
      List.append_assoc]

theorem advance (h : senders.Invariant opened) (t : T) : (senders.advance t).Invariant opened := by
  cases hpc : senders.pc t with
  | writing request count => exact h.write hpc
  | putting request count => exact h.put hpc
  | idle =>
      simp only [Senders.advance, hpc]
      exact h
  | locking request =>
      simp only [Senders.advance, hpc]
      split
      next => exact h
      next sbufMutex hlock => exact h.lock hpc hlock
  | unlocking =>
      have hinside : (senders.pc t).Inside := hpc ▸ trivial
      simp only [Senders.advance, hpc, h.guards.unlock?_eq hinside]
      exact h.unlock hpc

theorem send (h : senders.Invariant opened) (hpc : senders.pc t = .idle) {request : NetRequest}
    (hrequest : request.Sendable) :
    ({ senders.goto t (.locking request) with called := senders.called ++ [(t, request)] } :
      Senders T).Invariant opened := by
  have hborder : (SendPc.locking request).Inside ↔ (senders.pc t).Inside := hpc ▸ Iff.rfl
  have hinside : ∀ u, (Function.update senders.pc t (.locking request) u).Inside ↔
      (senders.pc u).Inside := by
    intro u
    by_cases hu : u = t
    · rw [hu, Function.update_self]
      exact hborder
    · rw [Function.update_of_ne hu]
  refine ⟨h.guards.stay hborder, ?_, ?_, ?_, ?_⟩
  · intro u
    show Stands opened senders u (Function.update senders.pc t (.locking request) u)
    by_cases hu : u = t
    · rw [hu, Function.update_self]
      trivial
    · rw [Function.update_of_ne hu]
      exact h.stands u
  · exact fun hnobody => h.whole fun u hu => hnobody u ((hinside u).mpr hu)
  · intro u
    show requestsOf u (senders.called ++ [(t, request)]) = requestsOf u senders.order ++
      (Function.update senders.pc t (.locking request) u).waiting
    by_cases hu : u = t
    · rw [hu, Function.update_self, requestsOf_append_self, h.called t, hpc]
      simp [SendPc.waiting]
    · rw [Function.update_of_ne hu, requestsOf_append_of_ne hu, h.called u]
  · intro call hcall
    rcases List.mem_append.mp hcall with hcall | hcall
    · exact h.sendable call hcall
    · rw [List.mem_singleton.mp hcall]
      exact hrequest

theorem step (h : senders.Invariant opened) {event : SendEvent T} (hevent : event.Sendable) :
    (senders.step event).Invariant opened := by
  cases event with
  | advance t => exact h.advance t
  | send t request =>
      simp only [Senders.step]
      split
      next hpc => exact h.send hpc hevent
      next => exact h

theorem run (h : senders.Invariant opened) {events : List (SendEvent T)}
    (hevents : ∀ event ∈ events, event.Sendable) : (senders.run events).Invariant opened :=
  Run.invariant (P := fun _ event => event.Sendable) (fun h hevent => Invariant.step h hevent) h
    (.of_forall hevents)

/-- What has been sent is the beginning of the frames. -/
theorem sent_prefix (h : senders.Invariant opened) :
    senders.sent <+: opened ++ frames senders.order := by
  by_cases hnobody : ∀ t, ¬ (senders.pc t).Inside
  · exact ⟨[], by rw [List.append_nil, h.whole hnobody]⟩
  · obtain ⟨t, ht⟩ := not_forall.mp hnobody
    have hstands := h.stands t
    cases hpc : senders.pc t with
    | idle => simp [hpc, SendPc.Inside] at ht
    | locking request => simp [hpc, SendPc.Inside] at ht
    | writing request count =>
        rw [hpc] at hstands
        obtain ⟨done, horder, hsent, -⟩ := hstands
        rw [hsent, horder, frames_append_singleton, ← List.append_assoc]
        exact List.prefix_append _ _
    | putting request count =>
        rw [hpc] at hstands
        obtain ⟨done, horder, hsent, -⟩ := hstands
        rw [hsent, horder, frames_append_singleton, ← List.append_assoc]
        exact (List.prefix_append_right_inj _).mpr (List.take_prefix _ _)
    | unlocking =>
        rw [hpc] at hstands
        exact ⟨[], (List.append_nil _).trans hstands⟩

end Invariant

/-! ## What the server gets -/

open Connection in
/-- **Concurrent calls of `Send` are serialised.**  Any number of threads of a client send in
any interleaving.  What is in the stream is always the beginning of the frames of the requests
in the order in which their calls got the mutex, and when no call holds the mutex there are
only whole frames.  No call is lost, repeated or overtaken by a later one of its thread: what a
thread has called is what got the mutex, and the call that still waits for it.  And if none of
the calls is a `Clear`, which the server refuses, then whatever part of the stream has arrived at
the server, in whatever pieces, the server has handled an initial part of these requests, in this
order; all of them if everything has arrived and no call holds the mutex. -/
theorem sends_are_serialised (clientBigEndian serverBigEndian : Bool) (pid : UInt32)
    (now : TimePoint) (sbuf : ℕ → UInt8) {S : Type} [MappedStorage S] (storageCreator : Address → S)
    (events : List (SendEvent T)) (hevents : ∀ event ∈ events, event.Sendable) :
    let client := NetworkMappedStorage.new clientBigEndian pid now
    let senders := (Senders.start client sbuf : Senders T).run events
    let requests := ⟨kNetReqNewStorage, ⟨pid.toUInt64, 0, now⟩, []⟩ :: senders.order.map Prod.snd
    senders.sent <+: requests.flatMap NetRequest.frame ∧
      ((∀ t, ¬ (senders.pc t).Inside) → senders.sent = requests.flatMap NetRequest.frame) ∧
      (∀ t, requestsOf t senders.called =
        requestsOf t senders.order ++ (senders.pc t).waiting) ∧
      ((∀ request ∈ requests, request.Known) → ∀ reads,
        Connection.start.Delivers serverBigEndian storageCreator reads →
        reads.flatten <+: senders.sent →
        ∃ session condition callback,
          Connection.start.run serverBigEndian storageCreator reads =
              .reading session condition callback ∧
            session.handled <+: requests ∧
            ((∀ t, ¬ (senders.pc t).Inside) → reads.flatten = senders.sent →
              session.handled = requests)) := by
  intro client senders requests
  have hnew : (⟨kNetReqNewStorage, ⟨pid.toUInt64, 0, now⟩, []⟩ : NetRequest).Sendable :=
    NetRequest.sendable_of_nil _ _
  have h : senders.Invariant client.sent := (invariant_start client sbuf).run hevents
  have hstream : requests.flatMap NetRequest.frame = client.sent ++ frames senders.order := by
    have hopened : client.sent = (⟨kNetReqNewStorage, ⟨pid.toUInt64, 0, now⟩, []⟩ :
        NetRequest).frame := by
      show (NetworkMappedStorage.send _ _).sent = _
      rw [NetworkMappedStorage.sent_send hnew, List.nil_append]
    rw [List.flatMap_cons, List.flatMap_map, hopened]
    rfl
  have hsendable : ∀ request ∈ requests, request.Sendable := by
    intro request hrequest
    rcases List.mem_cons.mp hrequest with rfl | hrequest
    · exact hnew
    · obtain ⟨call, hcall, rfl⟩ := List.mem_map.mp hrequest
      exact h.sendable_order call hcall
  refine ⟨hstream ▸ h.sent_prefix, fun hnobody => (h.whole hnobody).trans hstream.symm, h.called,
    ?_⟩
  intro hknown reads hreads harrived
  obtain ⟨future, hfuture⟩ : reads.flatten <+: requests.flatMap NetRequest.frame :=
    harrived.trans (hstream ▸ h.sent_prefix)
  have hconforming : Conforming false (reads.flatten ++ future) :=
    hfuture ▸ conforming_frames hsendable (.inr (by simp [requests]))
  have hfollows := (follows_start hconforming).run serverBigEndian hreads
  rw [List.nil_append] at hfollows
  obtain ⟨session, condition, callback, rest, hrun, -, hhandled, hrequests, -, -⟩ :=
    hfollows.of_frames hsendable hknown hfuture
  refine ⟨session, condition, callback, hrun, ⟨rest, hrequests.symm⟩, ?_⟩
  intro hnobody hall
  have hflatten : reads.flatten = requests.flatMap NetRequest.frame :=
    hall.trans ((h.whole hnobody).trans hstream.symm)
  obtain rfl : future = [] := by simpa [hflatten] using hfuture
  rw [hrun, hflatten] at hfollows
  exact (hfollows.complete hsendable).1.handled

/-- Two threads call, the second one gets the mutex first, and both go on to the end of their
calls. -/
def crossing : List (SendEvent Bool) :=
  [.send true ⟨kNetReqRemove, ⟨16, 0, 0⟩, []⟩, .send false ⟨kNetReqRemove, ⟨32, 0, 0⟩, []⟩,
    .advance false] ++ (List.replicate 90 [.advance true, .advance false]).flatten ++
      List.replicate 90 (.advance true)

/-- What the server gets of it. -/
def crossingRequests : List NetRequest :=
  [⟨kNetReqNewStorage, ⟨4321, 0, 7⟩, []⟩, ⟨kNetReqRemove, ⟨32, 0, 0⟩, []⟩,
    ⟨kNetReqRemove, ⟨16, 0, 0⟩, []⟩]

/-- The stream, cut inside the second body and behind the headers. -/
def crossingReads : List Bytes :=
  let stream := crossingRequests.flatMap NetRequest.frame
  [stream.take 60, (stream.drop 60).take 20, (stream.drop 80).take 8, stream.drop 88]

/-- What the threads have done in the end. -/
def crossed : Senders Bool :=
  (start (NetworkMappedStorage.new false 4321 7) fun _ => 0).run crossing

theorem requests_crossed : ⟨kNetReqNewStorage, ⟨(4321 : UInt32).toUInt64, 0, 7⟩, []⟩ ::
    crossed.order.map Prod.snd = crossingRequests := by
  decide +kernel

theorem not_inside_crossed : ∀ t, ¬ (crossed.pc t).Inside := by
  decide +kernel

theorem sendable_crossing : ∀ event ∈ crossing, event.Sendable := by
  intro event hevent
  simp only [crossing, List.mem_append, List.mem_cons, List.not_mem_nil, or_false,
    List.mem_flatten, List.mem_replicate] at hevent
  rcases hevent with ((rfl | rfl | rfl) | ⟨_, ⟨-, rfl⟩, hmem⟩) | ⟨-, rfl⟩
  · exact NetRequest.sendable_of_nil _ _
  · exact NetRequest.sendable_of_nil _ _
  · trivial
  · simp only [List.mem_cons, List.not_mem_nil, or_false] at hmem
    rcases hmem with rfl | rfl <;> trivial
  · trivial

theorem sends_are_serialised_crossing :
    requestsOf true crossed.called = [⟨kNetReqRemove, ⟨16, 0, 0⟩, []⟩] ∧
      crossed.sent = crossingReads.flatten ∧
      ∃ session condition callback,
        (Connection.start : Connection BasicMappedStorage).run true (fun _ => .empty)
            crossingReads = .reading session condition callback ∧
          session.handled = crossingRequests := by
  have hsendable : ∀ request ∈ crossingRequests, request.Sendable := by
    simp only [crossingRequests, List.forall_mem_cons]
    exact ⟨NetRequest.sendable_of_nil _ _, NetRequest.sendable_of_nil _ _,
      NetRequest.sendable_of_nil _ _, nofun⟩
  have hknown : ∀ request ∈ crossingRequests, request.Known := by decide
  have hdelivers : (Connection.start : Connection BasicMappedStorage).Delivers true
      (fun _ => .empty) crossingReads :=
    Connection.delivers_of_sized true _ hsendable (by decide) hknown (by decide)
      (by decide +kernel) (by decide +kernel)
  have hserialised := sends_are_serialised false true 4321 7 (fun _ => 0)
    (fun _ => BasicMappedStorage.empty) crossing sendable_crossing
  have hcrossed : (start (NetworkMappedStorage.new false 4321 7) fun _ => 0).run crossing =
      crossed := rfl
  simp only [hcrossed, requests_crossed] at hserialised
  obtain ⟨-, hwhole, hcalled, hserver⟩ := hserialised
  have hsent : crossed.sent = crossingReads.flatten :=
    (hwhole not_inside_crossed).trans (by decide +kernel)
  obtain ⟨session, condition, callback, hrun, -, hall⟩ :=
    hserver hknown crossingReads hdelivers ⟨[], by rw [List.append_nil, hsent]⟩
  exact ⟨(hcalled true).trans (by decide +kernel), hsent, session, condition, callback, hrun,
    hall not_inside_crossed hsent.symm⟩

end Senders

end Memhook
