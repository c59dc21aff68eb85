import Memhook.Storage.Creator

/-!
# Sessions and each other's databases

Opening a storage under a name that no open storage has, and destroying an open one,
keep every name with its own segment.  So all depends on the name of a new storage.
For files it is free because the open storages are files.  For shared memory it is a
function of the process alone, and storages are apart exactly if `NoClash` holds.
-/

namespace Memhook

namespace Server

variable {creator : Creator} {server : Server}

/-- Where the names of the open storages come from. -/
def Named (creator : Creator) (server : Server) : Prop :=
  ∀ storage ∈ server.storages,
    match creator.backend with
    | .mmf => storage.name ∈ server.files
    | .shm => storage.name = creator.generateUniquePath server.files storage.guide

/-! ## One storage -/

theorem Separate.new (h : server.Separate) (session : ℕ) (guide : Address)
    (hfresh : ∀ storage ∈ server.storages,
      creator.generateUniquePath server.files guide ≠ storage.name) :
    (server.new creator session guide).Separate := by
  refine ⟨?_, List.pairwise_cons.mpr ⟨hfresh, h.distinct⟩⟩
  intro storage hstorage
  simp only [Server.new, create, remove]
  rcases List.mem_cons.mp hstorage with rfl | hstorage
  · simp [remove]
  · have hne : storage.name ≠ creator.generateUniquePath server.files guide :=
      (hfresh storage hstorage).symm
    rw [Function.update_of_ne hne, Function.update_of_ne hne]
    exact h.own storage hstorage

theorem Separate.destroy (h : server.Separate) {storage : OpenStorage}
    (hstorage : storage ∈ server.storages) : (server.destroy creator storage).Separate := by
  refine ⟨?_, h.distinct.filter _⟩
  intro other hother
  obtain ⟨hmem, hsegment⟩ := List.mem_filter.mp hother
  have hsegment : other.segment ≠ storage.segment := by simpa using hsegment
  have hown := h.own other hmem
  -- under one name they would have one segment
  have hname : other.name ≠ storage.name := by
    intro hname
    rw [hname, h.own storage hstorage] at hown
    exact hsegment (by simpa using hown.symm)
  unfold Server.destroy
  cases creator.backend with
  | mmf => exact hown
  | shm => simpa [remove, Function.update_of_ne hname] using hown

theorem Named.new (h : server.Named creator) (session : ℕ) (guide : Address) :
    (server.new creator session guide).Named creator := by
  intro storage hstorage
  have hnone := (creator.generateUniquePath_spec server.files guide).1
  rcases List.mem_cons.mp hstorage with rfl | hstorage
  · cases hbackend : creator.backend <;> simp [Server.new, create, remove, hbackend]
  · have hold := h storage hstorage
    cases hbackend : creator.backend with
    | mmf =>
        rw [hbackend] at hold
        -- the cleaner removes no file of an open storage
        have hne : storage.name ≠ creator.generateUniquePath server.files guide :=
          fun heq => hnone (heq ▸ hold)
        simp [Server.new, create, remove, hbackend, hne, show storage.name ∈ server.files from hold]
    | shm =>
        rw [hbackend] at hold
        simpa [Server.new, create, remove, hbackend] using hold

theorem Named.destroy (h : server.Named creator) (storage : OpenStorage) :
    (server.destroy creator storage).Named creator := by
  intro other hother
  have hold := h other (List.mem_filter.mp hother).1
  unfold Server.destroy
  cases hbackend : creator.backend <;> rw [hbackend] at hold <;> simpa [remove] using hold

/-! ## Names of new storages -/

/-- A file that is open is seen. -/
theorem fresh_of_mmf (hbackend : creator.backend = .mmf) (hnamed : server.Named creator)
    (guide : Address) : ∀ storage ∈ server.storages,
      creator.generateUniquePath server.files guide ≠ storage.name := by
  intro storage hstorage heq
  have hold := hnamed storage hstorage
  rw [hbackend] at hold
  have hfile : storage.name ∈ server.files := hold
  exact (creator.generateUniquePath_spec server.files guide).1 (heq ▸ hfile)

/-- Shared-memory storages get different names exactly if nothing clashes. -/
theorem fresh_iff_noClash (hbackend : creator.backend = .shm) (hnamed : server.Named creator)
    (session : ℕ) (guide : Address) :
    (∀ storage ∈ server.storages,
      creator.generateUniquePath server.files guide ≠ storage.name) ↔
      server.NoClash creator (.newStorage session guide) := by
  have hname : ∀ storage ∈ server.storages,
      storage.name = creator.generateUniquePath server.files storage.guide := by
    intro storage hstorage
    have hold := hnamed storage hstorage
    rwa [hbackend] at hold
  refine forall₂_congr ?_
  intro storage hstorage
  rw [hname storage hstorage]
  by_cases hpath : creator.path ∈ server.files
  · rw [and_iff_right hpath]
    refine not_congr ⟨?_, ?_⟩
    · intro heq
      exact (creator.pid_eq_of_generateUniquePath_eq hpath heq).symm
    · intro heq
      exact creator.generateUniquePath_congr server.files heq.symm
  · -- as long as the path is no file, everybody gets it
    have hsame : ∀ guide, creator.generateUniquePath server.files guide = creator.path :=
      fun guide => (creator.generateUniquePath_spec server.files guide).2.1 hpath
    simp [hsame, hpath]

/-- When the name of a new storage is free, for whatever reason. -/
theorem fresh_of_noClash (hnamed : server.Named creator) {session : ℕ} {guide : Address}
    (h : creator.backend = .mmf ∨ server.NoClash creator (.newStorage session guide)) :
    ∀ storage ∈ server.storages,
      creator.generateUniquePath server.files guide ≠ storage.name := by
  cases hbackend : creator.backend with
  | mmf => exact fresh_of_mmf hbackend hnamed guide
  | shm =>
      have hclash := h.resolve_left (by simp [hbackend])
      exact (fresh_iff_noClash hbackend hnamed session guide).mpr hclash

/-! ## One event -/

theorem Named.step (h : server.Named creator) (event : Event) :
    (server.step creator event).Named creator := by
  cases event with
  | newStorage session guide =>
      simp only [Server.step]
      split
      · exact h.new session guide
      · exact (h.new session guide).destroy _
  | close session =>
      simp only [Server.step]
      split
      · exact h
      · exact h.destroy _

theorem mem_of_storage? {session : ℕ} {storage : OpenStorage}
    (h : server.storage? session = some storage) : storage ∈ server.storages :=
  List.mem_of_find?_eq_some h

theorem Separate.step (h : server.Separate) (hnamed : server.Named creator) {event : Event}
    (hclash : creator.backend = .mmf ∨ server.NoClash creator event) :
    (server.step creator event).Separate := by
  cases event with
  | newStorage session guide =>
      have hnew := h.new session guide (fresh_of_noClash hnamed hclash)
      simp only [Server.step]
      split
      · exact hnew
      · next storage hstorage =>
          exact hnew.destroy (List.mem_cons_of_mem _ (mem_of_storage? hstorage))
  | close session =>
      simp only [Server.step]
      split
      · exact h
      · next storage hstorage => exact h.destroy (mem_of_storage? hstorage)

/-! ## Runs -/

/-- A server before the first session; files and segments of others may be there. -/
def initial (files : List Name) (segments : Name → Option ℕ) (nextSegment : ℕ) : Server where
  files := files
  segments := segments
  nextSegment := nextSegment
  storages := []

theorem separate_initial (files : List Name) (segments : Name → Option ℕ) (nextSegment : ℕ) :
    (initial files segments nextSegment).Separate :=
  ⟨fun _ hstorage => absurd hstorage List.not_mem_nil, List.Pairwise.nil⟩

theorem named_initial (creator : Creator) (files : List Name) (segments : Name → Option ℕ)
    (nextSegment : ℕ) : (initial files segments nextSegment).Named creator :=
  fun _ hstorage => absurd hstorage List.not_mem_nil

theorem separate_moments (h : server.Separate) (hnamed : server.Named creator)
    {events : List Event}
    (hclash : creator.backend = .mmf ∨ server.NoClashFrom creator events) :
    ∀ moment ∈ server.moments creator events, moment.Separate := by
  induction events generalizing server with
  | nil =>
      intro moment hmoment
      rwa [List.mem_singleton.mp hmoment]
  | cons event rest ih =>
      have hevent := hclash.imp_right And.left
      have hrest := ih (h.step hnamed hevent) (hnamed.step event) (hclash.imp_right And.right)
      intro moment hmoment
      rcases List.mem_cons.mp hmoment with rfl | hmoment
      · exact h
      cases event with
      | newStorage session guide =>
          rcases List.mem_cons.mp hmoment with rfl | hmoment
          · exact h.new session guide (fresh_of_noClash hnamed hevent)
          · exact hrest moment hmoment
      | close session => exact hrest moment hmoment

/-- The moment in which a new storage and the old ones are all open shows a clash. -/
theorem noClash_of_separate_new (hbackend : creator.backend = .shm)
    (hnamed : server.Named creator) {session : ℕ} {guide : Address}
    (h : (server.new creator session guide).Separate) :
    server.NoClash creator (.newStorage session guide) := by
  have hfresh := (List.pairwise_cons.mp h.distinct).1
  exact (fresh_iff_noClash hbackend hnamed session guide).mp hfresh

theorem noClashFrom_of_separate (hbackend : creator.backend = .shm)
    (hnamed : server.Named creator) {events : List Event}
    (h : ∀ moment ∈ server.moments creator events, moment.Separate) :
    server.NoClashFrom creator events := by
  induction events generalizing server with
  | nil => exact trivial
  | cons event rest ih =>
      have hlater := (List.forall_mem_cons.mp h).2
      cases event with
      | newStorage session guide =>
          obtain ⟨hnew, hrest⟩ := List.forall_mem_cons.mp hlater
          exact ⟨noClash_of_separate_new hbackend hnamed hnew, ih (hnamed.step _) hrest⟩
      | close session => exact ⟨trivial, ih (hnamed.step _) hlater⟩

/-- **Sessions and their databases.** In every run of any number of sessions, each open
storage keeps its name and its segment at every moment if and only if the storages are
files, or nothing clashes whenever one is opened in shared memory. -/
theorem separate_iff_noClash (creator : Creator) (files : List Name)
    (segments : Name → Option ℕ) (nextSegment : ℕ) (events : List Event) :
    (∀ moment ∈ (initial files segments nextSegment).moments creator events, moment.Separate) ↔
      creator.backend = .mmf ∨
        (initial files segments nextSegment).NoClashFrom creator events := by
  have hnamed := named_initial creator files segments nextSegment
  constructor
  · intro h
    cases hbackend : creator.backend with
    | mmf => exact .inl rfl
    | shm => exact .inr (noClashFrom_of_separate hbackend hnamed h)
  · exact separate_moments (separate_initial files segments nextSegment) hnamed

/-- A server with shared-memory storages under the name `memhook.shm`. -/
def shmCreator : Creator where
  backend := .shm
  path := ['m', 'e', 'm', 'h', 'o', 'o', 'k', '.', 's', 'h', 'm']
  base := ['m', 'e', 'm', 'h', 'o', 'o', 'k']
  extension := ['.', 's', 'h', 'm']
  getpid := 7

/-- Nothing is there, and one session has opened a storage. -/
def oneSession : Server := (initial [] (fun _ => none) 0).step shmCreator (.newStorage 1 11)

/-- Two processes connect: the second storage gets the name of the first, whose segment
is removed.  A session that opens a storage twice is left with one whose segment the
destructor of the first has removed. -/
theorem sessions_clash :
    (¬∀ moment ∈ (initial [] (fun _ => none) 0).moments shmCreator
        [.newStorage 1 11, .newStorage 2 12], moment.Separate) ∧
      ¬∀ moment ∈ (initial [] (fun _ => none) 0).moments shmCreator
        [.newStorage 1 11, .newStorage 1 11], moment.Separate := by
  constructor
  · intro h
    have htwo : (oneSession.step shmCreator (.newStorage 2 12)).Separate :=
      h _ (by simp [moments, oneSession])
    have hfirst := htwo.own ⟨1, 11, shmCreator.path, 0⟩ (by decide)
    exact absurd hfirst (by decide)
  · intro h
    have htwice : (oneSession.step shmCreator (.newStorage 1 11)).Separate :=
      h _ (by simp [moments, oneSession])
    have hsecond := htwice.own ⟨1, 11, shmCreator.path, 1⟩ (by decide)
    exact absurd hsecond (by decide)

end Server

end Memhook
