import Mathlib.Data.Finset.Card
import Mathlib.Data.List.Pairwise
import Memhook.Lib.Run
import Memhook.TraceInfo

/-!
# Names of storages

A server's sessions share one `BasicMappedStorageCreator`
(`src/memhookcore/basic_mapped_storage_creator.h`).  `GenerateUniquePath` looks for a
name that is no file; `MappingCleaner` removes what is under the name before the
segment is created, and for shared memory once more when the storage is destroyed.

A memory-mapped file is a file, so the name of an open storage is taken for every
later one.  A shared-memory object is not: `GenerateUniquePath` cannot see it, and two
storages get the same name whenever it has no other reason to tell them apart.

`boost::filesystem` splits the configured path; the model is given its parts.
-/

namespace Memhook

abbrev Name := List Char

/-- `MEMHOOK_SHARED_MEMORY`. -/
def memhookSharedMemory : Name := "ShmMemHook".toList

/-- The two instances of `MappingTraits`. -/
inductive Backend
  | mmf
  | shm
  deriving DecidableEq

/-- `BasicMappedStorageCreator`: `base` is `parent_path() / stem()` of the path and
`extension` its `extension()`; `getpid` is the process of the server. -/
structure Creator where
  backend : Backend
  path : Name
  base : Name
  extension : Name
  getpid : Address

/-- `boost::lexical_cast<std::string>` of a number. -/
def decimal (n : ℕ) : Name := Nat.toDigits 10 n

namespace Creator

variable (creator : Creator)

/-- `guide ? guide : ::getpid()`. -/
def pid (guide : Address) : Address := if guide ≠ 0 then guide else creator.getpid

/-- The loop of `GenerateUniquePath`, at most `fuel` times. -/
def uniquePathLoop (files : List Name) (pidExtension : Name) : ℕ → ℕ → Name → Option Name
  | 0, _, _ => none
  | fuel + 1, i, numExtension =>
      let uniquePath := creator.base ++ pidExtension ++ numExtension ++ creator.extension
      if uniquePath ∉ files then some uniquePath
      else uniquePathLoop files pidExtension fuel (i + 1) ('.' :: decimal i)

/-- `files` are the names for which `exists` is true. -/
def generateUniquePath (files : List Name) (guide : Address) : Name :=
  if creator.path ∉ files then creator.path
  else (creator.uniquePathLoop files ('.' :: decimal (creator.pid guide).toNat) (files.length + 1)
    0 []).getD creator.path

end Creator

/-! ## The server -/

/-- A storage of a session, and the segment that was created for it. -/
structure OpenStorage where
  session : ℕ
  guide : Address
  name : Name
  segment : ℕ
  deriving DecidableEq

/-- The file system, the segments behind the names, and the open storages. -/
structure Server where
  files : List Name
  segments : Name → Option ℕ
  nextSegment : ℕ
  storages : List OpenStorage

namespace Server

/-- `file_mapping::remove` or `shared_memory_object::remove`. -/
def remove (backend : Backend) (name : Name) (server : Server) : Server :=
  { server with
    files := if backend = .mmf then server.files.filter (· ≠ name) else server.files
    segments := Function.update server.segments name none }

/-- `create_only`. -/
def create (backend : Backend) (name : Name) (server : Server) : Server :=
  { server with
    files := if backend = .mmf then name :: server.files else server.files
    segments := Function.update server.segments name (some server.nextSegment)
    nextSegment := server.nextSegment + 1 }

variable (creator : Creator)

/-- `BasicMappedStorageCreator::New` for a session, which keeps its old storage until
this one is there. -/
def new (session : ℕ) (guide : Address) (server : Server) : Server :=
  let name := creator.generateUniquePath server.files guide
  let cleaned := server.remove creator.backend name
  { cleaned.create creator.backend name with
    storages := ⟨session, guide, name, cleaned.nextSegment⟩ :: server.storages }

/-- The destructor of a storage; only the cleaner of shared memory has one. -/
def destroy (storage : OpenStorage) (server : Server) : Server :=
  let cleaned := if creator.backend = .shm then server.remove .shm storage.name else server
  { cleaned with storages := server.storages.filter (·.segment ≠ storage.segment) }

/-- `storage_` of a session. -/
def storage? (session : ℕ) (server : Server) : Option OpenStorage :=
  server.storages.find? (·.session = session)

/-- A session is told to open a storage, or it ends. -/
inductive Event
  | newStorage (session : ℕ) (pid : Address)
  | close (session : ℕ)

/-- `MemDBSession::OnNewStorage` and the destructor of a session. -/
def step (server : Server) : Event → Server
  | .newStorage session pid =>
      match server.storage? session with
      | none => server.new creator session pid
      | some storage => (server.new creator session pid).destroy creator storage
  | .close session =>
      match server.storage? session with
      | none => server
      | some storage => server.destroy creator storage

/-- The states a run goes through; `OnNewStorage` passes through one in which the new
storage and the old one are both open. -/
def moments (server : Server) : List Event → List Server
  | [] => [server]
  | event :: rest =>
      server :: match event with
        | .newStorage session pid =>
            server.new creator session pid :: moments (server.step creator event) rest
        | .close _ => moments (server.step creator event) rest

/-- The name of each open storage stands for its own segment, and for no other's. -/
structure Separate (server : Server) : Prop where
  own : ∀ storage ∈ server.storages, server.segments storage.name = some storage.segment
  distinct : server.storages.Pairwise fun storage other => storage.name ≠ other.name

/-- What keeps shared-memory storages apart when one is opened: the configured path is
a file, and no open storage was opened for the same process.  If the path is not a
file, there must be no open storage. -/
def NoClash (server : Server) : Event → Prop
  | .newStorage _ pid => ∀ storage ∈ server.storages,
      creator.path ∈ server.files ∧ creator.pid storage.guide ≠ creator.pid pid
  | .close _ => True

/-- Nothing clashes in the whole run. -/
def NoClashFrom (server : Server) (events : List Event) : Prop :=
  Run.Along (step creator) (NoClash creator) server events

end Server

/-! ## Unique paths -/

theorem decimal_injective : Function.Injective decimal := by
  intro n m h
  have hvalue := congrArg (Nat.ofDigitChars 10 · 0) h
  simpa [decimal, Nat.ofDigitChars_ten_toDigits] using hvalue

theorem dot_notMem_decimal (n : ℕ) : '.' ∉ decimal n := by
  intro h
  have hdigit := Nat.isDigit_of_mem_toDigits (by decide) (by decide) h
  exact absurd hdigit (by decide)

namespace Creator

variable (creator : Creator)

/-- `num_extension` in the `k`-th round of the loop. -/
def numExtension : ℕ → Name
  | 0 => []
  | k + 1 => '.' :: decimal k

def candidate (guide : Address) (k : ℕ) : Name :=
  creator.base ++ ('.' :: decimal (creator.pid guide).toNat) ++ numExtension k ++ creator.extension

theorem numExtension_injective : Function.Injective numExtension := by
  intro k l h
  cases k with
  | zero =>
      cases l with
      | zero => rfl
      | succ l => simp [numExtension] at h
  | succ k =>
      cases l with
      | zero => simp [numExtension] at h
      | succ l =>
          obtain h : decimal k = decimal l := by simpa [numExtension] using h
          rw [decimal_injective h]

theorem candidate_injective (guide : Address) : Function.Injective (creator.candidate guide) := by
  intro k l h
  refine numExtension_injective ?_
  simpa [candidate] using h

theorem takeWhile_decimal (n k : ℕ) :
    (decimal n ++ numExtension k).takeWhile (· ≠ '.') = decimal n := by
  have hdigits : ∀ c ∈ decimal n, decide (c ≠ '.') = true := by
    intro c hc
    rw [decide_eq_true_iff]
    rintro rfl
    exact dot_notMem_decimal n hc
  rw [List.takeWhile_append_of_pos hdigits]
  cases k <;> simp [numExtension]

/-- The process shows in the name. -/
theorem pid_eq_of_candidate_eq {guide guide' : Address} {k l : ℕ}
    (h : creator.candidate guide k = creator.candidate guide' l) :
    creator.pid guide = creator.pid guide' := by
  have hbase := List.append_cancel_right h
  rw [List.append_assoc, List.append_assoc] at hbase
  have hsuffix : decimal (creator.pid guide).toNat ++ numExtension k =
      decimal (creator.pid guide').toNat ++ numExtension l := by
    simpa using List.append_cancel_left hbase
  -- what comes before the next dot is the process
  have hdecimal := congrArg (List.takeWhile (· ≠ '.')) hsuffix
  rw [takeWhile_decimal, takeWhile_decimal] at hdecimal
  exact UInt64.toNat_inj.mp (decimal_injective hdecimal)

/-- The loop tries the candidates one after the other. -/
theorem uniquePathLoop_cases (files : List Name) (guide : Address) (fuel k : ℕ) :
    (∃ l, creator.uniquePathLoop files ('.' :: decimal (creator.pid guide).toNat) fuel k
        (numExtension k) = some (creator.candidate guide l) ∧
        creator.candidate guide l ∉ files) ∨
      ∀ l < fuel, creator.candidate guide (k + l) ∈ files := by
  induction fuel generalizing k with
  | zero => exact .inr fun l hl => absurd hl (Nat.not_lt_zero l)
  | succ fuel ih =>
      by_cases hfree : creator.candidate guide k ∉ files
      · exact .inl ⟨k, if_pos hfree, hfree⟩
      · -- the name is taken: the next round has the next extension
        have hnext : creator.uniquePathLoop files ('.' :: decimal (creator.pid guide).toNat)
            (fuel + 1) k (numExtension k) =
            creator.uniquePathLoop files ('.' :: decimal (creator.pid guide).toNat) fuel (k + 1)
              (numExtension (k + 1)) := if_neg hfree
        rw [hnext]
        refine (ih (k + 1)).imp id ?_
        intro hall l hl
        cases l with
        | zero => exact not_not.mp hfree
        | succ l =>
            have := hall l (by omega)
            rwa [Nat.add_right_comm] at this

/-- There are more candidates than files. -/
theorem exists_candidate_notMem (files : List Name) (guide : Address) :
    ∃ l < files.length + 1, creator.candidate guide l ∉ files := by
  by_contra hnone
  push Not at hnone
  have hsubset : (Finset.range (files.length + 1)).image (creator.candidate guide) ⊆
      files.toFinset := by
    intro name hname
    obtain ⟨l, hl, rfl⟩ := Finset.mem_image.mp hname
    exact List.mem_toFinset.mpr (hnone l (Finset.mem_range.mp hl))
  have hcard := Finset.card_le_card hsubset
  rw [Finset.card_image_of_injective _ (creator.candidate_injective guide),
    Finset.card_range] at hcard
  have hfiles := List.toFinset_card_le files
  omega

/-- `GenerateUniquePath` finds a name, and it is no file. -/
theorem generateUniquePath_spec (files : List Name) (guide : Address) :
    creator.generateUniquePath files guide ∉ files ∧
      (creator.path ∉ files → creator.generateUniquePath files guide = creator.path) ∧
      (creator.path ∈ files → ∃ l, creator.generateUniquePath files guide =
        creator.candidate guide l) := by
  unfold generateUniquePath
  by_cases hpath : creator.path ∉ files
  · rw [if_pos hpath]
    exact ⟨hpath, fun _ => rfl, fun h => absurd h hpath⟩
  · rw [if_neg hpath]
    rcases creator.uniquePathLoop_cases files guide (files.length + 1) 0 with
      ⟨l, hloop, hfree⟩ | hall
    · rw [show numExtension 0 = [] from rfl] at hloop
      rw [hloop]
      exact ⟨hfree, fun h => absurd h hpath, fun _ => ⟨l, rfl⟩⟩
    · obtain ⟨l, hl, hfree⟩ := creator.exists_candidate_notMem files guide
      exact absurd (Nat.zero_add l ▸ hall l hl) hfree

/-- Only the process matters of the argument of `OnNewStorage`. -/
theorem generateUniquePath_congr (files : List Name) {guide guide' : Address}
    (h : creator.pid guide = creator.pid guide') :
    creator.generateUniquePath files guide = creator.generateUniquePath files guide' := by
  rw [generateUniquePath, h, generateUniquePath]

theorem pid_eq_of_generateUniquePath_eq {files : List Name} {guide guide' : Address}
    (hpath : creator.path ∈ files)
    (h : creator.generateUniquePath files guide = creator.generateUniquePath files guide') :
    creator.pid guide = creator.pid guide' := by
  obtain ⟨k, hk⟩ := (creator.generateUniquePath_spec files guide).2.2 hpath
  obtain ⟨l, hl⟩ := (creator.generateUniquePath_spec files guide').2.2 hpath
  rw [hk, hl] at h
  exact creator.pid_eq_of_candidate_eq h

end Creator

end Memhook
