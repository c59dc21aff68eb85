import Memhook.Storage.Creator

/-!
# Unique paths of files

The loop of `GenerateUniquePath` has no bound of its own.  It ends because its candidates
are pairwise different, so that one of the first `files.length + 1` is free, whatever the
files are called.  The counter of the source is a `size_t`, and `sizeLoop` is the loop with
that counter: it takes a file for each value, so it does not come around before the last of
`2 ^ 64` files.

A memory-mapped file that is created is a file from then on.  So the cleaner of a new
storage never finds anything under the name, and no name is given twice.
-/

namespace Memhook

namespace Creator

variable (creator : Creator)

/-- The loop of `GenerateUniquePath` with the counter in 64 bits. -/
def sizeLoop (files : List Name) (pidExtension : Name) : ℕ → UInt64 → Name → Option Name
  | 0, _, _ => none
  | fuel + 1, i, numExtension =>
      let uniquePath := creator.base ++ pidExtension ++ numExtension ++ creator.extension
      if uniquePath ∉ files then some uniquePath
      else sizeLoop files pidExtension fuel (i + 1) ('.' :: decimal i.toNat)

theorem sizeLoop_succ (files : List Name) (pidExtension : Name) (fuel : ℕ) (i : UInt64)
    (numExtension : Name) :
    creator.sizeLoop files pidExtension (fuel + 1) i numExtension =
      let uniquePath := creator.base ++ pidExtension ++ numExtension ++ creator.extension
      if uniquePath ∉ files then some uniquePath
      else creator.sizeLoop files pidExtension fuel (i + 1) ('.' :: decimal i.toNat) := rfl

/-- As long as the counter does not wrap around, its width does not matter. -/
theorem sizeLoop_eq (files : List Name) (pidExtension : Name) (fuel k : ℕ) (numExtension : Name)
    (hfuel : k + fuel ≤ 2 ^ 64 + 1) :
    creator.sizeLoop files pidExtension fuel (UInt64.ofNat k) numExtension =
      creator.uniquePathLoop files pidExtension fuel k numExtension := by
  induction fuel generalizing k numExtension with
  | zero => rfl
  | succ fuel ih =>
      simp only [sizeLoop_succ, uniquePathLoop]
      split
      · rfl
      · cases fuel with
        | zero => rfl
        | succ fuel =>
            have hk : (UInt64.ofNat k).toNat = k := UInt64.toNat_ofNat_of_lt' (by
              rw [UInt64.size]
              omega)
            have hsucc : UInt64.ofNat k + 1 = UInt64.ofNat (k + 1) := (UInt64.ofNat_add k 1).symm
            rw [hk, hsucc]
            exact ih (k + 1) _ (by omega)

/-- The loop ends with a name that is no file. -/
theorem exists_uniquePathLoop_eq (files : List Name) (guide : Address) :
    ∃ name, creator.uniquePathLoop files ('.' :: decimal (creator.pid guide).toNat)
      (files.length + 1) 0 [] = some name ∧ name ∉ files := by
  rcases creator.uniquePathLoop_cases files guide (files.length + 1) 0 with
    ⟨l, hloop, hfree⟩ | hall
  · exact ⟨_, hloop, hfree⟩
  · obtain ⟨l, hl, hfree⟩ := creator.exists_candidate_notMem files guide
    exact absurd (Nat.zero_add l ▸ hall l hl) hfree

end Creator

namespace Server

/-- `New` of a creator of memory-mapped files, for a session. -/
structure Creation where
  creator : Creator
  backend_eq : creator.backend = .mmf
  session : ℕ
  guide : Address

namespace Creation

/-- The name of the file. -/
def name (creation : Creation) (server : Server) : Name :=
  creation.creator.generateUniquePath server.files creation.guide

/-- The storage is created. -/
def run (server : Server) (creation : Creation) : Server :=
  server.new creation.creator creation.session creation.guide

/-- The cleaner of the new storage leaves all files. -/
def DeletesNothing (server : Server) (creation : Creation) : Prop :=
  (server.remove creation.creator.backend (creation.name server)).files = server.files

/-- The names of the files that are created one after the other. -/
def names (server : Server) : List Creation → List Name
  | [] => []
  | creation :: rest => creation.name server :: names (creation.run server) rest

theorem name_notMem (creation : Creation) (server : Server) :
    creation.name server ∉ server.files :=
  (creation.creator.generateUniquePath_spec server.files creation.guide).1

theorem deletesNothing (creation : Creation) (server : Server) :
    creation.DeletesNothing server := by
  have hother : ∀ file ∈ server.files, decide (file ≠ creation.name server) = true := by
    intro file hfile
    rw [decide_eq_true_iff]
    rintro rfl
    exact creation.name_notMem server hfile
  rw [DeletesNothing, remove, if_pos creation.backend_eq]
  exact List.filter_eq_self.mpr hother

theorem files_run (creation : Creation) (server : Server) :
    (creation.run server).files = creation.name server :: server.files := by
  have hfiles : (server.remove creation.creator.backend (creation.name server)).files =
      server.files := creation.deletesNothing server
  rw [← hfiles]
  exact if_pos creation.backend_eq

theorem along_deletesNothing (server : Server) (creations : List Creation) :
    Run.Along run DeletesNothing server creations := by
  induction creations generalizing server with
  | nil => exact trivial
  | cons creation rest ih => exact ⟨creation.deletesNothing server, ih _⟩

/-- The files of a server grow by the names that are created, the last one first. -/
theorem files_foldl_run (server : Server) (creations : List Creation) :
    (creations.foldl run server).files = (names server creations).reverse ++ server.files := by
  induction creations generalizing server with
  | nil => rfl
  | cons creation rest ih =>
      rw [List.foldl_cons, ih, files_run, names]
      simp

theorem notMem_names (server : Server) (creations : List Creation) :
    ∀ file ∈ server.files, file ∉ names server creations := by
  induction creations generalizing server with
  | nil => simp [names]
  | cons creation rest ih =>
      intro file hfile hmem
      rcases List.mem_cons.mp hmem with rfl | hmem
      · exact creation.name_notMem server hfile
      · have hlater : file ∈ (creation.run server).files := by
          rw [files_run]
          exact List.mem_cons_of_mem _ hfile
        exact ih (creation.run server) file hlater hmem

theorem nodup_names (server : Server) (creations : List Creation) :
    (names server creations).Nodup := by
  induction creations generalizing server with
  | nil => exact List.nodup_nil
  | cons creation rest ih =>
      -- what is created first is a file for all that follow
      have hfile : creation.name server ∈ (creation.run server).files := by
        rw [files_run]
        exact List.mem_cons_self
      exact List.nodup_cons.mpr ⟨notMem_names _ rest _ hfile, ih _⟩

end Creation

end Server

open Server in
/-- **No file is used twice.**  Whatever files there are, the loop of `GenerateUniquePath`
ends with a name that is none of them, and the path itself is taken if it is free.  So in
every sequence of storages in files, no cleaner deletes a file that was there, and the files
are all different. -/
theorem uniquePaths (creator : Creator) (files : List Name) (guide : Address) (server : Server)
    (creations : List Creation) :
    (∃ name, creator.uniquePathLoop files ('.' :: decimal (creator.pid guide).toNat)
        (files.length + 1) 0 [] = some name ∧ name ∉ files ∧
      (files.length ≤ 2 ^ 64 → creator.sizeLoop files ('.' :: decimal (creator.pid guide).toNat)
        (files.length + 1) 0 [] = some name)) ∧
    creator.generateUniquePath files guide ∉ files ∧
    (creator.path ∉ files → creator.generateUniquePath files guide = creator.path) ∧
    Run.Along Creation.run Creation.DeletesNothing server creations ∧
    (Creation.names server creations).Nodup ∧
    (∀ file ∈ server.files, file ∉ Creation.names server creations) ∧
    (creations.foldl Creation.run server).files =
      (Creation.names server creations).reverse ++ server.files := by
  obtain ⟨hfree, hpath, -⟩ := creator.generateUniquePath_spec files guide
  refine ⟨?_, hfree, hpath, Creation.along_deletesNothing server creations,
    Creation.nodup_names server creations, Creation.notMem_names server creations,
    Creation.files_foldl_run server creations⟩
  obtain ⟨name, hloop, hname⟩ := creator.exists_uniquePathLoop_eq files guide
  refine ⟨name, hloop, hname, ?_⟩
  intro hlength
  rw [← hloop]
  exact creator.sizeLoop_eq files _ (files.length + 1) 0 [] (by omega)

/-- A path `t.m`, of which the file and the first name for process 7 are there. -/
def sampleCreator : Creator := ⟨.mmf, ['t', '.', 'm'], ['t'], ['.', 'm'], 1⟩

/-- A server with the file `t.m`. -/
def sampleServer : Server := ⟨[['t', '.', 'm']], fun _ => none, 0, []⟩

/-- Two sessions, both for process 7. -/
def sampleCreations : List Server.Creation :=
  [⟨sampleCreator, rfl, 1, 7⟩, ⟨sampleCreator, rfl, 2, 7⟩]

theorem uniquePaths_sampleCreator :
    sampleCreator.sizeLoop [['t', '.', 'm'], ['t', '.', '7', '.', 'm']] ['.', '7'] 3 0 [] =
        some ['t', '.', '7', '.', '0', '.', 'm'] ∧
      sampleCreator.generateUniquePath [] 7 = ['t', '.', 'm'] ∧
      Run.Along Server.Creation.run Server.Creation.DeletesNothing sampleServer sampleCreations ∧
      (sampleCreations.foldl Server.Creation.run sampleServer).files =
        [['t', '.', '7', '.', '0', '.', 'm'], ['t', '.', '7', '.', 'm'], ['t', '.', 'm']] := by
  obtain ⟨⟨name, hloop, -, hsize⟩, -, -, halong, -, -, hfiles⟩ := uniquePaths sampleCreator
    [['t', '.', 'm'], ['t', '.', '7', '.', 'm']] 7 sampleServer sampleCreations
  obtain ⟨-, -, hpath, -⟩ := uniquePaths sampleCreator [] 7 sampleServer []
  refine ⟨?_, hpath (by decide), halong, hfiles.trans (by decide)⟩
  have hname : name = ['t', '.', '7', '.', '0', '.', 'm'] :=
    Option.some_inj.mp (hloop.symm.trans (by decide))
  exact (hsize (by decide)).trans (congrArg some hname)

end Memhook
