import Memhook.Glibc.Tables

/-!
# The lookup is a linear search

`linearSearch` goes through the maps of the scopes from `skip_map` on, and in each through the
symbols one by one.  It knows of no hash.  Over well-formed tables `GLIBC_dl_lookup_symbol`
returns what it finds.
-/

namespace Memhook

open Search

variable {p : ElfPlatform} {M : Type*} [DecidableEq M]

/-! ## The search -/

/-- The maps in the order of the search. -/
def searchOrder (skipMap : Option M) (scopes : List (List M)) : List M :=
  match skipMap with
  | none => scopes.flatten
  | some skip => scopes.flatten.dropWhile (· ≠ skip)

/-- The map is searched. -/
def Searched (maps : M → LinkMap p M) (skipMap : Option M) (map : M) : Prop :=
  some map ≠ skipMap ∧ (maps map).lRemoved = false ∧ (maps map).lNbuckets ≠ 0

instance (maps : M → LinkMap p M) (skipMap : Option M) (map : M) :
    Decidable (Searched maps skipMap map) :=
  inferInstanceAs (Decidable (_ ∧ _))

/-- The first symbol of a map that a lookup looks for. -/
def searchMap (maps : M → LinkMap p M) (first : M → ℕ) (name : CString) (skipMap : Option M)
    (map : M) : Option (SymRef M) :=
  if Searched maps skipMap map then
    (((maps map).symbolsFrom (first map)).find? ((maps map).accepts name)).map (SymRef.mk map)
  else none

/-- The first symbol of the name in the scopes, where the symbols of a map are those from the
index `first` on. -/
def linearSearch (maps : M → LinkMap p M) (first : M → ℕ) (name : CString)
    (scopes : List (List M)) (skipMap : Option M) : Option (SymRef M) :=
  (searchOrder skipMap scopes).findSome? fun id =>
    searchMap maps first name skipMap (maps id).lReal

/-! ## The loops -/

section Loops

variable {maps : M → LinkMap p M} {symbias : M → ℕ} {name : CString} {ref : Option (SymRef M)}
  (skipMap : Option M)

/-- The hash of System V is computed when it is needed for the first time. -/
def HashKnown (name : CString) (oldHash : BitVec p.long.bits) : Prop :=
  oldHash = noHash p ∨ oldHash = (dlElfHash p.long name).setWidth p.long.bits

/-- The value of `current_value` for what was found. -/
def SymVal.of (found : Option (SymRef M)) : SymVal M := ⟨found, found.map SymRef.map⟩

/-- The state when this was found. -/
structure Finds (name : CString) (found : Option (SymRef M)) (state : LookupState p M) :
    Prop where
  hashKnown : HashKnown name state.oldHash
  result : state.result = SymVal.of found

theorem lookupInMap_eq {map : M} {oldHash : BitVec p.long.bits}
    (h : Searchable (maps map) (symbias map)) (hnbuckets : (maps map).lNbuckets ≠ 0)
    (href : RefNamed maps name ref) (hknown : HashKnown name oldHash) :
    ∃ oldHash', HashKnown name oldHash' ∧
      lookupInMap maps name (dlNewHash p.fast name) ref map oldHash =
        some ((((maps map).symbolsFrom (symbias map)).find? ((maps map).defines name)).map
          (SymRef.mk map), oldHash') := by
  have htable := h.wellFormed hnbuckets
  cases htype : (maps map).table with
  | gnu bitmask idxbits shift buckets chainZero =>
      simp only [htype] at htable
      refine ⟨oldHash, hknown, ?_⟩
      simp only [lookupInMap, htype, gnuLookup_eq htable hnbuckets h.unique href, Option.map_some]
  | sysv buckets chain =>
      simp only [htype] at htable
      have hcomputed : (if oldHash = noHash p then
          (dlElfHash p.long name).setWidth p.long.bits else oldHash) =
            (dlElfHash p.long name).setWidth p.long.bits := by
        split
        · rfl
        next hne => exact hknown.resolve_left hne
      refine ⟨_, Or.inr rfl, ?_⟩
      simp only [lookupInMap, htype, hcomputed,
        sysvLookup_eq htable rfl hnbuckets h.unique href, Option.map_some]

theorem doLookupRound_eq {id : M} {state : LookupState p M}
    (h : Searchable (maps (maps id).lReal) (symbias (maps id).lReal))
    (href : RefNamed maps name ref) (hstate : Finds name none state) :
    ∃ state', Finds name (searchMap maps symbias name skipMap (maps id).lReal) state' ∧
      doLookupRound maps name (dlNewHash p.fast name) ref skipMap id state =
        some ((searchMap maps symbias name skipMap (maps id).lReal).isSome, state') := by
  set map := (maps id).lReal with hmap
  by_cases hsearched : Searched maps skipMap map
  · obtain ⟨hskip, hremoved, hnbuckets⟩ := hsearched
    obtain ⟨oldHash, hknown, hlookup⟩ := lookupInMap_eq h hnbuckets href hstate.hashKnown
    have hfound : searchMap maps symbias name skipMap map =
        (((((maps map).symbolsFrom (symbias map)).find? ((maps map).defines name)).filter
          (maps map).exports).map (SymRef.mk map)) := by
      rw [searchMap, if_pos ⟨hskip, hremoved, hnbuckets⟩, LinkMap.find?_accepts h.unique]
    rw [hfound]
    simp only [doLookupRound, ← hmap, if_neg hskip, hremoved, if_neg hnbuckets, hlookup,
      Bool.false_eq_true, if_false, Option.bind_some]
    cases hfind : ((maps map).symbolsFrom (symbias map)).find? ((maps map).defines name) with
    | none => exact ⟨{ state with oldHash }, ⟨hknown, hstate.result⟩, rfl⟩
    | some i =>
        have hi := (LinkMap.mem_symbolsFrom.mp (List.mem_of_find?_eq_some hfind)).2
        obtain ⟨entry, hentry⟩ := LinkMap.exists_entry hi
        have hexports : (maps map).exports i =
            decide (entry.stBind = stbWeak ∨ entry.stBind = stbGlobal) := by
          rw [LinkMap.exports, hentry, Option.any_some]
        simp only [Option.map_some, hentry, Option.filter_some, hexports, decide_eq_true_eq]
        split
        · exact ⟨_, ⟨hknown, rfl⟩, rfl⟩
        · -- the switch has no case for the binding, and the next map is tried
          exact ⟨{ state with oldHash }, ⟨hknown, hstate.result⟩, rfl⟩
  · rw [searchMap, if_neg hsearched]
    refine ⟨state, hstate, ?_⟩
    simp only [doLookupRound, ← hmap]
    split_ifs with hskip hremoved hnbuckets
    · rfl
    · rfl
    · rfl
    · exact absurd ⟨hskip, Bool.eq_false_iff.mpr hremoved, hnbuckets⟩ hsearched

/-- The first symbol in a list of maps. -/
theorem doLookup_eq {list : List M} {state : LookupState p M} (hlist : list ≠ [])
    (h : ∀ id ∈ list, Searchable (maps (maps id).lReal) (symbias (maps id).lReal))
    (href : RefNamed maps name ref) (hstate : Finds name none state) :
    ∃ state',
      Finds name (list.findSome? fun id => searchMap maps symbias name skipMap (maps id).lReal)
        state' ∧
      doLookup maps name (dlNewHash p.fast name) ref skipMap list state =
        some (if (list.findSome? fun id =>
          searchMap maps symbias name skipMap (maps id).lReal).isSome then 1 else 0, state') := by
  induction list generalizing state with
  | nil => exact absurd rfl hlist
  | cons id rest ih =>
      obtain ⟨state', hstate', hround⟩ :=
        doLookupRound_eq skipMap (h id List.mem_cons_self) href hstate
      rw [doLookup, hround, Option.bind_some, List.findSome?_cons]
      cases hfound : searchMap maps symbias name skipMap (maps id).lReal with
      | some sym =>
          rw [hfound] at hstate'
          exact ⟨state', hstate', rfl⟩
      | none =>
          rw [hfound] at hstate'
          by_cases hrest : rest = []
          · subst hrest
            exact ⟨state', hstate', rfl⟩
          · simp only [Option.isSome_none, if_neg hrest]
            exact ih hrest (fun id' hid' => h id' (List.mem_cons_of_mem id hid')) hstate'

/-- The first symbol in the scopes. -/
theorem scopeLoop_eq {scopes : List (List M)} {state : LookupState p M}
    (hscopes : ∀ scope ∈ scopes, scope ≠ [])
    (h : ∀ id ∈ scopes.flatten, Searchable (maps (maps id).lReal) (symbias (maps id).lReal))
    (href : RefNamed maps name ref) (hstate : Finds name none state) :
    scopeLoop maps name (dlNewHash p.fast name) ref skipMap 0 scopes state =
      some (some (SymVal.of (scopes.flatten.findSome? fun id =>
        searchMap maps symbias name skipMap (maps id).lReal))) := by
  induction scopes generalizing state with
  | nil =>
      rw [scopeLoop, hstate.result]
      rfl
  | cons scope scopes ih =>
      rw [List.flatten_cons] at h ⊢
      obtain ⟨state', hstate', hlookup⟩ :=
        doLookup_eq skipMap (hscopes scope List.mem_cons_self)
          (fun id hid => h id (List.mem_append_left _ hid)) href hstate
      rw [scopeLoop, List.drop_zero, hlookup, Option.bind_some, List.findSome?_append]
      cases hfound : scope.findSome? fun id =>
          searchMap maps symbias name skipMap (maps id).lReal with
      | some sym =>
          rw [hfound] at hstate'
          rw [Option.some_or, ← hstate'.result]
          rfl
      | none =>
          rw [hfound] at hstate'
          rw [Option.none_or]
          exact ih (fun scope' hscope' => hscopes scope' (List.mem_cons_of_mem scope hscope'))
            (fun id hid => h id (List.mem_append_right _ hid)) hstate'

end Loops

/-! ## Where the search begins -/

theorem skipIndex_spec {skip : M} {list : List M} (hskip : skip ∈ list) :
    ∃ i, skipIndex skip list = some i ∧ list.drop i = list.dropWhile (· ≠ skip) ∧
      list.drop i ≠ [] := by
  induction list with
  | nil => exact absurd hskip List.not_mem_nil
  | cons id rest ih =>
      by_cases hid : id = skip
      · subst hid
        exact ⟨0, by simp [skipIndex], by simp, by simp⟩
      · obtain ⟨i, hindex, hdrop, hne⟩ := ih ((List.mem_cons.mp hskip).resolve_left (Ne.symm hid))
        refine ⟨i + 1, ?_, ?_, hne⟩
        · rw [skipIndex, if_pos hid, hindex]
          rfl
        · rw [List.dropWhile_cons_of_pos (by simpa using hid)]
          exact hdrop

theorem mem_flatten_of_mem_searchOrder {skipMap : Option M} {scopes : List (List M)} {id : M}
    (hid : id ∈ searchOrder skipMap scopes) : id ∈ scopes.flatten := by
  cases skipMap with
  | none => exact hid
  | some skip => exact List.dropWhile_subset _ hid

/-- What is returned when this was found. -/
def LookupReply.of (maps : M → LinkMap p M) : Option (SymRef M) → LookupReply p M
  | none => ⟨none, none, maps⟩
  | some sym => ⟨some sym.map, some sym, markUsed maps sym.map⟩

@[simp] theorem LookupReply.of_ref (maps : M → LinkMap p M) (found : Option (SymRef M)) :
    (LookupReply.of maps found).ref = found := by
  cases found <;> rfl

@[simp] theorem LookupReply.of_map (maps : M → LinkMap p M) (found : Option (SymRef M)) :
    (LookupReply.of maps found).map = found.map SymRef.map := by
  cases found <;> rfl

theorem lookupReturn_of (maps : M → LinkMap p M) (found : Option (SymRef M)) :
    lookupReturn maps (some (SymVal.of found)) = some (.of maps found) := by
  cases found <;> rfl

theorem dlLookupSymbol_eq {maps : M → LinkMap p M} {symbias : M → ℕ} {name : CString}
    {ref : Option (SymRef M)} {scopes : List (List M)} {skipMap : Option M}
    (h : ∀ id ∈ scopes.flatten, Searchable (maps (maps id).lReal) (symbias (maps id).lReal))
    (hskip : ∀ skip ∈ skipMap, ∃ first ∈ scopes.head?, skip ∈ first)
    (hscopes : ∀ scope ∈ scopes, scope ≠ []) (href : RefNamed maps name ref) :
    dlLookupSymbol maps name ref scopes skipMap =
      some (.of maps (linearSearch maps symbias name scopes skipMap)) := by
  have hstate : Finds name none (⟨noHash p, ⟨none, none⟩⟩ : LookupState p M) := ⟨Or.inl rfl, rfl⟩
  cases skipMap with
  | none =>
      simp only [dlLookupSymbol, Option.bind_some, scopeLoop_eq none hscopes h href hstate]
      exact lookupReturn_of maps _
  | some skip =>
      obtain ⟨first, hfirst, hmem⟩ := hskip skip rfl
      obtain ⟨rest, rfl⟩ : ∃ rest, scopes = first :: rest := List.head?_eq_some_iff.mp hfirst
      obtain ⟨i, hindex, hdrop, hne⟩ := skipIndex_spec hmem
      -- the rest of the first scope is searched like a scope of its own
      have horder : searchOrder (some skip) (first :: rest) = (first.drop i :: rest).flatten := by
        rw [hdrop] at hne ⊢
        rw [searchOrder, List.flatten_cons, List.flatten_cons, List.dropWhile_append,
          if_neg (by simpa using hne)]
      have hscopes' : ∀ scope ∈ first.drop i :: rest, scope ≠ [] := by
        intro scope hscope
        rcases List.mem_cons.mp hscope with rfl | hrest
        · exact hne
        · exact hscopes scope (List.mem_cons_of_mem first hrest)
      have h' : ∀ id ∈ (first.drop i :: rest).flatten,
          Searchable (maps (maps id).lReal) (symbias (maps id).lReal) := by
        intro id hid
        rw [← horder] at hid
        exact h id (mem_flatten_of_mem_searchOrder hid)
      have hloop := scopeLoop_eq (some skip) hscopes' h' href hstate
      rw [← horder] at hloop
      simp only [dlLookupSymbol, List.head?_cons, Option.bind_some, hindex]
      rw [show scopeLoop maps name (dlNewHash p.fast name) ref (some skip) i (first :: rest)
        ⟨noHash p, ⟨none, none⟩⟩ = _ from hloop]
      exact lookupReturn_of maps _

/-! ## What a linear search finds -/

section Found

variable {maps : M → LinkMap p M} {symbias : M → ℕ} {name : CString} {scopes : List (List M)}
  {skipMap : Option M}

theorem searchMap_eq_none_iff {map : M} :
    searchMap maps symbias name skipMap map = none ↔
      (Searched maps skipMap map →
        ∀ i, symbias map ≤ i → (maps map).accepts name i = false) := by
  rw [searchMap]
  split
  next hsearched =>
    rw [Option.map_eq_none_iff, List.find?_eq_none]
    constructor
    · intro hnone _ i hfirst
      by_cases hi : i < (maps map).symtab.length
      · exact Bool.eq_false_iff.mpr (hnone i (LinkMap.mem_symbolsFrom.mpr ⟨hfirst, hi⟩))
      · exact LinkMap.accepts_eq_false_of_le (not_lt.mp hi)
    · intro hnone i hi
      exact Bool.eq_false_iff.mp (hnone hsearched i (LinkMap.mem_symbolsFrom.mp hi).1)
  next hsearched =>
    exact iff_of_true rfl fun hsearched' => absurd hsearched' hsearched

theorem linearSearch_eq_none_iff :
    linearSearch maps symbias name scopes skipMap = none ↔
      ∀ id ∈ searchOrder skipMap scopes, Searched maps skipMap (maps id).lReal →
        ∀ i, symbias (maps id).lReal ≤ i → (maps (maps id).lReal).accepts name i = false := by
  rw [linearSearch, List.findSome?_eq_none_iff]
  exact forall₂_congr fun _ _ => searchMap_eq_none_iff

/-- Where every symbol that is looked for is in its table, all symbols can be searched. -/
theorem searchMap_zero {map : M} (hunique : (maps map).UniqueFunctions)
    (hhashed : ∀ i < symbias map, (maps map).accepts name i = false) :
    searchMap maps symbias name skipMap map = searchMap maps (fun _ => 0) name skipMap map := by
  have hfind : ((maps map).symbolsFrom (symbias map)).find? ((maps map).accepts name) =
      ((maps map).symbolsFrom 0).find? ((maps map).accepts name) := by
    refine find?_eq_find? ?_ fun i => ?_
    · intro i _ j _ hi hj
      exact hunique name i j (Bool.and_eq_true_iff.mp hi).1 (Bool.and_eq_true_iff.mp hj).1
    · rw [LinkMap.mem_symbolsFrom, LinkMap.mem_symbolsFrom]
      constructor
      · rintro ⟨⟨-, hi⟩, haccepts⟩
        exact ⟨⟨Nat.zero_le i, hi⟩, haccepts⟩
      · rintro ⟨⟨-, hi⟩, haccepts⟩
        refine ⟨⟨not_lt.mp fun hlt => ?_, hi⟩, haccepts⟩
        exact Bool.false_ne_true ((hhashed i hlt).symm.trans haccepts)
  rw [searchMap, searchMap, hfind]

theorem linearSearch_zero
    (hunique : ∀ id ∈ scopes.flatten, (maps (maps id).lReal).UniqueFunctions)
    (hhashed : ∀ id ∈ scopes.flatten, ∀ i < symbias (maps id).lReal,
      (maps (maps id).lReal).accepts name i = false) :
    linearSearch maps symbias name scopes skipMap =
      linearSearch maps (fun _ => 0) name scopes skipMap := by
  rw [linearSearch, linearSearch, ← List.head?_filterMap, ← List.head?_filterMap]
  congr 1
  refine List.filterMap_congr fun id hid => ?_
  have hid' := mem_flatten_of_mem_searchOrder hid
  exact searchMap_zero (hunique id hid') (hhashed id hid')

end Found

/-- **A lookup is a linear search.**  `GLIBC_dl_lookup_symbol` returns the symbol and the map
that a search of the symbols one by one finds, and nothing if there is nothing to find.  Symbols
that are in no table are not found; where there are none to be found, all symbols are searched.
`GLIBC_do_sym`, the only caller, has no `ref`. -/
theorem dlLookupSymbol_eq_linearSearch (maps : M → LinkMap p M) (symbias : M → ℕ)
    (name : CString) (ref : Option (SymRef M)) (scopes : List (List M)) (skipMap : Option M)
    (htables : ∀ id ∈ scopes.flatten,
      (maps (maps id).lReal).WellFormed (symbias (maps id).lReal))
    (hunique : ∀ id ∈ scopes.flatten, (maps (maps id).lReal).UniqueFunctions)
    (hskip : ∀ skip ∈ skipMap, ∃ first ∈ scopes.head?, skip ∈ first)
    (hscopes : ∀ scope ∈ scopes, scope ≠ []) (href : RefNamed maps name ref) :
    ∃ reply, dlLookupSymbol maps name ref scopes skipMap = some reply ∧
      reply.ref = linearSearch maps symbias name scopes skipMap ∧
      reply.map = (linearSearch maps symbias name scopes skipMap).map SymRef.map ∧
      (reply.ref = none ↔ ∀ id ∈ searchOrder skipMap scopes,
        Searched maps skipMap (maps id).lReal → ∀ i, symbias (maps id).lReal ≤ i →
          (maps (maps id).lReal).accepts name i = false) ∧
      ((∀ id ∈ scopes.flatten, ∀ i < symbias (maps id).lReal,
          (maps (maps id).lReal).accepts name i = false) →
        reply.ref = linearSearch maps (fun _ => 0) name scopes skipMap) := by
  have hlookup := dlLookupSymbol_eq (fun id hid => ⟨htables id hid, hunique id hid⟩) hskip hscopes
    href
  refine ⟨_, hlookup, LookupReply.of_ref _ _, LookupReply.of_map _ _, ?_, ?_⟩
  · rw [LookupReply.of_ref]
    exact linearSearch_eq_none_iff
  · intro hhashed
    rw [LookupReply.of_ref]
    exact linearSearch_zero hunique hhashed

/-! ## Two libraries -/

def mallocName : CString := ⟨[109, 97, 108, 108, 111, 99], by decide⟩

def freeName : CString := ⟨[102, 114, 101, 101], by decide⟩

def lp64 : ElfPlatform := ⟨.bits64, .bits64, .bits64⟩

/-- The null symbol, and a global function. -/
def oneFunction : List (ElfSym lp64) := [⟨0, 0, 0#_⟩, ⟨1, 0x12, 0x1000#_⟩]

/-- The library of the hooks, which is skipped; a library with `free` and a table of System V;
a library with `malloc` and a table of GNU. -/
def libraries : Fin 3 → LinkMap lp64 (Fin 3)
  | 0 => ⟨0, false, 0, .sysv [] [], [], fun _ => freeName, 0, by decide⟩
  | 1 => ⟨1, false, 1, .sysv [1] [0, 0], oneFunction, fun _ => freeName, 0, by decide⟩
  | 2 => ⟨2, false, 1, .gnu [0x2000020000000000#_] 0 5 [1] [0, 221883709], oneFunction,
      fun _ => mallocName, 0, by decide⟩

theorem oneFunction_cases {i : ℕ} {entry : ElfSym lp64} (hi : 1 ≤ i)
    (hentry : oneFunction[i]? = some entry) : i = 1 ∧ entry = ⟨1, 0x12, 0x1000#_⟩ := by
  obtain ⟨hlt, -⟩ := List.getElem?_eq_some_iff.mp hentry
  have hlength : i < 2 := hlt
  obtain rfl : i = 1 := by omega
  exact ⟨rfl, (Option.some_injective _ hentry).symm⟩

/-- The one function is in the one bucket, whatever its hash. -/
theorem chained_oneFunction {map : LinkMap lp64 (Fin 3)} {hash : CString → ℕ}
    {next : ℕ → Option (Option ℕ)} (hsymtab : map.symtab = oneFunction)
    (hnbuckets : map.lNbuckets = 1) (hpath : Path next 1 [1]) : Chained map 1 hash [1] next := by
  refine ⟨?_, ?_, ?_⟩
  · rw [hnbuckets]
    rfl
  · intro bucket hbucket _
    obtain rfl := List.mem_singleton.mp hbucket
    rw [hsymtab]
    exact ⟨[1], hpath, by decide⟩
  · intro i entry hi hentry
    rw [hsymtab] at hentry
    obtain ⟨rfl, rfl⟩ := oneFunction_cases hi hentry
    refine ⟨1, [1], ?_, by decide, hpath, List.mem_singleton_self 1⟩
    rw [hnbuckets, show (1 : UInt32).toNat = 1 from rfl, Nat.mod_one]
    rfl

theorem sysvWellFormed_libraries : SysvWellFormed (libraries 1) 1 [1] [0, 0] :=
  ⟨chained_oneFunction rfl rfl (.last rfl), rfl⟩

theorem gnuWellFormed_libraries :
    GnuWellFormed (libraries 2) 1 [0x2000020000000000#_] 0 5 [1] [0, 221883709] := by
  refine ⟨chained_oneFunction rfl rfl (.last rfl), by decide, by decide, ?_, ?_⟩
  · intro i entry hi hentry
    obtain ⟨rfl, rfl⟩ := oneFunction_cases hi hentry
    exact ⟨221883709, rfl, by decide⟩
  · intro i entry hi hentry
    obtain ⟨rfl, rfl⟩ := oneFunction_cases hi hentry
    exact ⟨0x2000020000000000#_, rfl, by decide, by decide⟩

theorem wellFormed_libraries : ∀ map, (libraries map).WellFormed 1
  | 0 => fun hnbuckets => absurd rfl hnbuckets
  | 1 => fun _ => sysvWellFormed_libraries
  | 2 => fun _ => gnuWellFormed_libraries

theorem symtab_libraries : ∀ map, (libraries map).symtab = [] ∨ (libraries map).symtab = oneFunction
  | 0 => Or.inl rfl
  | 1 => Or.inr rfl
  | 2 => Or.inr rfl

theorem eq_one_of_defines_libraries {map : Fin 3} {name : CString} {i : ℕ}
    (h : (libraries map).defines name i = true) : i = 1 := by
  rcases symtab_libraries map with hsymtab | hsymtab <;> rw [LinkMap.defines, hsymtab] at h
  · simp at h
  · rcases i with _ | _ | i
    · simp [oneFunction] at h
    · rfl
    · simp [oneFunction] at h

theorem uniqueFunctions_libraries (map : Fin 3) : (libraries map).UniqueFunctions := by
  intro name i j hi hj
  rw [eq_one_of_defines_libraries hi, eq_one_of_defines_libraries hj]

theorem dlLookupSymbol_eq_linearSearch_libraries :
    ∃ reply, dlLookupSymbol libraries mallocName none [[0, 1], [2]] (some 0) = some reply ∧
      reply.ref = some ⟨2, 1⟩ ∧ reply.map = some 2 := by
  have hfound : linearSearch libraries (fun _ => 1) mallocName [[0, 1], [2]] (some 0) =
      some ⟨2, 1⟩ := by decide
  obtain ⟨reply, hlookup, href, hmap, -⟩ :=
    dlLookupSymbol_eq_linearSearch libraries (fun _ => 1) mallocName none [[0, 1], [2]] (some 0)
      (fun id _ => wellFormed_libraries _) (fun id _ => uniqueFunctions_libraries _)
      (by simp) (by simp) (by simp [RefNamed])
  exact ⟨reply, hlookup, href.trans hfound, by rw [hmap, hfound]; rfl⟩

end Memhook
