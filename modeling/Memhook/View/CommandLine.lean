import Memhook.Lib.OrderedMap
import Memhook.Storage.Creator
import Memhook.View.LiveBlocks

/-!
# The command line of `memview`

`main` of `src/memview/memview.cpp` goes through the options that were given and sets them on the
view one after the other.  They come from a `po::variables_map`, which is a `std::map` by the
names of the options.  So the order is that of the names, whatever the order on the command line
was: of several sort orders the time wins over the size and the size over the address, and the
filters are asked in the order

  `max-time`, `max-time-from-now`, `max-time-from-start`, `min-size`, `min-time`,
  `min-time-from-now`, `min-time-from-start`.

An option that measures from the start measures from the time of the first record that the options
before it accept, records at the epoch apart.  So `--min-size` moves the start of
`--min-time-from-start`, but not the start of `--max-time-from-start`.  `select` says what is left
of the records, and `memview_report` that `main` prints this.

`boost::program_options` splits the command line; the model is given its map.  The texts of times
and durations are read by `boost::chrono`, which is a parameter.
-/

namespace Memhook

/-! ## The options that were given -/

/-- An entry of `po::variables_map`: an option that `parse_command_line_arguments` declares, with
its value. -/
inductive VariableValue
  | help
  | sharedMemory (name : Name)
  | mappedFile (path : Name)
  | showCallstack (value : Bool)
  | aggregate (value : Bool)
  | sortByTime
  | sortBySize
  | sortByAddress
  | minTimeFromNow (text : String)
  | maxTimeFromNow (text : String)
  | minTimeFromStart (text : String)
  | maxTimeFromStart (text : String)
  | minTime (text : String)
  | maxTime (text : String)
  | minSize (size : UInt64)
  | getStorageInfo
  | noLock (value : Bool)
  deriving DecidableEq

namespace VariableValue

/-- The key. -/
def first : VariableValue → String
  | help => "help"
  | sharedMemory _ => "shared-memory"
  | mappedFile _ => "mapped-file"
  | showCallstack _ => "show-callstack"
  | aggregate _ => "aggregate"
  | sortByTime => "sort-by-time"
  | sortBySize => "sort-by-size"
  | sortByAddress => "sort-by-address"
  | minTimeFromNow _ => "min-time-from-now"
  | maxTimeFromNow _ => "max-time-from-now"
  | minTimeFromStart _ => "min-time-from-start"
  | maxTimeFromStart _ => "max-time-from-start"
  | minTime _ => "min-time"
  | maxTime _ => "max-time"
  | minSize _ => "min-size"
  | getStorageInfo => "get-storage-info"
  | noLock _ => "no-lock"

end VariableValue

/-- `po::variables_map`, a `std::map` by the names of the options. -/
abbrev VariablesMap := OrderedMap VariableValue.first

namespace VariableValue

/-- `as<std::string>()`. -/
def text? : VariableValue → Option String
  | minTimeFromNow text | maxTimeFromNow text | minTimeFromStart text | maxTimeFromStart text
  | minTime text | maxTime text => some text
  | _ => none

/-- `as<std::string>()` of a path. -/
def path? : VariableValue → Option Name
  | sharedMemory name => some name
  | mappedFile path => some path
  | _ => none

/-- `as<bool>()`. -/
def bool? : VariableValue → Option Bool
  | showCallstack value | aggregate value | noLock value => some value
  | _ => none

/-- `as<std::size_t>()`. -/
def size? : VariableValue → Option UInt64
  | minSize size => some size
  | _ => none

end VariableValue

namespace VariablesMap

/-- `count`. -/
def count (map : VariablesMap) (key : String) : Bool := (map.find? key).isSome

end VariablesMap

/-! ## `main` -/

/-- What `memview` reads beside its command line: `ChronoTimePointFromString` and
`ChronoDurationFromString`, the clock when the option of a name is made, and the segments that
`open_only` finds. -/
structure Surroundings where
  chronoTimePointFromString : String → TimePoint
  chronoDurationFromString : String → Int64
  now : String → TimePoint
  segments : Backend → Name → Option BasicMappedStorage

namespace Memview

/-- How `main` ends. -/
inductive Outcome
  | failure
  | storageInfo
  | written (report : Report)

variable (surroundings : Surroundings)

/-- The body of the loop over the map. -/
def setEntry (view : MappedViewBase) : VariableValue → MappedViewBase
  | .sortByAddress => view.setOptionFlag .kSortByAddress true
  | .sortBySize => view.setOptionFlag .kSortBySize true
  | .sortByTime => view.setOptionFlag .kSortByTime true
  | .showCallstack value => view.setOptionFlag .kShowCallStack value
  | .minTimeFromNow text => view.setOption (.minTimeFromNow
      (surroundings.now "min-time-from-now") (surroundings.chronoDurationFromString text))
  | .maxTimeFromNow text => view.setOption (.maxTimeFromNow
      (surroundings.now "max-time-from-now") (surroundings.chronoDurationFromString text))
  | .minTimeFromStart text =>
      view.setOption (.minTimeFromStart 0 (surroundings.chronoDurationFromString text))
  | .maxTimeFromStart text =>
      view.setOption (.maxTimeFromStart 0 (surroundings.chronoDurationFromString text))
  | .minTime text => view.setOption (.minTime (surroundings.chronoTimePointFromString text))
  | .maxTime text => view.setOption (.maxTime (surroundings.chronoTimePointFromString text))
  | .minSize size => view.setOption (.minSize size)
  | .help | .sharedMemory _ | .mappedFile _ | .aggregate _ | .getStorageInfo | .noLock _ => view

/-- The loop over the map. -/
def setEntries (entries : List VariableValue) (view : MappedViewBase) : MappedViewBase :=
  entries.foldl (setEntry surroundings) view

end Memview

namespace Memview

variable (surroundings : Surroundings) (traversals : Traversals)

/-- Which works are made, and the path they open. -/
def place (map : VariablesMap) : Backend × Name :=
  match (map.find? "mapped-file").bind VariableValue.path? with
  | some path => (.mmf, path)
  | none => (.shm, ((map.find? "shared-memory").bind VariableValue.path?).getD memhookSharedMemory)

/-- The view before the loop. -/
def newView (map : VariablesMap) : MappedViewBase :=
  match (map.find? "no-lock").bind VariableValue.bool? with
  | some value => MappedViewBase.new.setOptionFlag .kNoLock value
  | none => .new

/-- `main`, with the checks of `parse_command_line_arguments`; nobody interrupts it. -/
def main (map : VariablesMap) : Outcome :=
  if map.count "help" then .failure
  else if map.count "shared-memory" && map.count "mapped-file" then .failure
  else
    match surroundings.segments (place map).1 (place map).2 with
    | none => .failure
    | some container =>
        if map.count "get-storage-info" then .storageInfo
        else
          .written (MappedView.writeImpl traversals (fun _ => false) container
            ⟨setEntries surroundings map.entries (newView map), map.count "aggregate"⟩)

end Memview

/-! ## What is left of the records -/

/-- The order of the report. -/
def VariablesMap.order (map : VariablesMap) : OptionFlag :=
  if map.count "sort-by-time" then .kSortByTime
  else if map.count "sort-by-size" then .kSortBySize
  else if map.count "sort-by-address" then .kSortByAddress
  else .kSortByTime

/-- Whether the report has the call stacks. -/
def VariablesMap.showsCallstack (map : VariablesMap) : Bool :=
  (map.find? "show-callstack").bind VariableValue.bool? = some true

section Select

variable (surroundings : Surroundings) (map : VariablesMap)

/-- The bounds that were given. -/
def timeBound? (key : String) : Option TimePoint :=
  ((map.find? key).bind VariableValue.text?).map surroundings.chronoTimePointFromString

def durationBound? (key : String) : Option Int64 :=
  ((map.find? key).bind VariableValue.text?).map surroundings.chronoDurationFromString

/-- The records whose distance from the start has the property.  The start is the first time among
these records that is not the epoch; a record before it is at the epoch and at no distance. -/
def keptFromStart (P : Int64 → Int64 → Bool) (bound : Option Int64)
    (records : List BasicTraceInfo) : List BasicTraceInfo :=
  match bound with
  | none => records
  | some duration =>
      ((measured records).filter fun p => P duration (p.1.timestamp - p.2)).map Prod.fst

/-- What `memview` reports of the records. -/
def select (records : List BasicTraceInfo) : List BasicTraceInfo :=
  let age (key : String) (tinfo : BasicTraceInfo) : Int64 := surroundings.now key - tinfo.timestamp
  let bounded := records.filter fun tinfo =>
    (timeBound? surroundings map "max-time").all (tinfo.timestamp ≤ ·) &&
      (durationBound? surroundings map "max-time-from-now").all
        (age "max-time-from-now" tinfo ≤ ·)
  let early := keptFromStart (fun duration distance => distance ≤ duration)
    (durationBound? surroundings map "max-time-from-start") bounded
  let large := early.filter fun tinfo =>
    ((map.find? "min-size").bind VariableValue.size?).all (tinfo.memsize ≥ ·) &&
      (timeBound? surroundings map "min-time").all (tinfo.timestamp ≥ ·) &&
      (durationBound? surroundings map "min-time-from-now").all
        (age "min-time-from-now" tinfo ≥ ·)
  keptFromStart (fun duration distance => distance ≥ duration)
    (durationBound? surroundings map "min-time-from-start") large

end Select

/-! ## The loop over the map -/

namespace VariableValue

variable (surroundings : Surroundings)

/-- The flag that an entry sets. -/
def flag? : VariableValue → Option (OptionFlag × Bool)
  | sortByAddress => some (.kSortByAddress, true)
  | sortBySize => some (.kSortBySize, true)
  | sortByTime => some (.kSortByTime, true)
  | showCallstack value => some (.kShowCallStack, value)
  | _ => none

/-- The option that an entry adds. -/
def option? : VariableValue → Option MappedViewOption
  | minTimeFromNow text => some (.minTimeFromNow
      (surroundings.now "min-time-from-now") (surroundings.chronoDurationFromString text))
  | maxTimeFromNow text => some (.maxTimeFromNow
      (surroundings.now "max-time-from-now") (surroundings.chronoDurationFromString text))
  | minTimeFromStart text =>
      some (.minTimeFromStart 0 (surroundings.chronoDurationFromString text))
  | maxTimeFromStart text =>
      some (.maxTimeFromStart 0 (surroundings.chronoDurationFromString text))
  | minTime text => some (.minTime (surroundings.chronoTimePointFromString text))
  | maxTime text => some (.maxTime (surroundings.chronoTimePointFromString text))
  | minSize size => some (.minSize size)
  | _ => none

end VariableValue

namespace Memview

variable (surroundings : Surroundings)

theorem options_setEntry (view : MappedViewBase) (entry : VariableValue) :
    (setEntry surroundings view entry).options =
      view.options ++ (entry.option? surroundings).toList := by
  cases entry <;> first | rfl | exact (List.append_nil _).symm

theorem options_setEntries (entries : List VariableValue) (view : MappedViewBase) :
    (setEntries surroundings entries view).options =
      view.options ++ entries.filterMap (VariableValue.option? surroundings) := by
  induction entries generalizing view with
  | nil => exact (List.append_nil _).symm
  | cons entry rest ih =>
      rw [setEntries, List.foldl_cons, ← setEntries, ih, options_setEntry, List.append_assoc,
        List.filterMap_cons]
      cases entry.option? surroundings <;> rfl

/-- Flags are set one after the other. -/
def setFlags (flags : List (OptionFlag × Bool)) (view : MappedViewBase) : MappedViewBase :=
  flags.foldl (fun view flag => view.setOptionFlag flag.1 flag.2) view

theorem flags_setFlags_congr (flags : List (OptionFlag × Bool)) {view view' : MappedViewBase}
    (h : view.flags = view'.flags) :
    (setFlags flags view).flags = (setFlags flags view').flags := by
  induction flags generalizing view view' with
  | nil => exact h
  | cons flag rest ih => exact ih (by simp only [MappedViewBase.setOptionFlag, h])

theorem flags_setEntry (view : MappedViewBase) (entry : VariableValue) :
    (setEntry surroundings view entry).flags = (setFlags entry.flag?.toList view).flags := by
  cases entry <;> rfl

theorem flags_setEntries (entries : List VariableValue) (view : MappedViewBase) :
    (setEntries surroundings entries view).flags =
      (setFlags (entries.filterMap VariableValue.flag?) view).flags := by
  induction entries generalizing view with
  | nil => rfl
  | cons entry rest ih =>
      have hsplit : (entry :: rest).filterMap VariableValue.flag? =
          entry.flag?.toList ++ rest.filterMap VariableValue.flag? := by
        rw [List.filterMap_cons]
        cases entry.flag? <;> rfl
      rw [setEntries, List.foldl_cons, ← setEntries, ih, hsplit, setFlags.eq_def (_ ++ _),
        List.foldl_append]
      exact flags_setFlags_congr _ (flags_setEntry surroundings view entry)

/-- The names of all options, in their order. -/
def keys : List String :=
  ["aggregate", "get-storage-info", "help", "mapped-file", "max-time", "max-time-from-now",
    "max-time-from-start", "min-size", "min-time", "min-time-from-now", "min-time-from-start",
    "no-lock", "shared-memory", "show-callstack", "sort-by-address", "sort-by-size",
    "sort-by-time"]

theorem keys_sorted : keys.Pairwise (· < ·) := by decide

theorem first_mem_keys (entry : VariableValue) : entry.first ∈ keys := by
  cases entry <;> simp [VariableValue.first, keys]

def filterKeys : List String :=
  ["max-time", "max-time-from-now", "max-time-from-start", "min-size", "min-time",
    "min-time-from-now", "min-time-from-start"]

def flagKeys : List String := ["show-callstack", "sort-by-address", "sort-by-size", "sort-by-time"]

theorem filterMap_option? (map : VariablesMap) :
    map.entries.filterMap (VariableValue.option? surroundings) =
      filterKeys.flatMap fun key =>
        ((map.find? key).bind (VariableValue.option? surroundings)).toList := by
  have hrelevant : ∀ entry : VariableValue, (entry.option? surroundings).isSome →
      entry.first ∈ filterKeys := by
    intro entry hentry
    cases entry <;> simp_all [VariableValue.option?, VariableValue.first, filterKeys]
  rw [map.filterMap_entries (VariableValue.option? surroundings) keys_sorted first_mem_keys
    hrelevant]
  rfl

theorem filterMap_flag? (map : VariablesMap) :
    map.entries.filterMap VariableValue.flag? =
      flagKeys.flatMap fun key => ((map.find? key).bind VariableValue.flag?).toList := by
  have hrelevant : ∀ entry : VariableValue, entry.flag?.isSome → entry.first ∈ flagKeys := by
    intro entry hentry
    cases entry <;> simp_all [VariableValue.flag?, VariableValue.first, flagKeys]
  rw [map.filterMap_entries VariableValue.flag? keys_sorted first_mem_keys hrelevant]
  rfl

/-! ### The filters -/

section Filters

variable (map : VariablesMap)

/-- An option with a text is made from the text. -/
theorem option_of_text (key : String) (construct : String → VariableValue)
    {make : String → MappedViewOption}
    (hkey : ∀ entry : VariableValue, entry.first = key → ∃ text, entry = construct text)
    (htext : ∀ text, (construct text).text? = some text)
    (hoption : ∀ text, (construct text).option? surroundings = some (make text)) :
    (map.find? key).bind (VariableValue.option? surroundings) =
      ((map.find? key).bind VariableValue.text?).map make := by
  rw [Option.map_bind]
  refine map.bind_find?_congr fun entry hentry => ?_
  obtain ⟨text, rfl⟩ := hkey entry hentry
  rw [hoption, Function.comp_apply, htext, Option.map_some]

theorem option_of_size :
    (map.find? "min-size").bind (VariableValue.option? surroundings) =
      ((map.find? "min-size").bind VariableValue.size?).map .minSize := by
  rw [Option.map_bind]
  refine map.bind_find?_congr fun entry hentry => ?_
  cases entry <;> first | rfl | simp [VariableValue.first] at hentry

/-- The options of the view, in the order in which they are asked. -/
theorem filterMap_option?_eq :
    map.entries.filterMap (VariableValue.option? surroundings) =
      ((timeBound? surroundings map "max-time").map .maxTime).toList ++
      (((durationBound? surroundings map "max-time-from-now").map
        (.maxTimeFromNow (surroundings.now "max-time-from-now"))).toList ++
      (((durationBound? surroundings map "max-time-from-start").map
        (.maxTimeFromStart 0)).toList ++
      ((((map.find? "min-size").bind VariableValue.size?).map .minSize).toList ++
      (((timeBound? surroundings map "min-time").map .minTime).toList ++
      (((durationBound? surroundings map "min-time-from-now").map
        (.minTimeFromNow (surroundings.now "min-time-from-now"))).toList ++
      ((durationBound? surroundings map "min-time-from-start").map
        (.minTimeFromStart 0)).toList))))) := by
  rw [filterMap_option? surroundings map, filterKeys]
  simp only [List.flatMap_cons, List.flatMap_nil, List.append_nil, timeBound?, durationBound?,
    Option.map_map]
  rw [option_of_text surroundings map "max-time" .maxTime
      (by intro entry hentry; cases entry <;> simp_all [VariableValue.first])
      (fun _ => rfl) (fun _ => rfl),
    option_of_text surroundings map "max-time-from-now" .maxTimeFromNow
      (by intro entry hentry; cases entry <;> simp_all [VariableValue.first])
      (fun _ => rfl) (fun _ => rfl),
    option_of_text surroundings map "max-time-from-start" .maxTimeFromStart
      (by intro entry hentry; cases entry <;> simp_all [VariableValue.first])
      (fun _ => rfl) (fun _ => rfl),
    option_of_text surroundings map "min-time" .minTime
      (by intro entry hentry; cases entry <;> simp_all [VariableValue.first])
      (fun _ => rfl) (fun _ => rfl),
    option_of_text surroundings map "min-time-from-now" .minTimeFromNow
      (by intro entry hentry; cases entry <;> simp_all [VariableValue.first])
      (fun _ => rfl) (fun _ => rfl),
    option_of_text surroundings map "min-time-from-start" .minTimeFromStart
      (by intro entry hentry; cases entry <;> simp_all [VariableValue.first])
      (fun _ => rfl) (fun _ => rfl),
    option_of_size]
  rfl

/-- An option that looks at one record is a filter. -/
theorem accepted_bound {β : Type*} (bound : Option β) (make : β → MappedViewOption)
    (test : BasicTraceInfo → β → Bool) (hplain : ∀ b, ¬ (make b).FromStart)
    (htest : ∀ b tinfo, ((make b).call tinfo.toTraceInfoBase).1 = test tinfo b)
    (records : List BasicTraceInfo) :
    accepted (bound.map make).toList records =
      records.filter fun tinfo => bound.all (test tinfo) := by
  cases bound with
  | none => simp
  | some b =>
      have hone : MappedViewBase.Plain ⟨[make b], 0⟩ := by
        intro option hoption
        rw [List.mem_singleton.mp hoption]
        exact hplain b
      refine (accepted_of_plain hone records).trans (List.filter_congr fun tinfo _ => ?_)
      simp [MappedViewBase.accepts, htest]

/-- An option that measures from the start. -/
theorem accepted_fromStart (bound : Option Int64) (make : Int64 → MappedViewOption)
    (P : Int64 → Int64 → Bool) (hfresh : ∀ duration, (make duration).Fresh)
    (haccepts : ∀ duration tinfo start,
      (make duration).accepts tinfo start = P duration (tinfo.timestamp - start))
    (records : List BasicTraceInfo) :
    accepted (bound.map make).toList records = keptFromStart P bound records := by
  cases bound with
  | none => exact accepted_nil records
  | some duration =>
      refine (accepted_singleton (hfresh duration) records).trans ?_
      simp only [haccepts]
      rfl

theorem filter_filter_and {α : Type*} (p q : α → Bool) (l : List α) :
    (l.filter p).filter q = l.filter fun x => p x && q x := by
  rw [List.filter_filter]
  exact List.filter_congr fun x _ => Bool.and_comm _ _

/-- What the options of the command line accept. -/
theorem accepted_entries (records : List BasicTraceInfo) :
    accepted (map.entries.filterMap (VariableValue.option? surroundings)) records =
      select surroundings map records := by
  rw [filterMap_option?_eq]
  simp only [accepted_append]
  -- from the last option to the first
  rw [accepted_fromStart _ (.minTimeFromStart 0) (fun duration distance => distance ≥ duration)
      (fun _ => rfl) (fun _ _ _ => rfl),
    accepted_bound _ (.minTimeFromNow _) (fun tinfo duration =>
        decide (surroundings.now "min-time-from-now" - tinfo.timestamp ≥ duration)) (fun _ => id)
      (fun _ _ => rfl),
    accepted_bound _ .minTime (fun tinfo time => decide (tinfo.timestamp ≥ time)) (fun _ => id)
      (fun _ _ => rfl),
    accepted_bound _ .minSize (fun tinfo size => decide (tinfo.memsize ≥ size)) (fun _ => id)
      (fun _ _ => rfl),
    accepted_fromStart _ (.maxTimeFromStart 0) (fun duration distance => distance ≤ duration)
      (fun _ => rfl) (fun _ _ _ => rfl),
    accepted_bound _ (.maxTimeFromNow _) (fun tinfo duration =>
        decide (surroundings.now "max-time-from-now" - tinfo.timestamp ≤ duration)) (fun _ => id)
      (fun _ _ => rfl),
    accepted_bound _ .maxTime (fun tinfo time => decide (tinfo.timestamp ≤ time)) (fun _ => id)
      (fun _ _ => rfl)]
  simp only [select, filter_filter_and]

end Filters

/-! ### The flags -/

section Flags

variable (map : VariablesMap)

theorem flag_of_sort (key : String) (flag : OptionFlag)
    (hkey : ∀ entry : VariableValue, entry.first = key → entry.flag? = some (flag, true)) :
    (map.find? key).bind VariableValue.flag? =
      if map.count key then some (flag, true) else none := by
  rw [map.bind_find?_congr hkey, VariablesMap.count]
  cases map.find? key <;> rfl

theorem flag_of_showCallstack :
    (map.find? "show-callstack").bind VariableValue.flag? =
      ((map.find? "show-callstack").bind VariableValue.bool?).map fun value =>
        (.kShowCallStack, value) := by
  rw [Option.map_bind]
  refine map.bind_find?_congr fun entry hentry => ?_
  cases entry <;> first | rfl | simp [VariableValue.first] at hentry

theorem filterMap_flag?_eq :
    map.entries.filterMap VariableValue.flag? =
      (((map.find? "show-callstack").bind VariableValue.bool?).map fun value =>
        (OptionFlag.kShowCallStack, value)).toList ++
      ((if map.count "sort-by-address" then some (OptionFlag.kSortByAddress, true)
        else none).toList ++
      ((if map.count "sort-by-size" then some (OptionFlag.kSortBySize, true) else none).toList ++
      (if map.count "sort-by-time" then some (OptionFlag.kSortByTime, true)
        else none).toList)) := by
  rw [filterMap_flag? map, flagKeys]
  simp only [List.flatMap_cons, List.flatMap_nil, List.append_nil]
  rw [flag_of_showCallstack, flag_of_sort map "sort-by-address" .kSortByAddress
      (by intro entry hentry; cases entry <;> simp_all [VariableValue.first, VariableValue.flag?]),
    flag_of_sort map "sort-by-size" .kSortBySize
      (by intro entry hentry; cases entry <;> simp_all [VariableValue.first, VariableValue.flag?]),
    flag_of_sort map "sort-by-time" .kSortByTime
      (by intro entry hentry; cases entry <;> simp_all [VariableValue.first, VariableValue.flag?])]

/-- Of the sort orders one is left, and the other flags stay. -/
theorem getOptionFlag_setEntries :
    let view := setEntries surroundings map.entries (newView map)
    view.getOptionFlag .kSortByAddress = decide (map.order = .kSortByAddress) ∧
      view.getOptionFlag .kSortBySize = decide (map.order = .kSortBySize) ∧
      view.getOptionFlag .kShowCallStack = map.showsCallstack := by
  intro view
  have hflags : view.flags = _ := flags_setEntries surroundings map.entries (newView map)
  rw [filterMap_flag?_eq] at hflags
  unfold MappedViewBase.getOptionFlag VariablesMap.order VariablesMap.showsCallstack
  rw [hflags, newView]
  -- each of the five options was given or not
  generalize (map.find? "show-callstack").bind VariableValue.bool? = callstack
  generalize (map.find? "no-lock").bind VariableValue.bool? = lock
  generalize map.count "sort-by-address" = address
  generalize map.count "sort-by-size" = size
  generalize map.count "sort-by-time" = time
  rcases callstack with - | - | - <;> rcases lock with - | - | - <;> cases address <;>
    cases size <;> cases time <;> decide

end Flags

section Report

variable (map : VariablesMap) (container : BasicMappedStorage) (traversals : Traversals)

theorem accepted_options (records : List BasicTraceInfo) :
    accepted (setEntries surroundings map.entries (newView map)).options records =
      select surroundings map records := by
  have hnew : (newView map).options = [] := by
    unfold newView
    split <;> rfl
  rw [options_setEntries, hnew, List.nil_append, accepted_entries]

/-- The index that the flags choose. -/
theorem index_setEntries (indexes : Indexes container.indexedContainer) :
    BasicSimpleMappedView.index
        ⟨setEntries surroundings map.entries (newView map), container, indexes⟩ =
      BasicMappedView.indexBy map.order ⟨.new, container, indexes⟩ := by
  obtain ⟨haddress, hsize, -⟩ := getOptionFlag_setEntries surroundings map
  rw [BasicSimpleMappedView.index, haddress, hsize]
  cases map.order <;> rfl

theorem groups_setEntries :
    let groups := BasicAggregatedMappedView.forEachDo traversals.hashCombine (fun _ => false)
      traversals.aggregated container.indexedContainer.items
      (setEntries surroundings map.entries (newView map))
    let records := select surroundings map container.indexedContainer.items
    GroupBy.Groups (records.map AggregatedIndexedContainerBuilder.item)
        (groups.map AggregatedIndexedContainerBuilder.group) ∧
      (∀ info ∈ groups, (info.records records).head?.map BasicTraceInfo.callstack =
        some info.callstack) ∧
      if map.order = .kSortBySize then groups.Pairwise fun x y => x.memsize ≤ y.memsize
      else groups.Pairwise fun x y => x.times ≤ y.times := by
  intro groups records
  obtain ⟨-, hsize, -⟩ := getOptionFlag_setEntries surroundings map
  obtain ⟨hgroups, hsorted⟩ := BasicAggregatedMappedView.forEachDo_spec traversals.hashCombine
    (fun _ => rfl) traversals.aggregated container.indexedContainer.items
    (setEntries surroundings map.entries (newView map))
  rw [accepted_options] at hgroups
  rw [hsize] at hsorted
  refine ⟨hgroups, fun info hinfo => ?_, ?_⟩
  · have hframes := BasicAggregatedMappedView.callstack_of_mem_forEachDo (fun _ => rfl) hinfo
    rwa [accepted_options] at hframes
  · simpa only [decide_eq_true_eq] using hsorted

theorem records_setEntries :
    BasicSimpleMappedView.writeImpl (fun _ => false)
        ⟨setEntries surroundings map.entries (newView map), container,
          traversals.indexes container.indexedContainer⟩ =
      (select surroundings map (BasicMappedView.indexBy map.order
        ⟨.new, container, traversals.indexes container.indexedContainer⟩)).map
          (SimpleTraceInfoPrinter.print container map.showsCallstack) := by
  obtain ⟨-, -, hshow⟩ := getOptionFlag_setEntries surroundings map
  rw [BasicSimpleMappedView.writeImpl, forEachDo_eq, index_setEntries, hshow, accepted_options]

variable {map traversals}

/-- A report is written by the view of the storage that the command line names. -/
theorem exists_of_main_eq_written {report : Report}
    (h : main surroundings traversals map = .written report) :
    ∃ container, surroundings.segments (place map).1 (place map).2 = some container ∧
      report = MappedView.writeImpl traversals (fun _ => false) container
        ⟨setEntries surroundings map.entries (newView map), map.count "aggregate"⟩ := by
  unfold main at h
  split at h
  · cases h
  · split at h
    · cases h
    · split at h
      · cases h
      · next container hopen =>
          refine ⟨container, hopen, ?_⟩
          split at h
          · cases h
          · exact (Outcome.written.inj h).symm

end Report

/-- **What `memview` reports.**  If it writes a report at all, then about the storage that the
command line names.  Its records are those that `select` leaves, in the order of the time, of the
size if only this or the address was asked for, or of the address if only this was; with their
call stacks if these were asked for.  With `--aggregate`, whatever its value, the report has the
groups of the selected records, in the order of the sizes or of the numbers; if call stacks were
asked for, each group is printed with the one of its first record, and otherwise with none. -/
theorem memview_report {traversals : Traversals} {map : VariablesMap} {report : Report}
    (h : main surroundings traversals map = .written report) :
    ∃ container, surroundings.segments (place map).1 (place map).2 = some container ∧
      let view : BasicMappedView :=
        ⟨.new, container, traversals.indexes container.indexedContainer⟩
      if map.count "aggregate" then
        let records := select surroundings map container.indexedContainer.items
        ∃ groups : List AggregatedTraceInfo,
          report = .groups
            (groups.map (AggregatedTraceInfo.print container map.showsCallstack)) ∧
          GroupBy.Groups (records.map AggregatedIndexedContainerBuilder.item)
            (groups.map AggregatedIndexedContainerBuilder.group) ∧
          (∀ info ∈ groups, (info.records records).head?.map BasicTraceInfo.callstack =
            some info.callstack) ∧
          if map.order = .kSortBySize then groups.Pairwise fun x y => x.memsize ≤ y.memsize
          else groups.Pairwise fun x y => x.times ≤ y.times
      else
        report = .records ((select surroundings map (view.indexBy map.order)).map
          (SimpleTraceInfoPrinter.print container map.showsCallstack)) := by
  obtain ⟨container, hopen, rfl⟩ := exists_of_main_eq_written surroundings h
  refine ⟨container, hopen, ?_⟩
  intro view
  unfold MappedView.writeImpl
  split
  · refine ⟨_, ?_, groups_setEntries surroundings map container traversals⟩
    rw [BasicAggregatedMappedView.writeImpl, (getOptionFlag_setEntries surroundings map).2.2]
  · rw [records_setEntries]

/-- `memview --min-time-from-start 5ns --min-size 8`. -/
def movedStart : VariablesMap where
  entries := [.minSize 8, .minTimeFromStart "5ns"]
  sorted := by decide

/-- The two records of `BasicMappedView.grown` in shared memory. -/
def grownSurroundings : Surroundings where
  chronoTimePointFromString _ := 0
  chronoDurationFromString _ := 5
  now _ := 0
  segments backend name :=
    if backend = .shm ∧ name = memhookSharedMemory then some BasicMappedView.grown else none

/-- The second record comes ten nanoseconds after the first one.  It is not in the report, since
the first one is too small to be the start. -/
theorem memview_report_movedStart :
    ∃ report, main grownSurroundings Sharing.stableTraversals movedStart = .written report ∧
      report = .records [] := by
  obtain ⟨report, hmain⟩ : ∃ report,
      main grownSurroundings Sharing.stableTraversals movedStart = .written report := ⟨_, rfl⟩
  refine ⟨report, hmain, ?_⟩
  obtain ⟨container, hopen, hreport⟩ := memview_report grownSurroundings hmain
  obtain rfl : BasicMappedView.grown = container := Option.some.inj hopen
  have haggregate : movedStart.count "aggregate" = false := by decide
  have hselect : select grownSurroundings movedStart
      BasicMappedView.grown.indexedContainer.items = [] := by decide
  simp only [haggregate, Bool.false_eq_true, if_false] at hreport
  rw [hreport]
  exact congrArg Report.records (congrArg (List.map _) hselect)

end Memview

end Memhook
