import Memhook.Lib.Layout
import Memhook.View.LiveBlocks

/-!
# The text of a report

How `src/memview/simple_printer.h` and `src/memview/aggregated_printer.h` lay out their lines, and
that the text of a report can be read back: what is told about a record is told without ambiguity.

A line of a call stack holds the path of a module and the name of a function.  Both come from the
program, and are printed up to their first zero byte.  The name is read up to the last `+0x` of its
line, so it may hold anything but the end of a line; the path is read up to the first parenthesis.

The local time of a moment and the demangler are parameters.  What the printers do with a time
before the epoch is left open: its nanoseconds are negative, and its year may be before 1900, which
the formats are not made for.
-/

namespace Memhook

open Layout

/-- What is printed of `struct tm`. -/
@[ext] structure Tm where
  tmYear : ℕ
  tmMon : ℕ
  tmMday : ℕ
  tmHour : ℕ
  tmMin : ℕ
  tmSec : ℕ
  deriving DecidableEq

/-- `system_clock::to_time_t`. -/
def toTimeT (timestamp : TimePoint) : Int64 := timestamp / 1000000000

/-- `nsec` of the printer. -/
def nsec (timestamp : TimePoint) : Int64 := timestamp - toTimeT timestamp * 1000000000

/-- `localtime_r` and `CxxSymbolDemangle`. -/
structure TextStyle where
  localtime : Int64 → Tm
  demangle : Bytes → Bytes

/-- What a stream prints of `c_str()`. -/
def cStr (bytes : Bytes) : Bytes := bytes.takeWhile (· ≠ 0)

namespace TextStyle

variable (style : TextStyle)

/-- `CxxSymbolDemangle(view.GetProcName(item.ip).get())`. -/
def nameText (frame : PrintedFrame) : Bytes := style.demangle (cStr frame.procName)

/-- The line of a frame. -/
def frameText (frame : PrintedFrame) : Bytes :=
  [ascii "  [ip=0x".toList, padded 16 0 frame.ip.toNat, ascii ", sp=0x".toList,
    padded 16 0 frame.sp.toNat, ascii "] ".toList, cStr frame.modulePath, ascii "(".toList,
    style.nameText frame, ascii " +0x".toList, padded 16 0 frame.offp.toNat,
    ascii ")\n".toList].flatten

/-- The first line of a record. -/
def infoText (info : TraceInfoBase) : Bytes :=
  let tm := style.localtime (toTimeT info.timestamp)
  [ascii "0x".toList, padded 16 0 info.address.toNat,
    ascii ", size=".toList, padded 10 0 info.memsize.toNat,
    ascii ", ts=".toList, padded 10 4 (tm.tmYear + 1900),
    ascii "-".toList, padded 10 2 (tm.tmMon + 1),
    ascii "-".toList, padded 10 2 tm.tmMday,
    ascii " ".toList, padded 10 2 tm.tmHour,
    ascii ":".toList, padded 10 2 tm.tmMin,
    ascii ":".toList, padded 10 2 tm.tmSec,
    ascii ".".toList, padded 10 0 (nsec info.timestamp).toUInt64.toNat,
    ascii "\n".toList].flatten

/-- `SimpleTraceInfoPrinter` on a record that passes. -/
def simpleText (printed : Printed) : Bytes :=
  style.infoText printed.info ++ printed.callstack.flatMap style.frameText

/-- `AggregatedTraceInfoPrinter` on a group. -/
def aggregatedText (printed : PrintedGroup) : Bytes :=
  [ascii "size=".toList, padded 10 0 printed.memsize.toNat, ascii ", times=".toList,
    padded 10 0 printed.times.toNat, ascii "\n".toList].flatten ++
    printed.callstack.flatMap style.frameText

/-! ## Reading a frame -/

/-- The path has no parenthesis, and the name is on one line. -/
def Legible (frame : PrintedFrame) : Prop :=
  40 ∉ cStr frame.modulePath ∧ 10 ∉ style.nameText frame

instance (frame : PrintedFrame) : Decidable (style.Legible frame) :=
  inferInstanceAs (Decidable (_ ∧ _))

/-- The frame as its line tells it. -/
def toldFrame (frame : PrintedFrame) : PrintedFrame :=
  { frame with modulePath := cStr frame.modulePath, procName := style.nameText frame }

variable {style}

/-- The rest of a line behind the path: the name ends where the offset starts. -/
theorem determines_nameText :
    Determines style.Legible Anything
      (fun frame => (style.nameText frame ++ (ascii " +0x".toList ++
        (padded 16 0 frame.offp.toNat ++ ascii ")".toList))) ++ [10])
      fun frame => (style.nameText frame, frame.offp) := by
  have hdigits : ∀ frame : PrintedFrame, ∀ c ∈ padded 16 0 frame.offp.toNat, IsDigit c :=
    fun frame => (padded_spec (by decide) (by decide) 0 _).1
  have hline : ∀ frame, style.Legible frame →
      10 ∉ style.nameText frame ++ (ascii " +0x".toList ++
        (padded 16 0 frame.offp.toNat ++ ascii ")".toList)) := by
    intro frame hlegible
    simp only [List.mem_append, not_or]
    refine ⟨hlegible.2, by decide, fun hten => ?_, by decide⟩
    exact absurd (hdigits frame 10 hten) (by decide)
  refine (determines_until 10 hline).map ?_
  intro frame frame' h
  have hword : ascii " +0x".toList = ascii " +0".toList ++ [120] := by decide
  simp only [← List.append_assoc, hword] at h
  have hbefore := List.append_cancel_right h
  rw [List.append_assoc _ [120], List.append_assoc _ [120]] at hbefore
  obtain ⟨hname, hoffp⟩ := append_cons_inj_of_kind IsDigit (by decide) (hdigits frame)
    (hdigits frame') hbefore
  have hvalue := congrArg (value 16) hoffp
  rw [(padded_spec (by decide) (by decide) 0 _).2,
    (padded_spec (by decide) (by decide) 0 _).2] at hvalue
  exact Prod.ext (List.append_cancel_right hname) (UInt64.toNat_inj.mp hvalue)

variable (style) in
theorem frameText_eq (frame : PrintedFrame) :
    style.frameText frame = ascii "  [ip=0x".toList ++ (padded 16 0 frame.ip.toNat ++
      (ascii ", sp=0x".toList ++ (padded 16 0 frame.sp.toNat ++ (ascii "] ".toList ++
        ((cStr frame.modulePath ++ [40]) ++ ((style.nameText frame ++
          (ascii " +0x".toList ++ (padded 16 0 frame.offp.toNat ++ ascii ")".toList))) ++
            [10])))))) := by
  have hopen : ascii "(".toList = [40] := by decide
  have hclose : ascii ")\n".toList = ascii ")".toList ++ [10] := by decide
  simp only [frameText, List.flatten_cons, List.flatten_nil, List.append_nil, hopen, hclose,
    List.append_assoc]

theorem determines_frameText :
    Determines style.Legible Anything style.frameText style.toldFrame := by
  have hpath : Determines style.Legible Anything
      (fun frame => cStr frame.modulePath ++ [40]) (fun frame => cStr frame.modulePath) :=
    determines_until 40 fun _ hlegible => hlegible.1
  have hnames := hpath.append determines_nameText fun _ _ _ _ => trivial
  have hsp := hnames.hexadecimal 0 (fun frame => frame.sp.toNat) (ascii "] ".toList) (by decide)
    (by decide)
  have hip := hsp.hexadecimal 0 (fun frame => frame.ip.toNat) (ascii ", sp=0x".toList) (by decide)
    (by decide)
  have hline := hip.word (ascii "  [ip=0x".toList)
  refine (hline.congr (frameText_eq style)).map ?_
  intro frame frame' htold
  simp only [Prod.mk.injEq, UInt64.toNat_inj] at htold
  obtain ⟨hip, hsp, hpath, hname, hoffp⟩ := htold
  simp [toldFrame, hip, hsp, hpath, hname, hoffp]

/-! ## Reading a record -/

/-- What the text of a record tells. -/
structure Told where
  address : Address
  memsize : UInt64
  tm : Tm
  nsec : UInt64
  callstack : List PrintedFrame

variable (style) in
def told (printed : Printed) : Told where
  address := printed.info.address
  memsize := printed.info.memsize
  tm := style.localtime (toTimeT printed.info.timestamp)
  nsec := (Memhook.nsec printed.info.timestamp).toUInt64
  callstack := printed.callstack.map style.toldFrame

variable (style) in
theorem determines_infoText :
    Determines (fun _ => True) Anything style.infoText fun info =>
      (info.address, info.memsize, style.localtime (toTimeT info.timestamp),
        (nsec info.timestamp).toUInt64) := by
  have hend : Determines (fun _ => True) Anything (fun _ : TraceInfoBase => ([] : Bytes))
      fun _ => () := determines_nil
  let tm := fun info : TraceInfoBase => style.localtime (toTimeT info.timestamp)
  have hline := hend
    |>.decimal 0 (fun info => (nsec info.timestamp).toUInt64.toNat) (ascii "\n".toList)
      (by decide) (by decide)
    |>.decimal 2 (fun info => (tm info).tmSec) (ascii ".".toList) (by decide) (by decide)
    |>.decimal 2 (fun info => (tm info).tmMin) (ascii ":".toList) (by decide) (by decide)
    |>.decimal 2 (fun info => (tm info).tmHour) (ascii ":".toList) (by decide) (by decide)
    |>.decimal 2 (fun info => (tm info).tmMday) (ascii " ".toList) (by decide) (by decide)
    |>.decimal 2 (fun info => (tm info).tmMon + 1) (ascii "-".toList) (by decide) (by decide)
    |>.decimal 4 (fun info => (tm info).tmYear + 1900) (ascii "-".toList) (by decide) (by decide)
    |>.decimal 0 (fun info => info.memsize.toNat) (ascii ", ts=".toList) (by decide) (by decide)
    |>.hexadecimal 0 (fun info => info.address.toNat) (ascii ", size=".toList) (by decide)
      (by decide)
    |>.word (ascii "0x".toList)
  refine (hline.congr fun _ => rfl).map ?_
  intro info info' htold
  simp only [Prod.mk.injEq] at htold
  obtain ⟨haddress, hmemsize, hyear, hmon, hmday, hhour, hmin, hsec, hnsec, -⟩ := htold
  have htm : tm info = tm info' :=
    Tm.ext (Nat.add_right_cancel hyear) (Nat.add_right_cancel hmon) hmday hhour hmin hsec
  exact Prod.ext (UInt64.toNat_inj.mp haddress) (Prod.ext (UInt64.toNat_inj.mp hmemsize)
    (Prod.ext htm (UInt64.toNat_inj.mp hnsec)))

variable (style) in
/-- The lines of a call stack end where the next line does not start with a blank. -/
theorem determines_callstackText :
    Determines (fun callstack : List PrintedFrame => ∀ frame ∈ callstack, style.Legible frame)
      (Stops (· = 32)) (fun callstack => callstack.flatMap style.frameText)
      fun callstack => callstack.map style.toldFrame := by
  refine determines_frameText.flatMap (fun text => text.head? = some 32) ?_ ?_ ?_
  · intro frame rest _
    rfl
  · exact fun _ _ => trivial
  · intro text hstops
    exact ⟨trivial, fun hstart => hstops 32 hstart rfl⟩

variable (style) in
theorem determines_simpleText :
    Determines (fun printed : Printed => ∀ frame ∈ printed.callstack, style.Legible frame)
      (Stops (· = 32)) style.simpleText style.told := by
  have hinfo := ((determines_infoText style).comap Printed.info).mono
    (fun printed (_ : ∀ frame ∈ printed.callstack, style.Legible frame) => trivial) fun _ => id
  have hcallstack := (determines_callstackText style).comap Printed.callstack
  refine (hinfo.append hcallstack fun _ _ _ _ => trivial).map ?_
  intro printed printed' htold
  simp only [Prod.mk.injEq] at htold
  obtain ⟨⟨haddress, hmemsize, htm, hnsec⟩, hcallstack⟩ := htold
  simp only [told, haddress, hmemsize, htm, hnsec, hcallstack]

/-- What the text of a group tells. -/
def toldGroup (style : TextStyle) (printed : PrintedGroup) : PrintedGroup :=
  { printed with callstack := printed.callstack.map style.toldFrame }

variable (style) in
theorem determines_aggregatedText :
    Determines (fun printed : PrintedGroup => ∀ frame ∈ printed.callstack, style.Legible frame)
      (Stops (· = 32)) style.aggregatedText style.toldGroup := by
  have hend : Determines
      (fun printed : PrintedGroup => ∀ frame ∈ printed.callstack, style.Legible frame) Anything
      (fun _ => ([] : Bytes)) fun _ => () := determines_nil
  have hline := hend
    |>.decimal 0 (fun printed => printed.times.toNat) (ascii "\n".toList) (by decide) (by decide)
    |>.decimal 0 (fun printed => printed.memsize.toNat) (ascii ", times=".toList) (by decide)
      (by decide)
    |>.word (ascii "size=".toList)
  have hcallstack := (determines_callstackText style).comap PrintedGroup.callstack
  refine (hline.append hcallstack fun _ _ _ _ => trivial).map ?_
  intro printed printed' htold
  simp only [Prod.mk.injEq, UInt64.toNat_inj] at htold
  obtain ⟨⟨hmemsize, htimes, -⟩, hcallstack⟩ := htold
  simp only [toldGroup, hmemsize, htimes, hcallstack]

/-- Entries that start with a letter of their own, up to the end of the text. -/
theorem determines_entries {α β : Type*} {Ok : α → Prop} {print : α → Bytes} {told : α → β}
    (c : UInt8) (hc : c ≠ 32) (h : Determines Ok (Stops (· = 32)) print told)
    (hstart : ∀ a, (print a).head? = some c) :
    Determines (fun l : List α => ∀ a ∈ l, Ok a) (fun text => text = [])
      (fun l => l.flatMap print) fun l => l.map told := by
  refine h.flatMap (fun text => text.head? = some c) ?_ ?_ ?_
  · intro a rest _
    rw [List.head?_append, hstart a]
    rfl
  · intro text htext d hd
    rw [Option.mem_def.mp hd, Option.some.injEq] at htext
    exact htext ▸ hc
  · rintro _ rfl
    exact ⟨by simp [Stops], by simp⟩

theorem told_of_simpleText {report report' : List Printed}
    (hlegible : ∀ printed ∈ report, ∀ frame ∈ printed.callstack, style.Legible frame)
    (hlegible' : ∀ printed ∈ report', ∀ frame ∈ printed.callstack, style.Legible frame)
    (htext : report.flatMap style.simpleText = report'.flatMap style.simpleText) :
    report.map style.told = report'.map style.told := by
  have hentries := determines_entries 48 (by decide) (determines_simpleText style) fun _ => rfl
  exact (hentries hlegible hlegible' rfl rfl (by simpa using htext)).1

/-- **The text of a report can be read back.**  Two reports of the simple view that read the same
tell the same records in the same order: their addresses, sizes, local times with nanoseconds, and
call stacks; and two reports of the aggregated view tell the same groups.  A path is told up to its
first zero byte.  It takes paths without a parenthesis and names without an end of line, as far as
they are printed. -/
theorem text_determines_report (style : TextStyle) :
    (∀ report report' : List Printed,
      (∀ printed ∈ report, ∀ frame ∈ printed.callstack, style.Legible frame) →
      (∀ printed ∈ report', ∀ frame ∈ printed.callstack, style.Legible frame) →
      report.flatMap style.simpleText = report'.flatMap style.simpleText →
      report.map style.told = report'.map style.told) ∧
    ∀ groups groups' : List PrintedGroup,
      (∀ printed ∈ groups, ∀ frame ∈ printed.callstack, style.Legible frame) →
      (∀ printed ∈ groups', ∀ frame ∈ printed.callstack, style.Legible frame) →
      groups.flatMap style.aggregatedText = groups'.flatMap style.aggregatedText →
      groups.map style.toldGroup = groups'.map style.toldGroup := by
  have haggregated := determines_entries 115 (by decide)
    (determines_aggregatedText style) fun _ => rfl
  refine ⟨fun report report' hlegible hlegible' htext => ?_,
    fun groups groups' hlegible hlegible' htext => ?_⟩
  · exact told_of_simpleText hlegible hlegible' htext
  · exact (haggregated hlegible hlegible' rfl rfl (by simpa using htext)).1

/-- Midnight all day, and a demangler that knows `_Z1fv`. -/
def sample : TextStyle where
  localtime _ := ⟨126, 0, 1, 0, 0, 0⟩
  demangle name := if name = ascii "_Z1fv".toList then ascii "f()".toList else name

/-- The texts do not tell a mangled name from a name that is not mangled. -/
theorem text_determines_report_sample :
    let frame name : PrintedFrame := ⟨255, 0, ascii "/bin/a".toList, ascii name, 16⟩
    let report name : List Printed := [⟨⟨16, 100, 7⟩, [frame name]⟩, ⟨⟨32, 1, 8⟩, []⟩]
    (report "_Z1fv".toList).map sample.told = (report "f()".toList).map sample.told := by
  intro frame report
  exact (text_determines_report sample).1 (report "_Z1fv".toList) (report "f()".toList)
    (by decide) (by decide) (by decide)

-- A parenthesis in a path can be taken for the one behind the path.
example : sample.frameText ⟨0, 0, ascii "a(b".toList, ascii "c".toList, 0⟩ =
    sample.frameText ⟨0, 0, ascii "a".toList, ascii "b(c".toList, 0⟩ := by
  decide

end TextStyle

/-! ## From the calls to the text -/

/-- No path of the storage has a parenthesis, and all names are on one line. -/
structure BasicMappedStorage.Legible (style : TextStyle) (container : BasicMappedStorage) :
    Prop where
  paths : ∀ addr path, container.shltab addr = some path → 40 ∉ cStr path
  names : ∀ ip name, container.symtab ip = some name → 10 ∉ style.demangle (cStr name)
  unknown : 10 ∉ style.demangle BasicMappedView.unknown

theorem BasicMappedStorage.Legible.printFrame {style : TextStyle} {container : BasicMappedStorage}
    (h : container.Legible style) (item : TraceInfoCallStackItem) :
    style.Legible (SimpleTraceInfoPrinter.printFrame container item) := by
  constructor
  · simp only [SimpleTraceInfoPrinter.printFrame, BasicMappedView.getModulePath]
    cases hpath : container.shltab item.shlAddr with
    | none => decide
    | some path => exact h.paths _ _ hpath
  · simp only [SimpleTraceInfoPrinter.printFrame, BasicMappedView.getProcName]
    cases hname : container.symtab item.ip with
    | none =>
        have hcut : cStr BasicMappedView.unknown = BasicMappedView.unknown := by decide
        rw [TextStyle.nameText, Option.getD_none, hcut]
        exact h.unknown
    | some name => exact h.names _ _ hname

/-- A program that was traced to its end, with the traversals of the viewer. -/
structure TracedRun (U R : Type*) [CallStackUnwinder U R] where
  unwinder : U
  timeout : Int64
  maxItems : UInt64
  policy : CallStackUnwindProcInfoPolicy
  calls : List (Context R × HookCall)
  faithful : ∀ call ∈ calls, call.2.Faithful
  possible : World.PossibleFrom (fun _ => none) calls
  ctx : Context R
  traversals : Traversals

namespace TracedRun

variable {U R : Type*} [CallStackUnwinder U R] (run : TracedRun U R)

def world : World U :=
  (World.initial true run.unwinder run.timeout run.maxItems run.policy).run run.calls

/-- The map of records that the calls amount to. -/
def records : RecordMap := Engine.runMap (World.engineOps run.calls)

/-- What the engine leaves. -/
def database : BasicMappedStorage := ((run.world.engine.onDestroy run.ctx).2).getD .empty

def report (base : MappedViewBase) : List Printed :=
  BasicSimpleMappedView.writeImpl (fun _ => false)
    ⟨base, run.database, run.traversals.indexes run.database.indexedContainer⟩

def text (style : TextStyle) (base : MappedViewBase) : Bytes :=
  (run.report base).flatMap style.simpleText

theorem blocks_eq (address : Address) :
    run.world.blocks address = (run.records address).map Record.memsize := by
  obtain ⟨-, hsizes⟩ := World.refines_run
    (World.refines_initial true run.unwinder run.timeout run.maxItems run.policy) rfl run.faithful
    run.possible
  exact (congrFun hsizes address).symm

theorem record?_database (address : Address) :
    run.database.record? address = run.records address := by
  obtain ⟨hrefines, -⟩ := World.refines_run
    (World.refines_initial true run.unwinder run.timeout run.maxItems run.policy) rfl run.faithful
    run.possible
  have hstorage : run.world.engine.storage.isSome := World.isSome_storage_run _ _
  obtain ⟨-, database, hdatabase, hrecords⟩ := hrefines.onDestroy hstorage run.ctx
  have hleft : run.database = database := by
    rw [TracedRun.database, show (run.world.engine.onDestroy run.ctx).2 = some database from
      hdatabase, Option.getD_some]
  rw [hleft]
  exact hrecords address

theorem lists_report {base : MappedViewBase} (hplain : base.Plain) :
    base.Lists run.records (run.report base) :=
  BasicMappedView.lists_writeImpl
    ⟨base, run.database, run.traversals.indexes run.database.indexedContainer⟩ hplain
    run.record?_database

theorem legible_report {style : TextStyle} {base : MappedViewBase} (hplain : base.Plain)
    (hlegible : base.getOptionFlag .kShowCallStack = true → run.database.Legible style) :
    ∀ printed ∈ run.report base, ∀ frame ∈ printed.callstack, style.Legible frame := by
  intro printed hprinted frame hframe
  rw [report, BasicMappedView.writeImpl_of_plain hplain] at hprinted
  obtain ⟨tinfo, -, rfl⟩ := List.mem_map.mp hprinted
  cases hshow : base.getOptionFlag .kShowCallStack with
  | false => simp [SimpleTraceInfoPrinter.print, hshow] at hframe
  | true =>
      simp only [SimpleTraceInfoPrinter.print, hshow, if_true] at hframe
      obtain ⟨item, -, rfl⟩ := List.mem_map.mp hframe
      exact (hlegible hshow).printFrame item

end TracedRun

namespace MappedViewBase

/-- What a report is about: size and call stack of the records that the options accept. -/
def about (base : MappedViewBase) (m : RecordMap) (address : Address) :
    Option (UInt64 × List Address) :=
  (m address).bind fun record =>
    if base.accepts ⟨address, record.memsize, record.timestamp⟩ then
      some (record.memsize, if base.getOptionFlag .kShowCallStack then record.ips else [])
    else none

variable {base : MappedViewBase} {m m' : RecordMap} {report report' : List Printed}
  {style : TextStyle}

/-- What one report tells, the other one tells. -/
theorem Lists.about_of_told (h : base.Lists m report) (h' : base.Lists m' report')
    (htold : report.map style.told = report'.map style.told) {address : Address}
    {size : UInt64} {ips : List Address} (habout : base.about m address = some (size, ips)) :
    base.about m' address = some (size, ips) := by
  unfold about at habout
  obtain ⟨record, hrecord, hshown⟩ := Option.bind_eq_some_iff.mp habout
  split at hshown
  next haccepts =>
    obtain ⟨rfl, rfl⟩ := Prod.mk.inj (Option.some_injective _ hshown)
    obtain ⟨entry, hentry, hinfo, hips⟩ := h.complete address record hrecord haccepts
    have hsame : style.told entry ∈ report'.map style.told :=
      htold ▸ List.mem_map_of_mem hentry
    obtain ⟨entry', hentry', htold'⟩ := List.mem_map.mp hsame
    obtain ⟨haccepts', record', hrecord', hinfo', hips'⟩ := h'.sound entry' hentry'
    -- the entries have address, size and call stack in common
    have haddress : entry'.info.address = address :=
      (congrArg TextStyle.Told.address htold').trans (congrArg TraceInfoBase.address hinfo)
    have hmemsize : record'.memsize = record.memsize := by
      have htoldSize : entry'.info.memsize = entry.info.memsize :=
        congrArg TextStyle.Told.memsize htold'
      rwa [hinfo, hinfo'] at htoldSize
    have hstack : entry'.callstack.map PrintedFrame.ip = entry.callstack.map PrintedFrame.ip := by
      have htoldStack := congrArg (fun told => told.callstack.map PrintedFrame.ip) htold'
      simpa [TextStyle.told, TextStyle.toldFrame, Function.comp_def] using htoldStack
    rw [hips, hips'] at hstack
    rw [haddress] at hrecord' hinfo'
    rw [hinfo'] at haccepts'
    rw [about, hrecord', Option.bind_some, if_pos haccepts', hmemsize, hstack]
  next => exact absurd hshown (by simp)

end MappedViewBase

/-- **The text tells which blocks are live.**  Two programs make any calls of the heap functions,
each traced by an engine of its own, and `memview` prints both storages with the same options.  If
the two texts are the same, both reports are about the same blocks, with the same sizes and, where
call stacks are shown, the same call stacks; without options, the same blocks are live in both
programs. -/
theorem text_tells_live_blocks {U R U' R' : Type*} [CallStackUnwinder U R]
    [CallStackUnwinder U' R'] (run : TracedRun U R) (run' : TracedRun U' R') (style : TextStyle)
    (base : MappedViewBase) (hplain : base.Plain)
    (hlegible : base.getOptionFlag .kShowCallStack = true → run.database.Legible style)
    (hlegible' : base.getOptionFlag .kShowCallStack = true → run'.database.Legible style)
    (htext : run.text style base = run'.text style base) :
    (∀ address, base.about run.records address = base.about run'.records address) ∧
      (base.options = [] → run.world.blocks = run'.world.blocks) := by
  have hlists := run.lists_report hplain
  have hlists' := run'.lists_report hplain
  have htold := TextStyle.told_of_simpleText (run.legible_report hplain hlegible)
    (run'.legible_report hplain hlegible') htext
  have habout : ∀ address, base.about run.records address = base.about run'.records address := by
    intro address
    refine Option.ext fun shown => ⟨fun h => ?_, fun h => ?_⟩
    · exact hlists.about_of_told hlists' htold h
    · exact hlists'.about_of_told hlists htold.symm h
  refine ⟨habout, fun hnone => funext fun address => ?_⟩
  have haccepts : ∀ info, base.accepts info = true := by
    intro info
    rw [MappedViewBase.accepts, hnone]
    rfl
  have hsizes := congrArg (Option.map Prod.fst) (habout address)
  rw [run.blocks_eq, run'.blocks_eq, Option.map_eq_bind, Option.map_eq_bind]
  simpa [MappedViewBase.about, haccepts, Function.comp_def] using hsizes

/-- `sampleCalls` of `Memhook.Hooks.HeapTracking`, which leaves one block. -/
def sampleRun : TracedRun Impl.Usable Resolver where
  unwinder := .initial
  timeout := 0
  maxItems := 1
  policy := .kFlushLocalCacheWhen
  calls := World.sampleCalls
  faithful := by simp [World.sampleCalls, HookCall.Faithful, HookCall.FailedRealloc]
  possible := by
    refine ⟨?_, ?_, ?_, ?_, ?_, ?_, trivial⟩ <;> simp only [HookCall.Possible] <;> decide
  ctx := ⟨7, [], .silent⟩
  traversals := Sharing.stableTraversals

/-- A program that allocates this block only. -/
def shortRun : TracedRun Impl.Usable Resolver where
  unwinder := .initial
  timeout := 5
  maxItems := 9
  policy := .kUnwindCallStackWhen
  calls := [(⟨3, [], .silent⟩, .malloc 400 64)]
  faithful := by simp [HookCall.Faithful]
  possible := by
    refine ⟨?_, trivial⟩
    simp only [HookCall.Possible]
    decide
  ctx := ⟨7, [], .silent⟩
  traversals := Sharing.stableTraversals

theorem text_tells_live_blocks_sampleRun : sampleRun.world.blocks = shortRun.world.blocks := by
  have hplain : MappedViewBase.new.Plain := by simp [MappedViewBase.Plain, MappedViewBase.new]
  have hhidden : MappedViewBase.new.getOptionFlag .kShowCallStack ≠ true := by decide
  exact (text_tells_live_blocks sampleRun shortRun TextStyle.sample .new hplain
    (fun h => absurd h hhidden) (fun h => absurd h hhidden) (by decide +kernel)).2 rfl

end Memhook
