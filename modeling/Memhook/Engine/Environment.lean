import Memhook.Engine.Lag
import Memhook.Storage.Creator

/-!
# What the engine reads from its environment

`OnInitialize` and `NewStorage` of `src/memhook/engine.cpp` choose the storage and the settings of
the engine by environment variables.  A host makes the storage a network storage; otherwise a file
makes it a memory-mapped file, and without a file it is shared memory with a name that has a
default.  Of the variables for the size the largest unit that is set is read, also if it is not a
number or zero and the size stays the default one.
-/

namespace Memhook

/-- `getenv`. -/
abbrev Environment := String → Option String

/-- `isspace` of the C locale. -/
def isspace (c : Char) : Bool := c = ' ' || '\t' ≤ c && c ≤ '\r'

/-- The number that a text of digits stands for. -/
def digitsValue (digits : List Char) : ℕ :=
  digits.foldl (fun n c => 10 * n + (c.toNat - '0'.toNat)) 0

/-- `strtoul(text, NULL, 10)`: white space, a sign, digits.  A number that does not fit gives
`ULONG_MAX`, and a minus negates what fits. -/
def strtoul (text : String) : UInt64 :=
  let unspaced := text.toList.dropWhile isspace
  let signed : Bool × List Char :=
    match unspaced with
    | '-' :: rest => (true, rest)
    | '+' :: rest => (false, rest)
    | rest => (false, rest)
  let n := digitsValue (signed.2.takeWhile Char.isDigit)
  if n < 2 ^ 64 then
    if signed.1 then -UInt64.ofNat n else UInt64.ofNat n
  else 0xffffffffffffffff

/-- What `NewStorage` makes. -/
inductive StorageChoice
  | network (host : String) (port : Int32)
  | mapped (backend : Backend) (name : Name) (size : UInt64)

namespace Environment

variable (env : Environment)

/-- `8ul << 30`. -/
def defaultSize : UInt64 := (8 : UInt64) <<< 30

/-- A size in a unit; zero leaves the default. -/
def sizeIn (shift : UInt64) (text : String) : UInt64 :=
  if strtoul text ≠ 0 then strtoul text <<< shift else defaultSize

/-- `ipc_size`. -/
def ipcSize : UInt64 :=
  match env "MEMHOOK_SIZE_GB" with
  | some text => sizeIn 30 text
  | none =>
      match env "MEMHOOK_SIZE_MB" with
      | some text => sizeIn 20 text
      | none =>
          match env "MEMHOOK_SIZE_KB" with
          | some text => sizeIn 10 text
          | none =>
              match env "MEMHOOK_SIZE" with
              | some text => sizeIn 0 text
              | none => defaultSize

/-- `MEMHOOK_NETWORK_STORAGE_PORT`, or what is set; `int` keeps the low bits. -/
def ipcPort : Int32 :=
  match env "MEMHOOK_NET_PORT" with
  | some text => (strtoul text).toUInt32.toInt32
  | none => 20015

/-- `NewStorage`. -/
def newStorage : StorageChoice :=
  match env "MEMHOOK_NET_HOST" with
  | some host => .network host env.ipcPort
  | none =>
      match env "MEMHOOK_FILE" with
      | some path => .mapped .mmf path.toList env.ipcSize
      | none =>
          .mapped .shm (((env "MEMHOOK_SHM_NAME").map String.toList).getD memhookSharedMemory)
            env.ipcSize

/-- `m_cache_flush_timeout`; `chronoSecondsFromString` is `none` if `boost::chrono` can not read
the text, which leaves the default. -/
def cacheFlushTimeout (chronoSecondsFromString : String → Option Int64) : Int64 :=
  ((env "MEMHOOK_CACHE_FLUSH_INTERVAL").bind chronoSecondsFromString).getD 2

/-- `m_cache_flush_max_items`. -/
def cacheFlushMaxItems : UInt64 :=
  match env "MEMHOOK_CACHE_FLUSH_MAX_ITEMS" with
  | some text => strtoul text
  | none => Engine.maxItems

/-- `m_getprocinfo_policy`: anything that does not begin with a zero, the empty text included. -/
def getprocinfoPolicy : CallStackUnwindProcInfoPolicy :=
  match env "MEMHOOK_GETPROCINFO_WHEN_STACK_UNWINDS" with
  | some text =>
      if text.toList.head? ≠ some '0' then .kUnwindCallStackWhen else .kFlushLocalCacheWhen
  | none => .kFlushLocalCacheWhen

end Environment

end Memhook
