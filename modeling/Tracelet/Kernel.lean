import Tracelet.Filter

namespace Tracelet
open ByteMemory KernelMap

def dropKeyRingbuf : UInt32 := 0
def dropKeyLatency : UInt32 := 1

abbrev histSlots : ℕ := 32
abbrev latencySlots : ℕ := histSlots + 2
abbrev syscallCount : ℕ := 3

namespace Bpf

/-- `struct filter_config`, with C's signed `char`. -/
structure FilterConfig where
  eventMask : UInt32
  pidCount : UInt32
  pids : Vector UInt32 maxPids
  ppid : UInt32
  ppidEnabled : UInt32
  commEnabled : UInt32
  comm : Vector Int8 16
  deriving DecidableEq

/-- The maps of the object file. `events` lists the records submitted to the
ring buffer and not yet consumed, oldest first. -/
structure Maps where
  events : List (List UInt8)
  drops : ArrayMap UInt64 3
  filterMap : ArrayMap FilterConfig 1
  latencyStart : BoundedMap UInt64 UInt64 10240
  latencyHist : ArrayMap UInt64 (syscallCount * latencySlots)

def Maps.fresh : Maps where
  events := []
  drops := Vector.replicate 3 0
  filterMap := Vector.replicate 1
    { eventMask := 0
      pidCount := 0
      pids := Vector.replicate maxPids 0
      ppid := 0
      ppidEnabled := 0
      commEnabled := 0
      comm := Vector.replicate 16 0 }
  latencyStart := BoundedMap.empty _ _ _
  latencyHist := Vector.replicate (syscallCount * latencySlots) 0

/-- A process name: at most 15 bytes and no NUL. -/
structure Comm where
  name : List UInt8
  length_le : name.length ≤ 15
  noNul : 0 ∉ name

/-- `bpf_get_current_comm` pads the name to 16 bytes. -/
def Comm.padded (c : Comm) : Vector UInt8 16 :=
  ⟨(c.name ++ List.replicate (16 - c.name.length) 0).toArray, by
    have h := c.length_le
    simp
    omega⟩

structure Task where
  tgid : UInt32
  tid : UInt32
  parentTgid : UInt32
  comm : Comm

/-- `bpf_get_current_pid_tgid()`. -/
def Task.pidTgid (t : Task) : UInt64 := t.tgid.toUInt64 <<< 32 ||| t.tid.toUInt64

structure CString where
  bytes : List UInt8
  noNul : 0 ∉ bytes

/-- What `bpf_probe_read_kernel_str` and its user counterpart write into a
buffer of `size` bytes: the truncated string and one NUL. -/
def probeReadStr (size : ℕ) (s : CString) : List UInt8 := s.bytes.take (size - 1) ++ [0]

def getFilter (m : Maps) : Option FilterConfig := ArrayMap.lookup m.filterMap 0

def countDrop (m : Maps) (key : UInt32) : Maps :=
  { m with drops := ArrayMap.modify m.drops key (· + 1) }

/-- The unrolled search: it ends at `count`, or at the first match. -/
def pidLoop (pid count : UInt32) : ℕ → List UInt32 → Bool
  | _, [] => false
  | i, p :: ps =>
    if count.toNat ≤ i then false else if p = pid then true else pidLoop pid count (i + 1) ps

/-- The unrolled comparison: it ends at the first difference. -/
def commLoop : List Int8 → List Int8 → Bool
  | c :: cs, f :: fs => if c ≠ f then false else commLoop cs fs
  | _, _ => true

def allowed (m : Maps) (task : Task) : Bool :=
  match getFilter m with
  | none => false
  | some f =>
    let pid := (task.pidTgid >>> 32).toUInt32
    let count := if f.pidCount > UInt32.ofNat maxPids then UInt32.ofNat maxPids else f.pidCount
    if f.pidCount > 0 ∧ ¬ pidLoop pid count 0 f.pids.toList then false
    else if f.ppidEnabled ≠ 0 ∧ task.parentTgid ≠ f.ppid then false
    else if f.commEnabled ≠ 0 ∧
      ¬ commLoop (task.comm.padded.toList.map UInt8.toInt8) f.comm.toList then
      false
    else true

/-- What `bpf_ringbuf_reserve` returned: nothing, or memory that still holds
whatever was there before. -/
abbrev Reservation (size : ℕ) := Option (Vector UInt8 size)

def submit {size : ℕ} (m : Maps) (reserved : Reservation size)
    (fill : List UInt8 → List UInt8) : Maps :=
  match reserved with
  | none => countDrop m dropKeyRingbuf
  | some slot => { m with events := m.events ++ [fill slot.toList] }

/-- `hdr->kind = kind; hdr->version = RECORD_VERSION;` -/
def storeHeader (buf : List UInt8) (kind : UInt32) : List UInt8 :=
  storeU32 (storeU32 buf 0 kind) 4 recordVersion

structure ExecCtx where
  pid : Int32
  filename : CString

def fillExec (task : Task) (now : UInt64) (ctx : ExecCtx) (buf : List UInt8) : List UInt8 :=
  let buf := storeHeader buf eventKindExec
  let buf := storeU64 buf (8 + 0) now
  let buf := storeU32 buf (8 + 8) eventKindExec
  let buf := storeU32 buf (8 + 12) ctx.pid.toUInt32
  let buf := storeU32 buf (8 + 16) task.parentTgid
  let buf := store buf (8 + 20) task.comm.padded.toList
  store buf (8 + 36) (probeReadStr 128 ctx.filename)

def traceExec (m : Maps) (task : Task) (now : UInt64) (ctx : ExecCtx) (reserved : Reservation 176) :
    Maps :=
  if ¬ allowed m task then m else submit m reserved (fillExec task now ctx)

def fillOpen (task : Task) (now : UInt64) (fname : CString) (buf : List UInt8) : List UInt8 :=
  let buf := storeHeader buf eventKindOpen
  let buf := storeU64 buf (8 + 0) now
  let buf := storeU32 buf (8 + 8) eventKindOpen
  let buf := storeU32 buf (8 + 12) (task.pidTgid >>> 32).toUInt32
  let buf := store buf (8 + 16) task.comm.padded.toList
  store buf (8 + 32) (probeReadStr 128 fname)

/-- The three open programs only differ in the argument that holds `fname`. -/
def submitOpen (m : Maps) (task : Task) (now : UInt64) (fname : CString)
    (reserved : Reservation 168) : Maps :=
  if ¬ allowed m task then m else submit m reserved (fillOpen task now fname)

def tcpEstablished : Int32 := 1
def tcpSynSent : Int32 := 2
def tcpSynRecv : Int32 := 3
def tcpClose : Int32 := 7

structure TcpCtx where
  oldstate : Int32
  newstate : Int32
  sport : UInt16
  dport : UInt16
  family : UInt16
  saddr : Vector UInt8 4
  daddr : Vector UInt8 4
  saddrV6 : Vector UInt8 16
  daddrV6 : Vector UInt8 16

def fillTcp (task : Task) (now : UInt64) (ctx : TcpCtx) (type : UInt8) (buf : List UInt8) :
    List UInt8 :=
  let buf := storeHeader buf 0
  let buf := storeU64 buf (8 + 0) now
  let buf := storeU32 buf (8 + 8) (task.pidTgid >>> 32).toUInt32
  let buf := store buf (8 + 12) task.comm.padded.toList
  let buf := storeU8 buf (8 + 28) type
  let buf := storeU8 buf (8 + 29) ctx.family.toUInt8
  let buf := storeU16 buf (8 + 30) ctx.sport
  let buf := storeU16 buf (8 + 32) ctx.dport
  if ctx.family = afInet.toUInt16 then
    store (store buf (8 + 34) ctx.saddr.toList) (8 + 50) ctx.daddr.toList
  else
    store (store buf (8 + 34) ctx.saddrV6.toList) (8 + 50) ctx.daddrV6.toList

def submitTcp (m : Maps) (task : Task) (now : UInt64) (ctx : TcpCtx) (reserved : Reservation 80)
    (type : UInt8) : Maps :=
  submit m reserved (fillTcp task now ctx type)

def maskHas (m : Maps) (bit : UInt32) : Bool :=
  match getFilter m with
  | none => false
  | some f => f.eventMask &&& bit ≠ 0

def traceTcp (m : Maps) (task : Task) (now : UInt64) (ctx : TcpCtx) (reserved : Reservation 80) :
    Maps :=
  if ¬ allowed m task then m
  else if ctx.newstate = tcpEstablished then
    if ctx.oldstate = tcpSynSent then
      if maskHas m filterEventConnect then submitTcp m task now ctx reserved tcpEventConnect else m
    else if ctx.oldstate = tcpSynRecv then
      if maskHas m filterEventAccept then submitTcp m task now ctx reserved tcpEventAccept else m
    else m
  else if ctx.newstate = tcpClose then
    if maskHas m filterEventClose then submitTcp m task now ctx reserved tcpEventClose else m
  else m

end Bpf

end Tracelet
