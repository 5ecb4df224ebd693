import Tracelet.Clock
import Tracelet.Decode

namespace Tracelet
open ByteMemory

namespace Collector
open Tracelet.Stream (DashboardEvent streamMax)

structure StreamRow where
  wall : String
  pid : UInt32
  process : String
  event : String
  details : String
  deriving DecidableEq

/-- `started` is an instant in nanoseconds. -/
structure Shared where
  started : Option ℕ := none
  total : UInt64 := 0
  tcpTotal : UInt64 := 0
  fileTotal : UInt64 := 0
  dropped : UInt64 := 0
  processes : Finmap (fun _ : UInt32 => String × UInt64) := ∅
  byEvent : Finmap (fun _ : String => UInt64) := ∅
  recent : List StreamRow := []
  latency : List (List UInt64) := []

def processName (ev : DashboardEvent) : String := RustText.fromUtf8Lossy (cutNul ev.comm.toList)

def row (ev : DashboardEvent) (wall : String) : StreamRow where
  wall := wall
  pid := ev.pid
  process := processName ev
  event := ev.eventName
  details := ev.details

/-- `while recent.len() > STREAM_MAX { recent.pop_front(); }`. -/
def trim (recent : List StreamRow) : List StreamRow := recent.drop (recent.length - streamMax)

def Shared.push (shared : Shared) (ev : DashboardEvent) (wall : String) : Shared :=
  let process := processName ev
  let entry := (shared.processes.lookup ev.pid).getD (process, 0)
  let name := if entry.1 ≠ process then process else entry.1
  { shared with
    total := shared.total + 1
    tcpTotal := match ev with
      | .tcp .. => shared.tcpTotal + 1
      | .file .. => shared.tcpTotal
    fileTotal := match ev with
      | .tcp .. => shared.fileTotal
      | .file .. => shared.fileTotal + 1
    processes := shared.processes.insert ev.pid (name, entry.2 + 1)
    byEvent := shared.byEvent.insert ev.eventName ((shared.byEvent.lookup ev.eventName).getD 0 + 1)
    recent := trim (shared.recent ++ [row ev wall]) }

/-- The ring-buffer callback: a record that does not decode leaves no trace. -/
def Shared.receive (shared : Shared) (data : List UInt8) (bootOffsetNs : UInt64) : Shared :=
  match Stream.decodeStream data with
  | some ev => shared.push ev (wallTime data bootOffsetNs)
  | none => shared

theorem getLast_recent_push (shared : Shared) (ev : DashboardEvent) (wall : String) :
    (shared.push ev wall).recent.getLast? = some (row ev wall) := by
  have hlen : (shared.recent ++ [row ev wall]).length - streamMax ≤ shared.recent.length := by
    simp [streamMax]
  simp only [Shared.push, trim, List.drop_append_of_le_length hlen, List.getLast?_concat]

end Collector

theorem strOf_eq_fromUtf8Lossy {buf : List UInt8} (h : Events.printable buf = true) :
    Events.strOf buf = RustText.fromUtf8Lossy (cutNul buf) := by
  have hutf8 := RustText.fromUtf8_ascii (cutNul_ascii_of_printable h)
  rw [Events.strOf, hutf8, RustText.fromUtf8Lossy_of_fromUtf8 hutf8, Option.getD_some]

def Stream.DashboardEvent.path : Stream.DashboardEvent → Option (Vector UInt8 128)
  | file _ _ _ _ path => some path
  | tcp _ _ _ _ _ => none

structure Printed where
  ktimeNs : UInt64
  pid : UInt32
  ppid : UInt32
  comm : Vector UInt8 16
  path : Option (Vector UInt8 128)
  event : String
  details : String

def Printed.ofExec (ev : ExecEvent) : Printed :=
  ⟨ev.ktimeNs, ev.pid, ev.ppid, ev.comm, some ev.filename, "EXEC", Events.strOf ev.filename.toList⟩

/-- The command has no parent pid here, and the dashboard shows `0`. -/
def Printed.ofOpen (ev : OpenEvent) : Printed :=
  ⟨ev.ktimeNs, ev.pid, 0, ev.comm, some ev.filename, "OPEN", Events.strOf ev.filename.toList⟩

def Printed.ofTcp (ev : TcpEvent) : Printed :=
  ⟨ev.ktimeNs, ev.pid, 0, ev.comm, none, ev.eventName, ev.destination⟩

/-- The dashboard decodes and shows the same: the fields, the row that it stores
for the record, and the time. -/
structure Agrees (data : List UInt8) (p : Printed) (shown : Stream.DashboardEvent) : Prop where
  pid : shown.pid = p.pid
  ppid : shown.ppid = p.ppid
  comm : shown.comm = p.comm
  path : shown.path = p.path
  eventName : shown.eventName = p.event
  details : shown.details = p.details
  row : ∀ (shared : Collector.Shared) (off : UInt64),
    (shared.receive data off).recent.getLast? =
      some ⟨Events.wallTime p.ktimeNs off, p.pid, Events.strOf p.comm.toList, p.event, p.details⟩
  wall : ∀ off, Collector.wallTime data off = Events.wallTime p.ktimeNs off

theorem agrees_of_fields {data : List UInt8} {p : Printed} {shown : Stream.DashboardEvent}
    (hshown : Stream.decodeStream data = some shown) (hlen : 16 ≤ data.length)
    (hktime : u64At (data.drop 8) 0 = p.ktimeNs)
    (hprintable : Events.printable p.comm.toList = true) (hpid : shown.pid = p.pid)
    (hppid : shown.ppid = p.ppid) (hcomm : shown.comm = p.comm)
    (hpath : shown.path = p.path) (hname : shown.eventName = p.event)
    (hdetails : shown.details = p.details) : Agrees data p shown := by
  have hwall : ∀ off, Collector.wallTime data off = Events.wallTime p.ktimeNs off := fun off => by
    rw [Collector.wallTime_eq hlen, ← hktime, u64At_drop]
  refine ⟨hpid, hppid, hcomm, hpath, hname, hdetails, fun shared off => ?_, hwall⟩
  simp only [Collector.Shared.receive, hshown, Collector.getLast_recent_push, Collector.row,
    Collector.processName, hwall, hpid, hcomm, hname, hdetails, strOf_eq_fromUtf8Lossy hprintable]

theorem exec_agrees {data : List UInt8} (hkind : u32At data 0 = eventKindExec) {ev : ExecEvent}
    {shown : Stream.DashboardEvent} (hev : Events.decodeExec data = some ev)
    (hshown : Stream.decodeStream data = some shown) : Agrees data (.ofExec ev) shown := by
  obtain ⟨hlen, -, hfields, hvalid⟩ := Events.decodeRecord_eq_some_iff.mp hev
  rw [Bool.and_eq_true] at hvalid
  have hof : shown = .ofExec ev := by
    rw [Stream.decodeStream_eq, if_pos hkind, hev] at hshown
    exact (Option.some.inj hshown).symm
  subst hof
  exact agrees_of_fields hshown (by rw [hlen]; decide) (by rw [← hfields]; rfl) hvalid.1
    rfl rfl rfl rfl rfl (strOf_eq_fromUtf8Lossy hvalid.2).symm

theorem open_agrees {data : List UInt8} (hkind : u32At data 0 = eventKindOpen) {ev : OpenEvent}
    {shown : Stream.DashboardEvent} (hev : Events.decodeOpen data = some ev)
    (hshown : Stream.decodeStream data = some shown) : Agrees data (.ofOpen ev) shown := by
  obtain ⟨hlen, -, hfields, hvalid⟩ := Events.decodeRecord_eq_some_iff.mp hev
  rw [Bool.and_eq_true] at hvalid
  have hof : shown = .ofOpen ev := by
    rw [Stream.decodeStream_eq, hkind, if_neg (by decide), if_pos rfl, hev] at hshown
    exact (Option.some.inj hshown).symm
  subst hof
  exact agrees_of_fields hshown (by rw [hlen]; decide) (by rw [← hfields]; rfl) hvalid.1
    rfl rfl rfl rfl rfl (strOf_eq_fromUtf8Lossy hvalid.2).symm

theorem tcp_agrees {data : List UInt8} (hkind : u32At data 0 = 0) {ev : TcpEvent}
    {shown : Stream.DashboardEvent} (hev : Events.decodeTcp data = some ev)
    (hshown : Stream.decodeStream data = some shown) : Agrees data (.ofTcp ev) shown := by
  obtain ⟨hlen, -, hfields, hvalid⟩ := Events.decodeRecord_eq_some_iff.mp hev
  simp only [Events.validTcp, Bool.and_eq_true] at hvalid
  have hof : shown = .ofTcp ev := by
    rw [Stream.decodeStream_eq, hkind, if_neg (by decide), if_neg (by decide), hev] at hshown
    exact (Option.some.inj hshown).symm
  subst hof
  exact agrees_of_fields hshown (by rw [hlen]; decide) (by rw [← hfields]; rfl) hvalid.1.1
    rfl rfl rfl rfl rfl rfl

/-- On every record with the kind of a command, the command's decoder and the
dashboard's accept the same bytes and show the same. -/
theorem decoders_agree (data : List UInt8) :
    (u32At data 0 = eventKindExec →
      (Events.decodeExec data).isSome = (Stream.decodeStream data).isSome ∧
      ∀ ev shown, Events.decodeExec data = some ev → Stream.decodeStream data = some shown →
        Agrees data (.ofExec ev) shown) ∧
    (u32At data 0 = eventKindOpen →
      (Events.decodeOpen data).isSome = (Stream.decodeStream data).isSome ∧
      ∀ ev shown, Events.decodeOpen data = some ev → Stream.decodeStream data = some shown →
        Agrees data (.ofOpen ev) shown) ∧
    (u32At data 0 = 0 →
      (Events.decodeTcp data).isSome = (Stream.decodeStream data).isSome ∧
      ∀ ev shown, Events.decodeTcp data = some ev → Stream.decodeStream data = some shown →
        Agrees data (.ofTcp ev) shown) := by
  refine ⟨fun hkind => ⟨?_, fun ev shown => exec_agrees hkind⟩,
    fun hkind => ⟨?_, fun ev shown => open_agrees hkind⟩,
    fun hkind => ⟨?_, fun ev shown => tcp_agrees hkind⟩⟩
  · rw [Stream.decodeStream_eq, if_pos hkind, Option.isSome_map]
  · rw [Stream.decodeStream_eq, hkind, if_neg (by decide), if_pos rfl, Option.isSome_map]
  · rw [Stream.decodeStream_eq, hkind, if_neg (by decide), if_neg (by decide), Option.isSome_map]

/-- At 01:02:03.004 after boot `sh`, a child of `init`, executes `/a`. -/
def shellRecord : List UInt8 :=
  [1, 0, 0, 0, 1, 0, 0, 0] ++ [0, 183, 84, 212, 98, 3, 0, 0] ++
    [1, 0, 0, 0, 100, 0, 0, 0, 1, 0, 0, 0] ++
    [115, 104] ++ List.replicate 14 0 ++ [47, 97] ++ List.replicate 130 0

set_option maxRecDepth 4000 in
theorem decoders_agree_shellRecord :
    ∃ ev shown, Events.decodeExec shellRecord = some ev ∧
      Stream.decodeStream shellRecord = some shown ∧
      Agrees shellRecord (.ofExec ev) shown ∧
      (shown.pid, shown.ppid, shown.details) = (100, 1, "/a") ∧
      Events.strOf ev.comm.toList = "sh" ∧ Events.wallTime ev.ktimeNs 0 = "01:02:03.004" := by
  obtain ⟨hsome, hagrees⟩ := (decoders_agree shellRecord).1 (by decide)
  obtain ⟨ev, hev⟩ := Option.isSome_iff_exists.mp
    (show (Events.decodeExec shellRecord).isSome = true by decide)
  rw [hev] at hsome
  obtain ⟨shown, hshown⟩ := Option.isSome_iff_exists.mp hsome.symm
  have hboth := hagrees ev shown hev hshown
  refine ⟨ev, shown, hev, hshown, hboth, ?_⟩
  rw [hboth.pid, hboth.ppid, hboth.details]
  obtain rfl := Option.some.inj hev
  decide

end Tracelet
