import Tracelet.Event

namespace Tracelet
open ByteMemory

namespace Events

def printable (buf : List UInt8) : Bool := buf.all fun b => b == 0 || (0x20 ≤ b && b < 0x7f)

def readEvent (E : Type) [ReprC E] (data : List UInt8) : Option E :=
  if data.length ≠ ReprC.size E then none else some (ReprC.fields data)

def strOf (buf : List UInt8) : String := (RustText.fromUtf8 (cutNul buf)).getD ""

def skipHeader (data : List UInt8) : Option (List UInt8) :=
  if data.length < 8 then none
  else if u32At data 4 ≠ recordVersion then none
  else some (data.drop 8)

/-- The shape of the three decoders: skip the header, read the struct, check it. -/
def decodeRecord (E : Type) [ReprC E] (valid : E → Bool) (data : List UInt8) : Option E := do
  let payload ← skipHeader data
  let ev ← readEvent E payload
  if valid ev then some ev else none

def decodeExec : List UInt8 → Option ExecEvent :=
  decodeRecord ExecEvent fun ev => printable ev.comm.toList && printable ev.filename.toList

def decodeOpen : List UInt8 → Option OpenEvent :=
  decodeRecord OpenEvent fun ev => printable ev.comm.toList && printable ev.filename.toList

/-- The three early returns of `decode_tcp`, turned round. -/
def validTcp (ev : TcpEvent) : Bool :=
  printable ev.comm.toList && (ev.family == afInet || ev.family == afInet6) &&
    (tcpEventConnect ≤ ev.eventType && ev.eventType ≤ tcpEventClose)

def decodeTcp : List UInt8 → Option TcpEvent := decodeRecord TcpEvent validTcp

theorem decodeRecord_eq_some_iff {E : Type} [ReprC E] {valid : E → Bool}
    {data : List UInt8} {ev : E} :
    decodeRecord E valid data = some ev ↔
      data.length = 8 + ReprC.size E ∧ u32At data 4 = recordVersion ∧
        ReprC.fields (data.drop 8) = ev ∧ valid ev = true := by
  simp only [decodeRecord, skipHeader, readEvent]
  by_cases hlen : data.length < 8
  · simp only [hlen, if_true, Option.bind_eq_bind, Option.bind_none, reduceCtorEq, false_iff]
    omega
  by_cases hver : u32At data 4 = recordVersion
  · by_cases hsize : data.length - 8 = ReprC.size E
    · have hl : data.length = 8 + ReprC.size E := by omega
      simp [hl, hver]
      constructor
      · rintro ⟨hv, rfl⟩
        exact ⟨rfl, hv⟩
      · rintro ⟨rfl, hv⟩
        exact ⟨hv, rfl⟩
    · simp [hlen, hver, hsize]
      omega
  · simp [hlen, hver]

def zeroExec : List UInt8 := [1, 0, 0, 0, 1, 0, 0, 0] ++ List.replicate 168 0

end Events

namespace Stream

def streamMax : ℕ := 512

def fileEventExec : UInt8 := 0
def fileEventOpen : UInt8 := 1

def fileEventName (kind : UInt8) : String :=
  if kind = fileEventExec then "EXEC" else if kind = fileEventOpen then "OPEN" else "UNKNOWN"

inductive DashboardEvent where
  | file (pid ppid : UInt32) (kind : UInt8) (comm : Vector UInt8 16) (path : Vector UInt8 128)
  | tcp (pid : UInt32) (eventType family : UInt8) (comm : Vector UInt8 16) (dest : String)
  deriving DecidableEq

def placeholders : TcpEvent where
  ktimeNs := 0
  pid := 0
  comm := Vector.replicate 16 0
  eventType := 0
  family := 0
  sport := 0
  dport := 0
  saddr := Vector.replicate 16 0
  daddr := Vector.replicate 16 0

namespace DashboardEvent

def pid : DashboardEvent → UInt32
  | file pid _ _ _ _ => pid
  | tcp pid _ _ _ _ => pid

def ppid : DashboardEvent → UInt32
  | file _ ppid _ _ _ => ppid
  | tcp _ _ _ _ _ => 0

def kind : DashboardEvent → UInt8
  | file _ _ kind _ _ => kind
  | tcp _ _ _ _ _ => 255

def eventName : DashboardEvent → String
  | file _ _ kind _ _ => fileEventName kind
  | tcp _ eventType _ _ _ => { placeholders with eventType := eventType }.eventName

def comm : DashboardEvent → Vector UInt8 16
  | file _ _ _ comm _ => comm
  | tcp _ _ _ comm _ => comm

def details : DashboardEvent → String
  | file _ _ _ _ path => RustText.fromUtf8Lossy (cutNul path.toList)
  | tcp _ _ _ _ dest => dest

/-- The constructors `decode_stream` applies to a checked payload. -/
def ofExec (ev : ExecEvent) : DashboardEvent :=
  file ev.pid ev.ppid fileEventExec ev.comm ev.filename

def ofOpen (ev : OpenEvent) : DashboardEvent := file ev.pid 0 fileEventOpen ev.comm ev.filename

def ofTcp (ev : TcpEvent) : DashboardEvent :=
  tcp ev.pid ev.eventType ev.family ev.comm ev.destination

end DashboardEvent

open Common (printable readEvent)

def decodeTcp (data : List UInt8) : Option TcpEvent := do
  let ev ← readEvent TcpEvent data
  if !printable ev.comm.toList then none
  else if ev.family ≠ afInet ∧ ev.family ≠ afInet6 then none
  else if !(tcpEventConnect ≤ ev.eventType && ev.eventType ≤ tcpEventClose) then none
  else some ev

def decodeStream (data : List UInt8) : Option DashboardEvent :=
  if data.length < 8 then none
  else if u32At data 4 ≠ recordVersion then none
  else
    let kind := u32At data 0
    let payload := data.drop 8
    if kind = eventKindExec then do
      let ev ← readEvent ExecEvent payload
      if !printable ev.comm.toList || !printable ev.filename.toList then none
      else some (.ofExec ev)
    else if kind = eventKindOpen then do
      let ev ← readEvent OpenEvent payload
      if !printable ev.comm.toList || !printable ev.filename.toList then none
      else some (.ofOpen ev)
    else do
      let ev ← decodeTcp payload
      some (.ofTcp ev)

theorem bind_reject_eq_map {E D : Type} (o : Option E) (p q : E → Bool) (f : E → D) :
    (o.bind fun ev => if !p ev || !q ev then none else some (f ev)) =
      (o.bind fun ev => if p ev && q ev then some ev else none).map f := by
  cases o with
  | none => rfl
  | some ev => cases hp : p ev <;> cases hq : q ev <;> simp [hp, hq]

theorem decodeTcp_eq (data : List UInt8) :
    decodeTcp data =
      (Events.readEvent TcpEvent data).bind fun ev =>
        if Events.validTcp ev then some ev else none := by
  change ((Events.readEvent TcpEvent data).bind fun ev => _) = _
  congr 1
  funext ev
  have hc : printable ev.comm.toList = Events.printable ev.comm.toList := rfl
  -- the three early returns, in the order of the source
  by_cases hp : Events.printable ev.comm.toList = true
  · by_cases hf : ev.family = afInet ∨ ev.family = afInet6
    · by_cases ht : tcpEventConnect ≤ ev.eventType ∧ ev.eventType ≤ tcpEventClose
      · simp only [hc, hp, Events.validTcp, ht, hf, ← not_or]
        simp [hf]
      · simp only [hc, hp, Events.validTcp, hf, ← not_or]
        simp [ht]
    · simp only [hc, hp, Events.validTcp, hf, ← not_or]
      simp [hf]
  · simp [hc, hp, Events.validTcp]

/-- The kind only selects which of the three CLI decoders is mirrored. -/
theorem decodeStream_eq (data : List UInt8) :
    decodeStream data =
      if u32At data 0 = eventKindExec then (Events.decodeExec data).map .ofExec
      else if u32At data 0 = eventKindOpen then (Events.decodeOpen data).map .ofOpen
      else (Events.decodeTcp data).map .ofTcp := by
  have hp : Common.printable = Events.printable := rfl
  have hr : @Common.readEvent = @Events.readEvent := rfl
  simp only [decodeStream, Events.decodeExec, Events.decodeOpen, Events.decodeTcp,
    Events.decodeRecord, Events.skipHeader, hp, hr, Option.bind_eq_bind]
  by_cases hlen : data.length < 8
  · simp [hlen]
  by_cases hver : u32At data 4 = recordVersion
  · simp only [hlen, hver, if_false, ne_eq, not_true_eq_false, Option.bind_some]
    split_ifs
    · exact bind_reject_eq_map _ (fun ev => Events.printable ev.comm.toList)
        (fun ev => Events.printable ev.filename.toList) DashboardEvent.ofExec
    · exact bind_reject_eq_map _ (fun ev => Events.printable ev.comm.toList)
        (fun ev => Events.printable ev.filename.toList) DashboardEvent.ofOpen
    · rw [decodeTcp_eq]
      cases (Events.readEvent TcpEvent (data.drop 8)).bind _ <;> rfl
  · simp [hlen, hver]

end Stream

end Tracelet
