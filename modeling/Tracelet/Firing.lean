import Tracelet.LatencyPane
import Tracelet.TcpEvents
import Tracelet.Output

namespace Tracelet
open ByteMemory KernelMap RustText

deriving instance DecidableEq for LatencyPane.Prog

namespace Bpf
open LatencyPane (Prog)
open Tracelet.Filter (EventKind)

/-- The arguments of a system call, and the strings in the memory of its process. -/
structure SysEnterCtx where
  args : Vector UInt64 6
  string : UInt64 → CString

section Open

variable (m : Maps) (task : Task) (now : UInt64) (ctx : SysEnterCtx) (reserved : Reservation 168)

def traceOpen : Maps := submitOpen m task now (ctx.string ctx.args[0]) reserved

def traceOpenat : Maps := submitOpen m task now (ctx.string ctx.args[1]) reserved

def traceOpenat2 : Maps := submitOpen m task now (ctx.string ctx.args[1]) reserved

end Open

inductive OpenCall where
  | sysOpen | openat | openat2

/-- What a tracepoint passes to its program, and what the ring buffer answers if
the program asks it for memory. Sockets of other families do not reach
`inet_sock_set_state`. -/
inductive Tracepoint where
  | schedProcessExec (ctx : ExecCtx) (reserved : Reservation 176)
  | sysEnter (call : OpenCall) (ctx : SysEnterCtx) (reserved : Reservation 168)
  | inetSockSetState (ctx : TcpCtx)
      (inet : ctx.family = afInet.toUInt16 ∨ ctx.family = afInet6.toUInt16)
        (reserved : Reservation 80)

structure Firing where
  task : Task
  now : UInt64
  tracepoint : Tracepoint

def Firing.prog (f : Firing) : Prog :=
  match f.tracepoint with
  | .schedProcessExec .. => .traceExec
  | .sysEnter .sysOpen .. => .traceOpen
  | .sysEnter .openat .. => .traceOpenat
  | .sysEnter .openat2 .. => .traceOpenat2
  | .inetSockSetState .. => .traceTcp

def Firing.handle (m : Maps) (f : Firing) : Maps :=
  match f.tracepoint with
  | .schedProcessExec ctx reserved => traceExec m f.task f.now ctx reserved
  | .sysEnter .sysOpen ctx reserved => traceOpen m f.task f.now ctx reserved
  | .sysEnter .openat ctx reserved => traceOpenat m f.task f.now ctx reserved
  | .sysEnter .openat2 ctx reserved => traceOpenat2 m f.task f.now ctx reserved
  | .inetSockSetState ctx _ reserved => traceTcp m f.task f.now ctx reserved

def OpenCall.fname (ctx : SysEnterCtx) : OpenCall → CString
  | sysOpen => ctx.string ctx.args[0]
  | openat | openat2 => ctx.string ctx.args[1]

def TcpCtx.kind (ctx : TcpCtx) : Option EventKind :=
  if ctx.newstate = tcpEstablished then
    if ctx.oldstate = tcpSynSent then some .connect
    else if ctx.oldstate = tcpSynRecv then some .accept
    else none
  else if ctx.newstate = tcpClose then some .close
  else none

theorem TcpCtx.kind_eq_some_iff (ctx : TcpCtx) (kind : EventKind) :
    ctx.kind = some kind ↔ ctx.Is kind := by
  have hstates : tcpSynSent ≠ tcpSynRecv ∧ tcpClose ≠ tcpEstablished ∧
      tcpEstablished ≠ tcpClose := by
    decide
  unfold TcpCtx.kind
  cases kind <;> simp only [TcpCtx.Is] <;> split_ifs <;> simp_all

/-- The record that the program writes into the reserved memory. -/
def Firing.record (f : Firing) : Option (List UInt8) :=
  match f.tracepoint with
  | .schedProcessExec ctx reserved => reserved.map fun slot => fillExec f.task f.now ctx slot.toList
  | .sysEnter call ctx reserved =>
    reserved.map fun slot => fillOpen f.task f.now (call.fname ctx) slot.toList
  | .inetSockSetState ctx _ reserved =>
    ctx.kind.bind fun kind => reserved.map fun slot =>
      fillTcp f.task f.now ctx kind.type slot.toList

def Firing.bytes (f : Firing) : List UInt8 := f.record.getD []

/-- Whether the program gets as far as asking for memory. -/
def Firing.passes (m : Maps) (f : Firing) : Bool :=
  allowed m f.task &&
    match f.tracepoint with
    | .inetSockSetState ctx _ _ => ctx.kind.any fun kind => maskHas m kind.mask
    | _ => true

/-- A program submits its record, counts a drop, or does nothing. -/
theorem Firing.handle_eq (m : Maps) (f : Firing) :
    f.handle m = if f.passes m then fire m f.record else m := by
  -- a task that the filter rejects leaves the maps as they are under every program
  cases hallowed : allowed m f.task with
  | false =>
    obtain ⟨hexec, hopen, htcp⟩ := rejected_unchanged hallowed f.now
    unfold handle passes
    rw [hallowed]
    split
    · exact hexec _ _
    · exact hopen _ _
    · exact hopen _ _
    · exact hopen _ _
    · exact htcp _ _
  | true =>
    obtain ⟨task, now, tracepoint⟩ := f
    simp only at hallowed
    cases tracepoint with
    | schedProcessExec ctx reserved =>
      simp [handle, passes, record, traceExec, hallowed, submit_eq_fire]
    | sysEnter call ctx reserved =>
      cases call <;>
        simp [handle, passes, record, traceOpen, traceOpenat, traceOpenat2,
          OpenCall.fname, submitOpen, hallowed, submit_eq_fire]
    | inetSockSetState ctx inet reserved =>
      simp only [handle, passes, record, hallowed, Bool.true_and]
      -- a state change that is no event leaves the maps as they are
      cases hkind : ctx.kind with
      | none =>
        simp only [Option.any_none, Bool.false_eq_true, if_false]
        refine traceTcp_eq_self now reserved fun kind his => ?_
        rw [← TcpCtx.kind_eq_some_iff, hkind] at his
        cases his
      | some kind =>
        have his := (TcpCtx.kind_eq_some_iff ctx kind).mp hkind
        simp only [Option.any_some, Option.bind_some]
        split_ifs with hmask
        · rw [traceTcp_eq_submitTcp now reserved hallowed his hmask, submitTcp, submit_eq_fire]
        · refine traceTcp_eq_self now reserved fun kind' his' => ?_
          rw [← TcpCtx.kind_eq_some_iff, hkind] at his'
          obtain rfl := Option.some.inj his'
          exact Bool.eq_false_iff.mpr hmask

def asText (bs : List UInt8) : String := String.ofList (bs.map fun b => Char.ofNat b.toNat)

instance (bs : List UInt8) : Decidable (PrintableText bs) :=
  inferInstanceAs (Decidable (∀ b ∈ bs, 0x20 ≤ b ∧ b < 0x7f))

instance (slot : List UInt8) (off : ℕ) (path : CString) : Decidable (CleanBehind slot off path) :=
  decidable_of_iff (∀ i < 128, min 127 path.bytes.length + 1 ≤ i →
      (byteAt slot (off + i) = 0 ∨ 0x20 ≤ byteAt slot (off + i) ∧ byteAt slot (off + i) < 0x7f))
    ⟨fun h i hlow hi => h i hi hlow, fun h i hi hlow => h i hlow hi⟩

/-- A path passes the decoders exactly if it is printable as far as it is kept,
and the memory behind it is too. -/
def ReadablePath {n : ℕ} (slot : Vector UInt8 n) (off : ℕ) (path : CString) : Prop :=
  PrintableText (path.bytes.take 127) ∧ CleanBehind slot.toList off path

instance {n : ℕ} (slot : Vector UInt8 n) (off : ℕ) (path : CString) :
    Decidable (ReadablePath slot off path) :=
  inferInstanceAs (Decidable (_ ∧ _))

/-- The firings whose records the decoders accept. -/
def Firing.readable (f : Firing) : Bool :=
  decide (PrintableText f.task.comm.name) &&
    match f.tracepoint with
    | .schedProcessExec ctx reserved => reserved.all fun slot => ReadablePath slot 44 ctx.filename
    | .sysEnter call ctx reserved => reserved.all fun slot => ReadablePath slot 40 (call.fname ctx)
    | .inetSockSetState .. => true

def Firing.row (format : OutputFormat) (bootOffsetNs : UInt64) (f : Firing) : List Char :=
  let time := Events.wallTime f.now bootOffsetNs
  let comm := asText f.task.comm.name
  match f.tracepoint, format with
  | .schedProcessExec ctx _, .text =>
    printRow [(12, time), (7, toString ctx.pid.toUInt32.toNat),
      (7, toString f.task.parentTgid.toNat),
      (16, comm)] (asText (ctx.filename.bytes.take 127))
  | .schedProcessExec ctx _, .json =>
    Output.execJsonLine time ctx.pid.toUInt32 f.task.parentTgid comm
      (asText (ctx.filename.bytes.take 127))
  | .sysEnter call ctx _, .text =>
    printRow [(12, time), (7, toString f.task.tgid.toNat), (16, comm)]
      (asText ((call.fname ctx).bytes.take 127))
  | .sysEnter call ctx _, .json =>
    Output.openJsonLine time f.task.tgid comm (asText ((call.fname ctx).bytes.take 127))
  | .inetSockSetState ctx _ _, .text =>
    printRow [(12, time), (16, comm), (7, toString f.task.tgid.toNat),
      (9, ctx.kind.elim "" EventKind.name)] (ctx.endpoint ctx.daddr ctx.daddrV6 ctx.dport)
  | .inetSockSetState ctx _ _, .json =>
    Output.tcpJsonLine time f.task.tgid comm (ctx.kind.elim "" EventKind.name)
      (ctx.endpoint ctx.saddr ctx.saddrV6 ctx.sport) (ctx.endpoint ctx.daddr ctx.daddrV6 ctx.dport)

/-- What standard output shows of a firing, if its record is accepted. -/
def Firing.line (format : OutputFormat) (bootOffsetNs : UInt64) (f : Firing) : Option (List Char) :=
  if f.readable then some (f.row format bootOffsetNs) else none

theorem strOf_eq_asText {bs buf : List UInt8} (hcut : cutNul buf = bs) (h : PrintableText bs) :
    Events.strOf buf = asText bs := by
  have hascii : ∀ b ∈ bs, b < 0x80 := fun b hb => UInt8.lt_trans (h b hb).2 (by decide)
  rw [Events.strOf, hcut, fromUtf8_ascii hascii, Option.getD_some, asText]

theorem printable_padded_iff (c : Comm) :
    Events.printable c.padded.toList = true ↔ PrintableText c.name := by
  constructor
  · intro h b hb
    have hmem : b ∈ c.padded.toList := by
      rw [c.toList_padded]
      exact List.mem_append_left _ hb
    rcases (Events.printable_eq_true_iff _).mp h b hmem with rfl | hprint
    · exact absurd hb c.noNul
    · exact hprint
  · exact printable_padded

theorem printable_pathBuffer {n : ℕ} (slot : Vector UInt8 n) (off : ℕ) (path : CString) :
    Events.printable (pathBuffer slot.toList off path) = true ↔ ReadablePath slot off path := by
  -- the buffer holds 128 bytes with the terminator, so what is behind byte 127 of the path is
  -- never seen
  let kept : CString := ⟨path.bytes.take 127, fun h => path.noNul (List.mem_of_mem_take h)⟩
  have hbuffer : pathBuffer slot.toList off kept = pathBuffer slot.toList off path := by
    simp [pathBuffer, probeReadStr, kept, List.take_take]
  have hclean : CleanBehind slot.toList off kept ↔ CleanBehind slot.toList off path := by
    simp [CleanBehind, kept]
  have hiff : PrintableText (path.bytes.take 127) →
      (Events.printable (pathBuffer slot.toList off path) = true ↔
        CleanBehind slot.toList off path) := by
    intro hkept
    rw [← hbuffer, ← hclean]
    exact printable_pathBuffer_iff hkept slot.toList off
  constructor
  · intro h
    have hkept : PrintableText (path.bytes.take 127) := by
      intro b hb
      have hmem : b ∈ pathBuffer slot.toList off path := by
        rw [pathBuffer, probeReadStr, List.append_assoc]
        exact List.mem_append_left _ hb
      have hne : b ≠ 0 := fun h0 => path.noNul (h0 ▸ List.mem_of_mem_take hb)
      exact ((Events.printable_eq_true_iff _).mp h b hmem).resolve_left hne
    exact ⟨hkept, (hiff hkept).mp h⟩
  · rintro ⟨hkept, hclean⟩
    exact (hiff hkept).mpr hclean

theorem decodeRecord_eq_ite {E : Type} [ReprC E] {valid : E → Bool} {data : List UInt8} {ev : E}
    (hlen : data.length = 8 + ReprC.size E) (hversion : u32At data 4 = recordVersion)
    (hfields : ReprC.fields (data.drop 8) = ev) :
    Events.decodeRecord E valid data = if valid ev then some ev else none := by
  split_ifs with hvalid
  · exact Events.decodeRecord_eq_some_iff.mpr ⟨hlen, hversion, hfields, hvalid⟩
  · apply Option.eq_none_iff_forall_ne_some.mpr
    intro ev' hev'
    obtain ⟨-, -, rfl, hvalid'⟩ := Events.decodeRecord_eq_some_iff.mp hev'
    rw [hfields] at hvalid'
    exact hvalid hvalid'

section Rows

variable (format : OutputFormat) (off : UInt64) (task : Task) (now : UInt64)

theorem readable_file {n at' : ℕ} {slot : Vector UInt8 n} {path : CString}
    {filename : Vector UInt8 128} (hname : filename.toList = pathBuffer slot.toList at' path)
    (c : Comm) :
    (Events.printable c.padded.toList && Events.printable filename.toList) =
        (decide (PrintableText c.name) && decide (ReadablePath slot at' path)) ∧
      (PrintableText c.name ∧ ReadablePath slot at' path →
        Events.strOf c.padded.toList = asText c.name ∧
          Events.strOf filename.toList = asText (path.bytes.take 127)) := by
  refine ⟨?_, fun h => ⟨strOf_eq_asText c.cutNul_padded h.1, strOf_eq_asText ?_ h.2.1⟩⟩
  · rw [Bool.eq_iff_iff]
    simp [printable_padded_iff, hname, printable_pathBuffer]
  · rw [hname, cutNul_pathBuffer]

theorem line_fillExec (ctx : ExecCtx) (slot : Vector UInt8 176) :
    EventLoop.Command.exec.line format off (fillExec task now ctx slot.toList) =
      Firing.line format off ⟨task, now, .schedProcessExec ctx (some slot)⟩ := by
  obtain ⟨hlen, -, hversion⟩ := recordFields_header (laidOut_execFields task now ctx slot)
  obtain ⟨filename, hname, hfields⟩ := fields_fillExec task now ctx slot
  obtain ⟨hvalid, htext⟩ := readable_file hname task.comm
  have hdecode : Events.decodeExec (fillExec task now ctx slot.toList) = _ :=
    decodeRecord_eq_ite hlen hversion hfields
  have hreadable : Firing.readable ⟨task, now, .schedProcessExec ctx (some slot)⟩ =
      (decide (PrintableText task.comm.name) && decide (ReadablePath slot 44 ctx.filename)) := rfl
  rw [EventLoop.Command.line, hdecode, hvalid, Firing.line, hreadable]
  split_ifs with hr
  · simp only [Bool.and_eq_true, decide_eq_true_eq] at hr
    obtain ⟨hcomm, hpath⟩ := htext hr
    simp only [Option.map_some, execLine, hcomm, hpath]
    cases format <;> rfl
  · rfl

theorem line_fillOpen (call : OpenCall) (ctx : SysEnterCtx) (slot : Vector UInt8 168) :
    EventLoop.Command.fileOpen.line format off (fillOpen task now (call.fname ctx) slot.toList) =
      Firing.line format off ⟨task, now, .sysEnter call ctx (some slot)⟩ := by
  obtain ⟨hlen, -, hversion⟩ :=
    recordFields_header (laidOut_openFields task now (call.fname ctx) slot)
  obtain ⟨filename, hname, hfields⟩ := fields_fillOpen task now (call.fname ctx) slot
  obtain ⟨hvalid, htext⟩ := readable_file hname task.comm
  have hdecode : Events.decodeOpen (fillOpen task now (call.fname ctx) slot.toList) = _ :=
    decodeRecord_eq_ite hlen hversion hfields
  have hreadable : Firing.readable ⟨task, now, .sysEnter call ctx (some slot)⟩ =
      (decide (PrintableText task.comm.name) && decide (ReadablePath slot 40 (call.fname ctx))) :=
        rfl
  rw [EventLoop.Command.line, hdecode, hvalid, Firing.line, hreadable]
  split_ifs with hr
  · simp only [Bool.and_eq_true, decide_eq_true_eq] at hr
    obtain ⟨hcomm, hpath⟩ := htext hr
    simp only [Option.map_some, openLine, hcomm, hpath]
    cases format <;> rfl
  · rfl

theorem decodeTcp_fillTcp {ctx : TcpCtx} {kind : EventKind} (hkind : ctx.kind = some kind)
    (inet : ctx.family = afInet.toUInt16 ∨ ctx.family = afInet6.toUInt16) (slot : Vector UInt8 80) :
    ∃ ev : TcpEvent, Events.decodeTcp (fillTcp task now ctx kind.type slot.toList) =
        (if Firing.readable
          ⟨task, now, .inetSockSetState ctx inet (some slot)⟩ then some ev else none) ∧
      ev.ktimeNs = now ∧ ev.pid = task.tgid ∧ ev.comm = task.comm.padded ∧
        ev.eventName = kind.name ∧
      ev.source = ctx.endpoint ctx.saddr ctx.saddrV6 ctx.sport ∧
      ev.destination = ctx.endpoint ctx.daddr ctx.daddrV6 ctx.dport := by
  have hlaid := laidOut_tcpFields task now ctx kind.type slot
  obtain ⟨hlen, -, hversion⟩ := recordFields_header hlaid
  obtain ⟨saddr, daddr, hsaddr, hdaddr, hfields⟩ := fields_fillTcp task now ctx kind.type slot
  rw [← tcpFields, ← fillTcp_eq] at hlen hversion
  have hdecode : Events.decodeTcp (fillTcp task now ctx kind.type slot.toList) = _ :=
    decodeRecord_eq_ite hlen hversion hfields
  have htype : tcpEventConnect ≤ kind.type ∧ kind.type ≤ tcpEventClose := by
    cases kind <;> decide
  have hfamily : ctx.family.toUInt8 = afInet ∨ ctx.family.toUInt8 = afInet6 :=
    inet.imp (fun h => by rw [h]; rfl) fun h => by rw [h]; rfl
  have hreadable : Firing.readable ⟨task, now, .inetSockSetState ctx inet (some slot)⟩ =
      (decide (PrintableText task.comm.name) && true) := rfl
  -- of the three checks, the program's own values pass two
  have hvalid : ∀ ev : TcpEvent, ev.comm = task.comm.padded → ev.family = ctx.family.toUInt8 →
      ev.eventType = kind.type → Events.validTcp ev = decide (PrintableText task.comm.name) := by
    intro ev hcomm hf ht
    rw [Bool.eq_iff_iff]
    simp [Events.validTcp, hcomm, hf, ht, hfamily, htype, printable_padded_iff]
  rw [hvalid _ rfl rfl rfl] at hdecode
  refine ⟨{ ktimeNs := now, pid := task.tgid, comm := task.comm.padded, eventType := kind.type,
            family := ctx.family.toUInt8, sport := ctx.sport, dport := ctx.dport, saddr, daddr },
    ?_, rfl, rfl, rfl, ?_, ?_, ?_⟩
  · rw [hdecode, hreadable, Bool.and_true]
  · rw [TcpEvent.eventName]
    cases kind <;> rfl
  · exact addrOf_eq_endpoint _ inet rfl hsaddr
  · exact addrOf_eq_endpoint _ inet rfl hdaddr

theorem line_fillTcp {ctx : TcpCtx} {kind : EventKind} (hkind : ctx.kind = some kind)
    (inet : ctx.family = afInet.toUInt16 ∨ ctx.family = afInet6.toUInt16) (slot : Vector UInt8 80) :
    EventLoop.Command.tcp.line format off (fillTcp task now ctx kind.type slot.toList) =
      Firing.line format off ⟨task, now, .inetSockSetState ctx inet (some slot)⟩ := by
  obtain ⟨ev, hdecode, htime, hpid, hpadded, hevent, hsource, hdestination⟩ :=
    decodeTcp_fillTcp task now hkind inet slot
  rw [EventLoop.Command.line, hdecode, Firing.line]
  split_ifs with hr
  · have hcomm := strOf_eq_asText task.comm.cutNul_padded
      (of_decide_eq_true ((Bool.and_true _).symm.trans hr))
    cases format <;>
      simp only [Option.map_some, tcpLine, htime, hpid, hpadded, hcomm, hevent, hsource,
        hdestination, Firing.row, hkind, Option.elim_some]
  · rfl

end Rows

end Bpf

end Tracelet
