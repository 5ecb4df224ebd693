import Tracelet.Frames
import Tracelet.Session

namespace Tracelet
open ByteMemory KernelMap

namespace Bpf
open Collector
open Tracelet.Stream (DashboardEvent streamMax)
open Tracelet.Filter (EventKind)

def Firing.isTcp (f : Firing) : Bool :=
  match f.tracepoint with
  | .schedProcessExec .. | .sysEnter .. => false
  | .inetSockSetState .. => true

/-- The row of a firing in the stream pane, from what happened. -/
def Firing.streamRow (off : UInt64) (f : Firing) : StreamRow :=
  let wall := Events.wallTime f.now off
  let process := asText f.task.comm.name
  match f.tracepoint with
  | .schedProcessExec ctx _ =>
    ⟨wall, ctx.pid.toUInt32, process, "EXEC", asText (ctx.filename.bytes.take 127)⟩
  | .sysEnter call ctx _ =>
    ⟨wall, f.task.tgid, process, "OPEN", asText ((call.fname ctx).bytes.take 127)⟩
  | .inetSockSetState ctx _ _ =>
    ⟨wall, f.task.tgid, process, ctx.kind.elim "" EventKind.name,
      ctx.endpoint ctx.daddr ctx.daddrV6 ctx.dport⟩

def pushed (off : UInt64) (data : List UInt8) : Option (StreamRow × Bool) :=
  (Stream.decodeStream data).map fun ev =>
    (row ev (Collector.wallTime data off), Collector.isTcp ev)

/-- A record that the command's decoder accepts is pushed as what the command prints of it. -/
theorem pushed_of_agrees {off : UInt64} {data : List UInt8} {p : Printed} {shown : DashboardEvent}
    (hshown : Stream.decodeStream data = some shown) (h : Agrees data p shown) :
    pushed off data =
      some (⟨Events.wallTime p.ktimeNs off, p.pid, Events.strOf p.comm.toList, p.event,
      p.details⟩, Collector.isTcp shown) := by
  have hrow := h.row {} off
  rw [Shared.receive, hshown, getLast_recent_push] at hrow
  rw [pushed, hshown, Option.map_some, Option.some.inj hrow]

theorem pushed_fillExec (off : UInt64) (task : Task) (now : UInt64) (ctx : ExecCtx)
    (slot : Vector UInt8 176) :
    let f : Firing := ⟨task, now, .schedProcessExec ctx (some slot)⟩
    pushed off (fillExec task now ctx slot.toList) =
      if f.readable then some (f.streamRow off, f.isTcp) else none := by
  intro f
  obtain ⟨hlen, hkind, hversion⟩ := recordFields_header (laidOut_execFields task now ctx slot)
  rw [← execFields, ← fillExec_eq] at hlen hkind hversion
  obtain ⟨filename, hname, hfields⟩ := fields_fillExec task now ctx slot
  obtain ⟨hvalid, htext⟩ := readable_file hname task.comm
  have hdecode : Events.decodeExec (fillExec task now ctx slot.toList) = _ :=
    decodeRecord_eq_ite hlen hversion hfields
  have hreadable : f.readable =
      (decide (PrintableText task.comm.name) && decide (ReadablePath slot 44 ctx.filename)) := rfl
  rw [hvalid, ← hreadable] at hdecode
  have hstream := Stream.decodeStream_eq (fillExec task now ctx slot.toList)
  rw [if_pos hkind, hdecode] at hstream
  split_ifs at hdecode hstream ⊢ with hr
  · rw [pushed_of_agrees hstream (exec_agrees hkind hdecode hstream)]
    rw [hreadable, Bool.and_eq_true, decide_eq_true_eq, decide_eq_true_eq] at hr
    obtain ⟨hcomm, hpath⟩ := htext hr
    simp only [Printed.ofExec, hcomm, hpath]
    rfl
  · rw [pushed, hstream]
    rfl

theorem pushed_fillOpen (off : UInt64) (task : Task) (now : UInt64) (call : OpenCall)
    (ctx : SysEnterCtx) (slot : Vector UInt8 168) :
    let f : Firing := ⟨task, now, .sysEnter call ctx (some slot)⟩
    pushed off (fillOpen task now (call.fname ctx) slot.toList) =
      if f.readable then some (f.streamRow off, f.isTcp) else none := by
  intro f
  obtain ⟨hlen, hkind, hversion⟩ :=
    recordFields_header (laidOut_openFields task now (call.fname ctx) slot)
  rw [← openFields, ← fillOpen_eq] at hlen hkind hversion
  obtain ⟨filename, hname, hfields⟩ := fields_fillOpen task now (call.fname ctx) slot
  obtain ⟨hvalid, htext⟩ := readable_file hname task.comm
  have hdecode : Events.decodeOpen (fillOpen task now (call.fname ctx) slot.toList) = _ :=
    decodeRecord_eq_ite hlen hversion hfields
  have hreadable : f.readable =
      (decide (PrintableText task.comm.name) && decide (ReadablePath slot 40 (call.fname ctx))) :=
        rfl
  rw [hvalid, ← hreadable] at hdecode
  have hstream := Stream.decodeStream_eq (fillOpen task now (call.fname ctx) slot.toList)
  rw [hkind, if_neg (by decide), if_pos rfl, hdecode] at hstream
  split_ifs at hdecode hstream ⊢ with hr
  · rw [pushed_of_agrees hstream (open_agrees hkind hdecode hstream)]
    rw [hreadable, Bool.and_eq_true, decide_eq_true_eq, decide_eq_true_eq] at hr
    obtain ⟨hcomm, hpath⟩ := htext hr
    simp only [Printed.ofOpen, hcomm, hpath]
    rfl
  · rw [pushed, hstream]
    rfl

theorem pushed_fillTcp (off : UInt64) (task : Task) (now : UInt64) {ctx : TcpCtx} {kind : EventKind}
    (hkind : ctx.kind = some kind)
    (inet : ctx.family = afInet.toUInt16 ∨ ctx.family = afInet6.toUInt16) (slot : Vector UInt8 80) :
    let f : Firing := ⟨task, now, .inetSockSetState ctx inet (some slot)⟩
    pushed off (fillTcp task now ctx kind.type slot.toList) =
      if f.readable then some (f.streamRow off, f.isTcp) else none := by
  intro f
  obtain ⟨-, hheader, -⟩ := recordFields_header (laidOut_tcpFields task now ctx kind.type slot)
  rw [← tcpFields, ← fillTcp_eq] at hheader
  obtain ⟨ev, hdecode, htime, hpid, hpadded, hevent, -, hdestination⟩ :=
    decodeTcp_fillTcp task now hkind inet slot
  have hstream := Stream.decodeStream_eq (fillTcp task now ctx kind.type slot.toList)
  rw [hheader, if_neg (by decide), if_neg (by decide), hdecode] at hstream
  split_ifs at hdecode hstream ⊢ with hr
  · rw [pushed_of_agrees hstream (tcp_agrees hheader hdecode hstream)]
    have hcomm := strOf_eq_asText task.comm.cutNul_padded
      (of_decide_eq_true ((Bool.and_true _).symm.trans hr))
    have hrow : f.streamRow off =
      ⟨Events.wallTime now off, task.tgid, asText task.comm.name, kind.name,
        ctx.endpoint ctx.daddr ctx.daddrV6 ctx.dport⟩ := by
      have hname : ctx.kind.elim "" EventKind.name = kind.name := by
        rw [hkind, Option.elim_some]
      rw [← hname]
      rfl
    simp only [Printed.ofTcp, htime, hpid, hpadded, hcomm, hevent, hdestination, hrow]
    rfl
  · rw [pushed, hstream]
    rfl

/-- The callback pushes the row of each readable firing. -/
theorem pushed_bytes {f : Firing} (hkept : f.record.isSome = true) (off : UInt64) :
    pushed off f.bytes = if f.readable then some (f.streamRow off, f.isTcp) else none := by
  obtain ⟨task, now, tracepoint⟩ := f
  cases tracepoint with
  | schedProcessExec ctx reserved =>
    cases reserved with
    | none => cases hkept
    | some slot => exact pushed_fillExec off task now ctx slot
  | sysEnter call ctx reserved =>
    cases reserved with
    | none => cases hkept
    | some slot => exact pushed_fillOpen off task now call ctx slot
  | inetSockSetState ctx inet reserved =>
    cases hkind : ctx.kind with
    | none => simp [Firing.record, hkind] at hkept
    | some kind =>
      cases reserved with
      | none => simp [Firing.record, hkind] at hkept
      | some slot =>
        have hrow := pushed_fillTcp off task now hkind inet slot
        simpa [Firing.bytes, Firing.record, hkind] using hrow

theorem rows_history {fs : List Firing} (hkept : ∀ f ∈ fs, f.record.isSome = true) (off : UInt64) :
    (history off (fs.map Firing.bytes)).map (fun e => (row e.1 e.2, Collector.isTcp e.1)) =
      (fs.filter Firing.readable).map fun f => (f.streamRow off, f.isTcp) := by
  -- a record that does not decode leaves no row, as a firing that is not readable
  induction fs with
  | nil => rfl
  | cons f fs ih =>
    have hpushed := pushed_bytes (hkept f List.mem_cons_self) off
    have hrest := ih fun g hg => hkept g (List.mem_cons_of_mem f hg)
    have hcons : history off ((f :: fs).map Firing.bytes) =
        ((Stream.decodeStream f.bytes).map fun ev => (ev, Collector.wallTime f.bytes off)).toList ++
          history off (fs.map Firing.bytes) := by
      rw [history, List.map_cons, List.filterMap_cons]
      cases Stream.decodeStream f.bytes <;> rfl
    rw [hcons, List.map_append, hrest, List.filter_cons]
    unfold pushed at hpushed
    cases hev : Stream.decodeStream f.bytes with
    | none =>
      rw [hev] at hpushed
      split_ifs at hpushed ⊢ with hr
      · cases hpushed
      · rfl
    | some ev =>
      rw [hev] at hpushed
      split_ifs at hpushed ⊢ with hr
      · simpa using hpushed
      · cases hpushed

/-- What a snapshot says about the firings, `age` nanoseconds after the start. -/
structure PicturesFirings (off : UInt64) (fs : List Firing) (age : ℕ) (snap : Snapshot) : Prop where
  rate : snap.overview.rate = UInt64.ofNat fs.length / UInt64.ofNat (max (age / 1000000000) 1)
  processes : snap.overview.processes = (fs.map fun f => (f.streamRow off).pid).dedup.length
  tcpTotal : snap.overview.tcpTotal.toNat = fs.countP Firing.isTcp
  fileTotal : snap.overview.fileTotal.toNat = fs.countP fun f => !f.isTcp
  stream : snap.stream = (fs.map (Firing.streamRow off)).reverse.take streamMax
  topLength : snap.top.length = min 10 (fs.map fun f => (f.streamRow off).pid).dedup.length
  topSorted : snap.top.Pairwise fun a b => b.count < a.count ∨ a.count = b.count ∧ b.pid < a.pid
  top : ∀ r ∈ snap.top, r.count.toNat = (fs.map fun f => (f.streamRow off).pid).count r.pid ∧
    ((fs.filter fun f => (f.streamRow off).pid = r.pid).getLast?.map fun f =>
      asText f.task.comm.name) =
      some r.process
  leftOut : ∀ f ∈ fs, (∀ r ∈ snap.top, r.pid ≠ (f.streamRow off).pid) → ∀ r ∈ snap.top,
    (fs.map fun f => (f.streamRow off).pid).count (f.streamRow off).pid ≤ r.count.toNat
  distributionNodup : (snap.distribution.map Prod.fst).Nodup
  distribution : ∀ name count, (name, count) ∈ snap.distribution ↔
    0 < (fs.map fun f => (f.streamRow off).event).count name ∧
      count.toNat = (fs.map fun f => (f.streamRow off).event).count name

theorem process_streamRow (off : UInt64) (f : Firing) :
    (f.streamRow off).process = asText f.task.comm.name := by
  unfold Firing.streamRow
  split <;> rfl

theorem picturesFirings_of_rows {off : UInt64} {evs : List (DashboardEvent × String)}
    {fs : List Firing} {age : ℕ} {snap : Snapshot} (h : Pictures evs age snap)
    (hrows : evs.map (fun e => (row e.1 e.2, Collector.isTcp e.1)) =
      fs.map fun f => (f.streamRow off, f.isTcp)) : PicturesFirings off fs age snap := by
  -- whatever is read off a row is the same on both sides
  have hmap : ∀ {β : Type} (g : StreamRow × Bool → β),
      evs.map (fun e => g (row e.1 e.2, Collector.isTcp e.1)) =
        fs.map fun f => g (f.streamRow off, f.isTcp) := by
    intro β g
    have hg := congrArg (List.map g) hrows
    rwa [List.map_map, List.map_map] at hg
  have hpids : evs.map (fun e => e.1.pid) = fs.map fun f => (f.streamRow off).pid :=
    hmap fun r => r.1.pid
  have hnames : evs.map (fun e => e.1.eventName) = fs.map fun f => (f.streamRow off).event :=
    hmap fun r => r.1.event
  -- the last event of a process names it
  have hlast : ∀ pid, (lastOf pid evs).map processName =
      (fs.filter fun f => (f.streamRow off).pid = pid).getLast?.map fun f =>
        asText f.task.comm.name := by
    intro pid
    have hfilter := congrArg (fun l => ((l.filter fun r : StreamRow => r.pid = pid).getLast?).map
      StreamRow.process) (hmap Prod.fst)
    simp only [List.filter_map, List.getLast?_map, Option.map_map, Function.comp_def,
      process_streamRow] at hfilter
    simp only [lastOf, List.filter_map, List.getLast?_map, Option.map_map, Function.comp_def]
    exact hfilter
  have hcountPid : ∀ pid, countPid pid evs = (fs.map fun f => (f.streamRow off).pid).count pid :=
    fun pid => by rw [countPid, hpids]
  have hcountName : ∀ name,
      countName name evs = (fs.map fun f => (f.streamRow off).event).count name :=
    fun name => by rw [countName, hnames]
  refine ⟨?_, ?_, ?_, ?_, ?_, ?_, h.topSorted, ?_, ?_, h.distributionNodup, ?_⟩
  · have hlen := congrArg List.length hpids
    rw [List.length_map, List.length_map] at hlen
    rw [h.rate, hlen]
  · rw [h.processes, hpids]
  · rw [h.tcpTotal]
    have htcp := congrArg (List.countP id) (hmap Prod.snd)
    rwa [List.countP_map, List.countP_map] at htcp
  · rw [h.fileTotal]
    have htcp := congrArg (List.countP not) (hmap Prod.snd)
    rwa [List.countP_map, List.countP_map] at htcp
  · rw [h.stream]
    exact congrArg (fun l => l.reverse.take streamMax) (hmap Prod.fst)
  · rw [h.topLength, hpids]
  · intro r hr
    obtain ⟨hcount, ev, hev, hprocess⟩ := h.top r hr
    rw [← hcountPid, ← hlast, hev, hprocess]
    exact ⟨hcount, rfl⟩
  · intro f hf hout r hr
    have hmem : (f.streamRow off).pid ∈ evs.map fun e => e.1.pid := by
      rw [hpids]
      exact List.mem_map_of_mem hf
    obtain ⟨e, he, hpid⟩ := List.mem_map.mp hmem
    rw [← hcountPid, ← hpid]
    exact h.leftOut e he (by rwa [hpid]) r hr
  · intro name count
    rw [h.distribution, hcountName]

end Bpf

end Tracelet
