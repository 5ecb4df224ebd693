import Tracelet.RoundTrip

namespace Tracelet
open ByteMemory KernelMap

namespace Filter.EventKind

def type : EventKind → UInt8
  | connect => tcpEventConnect
  | accept => tcpEventAccept
  | close => tcpEventClose

def name : EventKind → String
  | connect => "CONNECT"
  | accept => "ACCEPT"
  | close => "CLOSE"

end Filter.EventKind

namespace Bpf
open Tracelet.Filter (EventKind)

def TcpCtx.Is (ctx : TcpCtx) : EventKind → Prop
  | .connect => ctx.oldstate = tcpSynSent ∧ ctx.newstate = tcpEstablished
  | .accept => ctx.oldstate = tcpSynRecv ∧ ctx.newstate = tcpEstablished
  | .close => ctx.newstate = tcpClose

theorem maskHas_eq_true_iff (m : Maps) (bit : UInt32) :
    maskHas m bit = true ↔ m.filterMap[0].eventMask &&& bit ≠ 0 := by
  have hf : getFilter m = some m.filterMap[0] := ArrayMap.lookup_of_lt m.filterMap (by decide)
  simp only [maskHas, hf, decide_eq_true_eq]

section Firing

variable {m : Maps} {task : Task} {ctx : TcpCtx} {kind : EventKind} (now : UInt64)
  (reserved : Reservation 80)

theorem traceTcp_eq_submitTcp (h : allowed m task = true) (hkind : ctx.Is kind)
    (hmask : maskHas m kind.mask = true) :
    traceTcp m task now ctx reserved = submitTcp m task now ctx reserved kind.type := by
  cases kind with
  | connect =>
    have hmask : maskHas m filterEventConnect = true := hmask
    simp [traceTcp, h, hkind.1, hkind.2, hmask, EventKind.type]
  | accept =>
    have hmask : maskHas m filterEventAccept = true := hmask
    have hne : tcpSynRecv ≠ tcpSynSent := by decide
    simp [traceTcp, h, hkind.1, hkind.2, hmask, hne, EventKind.type]
  | close =>
    have hmask : maskHas m filterEventClose = true := hmask
    have hclose : ctx.newstate = tcpClose := hkind
    have hne : tcpClose ≠ tcpEstablished := by decide
    simp [traceTcp, h, hclose, hmask, hne, EventKind.type]

theorem traceTcp_eq_self (h : ∀ kind, ctx.Is kind → maskHas m kind.mask = false) :
    traceTcp m task now ctx reserved = m := by
  have hconnect := h .connect
  have haccept := h .accept
  have hclose := h .close
  simp only [TcpCtx.Is, EventKind.mask] at hconnect haccept hclose
  unfold traceTcp
  split_ifs <;> simp_all

end Firing

def TcpCtx.addrBytes (ctx : TcpCtx) (v4 : Vector UInt8 4) (v6 : Vector UInt8 16) : List UInt8 :=
  if ctx.family = afInet.toUInt16 then v4.toList else v6.toList

def tcpFields (task : Task) (now : UInt64) (ctx : TcpCtx) (type : UInt8) : List (ℕ × List UInt8) :=
  recordFields 0
    [(8 + 0, leBytes 8 now.toNat), (8 + 8, leBytes 4 (task.pidTgid >>> 32).toUInt32.toNat),
      (8 + 12, task.comm.padded.toList), (8 + 28, [type]), (8 + 29, [ctx.family.toUInt8]),
      (8 + 30, leBytes 2 ctx.sport.toNat), (8 + 32, leBytes 2 ctx.dport.toNat),
      (8 + 34, ctx.addrBytes ctx.saddr ctx.saddrV6), (8 + 50, ctx.addrBytes ctx.daddr ctx.daddrV6)]

theorem fillTcp_eq (task : Task) (now : UInt64) (ctx : TcpCtx) (type : UInt8) (buf : List UInt8) :
    fillTcp task now ctx type buf = storeAll buf (tcpFields task now ctx type) := by
  by_cases h : ctx.family = afInet.toUInt16
  · simp only [fillTcp, tcpFields, TcpCtx.addrBytes, if_pos h]
    rfl
  · simp only [fillTcp, tcpFields, TcpCtx.addrBytes, if_neg h]
    rfl

theorem TcpCtx.length_addrBytes_le (ctx : TcpCtx) (v4 : Vector UInt8 4) (v6 : Vector UInt8 16) :
    (ctx.addrBytes v4 v6).length ≤ 16 := by
  unfold addrBytes
  split_ifs <;> simp

theorem laidOut_tcpFields (task : Task) (now : UInt64) (ctx : TcpCtx) (type : UInt8)
    (slot : Vector UInt8 80) : LaidOut 0 slot.toList.length (tcpFields task now ctx type) := by
  have hs := ctx.length_addrBytes_le ctx.saddr ctx.saddrV6
  have hd := ctx.length_addrBytes_le ctx.daddr ctx.daddrV6
  simp only [tcpFields, recordFields, LaidOut, length_leBytes, Vector.length_toList,
    List.length_singleton]
  omega

/-- The payload of a TCP record. Of the addresses only the front is known. -/
theorem fields_fillTcp (task : Task) (now : UInt64) (ctx : TcpCtx) (type : UInt8)
    (slot : Vector UInt8 80) :
    ∃ saddr daddr : Vector UInt8 16,
      ctx.addrBytes ctx.saddr ctx.saddrV6 <+: saddr.toList ∧
      ctx.addrBytes ctx.daddr ctx.daddrV6 <+: daddr.toList ∧
      ReprC.fields ((fillTcp task now ctx type slot.toList).drop 8) =
        ({ ktimeNs := now, pid := task.tgid, comm := task.comm.padded, eventType := type,
           family := ctx.family.toUInt8, sport := ctx.sport, dport := ctx.dport, saddr,
           daddr } : TcpEvent) := by
  have h := laidOut_tcpFields task now ctx type slot
  have hsrc : (42, ctx.addrBytes ctx.saddr ctx.saddrV6) ∈ tcpFields task now ctx type := by
    simp [tcpFields, recordFields]
  have hdst : (58, ctx.addrBytes ctx.daddr ctx.daddrV6) ∈ tcpFields task now ctx type := by
    simp [tcpFields, recordFields]
  have hs := ctx.length_addrBytes_le ctx.saddr ctx.saddrV6
  have hd := ctx.length_addrBytes_le ctx.daddr ctx.daddrV6
  rw [fillTcp_eq]
  refine ⟨arrayAt (storeAll slot.toList (tcpFields task now ctx type)) 42 16,
    arrayAt (storeAll slot.toList (tcpFields task now ctx type)) 58 16, ?_, ?_, ?_⟩
  · rw [toList_arrayAt_storeAll h hsrc hs]
    · exact List.prefix_append _ _
    · simp [tcpFields, recordFields]
      omega
  · rw [toList_arrayAt_storeAll h hdst hd]
    · exact List.prefix_append _ _
    · simp [tcpFields, recordFields]
      omega
  · rw [← task.tgid_eq]
    simp only [ReprC.fields, u64At_drop, u32At_drop, u16At_drop, byteAt_drop, arrayAt_drop,
      TcpEvent.mk.injEq, and_true]
    refine ⟨u64At_storeAll h ?_, u32At_storeAll h ?_, arrayAt_storeAll h ?_, byteAt_storeAll h ?_,
      byteAt_storeAll h ?_, u16At_storeAll h ?_, u16At_storeAll h ?_⟩ <;>
      simp [tcpFields, recordFields]

def TcpCtx.endpoint (ctx : TcpCtx) (v4 : Vector UInt8 4) (v6 : Vector UInt8 16) (port : UInt16) :
    String :=
  (if ctx.family = afInet.toUInt16 then RustText.displayIpv4 v4[0] v4[1] v4[2] v4[3]
    else "[" ++ RustText.displayIpv6 v6 ++ "]") ++ ":" ++ toString port.toNat

/-- `addr_of` never reads past the bytes that were written. -/
theorem addrOf_eq_endpoint {ctx : TcpCtx} {ev : TcpEvent} {v4 : Vector UInt8 4}
    {v6 bytes : Vector UInt8 16} (port : UInt16)
    (hfamily : ctx.family = afInet.toUInt16 ∨ ctx.family = afInet6.toUInt16)
    (hev : ev.family = ctx.family.toUInt8) (h : ctx.addrBytes v4 v6 <+: bytes.toList) :
    ev.addrOf bytes ++ ":" ++ toString port.toNat = ctx.endpoint v4 v6 port := by
  rw [TcpCtx.addrBytes] at h
  unfold TcpEvent.addrOf TcpCtx.endpoint
  rcases hfamily with hf | hf
  · have h4 : ev.family = afInet := by
      rw [hev, hf]
      rfl
    -- the four bytes that are shown are the four that were written
    have hget : ∀ i (hi : i < 4), bytes[i] = v4[i] := by
      intro i hi
      rw [if_pos hf] at h
      have hat := h.getElem (i := i) (by simpa using hi)
      simpa using hat.symm
    rw [if_pos h4, if_pos hf, hget 0 (by decide), hget 1 (by decide), hget 2 (by decide),
      hget 3 (by decide)]
  · have hne : ¬ ctx.family = afInet.toUInt16 := by
      rw [hf]
      decide
    have h6 : ¬ ev.family = afInet := by
      rw [hev, hf]
      decide
    -- sixteen bytes were written, which leaves nothing stale
    have hbytes : bytes = v6 := by
      rw [if_neg hne] at h
      exact (Vector.toList_inj.mp (h.eq_of_length (by simp))).symm
    rw [if_neg h6, if_neg hne, hbytes]

def TcpArrives (task : Task) (ctx : TcpCtx) (kind : EventKind) (record : List UInt8) : Prop :=
  ∃ ev shown, Events.decodeTcp record = some ev ∧ Stream.decodeStream record = some shown ∧
    ev.eventName = kind.name ∧ shown.eventName = kind.name ∧
    ev.pid = task.tgid ∧ shown.pid = task.tgid ∧
    cutNul ev.comm.toList = task.comm.name ∧ cutNul shown.comm.toList = task.comm.name ∧
    ev.source = ctx.endpoint ctx.saddr ctx.saddrV6 ctx.sport ∧
    ev.destination = ctx.endpoint ctx.daddr ctx.daddrV6 ctx.dport ∧
    shown.details = ctx.endpoint ctx.daddr ctx.daddrV6 ctx.dport

theorem tcpArrives_fillTcp {task : Task} {ctx : TcpCtx} (kind : EventKind)
    (hcomm : PrintableText task.comm.name)
    (hfamily : ctx.family = afInet.toUInt16 ∨ ctx.family = afInet6.toUInt16) (now : UInt64)
    (slot : Vector UInt8 80) : TcpArrives task ctx kind
    (fillTcp task now ctx kind.type slot.toList) := by
  obtain ⟨saddr, daddr, hsaddr, hdaddr, hfields⟩ := fields_fillTcp task now ctx kind.type slot
  obtain ⟨hlen, hkind, hversion⟩ :=
    recordFields_header (laidOut_tcpFields task now ctx kind.type slot)
  have hvalid : Events.validTcp
      (ReprC.fields ((fillTcp task now ctx kind.type slot.toList).drop 8)) = true := by
    have htype : tcpEventConnect ≤ kind.type ∧ kind.type ≤ tcpEventClose := by
      cases kind <;> decide
    have hf : ctx.family.toUInt8 = afInet ∨ ctx.family.toUInt8 = afInet6 := by
      rcases hfamily with hf | hf
      · exact .inl (by rw [hf]; rfl)
      · exact .inr (by rw [hf]; rfl)
    simpa [hfields, Events.validTcp, printable_padded hcomm, htype] using hf
  have hev : Events.decodeTcp (fillTcp task now ctx kind.type slot.toList) =
      some (ReprC.fields ((fillTcp task now ctx kind.type slot.toList).drop 8)) :=
    Events.decodeRecord_eq_some_iff.mpr
      ⟨by rw [fillTcp_eq]; exact hlen, by rw [fillTcp_eq]; exact hversion, rfl, hvalid⟩
  -- a zero kind goes to the tcp decoder
  have hshown : Stream.decodeStream (fillTcp task now ctx kind.type slot.toList) =
      (Events.decodeTcp (fillTcp task now ctx kind.type slot.toList)).map .ofTcp := by
    have hk : u32At (fillTcp task now ctx kind.type slot.toList) 0 = 0 := by
      rw [fillTcp_eq]
      exact hkind
    rw [Stream.decodeStream_eq, hk, if_neg (by decide), if_neg (by decide)]
  rw [hfields] at hev
  rw [hev] at hshown
  refine ⟨_, _, hev, hshown, ?_, ?_, rfl, rfl, task.comm.cutNul_padded, task.comm.cutNul_padded,
    addrOf_eq_endpoint _ hfamily rfl hsaddr, addrOf_eq_endpoint _ hfamily rfl hdaddr,
    addrOf_eq_endpoint _ hfamily rfl hdaddr⟩
  · cases kind <;> rfl
  · cases kind <;> rfl

/-- `trace_tcp` submits exactly the asked-for transitions, and both decoders show
each of them as it happened, whatever the slot held before. -/
theorem tcp_event_end_to_end (m : Maps) (task : Task) (now : UInt64) (ctx : TcpCtx)
    (reserved : Reservation 80) (hcomm : PrintableText task.comm.name)
    (hfamily : ctx.family = afInet.toUInt16 ∨ ctx.family = afInet6.toUInt16) :
    ((∃ record, (traceTcp m task now ctx reserved).events = m.events ++ [record]) ↔
      allowed m task = true ∧ reserved.isSome ∧
        ∃ kind, ctx.Is kind ∧ m.filterMap[0].eventMask &&& kind.mask ≠ 0) ∧
    ∀ record, (traceTcp m task now ctx reserved).events = m.events ++ [record] →
      ∃ kind, ctx.Is kind ∧ TcpArrives task ctx kind record := by
  by_cases hadmitted : allowed m task = true
  · by_cases hkind : ∃ kind, ctx.Is kind ∧ maskHas m kind.mask = true
    · obtain ⟨kind, hkind, hmask⟩ := hkind
      rw [traceTcp_eq_submitTcp now reserved hadmitted hkind hmask]
      rw [maskHas_eq_true_iff] at hmask
      cases reserved with
      | none => simp [submitTcp, submit, countDrop]
      | some slot =>
        have hev : (submitTcp m task now ctx (some slot) kind.type).events =
            m.events ++ [fillTcp task now ctx kind.type slot.toList] := rfl
        refine ⟨iff_of_true ⟨_, hev⟩ ⟨hadmitted, rfl, kind, hkind, hmask⟩, ?_⟩
        intro record hrecord
        rw [hev, List.append_cancel_left_eq, List.singleton_inj] at hrecord
        exact ⟨kind, hkind, hrecord ▸ tcpArrives_fillTcp kind hcomm hfamily now slot⟩
    · -- no kind that is asked for: the program changes nothing
      have hself : traceTcp m task now ctx reserved = m :=
        traceTcp_eq_self now reserved fun kind hk =>
          Bool.eq_false_iff.mpr fun hmask => hkind ⟨kind, hk, hmask⟩
      simp only [maskHas_eq_true_iff] at hkind
      simp [hself, hkind]
  · have hself : traceTcp m task now ctx reserved = m := by simp [traceTcp, hadmitted]
    simp [hself, hadmitted]

def connectLocal : TcpCtx where
  oldstate := tcpSynSent
  newstate := tcpEstablished
  sport := 5000
  dport := 80
  family := 2
  saddr := #v[127, 0, 0, 1]
  daddr := #v[127, 0, 0, 1]
  saddrV6 := Vector.replicate 16 0
  daddrV6 := Vector.replicate 16 0

theorem tcp_event_end_to_end_local :
    ∃ record kind, (traceTcp (Filter.configure Maps.fresh { eventMask := 7 }) shell 0 connectLocal
        (some (Vector.replicate 80 255))).events = [record] ∧
      connectLocal.Is kind ∧ TcpArrives shell connectLocal kind record := by
  have hconfig : Filter.config ⟨none, none, none⟩ 7 = .ok { eventMask := 7 } := rfl
  have hadmitted :=
    (Filter.allowed_configure_iff (by decide) (by simp) hconfig Maps.fresh shell).mpr
    ⟨by simp, by simp, by simp⟩
  obtain ⟨hsubmit, harrives⟩ :=
    tcp_event_end_to_end (Filter.configure Maps.fresh { eventMask := 7 })
    shell 0 connectLocal (some (Vector.replicate 80 255)) printable_shell.1 (.inl rfl)
  obtain ⟨record, hrecord⟩ := hsubmit.mpr ⟨hadmitted, rfl, .connect, ⟨rfl, rfl⟩, by decide⟩
  obtain ⟨kind, hkind, hshown⟩ := harrives record hrecord
  exact ⟨record, kind, hrecord, hkind, hshown⟩

end Bpf
end Tracelet
