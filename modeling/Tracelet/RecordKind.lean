import Tracelet.Decode

namespace Tracelet
open ByteMemory

def headerKind (data : List UInt8) : UInt32 := u32At data 0

def payload (E : Type) [ReprC E] (data : List UInt8) : E := ReprC.fields (data.drop 8)

/-- A record of the right size and version whose payload passes the field checks. -/
def WellFormed (E : Type) [ReprC E] (valid : E → Bool) (data : List UInt8) : Prop :=
  data.length = 8 + ReprC.size E ∧ u32At data 4 = recordVersion ∧
    valid (payload E data) = true

def WellFormedExec : List UInt8 → Prop :=
  WellFormed ExecEvent fun ev =>
    Events.printable ev.comm.toList && Events.printable ev.filename.toList

def WellFormedOpen : List UInt8 → Prop :=
  WellFormed OpenEvent fun ev =>
    Events.printable ev.comm.toList && Events.printable ev.filename.toList

def WellFormedTcp : List UInt8 → Prop := WellFormed TcpEvent Events.validTcp

def StreamsExec (data : List UInt8) : Prop :=
  ∃ pid ppid comm path,
    Stream.decodeStream data = some (.file pid ppid Stream.fileEventExec comm path)

def StreamsOpen (data : List UInt8) : Prop :=
  ∃ pid ppid comm path,
    Stream.decodeStream data = some (.file pid ppid Stream.fileEventOpen comm path)

def StreamsTcp (data : List UInt8) : Prop :=
  ∃ pid eventType family comm dest,
    Stream.decodeStream data = some (.tcp pid eventType family comm dest)

/-- No decoder yields an event whose record is of another kind. -/
structure KindChecked (data : List UInt8) : Prop where
  exec : (Events.decodeExec data).isSome = true ∨ StreamsExec data →
    headerKind data = eventKindExec ∧ (payload ExecEvent data).kind = eventKindExec
  fileOpen : (Events.decodeOpen data).isSome = true ∨ StreamsOpen data →
    headerKind data = eventKindOpen ∧ (payload OpenEvent data).kind = eventKindOpen
  tcp : (Events.decodeTcp data).isSome = true ∨ StreamsTcp data → headerKind data = 0
  other : headerKind data ≠ eventKindExec → headerKind data ≠ eventKindOpen → headerKind data ≠ 0 →
    Events.decodeExec data = none ∧ Events.decodeOpen data = none ∧ Events.decodeTcp data = none ∧
      Stream.decodeStream data = none

theorem isSome_decodeRecord_iff {E : Type} [ReprC E] {valid : E → Bool} {data : List UInt8} :
    (Events.decodeRecord E valid data).isSome = true ↔ WellFormed E valid data := by
  rw [Option.isSome_iff_exists]
  constructor
  · rintro ⟨ev, hev⟩
    obtain ⟨hlen, hversion, rfl, hvalid⟩ := Events.decodeRecord_eq_some_iff.mp hev
    exact ⟨hlen, hversion, hvalid⟩
  · rintro ⟨hlen, hversion, hvalid⟩
    exact ⟨_, Events.decodeRecord_eq_some_iff.mpr ⟨hlen, hversion, rfl, hvalid⟩⟩

theorem streamsExec_iff (data : List UInt8) :
    StreamsExec data ↔ headerKind data = eventKindExec ∧
      (Events.decodeExec data).isSome = true := by
  unfold StreamsExec headerKind
  rw [Stream.decodeStream_eq]
  by_cases hexec : u32At data 0 = eventKindExec
  · rw [if_pos hexec]
    cases hev : Events.decodeExec data with
    | none => simp
    | some ev => simp [hexec, Stream.DashboardEvent.ofExec]
  · rw [if_neg hexec]
    split_ifs
    · simp [hexec, Stream.DashboardEvent.ofOpen, Stream.fileEventExec, Stream.fileEventOpen]
    · simp [hexec, Stream.DashboardEvent.ofTcp]

theorem streamsOpen_iff (data : List UInt8) :
    StreamsOpen data ↔ headerKind data = eventKindOpen ∧
      (Events.decodeOpen data).isSome = true := by
  have hne : ¬ eventKindOpen = eventKindExec := by decide
  unfold StreamsOpen headerKind
  rw [Stream.decodeStream_eq]
  by_cases hopen : u32At data 0 = eventKindOpen
  · rw [if_neg (hopen ▸ hne), if_pos hopen]
    cases hev : Events.decodeOpen data with
    | none => simp
    | some ev => simp [hopen, Stream.DashboardEvent.ofOpen]
  · rw [if_neg hopen]
    split_ifs
    · simp [hopen, Stream.DashboardEvent.ofExec, Stream.fileEventExec, Stream.fileEventOpen]
    · simp [hopen, Stream.DashboardEvent.ofTcp]

/-- The catch-all branch: every other kind is read as TCP. -/
theorem streamsTcp_iff (data : List UInt8) :
    StreamsTcp data ↔ headerKind data ≠ eventKindExec ∧ headerKind data ≠ eventKindOpen ∧
      (Events.decodeTcp data).isSome = true := by
  unfold StreamsTcp headerKind
  rw [Stream.decodeStream_eq]
  split_ifs with hexec hopen
  · simp [hexec, Stream.DashboardEvent.ofExec]
  · simp [hopen, Stream.DashboardEvent.ofOpen]
  · cases hev : Events.decodeTcp data with
    | none => simp
    | some ev => simp [hexec, hopen, Stream.DashboardEvent.ofTcp]

/-- The kinds are right exactly if every well-formed record that some decoder
takes for its own says so itself. -/
theorem kindChecked_iff (data : List UInt8) :
    KindChecked data ↔
      (WellFormedExec data →
        headerKind data = eventKindExec ∧ (payload ExecEvent data).kind = eventKindExec) ∧
      (WellFormedOpen data →
        headerKind data = eventKindOpen ∧ (payload OpenEvent data).kind = eventKindOpen) ∧
      (WellFormedTcp data → headerKind data = 0) := by
  have hexec : (Events.decodeExec data).isSome = true ↔ WellFormedExec data :=
    isSome_decodeRecord_iff
  have hopen : (Events.decodeOpen data).isSome = true ↔ WellFormedOpen data :=
    isSome_decodeRecord_iff
  have htcp : (Events.decodeTcp data).isSome = true ↔ WellFormedTcp data := isSome_decodeRecord_iff
  constructor
  · intro h
    exact ⟨fun hw => h.exec (.inl (hexec.mpr hw)), fun hw => h.fileOpen (.inl (hopen.mpr hw)),
      fun hw => h.tcp (.inl (htcp.mpr hw))⟩
  · rintro ⟨h1, h2, h3⟩
    refine ⟨?_, ?_, ?_, ?_⟩
    · rintro (hs | hs)
      · exact h1 (hexec.mp hs)
      · exact h1 (hexec.mp ((streamsExec_iff data).mp hs).2)
    · rintro (hs | hs)
      · exact h2 (hopen.mp hs)
      · exact h2 (hopen.mp ((streamsOpen_iff data).mp hs).2)
    · rintro (hs | hs)
      · exact h3 (htcp.mp hs)
      · exact h3 (htcp.mp ((streamsTcp_iff data).mp hs).2.2)
    · -- with a kind that is none of the three no decoder accepts the record
      intro hne1 hne2 hne0
      have hdecodeExec : Events.decodeExec data = none := Option.not_isSome_iff_eq_none.mp fun hs =>
        hne1 (h1 (hexec.mp hs)).1
      have hdecodeOpen : Events.decodeOpen data = none := Option.not_isSome_iff_eq_none.mp fun hs =>
        hne2 (h2 (hopen.mp hs)).1
      have hdecodeTcp : Events.decodeTcp data = none := Option.not_isSome_iff_eq_none.mp fun hs =>
        hne0 (h3 (htcp.mp hs))
      refine ⟨hdecodeExec, hdecodeOpen, hdecodeTcp, ?_⟩
      rw [headerKind] at hne1 hne2
      rw [Stream.decodeStream_eq, if_neg hne1, if_neg hne2, hdecodeTcp, Option.map_none]

set_option maxRecDepth 4000 in
/-- An exec record whose payload kind is `0` is accepted by both decoders. -/
theorem kind_unchecked_zeroExec :
    (Events.decodeExec Events.zeroExec).isSome = true ∧ StreamsExec Events.zeroExec ∧
      (payload ExecEvent Events.zeroExec).kind = 0 ∧ ¬ ∀ data, KindChecked data := by
  have hdecodes : (Events.decodeExec Events.zeroExec).isSome = true := by decide
  have hheader : headerKind Events.zeroExec = eventKindExec := by decide
  have hpayload : (payload ExecEvent Events.zeroExec).kind = 0 := by decide
  refine ⟨hdecodes, (streamsExec_iff _).mpr ⟨hheader, hdecodes⟩, hpayload, fun h => ?_⟩
  have hkind := ((h Events.zeroExec).exec (.inl hdecodes)).2
  rw [hpayload] at hkind
  exact absurd hkind (by decide)

end Tracelet
