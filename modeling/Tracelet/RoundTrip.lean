import Tracelet.FilterMatch
import Tracelet.Decode

namespace Tracelet
open ByteMemory

def PrintableText (bs : List UInt8) : Prop := ∀ b ∈ bs, 0x20 ≤ b ∧ b < 0x7f

theorem Events.printable_eq_true_iff (bs : List UInt8) :
    Events.printable bs = true ↔ ∀ b ∈ bs, b = 0 ∨ 0x20 ≤ b ∧ b < 0x7f := by
  simp [Events.printable]

namespace Bpf

theorem length_probeReadStr (path : CString) :
    (probeReadStr 128 path).length = min 127 path.bytes.length + 1 := by
  simp [probeReadStr]

/-- The bytes of the slot that end up behind the path's NUL pass `printable`.
The path buffer starts at `off`. -/
def CleanBehind (slot : List UInt8) (off : ℕ) (path : CString) : Prop :=
  ∀ i, min 127 path.bytes.length + 1 ≤ i → i < 128 →
    byteAt slot (off + i) = 0 ∨ 0x20 ≤ byteAt slot (off + i) ∧ byteAt slot (off + i) < 0x7f

/-- The path buffer after the copy: the string, its NUL, and what the slot held behind it. -/
def pathBuffer (slot : List UInt8) (off : ℕ) (path : CString) : List UInt8 :=
  probeReadStr 128 path ++
    (arrayAt slot (off + (probeReadStr 128 path).length)
      (128 - (probeReadStr 128 path).length)).toList

theorem cutNul_pathBuffer (slot : List UInt8) (off : ℕ) (path : CString) :
    cutNul (pathBuffer slot off path) = path.bytes.take 127 := by
  have h0 : 0 ∉ path.bytes.take 127 := fun h => path.noNul (List.mem_of_mem_take h)
  rw [pathBuffer, probeReadStr, List.append_assoc]
  exact cutNul_append_nul h0 _

/-- `printable` tests the whole buffer, so it also judges what the slot held. -/
theorem printable_pathBuffer_iff {path : CString} (hpath : PrintableText path.bytes)
    (slot : List UInt8) (off : ℕ) :
    Events.printable (pathBuffer slot off path) = true ↔ CleanBehind slot off path := by
  have hstr : ∀ b ∈ probeReadStr 128 path, b = 0 ∨ 0x20 ≤ b ∧ b < 0x7f := by
    intro b hb
    rcases List.mem_append.mp hb with hb | hb
    · exact .inr (hpath b (List.mem_of_mem_take hb))
    · exact .inl (List.mem_singleton.mp hb)
  have hlen := length_probeReadStr path
  simp only [Events.printable_eq_true_iff, pathBuffer, List.mem_append, toList_arrayAt,
    List.mem_ofFn, CleanBehind, ← hlen]
  constructor
  · intro h i hlow hi
    refine h _ (.inr ⟨⟨i - (probeReadStr 128 path).length, by omega⟩, ?_⟩)
    congr 1
    simp only
    omega
  · rintro h b (hb | ⟨i, rfl⟩)
    · exact hstr b hb
    · have hi := h ((probeReadStr 128 path).length + i) (by omega) (by omega)
      rwa [← Nat.add_assoc] at hi

theorem printable_padded {c : Comm} (hc : PrintableText c.name) :
    Events.printable c.padded.toList = true := by
  rw [Events.printable_eq_true_iff]
  intro b hb
  rw [c.toList_padded, ← List.replicate_succ, List.mem_append, List.mem_replicate] at hb
  rcases hb with hb | ⟨-, rfl⟩
  · exact .inr (hc b hb)
  · exact .inl rfl

def recordFields (kind : UInt32) (payload : List (ℕ × List UInt8)) : List (ℕ × List UInt8) :=
  (0, leBytes 4 kind.toNat) :: (4, leBytes 4 recordVersion.toNat) :: payload

theorem recordFields_header {n : ℕ} {slot : Vector UInt8 n} {kind : UInt32}
    {payload : List (ℕ × List UInt8)}
    (h : LaidOut 0 slot.toList.length (recordFields kind payload)) :
    (storeAll slot.toList (recordFields kind payload)).length = n ∧
      u32At (storeAll slot.toList (recordFields kind payload)) 0 = kind ∧
      u32At (storeAll slot.toList (recordFields kind payload)) 4 = recordVersion := by
  refine ⟨?_, u32At_storeAll h ?_, u32At_storeAll h ?_⟩
  · rw [length_storeAll h, Vector.length_toList]
  · simp [recordFields]
  · simp [recordFields]

/-- A file record with a printable `comm` is accepted exactly if the slot was clean. -/
theorem decodeRecord_file_iff {E : Type} [ReprC E] (comm : E → Vector UInt8 16)
    (filename : E → Vector UInt8 128) {data : List UInt8} {ev : E}
    (hlen : data.length = 8 + ReprC.size E) (hversion : u32At data 4 = recordVersion)
    (hfields : ReprC.fields (data.drop 8) = ev) (hcomm : Events.printable (comm ev).toList = true)
    {path : CString} (hpath : PrintableText path.bytes) {slot : List UInt8} {off : ℕ}
    (hname : (filename ev).toList = pathBuffer slot off path) :
    Events.decodeRecord E
        (fun ev => Events.printable (comm ev).toList && Events.printable (filename ev).toList)
          data =
      some ev ↔ CleanBehind slot off path := by
  rw [Events.decodeRecord_eq_some_iff, hcomm, Bool.true_and, hname, printable_pathBuffer_iff hpath]
  -- the other conditions do not depend on the slot
  exact ⟨fun h => h.2.2.2, fun hclean => ⟨hlen, hversion, hfields, hclean⟩⟩

def execFields (task : Task) (now : UInt64) (ctx : ExecCtx) : List (ℕ × List UInt8) :=
  recordFields eventKindExec
    [(8 + 0, leBytes 8 now.toNat), (8 + 8, leBytes 4 eventKindExec.toNat),
      (8 + 12, leBytes 4 ctx.pid.toUInt32.toNat), (8 + 16, leBytes 4 task.parentTgid.toNat),
      (8 + 20, task.comm.padded.toList), (8 + 36, probeReadStr 128 ctx.filename)]

theorem fillExec_eq (task : Task) (now : UInt64) (ctx : ExecCtx) (buf : List UInt8) :
    fillExec task now ctx buf = storeAll buf (execFields task now ctx) := rfl

theorem laidOut_execFields (task : Task) (now : UInt64) (ctx : ExecCtx) (slot : Vector UInt8 176) :
    LaidOut 0 slot.toList.length (execFields task now ctx) := by
  have h := length_probeReadStr ctx.filename
  simp only [execFields, recordFields, LaidOut, length_leBytes, Vector.length_toList]
  omega

theorem fields_fillExec (task : Task) (now : UInt64) (ctx : ExecCtx) (slot : Vector UInt8 176) :
    ∃ filename : Vector UInt8 128, filename.toList = pathBuffer slot.toList 44 ctx.filename ∧
      ReprC.fields ((fillExec task now ctx slot.toList).drop 8) =
        ({ ktimeNs := now, kind := eventKindExec, pid := ctx.pid.toUInt32, ppid := task.parentTgid,
           comm := task.comm.padded, filename } : ExecEvent) := by
  have h := laidOut_execFields task now ctx slot
  have hp := length_probeReadStr ctx.filename
  refine ⟨arrayAt (fillExec task now ctx slot.toList) 44 128, ?_, ?_⟩
  · apply toList_arrayAt_storeAll h (by simp [execFields, recordFields]) (by omega)
    simp [execFields, recordFields]
    omega
  · simp only [ReprC.fields, u64At_drop, u32At_drop, arrayAt_drop, fillExec_eq, ExecEvent.mk.injEq,
      and_true]
    refine ⟨u64At_storeAll h ?_, u32At_storeAll h ?_, u32At_storeAll h ?_, u32At_storeAll h ?_,
      arrayAt_storeAll h ?_⟩ <;> simp [execFields, recordFields]

/-- Both decoders accept the record, and read this firing from it. -/
def ExecArrives (task : Task) (ctx : ExecCtx) (record : List UInt8) : Prop :=
  ∃ ev, Events.decodeExec record = some ev ∧
    Stream.decodeStream record =
      some (.file ev.pid ev.ppid Stream.fileEventExec ev.comm ev.filename) ∧
    ev.pid = ctx.pid.toUInt32 ∧ ev.ppid = task.parentTgid ∧
    cutNul ev.comm.toList = task.comm.name ∧
    cutNul ev.filename.toList = ctx.filename.bytes.take 127

theorem execArrives_fillExec_iff {task : Task} {ctx : ExecCtx}
    (hcomm : PrintableText task.comm.name) (hpath : PrintableText ctx.filename.bytes) (now : UInt64)
    (slot : Vector UInt8 176) :
    ExecArrives task ctx (fillExec task now ctx slot.toList) ↔
      CleanBehind slot.toList 44 ctx.filename := by
  obtain ⟨hlen, hkind, hversion⟩ := recordFields_header (laidOut_execFields task now ctx slot)
  obtain ⟨filename, hname, hfields⟩ := fields_fillExec task now ctx slot
  have haccept := decodeRecord_file_iff ExecEvent.comm ExecEvent.filename hlen hversion hfields
    (printable_padded hcomm) hpath hname
  constructor
  · -- what is accepted can only be the payload
    rintro ⟨ev, hev, -⟩
    obtain ⟨-, -, rfl, -⟩ := Events.decodeRecord_eq_some_iff.mp hev
    rw [hfields] at hev
    exact haccept.mp hev
  · intro hclean
    have hev := haccept.mpr hclean
    refine ⟨_, hev, ?_, rfl, rfl, task.comm.cutNul_padded, ?_⟩
    · rw [Stream.decodeStream_eq, fillExec_eq, execFields, if_pos hkind]
      exact congrArg _ hev
    · rw [hname, cutNul_pathBuffer]

def openFields (task : Task) (now : UInt64) (fname : CString) : List (ℕ × List UInt8) :=
  recordFields eventKindOpen
    [(8 + 0, leBytes 8 now.toNat), (8 + 8, leBytes 4 eventKindOpen.toNat),
      (8 + 12, leBytes 4 (task.pidTgid >>> 32).toUInt32.toNat),
      (8 + 16, task.comm.padded.toList), (8 + 32, probeReadStr 128 fname)]

theorem fillOpen_eq (task : Task) (now : UInt64) (fname : CString) (buf : List UInt8) :
    fillOpen task now fname buf = storeAll buf (openFields task now fname) := rfl

theorem laidOut_openFields (task : Task) (now : UInt64) (fname : CString)
    (slot : Vector UInt8 168) :
    LaidOut 0 slot.toList.length (openFields task now fname) := by
  have h := length_probeReadStr fname
  simp only [openFields, recordFields, LaidOut, length_leBytes, Vector.length_toList]
  omega

theorem fields_fillOpen (task : Task) (now : UInt64) (fname : CString) (slot : Vector UInt8 168) :
    ∃ filename : Vector UInt8 128, filename.toList = pathBuffer slot.toList 40 fname ∧
      ReprC.fields ((fillOpen task now fname slot.toList).drop 8) =
        ({ ktimeNs := now, kind := eventKindOpen, pid := task.tgid, comm := task.comm.padded,
           filename } : OpenEvent) := by
  have h := laidOut_openFields task now fname slot
  have hp := length_probeReadStr fname
  refine ⟨arrayAt (fillOpen task now fname slot.toList) 40 128, ?_, ?_⟩
  · apply toList_arrayAt_storeAll h (by simp [openFields, recordFields]) (by omega)
    simp [openFields, recordFields]
    omega
  · rw [← task.tgid_eq]
    simp only [ReprC.fields, u64At_drop, u32At_drop, arrayAt_drop, fillOpen_eq, OpenEvent.mk.injEq,
      and_true]
    refine ⟨u64At_storeAll h ?_, u32At_storeAll h ?_, u32At_storeAll h ?_,
      arrayAt_storeAll h ?_⟩ <;>
      simp [openFields, recordFields]

def OpenArrives (task : Task) (fname : CString) (record : List UInt8) : Prop :=
  ∃ ev, Events.decodeOpen record = some ev ∧
    Stream.decodeStream record = some (.file ev.pid 0 Stream.fileEventOpen ev.comm ev.filename) ∧
    ev.pid = task.tgid ∧ cutNul ev.comm.toList = task.comm.name ∧
    cutNul ev.filename.toList = fname.bytes.take 127

theorem openArrives_fillOpen_iff {task : Task} {fname : CString}
    (hcomm : PrintableText task.comm.name) (hpath : PrintableText fname.bytes) (now : UInt64)
    (slot : Vector UInt8 168) :
    OpenArrives task fname (fillOpen task now fname slot.toList) ↔
      CleanBehind slot.toList 40 fname := by
  obtain ⟨hlen, hkind, hversion⟩ := recordFields_header (laidOut_openFields task now fname slot)
  obtain ⟨filename, hname, hfields⟩ := fields_fillOpen task now fname slot
  have haccept := decodeRecord_file_iff OpenEvent.comm OpenEvent.filename hlen hversion hfields
    (printable_padded hcomm) hpath hname
  constructor
  · rintro ⟨ev, hev, -⟩
    obtain ⟨-, -, rfl, -⟩ := Events.decodeRecord_eq_some_iff.mp hev
    rw [hfields] at hev
    exact haccept.mp hev
  · intro hclean
    have hev := haccept.mpr hclean
    have hne : ¬ eventKindOpen = eventKindExec := by decide
    refine ⟨_, hev, ?_, rfl, task.comm.cutNul_padded, ?_⟩
    · rw [Stream.decodeStream_eq, fillOpen_eq, openFields, hkind, if_neg hne, if_pos rfl]
      exact congrArg _ hev
    · rw [hname, cutNul_pathBuffer]

/-- An admitted file event arrives intact exactly when the bytes its slot keeps
behind the path are printable or NUL. -/
theorem file_event_round_trip_iff (m : Maps) (task : Task) (now : UInt64)
    (hadmitted : allowed m task = true) (hcomm : PrintableText task.comm.name) :
    (∀ (ctx : ExecCtx) (slot : Vector UInt8 176), PrintableText ctx.filename.bytes →
      ((∃ record, (traceExec m task now ctx (some slot)).events = m.events ++ [record] ∧
        ExecArrives task ctx record) ↔ CleanBehind slot.toList 44 ctx.filename)) ∧
    ∀ (fname : CString) (slot : Vector UInt8 168), PrintableText fname.bytes →
      ((∃ record, (submitOpen m task now fname (some slot)).events = m.events ++ [record] ∧
        OpenArrives task fname record) ↔ CleanBehind slot.toList 40 fname) := by
  refine ⟨fun ctx slot hpath => ?_, fun fname slot hpath => ?_⟩
  · rw [← execArrives_fillExec_iff hcomm hpath now slot]
    simp [traceExec, hadmitted, submit]
  · rw [← openArrives_fillOpen_iff hcomm hpath now slot]
    simp [submitOpen, hadmitted, submit]

def shell : Task := ⟨100, 100, 1, ⟨[115, 104], by decide, by decide⟩⟩

def shortPath : CString := ⟨[47, 97], by decide⟩

theorem printable_shell : PrintableText shell.comm.name ∧ PrintableText shortPath.bytes := by
  simp [PrintableText, shell, shortPath]

theorem file_event_round_trip_zeroed :
    (∃ record, (traceExec Maps.fresh shell 0 ⟨100, shortPath⟩
        (some (Vector.replicate 176 0))).events = [record] ∧
      ExecArrives shell ⟨100, shortPath⟩ record) ∧
    ∃ record, (submitOpen Maps.fresh shell 0 shortPath (some (Vector.replicate 168 0))).events =
      [record] ∧ OpenArrives shell shortPath record := by
  obtain ⟨hexec, hopen⟩ := file_event_round_trip_iff Maps.fresh shell 0 (allowed_fresh shell)
    printable_shell.1
  have hclean : ∀ n off, CleanBehind (Vector.replicate n (0 : UInt8)).toList off shortPath := by
    intro n off i _ _
    apply Or.inl
    simp only [byteAt, List.getD_eq_getElem?_getD, Vector.toList_replicate, List.getElem?_replicate]
    split_ifs <;> rfl
  exact ⟨(hexec ⟨100, shortPath⟩ _ printable_shell.2).mpr (hclean 176 44),
    (hopen shortPath _ printable_shell.2).mpr (hclean 168 40)⟩

/-- One byte `1` left in the slot, as in the version word of an earlier record,
is enough to lose an exec event. -/
theorem file_event_lost_in_stale_slot :
    ¬ ∀ (m : Maps) (task : Task) (now : UInt64), allowed m task = true →
      PrintableText task.comm.name →
      (∀ (ctx : ExecCtx) (slot : Vector UInt8 176), PrintableText ctx.filename.bytes →
        ∃ record, (traceExec m task now ctx (some slot)).events = m.events ++ [record] ∧
          ExecArrives task ctx record) ∧
      ∀ (fname : CString) (slot : Vector UInt8 168), PrintableText fname.bytes →
        ∃ record, (submitOpen m task now fname (some slot)).events = m.events ++ [record] ∧
          OpenArrives task fname record := by
  intro h
  obtain ⟨hcomm, hpath⟩ := printable_shell
  let slot : Vector UInt8 176 := (Vector.replicate 176 0).set 100 1
  obtain ⟨record, hrecord, harrives⟩ :=
    (h Maps.fresh shell 0 (allowed_fresh shell) hcomm).1 ⟨100, shortPath⟩ slot hpath
  have hfill : record = fillExec shell 0 ⟨100, shortPath⟩ slot.toList := by
    simpa [traceExec, allowed_fresh, submit, eq_comm] using hrecord
  have hclean := (execArrives_fillExec_iff hcomm hpath 0 slot).mp (hfill ▸ harrives)
  exact absurd (hclean 56 (by decide) (by decide)) (by decide)

end Bpf
end Tracelet
