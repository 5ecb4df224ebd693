import Tracelet.Snapshot

namespace Tracelet

namespace Collector
open Tracelet.Stream (DashboardEvent streamMax)

/-- The events, each with its time string, pushed into a default `Shared`. -/
def pushAll (evs : List (DashboardEvent × String)) : Shared :=
  evs.foldl (fun shared e => shared.push e.1 e.2) {}

def isTcp : DashboardEvent → Bool
  | .tcp .. => true
  | .file .. => false

def lastOf (pid : UInt32) (evs : List (DashboardEvent × String)) : Option DashboardEvent :=
  ((evs.map Prod.fst).filter fun ev => ev.pid = pid).getLast?

def countPid (pid : UInt32) (evs : List (DashboardEvent × String)) : ℕ :=
  (evs.map fun e => e.1.pid).count pid

def countName (name : String) (evs : List (DashboardEvent × String)) : ℕ :=
  (evs.map fun e => e.1.eventName).count name

section Append

variable (evs : List (DashboardEvent × String)) (e : DashboardEvent × String)

theorem pushAll_append : pushAll (evs ++ [e]) = (pushAll evs).push e.1 e.2 := by
  rw [pushAll, List.foldl_append]
  rfl

theorem lastOf_append (pid : UInt32) :
    lastOf pid (evs ++ [e]) = if e.1.pid = pid then some e.1 else lastOf pid evs := by
  unfold lastOf
  rw [List.map_append, List.filter_append]
  by_cases h : e.1.pid = pid <;> simp [h]

theorem countPid_append (pid : UInt32) :
    countPid pid (evs ++ [e]) = countPid pid evs + if e.1.pid = pid then 1 else 0 := by
  simp [countPid, List.count_singleton]

theorem countName_append (name : String) :
    countName name (evs ++ [e]) = countName name evs + if e.1.eventName = name then 1 else 0 := by
  simp [countName, List.count_singleton]

end Append

theorem countPid_pos_iff (pid : UInt32) (evs : List (DashboardEvent × String)) :
    0 < countPid pid evs ↔ (lastOf pid evs).isSome := by
  induction evs using List.reverseRecOn with
  | nil => exact iff_of_false (lt_irrefl 0) Bool.noConfusion
  | append_singleton evs e ih =>
    rw [lastOf_append, countPid_append]
    split
    · exact iff_of_true (Nat.succ_pos _) rfl
    · exact ih

section Push

variable (shared : Shared) (ev : DashboardEvent) (wall : String)

theorem processes_push :
    (shared.push ev wall).processes = shared.processes.insert ev.pid
      (processName ev, ((shared.processes.lookup ev.pid).map Prod.snd).getD 0 + 1) := by
  have hname : ∀ name, (if name ≠ processName ev then processName ev else name) = processName ev :=
    fun name => by
      split
      case isTrue => rfl
      case isFalse h => exact not_not.mp h
  simp only [Shared.push, hname]
  cases shared.processes.lookup ev.pid <;> rfl

theorem lookup_processes_push (pid : UInt32) :
    (shared.push ev wall).processes.lookup pid =
      if ev.pid = pid then
        some (processName ev, ((shared.processes.lookup pid).map Prod.snd).getD 0 + 1)
      else shared.processes.lookup pid := by
  rw [processes_push]
  split
  case isTrue h => rw [h, Finmap.lookup_insert]
  case isFalse h => rw [Finmap.lookup_insert_of_ne _ (Ne.symm h)]

theorem lookup_byEvent_push (name : String) :
    (shared.push ev wall).byEvent.lookup name =
      if ev.eventName = name then some ((shared.byEvent.lookup name).getD 0 + 1)
      else shared.byEvent.lookup name := by
  simp only [Shared.push]
  split
  case isTrue h => rw [h, Finmap.lookup_insert]
  case isFalse h => rw [Finmap.lookup_insert_of_ne _ (Ne.symm h)]

theorem tcpTotal_push :
    (shared.push ev wall).tcpTotal = shared.tcpTotal + if isTcp ev then 1 else 0 := by
  cases ev <;> simp [Shared.push, isTcp]

theorem fileTotal_push :
    (shared.push ev wall).fileTotal = shared.fileTotal + if isTcp ev then 0 else 1 := by
  cases ev <;> simp [Shared.push, isTcp]

theorem recent_push : (shared.push ev wall).recent = trim (shared.recent ++ [row ev wall]) := by
  simp only [Shared.push]

end Push

theorem trim_trim_append (recent : List StreamRow) (r : StreamRow) :
    trim (trim recent ++ [r]) = trim (recent ++ [r]) := by
  unfold trim
  generalize streamMax = cap
  have hle : recent.length - cap ≤ recent.length := Nat.sub_le _ _
  rw [← List.drop_append_of_le_length hle, List.drop_drop]
  congr 1
  simp only [List.length_drop, List.length_append, List.length_singleton]
  omega

section Pushes

variable (evs : List (DashboardEvent × String))

theorem total_pushAll : (pushAll evs).total = UInt64.ofNat evs.length := by
  induction evs using List.reverseRecOn with
  | nil => rfl
  | append_singleton evs e ih =>
    have hpush : ((pushAll evs).push e.1 e.2).total = (pushAll evs).total + 1 := rfl
    rw [pushAll_append, hpush, ih, List.length_append, UInt64.ofNat_add]
    rfl

theorem tcpTotal_pushAll :
    (pushAll evs).tcpTotal = UInt64.ofNat (evs.countP fun e => isTcp e.1) := by
  induction evs using List.reverseRecOn with
  | nil => rfl
  | append_singleton evs e ih =>
    rw [pushAll_append, tcpTotal_push, ih, List.countP_append, UInt64.ofNat_add,
      List.countP_singleton]
    cases isTcp e.1 <;> rfl

theorem fileTotal_pushAll :
    (pushAll evs).fileTotal = UInt64.ofNat (evs.countP fun e => !isTcp e.1) := by
  induction evs using List.reverseRecOn with
  | nil => rfl
  | append_singleton evs e ih =>
    rw [pushAll_append, fileTotal_push, ih, List.countP_append, UInt64.ofNat_add,
      List.countP_singleton]
    cases isTcp e.1 <;> rfl

/-- A process has its number of events, and the name of the last one. -/
theorem lookup_processes_pushAll (pid : UInt32) :
    (pushAll evs).processes.lookup pid =
      (lastOf pid evs).map fun ev => (processName ev, UInt64.ofNat (countPid pid evs)) := by
  induction evs using List.reverseRecOn with
  | nil => exact Finmap.lookup_empty pid
  | append_singleton evs e ih =>
    rw [pushAll_append, lookup_processes_push, lastOf_append, countPid_append, ih]
    split
    · have hcount : (((lastOf pid evs).map fun ev =>
          (processName ev, UInt64.ofNat (countPid pid evs))).map Prod.snd).getD 0 =
            UInt64.ofNat (countPid pid evs) := by
        cases hlast : lastOf pid evs with
        | none =>
          have hpos := countPid_pos_iff pid evs
          rw [hlast] at hpos
          rw [Nat.eq_zero_of_not_pos (hpos.not.mpr Bool.noConfusion)]
          rfl
        | some ev => rfl
      rw [hcount, UInt64.ofNat_add]
      rfl
    · rfl

theorem lookup_byEvent_pushAll (name : String) :
    (pushAll evs).byEvent.lookup name =
      if countName name evs = 0 then none else some (UInt64.ofNat (countName name evs)) := by
  induction evs using List.reverseRecOn with
  | nil => exact Finmap.lookup_empty name
  | append_singleton evs e ih =>
    rw [pushAll_append, lookup_byEvent_push, countName_append, ih]
    split
    · have hcount : (if countName name evs = 0 then none
          else some (UInt64.ofNat (countName name evs))).getD 0 =
            UInt64.ofNat (countName name evs) := by
        split
        case isTrue h => rw [h]; rfl
        case isFalse => rfl
      rw [hcount, if_neg (Nat.succ_ne_zero _), UInt64.ofNat_add]
      rfl
    · rw [add_zero]

/-- The queue holds the rows of the last events, oldest first. -/
theorem recent_pushAll : (pushAll evs).recent = trim (evs.map fun e => row e.1 e.2) := by
  induction evs using List.reverseRecOn with
  | nil => rfl
  | append_singleton evs e ih =>
    rw [pushAll_append, recent_push, ih, trim_trim_append, List.map_append, List.map_singleton]

end Pushes

/-- The state is what the pushed events make of it. -/
structure IsFold (evs : List (DashboardEvent × String)) (shared : Shared) : Prop where
  total : shared.total.toNat = evs.length
  totals : shared.tcpTotal.toNat + shared.fileTotal.toNat = evs.length
  byEventSum : ∀ o : MapOrder shared.byEvent, (o.entries.map fun e => e.2.toNat).sum = evs.length
  processesSum : ∀ o : MapOrder shared.processes,
    (o.entries.map fun e => e.2.2.toNat).sum = evs.length
  process : ∀ pid name count, shared.processes.lookup pid = some (name, count) ↔
    count.toNat = countPid pid evs ∧ ∃ ev, lastOf pid evs = some ev ∧
      name = RustText.fromUtf8Lossy (cutNul ev.comm.toList)
  event : ∀ name count, shared.byEvent.lookup name = some count ↔
    0 < countName name evs ∧ count.toNat = countName name evs
  stream : ∀ now processes byEvent, (Snapshot.take shared now processes byEvent).stream =
    (evs.map fun e => row e.1 e.2).reverse.take (min evs.length streamMax)

theorem countPid_le (pid : UInt32) (evs : List (DashboardEvent × String)) :
    countPid pid evs ≤ evs.length :=
  List.count_le_length.trans_eq (List.length_map _)

theorem countName_le (name : String) (evs : List (DashboardEvent × String)) :
    countName name evs ≤ evs.length :=
  List.count_le_length.trans_eq (List.length_map _)

section IsFold

variable {evs : List (DashboardEvent × String)} (hlen : evs.length < 2 ^ 64)
include hlen

theorem toNat_ofNat_of_le {n : ℕ} (h : n ≤ evs.length) : (UInt64.ofNat n).toNat = n :=
  UInt64.toNat_ofNat_of_lt' (h.trans_lt hlen)

theorem eq_ofNat_iff {n : ℕ} (h : n ≤ evs.length) (count : UInt64) :
    UInt64.ofNat n = count ↔ count.toNat = n := by
  rw [← UInt64.toNat_inj, toNat_ofNat_of_le hlen h, eq_comm]

theorem processes_pushAll_eq_some (pid : UInt32) (name : String) (count : UInt64) :
    (pushAll evs).processes.lookup pid = some (name, count) ↔
      count.toNat = countPid pid evs ∧ ∃ ev, lastOf pid evs = some ev ∧ name = processName ev := by
  rw [lookup_processes_pushAll, Option.map_eq_some_iff, ← eq_ofNat_iff hlen (countPid_le pid evs)]
  simp only [Prod.mk.injEq]
  constructor
  · rintro ⟨ev, hlast, hname, hcount⟩
    exact ⟨hcount, ev, hlast, hname.symm⟩
  · rintro ⟨hcount, ev, hlast, hname⟩
    exact ⟨ev, hlast, hname.symm, hcount⟩

theorem byEvent_pushAll_eq_some (name : String) (count : UInt64) :
    (pushAll evs).byEvent.lookup name = some count ↔
      0 < countName name evs ∧ count.toNat = countName name evs := by
  rw [lookup_byEvent_pushAll, ← eq_ofNat_iff hlen (countName_le name evs)]
  split
  case isTrue h => simp [h]
  case isFalse h => simp [Nat.pos_of_ne_zero h]

theorem processesSum_pushAll (o : MapOrder (pushAll evs).processes) :
    (o.entries.map fun e => e.2.2.toNat).sum = evs.length := by
  have hkeys : ∀ pid, ((pushAll evs).processes.lookup pid).isSome ↔
      pid ∈ evs.map fun e => e.1.pid := fun pid => by
    rw [lookup_processes_pushAll, Option.isSome_map, ← countPid_pos_iff]
    exact List.count_pos_iff
  have hsum := o.sum_count (f := fun v => v.2.toNat) hkeys
    fun pid v hv => ((processes_pushAll_eq_some hlen pid v.1 v.2).mp hv).1
  rwa [List.length_map] at hsum

theorem byEventSum_pushAll (o : MapOrder (pushAll evs).byEvent) :
    (o.entries.map fun e => e.2.toNat).sum = evs.length := by
  have hkeys : ∀ name, ((pushAll evs).byEvent.lookup name).isSome ↔
      name ∈ evs.map fun e => e.1.eventName := fun name => by
    rw [lookup_byEvent_pushAll, ← List.count_pos_iff]
    change _ ↔ 0 < countName name evs
    split
    case isTrue h => simp [h]
    case isFalse h => simp [Nat.pos_of_ne_zero h]
  have hsum := o.sum_count (f := UInt64.toNat) hkeys
    fun name count hv => ((byEvent_pushAll_eq_some hlen name count).mp hv).2
  rwa [List.length_map] at hsum

end IsFold

/-- After fewer than `2 ^ 64` pushes into a default `Shared`, the state is the
fold of the pushed events. -/
theorem pushAll_isFold (evs : List (DashboardEvent × String)) (hlen : evs.length < 2 ^ 64) :
    IsFold evs (pushAll evs) where
  total := by rw [total_pushAll, toNat_ofNat_of_le hlen le_rfl]
  totals := by
    have hsplit :=
      List.length_eq_countP_add_countP (p := fun e : DashboardEvent × String => isTcp e.1)
      (l := evs)
    rw [tcpTotal_pushAll, fileTotal_pushAll, toNat_ofNat_of_le hlen List.countP_le_length,
      toNat_ofNat_of_le hlen List.countP_le_length, hsplit]
    simp
  byEventSum := byEventSum_pushAll hlen
  processesSum := processesSum_pushAll hlen
  process := processes_pushAll_eq_some hlen
  event := byEvent_pushAll_eq_some hlen
  stream now processes byEvent := by
    change (pushAll evs).recent.reverse = _
    rw [recent_pushAll, trim, List.reverse_drop, List.length_map, Nat.sub_sub_eq_min]

def shellEvents : List (DashboardEvent × String) :=
  [(.file 7 1 0 (Vector.replicate 16 115) (Vector.replicate 128 47), "10:00:00.000"),
    (.file 7 0 1 (Vector.replicate 16 115) (Vector.replicate 128 47), "10:00:00.001")]

theorem pushAll_isFold_shell : IsFold shellEvents (pushAll shellEvents) :=
  pushAll_isFold shellEvents (by decide)

end Collector

end Tracelet
