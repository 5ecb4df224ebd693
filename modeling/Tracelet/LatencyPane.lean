import Tracelet.CollectLoop
import Tracelet.Latency
import Tracelet.Snapshot

namespace Tracelet
open KernelMap

def SyscallKind.name : SyscallKind → String
  | read => "read"
  | write => "write"
  | openat => "openat"

namespace LatencyPane
open Bpf

inductive Prog where
  | traceExec
  | traceOpen
  | traceOpenat
  | traceOpenat2
  | traceTcp
  | latency (p : Latency.Program)

def collectProgs : List Prog := [.traceExec, .traceOpen, .traceOpenat, .traceOpenat2, .traceTcp]

def latencyProgs : List Prog := (Latency.attach (Latency.selected none)).map .latency

/-- A tracepoint of one of the three system calls fires. Only `trace_openat`
looks at the file name and at what the ring buffer reserves. -/
inductive Firing where
  | enter (task : Task) (k : SyscallKind) (now : UInt64) (fname : CString)
    (reserved : Reservation 168)
  | exit (task : Task) (k : SyscallKind) (now : UInt64)

/-- One attached program. The exec and TCP programs and those of the other two
open calls are on other tracepoints. -/
def Prog.run (m : Maps) : Firing → Prog → Maps
  | .enter task .openat now fname reserved, .traceOpenat => submitOpen m task now fname reserved
  | .enter task k now _ _, .latency (.enter k') => if k' = k then syscallEnter m task now else m
  | .exit task k now, .latency (.exit k') =>
    if k' = k then syscallExit m task.pidTgid now k.index else m
  | _, _ => m

def fire (progs : List Prog) (m : Maps) (f : Firing) : Maps := progs.foldl (fun m p => p.run m f) m

def mapsAfter (progs : List Prog) (filter : ArrayMap Bpf.FilterConfig 1) (fs : List Firing) :
    Maps :=
  fs.foldl (fire progs) { Maps.fresh with filterMap := filter }

def printed (hist : LatencyHist) : List (String × Hist.Stats) :=
  (Latency.selected none).map fun kind =>
    (kind.name, Hist.summarize ((Latency.readHistogram hist)[kind.index.toNat]?.getD []))

def slots (hist : LatencyHist) (k : SyscallKind) : List UInt64 :=
  (List.range latencySlots).map (slotAt hist k)

theorem printed_eq (hist : LatencyHist) :
    printed hist = (Latency.selected none).map fun k =>
      (k.name, Hist.summarize (slots hist k)) := by
  unfold printed
  apply List.map_congr_left
  intro k _
  rw [Hist.readHistogram_index, Option.getD_some]
  rfl

theorem refreshLatency_latency (shared : Collector.Shared) (hist : LatencyHist) :
    (Collector.refreshLatency shared hist).latency = Latency.readHistogram hist := by
  have hkey : ∀ syscall slot : ℕ,
      UInt32.ofNat syscall * UInt32.ofNat latencySlots + UInt32.ofNat slot =
        UInt32.ofNat (syscall * latencySlots + slot) := fun syscall slot => by
    rw [UInt32.ofNat_add (syscall * latencySlots), UInt32.ofNat_mul]
  simp only [Collector.refreshLatency, Latency.readHistogram, hkey]

theorem readHistogram_eq (hist : LatencyHist) :
    Latency.readHistogram hist = [slots hist .read, slots hist .write, slots hist .openat] := rfl

theorem take_latency (shared : Collector.Shared) (hist : LatencyHist) (now : ℕ)
    (processes : MapOrder (Collector.refreshLatency shared hist).processes)
    (byEvent : MapOrder (Collector.refreshLatency shared hist).byEvent) :
    (Collector.Snapshot.take (Collector.refreshLatency shared hist) now processes byEvent).latency =
      (Latency.selected none).map fun k => (k.name, Hist.summarize (slots hist k)) := by
  have hlatency := refreshLatency_latency shared hist
  rw [readHistogram_eq] at hlatency
  simp only [Collector.Snapshot.take, hlatency]
  rfl

/-- The sample of a firing: an exit adds one if it finds the start time of its
thread. -/
def sample (m : Maps) : Firing → List (SyscallKind × UInt64)
  | .enter .. => []
  | .exit task k now =>
    ((m.latencyStart.lookup task.pidTgid).map fun start => (k, now - start)).toList

/-- The samples that these firings add to the histogram of `tracelet latency`. -/
def samples (m : Maps) : List Firing → List (SyscallKind × UInt64)
  | [] => []
  | f :: fs => sample m f ++ samples (fire latencyProgs m f) fs

theorem fire_latency_enter (m : Maps) (task : Task) (k : SyscallKind) (now : UInt64)
    (fname : CString) (reserved : Reservation 168) :
    fire latencyProgs m (.enter task k now fname reserved) = syscallEnter m task now := by
  cases k <;> rfl

theorem fire_latency_exit (m : Maps) (task : Task) (k : SyscallKind) (now : UInt64) :
    fire latencyProgs m (.exit task k now) = syscallExit m task.pidTgid now k.index := by
  cases k <;> rfl

theorem latencyHist_syscallEnter (m : Maps) (task : Task) (now : UInt64) :
    (syscallEnter m task now).latencyHist = m.latencyHist := by
  unfold syscallEnter syscallEnterWith
  split
  · rfl
  · split <;> rfl

theorem latencyHist_foldl (m : Maps) (fs : List Firing) :
    (fs.foldl (fire latencyProgs) m).latencyHist =
      (samples m fs).foldl (fun hist s => recordSample hist s.1.index s.2) m.latencyHist := by
  induction fs generalizing m with
  | nil => rfl
  | cons f fs ih =>
    rw [List.foldl_cons, ih, samples, List.foldl_append]
    congr 1
    cases f with
    | enter task k now fname reserved =>
      rw [fire_latency_enter, latencyHist_syscallEnter]
      rfl
    | exit task k now =>
      rw [fire_latency_exit, syscallExit, sample]
      cases m.latencyStart.lookup task.pidTgid <;> rfl

/-- None of the programs that `collect` attaches touches the histogram. -/
theorem latencyHist_collect (m : Maps) (fs : List Firing) :
    (fs.foldl (fire collectProgs) m).latencyHist = m.latencyHist := by
  have hopen : ∀ (m : Maps) (task : Task) (now : UInt64) (fname : CString)
    (reserved : Reservation 168),
      (submitOpen m task now fname reserved).latencyHist = m.latencyHist :=
    fun m task now fname reserved => by
      unfold submitOpen
      split
      · rfl
      · cases reserved <;> rfl
  have hfire : ∀ (m : Maps) (f : Firing), (fire collectProgs m f).latencyHist = m.latencyHist :=
    fun m f => by
      cases f with
      | enter task k now fname reserved =>
        -- `trace_openat` hangs on the same tracepoint, but it only submits a record
        cases k with
        | openat => exact hopen m task now fname reserved
        | read => rfl
        | write => rfl
      | exit task k now => cases k <;> rfl
  induction fs generalizing m with
  | nil => rfl
  | cons f fs ih => rw [List.foldl_cons, ih, hfire]

theorem foldl_max_eq_zero_iff (ns : List ℕ) (n : ℕ) :
    ns.foldl max n = 0 ↔ n = 0 ∧ ∀ m ∈ ns, m = 0 := by
  induction ns generalizing n with
  | nil => simp
  | cons m ns ih =>
    rw [List.foldl_cons, ih, List.forall_mem_cons, ← and_assoc]
    exact and_congr_left fun _ => by omega

theorem maxSlot_eq_zero_iff (ss : List (SyscallKind × UInt64)) (k : SyscallKind) :
    slotAt (recordAll ss) k (histSlots + 1) = 0 ↔ ∀ delta ∈ samplesOf k ss, delta = 0 := by
  rw [← UInt64.toNat_inj, slotAt_recordAll_max]
  refine (foldl_max_eq_zero_iff _ _).trans ?_
  rw [and_iff_right rfl, List.forall_mem_map]
  exact forall₂_congr fun delta _ => UInt64.toNat_inj (b := 0)

/-- A syscall shows the statistics of no samples exactly if all its samples are
zero and their number wraps to zero. -/
theorem summarize_eq_empty_iff (ss : List (SyscallKind × UInt64)) (k : SyscallKind) :
    Hist.summarize (slots (recordAll ss) k) = Hist.summarize (slots (recordAll []) k) ↔
      (∀ delta ∈ samplesOf k ss, delta = 0) ∧ 2 ^ 64 ∣ (samplesOf k ss).length := by
  have hcount : UInt64.ofNat (samplesOf k ss).length = 0 ↔ 2 ^ 64 ∣ (samplesOf k ss).length := by
    rw [← UInt64.toNat_inj, UInt64.toNat_ofNat', Nat.dvd_iff_mod_eq_zero]
    rfl
  have hempty : Hist.summarize (slots (recordAll []) k) = ⟨0, 0, 0, 0, 0, 0⟩ := by cases k <;> rfl
  rw [hempty, slots, Hist.summarize_row, Hist.Stats.mk.injEq, hcount, maxSlot_eq_zero_iff]
  constructor
  · exact fun h => ⟨h.2.2.1, h.1⟩
  · rintro ⟨hzero, hdvd⟩
    have hreported : ∀ p, Hist.reported (samplesOf k ss) p = 0 := fun p => if_pos (hcount.mpr hdvd)
    exact ⟨hdvd, List.sum_eq_zero hzero, hzero, hreported 50, hreported 95, hreported 99⟩

def measured (filter : ArrayMap Bpf.FilterConfig 1) (fs : List Firing) (k : SyscallKind) :
    List UInt64 :=
  samplesOf k (samples { Maps.fresh with filterMap := filter } fs)

theorem slots_latency (filter : ArrayMap Bpf.FilterConfig 1) (fs : List Firing) :
    (mapsAfter latencyProgs filter fs).latencyHist =
      recordAll (samples { Maps.fresh with filterMap := filter } fs) :=
  latencyHist_foldl _ fs

theorem slots_collect (filter : ArrayMap Bpf.FilterConfig 1) (fs : List Firing) :
    (mapsAfter collectProgs filter fs).latencyHist = recordAll [] :=
  latencyHist_collect _ fs

section Sides

variable (shared : Collector.Shared) (filter : ArrayMap Bpf.FilterConfig 1)
  (fs : List Firing) (now : ℕ)
  (processes : MapOrder (Collector.refreshLatency shared
    (mapsAfter collectProgs filter fs).latencyHist).processes)
  (byEvent : MapOrder (Collector.refreshLatency shared
    (mapsAfter collectProgs filter fs).latencyHist).byEvent)

theorem pane_eq_iff_summarize :
    (Collector.Snapshot.take (Collector.refreshLatency shared
        (mapsAfter collectProgs filter fs).latencyHist) now processes byEvent).latency =
      printed (mapsAfter latencyProgs filter fs).latencyHist ↔
    ∀ k, Hist.summarize (slots (recordAll (samples { Maps.fresh with filterMap := filter } fs)) k) =
      Hist.summarize (slots (recordAll []) k) := by
  have hall : ∀ k, k ∈ Latency.selected none := fun k => by cases k <;> decide
  rw [take_latency, printed_eq, slots_collect, slots_latency, List.map_inj_left]
  simp only [hall, forall_const, Prod.mk.injEq, true_and]
  exact forall_congr' fun k => eq_comm

/-- After the same firings the pane shows what the command prints exactly if
every sample of the command is zero and no syscall's number of samples shows. -/
theorem pane_eq_printed_iff :
    (Collector.Snapshot.take (Collector.refreshLatency shared
        (mapsAfter collectProgs filter fs).latencyHist) now processes byEvent).latency =
      printed (mapsAfter latencyProgs filter fs).latencyHist ↔
    ∀ k, (∀ delta ∈ measured filter fs k, delta = 0) ∧ 2 ^ 64 ∣ (measured filter fs k).length := by
  rw [pane_eq_iff_summarize]
  exact forall_congr' fun k => summarize_eq_empty_iff _ k

end Sides

def reader : Task where
  tgid := 7
  tid := 7
  parentTgid := 1
  comm := ⟨[], by decide, by decide⟩

def oneRead : List Firing :=
  [.enter reader .read 10 ⟨[], by decide⟩ none, .exit reader .read 15]

theorem samples_oneRead : samples Maps.fresh oneRead = [(.read, 5)] := by decide

/-- The command shows one read, the pane none. -/
theorem pane_misses_read :
    ¬ ∀ (shared : Collector.Shared) (filter : ArrayMap Bpf.FilterConfig 1)
      (fs : List Firing) (now : ℕ)
      (processes : MapOrder (Collector.refreshLatency shared
        (mapsAfter collectProgs filter fs).latencyHist).processes)
      (byEvent : MapOrder (Collector.refreshLatency shared
        (mapsAfter collectProgs filter fs).latencyHist).byEvent),
      (Collector.Snapshot.take (Collector.refreshLatency shared
          (mapsAfter collectProgs filter fs).latencyHist) now processes byEvent).latency =
        printed (mapsAfter latencyProgs filter fs).latencyHist := by
  intro h
  obtain ⟨processes⟩ := MapOrder.nonempty (Collector.refreshLatency {}
    (mapsAfter collectProgs Maps.fresh.filterMap oneRead).latencyHist).processes
  obtain ⟨byEvent⟩ := MapOrder.nonempty (Collector.refreshLatency {}
    (mapsAfter collectProgs Maps.fresh.filterMap oneRead).latencyHist).byEvent
  have hstats := (pane_eq_iff_summarize {} _ oneRead 0 processes byEvent).mp (h ..) .read
  have hfresh : { Maps.fresh with filterMap := Maps.fresh.filterMap } = Maps.fresh := rfl
  rw [hfresh, samples_oneRead] at hstats
  have hzero := ((summarize_eq_empty_iff [(.read, 5)] .read).mp hstats).1 5 (by decide)
  exact absurd hzero (by decide)

end LatencyPane

end Tracelet
