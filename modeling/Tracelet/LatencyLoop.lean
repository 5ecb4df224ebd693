import Tracelet.CounterScan
import Tracelet.ExitRace
import Tracelet.LatencyTable
import Tracelet.Warnings

namespace Tracelet
open KernelMap TransitionRun

namespace LatencyLoop
open Bpf Hist

/-- The map accesses of `syscall_exit` that change the histogram. -/
inductive Update where
  | addCount (k : SyscallKind) (delta : UInt64)
  | addSum (k : SyscallKind) (delta : UInt64)
  | storeMax (k : SyscallKind) (delta : UInt64)

def Update.apply (hist : LatencyHist) : Update → LatencyHist
  | addCount k delta =>
    ArrayMap.modify hist (k.index * UInt32.ofNat latencySlots + sampleSlot delta) (· + 1)
  | addSum k delta =>
    ArrayMap.modify hist (k.index * UInt32.ofNat latencySlots + UInt32.ofNat histSlots) (· + delta)
  | storeMax k delta =>
    ArrayMap.modify hist (k.index * UInt32.ofNat latencySlots + UInt32.ofNat histSlots + 1)
      fun _ => delta

def Update.counts : Update → List (SyscallKind × UInt64)
  | addCount k delta => [(k, delta)]
  | addSum _ _ | storeMax _ _ => []

section Apply

variable (hist : LatencyHist) (k : SyscallKind) (delta : UInt64)

theorem apply_addCount : (Update.addCount k delta).apply hist =
    ArrayMap.modify hist (slotKey k (bucket delta.toNat)) (· + 1) := by
  rw [Update.apply, base_add, toNat_sampleSlot]

theorem apply_addSum :
    (Update.addSum k delta).apply hist =
      ArrayMap.modify hist (slotKey k histSlots) (· + delta) := by
  rw [Update.apply, base_add_sum]

theorem apply_storeMax : (Update.storeMax k delta).apply hist =
    ArrayMap.modify hist (slotKey k (histSlots + 1)) fun _ => delta := by
  rw [Update.apply, base_add_max]

end Apply

def handlerUpdates (hist : LatencyHist) (k : SyscallKind) (delta : UInt64) : List Update :=
  [.addCount k delta, .addSum k delta] ++
    if delta > slotAt hist k (histSlots + 1) then [.storeMax k delta] else []

theorem recordSample_eq_updates (hist : LatencyHist) (k : SyscallKind) (delta : UInt64) :
    recordSample hist k.index delta = (handlerUpdates hist k delta).foldl Update.apply hist := by
  let added := Update.apply (Update.apply hist (.addCount k delta)) (.addSum k delta)
  have hb : bucket delta.toNat < histSlots := bucket_lt _
  -- the two adds leave the maximum as it is
  have hmax : ArrayMap.lookup added (slotKey k (histSlots + 1)) =
      some (slotAt hist k (histSlots + 1)) := by
    rw [lookup_slotKey added k (by decide)]
    simp only [added]
    rw [apply_addSum, apply_addCount, slotAt_modify _ (by decide) (by decide),
      slotAt_modify _ (by decide) (hb.trans (by decide)), if_neg (by simp), if_neg (by omega)]
  have hrecord : recordSample hist k.index delta = ArrayMap.modify added (slotKey k (histSlots + 1))
      fun maxp => if delta > maxp then delta else maxp := by
    rw [← base_add_max]
    rfl
  rw [hrecord, handlerUpdates, List.foldl_append]
  change _ = (if _ then _ else _ : List Update).foldl Update.apply added
  by_cases hgt : delta > slotAt hist k (histSlots + 1)
  · rw [if_pos hgt]
    rw [List.foldl_cons, List.foldl_nil, apply_storeMax]
    exact ArrayMap.modify_congr hmax (if_pos hgt)
  · have hkeep : ArrayMap.modify added (slotKey k (histSlots + 1))
        (fun maxp => if delta > maxp then delta else maxp) = ArrayMap.modify added _ fun v => v :=
      ArrayMap.modify_congr hmax (if_neg hgt)
    rw [if_neg hgt, List.foldl_nil, hkeep, ArrayMap.modify_id]

theorem race_step {ι : Type} [DecidableEq ι] {k : SyscallKind} {deltas : ι → UInt64}
    {s s' : ExitRace.State ι} {i : ι} (h : ExitRace.step k deltas s i = some s') :
    s'.hist = s.hist ∨ ∃ u, s'.hist = Update.apply s.hist u := by
  obtain ⟨-, rfl⟩ | ⟨-, rfl⟩ | ⟨-, rfl⟩ | ⟨-, rfl⟩ := ExitRace.step_cases h
  · exact .inr ⟨.addCount k (deltas i), (apply_addCount s.hist k (deltas i)).symm⟩
  · exact .inr ⟨.addSum k (deltas i), (apply_addSum s.hist k (deltas i)).symm⟩
  · exact .inl rfl
  · exact .inr ⟨.storeMax k (deltas i), (apply_storeMax s.hist k (deltas i)).symm⟩

/-- Before `should_stop`, between two lookups, before `warn_on_drops`, behind the
summary, or left through an error. -/
inductive Pc where
  | check | reading | warn | done | failed
  deriving DecidableEq

/-- `slots` are the counters read so far in this turn. The last three fields only
record what happened: the samples counted so far, how many of them there were
when the reading began, and how many at each lookup. -/
structure State where
  pc : Pc
  running : Bool
  hist : LatencyHist
  drops : ArrayMap UInt64 3
  nowNs : UInt64
  slots : List UInt64
  dropsSeen : UInt64 × UInt64
  summary : Option (UInt64 × UInt64)
  counted : List (SyscallKind × UInt64)
  before : ℕ
  marks : List ℕ

def State.start : State where
  pc := .check
  running := true
  hist := Maps.fresh.latencyHist
  drops := Maps.fresh.drops
  nowNs := 0
  slots := []
  dropsSeen := (0, 0)
  summary := none
  counted := []
  before := 0
  marks := []

inductive Event where
  | update (u : Update)
  | drop
  | signal
  | check (expired : Bool) (nowNs : UInt64)
  | lookup
  | print
  | warn
  | fail

/-- A turn reads the clock and then the counters one by one, prints them, and sleeps
behind `warn_on_drops`. Between two lookups any of the counters may change. -/
def step (s : State) : Event → Option State
  -- an exit handler on another processor adds to the histogram
  | .update u => some { s with hist := u.apply s.hist, counted := s.counted ++ u.counts }
  | .drop => some { s with drops := ArrayMap.modify s.drops dropKeyLatency (· + 1) }
  | .signal => some { s with running := false }
  | .check expired nowNs =>
    if s.pc ≠ .check then none
    else if EventLoop.shouldStop s.running 0 none expired then
      some { s with pc := .done, summary := some (0, s.dropsSeen.1 + s.dropsSeen.2) }
    else some { s with
      pc := .reading, nowNs := nowNs, slots := [], before := s.counted.length, marks := [] }
  -- the slots are read in the order of their index; a lookup that fails is `fail`
  | .lookup =>
    if s.pc = .reading ∧ s.slots.length < syscallCount * latencySlots then
      some { s with
        slots := s.slots ++ [(ArrayMap.lookup s.hist (UInt32.ofNat s.slots.length)).getD 0]
        marks := s.marks ++ [s.counted.length] }
    else none
  | .print =>
    if s.pc = .reading ∧ s.slots.length = syscallCount * latencySlots then
      some { s with pc := .warn }
    else none
  | .warn =>
    if s.pc ≠ .warn then none
    else some { s with pc := .check, dropsSeen := Stats.warnOnDrops s.drops s.dropsSeen }
  | .fail =>
    if s.pc = .reading ∧ s.slots.length < syscallCount * latencySlots ∨ s.pc = .warn then
      some { s with pc := .failed }
    else none

def histogram (slots : List UInt64) : List (List UInt64) :=
  (List.range syscallCount).map fun syscall =>
    (List.range latencySlots).map fun slot => slots.getD (syscall * latencySlots + slot) 0

def printed (format : OutputFormat) (kinds : List SyscallKind) (s : State) :
    Event → List (List Char)
  | .print => Latency.table format s.nowNs kinds (histogram s.slots)
  | _ => []

section Cases

variable {s s' : State}

theorem check_cases {expired : Bool} {nowNs : UInt64}
    (h : step s (.check expired nowNs) = some s') :
    s.pc = .check ∧
      ((EventLoop.shouldStop s.running 0 none expired = true ∧
          s' = { s with pc := .done, summary := some (0, s.dropsSeen.1 + s.dropsSeen.2) }) ∨
        (EventLoop.shouldStop s.running 0 none expired = false ∧
          s' = { s with
            pc := .reading, nowNs := nowNs, slots := []
            before := s.counted.length, marks := [] })) := by
  by_cases hpc : s.pc = .check
  · refine ⟨hpc, ?_⟩
    cases hstop : EventLoop.shouldStop s.running 0 none expired with
    | true => exact .inl ⟨rfl, by simpa [step, hpc, hstop] using h.symm⟩
    | false => exact .inr ⟨rfl, by simpa [step, hpc, hstop] using h.symm⟩
  · simp [step, hpc] at h

theorem lookup_cases (h : step s .lookup = some s') :
    s.pc = .reading ∧ s.slots.length < syscallCount * latencySlots ∧
      s' = { s with
        slots := s.slots ++ [(ArrayMap.lookup s.hist (UInt32.ofNat s.slots.length)).getD 0]
        marks := s.marks ++ [s.counted.length] } := by
  simp only [step] at h
  split_ifs at h with hgo
  exact ⟨hgo.1, hgo.2, (Option.some.inj h).symm⟩

theorem print_cases (h : step s .print = some s') :
    s.pc = .reading ∧ s.slots.length = syscallCount * latencySlots ∧
      s' = { s with pc := .warn } := by
  simp only [step] at h
  split_ifs at h with hgo
  exact ⟨hgo.1, hgo.2, (Option.some.inj h).symm⟩

theorem warn_cases (h : step s .warn = some s') :
    s.pc = .warn ∧
      s' = { s with pc := .check, dropsSeen := Stats.warnOnDrops s.drops s.dropsSeen } := by
  by_cases hpc : s.pc = .warn
  · exact ⟨hpc, by simpa [step, hpc] using h.symm⟩
  · simp [step, hpc] at h

theorem fail_cases (h : step s .fail = some s') :
    (s.pc = .reading ∧ s.slots.length < syscallCount * latencySlots ∨ s.pc = .warn) ∧
      s' = { s with pc := .failed } := by
  simp only [step] at h
  split_ifs at h with hgo
  exact ⟨hgo, (Option.some.inj h).symm⟩

end Cases

/-- The cell of a sample. -/
def key (x : SyscallKind × UInt64) : SyscallKind × ℕ := (x.1, bucket x.2.toNat)

def index (c : SyscallKind × ℕ) : ℕ := c.1.index.toNat * latencySlots + c.2

/-- A bucket that was read held the samples counted in it at that moment. -/
structure Scanned (s : State) : Prop where
  buckets : ∀ k b, b < histSlots →
    slotAt s.hist k b = UInt64.ofNat (s.counted.countP fun x => key x = (k, b))
  before_le : s.before ≤ s.counted.length
  marks_length : s.marks.length = s.slots.length
  marks : ∀ m ∈ s.marks, s.before ≤ m ∧ m ≤ s.counted.length
  slots_le : s.slots.length ≤ syscallCount * latencySlots
  slots : ∀ k b, b < histSlots → ∀ m v, s.marks[index (k, b)]? = some m →
    s.slots[index (k, b)]? = some v →
      v = UInt64.ofNat ((s.counted.take m).countP fun x => key x = (k, b))

theorem scanned_start : Scanned .start where
  buckets k b hb := by
    have hkey := toNat_slotKey k (hb.trans (by decide : histSlots < latencySlots))
    exact slotAt_recordAll_nil k (hb.trans (by decide))
  before_le := le_rfl
  marks_length := rfl
  marks := fun m hm => (List.not_mem_nil hm).elim
  slots_le := Nat.zero_le _
  slots := by
    intro k b _ m v hm
    cases hm

theorem slotAt_apply (hist : LatencyHist) (u : Update) (k : SyscallKind) {b : ℕ}
    (hb : b < histSlots) :
    slotAt (u.apply hist) k b =
      slotAt hist k b + UInt64.ofNat (u.counts.countP fun x => key x = (k, b)) := by
  have hb' : b < latencySlots := hb.trans (by decide)
  cases u with
  | addCount k' delta =>
    have hslot : bucket delta.toNat < latencySlots := (bucket_lt _).trans (by decide)
    rw [apply_addCount, slotAt_modify hist hb' hslot]
    by_cases hc : k = k' ∧ b = bucket delta.toNat
    · obtain ⟨rfl, rfl⟩ := hc
      simp [Update.counts, key]
    · rw [if_neg hc]
      have hne : ¬ key (k', delta) = (k, b) := fun h =>
        hc ⟨(congrArg Prod.fst h).symm, (congrArg Prod.snd h).symm⟩
      simp [Update.counts, hne]
  | addSum k' delta =>
    rw [apply_addSum, slotAt_modify hist hb' (by decide), if_neg (by omega)]
    simp [Update.counts]
  | storeMax k' delta =>
    rw [apply_storeMax, slotAt_modify hist hb' (by decide), if_neg (by omega)]
    simp [Update.counts]

theorem Scanned.update {s : State} (h : Scanned s) (u : Update) :
    Scanned { s with hist := u.apply s.hist, counted := s.counted ++ u.counts } where
  buckets k b hb := by
    rw [slotAt_apply s.hist u k hb, h.buckets k b hb, List.countP_append, UInt64.ofNat_add]
  before_le := h.before_le.trans (by simp)
  marks_length := h.marks_length
  marks m hm := ⟨(h.marks m hm).1, (h.marks m hm).2.trans (by simp)⟩
  slots_le := h.slots_le
  slots k b hb m v hm hv := by
    have hle := (h.marks m (List.mem_of_getElem? hm)).2
    rw [List.take_append_of_le_length hle]
    exact h.slots k b hb m v hm hv

theorem Scanned.lookup {s : State} (h : Scanned s)
    (hlt : s.slots.length < syscallCount * latencySlots) :
    Scanned { s with
      slots := s.slots ++ [(ArrayMap.lookup s.hist (UInt32.ofNat s.slots.length)).getD 0]
      marks := s.marks ++ [s.counted.length] } where
  buckets := h.buckets
  before_le := h.before_le
  marks_length := by simp [h.marks_length]
  marks m hm := by
    rcases List.mem_append.mp hm with hm | hm
    · exact h.marks m hm
    · rw [List.mem_singleton.mp hm]
      exact ⟨h.before_le, le_rfl⟩
  slots_le := by simpa using hlt
  slots k b hb m v hm hv := by
    -- a slot read before, the one read now, or one still to be read
    rcases Nat.lt_trichotomy (index (k, b)) s.slots.length with hi | hi | hi
    · rw [List.getElem?_append_left (h.marks_length ▸ hi)] at hm
      rw [List.getElem?_append_left hi] at hv
      exact h.slots k b hb m v hm hv
    · rw [hi, ← h.marks_length, List.getElem?_concat_length] at hm
      rw [hi, List.getElem?_concat_length] at hv
      obtain rfl := Option.some.inj hm
      obtain rfl := Option.some.inj hv
      rw [← hi, List.take_length, ← h.buckets k b hb]
      rfl
    · rw [List.getElem?_eq_none (by simpa using hi)] at hv
      cases hv

theorem Scanned.step {s s' : State} {e : Event} (h : Scanned s)
    (hstep : LatencyLoop.step s e = some s') :
    Scanned s' := by
  cases e with
  | update u => exact Option.some.inj hstep ▸ h.update u
  | drop => exact Option.some.inj hstep ▸ ⟨h.1, h.2, h.3, h.4, h.5, h.6⟩
  | signal => exact Option.some.inj hstep ▸ ⟨h.1, h.2, h.3, h.4, h.5, h.6⟩
  | check expired nowNs =>
    obtain ⟨-, ⟨-, rfl⟩ | ⟨-, rfl⟩⟩ := check_cases hstep
    · exact ⟨h.1, h.2, h.3, h.4, h.5, h.6⟩
    · exact ⟨h.buckets, le_rfl, rfl, fun m hm => (List.not_mem_nil hm).elim, Nat.zero_le _,
        fun k b hb m v hm => by cases hm⟩
  | lookup =>
    obtain ⟨-, hlt, rfl⟩ := lookup_cases hstep
    exact h.lookup hlt
  | print =>
    obtain ⟨-, -, rfl⟩ := print_cases hstep
    exact ⟨h.1, h.2, h.3, h.4, h.5, h.6⟩
  | warn =>
    obtain ⟨-, rfl⟩ := warn_cases hstep
    exact ⟨h.1, h.2, h.3, h.4, h.5, h.6⟩
  | fail =>
    obtain ⟨-, rfl⟩ := fail_cases hstep
    exact ⟨h.1, h.2, h.3, h.4, h.5, h.6⟩

def readSamples (s : State) : List (SyscallKind × UInt64) :=
  CounterScan.seen key (fun c => s.marks.getD (index c) s.before) s.counted

/-- The counts and percentiles of a reading are those of these samples. -/
def Shows (slots : List UInt64) (samples : List (SyscallKind × UInt64)) : Prop :=
  ∀ k : SyscallKind, ∃ stats, stats = summarize (((histogram slots)[k.index.toNat]?).getD []) ∧
    stats.count = UInt64.ofNat (samplesOf k samples).length ∧
    stats.p50 = reported (samplesOf k samples) 50 ∧ stats.p95 = reported (samplesOf k samples) 95 ∧
    stats.p99 = reported (samplesOf k samples) 99

theorem index_lt (k : SyscallKind) {b : ℕ} (hb : b < histSlots) :
    index (k, b) < syscallCount * latencySlots :=
  (toNat_slotKey k (hb.trans (by decide : histSlots < latencySlots))).2

theorem countP_samplesOf (samples : List (SyscallKind × UInt64)) (k : SyscallKind) (b : ℕ) :
    (samplesOf k samples).countP (fun x => bucket x.toNat = b) =
      samples.countP fun x => key x = (k, b) := by
  rw [samplesOf, List.countP_filterMap]
  apply List.countP_congr
  rintro ⟨k', delta⟩ -
  by_cases hk : k' = k <;> simp [key, hk]

/-- A complete reading shows the buckets of the samples it has seen. -/
theorem Scanned.row {s : State} (h : Scanned s)
    (hlen : s.slots.length = syscallCount * latencySlots) (k : SyscallKind) {b : ℕ}
    (hb : b < histSlots) :
    s.slots.getD (index (k, b)) 0 =
      UInt64.ofNat ((samplesOf k (readSamples s)).countP fun x => bucket x.toNat = b) := by
  have hi := index_lt k hb
  have hslot : (index (k, b)) < s.slots.length := hlen ▸ hi
  have hmark : (index (k, b)) < s.marks.length := h.marks_length ▸ hslot
  have hread := h.slots k b hb _ _ (List.getElem?_eq_getElem hmark) (List.getElem?_eq_getElem hslot)
  rw [countP_samplesOf, readSamples, CounterScan.countP_seen, List.getD_eq_getElem _ _ hslot,
    List.getD_eq_getElem _ _ hmark]
  exact hread

theorem Scanned.shows {s : State} (h : Scanned s)
    (hlen : s.slots.length = syscallCount * latencySlots) :
    Shows s.slots (readSamples s) := by
  intro k
  let row := (List.range latencySlots).map fun i => s.slots.getD (index (k, i)) 0
  have hrow : ((histogram s.slots)[k.index.toNat]?).getD [] = row := by
    cases k <;> rfl
  have hmin : min histSlots row.length = histSlots := by simp [row]
  -- the buckets that were read are those of the samples behind the marks
  have htake : row.take histSlots = (NearestRank.bucketCounts bucket histSlots
      ((samplesOf k (readSamples s)).map UInt64.toNat)).map UInt64.ofNat := by
    rw [← List.map_take, List.take_range, NearestRank.bucketCounts, List.map_map,
      Nat.min_eq_left (by decide)]
    apply List.map_congr_left
    intro b hb
    rw [h.row hlen k (List.mem_range.mp hb), Function.comp_apply, List.countP_map]
    rfl
  have hcount : ((NearestRank.bucketCounts bucket histSlots
      ((samplesOf k (readSamples s)).map UInt64.toNat)).map UInt64.ofNat).sum =
        UInt64.ofNat (samplesOf k (readSamples s)).length := by
    rw [sum_map_ofNat, NearestRank.sum_bucketCounts bucket_lt, List.length_map]
  rw [hrow]
  refine ⟨_, rfl, ?_⟩
  simp only [summarize, hmin, htake, hcount, reported]
  exact ⟨trivial, rfl, rfl, rfl⟩

/-- What a table is printed from: the counters, the samples that were counted before
the first of them was read, and those that are counted when the last one has been. -/
structure Reading where
  slots : List UInt64
  before : List (SyscallKind × UInt64)
  counted : List (SyscallKind × UInt64)

/-- The counters of this reading are those of the samples `seen`. -/
structure Reading.Sees (r : Reading) (seen : List (SyscallKind × UInt64)) : Prop where
  shows : Shows r.slots seen
  before : r.before.Sublist seen
  counted : seen.Sublist r.counted

def readings (s : State) : Event → List Reading
  | .print => [⟨s.slots, s.counted.take s.before, s.counted⟩]
  | _ => []

def State.limit (s : State) : List (SyscallKind × UInt64) :=
  if s.pc = .reading then s.counted.take s.before else s.counted

theorem limit_sublist (s : State) : s.limit.Sublist s.counted := by
  unfold State.limit
  split_ifs
  · exact List.take_sublist _ _
  · exact List.Sublist.refl _

theorem limit_step {s s' : State} {e : Event} (h : Scanned s) (hstep : step s e = some s') :
    s.limit.Sublist s'.limit := by
  cases e with
  -- while a reading is under way the samples behind its start do not move
  | update u =>
    obtain rfl := Option.some.inj hstep
    unfold State.limit
    split_ifs
    · rw [List.take_append_of_le_length h.before_le]
    · exact List.sublist_append_left _ _
  | drop => exact Option.some.inj hstep ▸ List.Sublist.refl _
  | signal => exact Option.some.inj hstep ▸ List.Sublist.refl _
  | check expired nowNs =>
    obtain ⟨hpc, ⟨-, rfl⟩ | ⟨-, rfl⟩⟩ := check_cases hstep
    · simp [State.limit, hpc]
    · simp [State.limit, hpc]
  | lookup =>
    obtain ⟨-, -, rfl⟩ := lookup_cases hstep
    exact List.Sublist.refl _
  | print =>
    obtain ⟨-, -, rfl⟩ := print_cases hstep
    exact limit_sublist s
  | warn =>
    obtain ⟨hpc, rfl⟩ := warn_cases hstep
    simp [State.limit, hpc]
  | fail =>
    obtain ⟨-, rfl⟩ := fail_cases hstep
    exact limit_sublist s

/-- The tables printed so far, and for each of them the samples that it shows. -/
structure Printed (es : List Event) (s : State) (seens : List (List (SyscallKind × UInt64))) :
    Prop where
  sees : List.Forall₂ Reading.Sees (outputs step readings .start es) seens
  grow : seens.Pairwise List.Sublist
  limit : ∀ seen ∈ seens, seen.Sublist s.limit

theorem Printed.step {es : List Event} {s s' : State} {e : Event}
    {seens : List (List (SyscallKind × UInt64))} (h : Printed es s seens) (hscanned : Scanned s)
    (hrun : run step .start es = some s) (hstep : LatencyLoop.step s e = some s') :
    ∃ seens', Printed (es ++ [e]) s' seens' := by
  have hlimit := limit_step hscanned hstep
  by_cases he : e = .print
  · subst he
    obtain ⟨hpc, hlen, rfl⟩ := print_cases hstep
    -- every mark of this reading lies behind the samples counted at its start
    have hbefore : (s.counted.take s.before).Sublist (readSamples s) := by
      apply CounterScan.take_sublist_seen
      intro c
      cases hm : s.marks[index c]? with
      | none => rw [List.getD_eq_getElem?_getD, hm, Option.getD_none]
      | some m =>
        rw [List.getD_eq_getElem?_getD, hm, Option.getD_some]
        exact (hscanned.marks m (List.mem_of_getElem? hm)).1
    -- the tables before it show only samples counted before that start
    have hold : ∀ seen ∈ seens, seen.Sublist (readSamples s) := by
      intro seen hseen
      have hseen := h.limit seen hseen
      rw [State.limit, if_pos hpc] at hseen
      exact hseen.trans hbefore
    have hseen : (readSamples s).Sublist s.counted := CounterScan.seen_sublist _ _ _
    refine ⟨seens ++ [readSamples s], ?_, ?_, ?_⟩
    · rw [outputs_concat hrun hstep]
      exact List.rel_append h.sees (.cons ⟨hscanned.shows hlen, hbefore, hseen⟩ .nil)
    · rw [List.pairwise_append]
      exact ⟨h.grow, List.pairwise_singleton _ _, fun seen hseen last hlast =>
        List.mem_singleton.mp hlast ▸ hold seen hseen⟩
    · intro seen hseen
      rcases List.mem_append.mp hseen with hseen | hseen
      · exact (h.limit seen hseen).trans hlimit
      · rw [List.mem_singleton.mp hseen]
        exact CounterScan.seen_sublist _ _ _
  · have hnone : readings s e = [] := by
      cases e with
      | print => exact absurd rfl he
      | update | drop | signal | check | lookup | warn | fail => rfl
    refine ⟨seens, ?_, h.grow, fun seen hseen => (h.limit seen hseen).trans hlimit⟩
    rw [outputs_concat hrun hstep, hnone, List.append_nil]
    exact h.sees

theorem exists_printed {es : List Event} {s : State} (hrun : run step .start es = some s) :
    Scanned s ∧ ∃ seens, Printed es s seens := by
  refine run_history (P := fun es s => Scanned s ∧ ∃ seens, Printed es s seens)
    (fun past s e s' hpast hs hstep => ?_) hrun
    ⟨scanned_start, [], .nil, List.Pairwise.nil, fun _ h => (List.not_mem_nil h).elim⟩
  obtain ⟨hscanned, seens, hprinted⟩ := hs
  exact ⟨hscanned.step hstep, hprinted.step hscanned hpast hstep⟩

/-- Although the counters change while they are read, every table shows the count
and the percentiles of a set of samples: at least those counted before its reading
began, at most those counted when it ended, and never fewer than in the table before. -/
theorem tables_show_samples (es : List Event) (s : State) (hrun : run step .start es = some s) :
    ∃ seens, List.Forall₂ Reading.Sees (outputs step readings .start es) seens ∧
      seens.Pairwise List.Sublist ∧ ∀ seen ∈ seens, seen.Sublist s.counted := by
  obtain ⟨-, seens, hprinted⟩ := exists_printed hrun
  exact ⟨seens, hprinted.sees, hprinted.grow, fun seen hseen =>
    (hprinted.limit seen hseen).trans (limit_sublist s)⟩

def twoReads : List Event :=
  .update (.addCount .read 5) :: .update (.addSum .read 5) :: .check false 0 ::
    .lookup :: .lookup ::
    .update (.addCount .read 5) :: List.replicate 100 Event.lookup ++
      [Event.print, Event.update (.addSum .read 5), Event.warn]

theorem tables_show_samples_two_reads :
    ∃ s, run step .start twoReads = some s ∧
      ∃ seens, List.Forall₂ Reading.Sees (outputs step readings .start twoReads) seens ∧
        seens.Pairwise List.Sublist ∧ ∀ seen ∈ seens, seen.Sublist s.counted := by
  obtain ⟨s, hs⟩ := Option.isSome_iff_exists.mp
    (show (run step .start twoReads).isSome = true by decide +kernel)
  exact ⟨s, hs, tables_show_samples twoReads s hs⟩

theorem counted_step {s s' : State} {e : Event} (hstep : step s e = some s') :
    s.counted.Sublist s'.counted := by
  cases e with
  | update u =>
    obtain rfl := Option.some.inj hstep
    exact List.sublist_append_left _ _
  | drop | signal => exact Option.some.inj hstep ▸ List.Sublist.refl _
  | check expired nowNs =>
    obtain ⟨-, ⟨-, rfl⟩ | ⟨-, rfl⟩⟩ := check_cases hstep
    · exact List.Sublist.refl _
    · exact List.Sublist.refl _
  | lookup =>
    obtain ⟨-, -, rfl⟩ := lookup_cases hstep
    exact List.Sublist.refl _
  | print =>
    obtain ⟨-, -, rfl⟩ := print_cases hstep
    exact List.Sublist.refl _
  | warn =>
    obtain ⟨-, rfl⟩ := warn_cases hstep
    exact List.Sublist.refl _
  | fail =>
    obtain ⟨-, rfl⟩ := fail_cases hstep
    exact List.Sublist.refl _

def JsonLineOf (kind : SyscallKind) (samples : List UInt64) (line : List Char) : Prop :=
  ∃ time mean max, IsJsonLine line
    [("event", .string "latency"), ("time", .string time), ("syscall", .string kind.name),
      ("count", .ofNat (samples.length % 2 ^ 64)),
      ("p50", .string (formatNs (reported samples 50))),
      ("p95", .string (formatNs (reported samples 95))),
      ("p99", .string (formatNs (reported samples 99))),
      ("mean", .string mean), ("max", .string max)]

theorem jsonLineOf_row {s : State} (h : Scanned s)
    (hlen : s.slots.length = syscallCount * latencySlots) (kind : SyscallKind) :
    JsonLineOf kind (samplesOf kind (readSamples s))
      (Latency.row .json (Events.clockTime s.nowNs) kind
        (summarize (((histogram s.slots)[kind.index.toNat]?).getD []))) := by
  obtain ⟨stats, hstats, hcount, hp50, hp95, hp99⟩ := h.shows hlen kind
  have hline := Latency.row_json s.nowNs kind stats
  rw [hp50, hp95, hp99, hcount, UInt64.toNat_ofNat'] at hline
  rw [← hstats]
  exact ⟨_, _, _, hline⟩

/-- Each line of `latency --json` is an object that gives the count and the
percentiles of samples of its system call that were counted. -/
theorem json_lines_show_samples (kinds : List SyscallKind) (es : List Event)
    (s : State) (hrun : run step .start es = some s) :
    ∀ line ∈ outputs step (printed .json kinds) .start es, ∃ kind ∈ kinds,
      ∃ samples, samples.Sublist (samplesOf kind s.counted) ∧ JsonLineOf kind samples line := by
  refine (run_history (P := fun es s => Scanned s ∧
      ∀ line ∈ outputs step (printed .json kinds) .start es, ∃ kind ∈ kinds,
        ∃ samples, samples.Sublist (samplesOf kind s.counted) ∧ JsonLineOf kind samples line)
    (fun past s e s' hpast hs hstep => ?_) hrun
    ⟨scanned_start, fun line hline => (List.not_mem_nil hline).elim⟩).2
  obtain ⟨hscanned, hlines⟩ := hs
  refine ⟨hscanned.step hstep, ?_⟩
  rw [outputs_concat hpast hstep]
  intro line hline
  rcases List.mem_append.mp hline with hline | hline
  · obtain ⟨kind, hkind, samples, hsub, hof⟩ := hlines line hline
    exact ⟨kind, hkind, samples, hsub.trans ((counted_step hstep).filterMap _), hof⟩
  · cases e with
    | print =>
      obtain ⟨-, hlen, rfl⟩ := print_cases hstep
      obtain ⟨kind, hkind, rfl⟩ := List.mem_map.mp hline
      exact ⟨kind, hkind, _, (CounterScan.seen_sublist _ _ _).filterMap _,
        jsonLineOf_row hscanned hlen kind⟩
    | update | drop | signal | check | lookup | warn | fail => exact (List.not_mem_nil hline).elim

theorem json_lines_show_samples_two_reads :
    ∃ s, run step .start twoReads = some s ∧
      ∀ line ∈ outputs step (printed .json [.read]) .start twoReads, ∃ kind ∈ [.read],
        ∃ samples, samples.Sublist (samplesOf kind s.counted) ∧
          JsonLineOf kind samples line := by
  obtain ⟨s, hs⟩ := Option.isSome_iff_exists.mp
    (show (run step .start twoReads).isSome = true by decide +kernel)
  exact ⟨s, hs, json_lines_show_samples [.read] twoReads s hs⟩

def Event.isTurn : Event → Bool
  | .check _ _ | .lookup | .print | .warn | .fail => true
  | .update _ | .drop | .signal => false

def Event.isPrint : Event → Bool
  | .print => true
  | _ => false

/-- How many of its steps are left once `RUNNING` is cleared, and how many tables. -/
def State.turnsLeft (s : State) : ℕ :=
  match s.pc with
  | .reading => syscallCount * latencySlots - s.slots.length + 3
  | .warn => 2
  | .check => 1
  | .done | .failed => 0

def State.tablesLeft (s : State) : ℕ := if s.pc = .reading then 1 else 0

theorem stopped_step {s s' : State} {e : Event} (hstopped : s.running = false)
    (h : step s e = some s') :
    s'.running = false ∧ s'.turnsLeft + (if e.isTurn then 1 else 0) ≤ s.turnsLeft ∧
      s'.tablesLeft + (if e.isPrint then 1 else 0) ≤ s.tablesLeft := by
  cases e with
  | update u =>
    obtain rfl := Option.some.inj h
    exact ⟨hstopped, le_rfl, le_rfl⟩
  | drop =>
    obtain rfl := Option.some.inj h
    exact ⟨hstopped, le_rfl, le_rfl⟩
  | signal =>
    obtain rfl := Option.some.inj h
    exact ⟨rfl, le_rfl, le_rfl⟩
  | check expired nowNs =>
    obtain ⟨hpc, ⟨-, rfl⟩ | ⟨hgo, -⟩⟩ := check_cases h
    · simp [State.turnsLeft, State.tablesLeft, hpc, hstopped, Event.isTurn, Event.isPrint]
    · simp [EventLoop.shouldStop, hstopped] at hgo
  | lookup =>
    obtain ⟨hpc, hlt, rfl⟩ := lookup_cases h
    refine ⟨hstopped, ?_, by simp [State.tablesLeft, Event.isPrint, hpc]⟩
    -- each lookup takes one of the 102 that a reading makes
    simp only [State.turnsLeft, hpc, List.length_append, List.length_singleton,
      Event.isTurn, if_true]
    omega
  | print =>
    obtain ⟨hpc, hlen, rfl⟩ := print_cases h
    simp [State.turnsLeft, State.tablesLeft, hpc, hstopped, Event.isTurn, Event.isPrint]
  | warn =>
    obtain ⟨hpc, rfl⟩ := warn_cases h
    simp [State.turnsLeft, State.tablesLeft, hpc, hstopped, Event.isTurn, Event.isPrint]
  | fail =>
    obtain ⟨hpc, rfl⟩ := fail_cases h
    refine ⟨hstopped, ?_, by simp [State.tablesLeft, Event.isPrint]⟩
    rcases hpc with ⟨hpc, hlt⟩ | hpc
    · simp only [State.turnsLeft, hpc, Event.isTurn, if_true]
      omega
    · simp [State.turnsLeft, hpc, Event.isTurn]

/-- The loop is never stuck: it has ended or has a next step. -/
theorem turn_enabled {s : State} (hle : s.slots.length ≤ syscallCount * latencySlots) :
    s.pc = .done ∨ s.pc = .failed ∨ ∃ e, e.isTurn = true ∧ (step s e).isSome := by
  cases hpc : s.pc with
  | done => exact .inl rfl
  | failed => exact .inr (.inl rfl)
  | check =>
    refine .inr (.inr ⟨.check true 0, rfl, ?_⟩)
    simp only [step, hpc, ne_eq, not_true_eq_false, if_false]
    split <;> rfl
  | warn => exact .inr (.inr ⟨.warn, rfl, by simp [step, hpc]⟩)
  | reading =>
    rcases Nat.lt_or_eq_of_le hle with hlt | hlen
    · exact .inr (.inr ⟨.lookup, rfl, by simp only [step, hpc, hlt, and_self, if_true]; rfl⟩)
    · exact .inr (.inr ⟨.print, rfl, by simp only [step, hpc, hlen, and_self, if_true]; rfl⟩)

theorem turnsLeft_le (s : State) :
    s.tablesLeft ≤ 1 ∧ s.turnsLeft ≤ syscallCount * latencySlots + 3 := by
  unfold State.tablesLeft State.turnsLeft
  cases s.pc <;> simp

/-- After a signal `tracelet latency` prints at most the table whose counters it
is reading, and ends within the lookups that are left and three more steps. -/
theorem one_table_after_signal (es es' : List Event) (s t : State)
    (hbefore : run step .start es = some t) (hafter : run step t (.signal :: es') = some s) :
    (s.tablesLeft + es'.countP Event.isPrint ≤ t.tablesLeft ∧ t.tablesLeft ≤ 1) ∧
      (s.turnsLeft + es'.countP Event.isTurn ≤ t.turnsLeft ∧
        t.turnsLeft ≤ syscallCount * latencySlots + 3) ∧
      (s.pc = .done ∨ s.pc = .failed ∨ ∃ e, e.isTurn = true ∧ (step s e).isSome) := by
  obtain ⟨u, hu, hrest⟩ := run_cons_eq_some.mp hafter
  obtain rfl := Option.some.inj hu
  have hscanned : Scanned t :=
    run_invariant (fun s e s' h hstep => h.step hstep) hbefore scanned_start
  have hscanned' : Scanned s :=
    run_invariant (fun s e s' h hstep => h.step hstep) hafter hscanned
  -- the signal itself leaves the counters and the place in the loop as they are
  have hturns : s.turnsLeft + es'.countP Event.isTurn ≤
      State.turnsLeft { t with running := false } :=
    countP_add_le (I := fun s => s.running = false) (k := Event.isTurn) (f := State.turnsLeft)
      (fun s e s' hs h => ⟨(stopped_step hs h).1, (stopped_step hs h).2.1⟩) hrest rfl
  have htables : s.tablesLeft + es'.countP Event.isPrint ≤
      State.tablesLeft { t with running := false } :=
    countP_add_le (I := fun s => s.running = false) (k := Event.isPrint) (f := State.tablesLeft)
      (fun s e s' hs h => ⟨(stopped_step hs h).1, (stopped_step hs h).2.2⟩) hrest rfl
  exact ⟨⟨htables, (turnsLeft_le t).1⟩, ⟨hturns, (turnsLeft_le t).2⟩,
    turn_enabled hscanned'.slots_le⟩

def restOfTurn : List Event :=
  List.replicate 100 Event.lookup ++ [Event.print, Event.warn, Event.check false 0]

theorem one_table_after_signal_reading :
    ∃ s t, run step .start [.check false 0, .lookup, .lookup] = some t ∧
      run step t (.signal :: restOfTurn) = some s ∧
      (s.tablesLeft + restOfTurn.countP Event.isPrint ≤ t.tablesLeft ∧ t.tablesLeft ≤ 1) ∧
      (s.turnsLeft + restOfTurn.countP Event.isTurn ≤ t.turnsLeft ∧
        t.turnsLeft ≤ syscallCount * latencySlots + 3) ∧
      (s.pc = .done ∨ s.pc = .failed ∨ ∃ e, e.isTurn = true ∧ (step s e).isSome) := by
  obtain ⟨t, ht⟩ := Option.isSome_iff_exists.mp (show (run step .start
    [.check false 0, .lookup, .lookup]).isSome = true by decide)
  obtain ⟨s, hs⟩ := Option.isSome_iff_exists.mp (show ((run step .start
    [.check false 0, .lookup, .lookup]).bind fun t => run step t (.signal :: restOfTurn)).isSome =
      true
    by decide +kernel)
  rw [ht, Option.bind_some] at hs
  exact ⟨s, t, ht, hs, one_table_after_signal _ restOfTurn s t ht hs⟩

end LatencyLoop

end Tracelet
