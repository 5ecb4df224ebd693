import Tracelet.Collector
import Tracelet.EventLoop
import Tracelet.Hist

namespace Tracelet
open ByteMemory KernelMap

namespace Collector

abbrev Lookup := Option (Option (List UInt8))

/-- `read_drop_key`. An error is passed on; a value of another size counts as `0`. -/
def readDropKey : Lookup → Option UInt64
  | some (some value) => if value.length = 8 then some (u64At value 0) else some 0
  | some none => some 0
  | none => none

/-- `warn_on_drops`. Both counters are read before anything is stored. -/
def warnOnDrops (ringbuf latency : Lookup) (seen : UInt64 × UInt64) : Option (UInt64 × UInt64) := do
  let ringbuf ← readDropKey ringbuf
  let latency ← readDropKey latency
  return (if ringbuf > seen.1 then ringbuf else seen.1,
    if latency > seen.2 then latency else seen.2)

/-- `refresh_latency`. -/
def refreshLatency (shared : Shared) (map : Bpf.LatencyHist) : Shared :=
  { shared with
    latency := (List.range syscallCount).map fun syscall =>
      (List.range latencySlots).map fun slot =>
        (ArrayMap.lookup map
          (UInt32.ofNat syscall * UInt32.ofNat latencySlots + UInt32.ofNat slot)).getD 0 }

/-- What one turn of the loop gets from outside. -/
structure Iteration where
  records : List (List UInt8)
  ringbuf : Lookup
  latency : Lookup
  hist : Bpf.LatencyHist

structure Loop where
  shared : Shared
  dropsSeen : UInt64 × UInt64

def Loop.start (started : ℕ) : Loop := ⟨{ started := some started }, (0, 0)⟩

/-- One turn. `dropped` is raised to the counts of the turns before. The mutex is never
poisoned. -/
def Loop.iterate (bootOffsetNs : UInt64) (s : Loop) (it : Iteration) : Loop :=
  let shared := it.records.foldl (fun shared data => shared.receive data bootOffsetNs) s.shared
  let total := s.dropsSeen.1 + s.dropsSeen.2
  let shared := if total > shared.dropped then { shared with dropped := total } else shared
  let dropsSeen := (warnOnDrops it.ringbuf it.latency s.dropsSeen).getD s.dropsSeen
  ⟨refreshLatency shared it.hist, dropsSeen⟩

def Loop.run (bootOffsetNs : UInt64) (started : ℕ) (its : List Iteration) : Loop :=
  its.foldl (Loop.iterate bootOffsetNs) (.start started)

/-- The two counts of a turn, if both lookups succeed. -/
def Iteration.reading (it : Iteration) : Option (UInt64 × UInt64) := do
  let ringbuf ← readDropKey it.ringbuf
  let latency ← readDropKey it.latency
  return (ringbuf, latency)

def largest (count : UInt64 × UInt64 → UInt64) (its : List Iteration) : ℕ :=
  (its.filterMap Iteration.reading).foldl (fun n r => max n (count r).toNat) 0

/-- The kernel's drops, as these turns read them: the largest ring-buffer count
and the largest latency count. -/
def kernelDrops (its : List Iteration) : ℕ := largest Prod.fst its + largest Prod.snd its

def delivered (its : List Iteration) : List (List UInt8) := its.flatMap Iteration.records

theorem largest_append (count : UInt64 × UInt64 → UInt64) (its : List Iteration) (it : Iteration) :
    largest count (its ++ [it]) =
      match it.reading with
      | some r => max (largest count its) (count r).toNat
      | none => largest count its := by
  unfold largest
  rw [List.filterMap_append, List.foldl_append]
  cases hr : it.reading with
  | some r => simp [hr]
  | none => simp [hr]

theorem largest_le_append (count : UInt64 × UInt64 → UInt64) (its : List Iteration)
    (it : Iteration) :
    largest count its ≤ largest count (its ++ [it]) := by
  rw [largest_append]
  split
  · exact le_max_left _ _
  · exact le_rfl

theorem kernelDrops_le_append (its : List Iteration) (it : Iteration) :
    kernelDrops its ≤ kernelDrops (its ++ [it]) :=
  Nat.add_le_add (largest_le_append _ its it) (largest_le_append _ its it)

/-- When both lookups find a counter, the loop reads the drops as the other
commands do. -/
theorem warnOnDrops_of_found {ringbuf latency : List UInt8} (map : ArrayMap UInt64 3)
    (seen : UInt64 × UInt64)
    (hringbuf : readDropKey (some (some ringbuf)) = some (Stats.readDropKey map 0))
    (hlatency : readDropKey (some (some latency)) = some (Stats.readDropKey map 1)) :
    warnOnDrops (some (some ringbuf)) (some (some latency)) seen =
      some (Stats.warnOnDrops map seen) := by
  rw [warnOnDrops, hringbuf, hlatency]
  rfl

theorem warnOnDrops_eq (it : Iteration) (seen : UInt64 × UInt64) :
    warnOnDrops it.ringbuf it.latency seen = it.reading.map fun r =>
      (if r.1 > seen.1 then r.1 else seen.1, if r.2 > seen.2 then r.2 else seen.2) := by
  unfold warnOnDrops Iteration.reading
  cases readDropKey it.ringbuf <;> cases readDropKey it.latency <;> rfl

section Turn

variable (off : UInt64) (started : ℕ) (its : List Iteration) (it : Iteration)

theorem run_append :
    Loop.run off started (its ++ [it]) = (Loop.run off started its).iterate off it := by
  rw [Loop.run, List.foldl_append]
  rfl

theorem toNat_ite_gt (a b : UInt64) : (if a > b then a else b).toNat = max b.toNat a.toNat := by
  split
  case isTrue h => exact (max_eq_right (UInt64.le_of_lt h)).symm
  case isFalse h => exact (max_eq_left (UInt64.not_lt.mp h)).symm

theorem dropsSeen_run :
    (Loop.run off started its).dropsSeen.1.toNat = largest Prod.fst its ∧
      (Loop.run off started its).dropsSeen.2.toNat = largest Prod.snd its := by
  induction its using List.reverseRecOn with
  | nil => exact ⟨rfl, rfl⟩
  | append_singleton its it ih =>
    rw [run_append, largest_append, largest_append]
    simp only [Loop.iterate, warnOnDrops_eq]
    cases it.reading with
    | some r =>
      simp only [Option.map_some, Option.getD_some, toNat_ite_gt, ih, and_self]
    | none => exact ih

theorem dropped_receive (shared : Shared) (data : List UInt8) :
    (shared.receive data off).dropped = shared.dropped := by
  unfold Shared.receive
  split <;> rfl

theorem dropped_foldl_receive (records : List (List UInt8)) (shared : Shared) :
    (records.foldl (fun shared data => shared.receive data off) shared).dropped =
    shared.dropped := by
  induction records generalizing shared with
  | nil => rfl
  | cons data records ih => rw [List.foldl_cons, ih, dropped_receive]

/-- The dropped counter is raised to what the turns before have seen. -/
theorem dropped_iterate (s : Loop) :
    (s.iterate off it).shared.dropped =
      if s.dropsSeen.1 + s.dropsSeen.2 > s.shared.dropped then s.dropsSeen.1 + s.dropsSeen.2
      else s.shared.dropped := by
  simp only [Loop.iterate, refreshLatency, dropped_foldl_receive]
  split
  · rfl
  · exact dropped_foldl_receive off it.records s.shared

variable {its} (hfits : kernelDrops its < 2 ^ 64)
include hfits

theorem toNat_total :
    ((Loop.run off started its).dropsSeen.1 + (Loop.run off started its).dropsSeen.2).toNat =
      kernelDrops its := by
  obtain ⟨hringbuf, hlatency⟩ := dropsSeen_run off started its
  rw [UInt64.toNat_add, hringbuf, hlatency]
  exact Nat.mod_eq_of_lt hfits

theorem dropped_run_le : (Loop.run off started its).shared.dropped.toNat ≤ kernelDrops its := by
  induction its using List.reverseRecOn with
  | nil => exact Nat.zero_le _
  | append_singleton its it ih =>
    have hle := kernelDrops_le_append its it
    have hfits' : kernelDrops its < 2 ^ 64 := hle.trans_lt hfits
    rw [run_append, dropped_iterate, toNat_ite_gt, toNat_total off started hfits']
    exact max_le ((ih hfits').trans hle) hle

/-- After a turn the counter is what the turns before it have read. -/
theorem toNat_dropped_iterate :
    ((Loop.run off started its).iterate off it).shared.dropped.toNat = kernelDrops its := by
  rw [dropped_iterate, toNat_ite_gt, toNat_total off started hfits]
  exact max_eq_right (dropped_run_le off started hfits)

end Turn

/-- After the turn the counter has the largest counts read so far, it has not
decreased, and a turn with a failed lookup has changed nothing. -/
structure DropsCurrent (s s' : Loop) (its : List Iteration) (it : Iteration) : Prop where
  current : s'.shared.dropped.toNat = kernelDrops (its ++ [it])
  monotone : s.shared.dropped ≤ s'.shared.dropped
  unchanged : it.reading = none →
    s'.dropsSeen = s.dropsSeen ∧ s'.shared.dropped = s.shared.dropped

/-- The turn reads no larger count than the turns before; if a lookup fails in
it, the dropped counter already has what they have seen. -/
def NothingNew (s : Loop) (it : Iteration) : Prop :=
  match it.reading with
  | some r => r.1 ≤ s.dropsSeen.1 ∧ r.2 ≤ s.dropsSeen.2
  | none => s.dropsSeen.1 + s.dropsSeen.2 ≤ s.shared.dropped

theorem kernelDrops_append_eq_iff (off : UInt64) (started : ℕ) (its : List Iteration)
    (it : Iteration) {r : UInt64 × UInt64} (hr : it.reading = some r) :
    kernelDrops its = kernelDrops (its ++ [it]) ↔
      r.1 ≤ (Loop.run off started its).dropsSeen.1 ∧
        r.2 ≤ (Loop.run off started its).dropsSeen.2 := by
  obtain ⟨hringbuf, hlatency⟩ := dropsSeen_run off started its
  rw [UInt64.le_iff_toNat_le, UInt64.le_iff_toNat_le, hringbuf, hlatency]
  simp only [kernelDrops, largest_append, hr]
  omega

section OneMore

variable (off : UInt64) (started : ℕ) {its : List Iteration} {it : Iteration}
  (hfits : kernelDrops its < 2 ^ 64)
include hfits

theorem dropped_run_le_iterate : (Loop.run off started its).shared.dropped ≤
    ((Loop.run off started its).iterate off it).shared.dropped := by
  rw [UInt64.le_iff_toNat_le, toNat_dropped_iterate off started it hfits]
  exact dropped_run_le off started hfits

theorem dropsCurrent_iff_of_reading {r : UInt64 × UInt64} (hr : it.reading = some r) :
    DropsCurrent (Loop.run off started its) (Loop.run off started (its ++ [it])) its it ↔
      r.1 ≤ (Loop.run off started its).dropsSeen.1 ∧
        r.2 ≤ (Loop.run off started its).dropsSeen.2 := by
  have hdropped := toNat_dropped_iterate off started it hfits
  rw [run_append, ← kernelDrops_append_eq_iff off started its it hr]
  constructor
  · intro h
    exact hdropped.symm.trans h.current
  · intro h
    refine ⟨hdropped.trans h, dropped_run_le_iterate off started hfits, fun hnone => ?_⟩
    rw [hr] at hnone
    cases hnone

theorem dropsCurrent_iff_of_failure (hr : it.reading = none) :
    DropsCurrent (Loop.run off started its) (Loop.run off started (its ++ [it])) its it ↔
      (Loop.run off started its).dropsSeen.1 + (Loop.run off started its).dropsSeen.2 ≤
        (Loop.run off started its).shared.dropped := by
  have hdropped := toNat_dropped_iterate off started it hfits
  have hbound := dropped_run_le off started hfits
  have hsame : kernelDrops (its ++ [it]) = kernelDrops its := by
    simp only [kernelDrops, largest_append, hr]
  have hseen : ((Loop.run off started its).iterate off it).dropsSeen =
      (Loop.run off started its).dropsSeen := by
    simp only [Loop.iterate, warnOnDrops_eq, hr, Option.map_none, Option.getD_none]
  -- the turn raises `dropped` to what was seen before, so it stays if that is no more
  have hle : ((Loop.run off started its).iterate off it).shared.dropped =
        (Loop.run off started its).shared.dropped ↔
      (Loop.run off started its).dropsSeen.1 + (Loop.run off started its).dropsSeen.2 ≤
        (Loop.run off started its).shared.dropped := by
    rw [UInt64.le_iff_toNat_le, toNat_total off started hfits, ← UInt64.toNat_inj, hdropped]
    omega
  rw [run_append, ← hle]
  constructor
  · intro h
    exact (h.unchanged hr).2
  · intro h
    exact ⟨hdropped.trans hsame.symm, dropped_run_le_iterate off started hfits, fun _ => ⟨hseen, h⟩⟩

theorem dropsCurrent_iff :
    DropsCurrent (Loop.run off started its) (Loop.run off started (its ++ [it])) its it ↔
      NothingNew (Loop.run off started its) it := by
  unfold NothingNew
  cases hr : it.reading with
  | some r => exact dropsCurrent_iff_of_reading off started hfits hr
  | none => exact dropsCurrent_iff_of_failure off started hfits hr

end OneMore

def EveryTurn (P : List Iteration → Iteration → Prop) (its : List Iteration) : Prop :=
  ∀ past it, past ++ [it] <+: its → P past it

theorem kernelDrops_le_of_prefix {its its' : List Iteration} (h : its <+: its') :
    kernelDrops its ≤ kernelDrops its' := by
  obtain ⟨rest, rfl⟩ := h
  induction rest using List.reverseRecOn with
  | nil => rw [List.append_nil]
  | append_singleton rest it ih =>
    rw [← List.append_assoc]
    exact ih.trans (kernelDrops_le_append _ it)

theorem everyTurn_append {P : List Iteration → Iteration → Prop} (its : List Iteration)
    (it : Iteration) : EveryTurn P (its ++ [it]) ↔ EveryTurn P its ∧ P its it := by
  constructor
  · intro h
    exact ⟨fun past t ht => h past t (ht.trans (List.prefix_append its [it])),
      h its it (List.prefix_refl _)⟩
  · rintro ⟨hall, hlast⟩ past t ht
    rcases List.prefix_concat_iff.mp ht with heq | hprefix
    · obtain ⟨rfl, hit⟩ := List.append_inj' heq rfl
      rwa [List.singleton_inj.mp hit]
    · exact hall past t hprefix

def NoDrops (its : List Iteration) : Prop := ∀ it ∈ its, ∀ r, it.reading = some r → r = (0, 0)

theorem NoDrops.dropsSeen {its : List Iteration} (h : NoDrops its) (off : UInt64) (started : ℕ) :
    (Loop.run off started its).dropsSeen = (0, 0) := by
  induction its using List.reverseRecOn with
  | nil => rfl
  | append_singleton its it ih =>
    have hseen := ih fun t ht => h t (List.mem_append_left _ ht)
    rw [run_append]
    simp only [Loop.iterate, warnOnDrops_eq, hseen]
    cases hr : it.reading with
    | none => rfl
    | some r =>
      rw [h it (List.mem_append_right _ List.mem_cons_self) r hr]
      rfl

theorem everyTurn_nothingNew_iff (off : UInt64) (started : ℕ) (its : List Iteration) :
    EveryTurn (fun past it => NothingNew (Loop.run off started past) it) its ↔ NoDrops its := by
  induction its using List.reverseRecOn with
  | nil => exact iff_of_true (fun past it h => by simp at h) (fun it h => by cases h)
  | append_singleton its it ih =>
    rw [everyTurn_append, ih]
    have happend : NoDrops (its ++ [it]) ↔ NoDrops its ∧ ∀ r, it.reading = some r → r = (0, 0) := by
      unfold NoDrops
      rw [List.forall_mem_append, List.forall_mem_singleton]
    rw [happend]
    apply and_congr_right
    intro hnone
    rw [NothingNew, hnone.dropsSeen off started]
    cases it.reading with
    | none => simp
    | some r => simp [Prod.ext_iff]

/-- After each turn of a run the dropped counter is current exactly if the turn
brought nothing new, and after every one of them exactly if no drops were read. -/
theorem dropped_current_iff (off : UInt64) (started : ℕ) (its : List Iteration)
    (hfits : kernelDrops its < 2 ^ 64) :
    EveryTurn (fun past it =>
        DropsCurrent (Loop.run off started past) (Loop.run off started (past ++ [it])) past it ↔
          NothingNew (Loop.run off started past) it) its ∧
      (EveryTurn (fun past it =>
        DropsCurrent (Loop.run off started past) (Loop.run off started (past ++ [it])) past it)
          its ↔
          NoDrops its) := by
  have hturn : ∀ past it, past ++ [it] <+: its →
      (DropsCurrent (Loop.run off started past) (Loop.run off started (past ++ [it])) past it ↔
        NothingNew (Loop.run off started past) it) := by
    intro past it hprefix
    have hle := kernelDrops_le_of_prefix ((List.prefix_append past [it]).trans hprefix)
    exact dropsCurrent_iff off started (hle.trans_lt hfits)
  refine ⟨hturn, ?_⟩
  rw [← everyTurn_nothingNew_iff off started]
  exact forall₃_congr hturn

def turn (records : List (List UInt8)) (ringbuf : UInt64) : Iteration where
  records := records
  ringbuf := some (some (leBytes 8 ringbuf.toNat))
  latency := some none
  hist := Vector.replicate _ 0

theorem dropped_current_iff_same_reading :
    DropsCurrent (Loop.run 0 0 [turn [] 5]) (Loop.run 0 0 [turn [] 5, turn [] 5]) [turn [] 5]
        (turn [] 5) ↔ NothingNew (Loop.run 0 0 [turn [] 5]) (turn [] 5) :=
  (dropped_current_iff 0 0 [turn [] 5, turn [] 5] (by decide)).1 _ _ (List.prefix_refl _)

/-- The first turn reads five drops, and the counter stays at zero. -/
theorem dropped_stale :
    ¬ ∀ (off : UInt64) (started : ℕ) (its : List Iteration), kernelDrops its < 2 ^ 64 →
      EveryTurn (fun past it =>
        DropsCurrent (Loop.run off started past) (Loop.run off started (past ++ [it])) past it)
          its := by
  intro h
  have hcurrent := (h 0 0 [turn [] 5] (by decide) [] (turn [] 5) (List.prefix_refl _)).current
  exact absurd hcurrent (by decide)

theorem dropped_caught_up (off : UInt64) (started : ℕ) (its : List Iteration) (it : Iteration)
    (hfits : kernelDrops its < 2 ^ 64) (hsame : kernelDrops (its ++ [it]) = kernelDrops its) :
    (Loop.run off started (its ++ [it])).shared.dropped.toNat = kernelDrops (its ++ [it]) := by
  rw [run_append, toNat_dropped_iterate off started it hfits, hsame]

section Records

variable (off : UInt64) (started : ℕ)

theorem total_receive (shared : Shared) (data : List UInt8) :
    (shared.receive data off).total =
      shared.total + if (Stream.decodeStream data).isSome then 1 else 0 := by
  unfold Shared.receive
  split
  case h_1 ev hev => rw [hev]; rfl
  case h_2 hnone => rw [hnone]; exact (add_zero _).symm

theorem total_foldl_receive (records : List (List UInt8)) (shared : Shared) :
    (records.foldl (fun shared data => shared.receive data off) shared).total =
      shared.total +
        UInt64.ofNat (records.countP fun data => (Stream.decodeStream data).isSome) := by
  induction records generalizing shared with
  | nil => exact (add_zero _).symm
  | cons data records ih =>
    rw [List.foldl_cons, ih, total_receive, List.countP_cons, add_assoc]
    split
    · rw [add_comm 1, UInt64.ofNat_add]
      rfl
    · rw [zero_add, add_zero]

theorem total_run (its : List Iteration) :
    (Loop.run off started its).shared.total =
      UInt64.ofNat ((delivered its).countP fun data => (Stream.decodeStream data).isSome) := by
  induction its using List.reverseRecOn with
  | nil => rfl
  | append_singleton its it ih =>
    have htotal : ((Loop.run off started its).iterate off it).shared.total =
        (it.records.foldl (fun shared data => shared.receive data off)
          (Loop.run off started its).shared).total := by
      simp only [Loop.iterate, refreshLatency]
      split <;> rfl
    rw [run_append, htotal, total_foldl_receive, ih, delivered, delivered, List.flatMap_append,
      List.countP_append, UInt64.ofNat_add, List.flatMap_singleton]

end Records

/-- Once the dropped counter has caught up, every delivered record and every
kernel drop is in one of the two counters exactly if every record decoded. -/
theorem records_accounted_iff (off : UInt64) (started : ℕ) (its : List Iteration)
    (hcaught : (Loop.run off started its).shared.dropped.toNat = kernelDrops its) :
    (Loop.run off started its).shared.total.toNat +
      (Loop.run off started its).shared.dropped.toNat =
        (delivered its).length + kernelDrops its ↔
      (delivered its).length < 2 ^ 64 ∧
        ∀ data ∈ delivered its, (Stream.decodeStream data).isSome := by
  have hle := List.countP_le_length (p := fun data => (Stream.decodeStream data).isSome)
    (l := delivered its)
  rw [hcaught, Nat.add_right_cancel_iff, total_run, UInt64.toNat_ofNat', ← List.countP_eq_length]
  constructor
  · intro h
    omega
  · rintro ⟨hlt, heq⟩
    rw [heq, Nat.mod_eq_of_lt hlt]

theorem records_accounted_iff_caught_up :
    (Loop.run 0 0 [turn [] 5, turn [[]] 5]).shared.total.toNat +
        (Loop.run 0 0 [turn [] 5, turn [[]] 5]).shared.dropped.toNat = 1 + 5 ↔
      (delivered [turn [] 5, turn [[]] 5]).length < 2 ^ 64 ∧
        ∀ data ∈ delivered [turn [] 5, turn [[]] 5], (Stream.decodeStream data).isSome :=
  records_accounted_iff 0 0 [turn [] 5, turn [[]] 5] (by decide)

/-- What `trace_exec` writes when `sh` executes `/é`. -/
def accentedExec : List UInt8 :=
  [1, 0, 0, 0, 1, 0, 0, 0] ++ List.replicate 8 0 ++ [1, 0, 0, 0, 100, 0, 0, 0, 1, 0, 0, 0] ++
    [115, 104] ++ List.replicate 14 0 ++ [47, 0xc3, 0xa9] ++ List.replicate 129 0

set_option maxRecDepth 4000 in
example : accentedExec = Bpf.fillExec ⟨100, 100, 1, ⟨[115, 104], by decide, by decide⟩⟩ 0
    ⟨100, ⟨[47, 0xc3, 0xa9], by decide⟩⟩ (List.replicate 176 0) := by
  decide

set_option maxRecDepth 4000 in
theorem record_lost :
    ¬ ∀ (off : UInt64) (started : ℕ) (its : List Iteration),
      (Loop.run off started its).shared.dropped.toNat = kernelDrops its →
        (Loop.run off started its).shared.total.toNat +
          (Loop.run off started its).shared.dropped.toNat =
          (delivered its).length + kernelDrops its := by
  intro h
  exact absurd (h 0 0 [turn [accentedExec] 0] (by decide)) (by decide)

end Collector

end Tracelet
