import Tracelet.Hist
import Tracelet.TransitionRun

namespace Tracelet
open KernelMap TransitionRun

namespace ExitRace
open Bpf

/-- The next map access of a handler. -/
inductive Pc where
  | addCount
  | addSum
  | loadMax
  | storeMax
  | done
  deriving DecidableEq

section
variable {ι : Type} [DecidableEq ι]

structure State (ι : Type) where
  hist : LatencyHist
  pc : ι → Pc

def State.start : State ι where
  hist := Vector.replicate (syscallCount * latencySlots) 0
  pc := fun _ => .addCount

variable (k : SyscallKind) (deltas : ι → UInt64)

def State.goto (s : State ι) (i : ι) (hist : LatencyHist) (pc : Pc) : State ι where
  hist := hist
  pc := Function.update s.pc i pc

/-- The next access of handler `i`. The two adds are atomic; the maximum is loaded and
stored separately. -/
def step (s : State ι) (i : ι) : Option (State ι) :=
  let delta := deltas i
  let base := k.index * UInt32.ofNat latencySlots
  match s.pc i with
  | .addCount =>
    some (s.goto i (ArrayMap.modify s.hist (base + sampleSlot delta) (· + 1)) .addSum)
  | .addSum =>
    some (s.goto i (ArrayMap.modify s.hist (base + UInt32.ofNat histSlots) (· + delta)) .loadMax)
  | .loadMax =>
    match ArrayMap.lookup s.hist (base + UInt32.ofNat histSlots + 1) with
    | some maxp => some (s.goto i s.hist (if delta > maxp then .storeMax else .done))
    | none => some (s.goto i s.hist .done)
  | .storeMax =>
    some (s.goto i (ArrayMap.modify s.hist (base + UInt32.ofNat histSlots + 1) fun _ => delta)
      .done)
  | .done => none

def Pc.counted : Pc → Bool
  | .addCount => false
  | _ => true

def Pc.summed : Pc → Bool
  | .addCount | .addSum => false
  | _ => true

def maxSlot (s : State ι) : UInt64 := slotAt s.hist k (histSlots + 1)

/-- All buckets together, as `summarize` adds them up. -/
def bucketTotal (s : State ι) : UInt64 := ∑ j ∈ Finset.range histSlots, slotAt s.hist k j

/-- The longest delta of the handlers that have finished. -/
def longestDone [Fintype ι] (s : State ι) : ℕ :=
  Finset.univ.sup fun i => if s.pc i = .done then (deltas i).toNat else 0

/-- A store does not lower the maximum: no longer delta was stored since the
handler compared its own. -/
def StoresUp (s : State ι) (i : ι) : Prop := s.pc i = .storeMax → maxSlot k s ≤ deltas i

instance (s : State ι) (i : ι) : Decidable (StoresUp k deltas s i) :=
  inferInstanceAs (Decidable (s.pc i = .storeMax → maxSlot k s ≤ deltas i))

variable {k deltas}

section Accesses

variable {s : State ι} {i : ι}

theorem step_addCount (h : s.pc i = .addCount) : step k deltas s i =
    some (s.goto i (ArrayMap.modify s.hist (slotKey k (bucket (deltas i).toNat)) (· + 1))
      .addSum) := by
  simp only [step, h]
  rw [base_add, toNat_sampleSlot]

theorem step_addSum (h : s.pc i = .addSum) : step k deltas s i =
    some (s.goto i (ArrayMap.modify s.hist (slotKey k histSlots) (· + deltas i)) .loadMax) := by
  simp only [step, h]
  rw [base_add_sum]

theorem step_loadMax (h : s.pc i = .loadMax) : step k deltas s i =
    some (s.goto i s.hist (if deltas i > maxSlot k s then .storeMax else .done)) := by
  simp only [step, h]
  rw [base_add_max, lookup_slotKey s.hist k (by decide)]
  rfl

theorem step_storeMax (h : s.pc i = .storeMax) : step k deltas s i =
    some (s.goto i (ArrayMap.modify s.hist (slotKey k (histSlots + 1)) fun _ => deltas i)
      .done) := by
  simp only [step, h]
  rw [base_add_max]

theorem step_cases {s' : State ι} (hstep : step k deltas s i = some s') :
    (s.pc i = .addCount ∧
      s' = s.goto i (ArrayMap.modify s.hist (slotKey k (bucket (deltas i).toNat)) (· + 1))
        .addSum) ∨
    (s.pc i = .addSum ∧
      s' = s.goto i (ArrayMap.modify s.hist (slotKey k histSlots) (· + deltas i)) .loadMax) ∨
    (s.pc i = .loadMax ∧
      s' = s.goto i s.hist (if deltas i > maxSlot k s then .storeMax else .done)) ∨
    (s.pc i = .storeMax ∧
      s' = s.goto i (ArrayMap.modify s.hist (slotKey k (histSlots + 1)) fun _ => deltas i)
        .done) := by
  cases hpc : s.pc i with
  | addCount =>
    rw [step_addCount hpc] at hstep
    exact .inl ⟨rfl, (Option.some.inj hstep).symm⟩
  | addSum =>
    rw [step_addSum hpc] at hstep
    exact .inr (.inl ⟨rfl, (Option.some.inj hstep).symm⟩)
  | loadMax =>
    rw [step_loadMax hpc] at hstep
    exact .inr (.inr (.inl ⟨rfl, (Option.some.inj hstep).symm⟩))
  | storeMax =>
    rw [step_storeMax hpc] at hstep
    exact .inr (.inr (.inr ⟨rfl, (Option.some.inj hstep).symm⟩))
  | done =>
    simp only [step, hpc] at hstep
    cases hstep

end Accesses

section Goto

variable (s : State ι) (i : ι) (hist : LatencyHist) (pc : Pc)

@[simp] theorem hist_goto : (s.goto i hist pc).hist = hist := rfl

@[simp] theorem pc_goto_self : (s.goto i hist pc).pc i = pc := Function.update_self ..

@[simp] theorem pc_goto_of_ne {j : ι} (h : j ≠ i) : (s.goto i hist pc).pc j = s.pc j :=
  Function.update_of_ne h ..

end Goto

section Handlers

variable [Fintype ι] {f g : ι → UInt64} {i : ι}

theorem sum_of_eq_add {v : UInt64} (hi : g i = f i + v) (hne : ∀ j, j ≠ i → g j = f j) :
    ∑ j, g j = ∑ j, f j + v := by
  have hg : ∀ j, g j = f j + if j = i then v else 0 := fun j => by
    by_cases hj : j = i
    · rw [if_pos hj, hj, hi]
    · rw [if_neg hj, hne j hj, add_zero]
  simp only [hg, Finset.sum_add_distrib, Finset.sum_ite_eq', Finset.mem_univ, if_true]

theorem sup_of_le {f g : ι → ℕ} (hi : f i ≤ g i) (hne : ∀ j, j ≠ i → g j = f j) :
    Finset.univ.sup g = max (Finset.univ.sup f) (g i) := by
  apply le_antisymm
  · refine Finset.sup_le fun j _ => ?_
    by_cases hj : j = i
    · exact hj ▸ le_max_right _ _
    · exact (hne j hj).trans_le ((Finset.le_sup (Finset.mem_univ j)).trans (le_max_left _ _))
  · refine max_le (Finset.sup_le fun j _ => ?_) (Finset.le_sup (Finset.mem_univ i))
    by_cases hj : j = i
    · exact (hj ▸ hi : f j ≤ g j).trans (Finset.le_sup (Finset.mem_univ j))
    · exact (hne j hj).symm.trans_le (Finset.le_sup (Finset.mem_univ j))

end Handlers

section Buckets

variable (hist : LatencyHist) {b : ℕ}

theorem sum_add_count (hb : b < histSlots) :
    ∑ j ∈ Finset.range histSlots, slotAt (ArrayMap.modify hist (slotKey k b) (· + 1)) k j =
      ∑ j ∈ Finset.range histSlots, slotAt hist k j + 1 := by
  have hmodify : ∀ j ∈ Finset.range histSlots,
      slotAt (ArrayMap.modify hist (slotKey k b) (· + 1)) k j =
        slotAt hist k j + if j = b then 1 else 0 := fun j hj => by
    have hj' : j < latencySlots := (Finset.mem_range.mp hj).trans (by decide)
    rw [slotAt_modify hist hj' (hb.trans (by decide))]
    by_cases h : j = b <;> simp [h]
  rw [Finset.sum_congr rfl hmodify, Finset.sum_add_distrib, Finset.sum_ite_eq',
    if_pos (Finset.mem_range.mpr hb)]

theorem sum_of_le (hb : histSlots ≤ b) (hb' : b < latencySlots) (f : UInt64 → UInt64) :
    ∑ j ∈ Finset.range histSlots, slotAt (ArrayMap.modify hist (slotKey k b) f) k j =
      ∑ j ∈ Finset.range histSlots, slotAt hist k j := by
  apply Finset.sum_congr rfl
  intro j hj
  have hlt := Finset.mem_range.mp hj
  rw [slotAt_modify hist (hlt.trans (by decide)) hb', if_neg fun h => (hlt.trans_le hb).ne h.2]

end Buckets

variable [Fintype ι]

structure Counted (k : SyscallKind) (deltas : ι → UInt64) (s : State ι) : Prop where
  total : bucketTotal k s = ∑ i, if (s.pc i).counted then 1 else 0
  sum : slotAt s.hist k histSlots = ∑ i, if (s.pc i).summed then deltas i else 0

theorem Counted.goto {s : State ι} {i : ι} {hist : LatencyHist} {pc : Pc} {v w : UInt64}
    (h : Counted k deltas s)
    (htotal : ∑ j ∈ Finset.range histSlots, slotAt hist k j = bucketTotal k s + v)
    (hcounted : (if pc.counted then 1 else 0) = (if (s.pc i).counted then 1 else 0) + v)
    (hsum : slotAt hist k histSlots = slotAt s.hist k histSlots + w)
    (hsummed : (if pc.summed then deltas i else 0) = (if (s.pc i).summed then deltas i else 0) +
    w) :
    Counted k deltas (s.goto i hist pc) where
  total := by
    rw [bucketTotal, hist_goto, htotal, h.total]
    refine (sum_of_eq_add (i := i) ?_ fun j hj => ?_).symm
    · rw [pc_goto_self, hcounted]
    · rw [pc_goto_of_ne _ _ _ _ hj]
  sum := by
    rw [hist_goto, hsum, h.sum]
    refine (sum_of_eq_add (i := i) ?_ fun j hj => ?_).symm
    · rw [pc_goto_self, hsummed]
    · rw [pc_goto_of_ne _ _ _ _ hj]

theorem Counted.step {s s' : State ι} {i : ι} (h : Counted k deltas s)
    (hstep : step k deltas s i = some s') : Counted k deltas s' := by
  rcases step_cases hstep with ⟨hpc, rfl⟩ | ⟨hpc, rfl⟩ | ⟨hpc, rfl⟩ | ⟨hpc, rfl⟩
  · have hb := bucket_lt (deltas i).toNat
    -- `addCount`: one more in a bucket, the sum slot lies behind the buckets
    apply h.goto (v := 1) (w := 0) (sum_add_count s.hist hb)
    · rw [hpc]
      rfl
    · rw [slotAt_modify _ (by decide) (hb.trans (by decide)), if_neg fun h => hb.ne' h.2, add_zero]
    · rw [hpc]
      rfl
  · -- `addSum`: the duration in the sum slot, no bucket changes
    apply h.goto (v := 0) (w := deltas i)
    · rw [sum_of_le s.hist le_rfl (by decide), add_zero]
      rfl
    · rw [hpc]
      rfl
    · rw [slotAt_modify _ (by decide) (by decide), if_pos ⟨rfl, rfl⟩]
    · rw [hpc]
      exact (zero_add _).symm
  · apply h.goto (v := 0) (w := 0) (add_zero _).symm _ (add_zero _).symm
    · rw [hpc]
      split <;> exact (add_zero _).symm
    · rw [hpc]
      split <;> rfl
  · apply h.goto (v := 0) (w := 0)
    · rw [sum_of_le s.hist (Nat.le_succ _) (by decide), add_zero]
      rfl
    · rw [hpc]
      rfl
    · rw [slotAt_modify _ (by decide) (by decide), if_neg fun h => absurd h.2 (by decide),
        add_zero]
    · rw [hpc]
      exact (add_zero _).symm

omit [DecidableEq ι] in
theorem counted_start : Counted k deltas (.start : State ι) := by
  have hzero : ∀ {j}, j < latencySlots → slotAt (State.start : State ι).hist k j = 0 :=
    fun hj => slotAt_recordAll_nil k hj
  constructor
  · rw [bucketTotal, Finset.sum_eq_zero fun j hj =>
      hzero ((Finset.mem_range.mp hj).trans (by decide))]
    exact Finset.sum_const_zero.symm
  · rw [hzero (by decide)]
    exact Finset.sum_const_zero.symm

omit [DecidableEq ι] in
theorem Counted.finished {s : State ι} (h : Counted k deltas s) (hdone : ∀ i, s.pc i = .done) :
    bucketTotal k s = UInt64.ofNat (Fintype.card ι) ∧
      slotAt s.hist k histSlots = ∑ i, deltas i := by
  have hcard : ∀ n : ℕ, n • (1 : UInt64) = UInt64.ofNat n := fun n => by
    induction n with
    | zero => rfl
    | succ n ih => rw [succ_nsmul, ih, UInt64.ofNat_add]; rfl
  constructor
  · simp only [h.total, hdone, Pc.counted, if_true]
    rw [Finset.sum_const, Finset.card_univ, hcard]
  · simp only [h.sum, hdone, Pc.summed, if_true]

/-- The counter of the maximum holds the longest delta of those that finished. -/
def MaxKept (k : SyscallKind) (deltas : ι → UInt64) (s : State ι) : Prop :=
  (maxSlot k s).toNat = longestDone deltas s

theorem longestDone_goto {s : State ι} {i : ι} (hist : LatencyHist) (pc : Pc)
    (hpc : s.pc i ≠ .done) :
    longestDone deltas (s.goto i hist pc) =
      max (longestDone deltas s) (if pc = .done then (deltas i).toNat else 0) := by
  rw [longestDone,
    sup_of_le (i := i) (f := fun j => if s.pc j = .done then (deltas j).toNat else 0)]
  · rw [pc_goto_self]
    rfl
  · rw [if_neg hpc]
    exact Nat.zero_le _
  · intro j hj
    rw [pc_goto_of_ne _ _ _ _ hj]

theorem MaxKept.goto {s : State ι} {i : ι} {hist : LatencyHist} {pc : Pc} (h : MaxKept k deltas s)
    (hslot : slotAt hist k (histSlots + 1) = maxSlot k s) (hpc : s.pc i ≠ .done)
    (hle : pc = .done → deltas i ≤ maxSlot k s) : MaxKept k deltas (s.goto i hist pc) := by
  rw [MaxKept, maxSlot, hist_goto, hslot, longestDone_goto hist pc hpc, h]
  split
  case isTrue hdone => exact (max_eq_left (h ▸ UInt64.le_iff_toNat_le.mp (hle hdone))).symm
  case isFalse => exact (max_eq_left (Nat.zero_le _)).symm

/-- Only a store can lose the maximum, and only by lowering it. -/
theorem maxKept_step_iff {s s' : State ι} {i : ι} (h : MaxKept k deltas s)
    (hstep : step k deltas s i = some s') : MaxKept k deltas s' ↔ StoresUp k deltas s i := by
  have hother : s.pc i ≠ .storeMax → StoresUp k deltas s i := fun hne hpc => absurd hpc hne
  rcases step_cases hstep with ⟨hpc, rfl⟩ | ⟨hpc, rfl⟩ | ⟨hpc, rfl⟩ | ⟨hpc, rfl⟩
  · have hb := bucket_lt (deltas i).toNat
    refine iff_of_true (h.goto ?_ (hpc ▸ Pc.noConfusion) Pc.noConfusion)
      (hother (hpc ▸ Pc.noConfusion))
    rw [slotAt_modify _ (by decide) (hb.trans (by decide)),
      if_neg fun h => (hb.trans (Nat.lt_succ_self _)).ne' h.2, maxSlot]
  · refine iff_of_true (h.goto ?_ (hpc ▸ Pc.noConfusion) Pc.noConfusion)
      (hother (hpc ▸ Pc.noConfusion))
    rw [slotAt_modify _ (by decide) (by decide), if_neg fun h => absurd h.2 (by decide), maxSlot]
  · refine iff_of_true (h.goto rfl (hpc ▸ Pc.noConfusion) fun hdone => ?_)
      (hother (hpc ▸ Pc.noConfusion))
    by_contra hlt
    rw [if_pos (UInt64.not_le.mp hlt)] at hdone
    cases hdone
  · have hslot : slotAt (ArrayMap.modify s.hist (slotKey k (histSlots + 1)) fun _ => deltas i) k
        (histSlots + 1) = deltas i := by
      rw [slotAt_modify _ (by decide) (by decide), if_pos ⟨rfl, rfl⟩]
    -- the store decides: the slot then holds this duration, whatever it held before
    have hup : StoresUp k deltas s i ↔ longestDone deltas s ≤ (deltas i).toNat := by
      rw [← h, ← UInt64.le_iff_toNat_le]
      exact ⟨fun hs => hs hpc, fun hle _ => hle⟩
    rw [hup, MaxKept, maxSlot, hist_goto, hslot,
      longestDone_goto _ _ (hpc ▸ Pc.noConfusion), if_pos rfl]
    omega

omit [DecidableEq ι] in
theorem maxKept_start : MaxKept k deltas (.start : State ι) := by
  have hzero : maxSlot k (.start : State ι) = 0 := slotAt_recordAll_nil k (by decide)
  have hnone : longestDone deltas (.start : State ι) = 0 := by
    simp [longestDone, State.start]
  rw [MaxKept, hzero, hnone]
  rfl

end

section Alone

variable {ι : Type} [DecidableEq ι] {k : SyscallKind} {deltas : ι → UInt64}

/-- A handler that is not interrupted records its sample as `recordSample` does. -/
theorem run_alone (s : State ι) (i : ι) (hpc : s.pc i = .addCount) :
    ∃ m s', run (step k deltas) s (List.replicate m i) = some s' ∧
      s'.hist = recordSample s.hist k.index (deltas i) ∧ s'.pc i = .done := by
  let s₁ := s.goto i (ArrayMap.modify s.hist (slotKey k (bucket (deltas i).toNat)) (· + 1)) .addSum
  let s₂ := s₁.goto i (ArrayMap.modify s₁.hist (slotKey k histSlots) (· + deltas i)) .loadMax
  have hloaded : step k deltas s₂ i =
      some (s₂.goto i s₂.hist (if deltas i > maxSlot k s₂ then .storeMax else .done)) :=
    step_loadMax (pc_goto_self ..)
  have hprefix : ∀ es,
      run (step k deltas) s (i :: i :: es) = run (step k deltas) s₂ es := fun es => by
    rw [run, step_addCount hpc, Option.bind_some, run, step_addSum (pc_goto_self ..),
      Option.bind_some]
  have hmax := lookup_slotKey s₂.hist k (show histSlots + 1 < latencySlots by decide)
  have hrecord : recordSample s.hist k.index (deltas i) =
      ArrayMap.modify s₂.hist (slotKey k (histSlots + 1)) fun maxp =>
        if deltas i > maxp then deltas i else maxp := recordSample_eq ..
  -- four accesses if the maximum has to be stored, else three
  by_cases hlt : deltas i > maxSlot k s₂
  · rw [if_pos hlt] at hloaded
    let s₃ := s₂.goto i s₂.hist .storeMax
    let s₄ :=
      s₃.goto i (ArrayMap.modify s₃.hist (slotKey k (histSlots + 1)) fun _ => deltas i) .done
    refine ⟨4, s₄, ?_, ?_, pc_goto_self ..⟩
    · rw [List.replicate_succ, List.replicate_succ, hprefix, List.replicate_succ, run, hloaded,
        Option.bind_some, List.replicate_one, run, step_storeMax (pc_goto_self ..),
        Option.bind_some, run]
    · have hstore : (if deltas i > slotAt s₂.hist k (histSlots + 1) then deltas i
          else slotAt s₂.hist k (histSlots + 1)) = deltas i := if_pos hlt
      exact ((ArrayMap.modify_congr hmax hstore).symm.trans hrecord.symm)
  · rw [if_neg hlt] at hloaded
    refine ⟨3, s₂.goto i s₂.hist .done, ?_, ?_, pc_goto_self ..⟩
    · rw [List.replicate_succ, List.replicate_succ, hprefix, List.replicate_one, run, hloaded,
        Option.bind_some, run]
    · have hkeep : (if deltas i > slotAt s₂.hist k (histSlots + 1) then deltas i
          else slotAt s₂.hist k (histSlots + 1)) = slotAt s₂.hist k (histSlots + 1) := if_neg hlt
      rw [hrecord]
      exact ((ArrayMap.modify_congr hmax hkeep).trans (ArrayMap.modify_id ..)).symm

end Alone

/-- When all handlers have finished, the buckets and the sum have every delta.
The maximum is that of the finished handlers in every state of a run exactly if
no store lowers it, and then the last state has the longest delta. -/
theorem counters_of_interleaving {ι : Type} [DecidableEq ι] [Fintype ι] (k : SyscallKind)
    (deltas : ι → UInt64) (es : List ι) (s : State ι)
    (hrun : run (step k deltas) .start es = some s) :
    ((∀ i, s.pc i = .done) → bucketTotal k s = UInt64.ofNat (Fintype.card ι) ∧
      slotAt s.hist k histSlots = ∑ i, deltas i) ∧
    (AllStates (step k deltas) (MaxKept k deltas) .start es ↔
      AllSteps (step k deltas) (StoresUp k deltas) .start es) ∧
    (AllSteps (step k deltas) (StoresUp k deltas) .start es → (∀ i, s.pc i = .done) →
      (slotAt s.hist k (histSlots + 1)).toNat = Finset.univ.sup fun i => (deltas i).toNat) := by
  have hcounted : Counted k deltas s :=
    run_invariant (P := fun s => Counted k deltas s) (fun _ _ _ h hstep => h.step hstep) hrun
      counted_start
  have hiff : AllStates (step k deltas) (MaxKept k deltas) .start es ↔
      AllSteps (step k deltas) (StoresUp k deltas) .start es :=
    allStates_iff_allSteps (fun _ _ _ h hstep => maxKept_step_iff h hstep) hrun maxKept_start
  refine ⟨hcounted.finished, hiff, fun hup hdone => ?_⟩
  have hmax : MaxKept k deltas s := (hiff.mpr hup).last hrun
  rw [MaxKept, maxSlot, longestDone] at hmax
  simpa only [hdone, if_true] using hmax

def fiveAndTen : Bool → UInt64
  | false => 5
  | true => 10

def inTurn : List Bool := [false, false, false, false, true, true, true, true]

set_option maxRecDepth 2000 in
theorem counters_of_interleaving_in_turn :
    ∃ s, run (step .read fiveAndTen) .start inTurn = some s ∧
      (bucketTotal .read s = 2 ∧ slotAt s.hist .read histSlots = ∑ i, fiveAndTen i) ∧
      AllStates (step .read fiveAndTen) (MaxKept .read fiveAndTen) .start inTurn ∧
      (slotAt s.hist .read (histSlots + 1)).toNat = 10 := by
  have hdone : (run (step .read fiveAndTen) .start inTurn).map
    (fun s => decide (∀ i, s.pc i = .done)) =
      some true := by decide
  have hup : AllSteps (step .read fiveAndTen) (StoresUp .read fiveAndTen) .start inTurn := by
    decide +kernel
  obtain ⟨s, hs, hall⟩ := Option.map_eq_some_iff.mp hdone
  obtain ⟨hcounts, hiff, hmax⟩ := counters_of_interleaving .read fiveAndTen inTurn s hs
  exact ⟨s, hs, hcounts (of_decide_eq_true hall), hiff.mpr hup, hmax hup (of_decide_eq_true hall)⟩

set_option maxRecDepth 2000 in
theorem run_lost_maximum :
    (run (step .read fiveAndTen) .start [false, false, false, true, true, true, true, false]).map
      (fun s => decide (∀ i, s.pc i = .done) && decide (maxSlot .read s = 5)) =
        some true := by decide

/-- Both handlers see the zero, and the one with 10 stores first. -/
theorem maximum_lost :
    ¬ ∀ (ι : Type) [DecidableEq ι] [Fintype ι] (k : SyscallKind) (deltas : ι → UInt64) (es : List ι)
      (s : State ι), run (step k deltas) .start es = some s → (∀ i, s.pc i = .done) →
        (slotAt s.hist k (histSlots + 1)).toNat = Finset.univ.sup fun i => (deltas i).toNat := by
  intro h
  obtain ⟨s, hs, hend⟩ := Option.map_eq_some_iff.mp run_lost_maximum
  obtain ⟨hdone, hmax⟩ := Bool.and_eq_true_iff.mp hend
  have hlongest := h Bool .read fiveAndTen _ s hs (of_decide_eq_true hdone)
  have hslot : slotAt s.hist .read (histSlots + 1) = 5 := of_decide_eq_true hmax
  rw [hslot] at hlongest
  exact absurd hlongest (by decide)

end ExitRace

end Tracelet
