import Tracelet.Accounting

namespace Tracelet

theorem mod_div_eq_div_iff {sum n bound : ℕ} (hn : 0 < n) (hle : n ≤ bound) :
    sum % bound / n = sum / n ↔ sum < bound := by
  constructor
  · intro h
    by_contra hge
    have hmod : sum % bound + bound ≤ sum := by
      have hsplit := Nat.mod_add_div sum bound
      have hquot : 1 ≤ sum / bound := Nat.div_pos (by omega) (by omega)
      have hmul : bound ≤ bound * (sum / bound) := Nat.le_mul_of_pos_right bound hquot
      omega
    -- a whole `bound` is missing from the sum, so at least one from the mean
    have hlt : sum % bound / n + 1 ≤ sum / n := by
      rw [← Nat.add_div_right _ hn]
      exact Nat.div_le_div_right (by omega)
    omega
  · intro h
    rw [Nat.mod_eq_of_lt h]

theorem le_sum_div {ns : List ℕ} (hne : ns ≠ []) {lo : ℕ} (h : ∀ n ∈ ns, lo ≤ n) :
    lo ≤ ns.sum / ns.length := by
  rw [Nat.le_div_iff_mul_le (List.length_pos_of_ne_nil hne), mul_comm]
  simpa using List.card_nsmul_le_sum ns lo h

theorem sum_div_le {ns : List ℕ} {hi : ℕ} (h : ∀ n ∈ ns, n ≤ hi) : ns.sum / ns.length ≤ hi := by
  apply Nat.div_le_of_le_mul
  simpa using List.sum_le_card_nsmul ns hi h

namespace Latency
open Bpf Hist KernelMap TransitionRun

/-- `stats.sum.checked_div(stats.count).unwrap_or(0)`. -/
def mean (stats : Stats) : UInt64 := if stats.count = 0 then 0 else stats.sum / stats.count

def exactSum (deltas : List UInt64) : ℕ := (deltas.map UInt64.toNat).sum

/-- The mean rounded down, between the smallest and the largest delta. -/
structure TrueMean (deltas : List UInt64) (m : UInt64) : Prop where
  floor : m.toNat = exactSum deltas / deltas.length
  smallest : ∃ a ∈ deltas, (∀ x ∈ deltas, a ≤ x) ∧ a ≤ m
  largest : ∃ b ∈ deltas, (∀ x ∈ deltas, x ≤ b) ∧ m ≤ b

theorem toNat_sum (deltas : List UInt64) : deltas.sum.toNat = exactSum deltas % 2 ^ 64 := by
  have hmap : (deltas.map UInt64.toNat).map UInt64.ofNat = deltas := by
    rw [List.map_map]
    apply List.map_id''
    intro x
    exact UInt64.ofNat_toNat
  rw [← UInt64.toNat_ofNat', exactSum, ← sum_map_ofNat, hmap]

/-- What is printed for some samples, from the counters that they leave. -/
theorem toNat_mean (samples : List (SyscallKind × UInt64)) (k : SyscallKind)
    (hlen : (samplesOf k samples).length < 2 ^ 64) :
    (mean (summarize ((List.range latencySlots).map (slotAt (recordAll samples) k)))).toNat =
      exactSum (samplesOf k samples) % 2 ^ 64 / (samplesOf k samples).length := by
  rw [summarize_row, mean]
  by_cases h : (samplesOf k samples).length = 0
  · simp [h]
  · have hne : ¬ UInt64.ofNat (samplesOf k samples).length = 0 := by
      rw [← UInt64.toNat_inj, UInt64.toNat_ofNat_of_lt' hlen]
      exact h
    rw [if_neg hne, UInt64.toNat_div, toNat_sum, UInt64.toNat_ofNat_of_lt' hlen]

theorem trueMean_of_floor {deltas : List UInt64} (hne : deltas ≠ []) {m : UInt64}
    (h : m.toNat = exactSum deltas / deltas.length) : TrueMean deltas m := by
  have hset : deltas.toFinset.Nonempty := List.toFinset_nonempty_iff deltas |>.mpr hne
  obtain ⟨a, ha, hleast⟩ := deltas.toFinset.exists_min_image UInt64.toNat hset
  obtain ⟨b, hb, hgreatest⟩ := deltas.toFinset.exists_max_image UInt64.toNat hset
  simp only [List.mem_toFinset] at ha hb hleast hgreatest
  have hlen : (deltas.map UInt64.toNat).length = deltas.length := List.length_map _
  rw [exactSum, ← hlen] at h
  refine ⟨by rw [h, hlen, exactSum], ⟨a, ha, fun x hx => ?_, ?_⟩, ⟨b, hb, fun x hx => ?_, ?_⟩⟩
  · exact UInt64.le_iff_toNat_le.mpr (hleast x hx)
  · rw [UInt64.le_iff_toNat_le, h]
    apply le_sum_div (by simpa using hne)
    exact List.forall_mem_map.mpr hleast
  · exact UInt64.le_iff_toNat_le.mpr (hgreatest x hx)
  · rw [UInt64.le_iff_toNat_le, h]
    apply sum_div_le
    exact List.forall_mem_map.mpr hgreatest

theorem trueMean_row_iff (samples : List (SyscallKind × UInt64)) (k : SyscallKind)
    (hne : samplesOf k samples ≠ []) (hlen : (samplesOf k samples).length < 2 ^ 64) :
    TrueMean (samplesOf k samples)
        (mean (summarize ((List.range latencySlots).map (slotAt (recordAll samples) k)))) ↔
      exactSum (samplesOf k samples) < 2 ^ 64 := by
  have hpos : 0 < (samplesOf k samples).length := List.length_pos_of_ne_nil hne
  rw [← mod_div_eq_div_iff hpos hlen.le, ← toNat_mean samples k hlen]
  exact ⟨TrueMean.floor, trueMean_of_floor hne⟩

theorem mean_of_run {pending attached : List Program} {filter : ArrayMap Bpf.FilterConfig 1}
    {clock : UInt64} {busy : Thread → Option SyscallKind} {es : List Event} {s : System}
    (hrun : run step (.start pending attached filter clock busy) es = some s) (k : SyscallKind)
    {deltas : List UInt64}
    (hdeltas : samplesOf k (s.samples.map fun x => (x.syscall, x.delta)) = deltas)
    (hne : deltas ≠ []) (hlen : deltas.length < 2 ^ 64) :
    ∃ row, (readHistogram s.maps.latencyHist)[k.index.toNat]? = some row ∧
      (TrueMean deltas (mean (summarize row)) ↔ exactSum deltas < 2 ^ 64) := by
  subst hdeltas
  have hrecorded : Recorded s :=
    run_invariant (fun _ _ _ h hstep => h.step hstep) hrun (recorded_start _ _ _ _ _)
  refine ⟨_, readHistogram_index _ k, ?_⟩
  rw [hrecorded.hist]
  exact trueMean_row_iff _ k hne hlen

/-- The mean of a syscall is the true one exactly when the sum of its deltas
fits the counter that holds it. -/
theorem mean_true_iff (samples : List (SyscallKind × UInt64)) (k : SyscallKind)
    (hne : samplesOf k samples ≠ []) (hlen : (samplesOf k samples).length < 2 ^ 64) :
    ∃ row, (readHistogram (recordAll samples))[k.index.toNat]? = some row ∧
      (TrueMean (samplesOf k samples) (mean (summarize row)) ↔
        exactSum (samplesOf k samples) < 2 ^ 64) :=
  ⟨_, readHistogram_index _ k, trueMean_row_iff samples k hne hlen⟩

theorem mean_true_iff_twoReads :
    ∃ row, (readHistogram (recordAll twoReads))[0]? = some row ∧
      TrueMean [3, 100] (mean (summarize row)) := by
  obtain ⟨row, hrow, hiff⟩ := mean_true_iff twoReads .read (by decide) (by decide)
  exact ⟨row, hrow, hiff.mpr (by decide)⟩

def longReads : List (SyscallKind × UInt64) := List.replicate (2 ^ 15) (.read, 2 ^ 49)

theorem samplesOf_longReads : samplesOf .read longReads = List.replicate (2 ^ 15) (2 ^ 49) :=
  List.filterMap_replicate_of_some rfl

theorem exactSum_longReads : exactSum (samplesOf .read longReads) = 2 ^ 64 := by
  rw [samplesOf_longReads, exactSum, List.map_replicate, List.sum_replicate, smul_eq_mul]
  decide

/-- The sum of the long reads is back at zero, and so is the mean. -/
theorem mean_longReads_not_true :
    ∃ row, (readHistogram (recordAll longReads))[0]? = some row ∧
      mean (summarize row) = 0 ∧ ¬ TrueMean (samplesOf .read longReads) (mean (summarize row)) := by
  have hlen : (samplesOf .read longReads).length = 2 ^ 15 := by
    rw [samplesOf_longReads, List.length_replicate]
  have hmean := toNat_mean longReads .read (by rw [hlen]; decide)
  rw [exactSum_longReads, Nat.mod_self, Nat.zero_div] at hmean
  refine ⟨_, readHistogram_index _ .read, UInt64.toNat_inj.mp hmean, fun h => ?_⟩
  have hfloor := h.floor
  rw [hmean, exactSum_longReads, hlen] at hfloor
  omega

end Latency

end Tracelet
