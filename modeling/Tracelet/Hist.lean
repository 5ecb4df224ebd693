import Tracelet.NearestRank
import Tracelet.Kernel

namespace Tracelet
open KernelMap

/-- `SyscallKind` of `src/filter.rs`. -/
inductive SyscallKind where
  | read | write | openat
  deriving DecidableEq

def SyscallKind.index : SyscallKind → UInt32
  | read => 0
  | write => 1
  | openat => 2

namespace Bpf

/-- One test of `log2_slot`: is anything left above the low `k` bits? -/
def halve (k : ℕ) (s : UInt32 × UInt64) : UInt32 × UInt64 :=
  if s.2 >>> UInt64.ofNat k ≠ 0 then (s.1 + UInt32.ofNat k, s.2 >>> UInt64.ofNat k) else s

/-- The last test does not shift `v` in the source, where `v` is not read again. -/
def log2Slot (v : UInt64) : UInt32 :=
  (halve 1 (halve 2 (halve 4 (halve 8 (halve 16 (halve 32 (0, v))))))).1

/-- `log2_slot` and the clamp to the last bucket. -/
def sampleSlot (delta : UInt64) : UInt32 :=
  let slot := log2Slot delta
  if slot ≥ UInt32.ofNat histSlots then UInt32.ofNat (histSlots - 1) else slot

abbrev LatencyHist := ArrayMap UInt64 (syscallCount * latencySlots)

/-- The three counters that `syscall_exit` updates for one sample. -/
def recordSample (hist : LatencyHist) (syscall : UInt32) (delta : UInt64) : LatencyHist :=
  let base := syscall * UInt32.ofNat latencySlots
  let hist := ArrayMap.modify hist (base + sampleSlot delta) (· + 1)
  let hist := ArrayMap.modify hist (base + UInt32.ofNat histSlots) (· + delta)
  ArrayMap.modify hist (base + UInt32.ofNat histSlots + 1) fun maxp =>
    if delta > maxp then delta else maxp

end Bpf

namespace Hist

structure Stats where
  count : UInt64
  sum : UInt64
  max : UInt64
  p50 : UInt64
  p95 : UInt64
  p99 : UInt64
  deriving DecidableEq

def upperBoundNs (slot : UInt32) : UInt64 :=
  if slot ≥ 63 then UInt64.ofNat (2 ^ 64 - 1) else 1 <<< (slot + 1).toUInt64

/-- The loop of `percentile`, which falls back to the last of `len` buckets. -/
def percentileFrom (rank : UInt64) (len : ℕ) : ℕ → UInt64 → List UInt64 → UInt64
  | _, _, [] => upperBoundNs (UInt32.ofNat (len - 1))
  | slot, seen, count :: counts =>
    if seen + count ≥ rank then upperBoundNs (UInt32.ofNat slot)
    else percentileFrom rank len (slot + 1) (seen + count) counts

def divCeil (a b : UInt64) : UInt64 := if a % b > 0 then a / b + 1 else a / b

def percentile (counts : List UInt64) (total p : UInt64) : UInt64 :=
  if total = 0 then 0 else percentileFrom (divCeil (p * total) 100) counts.length 0 0 counts

def summarize (counts : List UInt64) : Stats :=
  let hist := counts.take (min histSlots counts.length)
  let count := hist.sum
  { count
    sum := counts.getD histSlots 0
    max := counts.getD (histSlots + 1) 0
    p50 := percentile hist count 50
    p95 := percentile hist count 95
    p99 := percentile hist count 99 }

end Hist

namespace Latency

/-- `read_histogram`: one row of counters for each syscall. -/
def readHistogram (map : Bpf.LatencyHist) : List (List UInt64) :=
  (List.range syscallCount).map fun syscall =>
    (List.range latencySlots).map fun slot =>
      (ArrayMap.lookup map (UInt32.ofNat (syscall * latencySlots + slot))).getD 0

end Latency

namespace Bpf

/-- The bucket of a duration, clamped to the last one. -/
def bucket (n : ℕ) : ℕ := min (Nat.log2 n) (histSlots - 1)

/-- What holds of `r` and `v` when only the low `k` bits of `v` are left. -/
structure Halved (n k : ℕ) (s : UInt32 × UInt64) : Prop where
  low : s.2.toNat < 2 ^ k
  small : s.1.toNat + k ≤ 64
  log : s.1.toNat + Nat.log2 s.2.toNat = Nat.log2 n

theorem Halved.halve {n k : ℕ} {s : UInt32 × UInt64} (hk : k ≤ 32) (h : Halved n (2 * k) s) :
    Halved n k (halve k s) := by
  have hsmall := h.small
  have hshift : (s.2 >>> UInt64.ofNat k).toNat = s.2.toNat / 2 ^ k := by
    have hmod : k % 2 ^ 64 % 64 = k := by omega
    rw [UInt64.toNat_shiftRight, UInt64.toNat_ofNat', hmod, Nat.shiftRight_eq_div_pow]
  have hzero : s.2 >>> UInt64.ofNat k ≠ 0 ↔ 2 ^ k ≤ s.2.toNat := by
    rw [ne_eq, ← UInt64.toNat_inj, hshift]
    simp [Nat.div_eq_zero_iff]
  by_cases hv : s.2 >>> UInt64.ofNat k ≠ 0
  · -- something is left above the low `k` bits: shift it down and count them
    have hle : 2 ^ k ≤ s.2.toNat := hzero.mp hv
    have hlog : k ≤ Nat.log2 s.2.toNat :=
      (Nat.le_log2 (by have := Nat.two_pow_pos k; omega)).mpr hle
    have hadd : (s.1 + UInt32.ofNat k).toNat = s.1.toNat + k := by
      rw [UInt32.toNat_add, UInt32.toNat_ofNat']
      omega
    rw [Bpf.halve, if_pos hv]
    refine ⟨?_, ?_, ?_⟩
    · rw [hshift, Nat.div_lt_iff_lt_mul (Nat.two_pow_pos k), ← pow_add, ← two_mul]
      exact h.low
    · rw [hadd]
      omega
    · rw [hadd, hshift, Nat.log2_eq_log_two, Nat.log_div_base_pow, ← Nat.log2_eq_log_two, ← h.log]
      omega
  · rw [Bpf.halve, if_neg hv]
    exact ⟨by rwa [hzero, not_le] at hv, by omega, h.log⟩

theorem toNat_log2Slot (v : UInt64) : (log2Slot v).toNat = Nat.log2 v.toNat := by
  have h64 : Halved v.toNat (2 * 32) (0, v) := ⟨v.toNat_lt, le_rfl, by simp⟩
  have h1 := (((((h64.halve (by decide)).halve (k := 16) (by decide)).halve (k := 8)
    (by decide)).halve (k := 4) (by decide)).halve (k := 2) (by decide)).halve (k := 1) (by decide)
  have hlow := h1.low
  have hlog := h1.log
  rw [Nat.log2_def, if_neg (by omega), Nat.add_zero] at hlog
  exact hlog

theorem toNat_sampleSlot (delta : UInt64) : (sampleSlot delta).toNat = bucket delta.toNat := by
  have hle : log2Slot delta ≥ UInt32.ofNat histSlots ↔ histSlots ≤ Nat.log2 delta.toNat := by
    rw [ge_iff_le, UInt32.le_iff_toNat_le, toNat_log2Slot]
    rfl
  unfold sampleSlot bucket
  by_cases h : histSlots ≤ Nat.log2 delta.toNat
  · rw [if_pos (hle.mpr h), Nat.min_eq_right (by omega)]
    rfl
  · rw [if_neg (hle.not.mpr h), toNat_log2Slot, Nat.min_eq_left (by omega)]

theorem bucket_lt (n : ℕ) : bucket n < histSlots :=
  (min_le_right _ _).trans_lt (by decide)

theorem bucket_mono : Monotone bucket := by
  intro a b h
  unfold bucket
  rw [Nat.log2_eq_log_two, Nat.log2_eq_log_two]
  exact min_le_min_right _ (Nat.log_mono_right h)

def slotKey (k : SyscallKind) (i : ℕ) : UInt32 :=
  UInt32.ofNat (k.index.toNat * latencySlots + i)

def slotAt (hist : LatencyHist) (k : SyscallKind) (i : ℕ) : UInt64 :=
  (ArrayMap.lookup hist (slotKey k i)).getD 0

theorem toNat_slotKey (k : SyscallKind) {i : ℕ} (hi : i < latencySlots) :
    (slotKey k i).toNat = k.index.toNat * latencySlots + i ∧
      k.index.toNat * latencySlots + i < syscallCount * latencySlots := by
  have hk : k.index.toNat < syscallCount := by cases k <;> decide
  have hlt : k.index.toNat * latencySlots + i < syscallCount * latencySlots := by
    simp only [latencySlots, histSlots, syscallCount, Nat.reduceAdd] at *
    omega
  exact ⟨UInt32.toNat_ofNat_of_lt' (hlt.trans (by decide)), hlt⟩

theorem slotKey_inj {k k' : SyscallKind} {i j : ℕ} (hi : i < latencySlots) (hj : j < latencySlots) :
    slotKey k i = slotKey k' j ↔ k = k' ∧ i = j := by
  rw [← UInt32.toNat_inj, (toNat_slotKey k hi).1, (toNat_slotKey k' hj).1]
  constructor
  · intro h
    simp only [latencySlots, histSlots, Nat.reduceAdd] at *
    have hidx : k.index.toNat = k'.index.toNat := by omega
    have hkind : k = k' := by
      cases k <;> cases k' <;> first | rfl | exact absurd hidx (by decide)
    exact ⟨hkind, by omega⟩
  · rintro ⟨rfl, rfl⟩
    rfl

theorem base_add (k : SyscallKind) (i : UInt32) :
    k.index * UInt32.ofNat latencySlots + i = slotKey k i.toNat := by
  rw [slotKey, UInt32.ofNat_add (_ * _), UInt32.ofNat_mul, UInt32.ofNat_toNat, UInt32.ofNat_toNat]

theorem base_add_sum (k : SyscallKind) :
    k.index * UInt32.ofNat latencySlots + UInt32.ofNat histSlots = slotKey k histSlots :=
      base_add k _

theorem base_add_max (k : SyscallKind) :
    k.index * UInt32.ofNat latencySlots + UInt32.ofNat histSlots + 1 =
      slotKey k (histSlots + 1) := by
  rw [add_assoc, base_add]
  rfl

theorem recordSample_eq (hist : LatencyHist) (k : SyscallKind) (delta : UInt64) :
    recordSample hist k.index delta =
      ArrayMap.modify
        (ArrayMap.modify (ArrayMap.modify hist (slotKey k (bucket delta.toNat)) (· + 1))
          (slotKey k histSlots) (· + delta))
        (slotKey k (histSlots + 1)) fun maxp => if delta > maxp then delta else maxp := by
  simp only [recordSample]
  rw [base_add_max, base_add_sum, base_add, toNat_sampleSlot]

theorem lookup_slotKey (hist : LatencyHist) (k : SyscallKind) {i : ℕ} (hi : i < latencySlots) :
    ArrayMap.lookup hist (slotKey k i) = some (slotAt hist k i) := by
  have hlt : (slotKey k i).toNat < syscallCount * latencySlots := by
    rw [(toNat_slotKey k hi).1]
    exact (toNat_slotKey k hi).2
  rw [slotAt, ArrayMap.lookup_of_lt hist hlt, Option.getD_some]

theorem slotAt_modify (hist : LatencyHist) {k k' : SyscallKind} {i j : ℕ} (hi : i < latencySlots)
    (hj : j < latencySlots) (f : UInt64 → UInt64) :
    slotAt (ArrayMap.modify hist (slotKey k' j) f) k i =
      if k = k' ∧ i = j then f (slotAt hist k i) else slotAt hist k i := by
  rw [slotAt, ArrayMap.lookup_modify, lookup_slotKey hist k hi]
  simp only [slotKey_inj hi hj]
  split_ifs <;> rfl

/-- One sample touches its bucket, the sum and the maximum of its own syscall. -/
theorem slotAt_recordSample (hist : LatencyHist) (k k' : SyscallKind) (delta : UInt64) {i : ℕ}
    (hi : i < latencySlots) :
    slotAt (recordSample hist k'.index delta) k i =
      if k ≠ k' then slotAt hist k i
      else if i = histSlots then slotAt hist k i + delta
      else if i = histSlots + 1 then
        if delta > slotAt hist k i then delta else slotAt hist k i
      else if i = bucket delta.toNat then slotAt hist k i + 1
      else slotAt hist k i := by
  have hb := bucket_lt delta.toNat
  have hslot : bucket delta.toNat < latencySlots := hb.trans (by decide)
  -- three updates of one array, at keys that differ within the row of `k'`
  rw [recordSample_eq, slotAt_modify _ hi (by decide), slotAt_modify _ hi (by decide),
    slotAt_modify _ hi hslot]
  by_cases hk : k = k'
  · subst hk
    by_cases h1 : i = histSlots
    · have h2 : ¬ histSlots = bucket delta.toNat := by omega
      simp [h1, h2]
    · by_cases h2 : i = histSlots + 1
      · have h3 : ¬ histSlots + 1 = bucket delta.toNat := by omega
        simp [h2, h3]
      · simp [h1, h2]
  · simp [hk]

def samplesOf (k : SyscallKind) (samples : List (SyscallKind × UInt64)) : List UInt64 :=
  samples.filterMap fun s => if s.1 = k then some s.2 else none

def recordAll (samples : List (SyscallKind × UInt64)) : LatencyHist :=
  samples.foldl (fun hist s => recordSample hist s.1.index s.2)
    (Vector.replicate (syscallCount * latencySlots) 0)

section Samples

variable (samples : List (SyscallKind × UInt64)) (s : SyscallKind × UInt64) (k : SyscallKind)

theorem samplesOf_append :
    samplesOf k (samples ++ [s]) = samplesOf k samples ++ if s.1 = k then [s.2] else [] := by
  by_cases h : s.1 = k <;> simp [samplesOf, h]

theorem recordAll_append :
    recordAll (samples ++ [s]) = recordSample (recordAll samples) s.1.index s.2 := by
  simp only [recordAll, List.foldl_append, List.foldl_cons, List.foldl_nil]

theorem slotAt_recordAll_nil {i : ℕ} (hi : i < latencySlots) : slotAt (recordAll []) k i = 0 := by
  have hkey := toNat_slotKey k hi
  rw [slotAt, recordAll, List.foldl_nil, ArrayMap.lookup_replicate _ (by rw [hkey.1]; exact hkey.2),
    Option.getD_some]

theorem slotAt_recordAll_eq_zero (h : ∀ s ∈ samples, s.1 ≠ k) {i : ℕ} (hi : i < latencySlots) :
    slotAt (recordAll samples) k i = 0 := by
  induction samples using List.reverseRecOn with
  | nil => exact slotAt_recordAll_nil k hi
  | append_singleton samples s ih =>
    have hs : k ≠ s.1 := (h s (by simp)).symm
    rw [recordAll_append, slotAt_recordSample _ _ _ _ hi, if_pos hs]
    exact ih fun s' hs' => h s' (List.mem_append_left _ hs')

theorem slotAt_recordAll_bucket {i : ℕ} (hi : i < histSlots) :
    slotAt (recordAll samples) k i =
      UInt64.ofNat ((samplesOf k samples).countP fun x => bucket x.toNat = i) := by
  have hi' : i < latencySlots := hi.trans (by decide)
  induction samples using List.reverseRecOn with
  | nil => exact slotAt_recordAll_nil k hi'
  | append_singleton samples s ih =>
    rw [recordAll_append, slotAt_recordSample _ _ _ _ hi', samplesOf_append, ih]
    by_cases hk : s.1 = k
    · by_cases hb : bucket s.2.toNat = i
      · simp [hk, hb, hi.ne, (hi.trans (Nat.lt_succ_self _)).ne, UInt64.ofNat_add]
      · simp [hk, hb, Ne.symm hb, hi.ne, (hi.trans (Nat.lt_succ_self _)).ne]
    · simp [hk, Ne.symm hk]

theorem slotAt_recordAll_sum :
    slotAt (recordAll samples) k histSlots = (samplesOf k samples).sum := by
  induction samples using List.reverseRecOn with
  | nil => exact slotAt_recordAll_nil k (by decide)
  | append_singleton samples s ih =>
    rw [recordAll_append, slotAt_recordSample _ _ _ _ (by decide), samplesOf_append, ih]
    by_cases hk : s.1 = k
    · simp [hk]
    · simp [hk, Ne.symm hk]

theorem slotAt_recordAll_max :
    (slotAt (recordAll samples) k (histSlots + 1)).toNat =
      ((samplesOf k samples).map UInt64.toNat).foldl max 0 := by
  induction samples using List.reverseRecOn with
  | nil => rw [slotAt_recordAll_nil k (by decide)]; rfl
  | append_singleton samples s ih =>
    have hne : ¬ histSlots + 1 = histSlots := by decide
    rw [recordAll_append, slotAt_recordSample _ _ _ _ (by decide), samplesOf_append, if_neg hne,
      if_pos rfl]
    by_cases hk : s.1 = k
    · rw [if_neg (not_not.mpr hk.symm), if_pos hk, List.map_append, List.foldl_append, ← ih]
      by_cases hlt : s.2 > slotAt (recordAll samples) k (histSlots + 1)
      · have hle := UInt64.lt_iff_toNat_lt.mp hlt
        rw [if_pos hlt]
        simp only [List.map_cons, List.map_nil, List.foldl_cons, List.foldl_nil]
        omega
      · have hle := UInt64.le_iff_toNat_le.mp (UInt64.not_lt.mp hlt)
        rw [if_neg hlt]
        simp only [List.map_cons, List.map_nil, List.foldl_cons, List.foldl_nil]
        omega
    · simp [hk, Ne.symm hk, ih]

end Samples

end Bpf

namespace Hist
open Bpf NearestRank

theorem toNat_upperBoundNs {b : ℕ} (hb : b < histSlots) :
    (upperBoundNs (UInt32.ofNat b)).toNat = 2 ^ (b + 1) := by
  revert b
  decide

theorem percentileFrom_map {r len slot seen : ℕ} {cs : List ℕ} (hr : r < 2 ^ 64)
    (hsum : seen + cs.sum < 2 ^ 64) :
    percentileFrom (UInt64.ofNat r) len slot (UInt64.ofNat seen) (cs.map UInt64.ofNat) =
      upperBoundNs (UInt32.ofNat ((firstReaching r slot seen cs).getD (len - 1))) := by
  induction cs generalizing slot seen with
  | nil => rfl
  | cons c cs ih =>
    rw [List.sum_cons, ← Nat.add_assoc] at hsum
    -- below `2 ^ 64` the comparison is that of the numbers
    have hsc : seen + c < 2 ^ 64 := by omega
    have hge : UInt64.ofNat seen + UInt64.ofNat c ≥ UInt64.ofNat r ↔ r ≤ seen + c := by
      rw [← UInt64.ofNat_add, ge_iff_le, UInt64.le_iff_toNat_le, UInt64.toNat_ofNat_of_lt' hr,
        UInt64.toNat_ofNat_of_lt' hsc]
    rw [List.map_cons, percentileFrom, firstReaching]
    by_cases h : r ≤ seen + c
    · rw [if_pos (hge.mpr h), if_pos h, Option.getD_some]
    · rw [if_neg (hge.not.mpr h), if_neg h, ← UInt64.ofNat_add, ih hsum]

theorem divCeil_eq_rank {p n : ℕ} (h : p * n < 2 ^ 64) :
    divCeil (UInt64.ofNat p * UInt64.ofNat n) 100 = UInt64.ofNat (rank p n) := by
  have hmul : (UInt64.ofNat p * UInt64.ofNat n).toNat = p * n := by
    rw [← UInt64.ofNat_mul, UInt64.toNat_ofNat_of_lt' h]
  have hrem : UInt64.ofNat p * UInt64.ofNat n % 100 > 0 ↔ 0 < p * n % 100 := by
    rw [gt_iff_lt, UInt64.lt_iff_toNat_lt, UInt64.toNat_mod, hmul]
    rfl
  have hdiv : (UInt64.ofNat p * UInt64.ofNat n / 100).toNat = p * n / 100 := by
    rw [UInt64.toNat_div, hmul]
    rfl
  apply UInt64.toNat_inj.mp
  rw [UInt64.toNat_ofNat', divCeil, rank]
  by_cases hz : 0 < p * n % 100
  · rw [if_pos (hrem.mpr hz), UInt64.toNat_add, hdiv]
    change (p * n / 100 + 1) % 2 ^ 64 = _
    omega
  · rw [if_neg (hrem.not.mpr hz), hdiv]
    omega

theorem sum_map_ofNat (cs : List ℕ) : (cs.map UInt64.ofNat).sum = UInt64.ofNat cs.sum := by
  induction cs with
  | nil => rfl
  | cons c cs ih => rw [List.map_cons, List.sum_cons, List.sum_cons, ih, UInt64.ofNat_add]

/-- The reported value is the bound of the bucket of the order statistic. -/
theorem percentile_bucketCounts {p : ℕ} {ns : List ℕ} {x : ℕ} (hp : 0 < p) (hne : ns ≠ [])
    (hlen : p * ns.length < 2 ^ 64) (hx : kthSmallest ns (rank p ns.length) = some x) :
    percentile ((bucketCounts bucket histSlots ns).map UInt64.ofNat) (UInt64.ofNat ns.length)
      (UInt64.ofNat p) = upperBoundNs (UInt32.ofNat (bucket x)) := by
  have hpos : 0 < ns.length := List.length_pos_of_ne_nil hne
  have hn : ns.length < 2 ^ 64 := (Nat.le_mul_of_pos_left _ hp).trans_lt hlen
  have htotal : UInt64.ofNat ns.length ≠ 0 := by
    rw [ne_eq, ← UInt64.toNat_inj, UInt64.toNat_ofNat_of_lt' hn]
    exact hpos.ne'
  have hrank : rank p ns.length < 2 ^ 64 := by
    unfold rank
    omega
  have hsum : 0 + (bucketCounts bucket histSlots ns).sum < 2 ^ 64 := by
    rw [Nat.zero_add, sum_bucketCounts bucket_lt]
    exact hn
  rw [percentile, if_neg htotal, divCeil_eq_rank hlen]
  have hscan := firstReaching_bucketCounts bucket_mono bucket_lt (rank_pos hp hpos) hx
  exact (percentileFrom_map hrank hsum).trans (by rw [hscan, Option.getD_some])

theorem readHistogram_index (hist : LatencyHist) (k : SyscallKind) :
    (Latency.readHistogram hist)[k.index.toNat]? =
      some ((List.range latencySlots).map (slotAt hist k)) := by
  cases k <;> rfl

theorem take_row (samples : List (SyscallKind × UInt64)) (k : SyscallKind) :
    ((List.range latencySlots).map (slotAt (recordAll samples) k)).take histSlots =
      (bucketCounts bucket histSlots ((samplesOf k samples).map UInt64.toNat)).map
        UInt64.ofNat := by
  rw [← List.map_take, List.take_range, bucketCounts, List.map_map, Nat.min_eq_left (by decide)]
  apply List.map_congr_left
  intro i hi
  rw [slotAt_recordAll_bucket samples k (List.mem_range.mp hi), Function.comp_apply,
    List.countP_map]
  rfl

def reported (xs : List UInt64) (p : ℕ) : UInt64 :=
  percentile ((bucketCounts bucket histSlots (xs.map UInt64.toNat)).map UInt64.ofNat)
    (UInt64.ofNat xs.length) (UInt64.ofNat p)

theorem summarize_row (samples : List (SyscallKind × UInt64)) (k : SyscallKind) :
    summarize ((List.range latencySlots).map (slotAt (recordAll samples) k)) =
      { count := UInt64.ofNat (samplesOf k samples).length
        sum := (samplesOf k samples).sum
        max := slotAt (recordAll samples) k (histSlots + 1)
        p50 := reported (samplesOf k samples) 50
        p95 := reported (samplesOf k samples) 95
        p99 := reported (samplesOf k samples) 99 } := by
  have hmin : min histSlots ((List.range latencySlots).map (slotAt (recordAll samples) k)).length =
      histSlots := by simp
  have hcount : ((bucketCounts bucket histSlots
      ((samplesOf k samples).map UInt64.toNat)).map UInt64.ofNat).sum =
        UInt64.ofNat (samplesOf k samples).length := by
    rw [sum_map_ofNat, sum_bucketCounts bucket_lt, List.length_map]
  simp only [summarize, hmin, take_row, hcount, ← slotAt_recordAll_sum]
  rfl

def Stats.percentiles (stats : Stats) : List (ℕ × UInt64) :=
  [(50, stats.p50), (95, stats.p95), (99, stats.p99)]

/-- A sample lies between half of its bucket's bound and the bound. -/
theorem upperBoundNs_bracket {x : ℕ} (h1 : 1 ≤ x) (h2 : x < 2 ^ 32) :
    (upperBoundNs (UInt32.ofNat (bucket x))).toNat ≤ 2 * x ∧
      x < (upperBoundNs (UInt32.ofNat (bucket x))).toNat := by
  have hlog : Nat.log2 x < 32 := (Nat.log2_lt (by omega)).mpr h2
  have hbucket : bucket x = Nat.log2 x := Nat.min_eq_left (Nat.le_sub_one_of_lt hlog)
  rw [toNat_upperBoundNs (bucket_lt x), hbucket, pow_succ']
  have hlow := Nat.log2_self_le (n := x) (by omega)
  have hhigh := Nat.lt_log2_self (n := x)
  rw [pow_succ'] at hhigh
  omega

theorem upperBoundNs_mono {a b : ℕ} (h : a ≤ b) :
    upperBoundNs (UInt32.ofNat (bucket a)) ≤ upperBoundNs (UInt32.ofNat (bucket b)) := by
  rw [UInt64.le_iff_toNat_le, toNat_upperBoundNs (bucket_lt a), toNat_upperBoundNs (bucket_lt b)]
  exact Nat.pow_le_pow_right (by decide) (Nat.succ_le_succ (bucket_mono h))

section Reported

variable {xs : List UInt64} (hne : xs ≠ []) (hlen : 99 * xs.length < 2 ^ 64)
include hne hlen

theorem reported_eq {p : ℕ} (h0 : 0 < p) (h99 : p ≤ 99) :
    ∃ x ∈ xs, kthSmallest (xs.map UInt64.toNat) (rank p xs.length) = some x.toNat ∧
      reported xs p = upperBoundNs (UInt32.ofNat (bucket x.toNat)) := by
  have hmap : (xs.map UInt64.toNat).length = xs.length := List.length_map _
  have hpos : 0 < xs.length := List.length_pos_of_ne_nil hne
  have hrank : rank p xs.length ≤ (xs.map UInt64.toNat).length := by
    rw [hmap]
    exact rank_le (by omega)
  obtain ⟨n, hn⟩ := exists_kthSmallest (rank_pos h0 hpos) hrank
  obtain ⟨x, hx, rfl⟩ := List.mem_map.mp (kthSmallest_mem hn)
  have hlen' : p * (xs.map UInt64.toNat).length < 2 ^ 64 := by
    rw [hmap]
    exact (Nat.mul_le_mul_right _ h99).trans_lt hlen
  have hreported := percentile_bucketCounts h0 (by simpa using hne) hlen' (by rwa [hmap])
  rw [hmap] at hreported
  exact ⟨x, hx, hn, hreported⟩

theorem reported_bracket {p : ℕ} (h0 : 0 < p) (h99 : p ≤ 99) :
    ∃ x ∈ xs, kthSmallest (xs.map UInt64.toNat) (rank p xs.length) = some x.toNat ∧
      reported xs p = upperBoundNs (sampleSlot x) ∧
      (1 ≤ x.toNat → x.toNat < 2 ^ 32 →
        (reported xs p).toNat ≤ 2 * x.toNat ∧ x.toNat < (reported xs p).toNat) := by
  obtain ⟨x, hx, hk, hp⟩ := reported_eq hne hlen h0 h99
  have hslot : sampleSlot x = UInt32.ofNat (bucket x.toNat) := by
    rw [← toNat_sampleSlot, UInt32.ofNat_toNat]
  refine ⟨x, hx, hk, by rw [hp, hslot], fun h1 h2 => ?_⟩
  rw [hp]
  exact upperBoundNs_bracket h1 h2

theorem reported_mono {p q : ℕ} (h0 : 0 < p) (hpq : p ≤ q) (h99 : q ≤ 99) :
    reported xs p ≤ reported xs q := by
  obtain ⟨x, -, hx, hp⟩ := reported_eq hne hlen h0 (hpq.trans h99)
  obtain ⟨y, -, hy, hq⟩ := reported_eq hne hlen (h0.trans_le hpq) h99
  rw [hp, hq]
  exact upperBoundNs_mono (kthSmallest_mono (rank_mono hpq _) hx hy)

end Reported

/-- The reported percentiles bracket the true ones. -/
theorem percentiles_bracket (samples : List (SyscallKind × UInt64)) (k : SyscallKind)
    (hne : samplesOf k samples ≠ []) (hlen : 99 * (samplesOf k samples).length < 2 ^ 64) :
    ∃ row, (Latency.readHistogram (recordAll samples))[k.index.toNat]? = some row ∧
      (∀ pr ∈ (summarize row).percentiles, ∃ x ∈ samplesOf k samples,
        kthSmallest ((samplesOf k samples).map UInt64.toNat)
          (rank pr.1 (samplesOf k samples).length) = some x.toNat ∧
        pr.2 = upperBoundNs (sampleSlot x) ∧
        (1 ≤ x.toNat → x.toNat < 2 ^ 32 → pr.2.toNat ≤ 2 * x.toNat ∧ x.toNat < pr.2.toNat)) ∧
      (summarize row).p50 ≤ (summarize row).p95 ∧ (summarize row).p95 ≤ (summarize row).p99 := by
  refine ⟨_, readHistogram_index _ k, ?_⟩
  rw [summarize_row]
  refine ⟨?_, reported_mono hne hlen (by decide) (by decide) (by decide),
    reported_mono hne hlen (by decide) (by decide) (by decide)⟩
  simp only [Stats.percentiles, List.forall_mem_cons]
  exact ⟨reported_bracket hne hlen (by decide) (by decide),
    reported_bracket hne hlen (by decide) (by decide),
    reported_bracket hne hlen (by decide) (by decide), by simp⟩

def twoReads : List (SyscallKind × UInt64) := [(.read, 3), (.write, 5000), (.read, 100)]

theorem percentiles_bracket_twoReads :
    ∃ row, (Latency.readHistogram (recordAll twoReads))[0]? = some row ∧
      ∀ pr ∈ (summarize row).percentiles, ∃ x ∈ [3, 100], pr.2 = upperBoundNs (sampleSlot x) := by
  obtain ⟨row, hrow, hall, -⟩ := percentiles_bracket twoReads .read (by decide) (by decide)
  refine ⟨row, hrow, fun pr hpr => ?_⟩
  obtain ⟨x, hx, -, heq, -⟩ := hall pr hpr
  exact ⟨x, hx, heq⟩

end Hist
end Tracelet
