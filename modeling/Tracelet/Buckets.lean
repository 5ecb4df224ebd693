import Tracelet.Hist

namespace Tracelet

namespace Hist

/-- `u64::leading_zeros`. -/
def leadingZeros (n : UInt64) : UInt32 := UInt32.ofNat n.toBitVec.clz.toNat

/-- `c_slot_for_ns` of the tests. -/
def cSlotForNs (ns : UInt64) : UInt32 :=
  if ns = 0 then 0 else min (63 - leadingZeros ns) (UInt32.ofNat (histSlots - 1))

open Bpf

theorem toNat_leadingZeros {n : UInt64} (h : n ≠ 0) :
    (leadingZeros n).toNat + Nat.log2 n.toNat = 63 := by
  have hbits : n.toBitVec ≠ 0#64 := fun h0 => h (UInt64.toBitVec_inj.mp h0)
  have hlt : n.toBitVec.clz.toNat < 64 := BitVec.lt_def.mp (BitVec.clz_lt_iff_ne_zero.mpr hbits)
  have hlow : 2 ^ (63 - n.toBitVec.clz.toNat) ≤ n.toNat :=
    BitVec.two_pow_sub_clz_le_toNat_of_ne_zero (by decide) hbits
  have hhigh : n.toNat < 2 ^ (64 - n.toBitVec.clz.toNat) := BitVec.toNat_lt_two_pow_sub_clz
  have hpos : n.toNat ≠ 0 := fun h0 => h (UInt64.toNat_inj.mp h0)
  have hlog : Nat.log2 n.toNat = 63 - n.toBitVec.clz.toNat := by
    rw [Nat.log2_eq_iff hpos]
    refine ⟨hlow, ?_⟩
    rwa [show 63 - n.toBitVec.clz.toNat + 1 = 64 - n.toBitVec.clz.toNat by omega]
  rw [hlog, leadingZeros, UInt32.toNat_ofNat_of_lt' (hlt.trans (by decide))]
  omega

theorem sampleSlot_eq_cSlotForNs (delta : UInt64) : sampleSlot delta = cSlotForNs delta := by
  apply UInt32.toNat_inj.mp
  rw [toNat_sampleSlot, bucket, cSlotForNs]
  by_cases h : delta = 0
  · rw [if_pos h, h]
    rfl
  · have hzeros := toNat_leadingZeros h
    have hsub : (63 - leadingZeros delta).toNat = Nat.log2 delta.toNat := by
      have hle : leadingZeros delta ≤ 63 := UInt32.le_iff_toNat_le.mpr (by
        change (leadingZeros delta).toNat ≤ 63
        omega)
      rw [UInt32.toNat_sub_of_le _ _ hle]
      change 63 - (leadingZeros delta).toNat = _
      omega
    rw [if_neg h, UInt32.toNat_min, hsub]
    rfl

theorem log2Slot_mono {v w : UInt64} (h : v ≤ w) : log2Slot v ≤ log2Slot w := by
  rw [UInt32.le_iff_toNat_le, toNat_log2Slot, toNat_log2Slot, Nat.log2_eq_log_two,
    Nat.log2_eq_log_two]
  exact Nat.log_mono_right (UInt64.le_iff_toNat_le.mp h)

/-- The duration lies in its bucket: from `2 ^ b`, the bound of the bucket
before, up to the bound of its own. -/
structure InBucket (v : UInt64) (b : UInt32) : Prop where
  low : 2 ^ b.toNat ≤ v.toNat
  high : v < upperBoundNs b
  before : 1 ≤ b → upperBoundNs (b - 1) ≤ v

theorem inBucket_of_lt {v : UInt64} (h1 : 1 ≤ v.toNat) (h2 : v.toNat < 2 ^ 32) :
    InBucket v (log2Slot v) := by
  have hslot := toNat_log2Slot v
  have hlt : (log2Slot v).toNat < histSlots := by
    rw [hslot]
    exact (Nat.log2_lt (by omega)).mpr h2
  have hbound {b : UInt32} (hb : b.toNat < histSlots) : (upperBoundNs b).toNat =
      2 ^ (b.toNat + 1) := by
    rw [← toNat_upperBoundNs hb, UInt32.ofNat_toNat]
  -- the slot is the position of the highest bit, so the value lies between two powers of two
  have hlow : 2 ^ (log2Slot v).toNat ≤ v.toNat := by
    rw [hslot]
    exact Nat.log2_self_le (by omega)
  refine ⟨hlow, ?_, fun hpos => ?_⟩
  · rw [UInt64.lt_iff_toNat_lt, hbound hlt, hslot]
    exact Nat.lt_log2_self
  · have hsub : (log2Slot v - 1).toNat + 1 = (log2Slot v).toNat := by
      have hge : 1 ≤ (log2Slot v).toNat := UInt32.le_iff_toNat_le.mp hpos
      rw [UInt32.toNat_sub_of_le _ _ hpos]
      change (log2Slot v).toNat - 1 + 1 = _
      omega
    rw [UInt64.le_iff_toNat_le, hbound (by omega), hsub]
    exact hlow

theorem sampleSlot_of_le {v : UInt64} (h : 2 ^ 32 ≤ v.toNat) :
    sampleSlot v = UInt32.ofNat (histSlots - 1) := by
  apply UInt32.toNat_inj.mp
  have hlog : 32 ≤ Nat.log2 v.toNat := (Nat.le_log2 (by omega)).mpr h
  rw [toNat_sampleSlot, bucket, Nat.min_eq_right ((by decide : histSlots - 1 ≤ 32).trans hlog)]
  rfl

theorem sampleSlot_of_lt {v : UInt64} (h : v.toNat < 2 ^ 32) : sampleSlot v = log2Slot v := by
  apply UInt32.toNat_inj.mp
  have hlog : Nat.log2 v.toNat ≤ histSlots - 1 := by
    by_cases h0 : v.toNat = 0
    · rw [h0]
      decide
    · exact Nat.le_sub_one_of_lt ((Nat.log2_lt h0).mpr h)
  rw [toNat_sampleSlot, toNat_log2Slot, bucket, Nat.min_eq_left hlog]

/-- `log2_slot` is the binary logarithm rounded down, the clamped slot is that
of the tests, and `upper_bound_ns` bounds every bucket but the last one. -/
theorem log2Slot_agrees (v : UInt64) :
    ((v ≠ 0 → (log2Slot v).toNat = Nat.log 2 v.toNat) ∧ (v = 0 → log2Slot v = 0)) ∧
      sampleSlot v = cSlotForNs v ∧
      (∀ w, v ≤ w → log2Slot v ≤ log2Slot w) ∧
      (1 ≤ v.toNat → v.toNat < 2 ^ 32 → sampleSlot v = log2Slot v ∧ InBucket v (log2Slot v)) ∧
      (2 ^ 32 ≤ v.toNat → sampleSlot v = UInt32.ofNat (histSlots - 1)) := by
  refine ⟨⟨fun _ => ?_, fun h => ?_⟩, sampleSlot_eq_cSlotForNs v, fun w => log2Slot_mono,
    fun h1 h2 => ⟨sampleSlot_of_lt h2, inBucket_of_lt h1 h2⟩, sampleSlot_of_le⟩
  · rw [toNat_log2Slot, Nat.log2_eq_log_two]
  · rw [h]
    rfl

end Hist

end Tracelet
