import Mathlib

namespace ByteMemory

/-- Byte `i` of the block; reads past its end give `0`. -/
def byteAt (m : List UInt8) (i : ℕ) : UInt8 := m.getD i 0

def leBytes : ℕ → ℕ → List UInt8
  | 0, _ => []
  | w + 1, n => UInt8.ofNat n :: leBytes w (n / 256)

/-- The number spelled by the `w` bytes from `off` on. -/
def leNat (m : List UInt8) : ℕ → ℕ → ℕ
  | _, 0 => 0
  | off, w + 1 => (byteAt m off).toNat + 256 * leNat m (off + 1) w

/-- Overwrite the bytes from `off` on by `bs`. -/
def store (m : List UInt8) (off : ℕ) (bs : List UInt8) : List UInt8 :=
  m.take off ++ bs ++ m.drop (off + bs.length)

def u16At (m : List UInt8) (off : ℕ) : UInt16 := UInt16.ofNat (leNat m off 2)
def u32At (m : List UInt8) (off : ℕ) : UInt32 := UInt32.ofNat (leNat m off 4)
def u64At (m : List UInt8) (off : ℕ) : UInt64 := UInt64.ofNat (leNat m off 8)

def arrayAt (m : List UInt8) (off n : ℕ) : Vector UInt8 n :=
  Vector.ofFn fun i => byteAt m (off + i)

def storeU8 (m : List UInt8) (off : ℕ) (v : UInt8) : List UInt8 := store m off [v]
def storeU16 (m : List UInt8) (off : ℕ) (v : UInt16) : List UInt8 := store m off (leBytes 2 v.toNat)
def storeU32 (m : List UInt8) (off : ℕ) (v : UInt32) : List UInt8 := store m off (leBytes 4 v.toNat)
def storeU64 (m : List UInt8) (off : ℕ) (v : UInt64) : List UInt8 := store m off (leBytes 8 v.toNat)

@[simp] theorem length_leBytes (w n : ℕ) : (leBytes w n).length = w := by
  induction w generalizing n with
  | zero => rfl
  | succ w ih => simp [leBytes, ih]

theorem length_store {m bs : List UInt8} {off : ℕ} (h : off + bs.length ≤ m.length) :
    (store m off bs).length = m.length := by
  simp only [store, List.length_append, List.length_take, List.length_drop]
  omega

theorem byteAt_store {m bs : List UInt8} {off : ℕ} (h : off ≤ m.length) (i : ℕ) :
    byteAt (store m off bs) i =
      if off ≤ i ∧ i < off + bs.length then byteAt bs (i - off) else byteAt m i := by
  have hlen : (m.take off).length = off := by simp [h]
  simp only [byteAt, store, List.getD_eq_getElem?_getD, List.append_assoc]
  -- in front of the stored bytes, among them, or behind them
  rcases Nat.lt_or_ge i off with hlow | hlow
  · rw [List.getElem?_append_left (by omega), List.getElem?_take_of_lt hlow, if_neg (by omega)]
  · rw [List.getElem?_append_right (by omega), hlen]
    rcases Nat.lt_or_ge i (off + bs.length) with hin | hout
    · rw [List.getElem?_append_left (by omega), if_pos ⟨hlow, hin⟩]
    · rw [List.getElem?_append_right (by omega), List.getElem?_drop, if_neg (by omega)]
      congr 2
      omega

theorem byteAt_store_of_disjoint {m bs : List UInt8} {off i : ℕ} (h : off ≤ m.length)
    (hi : i < off ∨ off + bs.length ≤ i) : byteAt (store m off bs) i = byteAt m i := by
  rw [byteAt_store h, if_neg (by omega)]

theorem byteAt_store_inside {m bs : List UInt8} {off i : ℕ} (h : off ≤ m.length)
    (hi : i < bs.length) : byteAt (store m off bs) (off + i) = byteAt bs i := by
  rw [byteAt_store h, if_pos (by omega), Nat.add_sub_cancel_left]

theorem leNat_congr {m m' : List UInt8} {off off' w : ℕ}
    (h : ∀ i < w, byteAt m (off + i) = byteAt m' (off' + i)) : leNat m off w = leNat m' off' w := by
  induction w generalizing off off' with
  | zero => rfl
  | succ w ih =>
    have h0 := h 0 (by omega)
    have hw : leNat m (off + 1) w = leNat m' (off' + 1) w :=
      ih fun i hi => by simpa only [Nat.add_assoc, Nat.add_comm 1] using h (i + 1) (by omega)
    simp only [leNat, hw, show byteAt m off = byteAt m' off' from h0]

theorem byteAt_drop (m : List UInt8) (k i : ℕ) : byteAt (m.drop k) i = byteAt m (k + i) := by
  simp [byteAt, List.getD_eq_getElem?_getD]

theorem leNat_drop (m : List UInt8) (k off w : ℕ) : leNat (m.drop k) off w = leNat m (k + off) w :=
  leNat_congr fun i _ => by rw [byteAt_drop, Nat.add_assoc]

theorem leNat_cons (b : UInt8) (bs : List UInt8) (off w : ℕ) :
    leNat (b :: bs) (off + 1) w = leNat bs off w :=
  leNat_congr fun i _ => by
    rw [byteAt, byteAt, show off + 1 + i = (off + i) + 1 by omega, List.getD_cons_succ]

theorem leNat_leBytes (w n : ℕ) : leNat (leBytes w n) 0 w = n % 256 ^ w := by
  induction w generalizing n with
  | zero => simp [leNat, Nat.mod_one]
  | succ w ih =>
    have hb : (byteAt (leBytes (w + 1) n) 0).toNat = n % 256 := UInt8.toNat_ofNat'
    rw [leNat, hb, leBytes, leNat_cons, ih, pow_succ', Nat.mod_mul]

@[simp] theorem u16At_drop (m : List UInt8) (k off : ℕ) :
    u16At (m.drop k) off = u16At m (k + off) := by
  rw [u16At, leNat_drop, u16At]

@[simp] theorem u32At_drop (m : List UInt8) (k off : ℕ) :
    u32At (m.drop k) off = u32At m (k + off) := by
  rw [u32At, leNat_drop, u32At]

@[simp] theorem u64At_drop (m : List UInt8) (k off : ℕ) :
    u64At (m.drop k) off = u64At m (k + off) := by
  rw [u64At, leNat_drop, u64At]

theorem arrayAt_congr {m m' : List UInt8} {off off' n : ℕ}
    (h : ∀ i < n, byteAt m (off + i) = byteAt m' (off' + i)) :
    arrayAt m off n = arrayAt m' off' n := by
  ext i hi
  simp only [arrayAt, Vector.getElem_ofFn, h i hi]

@[simp] theorem arrayAt_drop (m : List UInt8) (k off n : ℕ) :
    arrayAt (m.drop k) off n = arrayAt m (k + off) n :=
  arrayAt_congr fun i _ => by rw [byteAt_drop, Nat.add_assoc]

@[simp] theorem toList_arrayAt (m : List UInt8) (off n : ℕ) :
    (arrayAt m off n).toList = List.ofFn fun i : Fin n => byteAt m (off + i) := by
  simp [arrayAt, Vector.toList_ofFn]

/-- Store each of the fields at its offset, one after the other. -/
def storeAll (m : List UInt8) : List (ℕ × List UInt8) → List UInt8
  | [] => m
  | (off, bs) :: fs => storeAll (store m off bs) fs

/-- The fields lie between `lo` and `hi`, in ascending order and without overlap. -/
def LaidOut (lo hi : ℕ) : List (ℕ × List UInt8) → Prop
  | [] => lo ≤ hi
  | (off, bs) :: fs => lo ≤ off ∧ LaidOut (off + bs.length) hi fs

section Fields

variable {m bs : List UInt8} {fs : List (ℕ × List UInt8)} {lo hi off n : ℕ}

theorem LaidOut.le (h : LaidOut lo hi fs) : lo ≤ hi := by
  induction fs generalizing lo with
  | nil => exact h
  | cons f fs ih => exact (h.1.trans (Nat.le_add_right _ _)).trans (ih h.2)

theorem length_storeAll (h : LaidOut lo m.length fs) : (storeAll m fs).length = m.length := by
  induction fs generalizing m lo with
  | nil => rfl
  | cons f fs ih =>
    have hs : (store m f.1 f.2).length = m.length := length_store h.2.le
    rw [storeAll, ih (hs.symm ▸ h.2), hs]

theorem byteAt_storeAll_of_outside (h : LaidOut lo m.length fs) {i : ℕ}
    (hi : ∀ f ∈ fs, i < f.1 ∨ f.1 + f.2.length ≤ i) : byteAt (storeAll m fs) i = byteAt m i := by
  induction fs generalizing m lo with
  | nil => rfl
  | cons f fs ih =>
    have hs : (store m f.1 f.2).length = m.length := length_store h.2.le
    rw [storeAll, ih (hs.symm ▸ h.2) fun g hg => hi g (List.mem_cons_of_mem _ hg)]
    exact byteAt_store_of_disjoint ((Nat.le_add_right _ _).trans h.2.le) (hi f List.mem_cons_self)

theorem LaidOut.le_of_mem (h : LaidOut lo hi fs) {f : ℕ × List UInt8} (hf : f ∈ fs) : lo ≤ f.1 := by
  induction fs generalizing lo with
  | nil => cases hf
  | cons g fs ih =>
    rcases List.mem_cons.mp hf with rfl | hf
    · exact h.1
    · exact (h.1.trans (Nat.le_add_right _ _)).trans (ih h.2 hf)

theorem byteAt_storeAll_of_mem (h : LaidOut lo m.length fs) (hf : (off, bs) ∈ fs) {i : ℕ}
    (hi : i < bs.length) : byteAt (storeAll m fs) (off + i) = byteAt bs i := by
  induction fs generalizing m lo with
  | nil => cases hf
  | cons f fs ih =>
    have hs : (store m f.1 f.2).length = m.length := length_store h.2.le
    rcases List.mem_cons.mp hf with rfl | hf
    · -- the later fields lie behind this one
      rw [storeAll, byteAt_storeAll_of_outside (hs.symm ▸ h.2)]
      · exact byteAt_store_inside ((Nat.le_add_right _ _).trans h.2.le) hi
      · intro g hg
        have hle : off + bs.length ≤ g.1 := h.2.le_of_mem hg
        omega
    · exact ih (hs.symm ▸ h.2) hf

theorem leNat_storeAll (h : LaidOut lo m.length fs) {w v : ℕ} (hf : (off, leBytes w v) ∈ fs)
    (hv : v < 256 ^ w) : leNat (storeAll m fs) off w = v := by
  calc leNat (storeAll m fs) off w
      = leNat (leBytes w v) 0 w := leNat_congr fun i hi => by
        rw [byteAt_storeAll_of_mem h hf (by simpa using hi), Nat.zero_add]
    _ = v := by rw [leNat_leBytes, Nat.mod_eq_of_lt hv]

theorem byteAt_storeAll (h : LaidOut lo m.length fs) {v : UInt8} (hf : (off, [v]) ∈ fs) :
    byteAt (storeAll m fs) off = v :=
  byteAt_storeAll_of_mem h hf Nat.zero_lt_one

theorem u16At_storeAll (h : LaidOut lo m.length fs) {v : UInt16}
    (hf : (off, leBytes 2 v.toNat) ∈ fs) : u16At (storeAll m fs) off = v := by
  rw [u16At, leNat_storeAll h hf (v.toNat_lt.trans_eq (by norm_num)), UInt16.ofNat_toNat]

theorem u32At_storeAll (h : LaidOut lo m.length fs) {v : UInt32}
    (hf : (off, leBytes 4 v.toNat) ∈ fs) : u32At (storeAll m fs) off = v := by
  rw [u32At, leNat_storeAll h hf (v.toNat_lt.trans_eq (by norm_num)), UInt32.ofNat_toNat]

theorem u64At_storeAll (h : LaidOut lo m.length fs) {v : UInt64}
    (hf : (off, leBytes 8 v.toNat) ∈ fs) : u64At (storeAll m fs) off = v := by
  rw [u64At, leNat_storeAll h hf (v.toNat_lt.trans_eq (by norm_num)), UInt64.ofNat_toNat]

/-- A field that covers only the front of an array leaves its old tail behind. -/
theorem toList_arrayAt_storeAll (h : LaidOut lo m.length fs) (hf : (off, bs) ∈ fs)
    (hn : bs.length ≤ n)
    (hout : ∀ f ∈ fs, f.1 + f.2.length ≤ off + bs.length ∨ off + n ≤ f.1) :
    (arrayAt (storeAll m fs) off n).toList =
      bs ++ (arrayAt m (off + bs.length) (n - bs.length)).toList := by
  apply List.ext_getElem
  · simp only [toList_arrayAt, List.length_ofFn, List.length_append]
    omega
  intro i hi _
  simp only [toList_arrayAt, List.length_ofFn] at hi
  simp only [toList_arrayAt, List.getElem_ofFn, List.getElem_append]
  by_cases hib : i < bs.length
  · rw [dif_pos hib, byteAt_storeAll_of_mem h hf hib, byteAt, List.getD_eq_getElem _ _ hib]
  · rw [dif_neg hib, byteAt_storeAll_of_outside h fun f hmem => by have := hout f hmem; omega]
    congr 1
    omega

theorem arrayAt_storeAll (h : LaidOut lo m.length fs) {v : Vector UInt8 n}
    (hf : (off, v.toList) ∈ fs) : arrayAt (storeAll m fs) off n = v := by
  ext i hi
  have hv : i < v.toList.length := by simpa using hi
  rw [arrayAt, Vector.getElem_ofFn, byteAt_storeAll_of_mem h hf hv, byteAt,
    List.getD_eq_getElem _ _ hv, Vector.getElem_toList]

end Fields

end ByteMemory
