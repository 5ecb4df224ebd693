import Mathlib

namespace NearestRank

variable {α β : Type*}

/-- `⌈p * n / 100⌉`. -/
def rank (p n : ℕ) : ℕ := (p * n + 99) / 100

theorem rank_pos {p n : ℕ} (hp : 0 < p) (hn : 0 < n) : 0 < rank p n := by
  have h : 0 < p * n := Nat.mul_pos hp hn
  unfold rank
  omega

theorem rank_le {p n : ℕ} (hp : p ≤ 100) : rank p n ≤ n := by
  have h : p * n ≤ 100 * n := Nat.mul_le_mul_right n hp
  unfold rank
  omega

theorem rank_mono {p q : ℕ} (h : p ≤ q) (n : ℕ) : rank p n ≤ rank q n := by
  have hm : p * n ≤ q * n := Nat.mul_le_mul_right n h
  unfold rank
  omega

section OrderStatistic

variable [LinearOrder α] [LinearOrder β]

/-- The `k`-th smallest sample, counted from one. -/
def kthSmallest (xs : List α) (k : ℕ) : Option α := (xs.insertionSort (· ≤ ·))[k - 1]?

theorem exists_kthSmallest {xs : List α} {k : ℕ} (hk : 0 < k) (hle : k ≤ xs.length) :
    ∃ x, kthSmallest xs k = some x := by
  have hlt : k - 1 < (xs.insertionSort (· ≤ ·)).length := by
    rw [List.length_insertionSort]
    omega
  exact ⟨_, List.getElem?_eq_getElem hlt⟩

theorem kthSmallest_mem {xs : List α} {k : ℕ} {x : α} (h : kthSmallest xs k = some x) : x ∈ xs :=
  (List.mem_insertionSort (· ≤ ·)).mp (List.mem_of_getElem? h)

theorem getElem_insertionSort_mono (xs : List α) {i j : ℕ}
    (hi : i < (xs.insertionSort (· ≤ ·)).length) (hj : j < (xs.insertionSort (· ≤ ·)).length)
    (hij : i ≤ j) : (xs.insertionSort (· ≤ ·))[i] ≤ (xs.insertionSort (· ≤ ·))[j] := by
  rcases Nat.eq_or_lt_of_le hij with rfl | hlt
  · exact le_rfl
  · exact List.pairwise_iff_getElem.mp (List.pairwise_insertionSort (· ≤ ·) xs) i j hi hj hlt

theorem le_of_mem_drop {xs : List α} {k : ℕ} {x y : α} (hx : kthSmallest xs k = some x)
    (hy : y ∈ (xs.insertionSort (· ≤ ·)).drop (k - 1)) : x ≤ y := by
  obtain ⟨hlt, rfl⟩ := List.getElem?_eq_some_iff.mp hx
  obtain ⟨i, hi, rfl⟩ := List.mem_iff_getElem.mp hy
  rw [List.getElem_drop]
  exact getElem_insertionSort_mono xs _ _ (Nat.le_add_right _ _)

theorem le_of_mem_take {xs : List α} {k : ℕ} {x y : α} (hx : kthSmallest xs k = some x)
    (hy : y ∈ (xs.insertionSort (· ≤ ·)).take k) : y ≤ x := by
  obtain ⟨hlt, rfl⟩ := List.getElem?_eq_some_iff.mp hx
  obtain ⟨i, hi, rfl⟩ := List.mem_iff_getElem.mp hy
  rw [List.length_take] at hi
  rw [List.getElem_take]
  exact getElem_insertionSort_mono xs _ _ (by omega)

/-- At least `k` samples have a code up to `b` exactly when the `k`-th smallest has. -/
theorem le_countP_iff {f : α → β} (hf : Monotone f) {xs : List α} {k : ℕ} {x : α} (hk : 0 < k)
    (hx : kthSmallest xs k = some x) (b : β) : k ≤ xs.countP (fun y => f y ≤ b) ↔ f x ≤ b := by
  let l := xs.insertionSort (· ≤ ·)
  have hcount : xs.countP (fun y => f y ≤ b) = l.countP (fun y => f y ≤ b) :=
    ((List.perm_insertionSort (· ≤ ·) xs).countP_eq _).symm
  have hlt : k - 1 < l.length := (List.getElem?_eq_some_iff.mp hx).1
  rw [hcount]
  constructor
  · intro h
    by_contra hb
    -- from position `k - 1` on, every code is past `b`
    have hdrop : (l.drop (k - 1)).countP (fun y => f y ≤ b) = 0 := by
      apply List.countP_eq_zero.mpr
      intro y hy
      simpa using (lt_of_not_ge hb).trans_le (hf (le_of_mem_drop hx hy))
    have hsplit : l.countP (fun y => f y ≤ b) =
        (l.take (k - 1)).countP (fun y => f y ≤ b) +
          (l.drop (k - 1)).countP (fun y => f y ≤ b) := by
      rw [← List.countP_append, List.take_append_drop]
    have htake := List.countP_le_length (p := fun y => decide (f y ≤ b)) (l := l.take (k - 1))
    rw [List.length_take] at htake
    omega
  · intro h
    have htake : (l.take k).countP (fun y => f y ≤ b) = (l.take k).length := by
      apply List.countP_eq_length.mpr
      intro y hy
      simpa using (hf (le_of_mem_take hx hy)).trans h
    have hsub := (List.take_sublist k l).countP_le (p := fun y => decide (f y ≤ b))
    rw [htake, List.length_take] at hsub
    omega

theorem kthSmallest_mono {xs : List α} {j k : ℕ} {x y : α} (hjk : j ≤ k)
    (hx : kthSmallest xs j = some x) (hy : kthSmallest xs k = some y) : x ≤ y := by
  obtain ⟨hj, rfl⟩ := List.getElem?_eq_some_iff.mp hx
  obtain ⟨hk, rfl⟩ := List.getElem?_eq_some_iff.mp hy
  exact getElem_insertionSort_mono xs hj hk (Nat.sub_le_sub_right hjk 1)

end OrderStatistic

def bucketCounts (f : α → ℕ) (n : ℕ) (xs : List α) : List ℕ :=
  (List.range n).map fun b => xs.countP fun y => f y = b

theorem countP_lt_succ (f : α → ℕ) (xs : List α) (b : ℕ) :
    xs.countP (fun y => f y < b + 1) = xs.countP (fun y => f y < b) +
      xs.countP (fun y => f y = b) := by
  induction xs with
  | nil => rfl
  | cons x xs ih =>
    simp only [List.countP_cons, ih, decide_eq_true_eq]
    split_ifs <;> omega

theorem sum_take_bucketCounts (f : α → ℕ) (xs : List α) {n b : ℕ} (h : b ≤ n) :
    ((bucketCounts f n xs).take b).sum = xs.countP (fun y => f y < b) := by
  have hr : (bucketCounts f n xs).take b = bucketCounts f b xs := by
    rw [bucketCounts, bucketCounts, ← List.map_take, List.take_range, min_eq_left h]
  rw [hr]
  clear hr h
  induction b with
  | zero => simp [bucketCounts]
  | succ b ih =>
    have hs : bucketCounts f (b + 1) xs = bucketCounts f b xs ++ [xs.countP fun y => f y = b] := by
      simp only [bucketCounts, List.range_succ, List.map_append, List.map_cons, List.map_nil]
    rw [hs, List.sum_append, ih, List.sum_singleton, countP_lt_succ]

theorem sum_bucketCounts {f : α → ℕ} {xs : List α} {n : ℕ} (hf : ∀ y, f y < n) :
    (bucketCounts f n xs).sum = xs.length := by
  have h := sum_take_bucketCounts f xs (le_refl n)
  rw [List.take_of_length_le (by simp [bucketCounts])] at h
  rw [h]
  exact List.countP_eq_length.mpr fun y _ => by simpa using hf y

/-- The first slot at which the running count reaches `r`. -/
def firstReaching (r : ℕ) : ℕ → ℕ → List ℕ → Option ℕ
  | _, _, [] => none
  | slot, seen, c :: cs =>
    if r ≤ seen + c then some slot else firstReaching r (slot + 1) (seen + c) cs

theorem firstReaching_eq_some {r slot seen i : ℕ} {cs : List ℕ} (hi : i < cs.length)
    (hat : r ≤ seen + (cs.take (i + 1)).sum) (hbefore : seen + (cs.take i).sum < r) :
    firstReaching r slot seen cs = some (slot + i) := by
  induction i generalizing slot seen cs with
  | zero =>
    cases cs with
    | nil => simp at hi
    | cons c cs =>
      have hc : r ≤ seen + c := by simpa using hat
      simp only [firstReaching, if_pos hc, Nat.add_zero]
  | succ i ih =>
    cases cs with
    | nil => simp at hi
    | cons c cs =>
      simp only [List.take_succ_cons, List.sum_cons, ← Nat.add_assoc] at hat hbefore
      have hc : ¬ r ≤ seen + c := by omega
      rw [firstReaching, if_neg hc, ih (by simpa using hi) hat hbefore]
      congr 1
      omega

/-- The scan stops at the bucket of the order statistic. -/
theorem firstReaching_bucketCounts [LinearOrder α] {f : α → ℕ} (hf : Monotone f) {n : ℕ}
    (hn : ∀ y, f y < n) {xs : List α} {k : ℕ} {x : α} (hk : 0 < k)
    (hx : kthSmallest xs k = some x) : firstReaching k 0 0 (bucketCounts f n xs) = some (f x) := by
  have hi : f x < (bucketCounts f n xs).length := by simpa [bucketCounts] using hn x
  have hat : k ≤ xs.countP (fun y => f y < f x + 1) := by
    simpa only [Nat.lt_succ_iff] using (le_countP_iff hf hk hx (f x)).mpr le_rfl
  have hbefore : xs.countP (fun y => f y < f x) < k := by
    -- fewer than `k` samples lie in the buckets before that of `x`
    rcases Nat.eq_zero_or_pos (f x) with h0 | hpos
    · simpa [h0] using hk
    · have h := (le_countP_iff hf hk hx (f x - 1)).not.mpr (by omega)
      simp only [Nat.lt_iff_le_pred hpos]
      exact lt_of_not_ge h
  rw [← sum_take_bucketCounts f xs (hn x), ← Nat.zero_add (List.sum _)] at hat
  rw [← sum_take_bucketCounts f xs (hn x).le, ← Nat.zero_add (List.sum _)] at hbefore
  rw [firstReaching_eq_some hi hat hbefore, Nat.zero_add]

end NearestRank
