import Mathlib

namespace Ranking

section Comparators

variable {α β : Type*} [Ord β] [Std.TransOrd β]

theorem transCmp_asc (key : α → β) : Std.TransCmp fun a b => compare (key a) (key b) :=
  inferInstanceAs (Std.TransCmp (compareOn key))

theorem transCmp_desc (key : α → β) : Std.TransCmp fun a b => compare (key b) (key a) :=
  @Std.TransCmp.opposite _ (compareOn key) inferInstance

theorem transCmp_then {f g : α → α → Ordering} (hf : Std.TransCmp f) (hg : Std.TransCmp g) :
    Std.TransCmp fun a b => (f a b).then (g a b) :=
  inferInstanceAs (Std.TransCmp (compareLex f g))

end Comparators

variable {α : Type*} (cmp : α → α → Ordering)

/-- `sort_by`: a stable sort. -/
def sortBy (l : List α) : List α := l.mergeSort fun a b => (cmp a b).isLE

/-- No two different elements of the list compare as equal. -/
def Strict (l : List α) : Prop := ∀ a ∈ l, ∀ b ∈ l, cmp a b = .eq → a = b

theorem perm_sortBy (l : List α) : (sortBy cmp l).Perm l := List.mergeSort_perm l _

theorem length_take_sortBy (k : ℕ) (l : List α) :
    ((sortBy cmp l).take k).length = min k l.length := by
  rw [List.length_take, (perm_sortBy cmp l).length_eq]

theorem map_sortBy {β : Type*} {cmp' : β → β → Ordering} {f : α → β}
    (h : ∀ a b, cmp a b = cmp' (f a) (f b)) (l : List α) :
    (sortBy cmp l).map f = sortBy cmp' (l.map f) :=
  List.map_mergeSort fun a _ b _ => congrArg Ordering.isLE (h a b)

variable {cmp}

theorem Strict.of_perm {l l' : List α} (h : Strict cmp l) (hperm : l'.Perm l) : Strict cmp l' :=
  fun a ha b hb => h a (hperm.mem_iff.mp ha) b (hperm.mem_iff.mp hb)

variable [Std.TransCmp cmp]

theorem pairwise_isLE_sortBy (l : List α) : (sortBy cmp l).Pairwise fun a b => (cmp a b).isLE := by
  refine List.pairwise_mergeSort (fun a b c => Std.TransCmp.isLE_trans) (fun a b => ?_) l
  have hswap : cmp b a = (cmp a b).swap := Std.OrientedCmp.eq_swap
  rw [hswap]
  cases cmp a b <;> rfl

theorem pairwise_lt_sortBy {l : List α} (hstrict : Strict cmp l) (hnodup : l.Nodup) :
    (sortBy cmp l).Pairwise fun a b => cmp a b = .lt := by
  have hne : (sortBy cmp l).Pairwise (· ≠ ·) := (perm_sortBy cmp l).nodup_iff.mpr hnodup
  refine ((pairwise_isLE_sortBy l).and hne).imp_of_mem fun {a b} ha hb h => ?_
  have hsorted := hstrict.of_perm (perm_sortBy cmp l)
  cases hcmp : cmp a b with
  | lt => rfl
  | eq => exact absurd (hsorted a ha b hb hcmp) h.2
  | gt => simp [hcmp] at h

/-- Without ties the ranking does not depend on the order of the list. -/
theorem sortBy_eq_of_perm {l l' : List α} (hstrict : Strict cmp l) (hperm : l.Perm l') :
    sortBy cmp l = sortBy cmp l' := by
  refine List.Perm.eq_of_pairwise (fun a b ha hb hab hba => ?_) (pairwise_isLE_sortBy l)
    (pairwise_isLE_sortBy l') ((perm_sortBy cmp l).trans (hperm.trans (perm_sortBy cmp l').symm))
  have ha' := (perm_sortBy cmp l).mem_iff.mp ha
  have hb' := hperm.mem_iff.mpr ((perm_sortBy cmp l').mem_iff.mp hb)
  apply hstrict a ha' b hb'
  have hswap : cmp b a = (cmp a b).swap := Std.OrientedCmp.eq_swap
  rw [hswap] at hba
  cases hcmp : cmp a b with
  | lt => simp [hcmp] at hba
  | eq => rfl
  | gt => simp [hcmp] at hab

theorem lt_of_not_mem_take {l : List α} (hstrict : Strict cmp l) (hnodup : l.Nodup)
    {k : ℕ} {a b : α} (ha : a ∈ l) (hleft : a ∉ (sortBy cmp l).take k)
    (hb : b ∈ (sortBy cmp l).take k) :
    cmp b a = .lt := by
  have hsorted := pairwise_lt_sortBy hstrict hnodup
  rw [← List.take_append_drop k (sortBy cmp l), List.pairwise_append] at hsorted
  have hmem : a ∈ (sortBy cmp l).take k ++ (sortBy cmp l).drop k := by
    rw [List.take_append_drop]
    exact (perm_sortBy cmp l).mem_iff.mpr ha
  exact hsorted.2.2 b hb a ((List.mem_append.mp hmem).resolve_left hleft)

end Ranking
