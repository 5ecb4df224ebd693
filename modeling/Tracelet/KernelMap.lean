import Mathlib

namespace KernelMap

/-- An array map with `n` preallocated values. -/
abbrev ArrayMap (α : Type*) (n : ℕ) := Vector α n

namespace ArrayMap

variable {α : Type*} {n : ℕ}

/-- A lookup fails only for a key outside the array. -/
def lookup (m : ArrayMap α n) (key : UInt32) : Option α := m[key.toNat]?

def update (m : ArrayMap α n) (key : UInt32) (v : α) : ArrayMap α n :=
  m.setIfInBounds key.toNat v

def modify (m : ArrayMap α n) (key : UInt32) (f : α → α) : ArrayMap α n :=
  match lookup m key with
  | some v => update m key (f v)
  | none => m

theorem lookup_of_lt (m : ArrayMap α n) {key : UInt32} (h : key.toNat < n) :
    lookup m key = some m[key.toNat] := by
  simp [lookup, h]

@[simp] theorem lookup_update_self (m : ArrayMap α n) {key : UInt32} (h : key.toNat < n) (v : α) :
    lookup (update m key v) key = some v := by
  simp [lookup, update, h]

theorem lookup_update_of_ne (m : ArrayMap α n) {key other : UInt32} (h : other ≠ key) (v : α) :
    lookup (update m key v) other = lookup m other := by
  have hn : key.toNat ≠ other.toNat := fun he => h (UInt32.toNat_inj.mp he.symm)
  simp [lookup, update, Vector.getElem?_setIfInBounds_ne hn]

theorem lookup_modify (m : ArrayMap α n) (key other : UInt32) (f : α → α) :
    lookup (modify m key f) other =
      if other = key then (lookup m other).map f else lookup m other := by
  unfold modify
  cases hv : lookup m key with
  | none =>
    split_ifs with he
    · rw [he, hv, Option.map_none]
    · rfl
  | some v =>
    split_ifs with he
    · -- the lookup succeeded, so the key lies inside the array
      subst he
      have hlt : other.toNat < n := by
        by_contra hge
        simp [lookup, hge] at hv
      rw [lookup_update_self m hlt, hv, Option.map_some]
    · exact lookup_update_of_ne m he _

theorem modify_congr {m : ArrayMap α n} {key : UInt32} {v : α} (h : lookup m key = some v)
    {f g : α → α} (hfg : f v = g v) : modify m key f = modify m key g := by
  simp only [modify, h, hfg]

theorem modify_id (m : ArrayMap α n) (key : UInt32) : modify m key (fun v => v) = m := by
  unfold modify
  cases hv : lookup m key with
  | none => rfl
  | some v =>
    ext i hi
    by_cases hkey : key.toNat = i
    · subst hkey
      simpa [update, hi, lookup] using hv.symm
    · simp [update, hkey]

theorem lookup_replicate (v : α) {key : UInt32} (h : key.toNat < n) :
    lookup (Vector.replicate n v) key = some v := by
  simp [lookup, h]

end ArrayMap

/-- A hash map that never holds more than `cap` keys. -/
structure BoundedMap (K V : Type*) (cap : ℕ) where
  entries : Finmap fun _ : K => V
  card_le : entries.keys.card ≤ cap

namespace BoundedMap

variable {K V : Type*} {cap : ℕ}

def empty (K V : Type*) (cap : ℕ) : BoundedMap K V cap := ⟨∅, by simp⟩

def keys (m : BoundedMap K V cap) : Finset K := m.entries.keys

variable [DecidableEq K]

def lookup (m : BoundedMap K V cap) (k : K) : Option V := m.entries.lookup k

/-- A present key is overwritten; a new one needs a free entry. -/
def update (m : BoundedMap K V cap) (k : K) (v : V) : Option (BoundedMap K V cap) :=
  if h : k ∈ m.keys ∨ m.keys.card < cap then
    some ⟨m.entries.insert k v, by
      have hk : (m.entries.insert k v).keys = insert k m.keys := by
        ext a
        simp [keys, Finmap.mem_keys, Finmap.mem_insert]
      rw [hk]
      rcases h with hmem | hlt
      · rw [Finset.insert_eq_of_mem hmem]
        exact m.card_le
      · exact (Finset.card_insert_le _ _).trans hlt⟩
  else none

def delete (m : BoundedMap K V cap) (k : K) : BoundedMap K V cap :=
  ⟨m.entries.erase k, by
    rw [Finmap.keys_erase]
    exact (Finset.card_erase_le).trans m.card_le⟩

theorem mem_keys_iff (m : BoundedMap K V cap) (k : K) : k ∈ m.keys ↔ (m.lookup k).isSome := by
  rw [keys, Finmap.mem_keys, lookup, Finmap.lookup_isSome]

@[simp] theorem lookup_empty (k : K) : (empty K V cap).lookup k = none := Finmap.lookup_empty k

theorem update_eq_none_iff (m : BoundedMap K V cap) (k : K) (v : V) :
    m.update k v = none ↔ k ∉ m.keys ∧ m.keys.card = cap := by
  have hle : m.keys.card ≤ cap := m.card_le
  unfold update
  split_ifs with h
  · simp only [false_iff, not_and]
    intro hk
    have hlt := h.resolve_left hk
    omega
  · rw [not_or] at h
    simp only [true_iff]
    exact ⟨h.1, by omega⟩

theorem lookup_update {m m' : BoundedMap K V cap} {k : K} {v : V} (h : m.update k v = some m')
    (other : K) : m'.lookup other = if other = k then some v else m.lookup other := by
  unfold update at h
  split_ifs at h with hroom
  obtain rfl := Option.some.inj h
  split_ifs with he
  · rw [he]
    exact Finmap.lookup_insert m.entries
  · exact Finmap.lookup_insert_of_ne m.entries he

theorem lookup_delete (m : BoundedMap K V cap) (k other : K) :
    (m.delete k).lookup other = if other = k then none else m.lookup other := by
  split_ifs with he
  · rw [he]
    exact Finmap.lookup_erase k m.entries
  · exact Finmap.lookup_erase_ne he

end BoundedMap

end KernelMap
