import Mathlib

open Finmap

/-- A list of the entries of `m`, in the order of an iteration. -/
structure MapOrder {K V : Type*} [DecidableEq K] (m : Finmap fun _ : K => V) where
  entries : List (K × V)
  nodup : (entries.map Prod.fst).Nodup
  mem_iff : ∀ k v, (k, v) ∈ entries ↔ m.lookup k = some v

namespace MapOrder

variable {K V : Type*} [DecidableEq K] {m : Finmap fun _ : K => V}

theorem nonempty (m : Finmap fun _ : K => V) : Nonempty (MapOrder m) := by
  induction m using Finmap.induction_on with
  | _ l =>
    refine ⟨⟨l.entries.map fun e => (e.1, e.2), ?_, fun k v => ?_⟩⟩
    · rw [List.map_map]
      exact l.nodupKeys
    · rw [lookup_eq_some_iff]
      simp only [List.mem_map, Prod.mk.injEq, AList.toFinmap_entries, Multiset.mem_coe]
      constructor
      · rintro ⟨⟨k', v'⟩, hmem, rfl, rfl⟩
        exact hmem
      · exact fun hmem => ⟨⟨k, v⟩, hmem, rfl, rfl⟩

variable (o : MapOrder m)

theorem nodup_entries : o.entries.Nodup := .of_map _ o.nodup

theorem perm (o' : MapOrder m) : o.entries.Perm o'.entries :=
  (List.perm_ext_iff_of_nodup o.nodup_entries o'.nodup_entries).mpr fun e => by
    rw [o.mem_iff, o'.mem_iff]

theorem mem_keys_iff (k : K) : k ∈ o.entries.map Prod.fst ↔ (m.lookup k).isSome := by
  rw [List.mem_map, Option.isSome_iff_exists]
  constructor
  · rintro ⟨⟨k', v⟩, hmem, rfl⟩
    exact ⟨v, (o.mem_iff k' v).mp hmem⟩
  · rintro ⟨v, hv⟩
    exact ⟨(k, v), (o.mem_iff k v).mpr hv, rfl⟩

theorem length_eq : o.entries.length = m.keys.card := by
  have hkeys : m.keys = (o.entries.map Prod.fst).toFinset := by
    ext k
    rw [List.mem_toFinset, o.mem_keys_iff, mem_keys, lookup_isSome]
  rw [hkeys, List.toFinset_card_of_nodup o.nodup, List.length_map]

theorem sum_count {f : V → ℕ} {xs : List K} (hkeys : ∀ k, (m.lookup k).isSome ↔ k ∈ xs)
    (hcount : ∀ k v, m.lookup k = some v → f v = xs.count k) :
    (o.entries.map fun e => f e.2).sum = xs.length := by
  have hvalues : (o.entries.map fun e => f e.2) = (o.entries.map Prod.fst).map xs.count := by
    rw [List.map_map]
    exact List.map_congr_left fun e he => hcount e.1 e.2 ((o.mem_iff e.1 e.2).mp he)
  have hset : (o.entries.map Prod.fst).toFinset = xs.toFinset := by
    ext k
    rw [List.mem_toFinset, List.mem_toFinset, o.mem_keys_iff, hkeys]
  rw [hvalues, ← List.sum_toFinset _ o.nodup, hset, List.sum_toFinset_count_eq_length]

end MapOrder
