import Tracelet.History

namespace Tracelet

namespace Collector
open Ranking
open Tracelet.Stream (DashboardEvent)

section Rows

variable {shared : Shared} (o : MapOrder shared.processes)

theorem mem_topRows (r : TopRow) :
    r ∈ topRows o.entries ↔ shared.processes.lookup r.pid = some (r.process, r.count) := by
  rw [← o.mem_iff, topRows, List.mem_map]
  constructor
  · rintro ⟨⟨pid, process, count⟩, hmem, rfl⟩
    exact hmem
  · exact fun hmem => ⟨_, hmem, rfl⟩

theorem length_topRows : (topRows o.entries).length = shared.processes.keys.card := by
  rw [topRows, List.length_map, o.length_eq]

theorem nodup_topRows : (topRows o.entries).Nodup := by
  have hpids : ((topRows o.entries).map TopRow.pid).Nodup := by
    rw [topRows, List.map_map]
    exact o.nodup
  exact .of_map _ hpids

theorem strict_topRows : Strict TopRow.order (topRows o.entries) := by
  intro a ha b hb hcmp
  have hpid := (TopRow.order_eq_eq.mp hcmp).2
  have ha' := (mem_topRows o a).mp ha
  have hb' := (mem_topRows o b).mp hb
  rw [hpid, hb'] at ha'
  obtain ⟨hprocess, hcount⟩ := Prod.mk.inj (Option.some.inj ha')
  cases a
  cases b
  simp_all

theorem perm_topRows (o' : MapOrder shared.processes) :
    (topRows o.entries).Perm (topRows o'.entries) :=
  (o.perm o').map _

theorem strict_distribution (l : List (String × UInt64)) : Strict distributionOrder l :=
  fun _ _ _ _ h => distributionOrder_eq_eq.mp h

end Rows

/-- What is asked of the two panes. -/
structure PanesExact (shared : Shared) (snap : Snapshot) : Prop where
  topLength : snap.top.length = min 10 shared.processes.keys.card
  topSorted : snap.top.Pairwise fun a b => b.count < a.count ∨ a.count = b.count ∧ b.pid < a.pid
  topMem : ∀ r ∈ snap.top, shared.processes.lookup r.pid = some (r.process, r.count)
  leftOut : ∀ pid process count, shared.processes.lookup pid = some (process, count) →
    (∀ r ∈ snap.top, r.pid ≠ pid) → ∀ r ∈ snap.top, count < r.count ∨ r.count = count ∧ pid < r.pid
  distributionNodup : (snap.distribution.map Prod.fst).Nodup
  distributionMem : ∀ name count,
    (name, count) ∈ snap.distribution ↔ shared.byEvent.lookup name = some count
  distributionSorted : snap.distribution.Pairwise fun a b => b.2 < a.2 ∨ a.2 = b.2 ∧ a.1 < b.1

section Take

variable (shared : Shared) (now : ℕ) (processes : MapOrder shared.processes)
  (byEvent : MapOrder shared.byEvent)

theorem take_exact : PanesExact shared (Snapshot.take shared now processes byEvent) := by
  have hstrict := strict_topRows processes
  have hnodup := nodup_topRows processes
  have hperm := perm_sortBy distributionOrder byEvent.entries
  have hmem : ∀ r ∈ (sortBy TopRow.order (topRows processes.entries)).take 10,
      shared.processes.lookup r.pid = some (r.process, r.count) := fun r hr =>
    (mem_topRows processes r).mp ((perm_sortBy _ _).mem_iff.mp (List.mem_of_mem_take hr))
  refine ⟨?_, ?_, hmem, ?_, ?_, fun name count => ?_, ?_⟩
  · exact (length_take_sortBy _ _ _).trans (congrArg (min 10) (length_topRows processes))
  · exact ((pairwise_lt_sortBy hstrict hnodup).imp fun h => TopRow.order_eq_lt.mp h).sublist
      (List.take_sublist _ _)
  · intro pid process count hlookup hout r hr
    have hrow : (⟨process, pid, count⟩ : TopRow) ∈ topRows processes.entries :=
      (mem_topRows processes _).mpr hlookup
    exact TopRow.order_eq_lt.mp
      (lt_of_not_mem_take hstrict hnodup hrow (fun h => hout _ h rfl) hr)
  · exact (hperm.map Prod.fst).nodup_iff.mpr byEvent.nodup
  · exact hperm.mem_iff.trans (byEvent.mem_iff name count)
  · exact (pairwise_lt_sortBy (strict_distribution _) byEvent.nodup_entries).imp fun h =>
      distributionOrder_eq_lt.mp h

theorem take_top_eq (now' : ℕ) (processes' : MapOrder shared.processes)
    (byEvent' : MapOrder shared.byEvent) :
    (Snapshot.take shared now processes byEvent).top =
      (Snapshot.take shared now' processes' byEvent').top :=
  congrArg (List.take 10)
    (sortBy_eq_of_perm (strict_topRows processes) (perm_topRows processes processes'))

theorem take_distribution_eq (now' : ℕ) (processes' : MapOrder shared.processes)
    (byEvent' : MapOrder shared.byEvent) :
    (Snapshot.take shared now processes byEvent).distribution =
      (Snapshot.take shared now' processes' byEvent').distribution :=
  sortBy_eq_of_perm (strict_distribution _) (byEvent.perm byEvent')

end Take

def TopRow.numbers (r : TopRow) : UInt32 × UInt64 := (r.pid, r.count)

def numbersOrder (a b : UInt32 × UInt64) : Ordering := (compare b.2 a.2).then (compare b.1 a.1)

instance : Std.TransCmp numbersOrder :=
  transCmp_then (transCmp_desc Prod.snd) (transCmp_desc Prod.fst)

section Permuted

variable {evs evs' : List (DashboardEvent × String)}
  (hperm : (evs.map Prod.fst).Perm (evs'.map Prod.fst))
include hperm

theorem countPid_congr (pid : UInt32) : countPid pid evs = countPid pid evs' := by
  have hpids := (hperm.map DashboardEvent.pid).count_eq pid
  rw [List.map_map, List.map_map] at hpids
  exact hpids

theorem countName_congr (name : String) : countName name evs = countName name evs' := by
  have hnames := (hperm.map DashboardEvent.eventName).count_eq name
  rw [List.map_map, List.map_map] at hnames
  exact hnames

theorem byEvent_congr : (pushAll evs).byEvent = (pushAll evs').byEvent := by
  apply Finmap.ext_lookup
  intro name
  rw [lookup_byEvent_pushAll, lookup_byEvent_pushAll, countName_congr hperm]

theorem lookup_count_congr (pid : UInt32) :
    ((pushAll evs).processes.lookup pid).map Prod.snd =
      ((pushAll evs').processes.lookup pid).map Prod.snd := by
  have hsome : (lastOf pid evs).isSome = (lastOf pid evs').isSome := by
    rw [Bool.eq_iff_iff, ← countPid_pos_iff, ← countPid_pos_iff, countPid_congr hperm]
  rw [lookup_processes_pushAll, lookup_processes_pushAll, countPid_congr hperm]
  cases hlast : lastOf pid evs <;> cases hlast' : lastOf pid evs' <;> simp_all

end Permuted

theorem nodup_numbers {shared : Shared} (o : MapOrder shared.processes) :
    ((topRows o.entries).map TopRow.numbers).Nodup := by
  have hpids : (((topRows o.entries).map TopRow.numbers).map Prod.fst).Nodup := by
    rw [topRows, List.map_map, List.map_map]
    exact o.nodup
  exact .of_map _ hpids

theorem mem_numbers {shared : Shared} (o : MapOrder shared.processes) (pid : UInt32)
    (count : UInt64) :
    (pid, count) ∈ (topRows o.entries).map TopRow.numbers ↔
      (shared.processes.lookup pid).map Prod.snd = some count := by
  rw [List.mem_map, Option.map_eq_some_iff]
  constructor
  · rintro ⟨r, hr, hnumbers⟩
    obtain ⟨rfl, rfl⟩ := Prod.mk.inj hnumbers
    exact ⟨_, (mem_topRows o r).mp hr, rfl⟩
  · rintro ⟨⟨process, count'⟩, hlookup, rfl⟩
    exact ⟨⟨process, pid, count'⟩, (mem_topRows o _).mpr hlookup, rfl⟩

theorem numbers_top (shared : Shared) (now : ℕ) (processes : MapOrder shared.processes)
    (byEvent : MapOrder shared.byEvent) :
    (Snapshot.take shared now processes byEvent).top.map TopRow.numbers =
      (sortBy numbersOrder ((topRows processes.entries).map TopRow.numbers)).take 10 := by
  have horder : ∀ a b : TopRow, a.order b = numbersOrder a.numbers b.numbers := fun _ _ => rfl
  rw [← map_sortBy TopRow.order horder, ← List.map_take]
  rfl

theorem numbers_top_congr {evs evs' : List (DashboardEvent × String)}
    (hperm : (evs.map Prod.fst).Perm (evs'.map Prod.fst)) (now now' : ℕ)
    (processes : MapOrder (pushAll evs).processes) (byEvent : MapOrder (pushAll evs).byEvent)
    (processes' : MapOrder (pushAll evs').processes) (byEvent' : MapOrder (pushAll evs').byEvent) :
    (Snapshot.take (pushAll evs) now processes byEvent).top.map TopRow.numbers =
      (Snapshot.take (pushAll evs') now' processes' byEvent').top.map TopRow.numbers := by
  have hnumbers : ((topRows processes.entries).map TopRow.numbers).Perm
      ((topRows processes'.entries).map TopRow.numbers) := by
    rw [List.perm_ext_iff_of_nodup (nodup_numbers processes) (nodup_numbers processes')]
    rintro ⟨pid, count⟩
    rw [mem_numbers, mem_numbers, lookup_count_congr hperm]
  have hstrict : Strict numbersOrder ((topRows processes.entries).map TopRow.numbers) := by
    intro a _ b _ hcmp
    rw [numbersOrder, Ordering.then_eq_eq, Std.compare_eq_iff_eq, Std.compare_eq_iff_eq] at hcmp
    exact Prod.ext hcmp.2.symm hcmp.1.symm
  rw [numbers_top, numbers_top, sortBy_eq_of_perm hstrict hnumbers]

theorem distribution_congr {evs evs' : List (DashboardEvent × String)}
    (hperm : (evs.map Prod.fst).Perm (evs'.map Prod.fst)) (now now' : ℕ)
    (processes : MapOrder (pushAll evs).processes) (byEvent : MapOrder (pushAll evs).byEvent)
    (processes' : MapOrder (pushAll evs').processes) (byEvent' : MapOrder (pushAll evs').byEvent) :
    (Snapshot.take (pushAll evs) now processes byEvent).distribution =
      (Snapshot.take (pushAll evs') now' processes' byEvent').distribution := by
  have hentries : byEvent.entries.Perm byEvent'.entries := by
    rw [List.perm_ext_iff_of_nodup byEvent.nodup_entries byEvent'.nodup_entries]
    rintro ⟨name, count⟩
    rw [byEvent.mem_iff, byEvent'.mem_iff, byEvent_congr hperm]
  exact sortBy_eq_of_perm (strict_distribution _) hentries

/-- The two panes are exact for every state and every order in which its maps
are iterated, and depend on neither that order nor the order of the events. -/
theorem panes_exact :
    (∀ (shared : Shared) (now : ℕ) (processes : MapOrder shared.processes)
      (byEvent : MapOrder shared.byEvent),
      PanesExact shared (Snapshot.take shared now processes byEvent) ∧
      ∀ (now' : ℕ) (processes' : MapOrder shared.processes) (byEvent' : MapOrder shared.byEvent),
        (Snapshot.take shared now processes byEvent).top =
          (Snapshot.take shared now' processes' byEvent').top ∧
        (Snapshot.take shared now processes byEvent).distribution =
          (Snapshot.take shared now' processes' byEvent').distribution) ∧
    ∀ (evs evs' : List (DashboardEvent × String)), (evs.map Prod.fst).Perm (evs'.map Prod.fst) →
      ∀ (now now' : ℕ) (processes : MapOrder (pushAll evs).processes)
        (byEvent : MapOrder (pushAll evs).byEvent) (processes' : MapOrder (pushAll evs').processes)
        (byEvent' : MapOrder (pushAll evs').byEvent),
        (Snapshot.take (pushAll evs) now processes byEvent).distribution =
          (Snapshot.take (pushAll evs') now' processes' byEvent').distribution ∧
        (Snapshot.take (pushAll evs) now processes byEvent).top.map TopRow.numbers =
          (Snapshot.take (pushAll evs') now' processes' byEvent').top.map TopRow.numbers := by
  constructor
  · intro shared now processes byEvent
    refine ⟨take_exact shared now processes byEvent, fun now' processes' byEvent' => ?_⟩
    exact ⟨take_top_eq shared now processes byEvent now' processes' byEvent',
      take_distribution_eq shared now processes byEvent now' processes' byEvent'⟩
  · -- the names of the rows are left out: they are those of the last event of a process
    intro evs evs' hperm now now' processes byEvent processes' byEvent'
    exact ⟨distribution_congr hperm now now' processes byEvent processes' byEvent',
      numbers_top_congr hperm now now' processes byEvent processes' byEvent'⟩

theorem panes_exact_shell_reversed :
    ∃ processes byEvent processes' byEvent',
      (Snapshot.take (pushAll shellEvents) 0 processes byEvent).distribution =
          (Snapshot.take (pushAll shellEvents.reverse) 0 processes' byEvent').distribution ∧
        (Snapshot.take (pushAll shellEvents) 0 processes byEvent).top.map TopRow.numbers =
          (Snapshot.take (pushAll shellEvents.reverse) 0 processes' byEvent').top.map
            TopRow.numbers := by
  obtain ⟨processes⟩ := MapOrder.nonempty (pushAll shellEvents).processes
  obtain ⟨byEvent⟩ := MapOrder.nonempty (pushAll shellEvents).byEvent
  obtain ⟨processes'⟩ := MapOrder.nonempty (pushAll shellEvents.reverse).processes
  obtain ⟨byEvent'⟩ := MapOrder.nonempty (pushAll shellEvents.reverse).byEvent
  exact ⟨processes, byEvent, processes', byEvent', panes_exact.2 shellEvents shellEvents.reverse
    (shellEvents.reverse_perm.symm.map _) 0 0 processes byEvent processes' byEvent'⟩

end Collector

end Tracelet
