import Tracelet.Latency

namespace Tracelet
open KernelMap TransitionRun

namespace Latency
open Bpf

/-- The counters of the maps are the record of what happened. -/
structure Recorded (s : System) : Prop where
  hist : s.maps.latencyHist = recordAll (s.samples.map fun x => (x.syscall, x.delta))
  drops : ArrayMap.lookup s.maps.drops dropKeyLatency = some (UInt64.ofNat s.refused)

theorem Recorded.step {s s' : System} {e : Event} (h : Recorded s)
    (hstep : Latency.step s e = some s') : Recorded s' := by
  rcases step_cases hstep with ⟨-, p, ps, -, rfl⟩ | ⟨t, k, now, admitted, -, -, -, rfl⟩ |
    ⟨t, c, now, -, -, -, rfl⟩
  · -- attaching a program touches neither map
    exact ⟨h.hist, h.drops⟩
  · have hsamples : (s.enter t k now admitted).samples = s.samples := rfl
    have hrefused : (s.enter t k now admitted).refused =
        if s.admits k admitted && !s.stores t k now admitted then s.refused + 1 else s.refused :=
          rfl
    rcases enter_cases s t k now admitted with ⟨ha, hs, hm⟩ | ⟨ha, hs, started, -, hm⟩ |
      ⟨ha, hs, -, hm⟩
    · refine ⟨by rw [hm, hsamples, h.hist], ?_⟩
      rw [hm, hrefused, ha, h.drops]
      rfl
    · refine ⟨by rw [hm, hsamples, h.hist], ?_⟩
      rw [hm, hrefused, ha, hs]
      exact h.drops
    · -- a refused insert counts on both sides
      refine ⟨by rw [hm, hsamples]; exact h.hist, ?_⟩
      rw [hm, hrefused, ha, hs, countDrop, ArrayMap.lookup_modify, if_pos rfl, h.drops]
      exact congrArg some (UInt64.ofNat_add _ _).symm
  · have hrefused : (s.exit t c now).refused = s.refused := rfl
    rcases exit_cases s t c now with ⟨-, hm, hs, -⟩ | ⟨-, -, hm, hs, -⟩ | ⟨-, start, -, hm, hs, -⟩
    · exact ⟨by rw [hm, hs, h.hist], by rw [hm, hrefused, h.drops]⟩
    · exact ⟨by rw [hm, hs, h.hist], by rw [hm, hrefused, h.drops]⟩
    · -- the one exit that leaves a sample: the histogram and the list of samples grow together
      refine ⟨?_, by rw [hm, hrefused]; exact h.drops⟩
      rw [hm, hs, List.map_append, List.map_singleton, recordAll_append, ← h.hist]

theorem recorded_start (pending attached : List Program) (filter : ArrayMap Bpf.FilterConfig 1)
    (clock : UInt64) (busy : Thread → Option SyscallKind) :
    Recorded (.start pending attached filter clock busy) :=
  ⟨rfl, ArrayMap.lookup_replicate _ (by decide)⟩

/-- The selected programs are attached, and an entry of the start map stands
for a call that its enter program stored. -/
structure Exact (kinds : List SyscallKind) (s : System) : Prop where
  pending : s.pending = []
  attached : ∀ k, (Program.enter k ∈ s.attached ↔ k ∈ kinds) ∧
    (Program.exit k ∈ s.attached ↔ k ∈ kinds)
  entries : ∀ t, s.maps.latencyStart.lookup t =
    (s.inside t).bind fun c => if c.stored then some c.start else none
  selected : ∀ t c, s.inside t = some c → c.stored = true → c.syscall ∈ kinds
  started : ∀ t c, s.inside t = some c → c.start ≤ s.clock
  completed : s.completed = s.samples.map fun x => (x.syscall, x.delta.toNat)
  samples : ∀ x ∈ s.samples, x.syscall ∈ kinds

theorem Exact.enter {kinds : List SyscallKind} {s : System} (h : Exact kinds s) {t : Thread}
    {now : UInt64} (hclock : s.clock ≤ now) (hfree : s.inside t = none) (k : SyscallKind)
    (admitted : Bool) : Exact kinds (s.enter t k now admitted) := by
  refine ⟨h.pending, h.attached, fun u => ?_, fun u c hu hc => ?_, fun u c hu => ?_, h.completed,
    h.samples⟩
  · rw [lookup_enter, inside_enter]
    by_cases hut : u = t
    · -- the thread was outside any call, so it had no entry
      have hnone : s.maps.latencyStart.lookup t = none := by rw [h.entries, hfree, Option.bind_none]
      simp only [hut, true_and, if_true, Option.bind_some, hnone]
    · simp only [hut, false_and, if_false, h.entries]
  · obtain ⟨-, rfl⟩ | ⟨-, hu⟩ := inside_enter_cases _ _ _ _ _ _ hu
    · have hc : s.stores t k now admitted = true := hc
      simp only [System.stores, System.admits, Bool.and_eq_true, decide_eq_true_eq] at hc
      exact (h.attached k).1.mp hc.1.1
    · exact h.selected u c hu hc
  · obtain ⟨-, rfl⟩ | ⟨-, hu⟩ := inside_enter_cases _ _ _ _ _ _ hu
    · exact UInt64.le_refl now
    · exact UInt64.le_trans (h.started u c hu) hclock

theorem Exact.completed_exit {kinds : List SyscallKind} {s : System}
    (h : Exact kinds s) {t : Thread} {c : Call} {now : UInt64} (hclock : s.clock ≤ now)
    (hc : s.inside t = some c) :
    (s.exit t c now).completed = (s.exit t c now).samples.map
      (fun x => (x.syscall, x.delta.toNat)) ∧
      ∀ x ∈ (s.exit t c now).samples, x.syscall ∈ kinds := by
  have hentry : s.maps.latencyStart.lookup t = if c.stored then some c.start else none := by
    rw [h.entries, hc, Option.bind_some]
  have hcompleted : (s.exit t c now).completed =
      if c.stored then s.completed ++ [(c.syscall, now.toNat - c.start.toNat)] else s.completed :=
        rfl
  cases hstored : c.stored with
  | false =>
    have hsamples : (s.exit t c now).samples = s.samples := by
      simp [System.exit, hentry, hstored]
    rw [hcompleted, hsamples, hstored]
    exact ⟨h.completed, h.samples⟩
  | true =>
    have hexit : Program.exit c.syscall ∈ s.attached :=
      (h.attached _).2.mpr (h.selected t c hc hstored)
    have hsamples : (s.exit t c now).samples =
        s.samples ++ [⟨c.id, s.owner t, c.syscall, now - c.start⟩] := by
      simp [System.exit, hentry, hstored, hexit]
    -- the clock has not gone back since the call began, so the difference does not wrap
    have hdelta : (now - c.start).toNat = now.toNat - c.start.toNat :=
      UInt64.toNat_sub_of_le _ _ (UInt64.le_trans (h.started t c hc) hclock)
    rw [hcompleted, if_pos hstored, hsamples]
    refine ⟨?_, fun x hx => ?_⟩
    · rw [h.completed, List.map_append, List.map_singleton, hdelta]
    · rcases List.mem_append.mp hx with hx | hx
      · exact h.samples x hx
      · obtain rfl := List.mem_singleton.mp hx
        exact h.selected t c hc hstored

theorem Exact.exit {kinds : List SyscallKind} {s : System} (h : Exact kinds s) {t : Thread}
    {c : Call} {now : UInt64} (hclock : s.clock ≤ now) (hc : s.inside t = some c) :
    Exact kinds (s.exit t c now) := by
  have hinside : ∀ u d, (s.exit t c now).inside u = some d → s.inside u = some d :=
    fun u d hu => (inside_exit_cases s t u now c hu).2
  obtain ⟨hcompleted, hsamples⟩ := h.completed_exit hclock hc
  refine ⟨h.pending, h.attached, fun u => ?_, fun u d hu => h.selected u d (hinside u d hu),
    fun u d hu => UInt64.le_trans (h.started u d (hinside u d hu)) hclock, hcompleted, hsamples⟩
  rw [lookup_exit, inside_exit]
  by_cases hut : u = t
  · rw [if_pos hut, Option.bind_none]
    by_cases hexit : Program.exit c.syscall ∈ s.attached
    · rw [if_pos ⟨hut, hexit⟩]
    · -- an unselected syscall never stored an entry
      have hstored : c.stored = false := Bool.eq_false_iff.mpr fun hstored =>
        hexit ((h.attached _).2.mpr (h.selected t c hc hstored))
      rw [if_neg fun hx => hexit hx.2, h.entries, hut, hc, Option.bind_some, hstored]
      rfl
  · rw [if_neg fun hx => hut hx.1, if_neg hut, h.entries]

theorem Exact.step {kinds : List SyscallKind} {s s' : System} {e : Event} (h : Exact kinds s)
    (hstep : Latency.step s e = some s') : Exact kinds s' := by
  rcases step_cases hstep with ⟨-, p, ps, hp, -⟩ | ⟨t, k, now, admitted, -, hclock, hfree, rfl⟩ |
    ⟨t, c, now, -, hclock, hc, rfl⟩
  · rw [h.pending] at hp
    cases hp
  · exact h.enter hclock hfree k admitted
  · exact h.exit hclock hc

/-- The deltas of the completed calls of one syscall. -/
def deltasOf (k : SyscallKind) (completed : List (SyscallKind × ℕ)) : List ℕ :=
  completed.filterMap fun c => if c.1 = k then some c.2 else none

/-- The maps account for every call. `Shows v n` says how a counter `v` shows
the number `n`. -/
structure Accounting (Shows : UInt64 → ℕ → Prop) (kinds : List SyscallKind) (s : System) :
    Prop where
  inFlight : ∀ t, t ∈ s.maps.latencyStart.keys ↔
    ∃ c, s.inside t = some c ∧ c.syscall ∈ kinds ∧ c.stored = true
  buckets : ∀ k, ∀ i < histSlots, Shows (slotAt s.maps.latencyHist k i)
    ((deltasOf k s.completed).countP fun d => bucket d = i)
  sums : ∀ k, slotAt s.maps.latencyHist k histSlots = UInt64.ofNat (deltasOf k s.completed).sum
  maxima : ∀ k, (slotAt s.maps.latencyHist k (histSlots + 1)).toNat =
    (deltasOf k s.completed).foldl max 0
  unselected : ∀ k ∉ kinds, ∀ i < latencySlots, slotAt s.maps.latencyHist k i = 0
  refusals : ∃ v, ArrayMap.lookup s.maps.drops dropKeyLatency = some v ∧ Shows v s.refused

theorem exact_start (kinds : List SyscallKind) (filter : ArrayMap Bpf.FilterConfig 1)
    (clock : UInt64) (busy : Thread → Option SyscallKind) :
    Exact kinds (.start [] (attach kinds) filter clock busy) := by
  refine ⟨rfl, fun k => ?_, fun t => ?_, fun t c hc hs => ?_, fun t c hc => ?_, rfl,
    by simp [System.start]⟩
  · simp [System.start, attach]
  · have hl : (System.start [] (attach kinds) filter clock busy).maps.latencyStart.lookup t =
        none :=
      BoundedMap.lookup_empty t
    rw [hl]
    cases hb : busy t <;> simp [System.start, hb]
  · simp only [System.start, Option.map_eq_some_iff] at hc
    obtain ⟨k, -, rfl⟩ := hc
    cases hs
  · simp only [System.start, Option.map_eq_some_iff] at hc
    obtain ⟨k, -, rfl⟩ := hc
    exact UInt64.le_refl clock

theorem Exact.deltasOf {kinds : List SyscallKind} {s : System} (h : Exact kinds s)
    (k : SyscallKind) :
    Latency.deltasOf k s.completed =
      (samplesOf k (s.samples.map fun x => (x.syscall, x.delta))).map UInt64.toNat := by
  rw [h.completed, Latency.deltasOf, samplesOf, List.filterMap_map, List.filterMap_map,
    List.map_filterMap]
  apply List.filterMap_congr
  intro x _
  by_cases hx : x.syscall = k <;> simp [hx]

theorem accounting_of_exact {kinds : List SyscallKind} {s : System} (he : Exact kinds s)
    (hr : Recorded s) : Accounting (fun v n => v = UInt64.ofNat n) kinds s := by
  refine ⟨fun t => ?_, fun k i hi => ?_, fun k => ?_, fun k => ?_, fun k hk i hi => ?_,
    ⟨_, hr.drops, rfl⟩⟩
  · -- the start map holds an entry for the selected calls in progress and for no other
    rw [BoundedMap.mem_keys_iff, he.entries]
    constructor
    · intro h
      cases hc : s.inside t with
      | none => simp [hc] at h
      | some c =>
        have hs : c.stored = true := by
          by_contra hne
          simp [hc, hne] at h
        exact ⟨c, rfl, he.selected t c hc hs, hs⟩
    · rintro ⟨c, hc, -, hs⟩
      simp [hc, hs]
  · rw [hr.hist, slotAt_recordAll_bucket _ _ hi, he.deltasOf, List.countP_map]
    rfl
  · have hid : UInt64.ofNat ∘ UInt64.toNat = id := funext fun x => UInt64.ofNat_toNat
    rw [hr.hist, slotAt_recordAll_sum, he.deltasOf, ← Hist.sum_map_ofNat, List.map_map,
      hid, List.map_id]
  · rw [hr.hist, slotAt_recordAll_max, he.deltasOf]
  · rw [hr.hist]
    -- a syscall that was not selected has no sample
    apply slotAt_recordAll_eq_zero _ _ _ hi
    intro x hx hxk
    obtain ⟨y, hy, rfl⟩ := List.mem_map.mp hx
    have hyk : y.syscall = k := hxk
    exact hk (hyk ▸ he.samples y hy)

/-- With the programs of the selected syscalls attached, the start map and the
counters account for every call, modulo `2 ^ 64`. -/
theorem latency_accounting (kinds : List SyscallKind) (filter : ArrayMap Bpf.FilterConfig 1)
    (clock : UInt64) (busy : Thread → Option SyscallKind) (es : List Event) (s : System)
    (hrun : run step (.start [] (attach kinds) filter clock busy) es = some s) :
    Accounting (fun v n => v = UInt64.ofNat n) kinds s := by
  have hboth := run_invariant (P := fun s => Exact kinds s ∧ Recorded s)
    (fun _ _ _ h hstep => ⟨h.1.step hstep, h.2.step hstep⟩) hrun
    ⟨exact_start kinds filter clock busy, recorded_start _ _ _ _ _⟩
  exact accounting_of_exact hboth.1 hboth.2

theorem latency_accounting_two_reads :
    ∃ s, run step (.start [] (attach [.read]) Maps.fresh.filterMap 0 fun _ => none)
      [.enter 1 .read 5 true, .exit 1 9, .enter 1 .read 12 true] = some s ∧
      Accounting (fun v n => v = UInt64.ofNat n) [.read] s := by
  obtain ⟨s, hs⟩ := Option.isSome_iff_exists.mp (show (run step
    (.start [] (attach [.read]) Maps.fresh.filterMap 0 fun _ => none)
    [.enter 1 .read 5 true, .exit 1 9, .enter 1 .read 12 true]).isSome = true by decide)
  exact ⟨s, hs, latency_accounting [.read] _ 0 _ _ s hs⟩

def instantRead : List Event := [.enter 1 .read 0 true, .exit 1 0]

theorem run_instantRead {s : System} (h : Exact [.read] s) (hidle : ∀ t, s.inside t = none)
    (hclock : s.clock = 0) :
    ∃ s', run step s instantRead = some s' ∧ (∀ t, s'.inside t = none) ∧ s'.clock = 0 ∧
      s'.completed = s.completed ++ [(.read, 0)] := by
  have hempty : s.maps.latencyStart.keys = ∅ := by
    apply Finset.eq_empty_of_forall_notMem
    intro t ht
    rw [BoundedMap.mem_keys_iff, h.entries, hidle] at ht
    cases ht
  have hstores : s.stores 1 .read 0 true = true := by
    have hroom : s.maps.latencyStart.update 1 0 ≠ none := by
      rw [ne_eq, BoundedMap.update_eq_none_iff, hempty]
      simp
    simp [System.stores, System.admits, (h.attached .read).1, Option.isSome_iff_ne_none, hroom]
  let c : Call := ⟨s.calls + 1, .read, 0, true, false⟩
  have hinside : (s.enter 1 .read 0 true).inside = Function.update s.inside 1 (some c) := by
    simp [System.enter, hstores, c]
  have henter : step s (.enter 1 .read 0 true) = some (s.enter 1 .read 0 true) := by
    simp [step, hclock, hidle]
  have hexit : step (s.enter 1 .read 0 true) (.exit 1 0) =
      some ((s.enter 1 .read 0 true).exit 1 c 0) := by
    have hc : (s.enter 1 .read 0 true).inside 1 = some c := by
      rw [hinside, Function.update_self]
    have hclock' : (s.enter 1 .read 0 true).clock = 0 := rfl
    simp [step, hc, hclock']
  refine ⟨(s.enter 1 .read 0 true).exit 1 c 0, ?_, fun t => ?_, rfl, rfl⟩
  · exact run_cons_eq_some.mpr ⟨_, henter, run_cons_eq_some.mpr ⟨_, hexit, rfl⟩⟩
  · change Function.update (s.enter 1 .read 0 true).inside 1 none t = none
    rw [hinside, Function.update_idem, Function.update_apply, hidle]
    split_ifs <;> rfl

theorem run_instantReads {s : System} (h : Exact [.read] s) (hidle : ∀ t, s.inside t = none)
    (hclock : s.clock = 0) (n : ℕ) :
    ∃ s', run step s (List.replicate n instantRead).flatten = some s' ∧
      s'.completed = s.completed ++ List.replicate n (.read, 0) := by
  induction n generalizing s with
  | zero => exact ⟨s, rfl, by simp⟩
  | succ n ih =>
    obtain ⟨t, ht, hidle', hclock', hcompleted⟩ := run_instantRead h hidle hclock
    have hexact : Exact [.read] t := run_invariant (fun _ _ _ h hstep => h.step hstep) ht h
    obtain ⟨s', hs', hall⟩ := ih hexact hidle' hclock'
    refine ⟨s', ?_, ?_⟩
    · rw [List.replicate_succ, List.flatten_cons, run_append, ht]
      exact hs'
    · rw [hall, hcompleted, List.append_assoc, List.replicate_succ, List.singleton_append]

theorem count_instantReads (n : ℕ) :
    ((deltasOf .read (List.replicate n (.read, 0))).countP fun d => bucket d = 0) = n := by
  have hdeltas : deltasOf .read (List.replicate n (SyscallKind.read, 0)) = List.replicate n 0 :=
    List.filterMap_replicate_of_some rfl
  have hb : bucket 0 = 0 := by decide
  rw [hdeltas, List.countP_replicate, hb]
  rfl

/-- After `2 ^ 64` reads the first bucket shows `0`. -/
theorem latency_counters_wrap :
    ¬ ∀ (kinds : List SyscallKind) (filter : ArrayMap Bpf.FilterConfig 1) (clock : UInt64)
      (busy : Thread → Option SyscallKind) (es : List Event) (s : System),
      run step (.start [] (attach kinds) filter clock busy) es = some s →
      Accounting (fun v n => v.toNat = n) kinds s := by
  intro h
  obtain ⟨s, hs, hcompleted⟩ := run_instantReads
    (exact_start [.read] Maps.fresh.filterMap 0 fun _ => none) (fun _ => rfl) rfl (2 ^ 64)
  have hbucket := (h _ _ _ _ _ s hs).buckets .read 0 (by decide)
  have hnil : (System.start [] (attach [.read]) Maps.fresh.filterMap 0 fun _ => none).completed =
      [] :=
    rfl
  rw [hcompleted, hnil, List.nil_append, count_instantReads] at hbucket
  exact absurd (UInt64.toNat_lt _) (by rw [hbucket]; exact lt_irrefl _)

end Latency

end Tracelet
