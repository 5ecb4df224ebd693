import Tracelet.Frames

namespace Tracelet
open KernelMap TransitionRun

namespace DashboardLoop
open Collector Dashboard

def Event.failure : Event → Bool
  | .fire none => true
  | _ => false

def failures (es : List Event) : ℕ := es.countP Event.failure

theorem failures_concat (es : List Event) (e : Event) :
    failures (es ++ [e]) = failures es + if e.failure then 1 else 0 := by
  rw [failures, failures, List.countP_append, List.countP_singleton]

/-- The kernel's counters, what the collector has read of them, and what it shows.
The dashboard does not attach the programs that use the second counter. -/
structure DropsFollow (failed : ℕ) (c : Collecting) : Prop where
  ringbuf : ArrayMap.lookup c.maps.drops 0 = some (UInt64.ofNat failed)
  latency : ArrayMap.lookup c.maps.drops 1 = some 0
  seen_le : failed < 2 ^ 64 → c.dropsSeen.1.toNat ≤ failed
  latencySeen : c.dropsSeen.2 = 0
  dropped_le : c.shared.dropped ≤ c.dropsSeen.1

theorem dropped_raiseDropped (shared : Shared) (total : UInt64) :
    (shared.raiseDropped total).dropped =
      if total > shared.dropped then total else shared.dropped := by
  unfold Shared.raiseDropped
  split_ifs <;> rfl

theorem DropsFollow.fire {failed : ℕ} {c : Collecting} (h : DropsFollow failed c)
    (record : Option (List UInt8)) :
    DropsFollow (failed + if record.isNone then 1 else 0)
      { c with maps := Bpf.fire c.maps record } := by
  cases record with
  | some record => exact ⟨h.ringbuf, h.latency, h.seen_le, h.latencySeen, h.dropped_le⟩
  | none =>
    refine ⟨?_, ?_, fun hlt => ?_, h.latencySeen, h.dropped_le⟩
    · simp only [Bpf.fire, Bpf.countDrop, dropKeyRingbuf, ArrayMap.lookup_modify,
        if_true, h.ringbuf]
      exact congrArg some (UInt64.ofNat_add _ _).symm
    · have hne : ¬ (1 : UInt32) = 0 := by decide
      simp only [Bpf.fire, Bpf.countDrop, dropKeyRingbuf, ArrayMap.lookup_modify, hne, if_false,
        h.latency]
    · simp only [Option.isNone_none, if_true] at hlt ⊢
      exact (h.seen_le (by omega)).trans (Nat.le_succ _)

theorem DropsFollow.seen_warn {failed : ℕ} {c : Collecting} (h : DropsFollow failed c)
    {ringbuf latency : Lookup}
    (hread : ringbuf = lookupDrops c.maps.drops 0 ∧ latency = lookupDrops c.maps.drops 1 ∨
      ringbuf = none ∧ latency = none) :
    (warnOnDrops ringbuf latency c.dropsSeen).getD c.dropsSeen = c.dropsSeen ∨
      (warnOnDrops ringbuf latency c.dropsSeen).getD c.dropsSeen =
        (if UInt64.ofNat failed > c.dropsSeen.1 then UInt64.ofNat failed else c.dropsSeen.1,
          0) := by
  obtain ⟨rfl, rfl⟩ | ⟨rfl, rfl⟩ := hread
  · right
    have hringbuf : Stats.readDropKey c.maps.drops 0 = UInt64.ofNat failed := by
      rw [Stats.readDropKey, h.ringbuf, Option.getD_some]
    have hlatency : Stats.readDropKey c.maps.drops 1 = 0 := by
      rw [Stats.readDropKey, h.latency, Option.getD_some]
    simp only [warnOnDrops, readDropKey_lookupDrops, hringbuf, hlatency, h.latencySeen,
      Option.bind_eq_bind, Option.bind_some, Option.pure_def, Option.getD_some, gt_iff_lt,
      UInt64.lt_irrefl, if_false]
  · left
    rfl

theorem DropsFollow.step {off : UInt64} {running : Bool} {failed : ℕ} {c c' : Collecting}
    {e : CollectEvent} (h : DropsFollow failed c) (hstep : c.step off running e = some c') :
    DropsFollow failed c' ∧ c.shared.dropped ≤ c'.shared.dropped := by
  obtain ⟨-, -, rfl⟩ | ⟨-, -, rfl⟩ | ⟨-, record, rest, -, -, rfl⟩ | ⟨-, -, rfl⟩ | ⟨-, -, rfl⟩ |
    ⟨ringbuf, latency, hread, -, -, rfl⟩ | ⟨-, -, rfl⟩ | ⟨-, -, rfl⟩ := collect_cases hstep
  · exact ⟨⟨h.ringbuf, h.latency, h.seen_le, h.latencySeen, h.dropped_le⟩, UInt64.le_refl _⟩
  · exact ⟨⟨h.ringbuf, h.latency, h.seen_le, h.latencySeen, h.dropped_le⟩, UInt64.le_refl _⟩
  · have hsame := dropped_receive off c.shared record
    refine ⟨⟨h.ringbuf, h.latency, h.seen_le, h.latencySeen, ?_⟩, UInt64.le_of_eq hsame.symm⟩
    rw [hsame]
    exact h.dropped_le
  · exact ⟨⟨h.ringbuf, h.latency, h.seen_le, h.latencySeen, h.dropped_le⟩, UInt64.le_refl _⟩
  · -- the raise copies what was read, and never lowers the total
    have hraise := dropped_raiseDropped c.shared (c.dropsSeen.1 + c.dropsSeen.2)
    rw [h.latencySeen, UInt64.add_zero] at hraise
    refine ⟨⟨h.ringbuf, h.latency, h.seen_le, h.latencySeen, ?_⟩, ?_⟩
    · simp only [h.latencySeen, UInt64.add_zero, hraise]
      split_ifs
      · exact UInt64.le_refl _
      · exact h.dropped_le
    · simp only [h.latencySeen, UInt64.add_zero, hraise]
      split_ifs
      · exact h.dropped_le
      · exact UInt64.le_refl _
  · refine ⟨?_, UInt64.le_refl _⟩
    -- a lookup that failed keeps what was seen
    rcases h.seen_warn hread with hsame | hseen
    · refine ⟨h.ringbuf, h.latency, ?_, ?_, ?_⟩
      · rw [hsame]
        exact h.seen_le
      · rw [hsame]
        exact h.latencySeen
      · rw [hsame]
        exact h.dropped_le
    · refine ⟨h.ringbuf, h.latency, fun hlt => ?_, ?_, ?_⟩
      · rw [hseen, toNat_ite_gt, UInt64.toNat_ofNat_of_lt' hlt]
        exact max_le (h.seen_le hlt) le_rfl
      · rw [hseen]
      · rw [hseen]
        split_ifs with hgt
        · exact UInt64.le_trans h.dropped_le (UInt64.le_of_lt hgt)
        · exact h.dropped_le
  · exact ⟨⟨h.ringbuf, h.latency, h.seen_le, h.latencySeen, h.dropped_le⟩, UInt64.le_refl _⟩
  · exact ⟨⟨h.ringbuf, h.latency, h.seen_le, h.latencySeen, h.dropped_le⟩, UInt64.le_refl _⟩

section Run

variable {S : Type} {lib : ListWidget S} {off : UInt64}

theorem DropsFollow.next {failed : ℕ} {s s' : State S} {e : Event}
    (h : DropsFollow failed s.collector) (hstep : DashboardLoop.step lib off s e = some s') :
    DropsFollow (failed + if e.failure then 1 else 0) s'.collector ∧
      s.collector.shared.dropped ≤ s'.collector.shared.dropped := by
  cases e with
  | fire record =>
    obtain rfl := Option.some.inj hstep
    have hfire := h.fire record
    cases record <;> exact ⟨hfire, UInt64.le_refl _⟩
  | signal | pass ns =>
    obtain rfl := Option.some.inj hstep
    exact ⟨h, UInt64.le_refl _⟩
  | collect e =>
    obtain ⟨c, hc, rfl⟩ := step_collect hstep
    exact h.step hc
  | ui e =>
    obtain ⟨u, -, rfl⟩ := step_ui hstep
    exact ⟨h, UInt64.le_refl _⟩

theorem dropsFollow_start (filter : ArrayMap Bpf.FilterConfig 1) (started now : ℕ) :
    DropsFollow 0 (State.start lib filter started now).collector :=
  ⟨ArrayMap.lookup_replicate _ (by decide), ArrayMap.lookup_replicate _ (by decide),
    fun _ => le_rfl, rfl, UInt64.le_refl _⟩

theorem dropped_frames {filter : ArrayMap Bpf.FilterConfig 1} {started now : ℕ} {es : List Event}
    {s : State S} (hrun : run (step lib off) (.start lib filter started now) es = some s) :
    (outputs (step lib off) frames (.start lib filter started now) es).Pairwise
        (fun a b => a.snap.overview.dropped ≤ b.snap.overview.dropped) ∧
      (failures es < 2 ^ 64 →
        ∀ frame ∈ outputs (step lib off) frames (.start lib filter started now) es,
        frame.snap.overview.dropped.toNat ≤ failures es) := by
  have hfollow := run_history (P := fun es (s : State S) => DropsFollow (failures es) s.collector)
    (fun past t e u hpast ht hstep => by
      rw [failures_concat]
      exact (ht.next hstep).1) hrun (dropsFollow_start filter started now)
  obtain ⟨hordered, hbound⟩ := pairwise_outputs frames
    (I := fun s : State S => ∃ failed, DropsFollow failed s.collector)
    (B := fun s frame => frame.snap.overview.dropped ≤ s.collector.shared.dropped)
    (R := fun a b => a.snap.overview.dropped ≤ b.snap.overview.dropped)
    (fun t e u ht hstep => by
      obtain ⟨failed, hfailed⟩ := ht
      obtain ⟨hnext, hle⟩ := hfailed.next hstep
      refine ⟨⟨_, hnext⟩, fun frame hframe => UInt64.le_trans hframe hle, ?_⟩
      cases e with
      | fire | signal | pass | collect => simp [frames]
      | ui e =>
        cases e with
        | check | key | idle | due | fail => simp [frames]
        | draw orders =>
          simp only [frames, List.pairwise_singleton, List.mem_singleton, forall_eq, true_and]
          exact ⟨hle, fun _ ha => ha⟩)
    hrun ⟨0, dropsFollow_start filter started now⟩
  refine ⟨hordered, fun hfits frame hframe => ?_⟩
  calc
    frame.snap.overview.dropped.toNat ≤ s.collector.shared.dropped.toNat := hbound frame hframe
    _ ≤ s.collector.dropsSeen.1.toNat := hfollow.dropped_le
    _ ≤ failures es := hfollow.seen_le hfits

/-- From frame to frame the number of dropped events does not fall, and it is
never more than the kernel has dropped. -/
theorem dropped_shown (lib : ListWidget S) (off : UInt64) (filter : ArrayMap Bpf.FilterConfig 1)
    (started now : ℕ) (es : List Event) (s : State S)
    (hrun : run (step lib off) (.start lib filter started now) es = some s)
    (hfits : failures es < 2 ^ 64) :
    (outputs (step lib off) frames (.start lib filter started now) es).Pairwise
        (fun a b => a.snap.overview.dropped ≤ b.snap.overview.dropped) ∧
      ∀ frame ∈ outputs (step lib off) frames (.start lib filter started now) es,
        frame.snap.overview.dropped.toNat ≤ failures es :=
  ⟨(dropped_frames hrun).1, (dropped_frames hrun).2 hfits⟩

end Run

def lateDrop : List Event :=
  [.fire none, .collect .ready, .collect .check, .collect .endPoll, .collect .raise,
    .collect (.warn true), .collect .refresh, .ui .check, .collect .check, .ui .idle, .ui .due,
    .collect .endPoll, .collect .raise]

theorem dropped_shown_late :
    ∃ orders frame, outputs (step .index 0) frames (.start .index Bpf.Maps.fresh.filterMap 0 0)
        (lateDrop ++ [.ui (.draw orders)]) = [frame] ∧
      frame.snap.overview.dropped.toNat ≤ 1 ∧ frame.snap.overview.dropped = 1 := by
  obtain ⟨orders⟩ := HashOrders.nonempty
  obtain ⟨s, hs⟩ := Option.isSome_iff_exists.mp (show (run (step .index 0)
    (.start .index Bpf.Maps.fresh.filterMap 0 0) (lateDrop ++ [.ui (.draw orders)])).isSome = true
    from rfl)
  have hless := (dropped_shown .index 0 Bpf.Maps.fresh.filterMap 0 0 _ s hs
    (show 1 < 2 ^ 64 by decide)).2
  exact ⟨orders, _, rfl, hless _ List.mem_cons_self, rfl⟩

/-- Part of a turn has been done since the loop was in the state `loop`. -/
def InTurn (off : UInt64) (loop : Loop) (records : List (List UInt8)) (c : Collecting) : Prop :=
  let polled := records.foldl (fun shared data => shared.receive data off) loop.shared
  let raised := polled.raiseDropped (loop.dropsSeen.1 + loop.dropsSeen.2)
  match c.pc with
  | .setup | .check | .done => records = [] ∧ c.shared = loop.shared ∧ c.dropsSeen = loop.dropsSeen
  | .poll | .raise | .failed => c.shared = polled ∧ c.dropsSeen = loop.dropsSeen
  | .warn => c.shared = raised ∧ c.dropsSeen = loop.dropsSeen
  | .refresh => c.shared = raised ∧ ∃ ringbuf latency,
      c.dropsSeen = (warnOnDrops ringbuf latency loop.dropsSeen).getD loop.dropsSeen

theorem InTurn.iterate {off : UInt64} {loop : Loop} {records : List (List UInt8)} {c : Collecting}
    (h : InTurn off loop records c) (hpc : c.pc = .refresh) :
    ∃ it : Iteration, it.records = records ∧
      loop.iterate off it = ⟨refreshLatency c.shared c.maps.latencyHist, c.dropsSeen⟩ := by
  simp only [InTurn, hpc] at h
  obtain ⟨hshared, ringbuf, latency, hseen⟩ := h
  refine ⟨⟨records, ringbuf, latency, c.maps.latencyHist⟩, rfl, ?_⟩
  rw [hshared, hseen]
  rfl

/-- So far whole turns of the loop took the first records of the consumed ones, and
the turn in progress has the others. -/
structure Turned (off : UInt64) (started : ℕ) (consumed : List (List UInt8)) (its : List Iteration)
    (records : List (List UInt8)) (c : Collecting) : Prop where
  consumed : delivered its ++ records = consumed
  turn : InTurn off (Loop.run off started its) records c

theorem Turned.step {off : UInt64} {started : ℕ} {consumed : List (List UInt8)}
    {its : List Iteration} {records : List (List UInt8)} {running : Bool} {c c' : Collecting}
    {e : CollectEvent}
    (h : Turned off started consumed its records c) (hstep : c.step off running e = some c') :
    ∃ its' records',
      Turned off started (consumed ++ c.maps.events.take (c'.consumed - c.consumed)) its'
        records' c' ∧ (its' = its ∨ c'.pc = .check) := by
  have hturn := h.turn
  obtain ⟨-, hpc, rfl⟩ | ⟨-, hpc, rfl⟩ | ⟨-, record, rest, hevents, hpc, rfl⟩ | ⟨-, hpc, rfl⟩ |
    ⟨-, hpc, rfl⟩ | ⟨ringbuf, latency, -, -, hpc, rfl⟩ | ⟨-, hpc, rfl⟩ | ⟨-, hpc, rfl⟩ :=
    collect_cases hstep
  all_goals simp only [Nat.sub_self, List.take_zero, List.append_nil]
  · simp only [InTurn, hpc] at hturn
    exact ⟨its, records, ⟨h.consumed, hturn⟩, .inl rfl⟩
  · simp only [InTurn, hpc] at hturn
    refine ⟨its, records, ⟨h.consumed, ?_⟩, .inl rfl⟩
    cases running with
    | false => exact hturn
    | true =>
      obtain ⟨rfl, hrest⟩ := hturn
      exact hrest
  · simp only [InTurn, hpc] at hturn
    refine ⟨its, records ++ [record], ⟨?_, ?_⟩, .inl rfl⟩
    · rw [hevents, Nat.add_sub_cancel_left, ← h.consumed, List.append_assoc]
      rfl
    · simp only [InTurn, hpc, List.foldl_append, List.foldl_cons, List.foldl_nil, hturn, and_self]
  · simp only [InTurn, hpc] at hturn
    exact ⟨its, records, ⟨h.consumed, hturn⟩, .inl rfl⟩
  · simp only [InTurn, hpc] at hturn
    refine ⟨its, records, ⟨h.consumed, ?_⟩, .inl rfl⟩
    simp only [InTurn, hturn, and_self]
  · simp only [InTurn, hpc] at hturn
    refine ⟨its, records, ⟨h.consumed, ?_⟩, .inl rfl⟩
    simp only [InTurn, hturn, true_and]
    exact ⟨ringbuf, latency, rfl⟩
  · -- the last step of a turn: the records of the turn make one more iteration
    obtain ⟨it, hrecords, hiterate⟩ := hturn.iterate hpc
    refine ⟨its ++ [it], [], ⟨?_, ?_⟩, .inr trivial⟩
    · rw [List.append_nil, delivered, List.flatMap_append, List.flatMap_singleton, hrecords]
      exact h.consumed
    · rw [Collector.run_append, hiterate]
      exact ⟨rfl, rfl, rfl⟩
  · refine ⟨its, records, ⟨h.consumed, ?_⟩, .inl rfl⟩
    rcases hpc with hpc | hpc
    · simp only [InTurn, hpc] at hturn
      obtain ⟨rfl, hrest⟩ := hturn
      exact hrest
    · simp only [InTurn, hpc] at hturn
      exact hturn

/-- At the condition of the loop, the drops that the turns have read are those seen. -/
theorem Turned.kernelDrops_eq {off : UInt64} {started : ℕ} {consumed : List (List UInt8)}
    {its : List Iteration} {records : List (List UInt8)} {c : Collecting}
    (h : Turned off started consumed its records c) (hpc : c.pc = .check) :
    kernelDrops its = c.dropsSeen.1.toNat + c.dropsSeen.2.toNat := by
  have hturn := h.turn
  simp only [InTurn, hpc] at hturn
  obtain ⟨hringbuf, hlatency⟩ := dropsSeen_run off started its
  rw [hturn.2.2, hringbuf, hlatency, kernelDrops]

section Run

variable {S : Type} {lib : ListWidget S} {off : UInt64} {started : ℕ}

structure Follows (off : UInt64) (started : ℕ) (es : List Event) (its : List Iteration)
    (records : List (List UInt8)) (c : Collecting) : Prop where
  collected : Collected off started (submitted Event.submits es) c
  drops : DropsFollow (failures es) c
  turned : Turned off started ((submitted Event.submits es).take c.consumed) its records c
  kernelDrops_le : failures es < 2 ^ 64 → kernelDrops its ≤ failures es

theorem Follows.next {es : List Event} {s s' : State S} {e : Event} {its : List Iteration}
    {records : List (List UInt8)} (h : Follows off started es its records s.collector)
    (hstep : step lib off s e = some s') :
    ∃ its' records', Follows off started (es ++ [e]) its' records' s'.collector := by
  have hcollected := h.collected.next hstep
  have hdrops := (h.drops.next hstep).1
  rw [← failures_concat] at hdrops
  have hless : failures (es ++ [e]) < 2 ^ 64 → kernelDrops its ≤ failures (es ++ [e]) := by
    intro hlt
    rw [failures_concat] at hlt ⊢
    exact (h.kernelDrops_le (by omega)).trans (Nat.le_add_right _ _)
  have htake : (submitted Event.submits (es ++ [e])).take s.collector.consumed =
      (submitted Event.submits es).take s.collector.consumed := by
    rw [submitted_concat, List.take_append_of_le_length h.collected.consumed_le]
  have hkeep : ∀ c : Collecting, c.pc = s.collector.pc → c.shared = s.collector.shared →
      c.dropsSeen = s.collector.dropsSeen → c.consumed = s.collector.consumed →
        Turned off started ((submitted Event.submits (es ++ [e])).take c.consumed) its
          records c := by
    intro c hpc hshared hseen hconsumed
    refine ⟨?_, ?_⟩
    · rw [hconsumed, htake]
      exact h.turned.consumed
    · have hturn := h.turned.turn
      unfold InTurn at hturn ⊢
      rw [hpc, hshared, hseen]
      exact hturn
  cases e with
  | fire record =>
    obtain rfl := Option.some.inj hstep
    exact ⟨its, records, hcollected, hdrops, hkeep _ rfl rfl rfl rfl, hless⟩
  | signal | pass ns =>
    obtain rfl := Option.some.inj hstep
    exact ⟨its, records, hcollected, hdrops, hkeep _ rfl rfl rfl rfl, hless⟩
  | ui e =>
    obtain ⟨u, -, rfl⟩ := step_ui hstep
    exact ⟨its, records, hcollected, hdrops, hkeep _ rfl rfl rfl rfl, hless⟩
  | collect e =>
    have hforward := (step_forward hstep).1
    obtain ⟨c, hc, rfl⟩ := step_collect hstep
    obtain ⟨its', records', hturned, hcases⟩ := h.turned.step hc
    have hconsumed : (submitted Event.submits es).take s.collector.consumed ++
        s.collector.maps.events.take (c.consumed - s.collector.consumed) =
          (submitted Event.submits (es ++ [.collect e])).take c.consumed := by
      rw [h.collected.pending, ← List.take_add, Nat.add_sub_cancel' hforward, submitted_concat]
      exact congrArg _ (List.append_nil _).symm
    rw [hconsumed] at hturned
    refine ⟨its', records', hcollected, hdrops, hturned, ?_⟩
    rcases hcases with rfl | hpc
    · exact hless
    · intro hlt
      rw [hturned.kernelDrops_eq hpc, hdrops.latencySeen]
      exact hdrops.seen_le hlt

/-- In every interleaving the shared state and the counts seen are those of whole
turns of the collector's loop alone, and of a part of the next one: the turns
took the submitted records in their order, and read no drops that there were not. -/
theorem collector_refines_loop (lib : ListWidget S) (off : UInt64)
    (filter : ArrayMap Bpf.FilterConfig 1) (started now : ℕ) (es : List Event) (s : State S)
    (hrun : run (step lib off) (.start lib filter started now) es = some s) :
    ∃ its records, delivered its ++ records = (submitted Event.submits es).take
      s.collector.consumed ∧
      InTurn off (Loop.run off started its) records s.collector ∧
      (failures es < 2 ^ 64 → kernelDrops its ≤ failures es) := by
  have hfollows := run_history
    (P := fun es (s : State S) => ∃ its records, Follows off started es its records s.collector)
    (fun past t e u _ ht hstep => by
      obtain ⟨its, records, h⟩ := ht
      exact h.next hstep)
    hrun ⟨[], [], collected_start filter now, dropsFollow_start filter started now,
      ⟨rfl, rfl, rfl, rfl⟩, fun _ => le_rfl⟩
  obtain ⟨its, records, h⟩ := hfollows
  exact ⟨its, records, h.turned.consumed, h.turned.turn, h.kernelDrops_le⟩

end Run

theorem collector_refines_loop_late :
    ∃ s its records, run (step .index 0) (.start .index Bpf.Maps.fresh.filterMap 0 0)
      lateDrop = some s ∧
      InTurn 0 (Loop.run 0 0 its) records s.collector ∧ kernelDrops its ≤ 1 := by
  obtain ⟨s, hs⟩ := Option.isSome_iff_exists.mp (show (run (step .index 0)
    (.start .index Bpf.Maps.fresh.filterMap 0 0) lateDrop).isSome = true from rfl)
  obtain ⟨its, records, -, hturn, hless⟩ :=
    collector_refines_loop .index 0 Bpf.Maps.fresh.filterMap 0 0 lateDrop s hs
  exact ⟨s, its, records, hs, hturn, hless (by decide)⟩

end DashboardLoop

end Tracelet
