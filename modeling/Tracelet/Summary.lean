import Tracelet.EventLoop

namespace Tracelet
open KernelMap TransitionRun

namespace EventLoop
open Bpf

/-- What the counters say at every moment. The second drop counter belongs to
the latency programs, which these commands do not attach. -/
structure Counted (s : State) : Prop where
  linesLe : s.lines ≤ s.counted
  printed : s.printed = UInt64.ofNat s.lines
  decodeRejects : s.decodeRejects = UInt64.ofNat (s.counted - s.lines)
  ringbufDrops : ArrayMap.lookup s.maps.drops 0 = some (UInt64.ofNat s.failures)
  latencyDrops : ArrayMap.lookup s.maps.drops 1 = some 0
  seenLe : s.failuresSeen ≤ s.failures
  seen : s.failuresSeen < 2 ^ 64 → s.dropsSeen = (UInt64.ofNat s.failuresSeen, 0)
  summary : ∀ printed dropped, s.summary = some (printed, dropped) →
    s.pc = .done ∧ printed = s.printed ∧ dropped = s.totalDrops

theorem counted_start (filter : ArrayMap Bpf.FilterConfig 1) : Counted (.start filter) := by
  refine ⟨le_rfl, rfl, rfl, ?_, ?_, le_rfl, fun _ => rfl, fun _ _ h => by cases h⟩
  · exact ArrayMap.lookup_replicate _ (by decide)
  · exact ArrayMap.lookup_replicate _ (by decide)

theorem Counted.summary_of_pc {s : State} (h : Counted s) (hpc : s.pc ≠ .done) {P : Prop}
    {printed dropped : UInt64} (hs : s.summary = some (printed, dropped)) : P :=
  absurd (h.summary printed dropped hs).1 hpc

theorem Counted.frame {s s' : State} (h : Counted s)
    (hsame : (s'.lines, s'.counted, s'.printed, s'.decodeRejects, s'.dropsSeen, s'.maps.drops,
      s'.failures, s'.failuresSeen) = (s.lines, s.counted, s.printed, s.decodeRejects, s.dropsSeen,
      s.maps.drops, s.failures, s.failuresSeen))
    (hsummary : ∀ printed dropped, s'.summary = some (printed, dropped) →
      s'.pc = .done ∧ printed = s'.printed ∧ dropped = s'.totalDrops) : Counted s' := by
  simp only [Prod.mk.injEq] at hsame
  obtain ⟨hlines, hcounted, hprinted, hrejects, hdrops, hmap, hfailures, hseen⟩ := hsame
  constructor
  · rw [hlines, hcounted]
    exact h.linesLe
  · rw [hprinted, hlines]
    exact h.printed
  · rw [hrejects, hcounted, hlines]
    exact h.decodeRejects
  · rw [hmap, hfailures]
    exact h.ringbufDrops
  · rw [hmap]
    exact h.latencyDrops
  · rw [hseen, hfailures]
    exact h.seenLe
  · rw [hseen, hdrops]
    exact h.seen
  · exact hsummary

theorem Counted.fire {s : State} (h : Counted s) (record : Option (List UInt8)) :
    Counted { s with
      maps := Bpf.fire s.maps record
      failures := if record.isNone then s.failures + 1 else s.failures } := by
  cases record with
  | some record => exact h.frame rfl h.summary
  | none =>
    refine ⟨h.linesLe, h.printed, h.decodeRejects, ?_, ?_, h.seenLe.trans (Nat.le_succ _), h.seen,
      h.summary⟩
    · simp only [Bpf.fire, countDrop, dropKeyRingbuf, ArrayMap.lookup_modify, if_true,
        h.ringbufDrops]
      exact congrArg some (UInt64.ofNat_add _ _).symm
    · have hne : ¬ (1 : UInt32) = 0 := by decide
      simp only [Bpf.fire, countDrop, dropKeyRingbuf, ArrayMap.lookup_modify, hne, if_false,
        h.latencyDrops]

theorem Counted.warn {s : State} (h : Counted s) (hpc : s.pc = .warn) :
    Counted { s with
      pc := .check
      dropsSeen := Stats.warnOnDrops s.maps.drops s.dropsSeen
      failuresSeen := s.failures } := by
  refine ⟨h.linesLe, h.printed, h.decodeRejects, h.ringbufDrops, h.latencyDrops, le_rfl,
    fun hlt => ?_, fun p d hs => h.summary_of_pc (by simp [hpc]) hs⟩
  have hold := h.seen (h.seenLe.trans_lt hlt)
  have hread : Stats.readDropKey s.maps.drops 0 = UInt64.ofNat s.failures := by
    rw [Stats.readDropKey, h.ringbufDrops, Option.getD_some]
  have hzero : Stats.readDropKey s.maps.drops 1 = 0 := by
    rw [Stats.readDropKey, h.latencyDrops, Option.getD_some]
  -- as long as it has not wrapped, the kernel's counter only grows between two readings
  have hgt : UInt64.ofNat s.failures > UInt64.ofNat s.failuresSeen ↔
      s.failuresSeen < s.failures := by
    rw [gt_iff_lt, UInt64.lt_iff_toNat_lt, UInt64.toNat_ofNat_of_lt' hlt,
      UInt64.toNat_ofNat_of_lt' (h.seenLe.trans_lt hlt)]
  simp only [Stats.warnOnDrops, hread, hzero, hold, gt_iff_lt, UInt64.lt_irrefl, if_false,
    Prod.mk.injEq, and_true]
  by_cases hl : s.failuresSeen < s.failures
  · rw [if_pos (hgt.mpr hl)]
  · rw [if_neg (hgt.not.mpr hl), Nat.le_antisymm h.seenLe (Nat.le_of_not_lt hl)]

theorem Counted.deliver {cmd : Command} {count : Option UInt64} {s s' : State} (h : Counted s)
    (hstep : step cmd count s .deliver = some s') : Counted s' := by
  obtain ⟨record, rest, -, hpc, hcases⟩ := deliver_cases hstep
  have hsummary : ∀ {P : Prop} p d, s.summary = some (p, d) → P :=
    fun p d hs => h.summary_of_pc (by simp [hpc]) hs
  rcases hcases with ⟨-, rfl⟩ | ⟨-, -, rfl⟩ | ⟨-, -, rfl⟩
  · exact h.frame rfl h.summary
  · refine ⟨Nat.succ_le_succ h.linesLe, ?_, ?_, h.ringbufDrops, h.latencyDrops, h.seenLe, h.seen,
      fun p d hs => hsummary p d hs⟩
    · simp only [h.printed, UInt64.ofNat_add]
      rfl
    · simp only [h.decodeRejects, Nat.add_sub_add_right]
  · refine ⟨h.linesLe.trans (Nat.le_succ _), h.printed, ?_, h.ringbufDrops,
      h.latencyDrops, h.seenLe,
      h.seen, fun p d hs => hsummary p d hs⟩
    have hsub : s.counted + 1 - s.lines = (s.counted - s.lines) + 1 := Nat.succ_sub h.linesLe
    simp only [h.decodeRejects, hsub]
    exact (UInt64.ofNat_add _ _).symm

theorem Counted.step {cmd : Command} {count : Option UInt64} {s s' : State} {e : Event}
    (h : Counted s) (hstep : EventLoop.step cmd count s e = some s') : Counted s' := by
  cases e with
  | fire record => exact Option.some.inj hstep ▸ h.fire record
  | signal =>
    obtain rfl := Option.some.inj hstep
    exact h.frame rfl h.summary
  | check expired =>
    obtain ⟨hpc, ⟨-, rfl⟩ | ⟨-, rfl⟩⟩ := check_cases hstep
    · refine h.frame rfl fun p d hs => ?_
      -- the summary is made of the counters as the loop is left
      obtain ⟨rfl, rfl⟩ := Prod.mk.inj (Option.some.inj hs)
      exact ⟨rfl, rfl, rfl⟩
    · exact h.frame rfl fun p d hs => h.summary_of_pc (by simp [hpc]) hs
  | deliver => exact h.deliver hstep
  | endPoll =>
    obtain ⟨hpc, rfl⟩ := endPoll_cases hstep
    exact h.frame rfl fun p d hs => h.summary_of_pc (by simp [hpc]) hs
  | warn =>
    obtain ⟨hpc, rfl⟩ := warn_cases hstep
    exact h.warn hpc
  | fail =>
    obtain ⟨hpc, rfl⟩ := fail_cases hstep
    exact h.frame rfl fun p d hs =>
      h.summary_of_pc (by rcases hpc with hpc | hpc <;> simp [hpc]) hs

/-- Below `2 ^ 64` the summary accounts for every record that the callback got
while `RUNNING` was set, and for every failed reservation seen by the last
drop-counter reading. -/
theorem summary_accounts (cmd : Command) (count : Option UInt64)
    (filter : ArrayMap Bpf.FilterConfig 1) (es : List Event) (s : State) (printed dropped : UInt64)
    (hrun : run (step cmd count) (.start filter) es = some s)
    (hsummary : s.summary = some (printed, dropped)) (hlt : s.counted + s.failuresSeen < 2 ^ 64) :
    printed.toNat + dropped.toNat = s.counted + s.failuresSeen := by
  have h : Counted s :=
    run_invariant (fun _ _ _ h hstep => h.step hstep) hrun (counted_start filter)
  obtain ⟨-, rfl, rfl⟩ := h.summary printed dropped hsummary
  have hle := h.linesLe
  have htotal : s.totalDrops = UInt64.ofNat (s.failuresSeen + (s.counted - s.lines)) := by
    rw [State.totalDrops, h.seen (by omega), h.decodeRejects, UInt64.ofNat_add, UInt64.add_zero]
  rw [htotal, h.printed, UInt64.toNat_ofNat_of_lt' (show s.lines < 2 ^ 64 by omega),
    UInt64.toNat_ofNat_of_lt' (show s.failuresSeen + (s.counted - s.lines) < 2 ^ 64 by omega)]
  omega

theorem summary_accounts_two_drops :
    ∃ s, run (step .exec none) (.start Maps.fresh.filterMap)
        [.fire (some []), .fire none, .check false, .deliver, .endPoll, .warn, .check true] =
          some s ∧
      s.summary = some (0, 2) ∧ (0 : UInt64).toNat + (2 : UInt64).toNat = s.counted +
        s.failuresSeen := by
  have hrun : (run (step .exec none) (.start Maps.fresh.filterMap)
      [.fire (some []), .fire none, .check false, .deliver, .endPoll, .warn, .check true]).map
        (fun s => (s.summary, s.counted, s.failuresSeen)) = some (some (0, 2), 1, 1) := by decide
  obtain ⟨s, hs, hfields⟩ := Option.map_eq_some_iff.mp hrun
  simp only [Prod.mk.injEq] at hfields
  obtain ⟨hsummary, hcounted, hseen⟩ := hfields
  exact ⟨s, hs, hsummary, summary_accounts .exec none _ _ s 0 2 hs hsummary
    (by rw [hcounted, hseen]; decide)⟩

def interrupted : List Event :=
  [.fire (some Events.zeroExec), .fire (some Events.zeroExec), .check false, .deliver,
    .signal, .deliver,
    .endPoll, .warn, .check false]

set_option maxRecDepth 4000 in
theorem run_interrupted :
    (run (step .exec none) (.start Maps.fresh.filterMap) interrupted).map
      (fun s => (s.summary, s.consumed, s.failuresSeen)) = some (some (1, 0), 2, 0) := by decide

theorem run_failures (cmd : Command) (count : Option UInt64) {s : State} (h : Counted s) (n : ℕ) :
    ∃ s', run (step cmd count) s (List.replicate n (.fire none)) = some s' ∧ Counted s' ∧
      (s'.pc, s'.running, s'.lines, s'.counted, s'.decodeRejects, s'.dropsSeen) =
        (s.pc, s.running, s.lines, s.counted, s.decodeRejects, s.dropsSeen) ∧
      s'.failures = s.failures + n := by
  induction n generalizing s with
  | zero => exact ⟨s, rfl, h, rfl, rfl⟩
  | succ n ih =>
    obtain ⟨t, ht⟩ : ∃ t, step cmd count s (.fire none) = some t := ⟨_, rfl⟩
    obtain ⟨s', hrun, hs', hsame, hfailures⟩ := ih (h.step ht)
    obtain rfl := Option.some.inj ht
    refine ⟨s', run_cons_eq_some.mpr ⟨_, ht, hrun⟩, hs', hsame, ?_⟩
    rw [hfailures]
    exact Nat.add_right_comm _ 1 n

/-- After `2 ^ 64` failed reservations the kernel's counter reads `0` again. -/
theorem run_wrapped :
    ∃ es s, run (step .exec none) (.start Maps.fresh.filterMap) es = some s ∧
      s.summary = some (0, 0) ∧ s.counted = 0 ∧ s.failuresSeen = 2 ^ 64 := by
  obtain ⟨t, hrun, ht, hsame, hfailures⟩ :=
    run_failures .exec none (counted_start Maps.fresh.filterMap) (2 ^ 64)
  simp only [Prod.mk.injEq] at hsame
  obtain ⟨hpc, hrunning, hlines, hcounted, hrejects, hseen⟩ := hsame
  -- the drop counter has wrapped to 0
  have hwrap : UInt64.ofNat t.failures = 0 := by
    rw [hfailures]
    rfl
  have hwarn : Stats.warnOnDrops t.maps.drops t.dropsSeen = (0, 0) := by
    simp only [Stats.warnOnDrops, Stats.readDropKey, ht.ringbufDrops, ht.latencyDrops, hwrap,
      hseen]
    rfl
  have hprinted : t.printed = 0 := by rw [ht.printed, hlines]; rfl
  have htail : (run (step .exec none) t [.check false, .endPoll, .warn, .check true]).map
      (fun s => (s.summary, s.counted, s.failuresSeen)) = some (some (0, 0), 0, t.failures) := by
    simp [run, step, shouldStop, State.totalDrops, hpc, hrunning, hcounted, hrejects,
      hprinted, hwarn, State.start]
  obtain ⟨s, hs, hfields⟩ := Option.map_eq_some_iff.mp htail
  simp only [Prod.mk.injEq] at hfields
  have hall : run (step .exec none) (.start Maps.fresh.filterMap) (List.replicate (2 ^ 64)
      (Event.fire none) ++ [Event.check false, Event.endPoll, Event.warn, Event.check true]) =
        some s := by
    rw [run_append, hrun]
    exact hs
  refine ⟨_, s, hall, hfields.1, hfields.2.1, ?_⟩
  rw [hfields.2.2, hfailures]
  exact Nat.zero_add _

/-- A record delivered after the signal is left out of the summary, and so are
failed reservations that the kernel's counter has wrapped over. -/
theorem summary_loses_records :
    (¬ ∀ (cmd : Command) (count : Option UInt64) (filter : ArrayMap Bpf.FilterConfig 1)
      (es : List Event) (s : State) (printed dropped : UInt64),
      run (step cmd count) (.start filter) es = some s → s.summary = some (printed, dropped) →
      printed.toNat + dropped.toNat = s.consumed + s.failuresSeen) ∧
    ¬ ∀ (cmd : Command) (count : Option UInt64) (filter : ArrayMap Bpf.FilterConfig 1)
      (es : List Event) (s : State) (printed dropped : UInt64),
      run (step cmd count) (.start filter) es = some s → s.summary = some (printed, dropped) →
      printed.toNat + dropped.toNat = s.counted + s.failuresSeen := by
  constructor
  · intro h
    obtain ⟨s, hs, hfields⟩ := Option.map_eq_some_iff.mp run_interrupted
    simp only [Prod.mk.injEq] at hfields
    have hsum := h _ _ _ _ s 1 0 hs hfields.1
    rw [hfields.2.1, hfields.2.2] at hsum
    exact absurd hsum (by decide)
  · intro h
    obtain ⟨es, s, hs, hsummary, hcounted, hseen⟩ := run_wrapped
    have hsum := h _ _ _ _ s 0 0 hs hsummary
    rw [hcounted, hseen] at hsum
    exact absurd hsum (by decide)

end EventLoop

end Tracelet
