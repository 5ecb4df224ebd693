import Tracelet.Delivery

namespace Tracelet
open KernelMap TransitionRun

namespace Stats

inductive Warning where
  | ringbuf (count : UInt64)
  | latency (count : UInt64)

def Warning.text : Warning → String
  | ringbuf count => "warning: " ++ toString count.toNat ++ " ring-buffer drops\n"
  | latency count => "warning: " ++ toString count.toNat ++ " latency-map drops\n"

def warnings (map : ArrayMap UInt64 3) (seen : UInt64 × UInt64) : List Warning :=
  let ringbuf := readDropKey map 0
  let latency := readDropKey map 1
  (if ringbuf > seen.1 then [.ringbuf ringbuf] else []) ++
    if latency > seen.2 then [.latency latency] else []

def warnAll (seen : UInt64 × UInt64) : List (ArrayMap UInt64 3) → List Warning
  | [] => []
  | map :: maps => warnings map seen ++ warnAll (warnOnDrops map seen) maps

def ringbufCounts (ws : List Warning) : List UInt64 :=
  ws.filterMap fun
    | .ringbuf count => some count
    | .latency _ => none

def latencyCounts (ws : List Warning) : List UInt64 :=
  ws.filterMap fun
    | .ringbuf _ => none
    | .latency count => some count

/-- Counts that rise from above `low` to `high`. -/
structure Rises (low high : UInt64) (counts : List UInt64) : Prop where
  pairwise : counts.Pairwise (· < ·)
  above : ∀ count ∈ counts, low < count ∧ count ≤ high
  last : counts.getLast?.getD low = high

theorem Rises.nil (low : UInt64) : Rises low low [] :=
  ⟨List.Pairwise.nil, fun _ h => (List.not_mem_nil h).elim, rfl⟩

theorem Rises.cons {low mid high : UInt64} {counts : List UInt64} (h : Rises mid high counts)
    (hlt : low < mid) : Rises low high (mid :: counts) := by
  have hle : mid ≤ high := by
    cases hlast : counts.getLast? with
    | none =>
      have hmid := h.last
      rw [hlast] at hmid
      exact UInt64.le_of_eq hmid
    | some count =>
      obtain ⟨habove, hbelow⟩ := h.above count (List.mem_of_getLast? hlast)
      exact UInt64.le_of_lt (UInt64.lt_of_lt_of_le habove hbelow)
  refine ⟨List.pairwise_cons.mpr ⟨fun count hc => (h.above count hc).1, h.pairwise⟩, ?_, ?_⟩
  · rw [List.forall_mem_cons]
    exact ⟨⟨hlt, hle⟩, fun count hc =>
      ⟨UInt64.lt_trans hlt (h.above count hc).1, (h.above count hc).2⟩⟩
  · rw [List.getLast?_cons, Option.getD_some]
    exact h.last

theorem Rises.warn {low high count : UInt64} {counts : List UInt64}
    (h : Rises (if count > low then count else low) high counts) :
    Rises low high ((if count > low then [count] else []) ++ counts) := by
  by_cases hgt : count > low
  · rw [if_pos hgt] at h ⊢
    exact h.cons hgt
  · rw [if_neg hgt] at h ⊢
    exact h

theorem ringbufCounts_warnings (map : ArrayMap UInt64 3) (seen : UInt64 × UInt64) :
    ringbufCounts (warnings map seen) =
      if readDropKey map 0 > seen.1 then [readDropKey map 0] else [] := by
  simp only [ringbufCounts, warnings, List.filterMap_append]
  by_cases h0 : readDropKey map 0 > seen.1 <;> by_cases h1 : readDropKey map 1 > seen.2 <;>
    simp [h0, h1]

theorem latencyCounts_warnings (map : ArrayMap UInt64 3) (seen : UInt64 × UInt64) :
    latencyCounts (warnings map seen) =
      if readDropKey map 1 > seen.2 then [readDropKey map 1] else [] := by
  simp only [latencyCounts, warnings, List.filterMap_append]
  by_cases h0 : readDropKey map 0 > seen.1 <;> by_cases h1 : readDropKey map 1 > seen.2 <;>
    simp [h0, h1]

theorem warnAll_append (seen : UInt64 × UInt64) (maps maps' : List (ArrayMap UInt64 3)) :
    warnAll seen (maps ++ maps') = warnAll seen maps ++
      warnAll (maps.foldl (fun seen map => warnOnDrops map seen) seen) maps' := by
  induction maps generalizing seen with
  | nil => rfl
  | cons map maps ih =>
    rw [List.cons_append, warnAll, warnAll, ih, List.foldl_cons, List.append_assoc]

/-- However the counters change between the calls, the warned counts of each rise
to what the loop has seen at the end. -/
theorem rises_warnAll (maps : List (ArrayMap UInt64 3)) (seen : UInt64 × UInt64) :
    Rises seen.1 (maps.foldl (fun seen map => warnOnDrops map seen) seen).1
        (ringbufCounts (warnAll seen maps)) ∧
      Rises seen.2 (maps.foldl (fun seen map => warnOnDrops map seen) seen).2
        (latencyCounts (warnAll seen maps)) := by
  induction maps generalizing seen with
  | nil => exact ⟨.nil _, .nil _⟩
  | cons map maps ih =>
    obtain ⟨hringbuf, hlatency⟩ := ih (warnOnDrops map seen)
    have hsplit : warnAll seen (map :: maps) =
        warnings map seen ++ warnAll (warnOnDrops map seen) maps := rfl
    constructor
    · rw [hsplit, ringbufCounts, List.filterMap_append, ← ringbufCounts, ← ringbufCounts,
        ringbufCounts_warnings]
      exact hringbuf.warn
    · rw [hsplit, latencyCounts, List.filterMap_append, ← latencyCounts, ← latencyCounts,
        latencyCounts_warnings]
      exact hlatency.warn

theorem eq_map_ringbuf {ws : List Warning} (h : latencyCounts ws = []) :
    ws = (ringbufCounts ws).map .ringbuf := by
  induction ws with
  | nil => rfl
  | cons w ws ih =>
    cases w with
    | ringbuf count => exact congrArg (Warning.ringbuf count :: ·) (ih h)
    | latency count => cases h

end Stats

namespace EventLoop
open Bpf Stats

def warned (s : State) : Event → List Warning
  | .warn => warnings s.maps.drops s.dropsSeen
  | _ => []

/-- What a step of the loop writes to standard error before the summary. -/
def stderr (s : State) (e : Event) : List String := (warned s e).map Warning.text

def readings (s : State) : Event → List (ArrayMap UInt64 3)
  | .warn => [s.maps.drops]
  | _ => []

theorem dropsSeen_step {cmd : Command} {count : Option UInt64} {s s' : State} {e : Event}
    (h : step cmd count s e = some s') :
    s'.dropsSeen = (readings s e).foldl (fun seen map => warnOnDrops map seen) s.dropsSeen ∧
      warned s e = warnAll s.dropsSeen (readings s e) := by
  cases e with
  | warn =>
    obtain ⟨-, rfl⟩ := warn_cases h
    exact ⟨rfl, (List.append_nil _).symm⟩
  | fire record => exact ⟨Option.some.inj h ▸ rfl, rfl⟩
  | signal => exact ⟨Option.some.inj h ▸ rfl, rfl⟩
  | check expired =>
    obtain ⟨-, ⟨-, rfl⟩ | ⟨-, rfl⟩⟩ := check_cases h
    · exact ⟨rfl, rfl⟩
    · exact ⟨rfl, rfl⟩
  | deliver =>
    obtain ⟨_, _, -, -, ⟨-, rfl⟩ | ⟨-, -, rfl⟩ | ⟨-, -, rfl⟩⟩ := deliver_cases h
    · exact ⟨rfl, rfl⟩
    · exact ⟨rfl, rfl⟩
    · exact ⟨rfl, rfl⟩
  | endPoll =>
    obtain ⟨-, rfl⟩ := endPoll_cases h
    exact ⟨rfl, rfl⟩
  | fail =>
    obtain ⟨-, rfl⟩ := fail_cases h
    exact ⟨rfl, rfl⟩

/-- The loop is a sequence of calls, with whatever happens between them. -/
theorem warned_eq {cmd : Command} {count : Option UInt64} {s s' : State} {es : List Event}
    (hrun : run (step cmd count) s es = some s') :
    outputs (step cmd count) warned s es =
        warnAll s.dropsSeen (outputs (step cmd count) readings s es) ∧
      s'.dropsSeen = (outputs (step cmd count) readings s es).foldl
        (fun seen map => warnOnDrops map seen) s.dropsSeen := by
  induction es generalizing s with
  | nil =>
    obtain rfl := Option.some.inj hrun
    exact ⟨rfl, rfl⟩
  | cons e es ih =>
    obtain ⟨t, ht, hrest⟩ := run_cons_eq_some.mp hrun
    obtain ⟨hout, hseen⟩ := ih hrest
    obtain ⟨hstep, hwarned⟩ := dropsSeen_step ht
    rw [outputs, outputs, ht, Option.elim_some, Option.elim_some, hout, hseen, hwarned,
      warnAll_append, List.foldl_append, hstep]
    exact ⟨rfl, rfl⟩

theorem latencySeen_step {cmd : Command} {count : Option UInt64} {s s' : State} {e : Event}
    (h : Counted s ∧ s.dropsSeen.2 = 0) (hstep : step cmd count s e = some s') :
    Counted s' ∧ s'.dropsSeen.2 = 0 := by
  refine ⟨h.1.step hstep, ?_⟩
  rw [(dropsSeen_step hstep).1]
  cases e with
  | warn =>
    have hzero : readDropKey s.maps.drops 1 = 0 := by
      rw [readDropKey, h.1.latencyDrops, Option.getD_some]
    simp only [readings, List.foldl_cons, List.foldl_nil, warnOnDrops, hzero, h.2, gt_iff_lt,
      UInt64.lt_irrefl, if_false]
  | fire | signal | check | deliver | endPoll | fail => exact h.2

/-- Each warning of a run shows more ring-buffer drops than the one before, no
other warning is written, and the final summary counts what the last one shows
and the rejected records. -/
theorem warnings_rise (cmd : Command) (count : Option UInt64) (filter : ArrayMap Bpf.FilterConfig 1)
    (es : List Event) (s : State) (hrun : run (step cmd count) (.start filter) es = some s) :
    ∃ counts : List UInt64, outputs (step cmd count) warned (.start filter) es =
      counts.map .ringbuf ∧
      outputs (step cmd count) stderr (.start filter) es =
        counts.map (fun n => (Warning.ringbuf n).text) ∧
      counts.Pairwise (· < ·) ∧ 0 ∉ counts ∧
      s.totalDrops = counts.getLast?.getD 0 + s.decodeRejects ∧
      (s.failuresSeen < 2 ^ 64 → (counts.getLast?.getD 0).toNat = s.failuresSeen) := by
  obtain ⟨hcounted, hsecond⟩ := run_invariant (P := fun s => Counted s ∧ s.dropsSeen.2 = 0)
    (fun _ _ _ h hstep => latencySeen_step h hstep) hrun ⟨counted_start filter, rfl⟩
  obtain ⟨hout, hseen⟩ := warned_eq hrun
  obtain ⟨hringbuf, hlatency⟩ :=
    rises_warnAll (outputs (step cmd count) readings (.start filter) es)
      (State.start filter).dropsSeen
  rw [← hseen, ← hout] at hringbuf hlatency
  have hnone : latencyCounts (outputs (step cmd count) warned (.start filter) es) = [] := by
    apply List.eq_nil_iff_forall_not_mem.mpr
    intro n hn
    obtain ⟨habove, hbelow⟩ := hlatency.above n hn
    rw [hsecond] at hbelow
    exact UInt64.lt_irrefl n (UInt64.lt_of_le_of_lt hbelow habove)
  have hlast :
      (ringbufCounts (outputs (step cmd count) warned (.start filter) es)).getLast?.getD 0 =
        s.dropsSeen.1 := hringbuf.last
  have htext : outputs (step cmd count) stderr (.start filter) es =
      (outputs (step cmd count) warned (.start filter) es).map Warning.text := by
    rw [← List.filterMap_eq_map, filterMap_outputs]
    simp only [List.filterMap_eq_map]
    rfl
  refine ⟨_, eq_map_ringbuf hnone, ?_, hringbuf.pairwise, fun h0 => ?_, ?_, fun hlt => ?_⟩
  · conv_lhs => rw [htext, eq_map_ringbuf hnone, List.map_map]
    rfl
  · exact UInt64.lt_irrefl 0 (hringbuf.above 0 h0).1
  · rw [hlast, State.totalDrops, hsecond, UInt64.add_zero]
  · rw [hlast, hcounted.seen hlt]
    exact UInt64.toNat_ofNat_of_lt' hlt

def threeDrops : List Event :=
  [.fire none, .check false, .endPoll, .warn, .fire none, .fire none, .check false, .endPoll, .warn]

theorem warnings_rise_three_drops :
    ∃ s, run (step .exec none) (.start Maps.fresh.filterMap) threeDrops = some s ∧
      ∃ counts : List UInt64,
        outputs (step .exec none) warned (.start Maps.fresh.filterMap) threeDrops =
          counts.map .ringbuf ∧
        outputs (step .exec none) stderr (.start Maps.fresh.filterMap) threeDrops =
          counts.map (fun n => (Warning.ringbuf n).text) ∧
        counts.Pairwise (· < ·) ∧ 0 ∉ counts ∧
        s.totalDrops = counts.getLast?.getD 0 + s.decodeRejects ∧
        (counts.getLast?.getD 0).toNat = s.failuresSeen := by
  obtain ⟨s, hs⟩ := Option.isSome_iff_exists.mp (show (run (step .exec none)
    (.start Maps.fresh.filterMap) threeDrops).isSome = true by decide)
  obtain ⟨counts, hwarned, htext, hrise, hpos, htotal, hlast⟩ := warnings_rise .exec none _ _ s hs
  have hseen : s.failuresSeen = 3 := by
    obtain rfl := Option.some.inj hs
    rfl
  exact ⟨s, hs, counts, hwarned, htext, hrise, hpos, htotal, hlast (by rw [hseen]; decide)⟩

end EventLoop

end Tracelet
