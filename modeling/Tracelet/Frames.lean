import Tracelet.DashboardLoop
import Tracelet.Delivery
import Tracelet.Panes

namespace Tracelet
open KernelMap TransitionRun

namespace Collector
open Tracelet.Stream (DashboardEvent streamMax)

def history (off : UInt64) (records : List (List UInt8)) : List (DashboardEvent × String) :=
  records.filterMap fun data => (Stream.decodeStream data).map fun ev => (ev, wallTime data off)

theorem history_concat (off : UInt64) (records : List (List UInt8)) (data : List UInt8) :
    history off (records ++ [data]) = history off records ++
      ((Stream.decodeStream data).map fun ev => (ev, wallTime data off)).toList := by
  rw [history, List.filterMap_append]
  cases h : Stream.decodeStream data <;> simp [h, history]

theorem length_history_le (off : UInt64) (records : List (List UInt8)) :
    (history off records).length ≤ records.length := List.length_filterMap_le _ _

/-- What the events make of a default `Shared`. The drops and the histograms are
not made of events. -/
structure FoldOf (started : ℕ) (evs : List (DashboardEvent × String)) (shared : Shared) : Prop where
  started : shared.started = some started
  total : shared.total = (pushAll evs).total
  tcpTotal : shared.tcpTotal = (pushAll evs).tcpTotal
  fileTotal : shared.fileTotal = (pushAll evs).fileTotal
  processes : shared.processes = (pushAll evs).processes
  byEvent : shared.byEvent = (pushAll evs).byEvent
  recent : shared.recent = (pushAll evs).recent

section FoldOf

variable {started : ℕ} {evs : List (DashboardEvent × String)} {shared : Shared}

theorem FoldOf.push (h : FoldOf started evs shared) (ev : DashboardEvent) (wall : String) :
    FoldOf started (evs ++ [(ev, wall)]) (shared.push ev wall) := by
  refine ⟨h.started, ?_, ?_, ?_, ?_, ?_, ?_⟩ <;> rw [pushAll_append]
  · simp only [Shared.push, h.total]
  · rw [tcpTotal_push, tcpTotal_push, h.tcpTotal]
  · rw [fileTotal_push, fileTotal_push, h.fileTotal]
  · rw [processes_push, processes_push, h.processes]
  · simp only [Shared.push, h.byEvent]
  · rw [recent_push, recent_push, h.recent]

theorem FoldOf.receive {off : UInt64} {records : List (List UInt8)}
    (h : FoldOf started (history off records) shared) (data : List UInt8) :
    FoldOf started (history off (records ++ [data])) (shared.receive data off) := by
  rw [history_concat]
  unfold Shared.receive
  cases hev : Stream.decodeStream data with
  | none => simpa using h
  | some ev => exact h.push ev (wallTime data off)

theorem FoldOf.raiseDropped (h : FoldOf started evs shared) (total : UInt64) :
    FoldOf started evs (shared.raiseDropped total) := by
  unfold Shared.raiseDropped
  split_ifs
  · exact ⟨h.started, h.total, h.tcpTotal, h.fileTotal, h.processes, h.byEvent, h.recent⟩
  · exact h

theorem FoldOf.refreshLatency (h : FoldOf started evs shared) (map : Bpf.LatencyHist) :
    FoldOf started evs (Collector.refreshLatency shared map) :=
  ⟨h.started, h.total, h.tcpTotal, h.fileTotal, h.processes, h.byEvent, h.recent⟩

end FoldOf

/-- What a snapshot says about the events, `age` nanoseconds after the start. -/
structure Pictures (evs : List (DashboardEvent × String)) (age : ℕ) (snap : Snapshot) : Prop where
  rate : snap.overview.rate =
    UInt64.ofNat evs.length / UInt64.ofNat (max (age / 1000000000) 1)
  processes : snap.overview.processes = (evs.map fun e => e.1.pid).dedup.length
  tcpTotal : snap.overview.tcpTotal.toNat = evs.countP fun e => isTcp e.1
  fileTotal : snap.overview.fileTotal.toNat = evs.countP fun e => !isTcp e.1
  stream : snap.stream = (evs.map fun e => row e.1 e.2).reverse.take streamMax
  topLength : snap.top.length = min 10 (evs.map fun e => e.1.pid).dedup.length
  topSorted : snap.top.Pairwise fun a b => b.count < a.count ∨ a.count = b.count ∧ b.pid < a.pid
  top : ∀ r ∈ snap.top, r.count.toNat = countPid r.pid evs ∧
    ∃ ev, lastOf r.pid evs = some ev ∧ r.process = processName ev
  leftOut : ∀ e ∈ evs, (∀ r ∈ snap.top, r.pid ≠ e.1.pid) →
    ∀ r ∈ snap.top, countPid e.1.pid evs ≤ r.count.toNat
  distributionNodup : (snap.distribution.map Prod.fst).Nodup
  distribution : ∀ name count, (name, count) ∈ snap.distribution ↔
    0 < countName name evs ∧ count.toNat = countName name evs

theorem countPid_pos_of_mem {evs : List (DashboardEvent × String)} {e : DashboardEvent × String}
    (h : e ∈ evs) : 0 < countPid e.1.pid evs :=
  List.count_pos_iff.mpr (List.mem_map_of_mem h)

theorem card_processes_pushAll (evs : List (DashboardEvent × String)) :
    (pushAll evs).processes.keys.card = (evs.map fun e => e.1.pid).dedup.length := by
  obtain ⟨o⟩ := MapOrder.nonempty (pushAll evs).processes
  have hsame : (o.entries.map Prod.fst).Perm (evs.map fun e => e.1.pid).dedup := by
    rw [List.perm_ext_iff_of_nodup o.nodup (List.nodup_dedup _)]
    intro pid
    rw [o.mem_keys_iff, List.mem_dedup, lookup_processes_pushAll, Option.isSome_map,
      ← countPid_pos_iff]
    exact List.count_pos_iff
  rw [← o.length_eq, ← hsame.length_eq, List.length_map]

theorem FoldOf.pictures {started : ℕ} {evs : List (DashboardEvent × String)} {shared : Shared}
    (h : FoldOf started evs shared) (hlen : evs.length < 2 ^ 64) (now : ℕ)
    (processes : MapOrder shared.processes) (byEvent : MapOrder shared.byEvent) :
    Pictures evs (now - started) (Snapshot.take shared now processes byEvent) := by
  have hcard : shared.processes.keys.card = (evs.map fun e => e.1.pid).dedup.length := by
    rw [h.processes, card_processes_pushAll]
  have hexact := take_exact shared now processes byEvent
  -- the counts fit into the `u64` that counts them
  have htop : ∀ r ∈ (Snapshot.take shared now processes byEvent).top,
      r.count.toNat = countPid r.pid evs ∧
        ∃ ev, lastOf r.pid evs = some ev ∧ r.process = processName ev := by
    intro r hr
    have hlookup := hexact.topMem r hr
    rw [h.processes] at hlookup
    exact (processes_pushAll_eq_some hlen r.pid r.process r.count).mp hlookup
  refine ⟨?_, hcard, ?_, ?_, ?_, ?_, hexact.topSorted, htop, ?_, hexact.distributionNodup, ?_⟩
  · simp only [Snapshot.take, h.total, total_pushAll, h.started, Option.map_some, Option.getD_some]
  · change shared.tcpTotal.toNat = _
    rw [h.tcpTotal, tcpTotal_pushAll, toNat_ofNat_of_le hlen List.countP_le_length]
  · change shared.fileTotal.toNat = _
    rw [h.fileTotal, fileTotal_pushAll, toNat_ofNat_of_le hlen List.countP_le_length]
  · change shared.recent.reverse = _
    rw [h.recent, recent_pushAll, trim, List.reverse_drop, Nat.sub_sub_eq_min]
    rw [List.take_eq_take_iff]
    simp [Nat.min_comm]
  · rw [hexact.topLength]
    exact congrArg (min 10) hcard
  · -- an event whose process is not among the rows has a smaller count, or the same and a
    -- larger pid
    intro e he hout r hr
    have hpos := countPid_pos_of_mem he
    obtain ⟨ev, hlast⟩ := Option.isSome_iff_exists.mp ((countPid_pos_iff _ _).mp hpos)
    have hlookup : shared.processes.lookup e.1.pid =
        some (processName ev, UInt64.ofNat (countPid e.1.pid evs)) := by
      rw [h.processes, lookup_processes_pushAll, hlast, Option.map_some]
    have hless := hexact.leftOut _ _ _ hlookup hout r hr
    have hcount := toNat_ofNat_of_le hlen (countPid_le e.1.pid evs)
    rw [← hcount]
    rcases hless with hlt | ⟨heq, -⟩
    · exact Nat.le_of_lt hlt
    · rw [heq]
  · intro name count
    rw [hexact.distributionMem, h.byEvent]
    exact byEvent_pushAll_eq_some hlen name count

end Collector

namespace DashboardLoop
open Collector Dashboard

def Event.submits : Event → Option (List UInt8)
  | .fire record => record
  | _ => none

/-- The ring buffer holds what was submitted and not yet consumed, and what was
consumed is in the shared state. -/
structure Collected (off : UInt64) (started : ℕ) (records : List (List UInt8)) (c : Collecting) :
    Prop where
  pending : c.maps.events = records.drop c.consumed
  consumed_le : c.consumed ≤ records.length
  shared : FoldOf started (history off (records.take c.consumed)) c.shared

section Collected

variable {off : UInt64} {started : ℕ} {records : List (List UInt8)} {c c' : Collecting}
  (h : Collected off started records c)
include h

theorem Collected.fire (record : Option (List UInt8)) :
    Collected off started (records ++ record.toList)
      { c with maps := Bpf.fire c.maps record } := by
  have hle := h.consumed_le
  refine ⟨?_, ?_, ?_⟩
  · rw [List.drop_append_of_le_length hle, ← h.pending]
    cases record with
    | none => exact (List.append_nil _).symm
    | some record => rfl
  · rw [List.length_append]
    exact hle.trans (Nat.le_add_right _ _)
  · rw [List.take_append_of_le_length hle]
    exact h.shared

/-- A step of the collector hands at most the next record to the callback. -/
theorem Collected.step {running : Bool} {e : CollectEvent}
    (hstep : c.step off running e = some c') :
    Collected off started records c' ∧ c.consumed ≤ c'.consumed := by
  obtain ⟨-, -, rfl⟩ | ⟨-, -, rfl⟩ | ⟨-, record, rest, hevents, -, rfl⟩ | ⟨-, -, rfl⟩ |
    ⟨-, -, rfl⟩ |
    ⟨ringbuf, latency, -, -, -, rfl⟩ | ⟨-, -, rfl⟩ | ⟨-, -, rfl⟩ := collect_cases hstep
  · exact ⟨⟨h.pending, h.consumed_le, h.shared⟩, le_rfl⟩
  · exact ⟨⟨h.pending, h.consumed_le, h.shared⟩, le_rfl⟩
  · have hpending := h.pending
    rw [hevents] at hpending
    obtain ⟨hlt, hdrop, htake⟩ := EventLoop.of_drop_eq_cons hpending.symm
    refine ⟨⟨hdrop.symm, hlt, ?_⟩, Nat.le_succ _⟩
    rw [htake]
    exact h.shared.receive record
  · exact ⟨⟨h.pending, h.consumed_le, h.shared⟩, le_rfl⟩
  · exact ⟨⟨h.pending, h.consumed_le, h.shared.raiseDropped _⟩, le_rfl⟩
  · exact ⟨⟨h.pending, h.consumed_le, h.shared⟩, le_rfl⟩
  · exact ⟨⟨h.pending, h.consumed_le, h.shared.refreshLatency _⟩, le_rfl⟩
  · exact ⟨⟨h.pending, h.consumed_le, h.shared⟩, le_rfl⟩

end Collected

section Frames

variable {S : Type} {lib : ListWidget S} {off : UInt64} {started : ℕ}

theorem Collected.next {es : List Event} {s s' : State S} {e : Event}
    (h : Collected off started (submitted Event.submits es) s.collector)
    (hstep : DashboardLoop.step lib off s e = some s') :
    Collected off started (submitted Event.submits (es ++ [e])) s'.collector := by
  rw [submitted_concat]
  cases e with
  | fire record =>
    obtain rfl := Option.some.inj hstep
    exact h.fire record
  | signal | pass ns =>
    obtain rfl := Option.some.inj hstep
    simpa [Event.submits] using h
  | collect e =>
    obtain ⟨c, hc, rfl⟩ := step_collect hstep
    simpa [Event.submits] using (h.step hc).1
  | ui e =>
    obtain ⟨u, -, rfl⟩ := step_ui hstep
    simpa [Event.submits] using h

theorem collected_start (filter : ArrayMap Bpf.FilterConfig 1) (now : ℕ) :
    Collected off started (submitted Event.submits [])
      (State.start lib filter started now).collector :=
  ⟨rfl, le_rfl, ⟨rfl, rfl, rfl, rfl, rfl, rfl, rfl⟩⟩

/-- When a frame was drawn: how many records the callback had got, and the time. -/
structure Drawn where
  consumed : ℕ
  now : ℕ

def drawn (s : State S) : Event → List Drawn
  | .ui (.draw _) => [⟨s.collector.consumed, s.now⟩]
  | _ => []

/-- The frame is a picture of the first of these records. -/
structure Shows (off : UInt64) (started : ℕ) (records : List (List UInt8)) (d : Drawn)
    (frame : Frame S) : Prop where
  consumed_le : d.consumed ≤ records.length
  pictures : Pictures (history off (records.take d.consumed)) (d.now - started) frame.snap

theorem Shows.append {records : List (List UInt8)} {d : Drawn} {frame : Frame S}
    (h : Shows off started records d frame) (more : List (List UInt8)) :
    Shows off started (records ++ more) d frame := by
  refine ⟨?_, ?_⟩
  · rw [List.length_append]
    exact h.consumed_le.trans (Nat.le_add_right _ _)
  · rw [List.take_append_of_le_length h.consumed_le]
    exact h.pictures

/-- A step draws a picture of what the collector has got. -/
theorem forall₂_frames {records : List (List UInt8)} {s : State S}
    (h : Collected off started records s.collector) (hlen : records.length < 2 ^ 64) (e : Event) :
    List.Forall₂ (Shows off started records) (drawn s e) (frames s e) := by
  have hhistory := (length_history_le off (records.take s.collector.consumed)).trans
    (List.length_take_le' _ _)
  cases e with
  | fire | signal | pass | collect => exact .nil
  | ui e =>
    cases e with
    | check | key | idle | due | fail => exact .nil
    | draw orders =>
      exact .cons ⟨h.consumed_le, h.shared.pictures (hhistory.trans_lt hlen) _ _ _⟩ .nil

theorem step_forward {s s' : State S} {e : Event} (h : step lib off s e = some s') :
    s.collector.consumed ≤ s'.collector.consumed ∧ s.now ≤ s'.now := by
  cases e with
  | fire | signal =>
    obtain rfl := Option.some.inj h
    exact ⟨le_rfl, le_rfl⟩
  | pass ns =>
    obtain rfl := Option.some.inj h
    exact ⟨le_rfl, Nat.le_add_right _ _⟩
  | collect e =>
    obtain ⟨c, hc, rfl⟩ := step_collect h
    obtain ⟨-, -, rfl⟩ | ⟨-, -, rfl⟩ | ⟨-, record, rest, -, -, rfl⟩ | ⟨-, -, rfl⟩ | ⟨-, -, rfl⟩ |
      ⟨ringbuf, latency, -, -, -, rfl⟩ | ⟨-, -, rfl⟩ | ⟨-, -, rfl⟩ := collect_cases hc
    all_goals exact ⟨by simp, le_rfl⟩
  | ui e =>
    obtain ⟨u, -, rfl⟩ := step_ui h
    exact ⟨le_rfl, le_rfl⟩

theorem drawn_ordered {s s' : State S} {es : List Event}
    (hrun : run (step lib off) s es = some s') :
    (outputs (step lib off) drawn s es).Pairwise
        (fun a b => a.consumed ≤ b.consumed ∧ a.now ≤ b.now) ∧
      ∀ d ∈ outputs (step lib off) drawn s es,
        d.consumed ≤ s'.collector.consumed ∧ d.now ≤ s'.now := by
  refine pairwise_outputs drawn (I := fun _ => True)
    (B := fun (s : State S) (d : Drawn) => d.consumed ≤ s.collector.consumed ∧ d.now ≤ s.now)
    (fun s e s' _ hstep => ?_) hrun trivial
  obtain ⟨hconsumed, hnow⟩ := step_forward hstep
  refine ⟨trivial, fun d hd => ⟨hd.1.trans hconsumed, hd.2.trans hnow⟩, ?_⟩
  cases e with
  | fire | signal | pass | collect => simp [drawn]
  | ui e =>
    cases e with
    | check | key | idle | due | fail => simp [drawn]
    | draw orders =>
      simp only [drawn, List.pairwise_singleton, List.mem_singleton, forall_eq, true_and]
      exact ⟨⟨hconsumed, hnow⟩, fun _ ha => ha⟩

theorem collected_frames {filter : ArrayMap Bpf.FilterConfig 1} {now : ℕ} {es : List Event}
    {s : State S} (hrun : run (step lib off) (.start lib filter started now) es = some s) :
    Collected off started (submitted Event.submits es) s.collector ∧
      ((submitted Event.submits es).length < 2 ^ 64 →
        List.Forall₂ (Shows off started (submitted Event.submits es))
        (outputs (step lib off) drawn (.start lib filter started now) es)
        (outputs (step lib off) frames (.start lib filter started now) es)) := by
  refine run_history
    (P := fun es s => Collected off started (submitted Event.submits es) s.collector ∧
      ((submitted Event.submits es).length < 2 ^ 64 →
        List.Forall₂ (Shows off started (submitted Event.submits es))
        (outputs (step lib off) drawn (.start lib filter started now) es)
        (outputs (step lib off) frames (.start lib filter started now) es)))
    (fun past t e u hpast ht hstep => ?_) hrun ⟨collected_start filter now, fun _ => .nil⟩
  obtain ⟨hcollected, hframes⟩ := ht
  refine ⟨hcollected.next hstep, fun hlen => ?_⟩
  rw [outputs_concat hpast hstep, outputs_concat hpast hstep]
  rw [submitted_concat] at hlen ⊢
  have hbelow : (submitted Event.submits past).length < 2 ^ 64 := by
    rw [List.length_append] at hlen
    omega
  -- what the frames so far show does not depend on records that come later
  exact List.rel_append ((hframes hbelow).imp fun _ _ h => h.append _)
    ((forall₂_frames hcollected hbelow e).imp fun _ _ h => h.append _)

/-- However the two threads take turns, each frame is a picture of all records
that the collector had got when it was drawn, and these are the first of the
submitted ones: none is left out, none counted twice. Later frames show more. -/
theorem frames_show_records (lib : ListWidget S) (off : UInt64)
    (filter : ArrayMap Bpf.FilterConfig 1) (started now : ℕ) (es : List Event) (s : State S)
    (hrun : run (step lib off) (.start lib filter started now) es = some s)
    (hlen : (submitted Event.submits es).length < 2 ^ 64) :
    List.Forall₂ (Shows off started (submitted Event.submits es))
      (outputs (step lib off) drawn (.start lib filter started now) es)
      (outputs (step lib off) frames (.start lib filter started now) es) ∧
    (outputs (step lib off) drawn (.start lib filter started now) es).Pairwise
      (fun a b => a.consumed ≤ b.consumed ∧ a.now ≤ b.now) ∧
    (∀ d ∈ outputs (step lib off) drawn (.start lib filter started now) es,
      d.consumed ≤ s.collector.consumed) ∧
    s.collector.maps.events = (submitted Event.submits es).drop s.collector.consumed := by
  obtain ⟨hcollected, hframes⟩ := collected_frames hrun
  obtain ⟨hordered, hbound⟩ := drawn_ordered hrun
  exact ⟨hframes hlen, hordered, fun d hd => (hbound d hd).1, hcollected.pending⟩

end Frames

theorem HashOrders.nonempty : Nonempty HashOrders :=
  ⟨⟨fun m => (MapOrder.nonempty m).some, fun m => (MapOrder.nonempty m).some⟩⟩

def firstFrame (orders : HashOrders) : List Event :=
  [.fire (some Events.zeroExec), .collect .ready, .collect .check, .ui .check, .collect .deliver,
    .ui .idle, .ui .due, .ui (.draw orders)]

theorem frames_show_records_first :
    ∃ orders frame, outputs (step .index 0) frames (.start .index Bpf.Maps.fresh.filterMap 0 0)
        (firstFrame orders) = [frame] ∧ Pictures (history 0 [Events.zeroExec]) 0 frame.snap := by
  obtain ⟨orders⟩ := HashOrders.nonempty
  obtain ⟨s, hs⟩ := Option.isSome_iff_exists.mp (show (run (step .index 0)
    (.start .index Bpf.Maps.fresh.filterMap 0 0) (firstFrame orders)).isSome = true from rfl)
  have hshown := (frames_show_records .index 0 Bpf.Maps.fresh.filterMap 0 0 _ s hs
    (show 1 < 2 ^ 64 by decide)).1
  obtain ⟨hfirst, -⟩ := List.forall₂_cons.mp hshown
  exact ⟨orders, _, rfl, hfirst.pictures⟩

end DashboardLoop

end Tracelet
