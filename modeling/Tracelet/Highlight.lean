import Tracelet.Screen

namespace Tracelet
open KernelMap TransitionRun

namespace DashboardLoop
open Collector Dashboard

section

variable {S : Type} {lib : ListWidget S} {off : UInt64} {started : ℕ}

def Frame.rows (frame : Frame S) : Focus → ℕ
  | .stream => frame.snap.stream.length
  | .top => frame.snap.top.length

/-- The row that the renderer highlights in a list; it gets a clone of the list state. -/
def Frame.highlighted (lib : ListWidget S) (frame : Frame S) (p : Focus) : Option ℕ :=
  lib.selected (lib.render (frame.rows p) (frame.ui.pane p))

def Bounded (s : State S) : Prop := s.collector.shared.recent.length ≤ Stream.streamMax

theorem length_trim_le (recent : List StreamRow) : (trim recent).length ≤ Stream.streamMax := by
  rw [trim, List.length_drop]
  omega

theorem Bounded.step {s s' : State S} {e : Event} (h : Bounded s)
    (hstep : DashboardLoop.step lib off s e = some s') : Bounded s' := by
  unfold Bounded at h ⊢
  cases e with
  | fire | signal | pass =>
    obtain rfl := Option.some.inj hstep
    exact h
  | ui e =>
    obtain ⟨u, -, rfl⟩ := step_ui hstep
    exact h
  | collect e =>
    obtain ⟨c, hc, rfl⟩ := step_collect hstep
    obtain ⟨-, -, rfl⟩ | ⟨-, -, rfl⟩ | ⟨-, record, rest, -, -, rfl⟩ | ⟨-, -, rfl⟩ | ⟨-, -, rfl⟩ |
      ⟨ringbuf, latency, -, -, -, rfl⟩ | ⟨-, -, rfl⟩ | ⟨-, -, rfl⟩ := collect_cases hc
    · exact h
    · exact h
    · change (s.collector.shared.receive record off).recent.length ≤ _
      unfold Shared.receive
      split
      · rw [recent_push]
        exact length_trim_le _
      · exact h
    · exact h
    · change (s.collector.shared.raiseDropped _).recent.length ≤ _
      unfold Shared.raiseDropped
      split_ifs <;> exact h
    · exact h
    · exact h
    · exact h

theorem Bounded.rows_lt {s : State S} (h : Bounded s) {e : Event} {frame : Frame S}
    (hframe : frame ∈ frames s e) (p : Focus) : frame.rows p < 2 ^ 64 := by
  unfold Bounded at h
  cases e with
  | fire | signal | pass | collect => cases hframe
  | ui e =>
    cases e with
    | check | key | idle | due | fail => cases hframe
    | draw orders =>
      rw [List.mem_singleton.mp hframe]
      cases p with
      | stream =>
        have hlen : s.collector.shared.recent.reverse.length ≤ Stream.streamMax := by
          rw [List.length_reverse]
          exact h
        exact hlen.trans_lt (by decide)
      | top => exact (List.length_take_le _ _).trans_lt (by decide)

def Frame.rowCounts (frame : Frame S) (p : Focus) : UInt64 := UInt64.ofNat (frame.rows p)

/-- What a step is in the scrolling model: a key counts when its frame is drawn, or
when it ends the loop. -/
def trace (s : State S) (e : Event) : List Dashboard.Event :=
  match e with
  | .ui (.key key) => if keyAction key = .quit then [.key .quit fun _ => 0] else []
  | .ui (.draw _) => (frames s e).flatMap fun frame =>
    match s.screen.pc with
    | .keyDraw action => [.key action frame.rowCounts]
    | .dueDraw => [.refresh frame.rowCounts]
    | .check | .wait | .due | .returned => []
  | _ => []

def pictured (lib : ListWidget S) (d : Dashboard.State S) (e : Dashboard.Event) :
    List (Focus → Option ℕ) :=
  match e with
  | .key .none _ | .key .quit _ => []
  | .key _ _ | .refresh _ => (Dashboard.step lib d e).toList.map Dashboard.State.highlighted

/-- The user interface of both, up to a key whose frame is still to be drawn. -/
def Matches (lib : ListWidget S) (u : Looping S) (d : Dashboard.State S) : Prop :=
  match u.pc with
  | .check | .wait | .due => d.running = true ∧ u.ui = d.ui
  | .dueDraw => d.running = true ∧ u.ui = d.ui ∧ d.ui.paused = false
  | .keyDraw action =>
    d.running = true ∧ u.ui = d.ui.apply lib action ∧ action ≠ .none ∧ action ≠ .quit
  | .returned => True

theorem trace_other {s : State S} {e : Event} (h : ∀ e', e ≠ .ui e') : trace s e = [] := by
  cases e with
  | fire | signal | pass | collect => rfl
  | ui e => exact absurd rfl (h e)

theorem key_draws (lib : ListWidget S) {d : Dashboard.State S} {action : KeyAction}
    (hrunning : d.running = true) (hnone : action ≠ .none) (hquit : action ≠ .quit)
    (rows : Focus → UInt64) :
    Dashboard.step lib d (.key action rows) =
      some (Dashboard.State.draw lib { d with ui := d.ui.apply lib action } rows) := by
  cases action <;> simp_all [Dashboard.step]

theorem pictured_key {d : Dashboard.State S} {action : KeyAction} (hnone : action ≠ .none)
    (hquit : action ≠ .quit) (rows : Focus → UInt64) :
    pictured lib d (.key action rows) =
      (Dashboard.step lib d (.key action rows)).toList.map Dashboard.State.highlighted := by
  cases action <;> simp_all [pictured]

theorem outputs_draw {d : Dashboard.State S} {e : Dashboard.Event} {frame : Frame S}
    (hrows : ∀ p, (frame.rowCounts p).toNat = frame.rows p)
    (hdraws : Dashboard.step lib d e =
      some (Dashboard.State.draw lib { d with ui := frame.ui } frame.rowCounts))
    (hpictured : pictured lib d e =
      (Dashboard.step lib d e).toList.map Dashboard.State.highlighted) :
    outputs (Dashboard.step lib) (pictured lib) d [e] = [frame.highlighted lib] := by
  simp only [outputs, hpictured, hdraws, Option.elim_some, List.append_nil, Option.toList_some,
    List.map_cons, List.map_nil, List.cons.injEq, and_true]
  funext p
  simp only [Dashboard.State.draw, Frame.highlighted, hrows]

/-- A step is a run of the scrolling model that draws the same. -/
theorem matches_step {s s' : State S} {e : Event} {d : Dashboard.State S} (hbounded : Bounded s)
    (h : Matches lib s.screen d) (hstep : step lib off s e = some s') :
    ∃ d', run (Dashboard.step lib) d (trace s e) = some d' ∧ Matches lib s'.screen d' ∧
      outputs (Dashboard.step lib) (pictured lib) d (trace s e) =
        (frames s e).map (Frame.highlighted lib) := by
  rcases step_screen hstep with ⟨e, rfl, hu, -, -⟩ | ⟨hother, hscreen, -, -⟩
  · obtain ⟨rfl, hpc, heq⟩ | ⟨key, rfl, hpc, heq⟩ | ⟨rfl, hpc, heq⟩ | ⟨rfl, hpc, heq⟩ |
      ⟨orders, rfl, hpc, heq⟩ | ⟨rfl, hpc, heq⟩ := ui_cases hu
    · simp only [Matches, hpc] at h
      refine ⟨d, rfl, ?_, rfl⟩
      rw [heq]
      cases s.running
      · trivial
      · exact h
    · -- a key: one without an action, `q`, or one that will be drawn
      simp only [Matches, hpc] at h
      obtain ⟨haction, hcase⟩ | ⟨haction, hcase⟩ | ⟨hnone, hquit, hcase⟩ :=
        handle_cases lib s.screen s.now (keyAction key)
      · rw [heq, hcase]
        exact ⟨d, by simp [trace, haction, run], h, by simp [trace, haction, outputs, frames]⟩
      · rw [heq, hcase]
        simp only [trace, haction, if_true]
        refine ⟨{ d with ui := d.ui.apply lib .quit, running := false }, ?_, trivial, ?_⟩
        · simp [run, Dashboard.step, h.1]
        · simp [outputs, Dashboard.step, h.1, pictured, frames]
      · rw [heq, hcase]
        refine ⟨d, by simp [trace, hquit, run], ⟨h.1, ?_, hnone, hquit⟩,
          by simp [trace, hquit, outputs, frames]⟩
        rw [h.2]
    · simp only [Matches, hpc] at h
      rw [heq]
      exact ⟨d, rfl, h, rfl⟩
    · simp only [Matches, hpc] at h
      rcases heq with ⟨⟨hpaused, -⟩, heq⟩ | ⟨-, heq⟩
      · rw [heq]
        exact ⟨d, rfl, ⟨h.1, h.2, by rw [← h.2]; exact hpaused⟩, rfl⟩
      · rw [heq]
        exact ⟨d, rfl, h, rfl⟩
    · rw [heq]
      obtain ⟨frame, hframe⟩ : ∃ frame, frames s (.ui (.draw orders)) = [frame] := ⟨_, rfl⟩
      have hui : s.screen.ui = frame.ui := by
        rw [← List.head_eq_of_cons_eq hframe]
      -- at most 512 rows, so the counts of the frame fit into a `u64`
      have hrows : ∀ p, (frame.rowCounts p).toNat = frame.rows p := fun p =>
        UInt64.toNat_ofNat_of_lt'
          (hbounded.rows_lt (by rw [hframe]; exact List.mem_singleton_self _) p)
      rcases hpc with ⟨action, hpc⟩ | hpc
      · simp only [Matches, hpc] at h
        obtain ⟨hrunning, hsame, hnone, hquit⟩ := h
        have htrace : trace s (.ui (.draw orders)) = [.key action frame.rowCounts] := by
          simp [trace, hframe, hpc]
        have hdraws := key_draws lib hrunning hnone hquit frame.rowCounts
        rw [← hsame, hui] at hdraws
        rw [htrace, hframe]
        exact ⟨_, run_cons_eq_some.mpr ⟨_, hdraws, rfl⟩, ⟨hrunning, hui⟩,
          outputs_draw hrows hdraws (pictured_key hnone hquit _)⟩
      · simp only [Matches, hpc] at h
        obtain ⟨hrunning, hsame, hpaused⟩ := h
        have htrace : trace s (.ui (.draw orders)) = [.refresh frame.rowCounts] := by
          simp [trace, hframe, hpc]
        have hdraws : Dashboard.step lib d (.refresh frame.rowCounts) =
            some (Dashboard.State.draw lib { d with ui := frame.ui } frame.rowCounts) := by
          rw [← hui, hsame]
          exact if_pos (by rw [hrunning, hpaused]; rfl)
        rw [htrace, hframe]
        exact ⟨_, run_cons_eq_some.mpr ⟨_, hdraws, rfl⟩, ⟨hrunning, hui⟩,
          outputs_draw hrows hdraws rfl⟩
    · rw [heq]
      exact ⟨d, rfl, trivial, rfl⟩
  · rw [trace_other hother, frames_other hother, hscreen]
    exact ⟨d, rfl, h, rfl⟩

theorem selected_step {s s' : State S} {e : Event}
    (h : ∀ p, ∃ i, lib.selected (s.screen.ui.pane p) = some i)
    (hstep : step lib off s e = some s') :
    ∀ p, ∃ i, lib.selected (s'.screen.ui.pane p) = some i := by
  rcases step_screen hstep with ⟨e, rfl, hu, -, -⟩ | ⟨-, hscreen, -, -⟩
  · obtain ⟨-, -, heq⟩ | ⟨key, -, -, heq⟩ | ⟨-, -, heq⟩ | ⟨-, -, heq⟩ | ⟨orders, -, -, heq⟩ |
      ⟨-, -, heq⟩ := ui_cases hu
    · rw [heq]
      exact h
    · rw [heq, ui_handle]
      intro p
      obtain ⟨i, hi⟩ := h p
      exact ⟨_, selected_apply hi (keyAction key)⟩
    · rw [heq]
      exact h
    · rcases heq with ⟨-, heq⟩ | ⟨-, heq⟩ <;> rw [heq] <;> exact h
    · rw [heq]
      exact h
    · rw [heq]
      exact h
  · rw [hscreen]
    exact h

theorem highlighted_row {s : State S} {e : Event} {frame : Frame S}
    (h : ∀ p, ∃ i, lib.selected (s.screen.ui.pane p) = some i) (hframe : frame ∈ frames s e)
    {p : Focus} (hrows : 0 < frame.rows p) :
    ∃ row < frame.rows p, frame.highlighted lib p = some row := by
  have hui : frame.ui = s.screen.ui := by
    cases e with
    | fire | signal | pass | collect => cases hframe
    | ui e =>
      cases e with
      | check | key | idle | due | fail => cases hframe
      | draw orders => rw [List.mem_singleton.mp hframe]
  obtain ⟨i, hi⟩ := h p
  rw [Frame.highlighted, hui]
  exact ⟨_, by omega, lib.selected_render hi hrows⟩

/-- In every interleaving the event loop goes through a run of the scrolling model,
which draws the same highlighted rows, frame by frame. In a list with rows one of
them is highlighted. -/
theorem screen_refines_scrolling (lib : ListWidget S) (off : UInt64)
    (filter : ArrayMap Bpf.FilterConfig 1) (started now : ℕ) (es : List Event) (s : State S)
    (hrun : run (step lib off) (.start lib filter started now) es = some s) :
    (∃ d, run (Dashboard.step lib) (.start lib)
        (outputs (step lib off) trace (.start lib filter started now) es) = some d ∧
      Matches lib s.screen d) ∧
    outputs (Dashboard.step lib) (pictured lib) (.start lib)
        (outputs (step lib off) trace (.start lib filter started now) es) =
      (outputs (step lib off) frames (.start lib filter started now) es).map
        (Frame.highlighted lib) ∧
    ∀ frame ∈ outputs (step lib off) frames (.start lib filter started now) es,
      ∀ p, 0 < frame.rows p → ∃ row < frame.rows p, frame.highlighted lib p = some row := by
  -- the list panes alone, driven by the trace of the run so far
  have hmatches := run_history (P := fun es (s : State S) => Bounded s ∧
      ∃ d, run (Dashboard.step lib) (.start lib)
          (outputs (step lib off) trace (.start lib filter started now) es) = some d ∧
        Matches lib s.screen d ∧
        outputs (Dashboard.step lib) (pictured lib) (.start lib)
            (outputs (step lib off) trace (.start lib filter started now) es) =
          (outputs (step lib off) frames (.start lib filter started now) es).map
            (Frame.highlighted lib))
    (fun past t e u hpast ht hstep => by
      obtain ⟨hbounded, d, hd, hmatch, hout⟩ := ht
      obtain ⟨d', hd', hmatch', hout'⟩ := matches_step hbounded hmatch hstep
      refine ⟨hbounded.step hstep, d', ?_, hmatch', ?_⟩
      · rw [outputs_concat hpast hstep, TransitionRun.run_append, hd, Option.bind_some, hd']
      · rw [outputs_concat hpast hstep, outputs_concat hpast hstep, outputs_append hd, hout, hout',
          List.map_append])
    hrun ⟨Nat.zero_le _, .start lib, rfl, ⟨rfl, rfl⟩, rfl⟩
  obtain ⟨-, d, hd, hmatch, hout⟩ := hmatches
  refine ⟨⟨d, hd, hmatch⟩, hout, ?_⟩
  exact forall_mem_outputs (I := fun s : State S => ∀ p, ∃ i,
    lib.selected (s.screen.ui.pane p) = some i)
    (fun s e s' h hstep => ⟨selected_step h hstep, fun frame hframe p hrows =>
      highlighted_row h hframe hrows⟩)
    (fun p => by
      have hnew : lib.selected ((Ui.new lib).pane p) = some 0 := by
        cases p <;> exact lib.selected_select _ _
      exact ⟨0, hnew⟩) es

end

theorem screen_refines_scrolling_space :
    let init := State.start .index Bpf.Maps.fresh.filterMap 0 0
    ∃ orders s, run (step .index 0) init (pausing orders) = some s ∧
      (∃ d, run (Dashboard.step .index) (.start .index)
          (outputs (step .index 0) trace init (pausing orders)) = some d ∧
        Matches .index s.screen d) ∧
      outputs (Dashboard.step .index) (pictured .index) (.start .index)
          (outputs (step .index 0) trace init (pausing orders)) =
        (outputs (step .index 0) frames init (pausing orders)).map (Frame.highlighted .index) ∧
      ∀ frame ∈ outputs (step .index 0) frames init (pausing orders),
        ∀ p, 0 < frame.rows p → ∃ row < frame.rows p, frame.highlighted .index p = some row := by
  intro init
  obtain ⟨orders⟩ := HashOrders.nonempty
  obtain ⟨s, hs⟩ := Option.isSome_iff_exists.mp
    (show (run (step .index 0) init (pausing orders)).isSome = true from rfl)
  exact ⟨orders, s, hs,
    screen_refines_scrolling .index 0 Bpf.Maps.fresh.filterMap 0 0 (pausing orders) s hs⟩

end DashboardLoop

end Tracelet
