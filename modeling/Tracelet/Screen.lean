import Tracelet.Frames

namespace Tracelet
open KernelMap TransitionRun

namespace DashboardLoop
open Collector Dashboard

section

variable {S : Type} {lib : ListWidget S} {off : UInt64}

theorem step_screen {s s' : State S} {e : Event} (h : step lib off s e = some s') :
    (∃ e', e = .ui e' ∧ s.screen.step lib s.running s.now e' = some s'.screen ∧ s'.now = s.now ∧
        s'.running = s.running) ∨
      ((∀ e', e ≠ .ui e') ∧ s'.screen = s.screen ∧ s.now ≤ s'.now ∧
        (s'.running = true → s.running = true)) := by
  have hnow := (step_forward h).2
  cases e with
  | fire | pass =>
    obtain rfl := Option.some.inj h
    exact .inr ⟨nofun, rfl, hnow, id⟩
  | signal =>
    obtain rfl := Option.some.inj h
    exact .inr ⟨nofun, rfl, hnow, nofun⟩
  | collect e =>
    obtain ⟨c, -, rfl⟩ := step_collect h
    exact .inr ⟨nofun, rfl, hnow, id⟩
  | ui e =>
    obtain ⟨u, hu, rfl⟩ := step_ui h
    exact .inl ⟨e, rfl, hu, rfl, rfl⟩

theorem frames_other {s : State S} {e : Event} (h : ∀ e', e ≠ .ui e') : frames s e = [] := by
  cases e with
  | fire | signal | pass | collect => rfl
  | ui e => exact absurd rfl (h e)

def Event.key : Event → Option KeyEvent
  | .ui (.key key) => some key
  | _ => none

def keys (es : List Event) : List KeyEvent := es.filterMap Event.key

theorem keys_concat (es : List Event) (e : Event) : keys (es ++ [e]) = keys es ++ e.key.toList := by
  unfold keys
  rw [List.filterMap_append]
  cases h : e.key <;> simp [h]

theorem key_other {e : Event} (h : ∀ e', e ≠ .ui e') : e.key = none := by
  cases e with
  | fire | signal | pass | collect => rfl
  | ui e => exact absurd rfl (h e)

theorem paused_apply (ui : Ui S) (action : KeyAction) :
    (ui.apply lib action).paused = if action = .togglePause then !ui.paused else ui.paused := by
  cases hfocus : ui.focus <;> cases action <;>
    simp [Ui.apply, Ui.scroll, Ui.jump, Ui.onFocused, Ui.toggleFocus, hfocus]

theorem focus_apply (ui : Ui S) (action : KeyAction) :
    (ui.apply lib action).focus = .top ↔
      if action = .nextPane then ui.focus ≠ .top else ui.focus = .top := by
  cases hfocus : ui.focus <;> cases action <;>
    simp [Ui.apply, Ui.scroll, Ui.jump, Ui.onFocused, Ui.toggleFocus, hfocus]

structure KeysSeen (ks : List KeyEvent) (u : Looping S) : Prop where
  paused : u.ui.paused = true ↔ Odd (ks.countP fun key => keyAction key = .togglePause)
  focus : u.ui.focus = .top ↔ Odd (ks.countP fun key => keyAction key = .nextPane)
  quit : ∀ key ∈ ks, keyAction key = .quit → u.pc = .returned

theorem KeysSeen.keep {ks : List KeyEvent} {u : Looping S} (h : KeysSeen ks u) (u' : Looping S)
    (hui : u'.ui = u.ui) (hpc : u.pc ≠ .returned) : KeysSeen ks u' :=
  ⟨by rw [hui]; exact h.paused, by rw [hui]; exact h.focus,
    fun key hkey hquit => absurd (h.quit key hkey hquit) hpc⟩

theorem ui_handle (u : Looping S) (now : ℕ) (action : KeyAction) :
    (u.handle lib now action).ui = u.ui.apply lib action := by
  obtain ⟨rfl, heq⟩ | ⟨rfl, heq⟩ | ⟨-, -, heq⟩ := handle_cases lib u now action
  all_goals rw [heq]
  all_goals rfl

theorem KeysSeen.handle {ks : List KeyEvent} {u : Looping S} (h : KeysSeen ks u)
    (hpc : u.pc = .wait) (now : ℕ) (key : KeyEvent) :
    KeysSeen (ks ++ [key]) (u.handle lib now (keyAction key)) := by
  refine ⟨?_, ?_, fun k hk hquit => ?_⟩
  · rw [ui_handle, paused_apply, List.countP_append, List.countP_singleton]
    by_cases htoggle : keyAction key = .togglePause
    · simp [htoggle, Nat.odd_add_one, ← h.paused]
    · simpa [htoggle] using h.paused
  · rw [ui_handle, focus_apply, List.countP_append, List.countP_singleton]
    by_cases hnext : keyAction key = .nextPane
    · simp [hnext, Nat.odd_add_one, ← h.focus]
    · simpa [hnext] using h.focus
  · rcases List.mem_append.mp hk with hk | hk
    · have hreturned := h.quit k hk hquit
      rw [hpc] at hreturned
      cases hreturned
    · rw [← List.mem_singleton.mp hk, hquit]
      rfl

theorem KeysSeen.next {es : List Event} {s s' : State S} {e : Event}
    (h : KeysSeen (keys es) s.screen) (hstep : DashboardLoop.step lib off s e = some s') :
    KeysSeen (keys (es ++ [e])) s'.screen := by
  rw [keys_concat]
  rcases step_screen hstep with ⟨e, rfl, hu, -, -⟩ | ⟨hother, hscreen, -, -⟩
  · obtain ⟨rfl, hpc, heq⟩ | ⟨key, rfl, hpc, heq⟩ | ⟨rfl, hpc, heq⟩ | ⟨rfl, hpc, heq⟩ |
      ⟨orders, rfl, hpc, heq⟩ | ⟨rfl, hpc, heq⟩ := ui_cases hu
    · simpa [Event.key, heq] using h.keep s'.screen (by rw [heq]) (by simp [hpc])
    · rw [heq]
      exact h.handle hpc s.now key
    · simpa [Event.key] using h.keep s'.screen (by rw [heq]) (by simp [hpc])
    · have hui : s'.screen.ui = s.screen.ui := by
        rcases heq with ⟨-, heq⟩ | ⟨-, heq⟩ <;> rw [heq]
      simpa [Event.key] using h.keep s'.screen hui (by simp [hpc])
    · have hne : s.screen.pc ≠ .returned := by
        rcases hpc with ⟨action, hpc⟩ | hpc <;> simp [hpc]
      simpa [Event.key] using h.keep s'.screen (by rw [heq]) hne
    · have hne : s.screen.pc ≠ .returned := by
        rcases hpc with hpc | ⟨action, hpc⟩ | hpc <;> simp [hpc]
      simpa [Event.key] using h.keep s'.screen (by rw [heq]) hne
  · rw [hscreen, key_other hother, Option.toList_none, List.append_nil]
    exact h

theorem keysSeen_start (filter : ArrayMap Bpf.FilterConfig 1) (started now : ℕ) :
    KeysSeen (keys []) (State.start lib filter started now).screen :=
  ⟨by simp [State.start, Ui.new, keys], by simp [State.start, Ui.new, keys], by simp [keys]⟩

/-- In every run the screen is paused after an odd number of presses of the space
bar, the lower list has the focus after an odd number of tabs, and a key that
quits is the last one. A held key and a released one do not count. -/
theorem screen_follows_keys (lib : ListWidget S) (off : UInt64)
    (filter : ArrayMap Bpf.FilterConfig 1) (started now : ℕ) (es : List Event) (s : State S)
    (hrun : run (step lib off) (.start lib filter started now) es = some s) :
    (s.screen.ui.paused = true ↔
      Odd ((keys es).countP fun key => key.code = .char ' ' ∧ key.kind = .press)) ∧
    (s.screen.ui.focus = .top ↔
      Odd ((keys es).countP fun key => (key.code = .tab ∨ key.code = .backTab) ∧
        key.kind = .press)) ∧
    ∀ key ∈ keys es, key.code = .char 'c' ∧ key.control = true ∧ key.kind ≠ .release ∨
      key.code = .char 'q' ∧ key.kind = .press → s.screen.pc = .returned := by
  have hseen := run_history (P := fun es (s : State S) => KeysSeen (keys es) s.screen)
    (fun past t e u _ ht hstep => ht.next hstep) hrun (keysSeen_start filter started now)
  simp only [← keyAction_eq_togglePause_iff, ← keyAction_eq_nextPane_iff, ← keyAction_eq_quit_iff]
  exact ⟨hseen.paused, hseen.focus, hseen.quit⟩

end

def spaceBar (kind : KeyEventKind) : KeyEvent := ⟨.char ' ', false, kind⟩

def pausing (orders : HashOrders) : List Event :=
  [.ui .check, .ui (.key (spaceBar .press)), .ui (.draw orders), .ui .check,
    .ui (.key (spaceBar .repeat)), .ui .due, .ui .check, .ui (.key (spaceBar .release)), .ui .due]

theorem screen_follows_keys_space :
    ∃ orders s, run (step .index 0) (.start .index Bpf.Maps.fresh.filterMap 0 0) (pausing orders) =
      some s ∧ s.screen.ui.paused = true := by
  obtain ⟨orders⟩ := HashOrders.nonempty
  obtain ⟨s, hs⟩ := Option.isSome_iff_exists.mp (show (run (step .index 0)
    (.start .index Bpf.Maps.fresh.filterMap 0 0) (pausing orders)).isSome = true from rfl)
  exact ⟨orders, s, hs, (screen_follows_keys .index 0 Bpf.Maps.fresh.filterMap 0 0 _ s hs).1.mpr
    (show Odd 1 by decide)⟩

section

variable {S : Type} {lib : ListWidget S} {off : UInt64}

theorem unpaused_step {s s' : State S} {e : Event}
    (h : s.screen.pc = .dueDraw → s.screen.ui.paused = false) (hstep : step lib off s e = some s') :
    s'.screen.pc = .dueDraw → s'.screen.ui.paused = false := by
  rcases step_screen hstep with ⟨e, rfl, hu, -, -⟩ | ⟨-, hscreen, -, -⟩
  · obtain ⟨rfl, hpc, heq⟩ | ⟨key, rfl, hpc, heq⟩ | ⟨rfl, hpc, heq⟩ | ⟨rfl, hpc, heq⟩ |
      ⟨orders, rfl, hpc, heq⟩ | ⟨rfl, hpc, heq⟩ := ui_cases hu
    · rw [heq]
      cases s.running <;> nofun
    · obtain ⟨-, hcase⟩ | ⟨-, hcase⟩ | ⟨-, -, hcase⟩ :=
        handle_cases lib s.screen s.now (keyAction key)
      all_goals rw [heq, hcase]; nofun
    · rw [heq]
      nofun
    · rcases heq with ⟨⟨hpaused, -⟩, heq⟩ | ⟨-, heq⟩
      · rw [heq]
        exact fun _ => hpaused
      · rw [heq]
        nofun
    · rw [heq]
      nofun
    · rw [heq]
      nofun
  · rw [hscreen]
    exact h

/-- The frames that are drawn for the clock. -/
def dueFrames (s : State S) (e : Event) : List (Frame S) :=
  if s.screen.pc = .dueDraw then frames s e else []

def acts (key : KeyEvent) : Bool := keyAction key ≠ .none ∧ keyAction key ≠ .quit

def UiPc.pending : UiPc → ℕ
  | .keyDraw _ => 1
  | .check | .wait | .due | .dueDraw | .returned => 0

/-- A step of a paused screen draws no more frames than keys ask for. -/
theorem paused_step {s s' : State S} {e : Event}
    (h : s.screen.ui.paused = true ∧ s.screen.pc ≠ .dueDraw) (hstep : step lib off s e = some s')
    (hspace : ∀ key, e.key = some key → keyAction key ≠ .togglePause) :
    (s'.screen.ui.paused = true ∧ s'.screen.pc ≠ .dueDraw) ∧
      (frames s e).length + s'.screen.pc.pending ≤
        e.key.toList.countP acts + s.screen.pc.pending ∧
      ∀ frame ∈ frames s e, frame.ui.paused = true := by
  rcases step_screen hstep with ⟨e, rfl, hu, -, -⟩ | ⟨hother, hscreen, -, -⟩
  · obtain ⟨rfl, hpc, heq⟩ | ⟨key, rfl, hpc, heq⟩ | ⟨rfl, hpc, heq⟩ | ⟨rfl, hpc, heq⟩ |
      ⟨orders, rfl, hpc, heq⟩ | ⟨rfl, hpc, heq⟩ := ui_cases hu
    · rw [heq]
      refine ⟨⟨h.1, ?_⟩, ?_, nofun⟩
      · cases s.running <;> nofun
      · cases s.running <;> exact Nat.zero_le _
    · have hkeep : s'.screen.ui.paused = true := by
        rw [heq, ui_handle, paused_apply, if_neg (hspace key rfl)]
        exact h.1
      obtain ⟨-, hcase⟩ | ⟨-, hcase⟩ | ⟨hnone, hquit, hcase⟩ :=
        handle_cases lib s.screen s.now (keyAction key)
      · exact ⟨⟨hkeep, by rw [heq, hcase]; nofun⟩, by rw [heq, hcase]; exact Nat.zero_le _, nofun⟩
      · exact ⟨⟨hkeep, by rw [heq, hcase]; nofun⟩, by rw [heq, hcase]; exact Nat.zero_le _, nofun⟩
      · refine ⟨⟨hkeep, by rw [heq, hcase]; nofun⟩, ?_, nofun⟩
        rw [heq, hcase]
        simp [Event.key, acts, hnone, hquit, frames, UiPc.pending]
    · rw [heq]
      exact ⟨⟨h.1, nofun⟩, Nat.zero_le _, nofun⟩
    · rcases heq with ⟨⟨hpaused, -⟩, -⟩ | ⟨-, heq⟩
      · -- the clock draws nothing while the screen is paused
        rw [h.1] at hpaused
        cases hpaused
      · rw [heq]
        exact ⟨⟨h.1, nofun⟩, Nat.zero_le _, nofun⟩
    · rw [heq]
      rcases hpc with ⟨action, hpc⟩ | hpc
      · refine ⟨⟨h.1, nofun⟩, ?_, ?_⟩
        · rw [hpc]
          exact Nat.le_refl 1
        · simpa [frames] using h.1
      · exact absurd hpc h.2
    · rw [heq]
      exact ⟨⟨h.1, nofun⟩, Nat.zero_le _, nofun⟩
  · rw [hscreen, frames_other hother, key_other hother]
    exact ⟨h, le_rfl, nofun⟩

/-- From when the screen is paused until the space bar is pressed again, every
frame is drawn for a key of its own and none for the clock, and says that the screen
is paused. -/
theorem paused_screen_waits_for_keys (lib : ListWidget S) (off : UInt64)
    (filter : ArrayMap Bpf.FilterConfig 1) (started now : ℕ) (es es' : List Event) (s t : State S)
    (hbefore : run (step lib off) (.start lib filter started now) es = some t)
    (hpaused : t.screen.ui.paused = true) (hafter : run (step lib off) t es' = some s)
    (hspace : ∀ key ∈ keys es', ¬(key.code = .char ' ' ∧ key.kind = .press)) :
    s.screen.ui.paused = true ∧
      (outputs (step lib off) frames t es').length ≤ (keys es').countP acts + t.screen.pc.pending ∧
      outputs (step lib off) dueFrames t es' = [] ∧
      ∀ frame ∈ outputs (step lib off) frames t es', frame.ui.paused = true := by
  -- a frame that is due was found due while the screen was not paused
  have hdue :=
    run_invariant (P := fun s : State S => s.screen.pc = .dueDraw → s.screen.ui.paused = false)
    (fun s e s' h hstep => unpaused_step h hstep) hbefore nofun
  have hstart : t.screen.ui.paused = true ∧ t.screen.pc ≠ .dueDraw := by
    refine ⟨hpaused, fun hpc => ?_⟩
    rw [hdue hpc] at hpaused
    cases hpaused
  simp only [← keyAction_eq_togglePause_iff] at hspace
  have hall := run_history (P := fun past (u : State S) =>
      (∀ key ∈ keys past, keyAction key ≠ .togglePause) →
        (u.screen.ui.paused = true ∧ u.screen.pc ≠ .dueDraw) ∧
          (outputs (step lib off) frames t past).length + u.screen.pc.pending ≤
            (keys past).countP acts + t.screen.pc.pending ∧
          outputs (step lib off) dueFrames t past = [] ∧
          ∀ frame ∈ outputs (step lib off) frames t past, frame.ui.paused = true)
    (fun past u e u' hpast hu hstep hkeys => by
      rw [keys_concat, List.forall_mem_append] at hkeys
      obtain ⟨hstate, hless, hnone, hframes⟩ := hu hkeys.1
      obtain ⟨hstate', hless', hframes'⟩ := paused_step hstate hstep fun key hkey =>
        hkeys.2 key (by rw [hkey]; exact List.mem_singleton_self key)
      have hnone' : dueFrames u e = [] := if_neg hstate.2
      rw [outputs_concat hpast hstep, outputs_concat hpast hstep, keys_concat, List.countP_append,
        List.length_append, hnone, hnone']
      exact ⟨hstate', by omega, rfl, List.forall_mem_append.mpr ⟨hframes, hframes'⟩⟩)
    hafter (fun _ => ⟨hstart, by simp [outputs, keys], rfl, by simp [outputs]⟩)
  obtain ⟨hstate, hless, hnone, hframes⟩ := hall hspace
  exact ⟨hstate.1, (Nat.le_add_right _ _).trans hless, hnone, hframes⟩

end

def scrolling (orders : HashOrders) : List Event :=
  [.ui .check, .pass second, .ui .idle, .ui .due, .ui .check, .ui (.key ⟨.down, false, .press⟩),
    .ui (.draw orders)]

theorem paused_screen_waits_for_keys_down :
    ∃ orders s t, run (step .index 0) (.start .index Bpf.Maps.fresh.filterMap 0 0)
      (pausing orders) =
        some t ∧ run (step .index 0) t (scrolling orders) = some s ∧ s.screen.ui.paused = true ∧
      (outputs (step .index 0) frames t (scrolling orders)).length ≤ 1 ∧
      outputs (step .index 0) dueFrames t (scrolling orders) = [] ∧
      ∀ frame ∈ outputs (step .index 0) frames t (scrolling orders), frame.ui.paused = true := by
  obtain ⟨orders⟩ := HashOrders.nonempty
  obtain ⟨t, ht⟩ := Option.isSome_iff_exists.mp (show (run (step .index 0)
    (.start .index Bpf.Maps.fresh.filterMap 0 0) (pausing orders)).isSome = true from rfl)
  obtain ⟨s, hs⟩ := Option.isSome_iff_exists.mp (show ((run (step .index 0)
    (.start .index Bpf.Maps.fresh.filterMap 0 0) (pausing orders)).bind fun t =>
      run (step .index 0) t (scrolling orders)).isSome = true from rfl)
  rw [ht, Option.bind_some] at hs
  obtain rfl : _ = t := Option.some.inj ht
  have hkeys : ∀ key ∈ keys (scrolling orders), ¬(key.code = .char ' ' ∧ key.kind = .press) := by
    rintro key hkey ⟨hcode, -⟩
    rw [List.mem_singleton.mp (show key ∈ [(⟨.down, false, .press⟩ : KeyEvent)] from hkey)] at hcode
    cases hcode
  exact ⟨orders, s, _, rfl, hs, paused_screen_waits_for_keys .index 0 Bpf.Maps.fresh.filterMap 0 0
    (pausing orders) (scrolling orders) s _ ht rfl hs hkeys⟩

section

variable {S : Type} {lib : ListWidget S} {off : UInt64}

/-- An instant that `last` is set to: a frame is due for the clock, or a key acts. -/
structure Mark where
  due : Bool
  time : ℕ

def marks (s : State S) : Event → List Mark
  | .ui .due =>
    if s.screen.ui.paused = false ∧ s.screen.last + second ≤ s.now then [⟨true, s.now⟩] else []
  | .ui (.key key) => if keyAction key = .none then [] else [⟨false, s.now⟩]
  | _ => []

theorem marks_other {s : State S} {e : Event} (h : ∀ e', e ≠ .ui e') : marks s e = [] := by
  cases e with
  | fire | signal | pass | collect => rfl
  | ui e => exact absurd rfl (h e)

def UiPc.pendingDue : UiPc → ℕ
  | .dueDraw => 1
  | .check | .wait | .due | .keyDraw _ | .returned => 0

/-- `last` is the last mark, and a frame for the clock comes a second later. -/
theorem marks_step {s s' : State S} {e : Event} (hlast : s.screen.last ≤ s.now)
    (hstep : step lib off s e = some s') :
    s'.screen.last ≤ s'.now ∧ s.screen.last ≤ s'.screen.last ∧
      (dueFrames s e).length + s'.screen.pc.pendingDue ≤
        (marks s e).countP Mark.due + s.screen.pc.pendingDue ∧
      (marks s e).length ≤ 1 ∧
      ∀ m ∈ marks s e, m.time = s.now ∧ s'.screen.last = s.now ∧
        (m.due = true → s.screen.last + second ≤ s.now) := by
  rcases step_screen hstep with ⟨e, rfl, hu, hnow, -⟩ | ⟨hother, hscreen, hnow, -⟩
  · rw [hnow]
    obtain ⟨rfl, hpc, heq⟩ | ⟨key, rfl, hpc, heq⟩ | ⟨rfl, hpc, heq⟩ | ⟨rfl, hpc, heq⟩ |
      ⟨orders, rfl, hpc, heq⟩ | ⟨rfl, hpc, heq⟩ := ui_cases hu
    · rw [heq]
      refine ⟨hlast, le_rfl, ?_, Nat.zero_le _, nofun⟩
      rw [dueFrames, hpc]
      cases s.running <;> exact le_rfl
    · have hdue : (dueFrames s (.ui (.key key))).length = 0 := by simp [dueFrames, frames]
      obtain ⟨hnone, hcase⟩ | ⟨hquit, hcase⟩ | ⟨hnone, -, hcase⟩ :=
        handle_cases lib s.screen s.now (keyAction key)
      · rw [heq, hcase, hdue]
        simp [marks, hnone, hlast, UiPc.pendingDue]
      · rw [heq, hcase, hdue]
        simp [marks, hquit, hlast, UiPc.pendingDue]
      · rw [heq, hcase, hdue]
        simp [marks, hnone, hlast, UiPc.pendingDue]
    · rw [heq]
      exact ⟨hlast, le_rfl, by rw [dueFrames, hpc]; exact le_rfl, Nat.zero_le _, nofun⟩
    · have hnone : (dueFrames s (.ui .due)).length = 0 := by simp [dueFrames, hpc]
      -- the clock sets `last` before it draws, as a key does
      rcases heq with ⟨hdue, heq⟩ | ⟨hdue, heq⟩
      · rw [heq, hnone]
        simp [marks, hdue, hlast, hpc, UiPc.pendingDue]
      · rw [heq, hnone]
        simp [marks, hdue, hlast, UiPc.pendingDue]
    · rw [heq]
      refine ⟨hlast, le_rfl, ?_, Nat.zero_le _, nofun⟩
      rcases hpc with ⟨action, hpc⟩ | hpc
      · rw [dueFrames, hpc]
        exact le_rfl
      · rw [dueFrames, hpc]
        exact le_rfl
    · rw [heq]
      exact ⟨hlast, le_rfl, by simp [dueFrames, frames, UiPc.pendingDue], Nat.zero_le _, nofun⟩
  · rw [hscreen, marks_other hother, dueFrames, frames_other hother, ite_self]
    exact ⟨hlast.trans (by exact_mod_cast hnow), le_rfl, le_rfl, Nat.zero_le _, nofun⟩

/-- A mark comes no earlier than the one before, and a frame for the clock at least
a second later. -/
def Apart (a b : Mark) : Prop := a.time ≤ b.time ∧ (b.due = true → a.time + second ≤ b.time)

/-- The marks of a stretch of time, of which a second passes before each but the first. -/
theorem due_mul_le {ms : List Mark} (h : ms.Pairwise Apart) {lo hi : ℕ}
    (hms : ∀ m ∈ ms, lo ≤ m.time ∧ m.time ≤ hi) : ms.countP Mark.due * second ≤
    (hi - lo) + second := by
  induction ms using List.reverseRecOn generalizing hi with
  | nil => simp
  | append_singleton ms m ih =>
    obtain ⟨hpair, -, hlast⟩ := List.pairwise_append.mp h
    obtain ⟨hms, hm⟩ := List.forall_mem_append.mp hms
    have hbefore : ∀ a ∈ ms, Apart a m := fun a ha => hlast a ha m (List.mem_singleton_self m)
    have hbound := List.forall_mem_singleton.mp hm
    rw [List.countP_append, List.countP_singleton]
    cases hdue : m.due with
    | false => simpa using ih hpair hms
    | true =>
      -- the marks before the last lie at least a second before it
      by_cases hnil : ms = []
      · simp [hnil]
      · obtain ⟨a, ha⟩ := List.exists_mem_of_ne_nil ms hnil
        have hgap := (hbefore a ha).2 hdue
        have hcount : ms.countP Mark.due * second ≤ (m.time - second - lo) + second :=
          ih hpair fun b hb => by
            have hb' := (hbefore b hb).2 hdue
            exact ⟨(hms b hb).1, by omega⟩
        have hlow := (hms a ha).1
        rw [if_pos rfl, Nat.add_mul, Nat.one_mul]
        omega

theorem pairwise_of_length_le_one {α : Type*} {R : α → α → Prop} {l : List α} (h : l.length ≤ 1) :
    l.Pairwise R := by
  cases l with
  | nil => exact .nil
  | cons a l =>
    cases l with
    | nil => exact List.pairwise_singleton R a
    | cons => simp at h

/-- Each frame for the clock becomes due a second or more after the one before and
after the last key that acted, so there is at most one for each second of the run
and one at its start. -/
theorem due_frames_apart (lib : ListWidget S) (off : UInt64) (filter : ArrayMap Bpf.FilterConfig 1)
    (started now : ℕ) (es : List Event) (s : State S)
    (hrun : run (step lib off) (.start lib filter started now) es = some s) :
    (outputs (step lib off) marks (.start lib filter started now) es).Pairwise Apart ∧
      (outputs (step lib off) dueFrames (.start lib filter started now) es).length ≤
        (outputs (step lib off) marks (.start lib filter started now) es).countP Mark.due ∧
      (outputs (step lib off) dueFrames (.start lib filter started now) es).length * second ≤
        (s.now - now) + second := by
  have hstart : (State.start lib filter started now).screen.last ≤
      (State.start lib filter started now).now := by
    simp [State.start, second]
  obtain ⟨hapart, hbound⟩ := pairwise_outputs marks (R := Apart)
    (I := fun s : State S => s.screen.last ≤ s.now ∧ now ≤ s.now)
    (B := fun s m => (m.time : ℤ) ≤ s.screen.last ∧ now ≤ m.time)
    (fun t e u ht hstep => by
      obtain ⟨hlast, hmono, -, hone, hmarks⟩ := marks_step ht.1 hstep
      have hforward := (step_forward hstep).2
      refine ⟨⟨hlast, ht.2.trans hforward⟩, fun m hm => ⟨hm.1.trans hmono, hm.2⟩,
        pairwise_of_length_le_one hone, fun m hm => ?_⟩
      obtain ⟨htime, hnext, hdue⟩ := hmarks m hm
      refine ⟨⟨by rw [htime, hnext], by rw [htime]; exact ht.2⟩, fun a ha => ?_⟩
      obtain ⟨htimes, -⟩ := ha
      have hlast := ht.1
      refine ⟨by rw [htime]; omega, fun hm => ?_⟩
      have hgap := hdue hm
      rw [htime]
      omega)
    hrun ⟨hstart, le_rfl⟩
  -- a frame for the clock has its own mark, which was set before it
  have hcount := run_history (P := fun es (u : State S) => u.screen.last ≤ u.now ∧
      (outputs (step lib off) dueFrames (.start lib filter started now) es).length +
          u.screen.pc.pendingDue ≤
        (outputs (step lib off) marks (.start lib filter started now) es).countP Mark.due)
    (fun past t e u hpast ht hstep => by
      obtain ⟨hlast, -, hless, -, -⟩ := marks_step ht.1 hstep
      rw [outputs_concat hpast hstep, outputs_concat hpast hstep, List.length_append,
        List.countP_append]
      exact ⟨hlast, by omega⟩)
    hrun ⟨hstart, le_rfl⟩
  have hlast := hcount.1
  have hless := (Nat.le_add_right _ _).trans hcount.2
  refine ⟨hapart, hless,
    (Nat.mul_le_mul_right second hless).trans (due_mul_le hapart fun m hm => ?_)⟩
  obtain ⟨htime, hlow⟩ := hbound m hm
  exact ⟨hlow, by omega⟩

end

def twoFrames (orders : HashOrders) : List Event :=
  [.ui .check, .ui .idle, .ui .due, .ui (.draw orders), .ui .check, .ui .idle,
    .pass second, .ui .due,
    .ui (.draw orders)]

theorem due_frames_apart_two :
    ∃ orders s, run (step .index 0) (.start .index Bpf.Maps.fresh.filterMap 0 0)
      (twoFrames orders) =
        some s ∧
      (outputs (step .index 0) dueFrames (.start .index Bpf.Maps.fresh.filterMap 0 0)
        (twoFrames orders)).length * second ≤ (s.now - 0) + second := by
  obtain ⟨orders⟩ := HashOrders.nonempty
  obtain ⟨s, hs⟩ := Option.isSome_iff_exists.mp (show (run (step .index 0)
    (.start .index Bpf.Maps.fresh.filterMap 0 0) (twoFrames orders)).isSome = true from rfl)
  exact ⟨orders, s, hs, (due_frames_apart .index 0 Bpf.Maps.fresh.filterMap 0 0 _ s hs).2.2⟩

section

variable {S : Type} {lib : ListWidget S} {off : UInt64}

def Event.draws : Event → Bool
  | .ui (.draw _) => true
  | _ => false

def Event.isUi : Event → Bool
  | .ui _ => true
  | _ => false

def Event.isTurn : Event → Bool
  | .collect .deliver => false
  | .collect _ => true
  | _ => false

def UiPc.framesLeft : UiPc → ℕ
  | .wait | .due | .keyDraw _ | .dueDraw => 1
  | .check | .returned => 0

def UiPc.stepsLeft : UiPc → ℕ
  | .wait => 4
  | .due => 3
  | .keyDraw _ | .dueDraw => 2
  | .check => 1
  | .returned => 0

def CollectPc.stepsLeft : CollectPc → ℕ
  | .poll => 5
  | .raise => 4
  | .warn => 3
  | .refresh | .setup => 2
  | .check => 1
  | .done | .failed => 0

/-- Once `RUNNING` is cleared, each step brings the threads closer to their ends. -/
theorem stopped_step {s s' : State S} {e : Event} (hstopped : s.running = false)
    (hstep : step lib off s e = some s') :
    s'.running = false ∧
      s'.screen.pc.framesLeft + (if e.draws then 1 else 0) ≤ s.screen.pc.framesLeft ∧
      s'.screen.pc.stepsLeft + (if e.isUi then 1 else 0) ≤ s.screen.pc.stepsLeft ∧
      s'.collector.pc.stepsLeft + (if e.isTurn then 1 else 0) ≤ s.collector.pc.stepsLeft := by
  cases e with
  | fire | signal | pass =>
    obtain rfl := Option.some.inj hstep
    exact ⟨by first | exact hstopped | rfl, le_rfl, le_rfl, le_rfl⟩
  | collect e =>
    obtain ⟨c, hc, rfl⟩ := step_collect hstep
    refine ⟨hstopped, le_rfl, le_rfl, ?_⟩
    obtain ⟨rfl, hpc, rfl⟩ | ⟨rfl, hpc, rfl⟩ | ⟨rfl, record, rest, -, hpc, rfl⟩ | ⟨rfl, hpc, rfl⟩ |
      ⟨rfl, hpc, rfl⟩ | ⟨ringbuf, latency, -, ⟨found, rfl⟩, hpc, rfl⟩ | ⟨rfl, hpc, rfl⟩ |
      ⟨rfl, hpc, rfl⟩ := collect_cases hc
    · simp [hpc, Event.isTurn, CollectPc.stepsLeft]
    · simp [hpc, hstopped, Event.isTurn, CollectPc.stepsLeft]
    · simp [Event.isTurn]
    · simp [hpc, Event.isTurn, CollectPc.stepsLeft]
    · simp [hpc, Event.isTurn, CollectPc.stepsLeft]
    · simp [hpc, Event.isTurn, CollectPc.stepsLeft]
    · simp [hpc, Event.isTurn, CollectPc.stepsLeft]
    · rcases hpc with hpc | hpc <;> simp [hpc, Event.isTurn, CollectPc.stepsLeft]
  | ui e =>
    obtain ⟨u, hu, rfl⟩ := step_ui hstep
    refine ⟨hstopped, ?_⟩
    obtain ⟨rfl, hpc, rfl⟩ | ⟨key, rfl, hpc, rfl⟩ | ⟨rfl, hpc, rfl⟩ | ⟨rfl, hpc, heq⟩ |
      ⟨orders, rfl, hpc, rfl⟩ | ⟨rfl, hpc, rfl⟩ := ui_cases hu
    · simp [hpc, hstopped, Event.draws, Event.isUi, Event.isTurn, UiPc.framesLeft, UiPc.stepsLeft]
    · obtain ⟨-, hcase⟩ | ⟨-, hcase⟩ | ⟨-, -, hcase⟩ :=
        handle_cases lib s.screen s.now (keyAction key)
      all_goals simp [hpc, hcase, Event.draws, Event.isUi, Event.isTurn, UiPc.framesLeft,
        UiPc.stepsLeft]
    · simp [hpc, Event.draws, Event.isUi, Event.isTurn, UiPc.framesLeft, UiPc.stepsLeft]
    · rcases heq with ⟨-, rfl⟩ | ⟨-, rfl⟩
      all_goals simp [hpc, Event.draws, Event.isUi, Event.isTurn, UiPc.framesLeft, UiPc.stepsLeft]
    · rcases hpc with ⟨action, hpc⟩ | hpc
      all_goals simp [hpc, Event.draws, Event.isUi, Event.isTurn, UiPc.framesLeft, UiPc.stepsLeft]
    · rcases hpc with hpc | ⟨action, hpc⟩ | hpc
      all_goals simp [hpc, Event.draws, Event.isUi, Event.isTurn, UiPc.framesLeft, UiPc.stepsLeft]

theorem threads_enabled (lib : ListWidget S) (off : UInt64) (s : State S) :
    (s.screen.pc = .returned ∨ ∃ e, e.isUi = true ∧ (step lib off s e).isSome) ∧
      (s.collector.pc = .done ∨ s.collector.pc = .failed ∨
        ∃ e, e.isTurn = true ∧ (step lib off s e).isSome) := by
  obtain ⟨orders⟩ := HashOrders.nonempty
  constructor
  · cases hpc : s.screen.pc with
    | check => exact .inr ⟨.ui .check, rfl, by simp [step, Looping.step, hpc]⟩
    | wait => exact .inr ⟨.ui .idle, rfl, by simp [step, Looping.step, hpc]⟩
    | due =>
      refine .inr ⟨.ui .due, rfl, ?_⟩
      simp only [step, Looping.step, hpc, if_true, Option.isSome_map]
      split_ifs <;> rfl
    | keyDraw action => exact .inr ⟨.ui (.draw orders), rfl, by simp [step, Looping.step, hpc]⟩
    | dueDraw => exact .inr ⟨.ui (.draw orders), rfl, by simp [step, Looping.step, hpc]⟩
    | returned => exact .inl rfl
  · cases hpc : s.collector.pc with
    | setup => exact .inr (.inr ⟨.collect .ready, rfl, by simp [step, Collecting.step, hpc]⟩)
    | check => exact .inr (.inr ⟨.collect .check, rfl, by simp [step, Collecting.step, hpc]⟩)
    | poll => exact .inr (.inr ⟨.collect .endPoll, rfl, by simp [step, Collecting.step, hpc]⟩)
    | raise => exact .inr (.inr ⟨.collect .raise, rfl, by simp [step, Collecting.step, hpc]⟩)
    | warn => exact .inr (.inr ⟨.collect (.warn true), rfl, by simp [step, Collecting.step, hpc]⟩)
    | refresh => exact .inr (.inr ⟨.collect .refresh, rfl, by simp [step, Collecting.step, hpc]⟩)
    | done => exact .inl rfl
    | failed => exact .inr (.inl rfl)

theorem length_frames (s : State S) (e : Event) :
    (frames s e).length = if e.draws then 1 else 0 := by
  cases e with
  | fire | signal | pass | collect => rfl
  | ui e => cases e <;> rfl

/-- After a signal at most one more frame is drawn. The event loop ends after at
most four more of its steps and the collector's after five, and neither is stuck. -/
theorem one_frame_after_signal (lib : ListWidget S) (off : UInt64) (es : List Event) (s t : State S)
    (hafter : run (step lib off) t (.signal :: es) = some s) :
    (outputs (step lib off) frames t (.signal :: es)).length ≤ 1 ∧
      s.screen.pc.stepsLeft + es.countP Event.isUi ≤ 4 ∧
      s.collector.pc.stepsLeft + es.countP Event.isTurn ≤ 5 ∧
      (s.screen.pc = .returned ∨ ∃ e, e.isUi = true ∧ (step lib off s e).isSome) ∧
      (s.collector.pc = .done ∨ s.collector.pc = .failed ∨
        ∃ e, e.isTurn = true ∧ (step lib off s e).isSome) := by
  have hcount := length_outputs (k := Event.draws) length_frames hafter
  obtain ⟨u, hu, hrest⟩ := run_cons_eq_some.mp hafter
  obtain rfl := Option.some.inj hu
  have hframes : s.screen.pc.framesLeft + es.countP Event.draws ≤ t.screen.pc.framesLeft :=
    countP_add_le (s := { t with running := false }) (I := fun s => s.running = false)
      (k := Event.draws)
      (f := fun s => s.screen.pc.framesLeft)
      (fun s e s' hs h => ⟨(stopped_step hs h).1, (stopped_step hs h).2.1⟩) hrest rfl
  have hsteps : s.screen.pc.stepsLeft + es.countP Event.isUi ≤ t.screen.pc.stepsLeft :=
    countP_add_le (s := { t with running := false }) (I := fun s => s.running = false)
      (k := Event.isUi)
      (f := fun s => s.screen.pc.stepsLeft)
      (fun s e s' hs h => ⟨(stopped_step hs h).1, (stopped_step hs h).2.2.1⟩) hrest rfl
  have hturns : s.collector.pc.stepsLeft + es.countP Event.isTurn ≤ t.collector.pc.stepsLeft :=
    countP_add_le (s := { t with running := false }) (I := fun s => s.running = false)
      (k := Event.isTurn)
      (f := fun s => s.collector.pc.stepsLeft)
      (fun s e s' hs h => ⟨(stopped_step hs h).1, (stopped_step hs h).2.2.2⟩) hrest rfl
  -- at most the frame of the turn that is under way
  have hone : t.screen.pc.framesLeft ≤ 1 := by
    cases t.screen.pc <;> simp [UiPc.framesLeft]
  have hfour : t.screen.pc.stepsLeft ≤ 4 := by
    cases t.screen.pc <;> simp [UiPc.stepsLeft]
  have hfive : t.collector.pc.stepsLeft ≤ 5 := by
    cases t.collector.pc <;> decide
  obtain ⟨hui, hcollector⟩ := threads_enabled lib off s
  refine ⟨?_, hsteps.trans hfour, hturns.trans hfive, hui, hcollector⟩
  rw [hcount]
  exact ((Nat.le_add_left _ _).trans hframes).trans hone

end

def keyAfterSignal (orders : HashOrders) : List Event :=
  [.ui (.key ⟨.down, false, .press⟩), .ui (.draw orders), .ui .check]

theorem one_frame_after_signal_key :
    ∃ orders s t, run (step .index 0) (.start .index Bpf.Maps.fresh.filterMap 0 0)
      [.ui .check] = some t ∧
      run (step .index 0) t (.signal :: keyAfterSignal orders) = some s ∧
      (outputs (step .index 0) frames t (.signal :: keyAfterSignal orders)).length ≤ 1 := by
  obtain ⟨orders⟩ := HashOrders.nonempty
  obtain ⟨t, ht⟩ := Option.isSome_iff_exists.mp (show (run (step .index 0)
    (.start .index Bpf.Maps.fresh.filterMap 0 0) [.ui .check]).isSome = true from rfl)
  obtain ⟨s, hs⟩ := Option.isSome_iff_exists.mp (show ((run (step .index 0)
    (.start .index Bpf.Maps.fresh.filterMap 0 0) [.ui .check]).bind fun t =>
      run (step .index 0) t (.signal :: keyAfterSignal orders)).isSome = true from rfl)
  rw [ht, Option.bind_some] at hs
  exact ⟨orders, s, t, ht, hs, (one_frame_after_signal .index 0 (keyAfterSignal orders) s t hs).1⟩

end DashboardLoop

end Tracelet
