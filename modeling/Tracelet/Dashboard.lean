import Mathlib
import Tracelet.TransitionRun

namespace Tracelet
open TransitionRun

def usizeMax : ℕ := 2 ^ 64 - 1

/-- The list states and the list rendering of `ratatui`, with what is known of
them: scrolling saturates, and a non-empty list clamps the selected index in
the state it is given. -/
structure ListWidget (S : Type) where
  default : S
  select : Option ℕ → S → S
  selected : S → Option ℕ
  scrollUpBy : ℕ → S → S
  scrollDownBy : ℕ → S → S
  /-- The state after rendering a list of that many rows. -/
  render : ℕ → S → S
  selected_select : ∀ i s, selected (select i s) = i
  selected_scrollUpBy : ∀ {s i}, selected s = some i → ∀ a, selected (scrollUpBy a s) = some (i - a)
  selected_scrollDownBy : ∀ {s i}, selected s = some i →
    ∀ a, selected (scrollDownBy a s) = some (min (i + a) usizeMax)
  selected_render : ∀ {s i}, selected s = some i →
    ∀ {rows}, 0 < rows → selected (render rows s) = some (min i (rows - 1))

def ListWidget.index : ListWidget (Option ℕ) where
  default := none
  select i _ := i
  selected s := s
  scrollUpBy a s := some (s.getD 0 - a)
  scrollDownBy a s := some (min (s.getD 0 + a) usizeMax)
  render rows s := if rows = 0 then none else s.map fun i => min i (rows - 1)
  selected_select _ _ := rfl
  selected_scrollUpBy h a := by simp [h]
  selected_scrollDownBy h a := by simp [h]
  selected_render h rows hrows := by simp [h, hrows.ne']

namespace Dashboard

inductive Focus
  | stream
  | top
  deriving DecidableEq

inductive KeyAction
  | none
  | quit
  | togglePause
  | scrollUp
  | scrollDown
  | pageUp
  | pageDown
  | first
  | last
  | nextPane
  deriving DecidableEq

structure Ui (S : Type) where
  focus : Focus
  stream : S
  top : S
  paused : Bool

section
variable {S : Type} (lib : ListWidget S)

def Ui.new : Ui S where
  focus := .stream
  stream := lib.select (some 0) lib.default
  top := lib.select (some 0) lib.default
  paused := false

def Ui.pane (ui : Ui S) : Focus → S
  | .stream => ui.stream
  | .top => ui.top

def Ui.onFocused (ui : Ui S) (f : S → S) : Ui S :=
  match ui.focus with
  | .stream => { ui with stream := f ui.stream }
  | .top => { ui with top := f ui.top }

def Ui.scroll (ui : Ui S) (up : Bool) (amount : ℕ) : Ui S :=
  if up then ui.onFocused (lib.scrollUpBy amount) else ui.onFocused (lib.scrollDownBy amount)

def Ui.jump (ui : Ui S) (toEnd : Bool) : Ui S :=
  if toEnd then ui.onFocused (lib.select (some usizeMax)) else ui.onFocused (lib.select (some 0))

def Ui.toggleFocus (ui : Ui S) : Ui S :=
  { ui with focus := match ui.focus with
    | .stream => .top
    | .top => .stream }

def Ui.apply (ui : Ui S) : KeyAction → Ui S
  | .none | .quit => ui
  | .togglePause => { ui with paused := !ui.paused }
  | .scrollUp => ui.scroll lib true 1
  | .scrollDown => ui.scroll lib false 1
  | .pageUp => ui.scroll lib true 15
  | .pageDown => ui.scroll lib false 15
  | .first => ui.jump lib false
  | .last => ui.jump lib true
  | .nextPane => ui.toggleFocus

/-- The event loop between two events: the user interface, and what the last
draw put on the screen, the rows of each pane and the row highlighted there. -/
structure State (S : Type) where
  ui : Ui S
  running : Bool
  rows : Focus → ℕ
  highlighted : Focus → Option ℕ

def State.start : State S where
  ui := .new lib
  running := true
  rows := fun _ => 1
  highlighted := fun _ => some 0

/-- `draw` renders `ui.stream.clone()` and `ui.top.clone()`. -/
def State.draw (s : State S) (rows : Focus → UInt64) : State S :=
  { s with
    rows := fun p => (rows p).toNat
    highlighted := fun p => lib.selected (lib.render (rows p).toNat (s.ui.pane p)) }

/-- A key, or the draw that is due every second. Each comes with the rows that
a snapshot has at that time. -/
inductive Event
  | key (action : KeyAction) (rows : Focus → UInt64)
  | refresh (rows : Focus → UInt64)

def step (s : State S) : Event → Option (State S)
  | .key action rows =>
    if !s.running then none
    else match action with
      | .none => some s
      | .quit => some { s with ui := s.ui.apply lib .quit, running := false }
      | action => some (State.draw lib { s with ui := s.ui.apply lib action } rows)
  | .refresh rows => if s.running && !s.ui.paused then some (s.draw lib rows) else none

/-- The row highlighted in a pane; there is none in an empty list. -/
def State.row (s : State S) (p : Focus) : Option ℕ :=
  if s.rows p = 0 then none else s.highlighted p

/-- The row that an action asks for in the focused pane, from the row that is
highlighted there and the bottom row of the next draw. -/
def KeyAction.target (row : Option ℕ) (bottom : ℕ) : KeyAction → Option ℕ
  | .scrollUp => row.map fun r => min (r - 1) bottom
  | .scrollDown => row.map fun r => min (r + 1) bottom
  | .pageUp => row.map fun r => min (r - 15) bottom
  | .pageDown => row.map fun r => min (r + 15) bottom
  | .first => some 0
  | .last => some bottom
  | _ => Option.none

/-- The action moves the highlighted row of the focused pane from where it is. -/
def Follows (action : KeyAction) (s s' : State S) (p : Focus) : Prop :=
  ∀ target, 0 < s'.rows p → action.target (s.row p) (s'.rows p - 1) = some target →
    s'.row p = some target

def Stays (s s' : State S) (p : Focus) : Prop :=
  ∀ row, 0 < s'.rows p → s.row p = some row → s'.row p = some (min row (s'.rows p - 1))

/-- What a step does to the highlighted rows is what its event asks for. -/
def Lawful (s : State S) (e : Event) : Prop :=
  ∀ s', step lib s e = some s' →
    (∀ action rows, e = .key action rows → Follows action s s' s'.ui.focus) ∧
      ∀ p, p ≠ s'.ui.focus → Stays s s' p

def Ui.index (ui : Ui S) (p : Focus) : ℕ := (lib.selected (ui.pane p)).getD 0

def KeyAction.Agrees (i before after : ℕ) : KeyAction → Prop
  | .scrollUp => i ≤ 1 ∨ after - 1 ≤ before - 1 - 1
  | .scrollDown => after - 1 ≤ before - 1 + 1
  | .pageUp => i ≤ 15 ∨ after - 1 ≤ before - 1 - 15
  | .pageDown => after - 1 ≤ before - 1 + 15
  | _ => True

/-- The pane has rows before and after, and its stored index is past the last
of those before. -/
def PastEnd (s : State S) (rows : Focus → UInt64) (p : Focus) : Prop :=
  0 < s.rows p ∧ 0 < (rows p).toNat ∧ s.rows p ≤ s.ui.index lib p

/-- An index that is past the end makes no difference to this step. -/
def Settled (s : State S) : Event → Prop
  | .key .none _ => True
  | .key .quit _ => True
  | .key action rows => ∀ p, PastEnd lib s rows p →
      if p = (s.ui.apply lib action).focus
      then action.Agrees (s.ui.index lib p) (s.rows p) (rows p).toNat
      else (rows p).toNat ≤ s.rows p
  | .refresh rows => ∀ p, PastEnd lib s rows p → p ≠ s.ui.focus → (rows p).toNat ≤ s.rows p

variable {lib}

/-- The index that an action leaves in the focused pane. -/
def KeyAction.moved (i : ℕ) : KeyAction → ℕ
  | .scrollUp => i - 1
  | .scrollDown => min (i + 1) usizeMax
  | .pageUp => i - 15
  | .pageDown => min (i + 15) usizeMax
  | .first => 0
  | .last => usizeMax
  | _ => i

theorem KeyAction.moved_le {i : ℕ} (h : i ≤ usizeMax) (action : KeyAction) :
    action.moved i ≤ usizeMax := by
  cases action <;> simp only [KeyAction.moved] <;> omega

theorem pane_onFocused (ui : Ui S) (f : S → S) (p : Focus) :
    (ui.onFocused f).pane p = if p = ui.focus then f (ui.pane p) else ui.pane p := by
  unfold Ui.onFocused
  cases p <;> cases hfocus : ui.focus <;> simp [Ui.pane]

theorem focus_onFocused (ui : Ui S) (f : S → S) : (ui.onFocused f).focus = ui.focus := by
  unfold Ui.onFocused
  split <;> simp

theorem selected_onFocused {ui : Ui S} {f : S → S} {p : Focus} {i j : ℕ}
    (hp : lib.selected (ui.pane p) = some i)
    (hf : ∀ s, lib.selected s = some i → lib.selected (f s) = some j) :
    lib.selected ((ui.onFocused f).pane p) =
      some (if p = (ui.onFocused f).focus then j else i) := by
  rw [pane_onFocused, focus_onFocused]
  split
  · exact hf _ hp
  · exact hp

theorem selected_unmoved {ui ui' : Ui S} {p : Focus} {i : ℕ} {c : Prop} [Decidable c]
    (hp : lib.selected (ui.pane p) = some i) (hpane : ui'.pane p = ui.pane p) :
    lib.selected (ui'.pane p) = some (if c then i else i) := by
  rw [hpane, ite_self]
  exact hp

theorem selected_apply {ui : Ui S} {p : Focus} {i : ℕ} (hp : lib.selected (ui.pane p) = some i)
    (action : KeyAction) :
    lib.selected ((ui.apply lib action).pane p) =
      some (if p = (ui.apply lib action).focus then action.moved i else i) := by
  cases action with
  | none => exact selected_unmoved hp rfl
  | quit => exact selected_unmoved hp rfl
  | togglePause => exact selected_unmoved hp rfl
  | scrollUp => exact selected_onFocused hp fun s hs => lib.selected_scrollUpBy hs 1
  | scrollDown => exact selected_onFocused hp fun s hs => lib.selected_scrollDownBy hs 1
  | pageUp => exact selected_onFocused hp fun s hs => lib.selected_scrollUpBy hs 15
  | pageDown => exact selected_onFocused hp fun s hs => lib.selected_scrollDownBy hs 15
  | first => exact selected_onFocused hp fun s _ => lib.selected_select _ s
  | last => exact selected_onFocused hp fun s _ => lib.selected_select _ s
  | nextPane => exact selected_unmoved hp rfl

/-- Every pane has a selected index, and the last draw clamped it. -/
structure Drawn (lib : ListWidget S) (s : State S) : Prop where
  selected : ∀ p, lib.selected (s.ui.pane p) = some (s.ui.index lib p)
  le : ∀ p, s.ui.index lib p ≤ usizeMax
  row : ∀ p, 0 < s.rows p → s.row p = some (min (s.ui.index lib p) (s.rows p - 1))

theorem index_apply {s : State S} (h : Drawn lib s) (action : KeyAction) (p : Focus) :
    (s.ui.apply lib action).index lib p =
      if p = (s.ui.apply lib action).focus then action.moved (s.ui.index lib p)
      else s.ui.index lib p := by
  rw [Ui.index, selected_apply (h.selected p), Option.getD_some]

/-- The draw that follows an action. -/
def State.next (lib : ListWidget S) (s : State S) (action : KeyAction) (rows : Focus → UInt64) :
    State S :=
  State.draw lib { s with ui := s.ui.apply lib action } rows

theorem selected_next {s : State S} (h : Drawn lib s) (action : KeyAction) (rows : Focus → UInt64)
    (p : Focus) :
    lib.selected ((s.next lib action rows).ui.pane p) =
      some ((s.next lib action rows).ui.index lib p) := by
  change lib.selected ((s.ui.apply lib action).pane p) = some ((s.ui.apply lib action).index lib p)
  rw [index_apply h]
  exact selected_apply (h.selected p) action

theorem row_next {s : State S} (h : Drawn lib s) (action : KeyAction) {rows : Focus → UInt64}
    {p : Focus} (hrows : 0 < (rows p).toNat) :
    (s.next lib action rows).row p =
      some (min ((s.next lib action rows).ui.index lib p) ((rows p).toNat - 1)) := by
  have hne : (s.next lib action rows).rows p ≠ 0 := hrows.ne'
  rw [State.row, if_neg hne]
  exact lib.selected_render (selected_next h action rows p) hrows

theorem Drawn.next {s : State S} (h : Drawn lib s) (action : KeyAction) (rows : Focus → UInt64) :
    Drawn lib (s.next lib action rows) where
  selected := selected_next h action rows
  le p := by
    change (s.ui.apply lib action).index lib p ≤ usizeMax
    rw [index_apply h]
    split
    · exact KeyAction.moved_le (h.le p) action
    · exact h.le p
  row p hp := row_next h action hp

theorem clamp_eq_iff {i before after : ℕ} (hbefore : 0 < before) (hafter : 0 < after) :
    min i (after - 1) = min (min i (before - 1)) (after - 1) ↔ (before ≤ i → after ≤ before) := by
  omega

theorem moved_eq_target_iff {i before after : ℕ} (hi : i ≤ usizeMax) (hbefore : 0 < before)
    (hafter : 0 < after) (hle : after ≤ usizeMax) (action : KeyAction) :
    (∀ target, action.target (some (min i (before - 1))) (after - 1) = some target →
      min (action.moved i) (after - 1) = target) ↔ (before ≤ i → action.Agrees i before after) := by
  cases action <;>
    simp only [KeyAction.target, KeyAction.moved, KeyAction.Agrees, Option.map_some,
      Option.some.injEq, forall_eq', reduceCtorEq, IsEmpty.forall_iff, implies_true, iff_true] <;>
    omega

theorem moved_eq_target_none {i bottom target : ℕ} (hbottom : bottom ≤ usizeMax)
    {action : KeyAction} (h : action.target none bottom = some target) :
    min (action.moved i) bottom = target := by
  cases action with
  | first => simpa [KeyAction.target, KeyAction.moved] using h
  | last => simpa [KeyAction.target, KeyAction.moved, min_eq_right hbottom] using h
  | _ => simp [KeyAction.target] at h

theorem follows_iff {s : State S} (h : Drawn lib s) (action : KeyAction) {rows : Focus → UInt64}
    {p : Focus} (hp : p = (s.ui.apply lib action).focus) :
    Follows action s (s.next lib action rows) p ↔
      (PastEnd lib s rows p → action.Agrees (s.ui.index lib p) (s.rows p) (rows p).toNat) := by
  have hindex : (s.next lib action rows).ui.index lib p = action.moved (s.ui.index lib p) :=
    (index_apply h action p).trans (if_pos hp)
  have hle : (rows p).toNat ≤ usizeMax := Nat.le_sub_one_of_lt (rows p).toNat_lt
  have hrows : (s.next lib action rows).rows p = (rows p).toNat := rfl
  rw [Follows, PastEnd, hrows]
  -- without rows before or after the draw nothing is highlighted, and no move can be wrong
  rcases Nat.eq_zero_or_pos (rows p).toNat with hafter | hafter
  · simp [hafter]
  · rw [row_next h action hafter, hindex]
    rcases Nat.eq_zero_or_pos (s.rows p) with hbefore | hbefore
    · have hnone : s.row p = none := if_pos hbefore
      rw [hnone, hbefore]
      apply iff_of_true
      · intro target _ htarget
        rw [moved_eq_target_none (by omega) htarget]
      · exact fun hpast => absurd hpast.1 (lt_irrefl 0)
    · have hmoved := moved_eq_target_iff (h.le p) hbefore hafter hle action
      rw [h.row p hbefore]
      simpa only [hafter, hbefore, true_and, forall_const, Option.some.injEq] using hmoved

theorem stays_iff {s : State S} (h : Drawn lib s) (action : KeyAction) {rows : Focus → UInt64}
    {p : Focus} (hp : p ≠ (s.ui.apply lib action).focus) :
    Stays s (s.next lib action rows) p ↔ (PastEnd lib s rows p → (rows p).toNat ≤ s.rows p) := by
  have hindex : (s.next lib action rows).ui.index lib p = s.ui.index lib p :=
    (index_apply h action p).trans (if_neg hp)
  have hrows : (s.next lib action rows).rows p = (rows p).toNat := rfl
  rw [Stays, PastEnd, hrows]
  rcases Nat.eq_zero_or_pos (rows p).toNat with hafter | hafter
  · simp [hafter]
  · rw [row_next h action hafter, hindex]
    rcases Nat.eq_zero_or_pos (s.rows p) with hbefore | hbefore
    · have hnone : s.row p = none := if_pos hbefore
      simp [hnone, hbefore]
    · have hclamp := clamp_eq_iff (i := s.ui.index lib p) hbefore hafter
      rw [h.row p hbefore]
      simpa only [hafter, hbefore, true_and, forall_const, Option.some.injEq, forall_eq'] using
        hclamp

theorem stays_others_iff {s : State S} (h : Drawn lib s) (action : KeyAction)
    (rows : Focus → UInt64) :
    (∀ p, p ≠ (s.ui.apply lib action).focus → Stays s (s.next lib action rows) p) ↔
      ∀ p, PastEnd lib s rows p → p ≠ (s.ui.apply lib action).focus →
        (rows p).toNat ≤ s.rows p := by
  constructor
  · exact fun hall p hpast hp => (stays_iff h action hp).mp (hall p hp) hpast
  · exact fun hall p hp => (stays_iff h action hp).mpr fun hpast => hall p hpast hp

theorem lawful_next_iff {s : State S} (h : Drawn lib s) (action : KeyAction)
    (rows : Focus → UInt64) :
    (Follows action s (s.next lib action rows) (s.ui.apply lib action).focus ∧
      ∀ p, p ≠ (s.ui.apply lib action).focus → Stays s (s.next lib action rows) p) ↔
    ∀ p, PastEnd lib s rows p →
      if p = (s.ui.apply lib action).focus
      then action.Agrees (s.ui.index lib p) (s.rows p) (rows p).toNat
      else (rows p).toNat ≤ s.rows p := by
  rw [follows_iff h action rfl, stays_others_iff h action rows]
  constructor
  · rintro ⟨hfocus, hother⟩ p hpast
    split
    case isTrue hp => exact hp ▸ hfocus (hp ▸ hpast)
    case isFalse hp => exact hother p hpast hp
  · intro hall
    refine ⟨fun hpast => ?_, fun p hpast hp => ?_⟩
    · simpa only [if_true] using hall _ hpast
    · simpa only [if_neg hp] using hall p hpast

theorem stays_self {s s' : State S} (h : Drawn lib s) (hrow : s'.row = s.row)
    (hrows : s'.rows = s.rows) (p : Focus) : Stays s s' p := by
  intro row hpos hr
  rw [hrows] at hpos ⊢
  rw [hrow, hr]
  rw [h.row p hpos] at hr
  obtain rfl := Option.some.inj hr
  rw [min_assoc, min_self]

theorem key_cases {s s' : State S} {action : KeyAction} {rows : Focus → UInt64}
    (hstep : step lib s (.key action rows) = some s') :
    (action = .none ∧ s' = s) ∨ (action = .quit ∧ s' = { s with running := false }) ∨
      action ≠ .none ∧ action ≠ .quit ∧ s' = s.next lib action rows := by
  simp only [step] at hstep
  split at hstep
  case isTrue => cases hstep
  case isFalse =>
    split at hstep
    case h_1 => exact .inl ⟨rfl, (Option.some.inj hstep).symm⟩
    case h_2 => exact .inr (.inl ⟨rfl, (Option.some.inj hstep).symm⟩)
    case h_3 hnone hquit => exact .inr (.inr ⟨hnone, hquit, (Option.some.inj hstep).symm⟩)

theorem refresh_cases {s s' : State S} {rows : Focus → UInt64}
    (hstep : step lib s (.refresh rows) = some s') : s' = s.next lib .none rows := by
  simp only [step, Option.ite_none_right_eq_some] at hstep
  exact (Option.some.inj hstep.2).symm

theorem settled_key {s : State S} {action : KeyAction} {rows : Focus → UInt64}
    (hnone : action ≠ .none) (hquit : action ≠ .quit) :
    Settled lib s (.key action rows) ↔ ∀ p, PastEnd lib s rows p →
      if p = (s.ui.apply lib action).focus
      then action.Agrees (s.ui.index lib p) (s.rows p) (rows p).toNat
      else (rows p).toNat ≤ s.rows p := by
  cases action <;> first | exact Iff.rfl | exact absurd rfl hnone | exact absurd rfl hquit

theorem follows_none {s s' : State S} {p : Focus} {action : KeyAction}
    (h : action = .none ∨ action = .quit) : Follows action s s' p := by
  rintro target - htarget
  rcases h with rfl | rfl <;> cases htarget

theorem drawn_step {s s' : State S} {e : Event} (h : Drawn lib s) (hstep : step lib s e = some s') :
    Drawn lib s' ∧ (Lawful lib s e ↔ Settled lib s e) := by
  have hlawful : Lawful lib s e ↔
      (∀ action rows, e = .key action rows → Follows action s s' s'.ui.focus) ∧
        ∀ p, p ≠ s'.ui.focus → Stays s s' p := by
    simp only [Lawful, hstep, Option.some.injEq, forall_eq']
  rw [hlawful]
  cases e with
  | key action rows =>
    have hkey : (∀ a r, Event.key action rows = .key a r → Follows a s s' s'.ui.focus) ↔
        Follows action s s' s'.ui.focus := by
      simp
    rw [hkey]
    -- a key without an action and `q` draw nothing
    rcases key_cases hstep with ⟨rfl, rfl⟩ | ⟨rfl, rfl⟩ | ⟨hnone, hquit, rfl⟩
    · refine ⟨h, iff_of_true ⟨follows_none (.inl rfl), fun p _ => stays_self h rfl rfl p⟩ trivial⟩
    · exact ⟨⟨h.selected, h.le, h.row⟩,
        iff_of_true ⟨follows_none (.inr rfl), fun p _ => stays_self h rfl rfl p⟩ trivial⟩
    · exact ⟨h.next action rows,
        (lawful_next_iff h action rows).trans (settled_key hnone hquit).symm⟩
  | refresh rows =>
    obtain rfl := refresh_cases hstep
    refine ⟨h.next .none rows, ?_⟩
    have hkey : ∀ a r, Event.refresh rows = .key a r →
        Follows a s (s.next lib .none rows) (s.next lib .none rows).ui.focus := by
      rintro a r ⟨⟩
    rw [and_iff_right hkey]
    exact stays_others_iff h .none rows

theorem drawn_start : Drawn lib (.start lib) := by
  have hsel : ∀ p, lib.selected ((Ui.new lib).pane p) = some 0 := fun p => by
    cases p <;> exact lib.selected_select _ _
  have hindex : ∀ p, (Ui.new lib).index lib p = 0 :=
    fun p => by rw [Ui.index, hsel, Option.getD_some]
  refine ⟨fun p => ?_, fun p => ?_, fun p _ => ?_⟩
  · exact (hsel p).trans (congrArg some (hindex p).symm)
  · exact (hindex p).trans_le (Nat.zero_le _)
  · change some 0 = some (min ((Ui.new lib).index lib p) 0)
    rw [hindex]
    rfl

/-- In every run, each key and each draw moves the highlighted rows from where
they are shown exactly if no stored index past the end of its list makes a
difference to a step. -/
theorem scrolling_lawful_iff (lib : ListWidget S) (es : List Event) (s : State S)
    (hrun : run (step lib) (.start lib) es = some s) :
    AllSteps (step lib) (Lawful lib) (.start lib) es ↔
      AllSteps (step lib) (Settled lib) (.start lib) es :=
  allSteps_congr (I := Drawn lib) (fun _ _ _ h hstep => drawn_step h hstep) hrun drawn_start

end

def twoRows : Focus → UInt64 := fun _ => 2

theorem scrolling_lawful_iff_down :
    ∃ s, run (step .index) (.start .index) [.refresh twoRows, .key .scrollDown twoRows] = some s ∧
      (AllSteps (step .index) (Lawful .index) (.start .index)
          [.refresh twoRows, .key .scrollDown twoRows] ↔
        AllSteps (step .index) (Settled .index) (.start .index)
          [.refresh twoRows, .key .scrollDown twoRows]) :=
  ⟨_, rfl, scrolling_lawful_iff .index _ _ rfl⟩

/-- After `end` on two rows, an arrow up leaves the last row highlighted. -/
theorem scroll_up_stuck :
    ¬ ∀ (S : Type) (lib : ListWidget S) (es : List Event) (s : State S),
      run (step lib) (.start lib) es = some s →
        AllSteps (step lib) (Lawful lib) (.start lib) es := by
  intro h
  have hall := h _ .index [.key .last twoRows, .key .scrollUp twoRows] _ rfl
  have hlawful := ((hall.2 _ rfl).1 _ rfl).1 .scrollUp twoRows rfl
  exact absurd (hlawful 0 (by decide) (by decide)) (by decide)

end Dashboard

end Tracelet
