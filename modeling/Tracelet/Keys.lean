import Tracelet.Dashboard

namespace Tracelet

namespace Dashboard

/-- The key codes of `crossterm` that `key_action` knows; the others have a number here. -/
inductive KeyCode where
  | char (c : Char)
  | up | down | pageUp | pageDown | home | «end» | tab | backTab
  | other (n : ℕ)
  deriving DecidableEq

inductive KeyEventKind where
  | press | «repeat» | release
  deriving DecidableEq

/-- `control` says whether the modifiers contain `CONTROL`. -/
structure KeyEvent where
  code : KeyCode
  control : Bool
  kind : KeyEventKind
  deriving DecidableEq

/-- What the key stands for when it goes down. -/
def KeyCode.action : KeyCode → Option KeyAction
  | char c => if c = 'q' then some .quit else if c = ' ' then some .togglePause else none
  | up => some .scrollUp
  | down => some .scrollDown
  | pageUp => some .pageUp
  | pageDown => some .pageDown
  | home => some .first
  | «end» => some .last
  | tab | backTab => some .nextPane
  | other _ => none

def keyAction (key : KeyEvent) : KeyAction :=
  if key.kind = .release then .none
  else if key.control = true ∧ key.code = .char 'c' then .quit
  else
    match key.code.action, decide (key.kind = .repeat) with
    | some .togglePause, true | some .quit, true | some .nextPane, true => .none
    | some action, _ => action
    | none, _ => .none

theorem keyAction_char (c : Char) (control : Bool) (kind : KeyEventKind) :
    keyAction ⟨.char c, control, kind⟩ =
      if kind ≠ .release ∧ control = true ∧ c = 'c' ∨ kind = .press ∧ c = 'q' then .quit
      else if kind = .press ∧ c = ' ' then .togglePause
      else .none := by
  by_cases hq : c = 'q'
  · subst hq
    cases kind <;> simp [keyAction, KeyCode.action]
  by_cases hblank : c = ' '
  · subst hblank
    cases kind <;> simp [keyAction, KeyCode.action]
  · cases kind <;> simp [keyAction, KeyCode.action, hq, hblank]

theorem keyAction_eq_quit_iff (key : KeyEvent) :
    keyAction key = .quit ↔
      (key.code = .char 'c' ∧ key.control = true ∧ key.kind ≠ .release) ∨
        (key.code = .char 'q' ∧ key.kind = .press) := by
  obtain ⟨code, control, kind⟩ := key
  cases code with
  | char c =>
    rw [keyAction_char]
    split_ifs <;> simp <;> tauto
  | up | down | pageUp | pageDown | home | «end» | tab | backTab | other =>
    cases kind <;> simp [keyAction, KeyCode.action]

theorem keyAction_eq_togglePause_iff (key : KeyEvent) :
    keyAction key = .togglePause ↔ key.code = .char ' ' ∧ key.kind = .press := by
  obtain ⟨code, control, kind⟩ := key
  cases code with
  | char c =>
    rw [keyAction_char]
    by_cases hblank : c = ' '
    · subst hblank
      simp
    · split_ifs <;> simp_all
  | up | down | pageUp | pageDown | home | «end» | tab | backTab | other =>
    cases kind <;> simp [keyAction, KeyCode.action]

theorem keyAction_eq_nextPane_iff (key : KeyEvent) :
    keyAction key = .nextPane ↔ (key.code = .tab ∨ key.code = .backTab) ∧ key.kind = .press := by
  obtain ⟨code, control, kind⟩ := key
  cases code with
  | char c =>
    rw [keyAction_char]
    split_ifs <;> simp
  | up | down | pageUp | pageDown | home | «end» | tab | backTab | other =>
    cases kind <;> simp [keyAction, KeyCode.action]

end Dashboard

end Tracelet
