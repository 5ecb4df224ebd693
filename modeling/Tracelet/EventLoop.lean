import Tracelet.Decode
import Tracelet.Kernel
import Tracelet.TransitionRun

namespace Tracelet
open KernelMap TransitionRun

namespace Stats

def readDropKey (map : ArrayMap UInt64 3) (key : UInt32) : UInt64 :=
  (ArrayMap.lookup map key).getD 0

def warnOnDrops (map : ArrayMap UInt64 3) (seen : UInt64 × UInt64) : UInt64 × UInt64 :=
  let ringbuf := readDropKey map 0
  let latency := readDropKey map 1
  (if ringbuf > seen.1 then ringbuf else seen.1, if latency > seen.2 then latency else seen.2)

end Stats

namespace Bpf

/-- An admitted firing, seen from outside: a record for the ring buffer, or a
failed reservation. -/
def fire (m : Maps) : Option (List UInt8) → Maps
  | some record => { m with events := m.events ++ [record] }
  | none => countDrop m dropKeyRingbuf

theorem submit_eq_fire {size : ℕ} (m : Maps) (reserved : Reservation size)
    (fill : List UInt8 → List UInt8) :
    submit m reserved fill = fire m (reserved.map fun slot => fill slot.toList) := by
  cases reserved <;> rfl

theorem program_fires (m : Maps) (task : Task) (now : UInt64) :
    (∀ ctx reserved, traceExec m task now ctx reserved = m ∨
      ∃ record, traceExec m task now ctx reserved = fire m record) ∧
    (∀ fname reserved, submitOpen m task now fname reserved = m ∨
      ∃ record, submitOpen m task now fname reserved = fire m record) ∧
    ∀ ctx reserved, traceTcp m task now ctx reserved = m ∨
      ∃ record, traceTcp m task now ctx reserved = fire m record := by
  refine ⟨fun ctx reserved => ?_, fun fname reserved => ?_, fun ctx reserved => ?_⟩
  · unfold traceExec
    split_ifs
    · exact .inr ⟨_, submit_eq_fire _ _ _⟩
    · exact .inl rfl
  · unfold submitOpen
    split_ifs
    · exact .inr ⟨_, submit_eq_fire _ _ _⟩
    · exact .inl rfl
  · unfold traceTcp submitTcp
    split_ifs <;> first | exact .inl rfl | exact .inr ⟨_, submit_eq_fire _ _ _⟩

end Bpf

namespace EventLoop
open Bpf

inductive Command where
  | exec | fileOpen | tcp
  deriving DecidableEq

def Command.decodes : Command → List UInt8 → Bool
  | exec, data => (Events.decodeExec data).isSome
  | fileOpen, data => (Events.decodeOpen data).isSome
  | tcp, data => (Events.decodeTcp data).isSome

/-- `should_stop`; `expired` says that there is a duration and that it has passed. -/
def shouldStop (running : Bool) (countPrinted : UInt64) (countLimit : Option UInt64)
    (expired : Bool) : Bool :=
  if !running then true
  else
    match countLimit with
    | some max => if countPrinted ≥ max then true else expired
    | none => expired

/-- Where the loop is: before `should_stop`, inside `poll`, before
`warn_on_drops`, behind the summary, or left through an error. -/
inductive Pc where
  | check | polling | warn | done | failed
  deriving DecidableEq

/-- The fields from `lines` on only record what happened: `counted` and
`consumed` are the records that the callback got, with and without `RUNNING`
set, `handed` the decodable ones among the counted since `pollStart`. -/
structure State where
  pc : Pc
  running : Bool
  maps : Maps
  printed : UInt64
  decodeRejects : UInt64
  dropsSeen : UInt64 × UInt64
  summary : Option (UInt64 × UInt64)
  lines : ℕ
  counted : ℕ
  consumed : ℕ
  failures : ℕ
  failuresSeen : ℕ
  pollStart : ℕ
  handed : ℕ

inductive Event where
  | fire (record : Option (List UInt8))
  | signal
  | check (expired : Bool)
  | deliver
  | endPoll
  | warn
  | fail

def State.start (filter : ArrayMap Bpf.FilterConfig 1) : State where
  pc := .check
  running := true
  maps := { Maps.fresh with filterMap := filter }
  printed := 0
  decodeRejects := 0
  dropsSeen := (0, 0)
  summary := none
  lines := 0
  counted := 0
  consumed := 0
  failures := 0
  failuresSeen := 0
  pollStart := 0
  handed := 0

def State.totalDrops (s : State) : UInt64 := s.dropsSeen.1 + s.dropsSeen.2 + s.decodeRejects

def State.callback (s : State) (cmd : Command) (data : List UInt8) : State :=
  if !s.running then s
  else if cmd.decodes data then
    { s with
      printed := s.printed + 1
      lines := s.lines + 1
      counted := s.counted + 1
      handed := s.handed + 1 }
  else { s with decodeRejects := s.decodeRejects + 1, counted := s.counted + 1 }

/-- A poll hands over any number of pending records, and kernel firings and signals may
come between any two steps. `fail` is an error that `?` returns before the summary. -/
def step (cmd : Command) (count : Option UInt64) (s : State) : Event → Option State
  | .fire record =>
    some { s with
      maps := Bpf.fire s.maps record
      failures := if record.isNone then s.failures + 1 else s.failures }
  | .signal => some { s with running := false }
  -- the `while` condition, and the summary behind the loop
  | .check expired =>
    if s.pc ≠ .check then none
    else if shouldStop s.running s.printed count expired then
      some { s with pc := .done, summary := some (s.printed, s.totalDrops) }
    else some { s with pc := .polling, pollStart := s.lines, handed := 0 }
  -- `poll` hands the oldest record to the callback, which is one step
  | .deliver =>
    match s.maps.events with
    | [] => none
    | record :: rest =>
      if s.pc ≠ .polling then none
      else some (State.callback
        { s with maps := { s.maps with events := rest }, consumed := s.consumed + 1 } cmd record)
  | .endPoll => if s.pc ≠ .polling then none else some { s with pc := .warn }
  | .warn =>
    if s.pc ≠ .warn then none
    else some { s with
      pc := .check
      dropsSeen := Stats.warnOnDrops s.maps.drops s.dropsSeen
      failuresSeen := s.failures }
  | .fail => if s.pc = .polling ∨ s.pc = .warn then some { s with pc := .failed } else none

theorem deliver_cases {cmd : Command} {count : Option UInt64} {s s' : State}
    (h : step cmd count s .deliver = some s') :
    ∃ record rest, s.maps.events = record :: rest ∧ s.pc = .polling ∧
      let t : State :=
        { s with maps := { s.maps with events := rest }, consumed := s.consumed + 1 }
      ((s.running = false ∧ s' = t) ∨
        (s.running = true ∧ cmd.decodes record = true ∧
          s' = { t with
            printed := s.printed + 1
            lines := s.lines + 1
            counted := s.counted + 1
            handed := s.handed + 1 }) ∨
        (s.running = true ∧ cmd.decodes record = false ∧
          s' = { t with decodeRejects := s.decodeRejects + 1, counted := s.counted + 1 })) := by
  cases hr : s.maps.events with
  | nil => simp [step, hr] at h
  | cons record rest =>
    by_cases hpc : s.pc = .polling
    · simp only [step, hr, hpc, ne_eq, not_true_eq_false, if_false, Option.some.injEq] at h
      refine ⟨record, rest, rfl, hpc, ?_⟩
      cases hrun : s.running with
      | false => exact .inl ⟨rfl, by simp [← h, State.callback, hrun, hpc]⟩
      | true =>
        cases hd : cmd.decodes record with
        | true => exact .inr (.inl ⟨rfl, rfl, by simp [← h, State.callback, hrun, hd, hpc]⟩)
        | false => exact .inr (.inr ⟨rfl, rfl, by simp [← h, State.callback, hrun, hd, hpc]⟩)
    · simp [step, hr, hpc] at h

theorem check_cases {cmd : Command} {count : Option UInt64} {s s' : State} {expired : Bool}
    (h : step cmd count s (.check expired) = some s') :
    s.pc = .check ∧
      ((shouldStop s.running s.printed count expired = true ∧
          s' = { s with pc := .done, summary := some (s.printed, s.totalDrops) }) ∨
        (shouldStop s.running s.printed count expired = false ∧
          s' = { s with pc := .polling, pollStart := s.lines, handed := 0 })) := by
  by_cases hpc : s.pc = .check
  · refine ⟨hpc, ?_⟩
    cases hstop : shouldStop s.running s.printed count expired with
    | true => exact .inl ⟨rfl, by simpa [step, hpc, hstop] using h.symm⟩
    | false => exact .inr ⟨rfl, by simpa [step, hpc, hstop] using h.symm⟩
  · simp [step, hpc] at h

theorem endPoll_cases {cmd : Command} {count : Option UInt64} {s s' : State}
    (h : step cmd count s .endPoll = some s') : s.pc = .polling ∧ s' = { s with pc := .warn } := by
  by_cases hpc : s.pc = .polling
  · exact ⟨hpc, by simpa [step, hpc] using h.symm⟩
  · simp [step, hpc] at h

theorem warn_cases {cmd : Command} {count : Option UInt64} {s s' : State}
    (h : step cmd count s .warn = some s') :
    s.pc = .warn ∧ s' = { s with
      pc := .check
      dropsSeen := Stats.warnOnDrops s.maps.drops s.dropsSeen
      failuresSeen := s.failures } := by
  by_cases hpc : s.pc = .warn
  · exact ⟨hpc, by simpa [step, hpc] using h.symm⟩
  · simp [step, hpc] at h

theorem fail_cases {cmd : Command} {count : Option UInt64} {s s' : State}
    (h : step cmd count s .fail = some s') :
    (s.pc = .polling ∨ s.pc = .warn) ∧ s' = { s with pc := .failed } := by
  by_cases hpc : s.pc = .polling ∨ s.pc = .warn
  · exact ⟨hpc, by simpa [step, hpc] using h.symm⟩
  · simp [step, hpc] at h

end EventLoop

end Tracelet
