import Tracelet.Keys
import Tracelet.CollectLoop
import Tracelet.Snapshot

namespace Tracelet
open ByteMemory KernelMap TransitionRun

namespace Collector

/-- `if total > guard.dropped { guard.dropped = total; }`. -/
def Shared.raiseDropped (shared : Shared) (total : UInt64) : Shared :=
  if total > shared.dropped then { shared with dropped := total } else shared

def lookupDrops (drops : ArrayMap UInt64 3) (key : UInt32) : Lookup :=
  some ((ArrayMap.lookup drops key).map fun count => leBytes 8 count.toNat)

theorem readDropKey_lookupDrops (drops : ArrayMap UInt64 3) (key : UInt32) :
    readDropKey (lookupDrops drops key) = some (Stats.readDropKey drops key) := by
  unfold lookupDrops Stats.readDropKey
  cases ArrayMap.lookup drops key with
  | none => rfl
  | some count =>
    have hcount : u64At (leBytes 8 count.toNat) 0 = count := by
      rw [u64At, leNat_leBytes, Nat.mod_eq_of_lt (show count.toNat < 256 ^ 8 from count.toNat_lt),
        UInt64.ofNat_toNat]
    simp only [Option.map_some, readDropKey, length_leBytes, if_true, hcount, Option.getD_some]

end Collector

namespace DashboardLoop
open Collector Dashboard

/-- Where `collect` is: before the maps are loaded and the programs attached, at
the loop's condition, inside `poll`, before the dropped counter is raised, before
`warn_on_drops`, before `refresh_latency`, behind the loop, or left through an error. -/
inductive CollectPc where
  | setup | check | poll | raise | warn | refresh | done | failed
  deriving DecidableEq

/-- `consumed` only records what happened: the records that the callback got. -/
structure Collecting where
  pc : CollectPc
  maps : Bpf.Maps
  shared : Shared
  dropsSeen : UInt64 × UInt64
  consumed : ℕ

inductive CollectEvent where
  | ready
  | check
  | deliver
  | endPoll
  | raise
  | warn (found : Bool)
  | refresh
  | fail

/-- One step of `collect`. A poll hands over any number of pending records. The
dashboard attaches no program that writes to the histograms, so they are read at
once. -/
def Collecting.step (off : UInt64) (running : Bool) (c : Collecting) :
    CollectEvent → Option Collecting
  | .ready => if c.pc = .setup then some { c with pc := .check } else none
  | .check => if c.pc = .check then some { c with pc := if running then .poll else .done } else none
  | .deliver =>
    match c.maps.events with
    | [] => none
    | record :: rest =>
      if c.pc = .poll then some { c with
        maps := { c.maps with events := rest }
        shared := c.shared.receive record off
        consumed := c.consumed + 1 }
      else none
  | .endPoll => if c.pc = .poll then some { c with pc := .raise } else none
  -- the total that is raised is the one that the turn before has read
  | .raise =>
    if c.pc = .raise then some { c with
      pc := .warn
      shared := c.shared.raiseDropped (c.dropsSeen.1 + c.dropsSeen.2) }
    else none
  -- the error of `warn_on_drops` is ignored, and what was seen stays as it was
  | .warn found =>
    let ringbuf := if found then lookupDrops c.maps.drops 0 else none
    let latency := if found then lookupDrops c.maps.drops 1 else none
    if c.pc = .warn then some { c with
      pc := .refresh
      dropsSeen := (warnOnDrops ringbuf latency c.dropsSeen).getD c.dropsSeen }
    else none
  | .refresh =>
    if c.pc = .refresh then some { c with
      pc := .check
      shared := refreshLatency c.shared c.maps.latencyHist }
    else none
  | .fail => if c.pc = .setup ∨ c.pc = .poll then some { c with pc := .failed } else none

/-- Where `event_loop` is: at `RUNNING`, inside `event::poll`, before the clock is
compared, or before one of the two draws. -/
inductive UiPc where
  | check
  | wait
  | due
  | keyDraw (action : KeyAction)
  | dueDraw
  | returned
  deriving DecidableEq

structure Looping (S : Type) where
  pc : UiPc
  ui : Ui S
  last : ℤ

structure HashOrders where
  processes : ∀ m : Finmap (fun _ : UInt32 => String × UInt64), MapOrder m
  byEvent : ∀ m : Finmap (fun _ : String => UInt64), MapOrder m

/-- `idle` is a poll without an event, or with one that is not a key. -/
inductive UiEvent where
  | check
  | key (key : KeyEvent)
  | idle
  | due
  | draw (orders : HashOrders)
  | fail

def second : ℕ := 1000000000

section

variable {S : Type} (lib : ListWidget S)

def Looping.handle (u : Looping S) (now : ℕ) (action : KeyAction) : Looping S :=
  if action = .none then { u with pc := .due }
  else
    let u := { u with ui := u.ui.apply lib action, last := (now : ℤ) }
    if action = .quit then { u with pc := .returned } else { u with pc := .keyDraw action }

def Looping.step (running : Bool) (now : ℕ) (u : Looping S) : UiEvent → Option (Looping S)
  | .check =>
    if u.pc = .check then some { u with pc := if running then .wait else .returned } else none
  | .key key => if u.pc = .wait then some (u.handle lib now (keyAction key)) else none
  | .idle => if u.pc = .wait then some { u with pc := .due } else none
  | .due =>
    if u.pc = .due then
      if !u.ui.paused && decide (u.last + second ≤ now) then
        some { u with pc := .dueDraw, last := now }
      else some { u with pc := .check }
    else none
  | .draw _ =>
    match u.pc with
    | .keyDraw _ | .dueDraw => some { u with pc := .check }
    | .check | .wait | .due | .returned => none
  | .fail =>
    match u.pc with
    | .wait | .keyDraw _ | .dueDraw => some { u with pc := .returned }
    | .check | .due | .returned => none

/-- `now` is the monotonic clock. A step holds the mutex at most once, and the mutex is
never poisoned. -/
structure State (S : Type) where
  running : Bool
  now : ℕ
  collector : Collecting
  screen : Looping S

inductive Event where
  | fire (record : Option (List UInt8))
  | signal
  | pass (ns : ℕ)
  | collect (e : CollectEvent)
  | ui (e : UiEvent)

def State.start (filter : ArrayMap Bpf.FilterConfig 1) (started now : ℕ) : State S where
  running := true
  now := now
  collector :=
    { pc := .setup
      maps := { Bpf.Maps.fresh with filterMap := filter }
      shared := { started := some started }
      dropsSeen := (0, 0)
      consumed := 0 }
  screen := { pc := .check, ui := .new lib, last := now - 2 * second }

def step (off : UInt64) (s : State S) : Event → Option (State S)
  | .fire record =>
    some { s with collector := { s.collector with maps := Bpf.fire s.collector.maps record } }
  | .signal => some { s with running := false }
  | .pass ns => some { s with now := s.now + ns }
  | .collect e => (s.collector.step off s.running e).map fun c => { s with collector := c }
  | .ui e => (s.screen.step lib s.running s.now e).map fun u => { s with screen := u }

structure Frame (S : Type) where
  snap : Snapshot
  ui : Ui S

def frames (s : State S) : Event → List (Frame S)
  | .ui (.draw orders) =>
    [{ snap := Snapshot.take s.collector.shared s.now (orders.processes _) (orders.byEvent _)
       ui := s.screen.ui }]
  | _ => []

variable {lib}

theorem collect_cases {off : UInt64} {running : Bool} {c c' : Collecting} {e : CollectEvent}
    (h : c.step off running e = some c') :
    (e = .ready ∧ c.pc = .setup ∧ c' = { c with pc := .check }) ∨
      (e = .check ∧ c.pc = .check ∧ c' = { c with pc := if running then .poll else .done }) ∨
      (e = .deliver ∧ ∃ record rest, c.maps.events = record :: rest ∧ c.pc = .poll ∧ c' = { c with
        maps := { c.maps with events := rest }
        shared := c.shared.receive record off
        consumed := c.consumed + 1 }) ∨
      (e = .endPoll ∧ c.pc = .poll ∧ c' = { c with pc := .raise }) ∨
      (e = .raise ∧ c.pc = .raise ∧ c' = { c with
        pc := .warn
        shared := c.shared.raiseDropped (c.dropsSeen.1 + c.dropsSeen.2) }) ∨
      (∃ ringbuf latency,
        (ringbuf = lookupDrops c.maps.drops 0 ∧ latency = lookupDrops c.maps.drops 1 ∨
          ringbuf = none ∧ latency = none) ∧
        (∃ found, e = .warn found) ∧ c.pc = .warn ∧ c' = { c with
          pc := .refresh
          dropsSeen := (warnOnDrops ringbuf latency c.dropsSeen).getD c.dropsSeen }) ∨
      (e = .refresh ∧ c.pc = .refresh ∧ c' = { c with
        pc := .check
        shared := refreshLatency c.shared c.maps.latencyHist }) ∨
      (e = .fail ∧ (c.pc = .setup ∨ c.pc = .poll) ∧ c' = { c with pc := .failed }) := by
  cases e with
  | ready | check | endPoll | raise | refresh | fail =>
    simp only [Collecting.step, Option.ite_none_right_eq_some, Option.some.injEq] at h
    simp [h.1, h.2]
  | deliver =>
    cases hevents : c.maps.events with
    | nil => simp [Collecting.step, hevents] at h
    | cons record rest =>
      simp only [Collecting.step, hevents, Option.ite_none_right_eq_some, Option.some.injEq] at h
      exact .inr (.inr (.inl ⟨rfl, record, rest, rfl, h.1, h.2.symm⟩))
  | warn found =>
    simp only [Collecting.step, Option.ite_none_right_eq_some, Option.some.injEq] at h
    refine .inr (.inr (.inr (.inr (.inr (.inl ⟨_, _, ?_, ⟨found, rfl⟩, h.1, h.2.symm⟩)))))
    cases found
    · exact .inr ⟨rfl, rfl⟩
    · exact .inl ⟨rfl, rfl⟩

theorem handle_cases (lib : ListWidget S) (u : Looping S) (now : ℕ) (action : KeyAction) :
    (action = .none ∧ u.handle lib now action = { u with pc := .due }) ∨
      (action = .quit ∧ u.handle lib now action = { u with pc := .returned, last := now }) ∨
      (action ≠ .none ∧ action ≠ .quit ∧ u.handle lib now action =
        { pc := .keyDraw action, ui := u.ui.apply lib action, last := now }) := by
  by_cases hnone : action = .none
  · exact .inl ⟨hnone, if_pos hnone⟩
  by_cases hquit : action = .quit
  · subst hquit
    exact .inr (.inl ⟨rfl, rfl⟩)
  · exact .inr (.inr ⟨hnone, hquit, by simp only [Looping.handle, hnone, hquit, if_false]⟩)

theorem ui_cases {running : Bool} {now : ℕ} {u u' : Looping S} {e : UiEvent}
    (h : u.step lib running now e = some u') :
    (e = .check ∧ u.pc = .check ∧ u' = { u with pc := if running then .wait else .returned }) ∨
      (∃ key, e = .key key ∧ u.pc = .wait ∧ u' = u.handle lib now (keyAction key)) ∨
      (e = .idle ∧ u.pc = .wait ∧ u' = { u with pc := .due }) ∨
      (e = .due ∧ u.pc = .due ∧
        ((u.ui.paused = false ∧ u.last + second ≤ now) ∧
          u' = { u with pc := .dueDraw, last := now } ∨
          ¬(u.ui.paused = false ∧ u.last + second ≤ now) ∧ u' = { u with pc := .check })) ∨
      (∃ orders, e = .draw orders ∧ ((∃ action, u.pc = .keyDraw action) ∨ u.pc = .dueDraw) ∧
        u' = { u with pc := .check }) ∨
      (e = .fail ∧ (u.pc = .wait ∨ (∃ action, u.pc = .keyDraw action) ∨ u.pc = .dueDraw) ∧
        u' = { u with pc := .returned }) := by
  cases e with
  | check | key | idle =>
    simp only [Looping.step, Option.ite_none_right_eq_some, Option.some.injEq] at h
    simp [h.1, h.2]
  | due =>
    simp only [Looping.step, Option.ite_none_right_eq_some] at h
    obtain ⟨hpc, heq⟩ := h
    refine .inr (.inr (.inr (.inl ⟨rfl, hpc, ?_⟩)))
    simp only [Bool.and_eq_true, Bool.not_eq_true', decide_eq_true_eq] at heq
    split_ifs at heq with hdue
    · exact .inl ⟨hdue, (Option.some.inj heq).symm⟩
    · exact .inr ⟨hdue, (Option.some.inj heq).symm⟩
  -- a frame is drawn behind a key or behind the clock, nowhere else
  | draw orders =>
    refine .inr (.inr (.inr (.inr (.inl ⟨orders, rfl, ?_⟩))))
    cases hpc : u.pc with
    | check | wait | due | returned => simp [Looping.step, hpc] at h
    | keyDraw action =>
      simp only [Looping.step, hpc, Option.some.injEq] at h
      exact ⟨.inl ⟨action, rfl⟩, h.symm⟩
    | dueDraw =>
      simp only [Looping.step, hpc, Option.some.injEq] at h
      exact ⟨.inr rfl, h.symm⟩
  | fail =>
    refine .inr (.inr (.inr (.inr (.inr ⟨rfl, ?_⟩))))
    cases hpc : u.pc with
    | check | due | returned => simp [Looping.step, hpc] at h
    | wait =>
      simp only [Looping.step, hpc, Option.some.injEq] at h
      exact ⟨.inl rfl, h.symm⟩
    | keyDraw action =>
      simp only [Looping.step, hpc, Option.some.injEq] at h
      exact ⟨.inr (.inl ⟨action, rfl⟩), h.symm⟩
    | dueDraw =>
      simp only [Looping.step, hpc, Option.some.injEq] at h
      exact ⟨.inr (.inr rfl), h.symm⟩

theorem step_collect {off : UInt64} {s s' : State S} {e : CollectEvent}
    (h : step lib off s (.collect e) = some s') :
    ∃ c, s.collector.step off s.running e = some c ∧ s' = { s with collector := c } := by
  simp only [step, Option.map_eq_some_iff] at h
  obtain ⟨c, hc, rfl⟩ := h
  exact ⟨c, hc, rfl⟩

theorem step_ui {off : UInt64} {s s' : State S} {e : UiEvent}
    (h : step lib off s (.ui e) = some s') :
    ∃ u, s.screen.step lib s.running s.now e = some u ∧ s' = { s with screen := u } := by
  simp only [step, Option.map_eq_some_iff] at h
  obtain ⟨u, hu, rfl⟩ := h
  exact ⟨u, hu, rfl⟩

end

end DashboardLoop

end Tracelet
