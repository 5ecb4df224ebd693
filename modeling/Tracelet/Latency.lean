import Tracelet.Hist
import Tracelet.TransitionRun

namespace Tracelet
open KernelMap TransitionRun

namespace Bpf

def syscallEnterWith (admitted : Bool) (m : Maps) (key ts : UInt64) : Maps :=
  if ¬ admitted then m
  else
    match m.latencyStart.update key ts with
    | some started => { m with latencyStart := started }
    | none => countDrop m dropKeyLatency

def syscallEnter (m : Maps) (task : Task) (now : UInt64) : Maps :=
  syscallEnterWith (allowed m task) m task.pidTgid now

def syscallExit (m : Maps) (key now : UInt64) (syscall : UInt32) : Maps :=
  match m.latencyStart.lookup key with
  | none => m
  | some start =>
    { m with
      latencyStart := m.latencyStart.delete key
      latencyHist := recordSample m.latencyHist syscall (now - start) }

end Bpf

namespace Latency
open Bpf

inductive Program where
  | enter (syscall : SyscallKind)
  | exit (syscall : SyscallKind)
  deriving DecidableEq

def selected : Option SyscallKind → List SyscallKind
  | some kind => [kind]
  | none => [.read, .write, .openat]

/-- The programs of `attach`, in the order in which it attaches them. -/
def attach (kinds : List SyscallKind) : List Program := kinds.flatMap fun k => [.enter k, .exit k]

/-- A thread is known by its `bpf_get_current_pid_tgid()`. -/
abbrev Thread := UInt64

/-- A call in progress. `stored` says that its own enter program stored the
start time, `inherited` that it did not but found an entry of its thread. -/
structure Call where
  id : ℕ
  syscall : SyscallKind
  start : UInt64
  stored : Bool
  inherited : Bool

/-- A sample: the call whose exit added it, and the call whose enter stored
the start time it used. -/
structure Sample where
  call : ℕ
  owner : Option ℕ
  syscall : SyscallKind
  delta : UInt64
  deriving DecidableEq

/-- All programs share one start map, keyed by thread only. The last five fields only
record what happened. -/
structure System where
  pending : List Program
  attached : List Program
  clock : UInt64
  maps : Maps
  inside : Thread → Option Call
  calls : ℕ
  owner : Thread → Option ℕ
  samples : List Sample
  completed : List (SyscallKind × ℕ)
  refused : ℕ

inductive Event where
  | attach
  | enter (t : Thread) (k : SyscallKind) (now : UInt64) (admitted : Bool)
  | exit (t : Thread) (now : UInt64)

/-- Empty maps; some threads may already be inside a call, which then has the id `0`. -/
def System.start (pending attached : List Program) (filter : ArrayMap Bpf.FilterConfig 1)
    (clock : UInt64) (busy : Thread → Option SyscallKind) : System where
  pending := pending
  attached := attached
  clock := clock
  maps := { Maps.fresh with filterMap := filter }
  inside t := (busy t).map fun k => ⟨0, k, clock, false, false⟩
  calls := 0
  owner _ := none
  samples := []
  completed := []
  refused := 0

/-- The enter program of `k` runs and passes the filter. -/
def System.admits (s : System) (k : SyscallKind) (admitted : Bool) : Bool :=
  decide (Program.enter k ∈ s.attached) && admitted

def System.stores (s : System) (t : Thread) (k : SyscallKind) (now : UInt64) (admitted : Bool) :
    Bool :=
  s.admits k admitted && (s.maps.latencyStart.update t now).isSome

def System.enter (s : System) (t : Thread) (k : SyscallKind) (now : UInt64) (admitted : Bool) :
    System :=
  let stored := s.stores t k now admitted
  { s with
    clock := now
    maps := if Program.enter k ∈ s.attached then syscallEnterWith admitted s.maps t now else s.maps
    inside := Function.update s.inside t (some
      { id := s.calls + 1, syscall := k, start := now, stored := stored
        inherited := !stored && (s.maps.latencyStart.lookup t).isSome })
    calls := s.calls + 1
    owner := if stored then Function.update s.owner t (some (s.calls + 1)) else s.owner
    refused := if s.admits k admitted && !stored then s.refused + 1 else s.refused }

def System.exit (s : System) (t : Thread) (c : Call) (now : UInt64) : System :=
  let fires := Program.exit c.syscall ∈ s.attached
  { s with
    clock := now
    maps := if fires then syscallExit s.maps t now c.syscall.index else s.maps
    inside := Function.update s.inside t none
    owner := if fires then Function.update s.owner t none else s.owner
    samples :=
      match s.maps.latencyStart.lookup t with
      | some start =>
        if fires then s.samples ++ [⟨c.id, s.owner t, c.syscall, now - start⟩] else s.samples
      | none => s.samples
    completed :=
      if c.stored then s.completed ++ [(c.syscall, now.toNat - c.start.toNat)] else s.completed }

/-- One step. The clock does not go backwards, and each thread leaves a call
before it enters the next one. -/
def step (s : System) : Event → Option System
  | .attach =>
    match s.pending with
    | [] => none
    | p :: ps => some { s with pending := ps, attached := p :: s.attached }
  | .enter t k now admitted =>
    if now < s.clock ∨ (s.inside t).isSome then none else some (s.enter t k now admitted)
  | .exit t now =>
    match s.inside t with
    | none => none
    | some c => if now < s.clock then none else some (s.exit t c now)

/-- The three outcomes of entering a call. -/
theorem enter_cases (s : System) (t : Thread) (k : SyscallKind) (now : UInt64) (admitted : Bool) :
    (s.admits k admitted = false ∧ s.stores t k now admitted = false ∧
      (s.enter t k now admitted).maps = s.maps) ∨
    (s.admits k admitted = true ∧ s.stores t k now admitted = true ∧
      ∃ started, s.maps.latencyStart.update t now = some started ∧
        (s.enter t k now admitted).maps = { s.maps with latencyStart := started }) ∨
    (s.admits k admitted = true ∧ s.stores t k now admitted = false ∧
      s.maps.latencyStart.update t now = none ∧
      (s.enter t k now admitted).maps = countDrop s.maps dropKeyLatency) := by
  by_cases ha : Program.enter k ∈ s.attached ∧ admitted = true
  · obtain ⟨hk, rfl⟩ := ha
    cases hu : s.maps.latencyStart.update t now with
    | some started =>
      have hadmits : s.admits k true = true := by simp [System.admits, hk]
      refine .inr (.inl ⟨hadmits, by simp [System.stores, hadmits, hu], started, rfl, ?_⟩)
      simp [System.enter, hk, syscallEnterWith, hu]
    | none =>
      refine .inr (.inr ⟨by simp [System.admits, hk], by simp [System.stores, hu], rfl, ?_⟩)
      simp [System.enter, hk, syscallEnterWith, hu]
  · have hadmits : s.admits k admitted = false := by
      simpa [System.admits] using ha
    refine .inl ⟨hadmits, by simp [System.stores, hadmits], ?_⟩
    by_cases hk : Program.enter k ∈ s.attached
    · simp [System.enter, syscallEnterWith, hk, show admitted = false by simpa [hk] using ha]
    · simp [System.enter, hk]

/-- The three outcomes of leaving a call. -/
theorem exit_cases (s : System) (t : Thread) (c : Call) (now : UInt64) :
    (Program.exit c.syscall ∉ s.attached ∧ (s.exit t c now).maps = s.maps ∧
      (s.exit t c now).samples = s.samples ∧ (s.exit t c now).owner = s.owner) ∨
    (Program.exit c.syscall ∈ s.attached ∧ s.maps.latencyStart.lookup t = none ∧
      (s.exit t c now).maps = s.maps ∧ (s.exit t c now).samples = s.samples ∧
      (s.exit t c now).owner = Function.update s.owner t none) ∨
    (Program.exit c.syscall ∈ s.attached ∧ ∃ start, s.maps.latencyStart.lookup t = some start ∧
      (s.exit t c now).maps = { s.maps with
        latencyStart := s.maps.latencyStart.delete t
        latencyHist := recordSample s.maps.latencyHist c.syscall.index (now - start) } ∧
      (s.exit t c now).samples = s.samples ++ [⟨c.id, s.owner t, c.syscall, now - start⟩] ∧
      (s.exit t c now).owner = Function.update s.owner t none) := by
  by_cases hk : Program.exit c.syscall ∈ s.attached
  · cases hl : s.maps.latencyStart.lookup t with
    | none => simp [System.exit, hk, hl, syscallExit]
    | some start => simp [System.exit, hk, hl, syscallExit]
  · refine .inl ⟨hk, by simp [System.exit, hk], ?_, by simp [System.exit, hk]⟩
    cases hl : s.maps.latencyStart.lookup t <;> simp [System.exit, hk, hl]

section Frame

variable (s : System) (t u : Thread) (k : SyscallKind) (now : UInt64) (admitted : Bool) (c : Call)

theorem inside_enter :
    (s.enter t k now admitted).inside u =
      if u = t then some
        { id := s.calls + 1, syscall := k, start := now, stored := s.stores t k now admitted
          inherited := !s.stores t k now admitted && (s.maps.latencyStart.lookup t).isSome }
      else s.inside u :=
  Function.update_apply _ _ _ _

theorem inside_enter_cases {d : Call} (h : (s.enter t k now admitted).inside u = some d) :
    (u = t ∧ d =
      { id := s.calls + 1, syscall := k, start := now, stored := s.stores t k now admitted
        inherited := !s.stores t k now admitted && (s.maps.latencyStart.lookup t).isSome }) ∨
    (u ≠ t ∧ s.inside u = some d) := by
  rw [inside_enter] at h
  by_cases hut : u = t
  · rw [if_pos hut] at h
    exact .inl ⟨hut, (Option.some.inj h).symm⟩
  · rw [if_neg hut] at h
    exact .inr ⟨hut, h⟩

theorem lookup_enter :
    (s.enter t k now admitted).maps.latencyStart.lookup u =
      if u = t ∧ s.stores t k now admitted = true then some now
      else s.maps.latencyStart.lookup u := by
  rcases enter_cases s t k now admitted with ⟨-, hs, hm⟩ | ⟨-, hs, started, hu, hm⟩ | ⟨-, hs, -, hm⟩
  · simp [hm, hs]
  · simp [hm, hs, BoundedMap.lookup_update hu]
  · simp [hm, hs, countDrop]

theorem owner_enter :
    (s.enter t k now admitted).owner u =
      if u = t ∧ s.stores t k now admitted = true then some (s.calls + 1) else s.owner u := by
  by_cases hs : s.stores t k now admitted = true
  · simp [System.enter, hs, Function.update_apply]
  · simp [System.enter, hs]

theorem inside_exit : (s.exit t c now).inside u = if u = t then none else s.inside u :=
  Function.update_apply _ _ _ _

theorem inside_exit_cases {d : Call} (h : (s.exit t c now).inside u = some d) :
    u ≠ t ∧ s.inside u = some d := by
  rw [inside_exit] at h
  split_ifs at h with hut
  exact ⟨hut, h⟩

theorem lookup_exit :
    (s.exit t c now).maps.latencyStart.lookup u =
      if u = t ∧ Program.exit c.syscall ∈ s.attached then none
      else s.maps.latencyStart.lookup u := by
  rcases exit_cases s t c now with ⟨hx, hm, -⟩ | ⟨hx, hl, hm, -⟩ | ⟨hx, start, -, hm, -⟩
  · simp [hm, hx]
  · by_cases hut : u = t
    · simp [hm, hut, hl]
    · simp [hm, hut]
  · simp [hm, hx, BoundedMap.lookup_delete]

theorem owner_exit :
    (s.exit t c now).owner u =
      if u = t ∧ Program.exit c.syscall ∈ s.attached then none else s.owner u := by
  by_cases hx : Program.exit c.syscall ∈ s.attached
  · simp [System.exit, hx, Function.update_apply]
  · simp [System.exit, hx]

end Frame

theorem step_cases {s s' : System} {e : Event} (h : step s e = some s') :
    (e = .attach ∧ ∃ p ps, s.pending = p :: ps ∧
      s' = { s with pending := ps, attached := p :: s.attached }) ∨
    (∃ t k now admitted, e = .enter t k now admitted ∧ s.clock ≤ now ∧ s.inside t = none ∧
      s' = s.enter t k now admitted) ∨
    ∃ t c now, e = .exit t now ∧ s.clock ≤ now ∧ s.inside t = some c ∧ s' = s.exit t c now := by
  cases e with
  | attach =>
    cases hp : s.pending with
    | nil => simp [step, hp] at h
    | cons p ps => exact .inl ⟨rfl, p, ps, rfl, by simpa [step, hp] using h.symm⟩
  | enter t k now admitted =>
    by_cases hg : now < s.clock ∨ (s.inside t).isSome
    · simp [step, hg] at h
    · rw [step, if_neg hg] at h
      rw [not_or, UInt64.not_lt, Option.not_isSome_iff_eq_none] at hg
      exact .inr (.inl ⟨t, k, now, admitted, rfl, hg.1, hg.2, (Option.some.inj h).symm⟩)
  | exit t now =>
    cases hc : s.inside t with
    | none => simp [step, hc] at h
    | some c =>
      by_cases hg : now < s.clock
      · simp [step, hc, hg] at h
      · simp only [step, hc, hg, if_false] at h
        exact .inr (.inr ⟨t, c, now, rfl, UInt64.not_lt.mp hg, hc, (Option.some.inj h).symm⟩)

end Latency

end Tracelet
