import Tracelet.LatencyLoop
import Tracelet.Pairing
import Tracelet.Session

namespace Tracelet
open KernelMap TransitionRun

namespace LatencySession
open Bpf LatencyLoop
open Tracelet.Filter (FilterArgs Asked configure)
open Latency (Thread Program System Sample)
open Session (filterOf)

/-- A parsed command line: an option's value holds no NUL, and `--pid` takes at
least one. -/
structure Options where
  args : FilterArgs
  syscall : Option SyscallKind
  pid_ne_nil : args.pid ≠ some []
  comm_noNul : ∀ comm, args.comm = some comm → 0 ∉ RustText.asBytes comm

/-- An exit program that has taken its sample, and its next access. -/
structure Handler where
  syscall : SyscallKind
  delta : UInt64
  pc : ExitRace.Pc

def Handler.update (h : Handler) : Option Update :=
  match h.pc with
  | .addCount => some (.addCount h.syscall h.delta)
  | .addSum => some (.addSum h.syscall h.delta)
  | .storeMax => some (.storeMax h.syscall h.delta)
  | .loadMax | .done => none

def Handler.next (hist : LatencyHist) (h : Handler) : Handler :=
  match h.pc with
  | .addCount => { h with pc := .addSum }
  | .addSum => { h with pc := .loadMax }
  | .loadMax =>
    { h with pc := if h.delta > slotAt hist h.syscall (histSlots + 1) then .storeMax else .done }
  | .storeMax | .done => { h with pc := .done }

def starts (s : System) (t : Thread) (now : UInt64) : List Handler :=
  match s.inside t, s.maps.latencyStart.lookup t with
  | some c, some start =>
    if Program.exit c.syscall ∈ s.attached then [⟨c.syscall, now - start, .addCount⟩] else []
  | _, _ => []

inductive Phase where
  | loaded | attaching | looping
  deriving DecidableEq

/-- The histogram and the drop counters are those of the loop. In its own ones the
system keeps what they would be if each exit program were done at once. The field
`watch` only records when a call began that is asked for and has a start time. -/
structure State where
  phase : Phase
  system : System
  watch : Thread → Option UInt64
  handlers : List Handler
  loop : LatencyLoop.State

inductive Event where
  | setup
  | enter (task : Task) (k : SyscallKind) (now : UInt64)
  | exit (t : Thread) (now : UInt64)
  | access (i : ℕ)
  | loop (e : LatencyLoop.Event)

def State.start (o : Options) (clock : UInt64) (busy : Thread → Option SyscallKind) : State where
  phase := .loaded
  system := .start (Latency.attach (Latency.selected o.syscall)) [] Maps.fresh.filterMap clock busy
  watch := fun _ => none
  handlers := []
  loop := .start

/-- The counters change through the programs. The loop takes its own steps once
everything is set up; a signal may come before. -/
def takes (phase : Phase) : LatencyLoop.Event → Bool
  | .update _ | .drop => false
  | .signal => true
  | .check .. | .lookup | .print | .warn | .fail => decide (phase = .looping)

def refuses (s : System) (task : Task) (k : SyscallKind) (now : UInt64) : Bool :=
  s.admits k (allowed s.maps task) && !s.stores task.pidTgid k now (allowed s.maps task)

/-- The call is asked for, its enter program is attached, and there is room for its
start time. -/
def State.watches (o : Options) (s : State) (task : Task) (k : SyscallKind) (now : UInt64) : Bool :=
  decide (Program.enter k ∈ s.system.attached) && decide (Asked o.args task) &&
    (s.system.maps.latencyStart.update task.pidTgid now).isSome

def step (o : Options) (cfg : Tracelet.FilterConfig) (s : State) : Event → Option State
  | .setup =>
    match s.phase with
    | .loaded => some { s with
        phase := .attaching
        system := { s.system with maps := configure s.system.maps cfg } }
    | .attaching =>
      match Latency.step s.system .attach with
      | some system => some { s with system := system }
      -- no program is left to attach
      | none => some { s with phase := .looping }
    | .looping => none
  | .enter task k now =>
    (Latency.step s.system (.enter task.pidTgid k now (allowed s.system.maps task))).map
      fun system =>
      { s with
        system := system
        watch :=
          Function.update s.watch task.pidTgid (if s.watches o task k now then some now else none)
        loop :=
          if refuses s.system task k now then
            { s.loop with drops := ArrayMap.modify s.loop.drops dropKeyLatency (· + 1) }
          else s.loop }
  | .exit t now =>
    (Latency.step s.system (.exit t now)).map fun system =>
      { s with
        system := system
        watch := Function.update s.watch t none
        handlers := s.handlers ++ starts s.system t now }
  -- one of the four accesses that a handler makes to the histogram
  | .access i =>
    match s.handlers[i]? with
    | none => none
    | some h =>
      if h.pc = .done then none
      else some { s with
        handlers := s.handlers.set i (h.next s.loop.hist)
        loop := h.update.elim s.loop fun u =>
          { s.loop with hist := u.apply s.loop.hist, counted := s.loop.counted ++ u.counts } }
  | .loop e =>
    if takes s.phase e then (LatencyLoop.step s.loop e).map fun loop => { s with loop := loop }
    else none

/-- The calls that were asked for and whose exit program found them: how long they took. -/
def measured (s : State) : Event → List (SyscallKind × ℕ)
  | .exit t now =>
    match s.system.inside t, s.watch t with
    | some c, some start =>
      if Program.exit c.syscall ∈ s.system.attached then
        [(c.syscall, now.toNat - start.toNat)]
      else []
    | _, _ => []
  | .setup | .enter .. | .access _ | .loop _ => []

/-- The calls that were asked for and had no room in the start map. -/
def refused (o : Options) (s : State) : Event → List Task
  | .enter task k now =>
    if Program.enter k ∈ s.system.attached ∧ Asked o.args task ∧
        s.system.maps.latencyStart.update task.pidTgid now = none then [task]
    else []
  | .setup | .exit .. | .access _ | .loop _ => []

/-- The step is not the seen exit of a call that found the start time of another one. -/
def NothingInherited (s : State) (e : Event) : Prop :=
  ∀ t now, e = .exit t now → Latency.InheritsNothing s.system (.exit t now)

theorem nothingInherited_exit_iff {s : State} {t : Thread} {now : UInt64} :
    NothingInherited s (.exit t now) ↔ Latency.InheritsNothing s.system (.exit t now) := by
  constructor
  · exact fun h => h t now rfl
  · intro h t' now' he
    injection he with ht hnow
    rw [← ht, ← hnow]
    exact h

instance decidableNothingInherited (s : State) (e : Event) : Decidable (NothingInherited s e) :=
  match e with
  | .setup | .enter .. | .access _ | .loop _ => isTrue fun _ _ he => Event.noConfusion he
  | .exit .. => decidable_of_iff _ nothingInherited_exit_iff.symm

def read (s : State) : Event → List Reading
  | .loop e => readings s.loop e
  | .setup | .enter .. | .exit .. | .access _ => []

def trace (s : State) : Event → List LatencyLoop.Event
  | .setup | .exit .. => []
  | .enter task k now => if refuses s.system task k now then [.drop] else []
  | .access i => ((s.handlers[i]?.bind Handler.update).map LatencyLoop.Event.update).toList
  | .loop e => [e]

section Cases

variable {o : Options} {cfg : Tracelet.FilterConfig} {s s' : State}

theorem setup_cases (h : step o cfg s .setup = some s') :
    (s.phase = .loaded ∧ s' = { s with
        phase := .attaching
        system := { s.system with maps := configure s.system.maps cfg } }) ∨
      (∃ p ps, s.phase = .attaching ∧ s.system.pending = p :: ps ∧ s' = { s with
        system := { s.system with pending := ps, attached := p :: s.system.attached } }) ∨
      (s.phase = .attaching ∧ s.system.pending = [] ∧ s' = { s with phase := .looping }) := by
  cases hphase : s.phase with
  | loaded => exact .inl ⟨rfl, by simpa [step, hphase] using h.symm⟩
  | attaching =>
    cases hpending : s.system.pending with
    | nil =>
      exact .inr (.inr ⟨rfl, rfl, by simpa [step, hphase, Latency.step, hpending] using h.symm⟩)
    | cons p ps =>
      exact .inr
        (.inl ⟨p, ps, rfl, rfl, by simpa [step, hphase, Latency.step, hpending] using h.symm⟩)
  | looping => simp [step, hphase] at h

theorem enter_cases {task : Task} {k : SyscallKind} {now : UInt64}
    (h : step o cfg s (.enter task k now) = some s') :
    s.system.clock ≤ now ∧ s.system.inside task.pidTgid = none ∧ s' = { s with
      system := s.system.enter task.pidTgid k now (allowed s.system.maps task)
      watch :=
        Function.update s.watch task.pidTgid (if s.watches o task k now then some now else none)
      loop :=
        if refuses s.system task k now then
          { s.loop with drops := ArrayMap.modify s.loop.drops dropKeyLatency (· + 1) }
        else s.loop } := by
  simp only [step, Option.map_eq_some_iff] at h
  obtain ⟨system, hsystem, rfl⟩ := h
  obtain ⟨he, -⟩ | ⟨t, k', now', admitted, he, hclock, hfree, rfl⟩ | ⟨t, c, now', he, -⟩ :=
    Latency.step_cases hsystem
  · cases he
  · cases he
    exact ⟨hclock, hfree, rfl⟩
  · cases he

theorem exit_cases {t : Thread} {now : UInt64} (h : step o cfg s (.exit t now) = some s') :
    ∃ c, s.system.inside t = some c ∧ s.system.clock ≤ now ∧ s' = { s with
      system := s.system.exit t c now
      watch := Function.update s.watch t none
      handlers := s.handlers ++ starts s.system t now } := by
  simp only [step, Option.map_eq_some_iff] at h
  obtain ⟨system, hsystem, rfl⟩ := h
  obtain ⟨he, -⟩ | ⟨t, k', now', admitted, he, -⟩ | ⟨t', c, now', he, hclock, hc, rfl⟩ :=
    Latency.step_cases hsystem
  · cases he
  · cases he
  · cases he
    exact ⟨c, hc, hclock, rfl⟩

theorem access_cases {i : ℕ} (h : step o cfg s (.access i) = some s') :
    ∃ handler, s.handlers[i]? = some handler ∧ handler.pc ≠ .done ∧ s' = { s with
      handlers := s.handlers.set i (handler.next s.loop.hist)
      loop := handler.update.elim s.loop fun u =>
        { s.loop with hist := u.apply s.loop.hist, counted := s.loop.counted ++ u.counts } } := by
  cases hi : s.handlers[i]? with
  | none => simp [step, hi] at h
  | some handler =>
    simp only [step, hi, Option.ite_none_left_eq_some, Option.some.injEq] at h
    exact ⟨handler, rfl, h.1, h.2.symm⟩

theorem loop_cases {e : LatencyLoop.Event} (h : step o cfg s (.loop e) = some s') :
    takes s.phase e = true ∧ ∃ loop, LatencyLoop.step s.loop e = some loop ∧
      s' = { s with loop := loop } := by
  simp only [step, Option.ite_none_right_eq_some, Option.map_eq_some_iff] at h
  obtain ⟨htakes, loop, hloop, rfl⟩ := h
  exact ⟨htakes, loop, hloop, rfl⟩

/-- A step is a run of the loop inside. -/
theorem step_simulates {e : Event} (h : step o cfg s e = some s') :
    run LatencyLoop.step s.loop (trace s e) = some s'.loop ∧
      read s e = outputs LatencyLoop.step readings s.loop (trace s e) := by
  cases e with
  | setup =>
    obtain ⟨-, rfl⟩ | ⟨p, ps, -, -, rfl⟩ | ⟨-, -, rfl⟩ := setup_cases h
    · exact ⟨rfl, rfl⟩
    · exact ⟨rfl, rfl⟩
    · exact ⟨rfl, rfl⟩
  | enter task k now =>
    obtain ⟨-, -, rfl⟩ := enter_cases h
    by_cases hrefuses : refuses s.system task k now = true
    · rw [trace, if_pos hrefuses, if_pos hrefuses]
      exact ⟨rfl, rfl⟩
    · rw [trace, if_neg hrefuses, if_neg hrefuses]
      exact ⟨rfl, rfl⟩
  | exit t now =>
    obtain ⟨c, -, -, rfl⟩ := exit_cases h
    exact ⟨rfl, rfl⟩
  | access i =>
    obtain ⟨handler, hi, -, rfl⟩ := access_cases h
    rw [trace, hi, Option.bind_some]
    cases handler.update <;> exact ⟨rfl, rfl⟩
  | loop e =>
    obtain ⟨-, loop, hloop, rfl⟩ := loop_cases h
    refine ⟨run_cons_eq_some.mpr ⟨loop, hloop, rfl⟩, ?_⟩
    simp only [trace, read, outputs, hloop, Option.elim_some, List.append_nil]

end Cases

structure Ready (o : Options) (cfg : Tracelet.FilterConfig) (s : State) : Prop where
  loaded : s.phase = .loaded →
    s.system.attached = [] ∧ s.system.maps.filterMap = Maps.fresh.filterMap
  filter : s.phase ≠ .loaded → s.system.maps.filterMap = filterOf cfg
  attached : s.system.attached.reverse ++ s.system.pending =
    Latency.attach (Latency.selected o.syscall)
  looping : s.phase = .looping → s.system.pending = []

section Ready

variable {o : Options} {cfg : Tracelet.FilterConfig} {s s' : State}

theorem filterMap_enter (s : System) (t : Thread) (k : SyscallKind) (now : UInt64)
    (admitted : Bool) :
    (s.enter t k now admitted).maps.filterMap = s.maps.filterMap := by
  rcases Latency.enter_cases s t k now admitted with ⟨-, -, hm⟩ | ⟨-, -, started, -, hm⟩ |
    ⟨-, -, -, hm⟩
  · rw [hm]
  · rw [hm]
  · rw [hm, countDrop]

theorem filterMap_exit (s : System) (t : Thread) (c : Latency.Call) (now : UInt64) :
    (s.exit t c now).maps.filterMap = s.maps.filterMap := by
  rcases Latency.exit_cases s t c now with ⟨-, hm, -⟩ | ⟨-, -, hm, -⟩ | ⟨-, start, -, hm, -⟩
  · rw [hm]
  · rw [hm]
  · rw [hm]

theorem ready_start (clock : UInt64) (busy : Thread → Option SyscallKind) :
    Ready o cfg (.start o clock busy) :=
  ⟨fun _ => ⟨rfl, rfl⟩, fun h => absurd rfl h, rfl, fun h => by cases h⟩

theorem Ready.step {e : Event} (h : Ready o cfg s)
    (hstep : LatencySession.step o cfg s e = some s') :
    Ready o cfg s' := by
  cases e with
  | setup =>
    obtain ⟨hphase, rfl⟩ | ⟨p, ps, hphase, hpending, rfl⟩ | ⟨hphase, hpending, rfl⟩ :=
      setup_cases hstep
    · refine ⟨fun hloaded => (by cases hloaded), fun _ => ?_, h.attached, fun hloop =>
        (by cases hloop)⟩
      change Tracelet.Filter.applyMap s.system.maps.filterMap cfg = _
      rw [(h.loaded hphase).2, filterOf]
    · have hattached := h.attached
      rw [hpending] at hattached
      refine ⟨fun hloaded => ?_, h.filter, ?_, fun hloop => ?_⟩
      · rw [hphase] at hloaded
        cases hloaded
      · rw [List.reverse_cons, List.append_assoc]
        exact hattached
      · rw [hphase] at hloop
        cases hloop
    · exact ⟨fun hloaded => (by cases hloaded), fun _ => h.filter (by simp [hphase]), h.attached,
        fun _ => hpending⟩
  | enter task k now =>
    obtain ⟨-, -, rfl⟩ := enter_cases hstep
    have hfilter := filterMap_enter s.system task.pidTgid k now (allowed s.system.maps task)
    exact ⟨fun hloaded => ⟨(h.loaded hloaded).1, hfilter.trans (h.loaded hloaded).2⟩,
      fun hphase => hfilter.trans (h.filter hphase), h.attached, h.looping⟩
  | exit t now =>
    obtain ⟨c, -, -, rfl⟩ := exit_cases hstep
    have hfilter := filterMap_exit s.system t c now
    exact ⟨fun hloaded => ⟨(h.loaded hloaded).1, hfilter.trans (h.loaded hloaded).2⟩,
      fun hphase => hfilter.trans (h.filter hphase), h.attached, h.looping⟩
  | access i =>
    obtain ⟨handler, -, -, rfl⟩ := access_cases hstep
    exact ⟨h.loaded, h.filter, h.attached, h.looping⟩
  | loop e =>
    obtain ⟨-, loop, -, rfl⟩ := loop_cases hstep
    exact ⟨h.loaded, h.filter, h.attached, h.looping⟩

theorem admits_eq (hcfg : Tracelet.Filter.config o.args filterEventAll = .ok cfg)
    (h : Ready o cfg s) (task : Task) (k : SyscallKind) :
    s.system.admits k (allowed s.system.maps task) =
      (decide (Program.enter k ∈ s.system.attached) && decide (Asked o.args task)) := by
  rw [Latency.System.admits]
  by_cases hk : Program.enter k ∈ s.system.attached
  · have hphase : s.phase ≠ .loaded := fun hloaded => by
      rw [(h.loaded hloaded).1] at hk
      exact List.not_mem_nil hk
    rw [Session.allowed_eq_asked o.pid_ne_nil o.comm_noNul hcfg (h.filter hphase)]
  · rw [decide_eq_false hk, Bool.false_and, Bool.false_and]

theorem stores_eq_watches (hcfg : Tracelet.Filter.config o.args filterEventAll = .ok cfg)
    (h : Ready o cfg s) (task : Task) (k : SyscallKind) (now : UInt64) :
    s.system.stores task.pidTgid k now (allowed s.system.maps task) = s.watches o task k now := by
  rw [Latency.System.stores, admits_eq hcfg h]
  rfl

/-- The refused calls are those that the drop counter counts. -/
theorem length_refused (hcfg : Tracelet.Filter.config o.args filterEventAll = .ok cfg)
    (h : Ready o cfg s) (task : Task) (k : SyscallKind) (now : UInt64) :
    (refused o s (.enter task k now)).length = if refuses s.system task k now then 1 else 0 := by
  have hrefuses : refuses s.system task k now = true ↔
      Program.enter k ∈ s.system.attached ∧ Asked o.args task ∧
        s.system.maps.latencyStart.update task.pidTgid now = none := by
    rw [refuses, stores_eq_watches hcfg h, admits_eq hcfg h, State.watches]
    cases s.system.maps.latencyStart.update task.pidTgid now <;> simp
  rw [refused]
  by_cases hr : refuses s.system task k now = true
  · rw [if_pos hr, if_pos (hrefuses.mp hr), List.length_singleton]
  · rw [if_neg hr, if_neg fun hx => hr (hrefuses.mpr hx), List.length_nil]

end Ready

/-- The start map holds what the stopwatches show, and a call without one has
inherited whatever there is. -/
structure Watched (s : State) : Prop where
  free : ∀ t, s.system.inside t = none → s.watch t = none
  watch : ∀ t c, s.system.inside t = some c → s.watch t = if c.stored then some c.start else none
  entry : ∀ t c, s.system.inside t = some c → c.stored = true →
    s.system.maps.latencyStart.lookup t = some c.start
  inherited : ∀ t c, s.system.inside t = some c → c.stored = false →
    c.inherited = (s.system.maps.latencyStart.lookup t).isSome
  started : ∀ t c, s.system.inside t = some c → c.start ≤ s.system.clock

section Watched

variable {o : Options} {cfg : Tracelet.FilterConfig} {s s' : State}

theorem watched_start (clock : UInt64) (busy : Thread → Option SyscallKind) :
    Watched (.start o clock busy) := by
  have hcall : ∀ t c, (State.start o clock busy).system.inside t = some c →
      ∃ k, c = ⟨0, k, clock, false, false⟩ := by
    intro t c hc
    obtain ⟨k, -, rfl⟩ := Option.map_eq_some_iff.mp hc
    exact ⟨k, rfl⟩
  have hlookup : ∀ t, (State.start o clock busy).system.maps.latencyStart.lookup t = none :=
    fun t => BoundedMap.lookup_empty t
  refine ⟨fun t _ => rfl, fun t c hc => ?_, fun t c hc hs => ?_, fun t c hc _ => ?_,
    fun t c hc => ?_⟩
  · obtain ⟨k, rfl⟩ := hcall t c hc
    rfl
  · obtain ⟨k, rfl⟩ := hcall t c hc
    cases hs
  · obtain ⟨k, rfl⟩ := hcall t c hc
    rw [hlookup]
    rfl
  · obtain ⟨k, rfl⟩ := hcall t c hc
    exact UInt64.le_refl clock

theorem Watched.enter (hcfg : Tracelet.Filter.config o.args filterEventAll = .ok cfg)
    (hready : Ready o cfg s) (h : Watched s) {task : Task} {k : SyscallKind} {now : UInt64}
    (hstep : step o cfg s (.enter task k now) = some s') : Watched s' := by
  obtain ⟨hclock, hfree, rfl⟩ := enter_cases hstep
  have hstores := stores_eq_watches hcfg hready task k now
  refine ⟨fun u hu => ?_, fun u c hu => ?_, fun u c hu hc => ?_, fun u c hu hc => ?_,
    fun u c hu => ?_⟩
  · simp only [Latency.inside_enter] at hu
    split_ifs at hu with hut
    simp only [Function.update_of_ne hut]
    exact h.free u hu
  · obtain ⟨rfl, rfl⟩ | ⟨hut, hu⟩ := Latency.inside_enter_cases _ _ _ _ _ _ hu
    · simp only [Function.update_self, hstores]
    · simp only [Function.update_of_ne hut]
      exact h.watch u c hu
  · simp only [Latency.lookup_enter]
    obtain ⟨rfl, rfl⟩ | ⟨hut, hu⟩ := Latency.inside_enter_cases _ _ _ _ _ _ hu
    · exact if_pos ⟨rfl, hc⟩
    · -- another thread: neither its entry nor its call changes
      rw [if_neg fun hx => hut hx.1]
      exact h.entry u c hu hc
  · simp only [Latency.lookup_enter]
    obtain ⟨rfl, rfl⟩ | ⟨hut, hu⟩ := Latency.inside_enter_cases _ _ _ _ _ _ hu
    · simp only at hc
      simp [hc]
    · rw [if_neg fun hx => hut hx.1]
      exact h.inherited u c hu hc
  · obtain ⟨rfl, rfl⟩ | ⟨hut, hu⟩ := Latency.inside_enter_cases _ _ _ _ _ _ hu
    · exact UInt64.le_refl now
    · exact UInt64.le_trans (h.started u c hu) hclock

theorem Watched.exit (h : Watched s) {t : Thread} {now : UInt64}
    (hstep : step o cfg s (.exit t now) = some s') : Watched s' := by
  obtain ⟨c, hc, hclock, rfl⟩ := exit_cases hstep
  refine ⟨fun u hu => ?_, fun u d hu => ?_, fun u d hu hd => ?_, fun u d hu hd => ?_,
    fun u d hu => ?_⟩
  · simp only [Latency.inside_exit] at hu
    by_cases hut : u = t
    · simp [hut]
    · rw [if_neg hut] at hu
      simp only [Function.update_of_ne hut]
      exact h.free u hu
  · obtain ⟨hut, hu⟩ := Latency.inside_exit_cases _ _ _ _ _ hu
    simp only [Function.update_of_ne hut]
    exact h.watch u d hu
  · obtain ⟨hut, hu⟩ := Latency.inside_exit_cases _ _ _ _ _ hu
    simp only [Latency.lookup_exit]
    rw [if_neg fun hx => hut hx.1]
    exact h.entry u d hu hd
  · obtain ⟨hut, hu⟩ := Latency.inside_exit_cases _ _ _ _ _ hu
    simp only [Latency.lookup_exit]
    rw [if_neg fun hx => hut hx.1]
    exact h.inherited u d hu hd
  · obtain ⟨hut, hu⟩ := Latency.inside_exit_cases _ _ _ _ _ hu
    exact UInt64.le_trans (h.started u d hu) hclock

theorem Watched.step (hcfg : Tracelet.Filter.config o.args filterEventAll = .ok cfg)
    (hready : Ready o cfg s) (h : Watched s) {e : Event}
    (hstep : LatencySession.step o cfg s e = some s') : Watched s' := by
  cases e with
  | setup =>
    obtain ⟨-, rfl⟩ | ⟨p, ps, -, -, rfl⟩ | ⟨-, -, rfl⟩ := setup_cases hstep
    · exact ⟨h.free, h.watch, h.entry, h.inherited, h.started⟩
    · exact ⟨h.free, h.watch, h.entry, h.inherited, h.started⟩
    · exact ⟨h.free, h.watch, h.entry, h.inherited, h.started⟩
  | enter task k now => exact h.enter hcfg hready hstep
  | exit t now => exact h.exit hstep
  | access i =>
    obtain ⟨handler, -, -, rfl⟩ := access_cases hstep
    exact ⟨h.free, h.watch, h.entry, h.inherited, h.started⟩
  | loop e =>
    obtain ⟨-, loop, -, rfl⟩ := loop_cases hstep
    exact ⟨h.free, h.watch, h.entry, h.inherited, h.started⟩

end Watched

def duration (x : Sample) : SyscallKind × ℕ := (x.syscall, x.delta.toNat)

def pair (x : Sample) : SyscallKind × UInt64 := (x.syscall, x.delta)

def Handler.sample (h : Handler) : SyscallKind × UInt64 := (h.syscall, h.delta)

/-- The samples that their programs have not counted yet. -/
def waiting (handlers : List Handler) : List (SyscallKind × UInt64) :=
  handlers.filterMap fun h => if h.pc = .addCount then some h.sample else none

section Samples

variable {o : Options} {cfg : Tracelet.FilterConfig} {s s' : State}

theorem samples_exit (s : System) {t : Thread} {c : Latency.Call} (hc : s.inside t = some c)
    (now : UInt64) :
    (s.exit t c now).samples.map pair = s.samples.map pair ++ (starts s t now).map Handler.sample ∧
      (s.exit t c now).samples.map duration =
        s.samples.map duration ++ (starts s t now).map fun h => (h.syscall, h.delta.toNat) := by
  rcases Latency.exit_cases s t c now with ⟨hx, -, hs, -⟩ | ⟨-, hl, -, hs, -⟩ |
    ⟨hx, start, hl, -, hs, -⟩
  · -- the exit program is not attached, so no handler starts
    have hnone : starts s t now = [] := by
      unfold starts
      rw [hc]
      cases s.maps.latencyStart.lookup t with
      | none => rfl
      | some start => exact if_neg hx
    rw [hs, hnone]
    simp
  · have hnone : starts s t now = [] := by
      rw [starts, hc, hl]
    rw [hs, hnone]
    simp
  · have hone : starts s t now = [⟨c.syscall, now - start, .addCount⟩] := by
      rw [starts, hc, hl]
      exact if_pos hx
    rw [hs, hone]
    simp [pair, duration, Handler.sample]

theorem starts_eq_measured (h : Watched s) {t : Thread} {c : Latency.Call}
    (hc : s.system.inside t = some c) {now : UInt64} (hclock : s.system.clock ≤ now)
    (hnothing : NothingInherited s (.exit t now)) :
    (starts s.system t now).map (fun h => (h.syscall, h.delta.toNat)) =
    measured s (.exit t now) := by
  have hwatch := h.watch t c hc
  cases hstored : c.stored with
  | true =>
    rw [hstored, if_pos rfl] at hwatch
    have hle := UInt64.le_trans (h.started t c hc) hclock
    simp only [starts, measured, hc, hwatch, h.entry t c hc hstored]
    split_ifs
    · simp only [List.map_cons, List.map_nil, UInt64.toNat_sub_of_le _ _ hle]
    · rfl
  | false =>
    rw [hstored, if_neg (by simp)] at hwatch
    simp only [measured, hc, hwatch]
    have hinherited := h.inherited t c hc hstored
    cases hl : s.system.maps.latencyStart.lookup t with
    | none => simp [starts, hc, hl]
    | some start =>
      rw [hl] at hinherited
      -- this call stored no entry, so one that is there was inherited
      have hx : Program.exit c.syscall ∉ s.system.attached := fun hx => by
        rw [hnothing t now rfl t now c rfl hc hx] at hinherited
        cases hinherited
      simp [starts, hc, hl, hx]

theorem own_step {phase : Phase} {t t' : LatencyLoop.State} {e : LatencyLoop.Event}
    (htakes : takes phase e = true) (h : LatencyLoop.step t e = some t') :
    t'.counted = t.counted ∧ t'.drops = t.drops := by
  cases e with
  | update | drop => cases htakes
  | signal => exact Option.some.inj h ▸ ⟨rfl, rfl⟩
  | check expired nowNs =>
    obtain ⟨-, ⟨-, rfl⟩ | ⟨-, rfl⟩⟩ := LatencyLoop.check_cases h
    · exact ⟨rfl, rfl⟩
    · exact ⟨rfl, rfl⟩
  | lookup =>
    obtain ⟨-, -, rfl⟩ := LatencyLoop.lookup_cases h
    exact ⟨rfl, rfl⟩
  | print =>
    obtain ⟨-, -, rfl⟩ := LatencyLoop.print_cases h
    exact ⟨rfl, rfl⟩
  | warn =>
    obtain ⟨-, rfl⟩ := LatencyLoop.warn_cases h
    exact ⟨rfl, rfl⟩
  | fail =>
    obtain ⟨-, rfl⟩ := LatencyLoop.fail_cases h
    exact ⟨rfl, rfl⟩

theorem waiting_starts (s : System) (t : Thread) (now : UInt64) :
    waiting (starts s t now) = (starts s t now).map Handler.sample := by
  unfold starts
  split
  · split_ifs <;> rfl
  · rfl

theorem waiting_set {handlers : List Handler} {i : ℕ} {h : Handler} (hi : handlers[i]? = some h)
    (hist : LatencyHist) :
    ((h.update.elim [] Update.counts) ++ waiting (handlers.set i (h.next hist))).Perm
      (waiting handlers) := by
  obtain ⟨hlt, rfl⟩ := List.getElem?_eq_some_iff.mp hi
  have hold := (List.getElem_cons_eraseIdx_perm hlt).symm.filterMap fun h : Handler =>
    if h.pc = .addCount then some h.sample else none
  have hnew :=
      (List.set_perm_cons_eraseIdx hlt (handlers[i].next hist)).filterMap fun h : Handler =>
    if h.pc = .addCount then some h.sample else none
  refine (hnew.append_left _).trans (List.Perm.trans ?_ hold.symm)
  cases hpc : handlers[i].pc with
  | addCount => simp [Handler.update, Handler.next, hpc, Update.counts, Handler.sample]
  | addSum => simp [Handler.update, Handler.next, hpc, Update.counts]
  | loadMax =>
    simp only [Handler.update, Handler.next, hpc]
    split_ifs <;> simp [hpc]
  | storeMax => simp [Handler.update, Handler.next, hpc, Update.counts]
  | done => simp [Handler.update, Handler.next, hpc]

/-- The counted samples and the waiting ones are all samples. -/
theorem counted_step {e : Event}
    (h : (s.loop.counted ++ waiting s.handlers).Perm (s.system.samples.map pair))
    (hstep : step o cfg s e = some s') :
    (s'.loop.counted ++ waiting s'.handlers).Perm (s'.system.samples.map pair) := by
  cases e with
  | setup =>
    obtain ⟨-, rfl⟩ | ⟨p, ps, -, -, rfl⟩ | ⟨-, -, rfl⟩ := setup_cases hstep
    · exact h
    · exact h
    · exact h
  | enter task k now =>
    obtain ⟨-, -, rfl⟩ := enter_cases hstep
    dsimp only
    split_ifs
    · exact h
    · exact h
  | exit t now =>
    obtain ⟨c, hc, -, rfl⟩ := exit_cases hstep
    simp only [(samples_exit s.system hc now).1]
    rw [waiting, List.filterMap_append, ← waiting, ← waiting, waiting_starts, ← List.append_assoc]
    exact h.append_right _
  | access i =>
    obtain ⟨handler, hi, -, rfl⟩ := access_cases hstep
    -- the sample moves from the handlers that wait to those that have counted
    refine List.Perm.trans ?_ h
    have hset := (waiting_set hi s.loop.hist).append_left s.loop.counted
    cases hupdate : handler.update with
    | none => simpa [hupdate] using hset
    | some u => simpa [hupdate] using hset
  | loop e =>
    obtain ⟨htakes, loop, hloop, rfl⟩ := loop_cases hstep
    simp only [(own_step htakes hloop).1]
    exact h

end Samples

/-- What the user can rely on behind these steps. -/
structure Kept (o : Options) (cfg : Tracelet.FilterConfig) (clock : UInt64)
    (busy : Thread → Option SyscallKind) (es : List Event) (s : State) : Prop where
  ready : Ready o cfg s
  watched : Watched s
  samples : (s.loop.counted ++ waiting s.handlers).Perm (s.system.samples.map pair)
  measured : AllSteps (step o cfg) NothingInherited (.start o clock busy) es →
    s.system.samples.map duration = outputs (step o cfg) measured (.start o clock busy) es
  drops : ArrayMap.lookup s.loop.drops dropKeyLatency =
    some (UInt64.ofNat (outputs (step o cfg) (refused o) (.start o clock busy) es).length)

section Kept

variable {o : Options} {cfg : Tracelet.FilterConfig} {clock : UInt64}
  {busy : Thread → Option SyscallKind} {es : List Event} {s s' : State} {e : Event}

theorem Kept.start : Kept o cfg clock busy [] (.start o clock busy) :=
  ⟨ready_start clock busy, watched_start clock busy, .nil, fun _ => rfl,
    ArrayMap.lookup_replicate _ (by decide)⟩

theorem samples_step (h : Watched s) (hnothing : NothingInherited s e)
    (hstep : step o cfg s e = some s') :
    s'.system.samples.map duration = s.system.samples.map duration ++ measured s e := by
  cases e with
  | setup =>
    obtain ⟨-, rfl⟩ | ⟨p, ps, -, -, rfl⟩ | ⟨-, -, rfl⟩ := setup_cases hstep
    all_goals exact (List.append_nil _).symm
  | enter task k now =>
    obtain ⟨-, -, rfl⟩ := enter_cases hstep
    exact (List.append_nil _).symm
  | exit t now =>
    obtain ⟨c, hc, hclock, rfl⟩ := exit_cases hstep
    rw [← starts_eq_measured h hc hclock hnothing]
    exact (samples_exit s.system hc now).2
  | access i =>
    obtain ⟨handler, -, -, rfl⟩ := access_cases hstep
    exact (List.append_nil _).symm
  | loop e =>
    obtain ⟨-, loop, -, rfl⟩ := loop_cases hstep
    exact (List.append_nil _).symm

theorem drops_step (hcfg : Tracelet.Filter.config o.args filterEventAll = .ok cfg)
    (h : Ready o cfg s) {n : ℕ}
    (hn : ArrayMap.lookup s.loop.drops dropKeyLatency = some (UInt64.ofNat n))
    (hstep : step o cfg s e = some s') :
    ArrayMap.lookup s'.loop.drops dropKeyLatency =
      some (UInt64.ofNat (n + (refused o s e).length)) := by
  cases e with
  | setup =>
    obtain ⟨-, rfl⟩ | ⟨p, ps, -, -, rfl⟩ | ⟨-, -, rfl⟩ := setup_cases hstep
    all_goals exact hn
  | enter task k now =>
    have hlength := length_refused hcfg h task k now
    obtain ⟨-, -, rfl⟩ := enter_cases hstep
    rw [hlength]
    dsimp only
    split_ifs
    · simp only [ArrayMap.lookup_modify, if_true, hn]
      exact congrArg some (UInt64.ofNat_add n 1).symm
    · exact hn
  | exit t now =>
    obtain ⟨c, -, -, rfl⟩ := exit_cases hstep
    exact hn
  | access i =>
    obtain ⟨handler, -, -, rfl⟩ := access_cases hstep
    cases handler.update <;> exact hn
  | loop e =>
    obtain ⟨htakes, loop, hloop, rfl⟩ := loop_cases hstep
    simp only [(own_step htakes hloop).2]
    exact hn

theorem Kept.step (hcfg : Tracelet.Filter.config o.args filterEventAll = .ok cfg)
    (h : Kept o cfg clock busy es s)
    (hrun : run (LatencySession.step o cfg) (.start o clock busy) es = some s)
    (hstep : LatencySession.step o cfg s e = some s') : Kept o cfg clock busy (es ++ [e]) s' := by
  refine ⟨h.ready.step hstep, h.watched.step hcfg h.ready hstep, counted_step h.samples hstep,
    fun hall => ?_, ?_⟩
  · obtain ⟨hbefore, hnothing⟩ := (allSteps_concat hrun).mp hall
    rw [outputs_concat hrun hstep, samples_step h.watched hnothing hstep, h.measured hbefore]
  · rw [outputs_concat hrun hstep, List.length_append]
    exact drops_step hcfg h.ready h.drops hstep

end Kept

/-- From the command line to the tables: although threads, exit programs and the
loop take their steps in any order, each table shows the counts and percentiles of
a set of samples that holds those counted before its reading began; the sets grow,
and they are among the samples of the run. If no call is seen to exit that found the
start time of another one, these are the durations of exactly the calls that were
asked for, had room in the start map and ended with their exit program attached. -/
theorem tables_show_asked (o : Options) (cfg : Tracelet.FilterConfig) (clock : UInt64)
    (busy : Thread → Option SyscallKind) (es : List Event) (s : State)
    (hcfg : Tracelet.Filter.config o.args filterEventAll = .ok cfg)
    (hrun : run (step o cfg) (.start o clock busy) es = some s) :
    Ready o cfg s ∧
      (∃ seens,
        List.Forall₂ Reading.Sees (outputs (step o cfg) read (.start o clock busy) es) seens ∧
        seens.Pairwise List.Sublist ∧ ∀ seen ∈ seens, seen.Subperm (s.system.samples.map pair)) ∧
      (AllSteps (step o cfg) NothingInherited (.start o clock busy) es →
        s.system.samples.map duration = outputs (step o cfg) measured (.start o clock busy) es) ∧
      Stats.readDropKey s.loop.drops dropKeyLatency =
        UInt64.ofNat (outputs (step o cfg) (refused o) (.start o clock busy) es).length := by
  have hkept : Kept o cfg clock busy es s :=
    run_history (P := fun es s => Kept o cfg clock busy es s)
      (fun past t e u hpast h hstep => h.step hcfg hpast hstep) hrun .start
  obtain ⟨-, hloop, hread⟩ := simulates (I := fun _ => True)
    (fun _ _ _ _ hstep => ⟨trivial, step_simulates hstep⟩) hrun trivial
  obtain ⟨-, seens, hprinted⟩ := exists_printed hloop
  refine ⟨hkept.ready, ⟨seens, ?_, hprinted.grow, fun seen hseen => ?_⟩, hkept.measured, ?_⟩
  · rw [hread]
    exact hprinted.sees
  · -- a sample that a handler has not yet added is in no table
    have hcounted := (hprinted.limit seen hseen).trans (limit_sublist s.loop)
    have hall : s.loop.counted.Sublist (s.loop.counted ++ waiting s.handlers) :=
      List.sublist_append_left _ _
    exact (hcounted.trans hall).subperm.trans hkept.samples.subperm
  · rw [Stats.readDropKey, hkept.drops, Option.getD_some]

def readOptions : Options where
  args := Session.execOptions.args
  syscall := some .read
  pid_ne_nil := Session.execOptions.pid_ne_nil
  comm_noNul := Session.execOptions.comm_noNul

/-- A read of five nanoseconds before the loop begins, whose exit program adds the
sample before the first table and the sum behind it. -/
def oneRead : List Event :=
  [.setup, .setup, .setup, .enter shell .read 10, .exit shell.pidTgid 15, .setup,
    .loop (.check false 0),
      .access 0] ++ List.replicate 102 (.loop .lookup) ++ [.loop .print, .access 0]

theorem oneRead_inherits_nothing :
    AllSteps (step readOptions { eventMask := 7 }) NothingInherited
      (.start readOptions 0 fun _ => none) oneRead := by
  decide +kernel

theorem tables_show_asked_read :
    let o := readOptions
    let cfg : Tracelet.FilterConfig := { eventMask := 7 }
    let init := State.start o 0 fun _ => none
    ∃ s, run (step o cfg) init oneRead = some s ∧ Ready o cfg s ∧
      (∃ seens, List.Forall₂ Reading.Sees (outputs (step o cfg) read init oneRead) seens ∧
        seens.Pairwise List.Sublist ∧ ∀ seen ∈ seens, seen.Subperm (s.system.samples.map pair)) ∧
      s.system.samples.map duration = [(.read, 5)] ∧
      Stats.readDropKey s.loop.drops dropKeyLatency = 0 := by
  intro o cfg init
  obtain ⟨s, hs⟩ := Option.isSome_iff_exists.mp
    (show (run (step o cfg) init oneRead).isSome = true by decide +kernel)
  obtain ⟨hready, htables, hsamples, hdrops⟩ :=
    tables_show_asked o cfg 0 (fun _ => none) oneRead s rfl hs
  have hmeasured : outputs (step o cfg) measured init oneRead = [(.read, 5)] := by decide +kernel
  have hrefused : (outputs (step o cfg) (refused o) init oneRead).length = 0 := by decide +kernel
  refine ⟨s, hs, hready, htables, ?_, ?_⟩
  · rw [hsamples oneRead_inherits_nothing, hmeasured]
  · rw [hdrops, hrefused]
    rfl

end LatencySession

end Tracelet
