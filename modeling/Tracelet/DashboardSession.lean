import Tracelet.FiringRows
import Tracelet.Turns

namespace Tracelet
open KernelMap TransitionRun

namespace DashboardSession
open Bpf Collector Dashboard DashboardLoop
open Tracelet.Filter (FilterArgs configure)
open LatencyPane (Prog collectProgs)
open Session (Phase kept filterOf)

/-- A parsed command line: an option's value holds no NUL, and `--pid` takes at
least one. -/
structure Options where
  args : FilterArgs
  pid_ne_nil : args.pid ≠ some []
  comm_noNul : ∀ comm, args.comm = some comm → 0 ∉ RustText.asBytes comm

def Options.wants (o : Options) (f : Firing) : Bool :=
  decide (Filter.Asked o.args f.task) &&
    match f.tracepoint with
    | .inetSockSetState ctx _ _ => ctx.kind.isSome
    | _ => true

structure State (S : Type) where
  phase : Phase
  attached : List Prog
  loop : DashboardLoop.State S

inductive Event where
  | setup
  | fires (f : Firing)
  | detach
  | loop (e : DashboardLoop.Event)

def inner : DashboardLoop.Event → Bool
  | .fire _ | .collect .ready => false
  | _ => true

section

variable {S : Type} (lib : ListWidget S)

def State.start (started now : ℕ) : State S where
  phase := .loaded
  attached := []
  loop := .start lib Maps.fresh.filterMap started now

def withMaps (s : DashboardLoop.State S) (maps : Maps) : DashboardLoop.State S :=
  { s with collector := { s.collector with maps := maps } }

def State.fires (s : State S) (f : Firing) : State S :=
  if f.prog ∈ s.attached then
    { s with loop := withMaps s.loop (f.handle s.loop.collector.maps) }
  else s

/-- An `attach` that fails ends the collector, and so does a failing `poll`. Its links
are then dropped one by one. -/
def step (off : UInt64) (cfg : Tracelet.FilterConfig) (s : State S) : Event → Option (State S)
  | .setup =>
    if s.loop.collector.pc = .setup then
      match s.phase with
      | .loaded => some { s with
          phase := .attaching collectProgs
          loop := withMaps s.loop (configure s.loop.collector.maps cfg) }
      | .attaching (p :: left) =>
        some { s with phase := .attaching left, attached := s.attached ++ [p] }
      | .attaching [] => (DashboardLoop.step lib off s.loop (.collect .ready)).map fun loop =>
          { s with phase := .looping, loop := loop }
      | .looping => none
    else none
  | .fires f => some (s.fires f)
  | .detach =>
    if s.loop.collector.pc = .done ∨ s.loop.collector.pc = .failed then
      some { s with attached := s.attached.tail }
    else none
  | .loop e =>
    if inner e then (DashboardLoop.step lib off s.loop e).map fun loop => { s with loop := loop }
    else none

def written {α : Type*} (out : DashboardLoop.State S → DashboardLoop.Event → List α) (s : State S) :
    Event → List α
  | .loop e => out s.loop e
  | .setup | .fires _ | .detach => []

/-- The firings that reach an attached program and are asked for. -/
def asked (o : Options) (s : State S) : Event → List Firing
  | .fires f => if f.prog ∈ s.attached ∧ o.wants f = true then [f] else []
  | .setup | .detach | .loop _ => []

def trace (s : State S) : Event → List DashboardLoop.Event
  | .setup =>
    match s.phase with
    | .attaching [] => [.collect .ready]
    | .loaded | .attaching (_ :: _) | .looping => []
  | .fires f =>
    if f.prog ∈ s.attached ∧ f.passes s.loop.collector.maps = true then [.fire f.record] else []
  | .detach => []
  | .loop e => [e]

/-- The two threads with another filter in the maps. No step of theirs looks at the filter. -/
def withFilter (filter : ArrayMap Bpf.FilterConfig 1) (s : DashboardLoop.State S) :
    DashboardLoop.State S :=
  withMaps s { s.collector.maps with filterMap := filter }

theorem step_withFilter (off : UInt64) (filter : ArrayMap Bpf.FilterConfig 1)
    (s : DashboardLoop.State S) (e : DashboardLoop.Event) :
    DashboardLoop.step lib off (withFilter filter s) e =
      (DashboardLoop.step lib off s e).map (withFilter filter) := by
  -- no step of the two threads reads the filter
  cases e with
  | fire record => cases record <;> rfl
  | signal | pass ns => rfl
  | ui e =>
    have hscreen : (withFilter filter s).screen = s.screen := rfl
    simp only [DashboardLoop.step, hscreen, Option.map_map]
    rfl
  | collect e =>
    have hcollector : (withFilter filter s).collector.step off s.running e =
        (s.collector.step off s.running e).map fun c =>
          { c with maps := { c.maps with filterMap := filter } } := by
      cases e with
      | deliver =>
        have hevents : (withFilter filter s).collector.maps.events = s.collector.maps.events := rfl
        simp only [Collecting.step, hevents]
        cases s.collector.maps.events with
        | nil => rfl
        | cons record rest =>
          simp only [apply_ite (Option.map _), Option.map_none, Option.map_some]
          rfl
      | ready | check | endPoll | raise | warn | refresh | fail =>
        simp only [Collecting.step, apply_ite (Option.map _), Option.map_none, Option.map_some]
        rfl
    have hrunning : (withFilter filter s).running = s.running := rfl
    simp only [DashboardLoop.step, hrunning, hcollector, Option.map_map]
    rfl

variable {lib}

def left : Phase → List Prog
  | .loaded => collectProgs
  | .attaching left => left
  | .looping => []

/-- The programs are attached in order, never before the filter is applied, and they
stay so while the collector runs. -/
structure Ready (cfg : Tracelet.FilterConfig) (s : State S) : Prop where
  loaded : s.phase = .loaded →
    s.attached = [] ∧ s.loop.collector.maps.filterMap = Maps.fresh.filterMap
  filter : s.phase ≠ .loaded → s.loop.collector.maps.filterMap = filterOf cfg
  attached : s.loop.collector.pc ≠ .done → s.loop.collector.pc ≠ .failed →
    s.attached ++ left s.phase = collectProgs

variable {off : UInt64} {cfg : Tracelet.FilterConfig} {s s' : State S}

theorem setup_cases (h : step lib off cfg s .setup = some s') :
    s.loop.collector.pc = .setup ∧
      (s.phase = .loaded ∧ s' = { s with
          phase := .attaching collectProgs
          loop := withMaps s.loop (configure s.loop.collector.maps cfg) } ∨
        (∃ p left, s.phase = .attaching (p :: left) ∧
          s' = { s with phase := .attaching left, attached := s.attached ++ [p] }) ∨
        s.phase = .attaching [] ∧ ∃ loop,
          DashboardLoop.step lib off s.loop (.collect .ready) = some loop ∧
          s' = { s with phase := .looping, loop := loop }) := by
  simp only [step, Option.ite_none_right_eq_some] at h
  obtain ⟨hpc, h⟩ := h
  refine ⟨hpc, ?_⟩
  cases hphase : s.phase with
  | loaded => exact .inl ⟨rfl, by simpa [hphase] using h.symm⟩
  | attaching left =>
    cases left with
    | nil =>
      simp only [hphase, Option.map_eq_some_iff] at h
      obtain ⟨loop, hloop, rfl⟩ := h
      exact .inr (.inr ⟨rfl, loop, hloop, rfl⟩)
    | cons p left => exact .inr (.inl ⟨p, left, rfl, by simpa [hphase] using h.symm⟩)
  | looping => simp [hphase] at h

theorem detach_cases (h : step lib off cfg s .detach = some s') :
    (s.loop.collector.pc = .done ∨ s.loop.collector.pc = .failed) ∧
      s' = { s with attached := s.attached.tail } := by
  simp only [step, Option.ite_none_right_eq_some, Option.some.injEq] at h
  exact ⟨h.1, h.2.symm⟩

theorem loop_cases {e : DashboardLoop.Event} (h : step lib off cfg s (.loop e) = some s') :
    inner e = true ∧ ∃ loop, DashboardLoop.step lib off s.loop e = some loop ∧
      s' = { s with loop := loop } := by
  simp only [step, Option.ite_none_right_eq_some, Option.map_eq_some_iff] at h
  obtain ⟨hinner, loop, hloop, rfl⟩ := h
  exact ⟨hinner, loop, hloop, rfl⟩

theorem step_keeps {t t' : DashboardLoop.State S} {e : DashboardLoop.Event}
    (h : DashboardLoop.step lib off t e = some t') :
    t'.collector.maps.filterMap = t.collector.maps.filterMap ∧
      (t'.collector.pc ≠ .done → t'.collector.pc ≠ .failed →
        t.collector.pc ≠ .done ∧ t.collector.pc ≠ .failed) := by
  constructor
  · have hsame := step_withFilter lib off t.collector.maps.filterMap t e
    have ht : withFilter t.collector.maps.filterMap t = t := rfl
    rw [ht, h, Option.map_some] at hsame
    exact congrArg (fun u => u.collector.maps.filterMap) (Option.some.inj hsame)
  · intro hdone hfailed
    cases e with
    | fire record =>
      obtain rfl := Option.some.inj h
      exact ⟨hdone, hfailed⟩
    | signal | pass ns =>
      obtain rfl := Option.some.inj h
      exact ⟨hdone, hfailed⟩
    | ui e =>
      obtain ⟨u, -, rfl⟩ := step_ui h
      exact ⟨hdone, hfailed⟩
    | collect e =>
      obtain ⟨c, hc, -⟩ := step_collect h
      obtain ⟨-, hpc, -⟩ | ⟨-, hpc, -⟩ | ⟨-, record, rest, -, hpc, -⟩ | ⟨-, hpc, -⟩ | ⟨-, hpc, -⟩ |
        ⟨ringbuf, latency, -, -, hpc, -⟩ | ⟨-, hpc, -⟩ | ⟨-, hpc | hpc, -⟩ := collect_cases hc
      all_goals exact ⟨by simp [hpc], by simp [hpc]⟩

theorem Ready.start (started now : ℕ) : Ready cfg (.start lib started now) :=
  ⟨fun _ => ⟨rfl, rfl⟩, fun h => absurd rfl h, fun _ _ => rfl⟩

theorem Ready.step {e : Event} (h : Ready cfg s)
    (hstep : DashboardSession.step lib off cfg s e = some s') :
    Ready cfg s' := by
  cases e with
  | setup =>
    obtain ⟨hpc, ⟨hphase, rfl⟩ | ⟨p, left, hphase, rfl⟩ | ⟨hphase, loop, hloop, rfl⟩⟩ :=
      setup_cases hstep
    · obtain ⟨hattached, hfresh⟩ := h.loaded hphase
      refine ⟨fun hloaded => by simp at hloaded, fun _ => ?_, fun _ _ => ?_⟩
      · change Tracelet.Filter.applyMap s.loop.collector.maps.filterMap cfg = _
        rw [hfresh, filterOf]
      · rw [hattached]
        rfl
    · have hfilter := h.filter (by simp [hphase])
      have hattached := h.attached (by simp [hpc]) (by simp [hpc])
      rw [hphase] at hattached
      exact ⟨fun hloaded => by simp at hloaded, fun _ => hfilter, fun _ _ => by
        rw [List.append_assoc]
        exact hattached⟩
    · have hfilter := h.filter (by simp [hphase])
      have hattached := h.attached (by simp [hpc]) (by simp [hpc])
      rw [hphase] at hattached
      exact ⟨fun hloaded => by simp at hloaded, fun _ => (step_keeps hloop).1.trans hfilter,
        fun _ _ => hattached⟩
  -- a program may fire before all are attached; it never writes the filter
  | fires f =>
    obtain rfl := Option.some.inj hstep
    have hhandle : (f.handle s.loop.collector.maps).filterMap =
        s.loop.collector.maps.filterMap := by
      rw [Firing.handle_eq]
      split_ifs
      · cases f.record <;> rfl
      · rfl
    unfold State.fires
    split_ifs with hprog
    · refine ⟨fun hloaded => ⟨(h.loaded hloaded).1, ?_⟩, fun hphase => ?_, h.attached⟩
      · exact hhandle.trans (h.loaded hloaded).2
      · exact hhandle.trans (h.filter hphase)
    · exact h
  -- only behind the loop, where nothing is said of what is attached
  | detach =>
    obtain ⟨hended, rfl⟩ := detach_cases hstep
    refine ⟨fun hloaded => ?_, h.filter, fun hdone hfailed => ?_⟩
    · obtain ⟨hattached, hfresh⟩ := h.loaded hloaded
      exact ⟨by simp only [hattached, List.tail_nil], hfresh⟩
    · exact absurd hended (not_or.mpr ⟨hdone, hfailed⟩)
  | loop e =>
    obtain ⟨-, loop, hloop, rfl⟩ := loop_cases hstep
    obtain ⟨hfilter, hended⟩ := step_keeps hloop
    refine ⟨fun hloaded => ⟨(h.loaded hloaded).1, ?_⟩, fun hphase => ?_, fun hdone hfailed => ?_⟩
    · exact hfilter.trans (h.loaded hloaded).2
    · exact hfilter.trans (h.filter hphase)
    · exact h.attached (hended hdone hfailed).1 (hended hdone hfailed).2

/-- A step is a run of the two threads, with the filter in the maps from the start. -/
theorem step_simulates {α : Type*} {out : DashboardLoop.State S → DashboardLoop.Event → List α}
    (hfilter : ∀ filter t e, out (withFilter filter t) e = out t e)
    (hfire : ∀ t record, out t (.fire record) = []) (hready : ∀ t, out t (.collect .ready) = [])
    {e : Event} (h : Ready cfg s) (hstep : step lib off cfg s e = some s') :
    Ready cfg s' ∧
      run (DashboardLoop.step lib off) (withFilter (filterOf cfg) s.loop) (trace s e) =
        some (withFilter (filterOf cfg) s'.loop) ∧
      written out s e =
        outputs (DashboardLoop.step lib off) out (withFilter (filterOf cfg) s.loop)
          (trace s e) := by
  refine ⟨h.step hstep, ?_⟩
  -- a step of the threads is the same step from the maps that hold the filter
  have hone : ∀ (e : DashboardLoop.Event) {t : DashboardLoop.State S},
      DashboardLoop.step lib off s.loop e = some t →
      run (DashboardLoop.step lib off) (withFilter (filterOf cfg) s.loop) [e] =
          some (withFilter (filterOf cfg) t) ∧
        outputs (DashboardLoop.step lib off) out (withFilter (filterOf cfg) s.loop) [e] =
          out s.loop e := by
    intro e t ht
    have hsame := step_withFilter lib off (filterOf cfg) s.loop e
    rw [ht, Option.map_some] at hsame
    refine ⟨run_cons_eq_some.mpr ⟨_, hsame, rfl⟩, ?_⟩
    simp only [outputs, hsame, Option.elim_some, List.append_nil, hfilter]
  cases e with
  | setup =>
    obtain ⟨-, ⟨hphase, rfl⟩ | ⟨p, left, hphase, rfl⟩ | ⟨hphase, loop, hloop, rfl⟩⟩ :=
      setup_cases hstep
    · simp only [trace, hphase]
      exact ⟨rfl, rfl⟩
    · simp only [trace, hphase]
      exact ⟨rfl, rfl⟩
    · simp only [trace, hphase]
      exact ⟨(hone _ hloop).1, ((hone _ hloop).2.trans (hready _)).symm⟩
  | fires f =>
    obtain rfl := Option.some.inj hstep
    -- a firing is seen by the loop if its program is attached and the filter lets it pass
    by_cases hprog : f.prog ∈ s.attached
    · cases hpasses : f.passes s.loop.collector.maps with
      | true =>
        have htrace : trace s (.fires f) = [.fire f.record] := if_pos ⟨hprog, hpasses⟩
        obtain ⟨hrun, hout⟩ := hone (.fire f.record) rfl
        rw [htrace, State.fires, if_pos hprog, Firing.handle_eq, if_pos hpasses]
        refine ⟨?_, (hout.trans (hfire _ _)).symm⟩
        rw [hrun]
        cases f.record <;> rfl
      | false =>
        have htrace : trace s (.fires f) = [] := if_neg (by simp [hpasses])
        rw [htrace, State.fires, if_pos hprog, Firing.handle_eq, hpasses]
        exact ⟨rfl, rfl⟩
    · have htrace : trace s (.fires f) = [] := if_neg fun h => hprog h.1
      rw [htrace, State.fires, if_neg hprog]
      exact ⟨rfl, rfl⟩
  | detach =>
    obtain ⟨-, rfl⟩ := detach_cases hstep
    exact ⟨rfl, rfl⟩
  | loop e =>
    obtain ⟨-, loop, hloop, rfl⟩ := loop_cases hstep
    exact ⟨(hone e hloop).1, (hone e hloop).2.symm⟩

def command (f : Firing) : EventLoop.Command :=
  match f.tracepoint with
  | .schedProcessExec .. => .exec
  | .sysEnter .. => .fileOpen
  | .inetSockSetState .. => .tcp

theorem prog_mem_progs (f : Firing) : f.prog ∈ (command f).progs := by
  obtain ⟨task, now, tracepoint⟩ := f
  cases tracepoint with
  | schedProcessExec | inetSockSetState => exact List.mem_singleton_self _
  | sysEnter call => cases call <;> simp [command, Firing.prog, EventLoop.Command.progs]

def Options.session (o : Options) (cmd : EventLoop.Command) : Session.Options where
  cmd := cmd
  args := o.args
  event := none
  count := none
  format := .text
  pid_ne_nil := o.pid_ne_nil
  comm_noNul := o.comm_noNul

theorem wants_session (o : Options) (cmd : EventLoop.Command) (f : Firing) :
    (o.session cmd).wants f = o.wants f := by
  have hany : ∀ kind : Option Tracelet.Filter.EventKind, (kind.any fun _ => true) = kind.isSome :=
    fun kind => by cases kind <;> rfl
  obtain ⟨task, now, tracepoint⟩ := f
  cases tracepoint with
  | schedProcessExec | sysEnter => rfl
  | inetSockSetState ctx => exact congrArg (decide (Filter.Asked o.args task) && ·) (hany ctx.kind)

theorem passes_eq_wants {o : Options}
    (hcfg : Tracelet.Filter.config o.args filterEventAll = .ok cfg) {m : Maps}
    (hm : m.filterMap = filterOf cfg) (f : Firing) : f.passes m = o.wants f := by
  have hmask : (o.session (command f)).mask = filterEventAll := by
    unfold Session.Options.mask Options.session
    cases command f <;> rfl
  rw [← wants_session o (command f) f]
  refine Session.passes_eq_wants ?_ hm (prog_mem_progs f)
  rw [hmask]
  exact hcfg

theorem asked_fires {o : Options} (hcfg : Tracelet.Filter.config o.args filterEventAll = .ok cfg)
    (h : Ready cfg s) (f : Firing) :
    asked o s (.fires f) =
      if f.prog ∈ s.attached ∧ f.passes s.loop.collector.maps = true then [f] else [] := by
  rw [asked]
  by_cases hprog : f.prog ∈ s.attached
  · have hphase : s.phase ≠ .loaded := fun hloaded => by
      rw [(h.loaded hloaded).1] at hprog
      exact List.not_mem_nil hprog
    rw [passes_eq_wants hcfg (h.filter hphase)]
  · rw [if_neg fun hf => hprog hf.1, if_neg fun hf => hprog hf.1]

/-- What is asked for is what the two threads see: the records and the failures. -/
theorem seen_trace {o : Options} (hcfg : Tracelet.Filter.config o.args filterEventAll = .ok cfg)
    {e : Event} (h : Ready cfg s) (hstep : step lib off cfg s e = some s') :
    (trace s e).filterMap DashboardLoop.Event.submits = (asked o s e).filterMap Firing.record ∧
      (trace s e).countP DashboardLoop.Event.failure = (asked o s e).countP fun f =>
        f.record.isNone := by
  cases e with
  | setup =>
    obtain ⟨-, ⟨hphase, -⟩ | ⟨p, left, hphase, -⟩ | ⟨hphase, -⟩⟩ := setup_cases hstep
    all_goals
      simp only [trace, hphase]
      exact ⟨rfl, rfl⟩
  | fires f =>
    rw [asked_fires hcfg h, trace]
    split_ifs
    · refine ⟨rfl, ?_⟩
      simp only [List.countP_singleton]
      cases f.record <;> rfl
    · exact ⟨rfl, rfl⟩
  | detach => exact ⟨rfl, rfl⟩
  | loop e =>
    cases e with
    | fire record => cases (loop_cases hstep).1
    | signal | pass | collect | ui => exact ⟨rfl, rfl⟩

/-- The frame is a picture of the readable ones of the first firings. -/
structure ShowsFirings (off : UInt64) (started : ℕ) (fs : List Firing) (d : Drawn)
    (frame : Frame S) :
    Prop where
  consumed_le : d.consumed ≤ fs.length
  pictures :
    PicturesFirings off ((fs.take d.consumed).filter Firing.readable) (d.now - started) frame.snap

theorem ShowsFirings.of_shows {started : ℕ} {fs : List Firing} {d : Drawn} {frame : Frame S}
    (hkept : ∀ f ∈ fs, f.record.isSome = true)
    (h : Shows off started (fs.map Firing.bytes) d frame) :
    ShowsFirings off started fs d frame := by
  refine ⟨by simpa using h.consumed_le, picturesFirings_of_rows h.pictures ?_⟩
  rw [← List.map_take]
  exact rows_history (fun f hf => hkept f (List.mem_of_mem_take hf)) off

theorem run_simulates {α : Type*} (out : DashboardLoop.State S → DashboardLoop.Event → List α)
    (hfilter : ∀ filter t e, out (withFilter filter t) e = out t e)
    (hfire : ∀ t record, out t (.fire record) = []) (hready : ∀ t, out t (.collect .ready) = [])
    {started now : ℕ} {es : List Event}
    (hrun : run (step lib off cfg) (.start lib started now) es = some s) :
    Ready cfg s ∧
      run (DashboardLoop.step lib off) (.start lib (filterOf cfg) started now)
          (outputs (step lib off cfg) trace (.start lib started now) es) =
        some (withFilter (filterOf cfg) s.loop) ∧
      outputs (step lib off cfg) (written out) (.start lib started now) es =
        outputs (DashboardLoop.step lib off) out (.start lib (filterOf cfg) started now)
          (outputs (step lib off cfg) trace (.start lib started now) es) :=
  simulates (fun _ _ _ h hstep => step_simulates hfilter hfire hready h hstep) hrun
    (.start started now)

/-- What the two threads see of a run is what it asks for. -/
theorem seen_of_run {o : Options} (hcfg : Tracelet.Filter.config o.args filterEventAll = .ok cfg)
    {started now : ℕ} {es : List Event}
    (hrun : run (step lib off cfg) (.start lib started now) es = some s) :
    submitted DashboardLoop.Event.submits
      (outputs (step lib off cfg) trace (.start lib started now) es) =
        (kept (outputs (step lib off cfg) (asked o) (.start lib started now) es)).map Firing.bytes ∧
      failures (outputs (step lib off cfg) trace (.start lib started now) es) =
        (outputs (step lib off cfg) (asked o) (.start lib started now) es).countP fun f =>
          f.record.isNone := by
  -- induction on the run; `Ready` says that the filter in the maps is the one asked for
  refine (run_history (P := fun es s => Ready cfg s ∧
      submitted DashboardLoop.Event.submits
        (outputs (step lib off cfg) trace (.start lib started now) es) =
        (kept (outputs (step lib off cfg) (asked o) (.start lib started now) es)).map Firing.bytes ∧
      failures (outputs (step lib off cfg) trace (.start lib started now) es) =
        (outputs (step lib off cfg) (asked o) (.start lib started now) es).countP fun f =>
          f.record.isNone) (fun past t e u hpast ht hstep => ?_) hrun
            ⟨.start started now, rfl, rfl⟩).2
  obtain ⟨h, hsubmitted, hfailures⟩ := ht
  obtain ⟨hrecords, hcount⟩ := seen_trace hcfg h hstep
  rw [outputs_concat hpast hstep, outputs_concat hpast hstep]
  refine ⟨h.step hstep, ?_, ?_⟩
  · rw [← Session.filterMap_record] at hsubmitted ⊢
    rw [submitted, List.filterMap_append, List.filterMap_append, hrecords, ← hsubmitted, submitted]
  · rw [failures, List.countP_append, List.countP_append, hcount, ← hfailures, failures]

theorem shows_of_run {o : Options} (hcfg : Tracelet.Filter.config o.args filterEventAll = .ok cfg)
    {started now : ℕ} {es : List Event}
    (hrun : run (step lib off cfg) (.start lib started now) es = some s)
    (hfits : (outputs (step lib off cfg) (asked o) (.start lib started now) es).length < 2 ^ 64) :
    List.Forall₂
      (ShowsFirings off started
        (kept (outputs (step lib off cfg) (asked o) (.start lib started now) es)))
      (outputs (step lib off cfg) (written drawn) (.start lib started now) es)
      (outputs (step lib off cfg) (written frames) (.start lib started now) es) := by
  obtain ⟨-, hloop, hshown⟩ := run_simulates frames (fun _ t e => by cases e <;> rfl)
    (fun _ _ => rfl) (fun _ => rfl) hrun
  obtain ⟨-, -, htimes⟩ := run_simulates drawn (fun _ t e => by cases e <;> rfl)
    (fun _ _ => rfl) (fun _ => rfl) hrun
  obtain ⟨-, hpictures⟩ := collected_frames hloop
  rw [(seen_of_run hcfg hrun).1, List.length_map, ← htimes, ← hshown] at hpictures
  refine (hpictures ((List.length_filter_le _ _).trans_lt hfits)).imp fun _ _ => .of_shows ?_
  exact fun f hf => (List.mem_filter.mp hf).2

/-- From the command line to the screen: each frame is a picture of exactly the
asked-for firings that got memory, that the decoder can read and that the callback
had got by then, in the order in which they happened. The records not yet delivered
are still in the ring buffer, and no more are shown as dropped than got no memory. -/
theorem frames_show_asked (lib : ListWidget S) (o : Options) (cfg : Tracelet.FilterConfig)
    (off : UInt64) (started now : ℕ) (es : List Event) (s : State S)
    (hcfg : Tracelet.Filter.config o.args filterEventAll = .ok cfg)
    (hrun : run (step lib off cfg) (.start lib started now) es = some s)
    (hfits : (outputs (step lib off cfg) (asked o) (.start lib started now) es).length < 2 ^ 64) :
    let all := outputs (step lib off cfg) (asked o) (.start lib started now) es
    let shown := outputs (step lib off cfg) (written frames) (.start lib started now) es
    let times := outputs (step lib off cfg) (written drawn) (.start lib started now) es
    Ready cfg s ∧ List.Forall₂ (ShowsFirings off started (kept all)) times shown ∧
      times.Pairwise (fun a b => a.consumed ≤ b.consumed ∧ a.now ≤ b.now) ∧
      (∀ d ∈ times, d.consumed ≤ s.loop.collector.consumed) ∧
      s.loop.collector.maps.events = ((kept all).drop s.loop.collector.consumed).map Firing.bytes ∧
      shown.Pairwise (fun a b => a.snap.overview.dropped ≤ b.snap.overview.dropped) ∧
      ∀ frame ∈ shown, frame.snap.overview.dropped.toNat ≤ all.countP fun f => f.record.isNone := by
  intro all shown times
  obtain ⟨hready, hloop, hshown⟩ := run_simulates frames (fun _ t e => by cases e <;> rfl)
    (fun _ _ => rfl) (fun _ => rfl) hrun
  obtain ⟨-, -, htimes⟩ := run_simulates drawn (fun _ t e => by cases e <;> rfl)
    (fun _ _ => rfl) (fun _ => rfl) hrun
  obtain ⟨hsubmitted, hfailures⟩ := seen_of_run hcfg hrun
  obtain ⟨hcollected, -⟩ := collected_frames hloop
  obtain ⟨hordered, hbound⟩ := drawn_ordered hloop
  obtain ⟨hdropped, hless⟩ := dropped_frames hloop
  rw [hsubmitted] at hcollected
  rw [hfailures] at hless
  refine ⟨hready, shows_of_run hcfg hrun hfits, ?_, ?_, ?_, ?_, ?_⟩
  · rw [← htimes] at hordered
    exact hordered
  · rw [← htimes] at hbound
    exact fun d hd => (hbound d hd).1
  · have hpending := hcollected.pending
    rw [← List.map_drop] at hpending
    exact hpending
  · rw [← hshown] at hdropped
    exact hdropped
  · rw [← hshown] at hless
    exact hless (List.countP_le_length.trans_lt hfits)

end

def plainOptions : Options where
  args := ⟨none, none, none⟩
  pid_ne_nil := nofun
  comm_noNul := nofun

/-- `sh` executes a file before the programs are attached, and again behind it. The
collector gets the second one before the first frame is due. -/
def shellFrame (orders : HashOrders) : List Event :=
  [.setup, .fires Session.shellExecs, .setup, .setup, .setup, .setup, .setup, .setup,
    .fires Session.shellExecs, .loop (.collect .check), .loop (.ui .check),
    .loop (.collect .deliver),
    .loop (.ui .idle), .loop (.ui .due), .loop (.ui (.draw orders))]

set_option maxRecDepth 8000 in
theorem frames_show_asked_shell :
    ∃ orders frame, outputs (step .index 0 { eventMask := 7 }) (written frames) (.start .index 0 0)
        (shellFrame orders) = [frame] ∧ PicturesFirings 0 [Session.shellExecs] 0 frame.snap := by
  obtain ⟨orders⟩ := HashOrders.nonempty
  obtain ⟨s, hs⟩ := Option.isSome_iff_exists.mp (show (run (step .index 0 { eventMask := 7 })
    (.start .index 0 0) (shellFrame orders)).isSome = true from rfl)
  have hshown := (frames_show_asked .index plainOptions { eventMask := 7 } 0 0 0 _ s rfl hs
    (show 1 < 2 ^ 64 by decide)).2.1
  obtain ⟨hfirst, -⟩ := List.forall₂_cons.mp hshown
  exact ⟨orders, _, rfl, hfirst.pictures⟩

end DashboardSession

end Tracelet
