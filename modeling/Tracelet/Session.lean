import Tracelet.Firing
import Tracelet.Warnings

namespace Tracelet
open KernelMap TransitionRun

namespace EventLoop

def Command.progs : Command → List LatencyPane.Prog
  | exec => [.traceExec]
  | fileOpen => [.traceOpen, .traceOpenat, .traceOpenat2]
  | tcp => [.traceTcp]

end EventLoop

namespace Filter

theorem asked_iff (args : FilterArgs) (task : Bpf.Task) :
    Asked args task ↔ (args.pid.all fun pids => task.tgid ∈ pids) ∧
      (args.ppid.all fun ppid => task.parentTgid = ppid) ∧
      args.comm.all fun comm => task.comm.name = RustText.asBytes comm := by
  simp only [Option.all_eq_true, decide_eq_true_eq]
  exact ⟨fun h => ⟨h.pid, h.ppid, h.comm⟩, fun h => ⟨h.1, h.2.1, h.2.2⟩⟩

instance (args : FilterArgs) (task : Bpf.Task) : Decidable (Asked args task) :=
  decidable_of_iff' _ (asked_iff args task)

end Filter

namespace Session
open Bpf EventLoop
open Tracelet.Filter (FilterArgs EventKind configure)
open LatencyPane (Prog)

/-- A parsed command line: an option's value holds no NUL, and `--pid` takes at
least one. Only `tcp` looks at `event`. -/
structure Options where
  cmd : Command
  args : FilterArgs
  event : Option EventKind
  count : Option UInt64
  format : OutputFormat
  pid_ne_nil : args.pid ≠ some []
  comm_noNul : ∀ comm, args.comm = some comm → 0 ∉ RustText.asBytes comm

def Options.mask (o : Options) : UInt32 :=
  match o.cmd with
  | .tcp => Filter.eventMask o.event
  | .exec | .fileOpen => filterEventAll

def Options.wants (o : Options) (f : Firing) : Bool :=
  decide (Filter.Asked o.args f.task) &&
    match f.tracepoint with
    | .inetSockSetState ctx _ _ => ctx.kind.any fun kind => o.event.all fun event => event = kind
    | _ => true

inductive Phase where
  | loaded
  | attaching (left : List Prog)
  | looping

structure State where
  phase : Phase
  attached : List Prog
  loop : EventLoop.State

inductive Event where
  | setup
  | fires (f : Firing)
  | loop (e : EventLoop.Event)

def State.start : State where
  phase := .loaded
  attached := []
  loop := .start Maps.fresh.filterMap

def State.fires (s : State) (f : Firing) : State :=
  if f.prog ∈ s.attached then
    { s with loop := { s.loop with
        maps := f.handle s.loop.maps
        failures := if f.passes s.loop.maps && f.record.isNone then s.loop.failures + 1
          else s.loop.failures } }
  else s

/-- The loop takes its steps once everything is set up; a signal may come before.
A failing `attach` ends the program, and so does any run that stops there. -/
def step (o : Options) (cfg : Tracelet.FilterConfig) (s : State) : Event → Option State
  | .setup =>
    match s.phase with
    | .loaded => some { s with
        phase := .attaching o.cmd.progs
        loop := { s.loop with maps := configure s.loop.maps cfg } }
    | .attaching (p :: left) =>
      some { s with phase := .attaching left, attached := s.attached ++ [p] }
    | .attaching [] => some { s with phase := .looping }
    | .looping => none
  | .fires f => some (s.fires f)
  | .loop (.fire _) => none
  | .loop .signal => some { s with loop := { s.loop with running := false } }
  | .loop e =>
    match s.phase with
    | .looping => (EventLoop.step o.cmd o.count s.loop e).map fun loop => { s with loop }
    | .loaded | .attaching _ => none

/-- The header is printed when everything is attached, and then the rows. -/
def written (o : Options) (off : UInt64) (s : State) : Event → List Char
  | .setup =>
    match s.phase with
    | .attaching [] => o.cmd.header o.format
    | .loaded | .attaching (_ :: _) | .looping => []
  | .fires _ => []
  | .loop e => EventLoop.written o.cmd o.format off s.loop e

/-- The firings that reach an attached program and are asked for. -/
def asked (o : Options) (s : State) : Event → List Firing
  | .fires f => if f.prog ∈ s.attached ∧ o.wants f = true then [f] else []
  | .setup | .loop _ => []

def trace (s : State) : Event → List EventLoop.Event
  | .setup => []
  | .fires f => if f.prog ∈ s.attached ∧ f.passes s.loop.maps = true then [.fire f.record] else []
  | .loop e => [e]

/-- The loop with another filter in its maps. No step of it looks at the filter. -/
def withFilter (filter : ArrayMap Bpf.FilterConfig 1) (s : EventLoop.State) : EventLoop.State :=
  { s with maps := { s.maps with filterMap := filter } }

theorem step_withFilter (cmd : Command) (count : Option UInt64)
    (filter : ArrayMap Bpf.FilterConfig 1) (s : EventLoop.State) (e : EventLoop.Event) :
    EventLoop.step cmd count (withFilter filter s) e =
      (EventLoop.step cmd count s e).map (withFilter filter) := by
  cases e with
  | fire record => cases record <;> rfl
  | signal => rfl
  | deliver =>
    have hevents : (withFilter filter s).maps.events = s.maps.events := rfl
    simp only [EventLoop.step, hevents]
    cases s.maps.events with
    | nil => rfl
    | cons record rest =>
      simp only [State.callback, apply_ite (Option.map _), apply_ite (withFilter filter),
        Option.map_none, Option.map_some]
      rfl
  | check | endPoll | warn | fail =>
    simp only [EventLoop.step, apply_ite (Option.map _), Option.map_none, Option.map_some]
    rfl

def filterOf (cfg : Tracelet.FilterConfig) : ArrayMap Bpf.FilterConfig 1 :=
  Tracelet.Filter.applyMap Maps.fresh.filterMap cfg

def Ready (o : Options) (cfg : Tracelet.FilterConfig) (s : State) : Prop :=
  match s.phase with
  | .loaded => s.attached = [] ∧ s.loop.maps.filterMap = Maps.fresh.filterMap
  | .attaching left => s.attached ++ left = o.cmd.progs ∧ s.loop.maps.filterMap = filterOf cfg
  | .looping => s.attached = o.cmd.progs ∧ s.loop.maps.filterMap = filterOf cfg

theorem Ready.of_mem {o : Options} {cfg : Tracelet.FilterConfig} {s : State} (h : Ready o cfg s)
    {p : Prog} (hp : p ∈ s.attached) : p ∈ o.cmd.progs ∧ s.loop.maps.filterMap = filterOf cfg := by
  unfold Ready at h
  cases hphase : s.phase with
  | loaded =>
    rw [hphase] at h
    rw [h.1] at hp
    cases hp
  | attaching left =>
    rw [hphase] at h
    exact ⟨h.1 ▸ List.mem_append_left left hp, h.2⟩
  | looping =>
    rw [hphase] at h
    exact ⟨h.1 ▸ hp, h.2⟩

theorem eventMask_and_mask (event : Option EventKind) (kind : EventKind) :
    decide (Tracelet.Filter.eventMask event &&& kind.mask ≠ 0) = event.all fun event =>
      event = kind := by
  cases event with
  | none => cases kind <;> decide
  | some event => cases event <;> cases kind <;> decide

/-- With the filter applied, a task is allowed exactly if the options ask for it. -/
theorem allowed_eq_asked {args : FilterArgs} {mask : UInt32} {cfg : Tracelet.FilterConfig}
    (hpid : args.pid ≠ some []) (hcomm : ∀ comm, args.comm = some comm → 0 ∉ RustText.asBytes comm)
    (hcfg : Tracelet.Filter.config args mask = .ok cfg) {m : Maps} (hm : m.filterMap = filterOf cfg)
    (task : Task) : allowed m task = decide (Tracelet.Filter.Asked args task) := by
  have hm' : m = configure { m with filterMap := Maps.fresh.filterMap } cfg := by
    rw [configure, ← filterOf, ← hm]
  rw [Bool.eq_iff_iff, decide_eq_true_eq, hm']
  exact Tracelet.Filter.allowed_configure_iff hpid hcomm hcfg _ _

/-- A program of the command passes a firing exactly if the options ask for it. -/
theorem passes_eq_wants {o : Options} {cfg : Tracelet.FilterConfig}
    (hcfg : Tracelet.Filter.config o.args o.mask = .ok cfg) {m : Maps}
    (hm : m.filterMap = filterOf cfg) {f : Firing} (hprog : f.prog ∈ o.cmd.progs) :
    f.passes m = o.wants f := by
  have hallowed := allowed_eq_asked o.pid_ne_nil o.comm_noNul hcfg hm f.task
  unfold Firing.passes Options.wants
  rw [hallowed]
  congr 1
  obtain ⟨task, now, tracepoint⟩ := f
  cases tracepoint with
  | schedProcessExec | sysEnter => rfl
  | inetSockSetState ctx inet reserved =>
    have hcmd : o.cmd = .tcp := by
      cases hc : o.cmd with
      | exec | fileOpen => simp [hc, Command.progs, Firing.prog] at hprog
      | tcp => rfl
    -- only `tcp` sends its own mask; the other programs do not read it
    have hmask : m.filterMap[0].eventMask = Tracelet.Filter.eventMask o.event := by
      obtain ⟨-, rfl⟩ := (Tracelet.Filter.config_eq_ok_iff o.args o.mask cfg).mp hcfg
      have hmask : o.mask = Tracelet.Filter.eventMask o.event := by
        rw [Options.mask, hcmd]
      have hlookup := ArrayMap.lookup_of_lt (filterOf (Tracelet.Filter.encoded o.args o.mask))
        (show (0 : UInt32).toNat < 1 by decide)
      rw [filterOf, Tracelet.Filter.applyMap, ArrayMap.lookup_update_self _ (by decide)] at hlookup
      have hstored := Option.some.inj hlookup
      rw [hm, ← hmask]
      exact (congrArg Bpf.FilterConfig.eventMask hstored).symm
    simp only
    congr 1
    funext kind
    rw [← eventMask_and_mask, Bool.eq_iff_iff, maskHas_eq_true_iff, hmask, decide_eq_true_eq]

theorem setup_cases {o : Options} {cfg : Tracelet.FilterConfig} {s s' : State}
    (h : step o cfg s .setup = some s') :
    (s.phase = .loaded ∧ s' = { s with
        phase := .attaching o.cmd.progs
        loop := { s.loop with maps := configure s.loop.maps cfg } }) ∨
      (∃ p left, s.phase = .attaching (p :: left) ∧
        s' = { s with phase := .attaching left, attached := s.attached ++ [p] }) ∨
      (s.phase = .attaching [] ∧ s' = { s with phase := .looping }) := by
  cases hphase : s.phase with
  | loaded => exact .inl ⟨rfl, by simpa [step, hphase] using h.symm⟩
  | attaching left =>
    cases left with
    | nil => exact .inr (.inr ⟨rfl, by simpa [step, hphase] using h.symm⟩)
    | cons p left => exact .inr (.inl ⟨p, left, rfl, by simpa [step, hphase] using h.symm⟩)
  | looping => simp [step, hphase] at h

theorem loop_cases {o : Options} {cfg : Tracelet.FilterConfig} {s s' : State} {e : EventLoop.Event}
    (h : step o cfg s (.loop e) = some s') :
    (∀ record, e ≠ .fire record) ∧ (e = .signal ∨ s.phase = .looping) ∧
      ∃ loop, EventLoop.step o.cmd o.count s.loop e = some loop ∧ s' = { s with loop := loop } := by
  cases e with
  | fire record => cases h
  | signal => exact ⟨by simp, .inl rfl, _, rfl, (Option.some.inj h).symm⟩
  | check | deliver | endPoll | warn | fail =>
    cases hphase : s.phase with
    | loaded | attaching left => simp [step, hphase] at h
    | looping =>
      simp only [step, hphase, Option.map_eq_some_iff] at h
      obtain ⟨loop, hloop, rfl⟩ := h
      exact ⟨by simp, .inr rfl, loop, hloop, rfl⟩

theorem filterMap_fires (s : State) (f : Firing) :
    (s.fires f).loop.maps.filterMap = s.loop.maps.filterMap := by
  have hhandle : (f.handle s.loop.maps).filterMap = s.loop.maps.filterMap := by
    rw [Firing.handle_eq]
    split_ifs
    · cases f.record <;> rfl
    · rfl
  by_cases hprog : f.prog ∈ s.attached
  · rw [State.fires, if_pos hprog]
    exact hhandle
  · rw [State.fires, if_neg hprog]

theorem filterMap_loop {cmd : Command} {count : Option UInt64} {s s' : EventLoop.State}
    {e : EventLoop.Event} (h : EventLoop.step cmd count s e = some s') :
    s'.maps.filterMap = s.maps.filterMap := by
  have hsame := step_withFilter cmd count s.maps.filterMap s e
  have hs : withFilter s.maps.filterMap s = s := rfl
  rw [hs, h, Option.map_some] at hsame
  exact congrArg (fun t => t.maps.filterMap) (Option.some.inj hsame)

theorem Ready.start (o : Options) (cfg : Tracelet.FilterConfig) : Ready o cfg .start := ⟨rfl, rfl⟩

theorem Ready.step {o : Options} {cfg : Tracelet.FilterConfig} {s s' : State} {e : Event}
    (h : Ready o cfg s) (hstep : Session.step o cfg s e = some s') : Ready o cfg s' := by
  cases e with
  | setup =>
    unfold Ready at h
    -- the filter is written, a program is attached, or the loop is entered
    obtain ⟨hphase, rfl⟩ | ⟨p, left, hphase, rfl⟩ | ⟨hphase, rfl⟩ := setup_cases hstep
    · rw [hphase] at h
      refine ⟨?_, ?_⟩
      · rw [h.1]
        rfl
      · change Tracelet.Filter.applyMap s.loop.maps.filterMap cfg = _
        rw [h.2, filterOf]
    · rw [hphase] at h
      exact ⟨by rw [List.append_assoc]; exact h.1, h.2⟩
    · rw [hphase] at h
      exact ⟨by rw [← h.1, List.append_nil], h.2⟩
  | fires f =>
    obtain rfl := Option.some.inj hstep
    have hfilter := filterMap_fires s f
    have hsame : (s.fires f).phase = s.phase ∧ (s.fires f).attached = s.attached := by
      unfold State.fires
      split_ifs <;> exact ⟨rfl, rfl⟩
    unfold Ready at h ⊢
    rw [hsame.1, hsame.2, hfilter]
    exact h
  | loop e =>
    obtain ⟨-, -, loop, hloop, rfl⟩ := loop_cases hstep
    unfold Ready at h ⊢
    simp only [filterMap_loop hloop]
    exact h

def rows (o : Options) (off : UInt64) (s : State) : Event → List Char
  | .setup | .fires _ => []
  | .loop e => EventLoop.written o.cmd o.format off s.loop e

/-- A step of the session is a run of the loop, with the filter in its maps from
the start. -/
theorem step_simulates {o : Options} {cfg : Tracelet.FilterConfig} (off : UInt64) {s s' : State}
    {e : Event} (h : Ready o cfg s) (hstep : step o cfg s e = some s') :
    Ready o cfg s' ∧
      run (EventLoop.step o.cmd o.count) (withFilter (filterOf cfg) s.loop) (trace s e) =
        some (withFilter (filterOf cfg) s'.loop) ∧
      rows o off s e = outputs (EventLoop.step o.cmd o.count) (EventLoop.written o.cmd o.format off)
        (withFilter (filterOf cfg) s.loop) (trace s e) := by
  refine ⟨h.step hstep, ?_⟩
  cases e with
  | setup =>
    obtain ⟨-, rfl⟩ | ⟨p, left, -, rfl⟩ | ⟨-, rfl⟩ := setup_cases hstep
    · exact ⟨rfl, rfl⟩
    · exact ⟨rfl, rfl⟩
    · exact ⟨rfl, rfl⟩
  | fires f =>
    obtain rfl := Option.some.inj hstep
    -- the loop sees a firing if its program is attached and the filter lets it pass
    by_cases hprog : f.prog ∈ s.attached
    · obtain ⟨-, hfilter⟩ := h.of_mem hprog
      cases hpasses : f.passes s.loop.maps with
      | true =>
        have htrace : trace s (.fires f) = [.fire f.record] := if_pos ⟨hprog, hpasses⟩
        rw [htrace, State.fires, if_pos hprog, Firing.handle_eq, if_pos hpasses, hpasses]
        cases f.record <;> exact ⟨rfl, rfl⟩
      | false =>
        have htrace : trace s (.fires f) = [] := if_neg (by simp [hpasses])
        rw [htrace, State.fires, if_pos hprog, Firing.handle_eq, hpasses]
        exact ⟨rfl, rfl⟩
    · have htrace : trace s (.fires f) = [] := if_neg fun h => hprog h.1
      rw [htrace, State.fires, if_neg hprog]
      exact ⟨rfl, rfl⟩
  | loop e =>
    obtain ⟨-, -, loop, hloop, rfl⟩ := loop_cases hstep
    have hsame := step_withFilter o.cmd o.count (filterOf cfg) s.loop e
    rw [hloop, Option.map_some] at hsame
    have hwritten : EventLoop.written o.cmd o.format off (withFilter (filterOf cfg) s.loop) e =
        EventLoop.written o.cmd o.format off s.loop e := by
      cases e <;> rfl
    constructor
    · exact run_cons_eq_some.mpr ⟨_, hsame, rfl⟩
    · simp only [trace, outputs, hsame, Option.elim_some, List.append_nil, hwritten, rows]

section Asked

variable {o : Options} {cfg : Tracelet.FilterConfig}

theorem asked_fires (hcfg : Tracelet.Filter.config o.args o.mask = .ok cfg) {s : State}
    (h : Ready o cfg s) (f : Firing) :
    asked o s (.fires f) = if f.prog ∈ s.attached ∧
      f.passes s.loop.maps = true then [f] else [] := by
  rw [asked]
  by_cases hprog : f.prog ∈ s.attached
  · obtain ⟨hmem, hfilter⟩ := h.of_mem hprog
    rw [passes_eq_wants hcfg hfilter hmem]
  · rw [if_neg fun hf => hprog hf.1, if_neg fun hf => hprog hf.1]

/-- What is asked for is what the loop sees. -/
theorem submits_trace (hcfg : Tracelet.Filter.config o.args o.mask = .ok cfg) {s : State}
    (h : Ready o cfg s) (e : Event) (hfire : ∀ record, e ≠ .loop (.fire record)) :
    (trace s e).filterMap EventLoop.Event.submits = (asked o s e).filterMap Firing.record := by
  cases e with
  | setup => rfl
  | fires f =>
    rw [asked_fires hcfg h, trace]
    split_ifs
    · rfl
    · rfl
  | loop e =>
    cases e with
    | fire record => exact absurd rfl (hfire record)
    | signal | check | deliver | endPoll | warn | fail => rfl

theorem prog_of_asked {s : State} (h : Ready o cfg s) (e : Event) :
    ∀ f ∈ asked o s e, f.prog ∈ o.cmd.progs := by
  cases e with
  | setup | loop e => exact fun f hf => (List.not_mem_nil hf).elim
  | fires f =>
    intro g hg
    rw [asked] at hg
    split_ifs at hg with hf
    · rw [List.mem_singleton.mp hg]
      exact (h.of_mem hf.1).1
    · cases hg

theorem prog_of_mem_outputs (o : Options) (cfg : Tracelet.FilterConfig) (es : List Event) :
    ∀ f ∈ outputs (step o cfg) (asked o) .start es, f.prog ∈ o.cmd.progs :=
  forall_mem_outputs (I := Ready o cfg) (fun _ e _ h hstep => ⟨h.step hstep, prog_of_asked h e⟩)
    (.start o cfg) es

theorem failures_step (hcfg : Tracelet.Filter.config o.args o.mask = .ok cfg)
    {s s' : State} {e : Event} (h : Ready o cfg s) (hstep : step o cfg s e = some s') :
    s'.loop.failures = s.loop.failures + (asked o s e).countP fun f => f.record.isNone := by
  cases e with
  | setup =>
    obtain ⟨-, rfl⟩ | ⟨p, left, -, rfl⟩ | ⟨-, rfl⟩ := setup_cases hstep
    · rfl
    · rfl
    · rfl
  | fires f =>
    obtain rfl := Option.some.inj hstep
    rw [asked_fires hcfg h, State.fires]
    by_cases hprog : f.prog ∈ s.attached
    · simp only [hprog, if_true, true_and]
      cases hpasses : f.passes s.loop.maps with
      | true => cases hrecord : f.record <;> simp [hrecord]
      | false => simp
    · simp only [hprog, if_false, false_and, List.countP_nil, Nat.add_zero]
  | loop e =>
    obtain ⟨hfire, -, loop, hloop, rfl⟩ := loop_cases hstep
    change loop.failures = s.loop.failures
    cases e with
    | fire record => exact absurd rfl (hfire record)
    | signal => exact Option.some.inj hloop ▸ rfl
    | check expired =>
      obtain ⟨-, ⟨-, rfl⟩ | ⟨-, rfl⟩⟩ := check_cases hloop
      · rfl
      · rfl
    | deliver =>
      obtain ⟨_, _, -, -, ⟨-, rfl⟩ | ⟨-, -, rfl⟩ | ⟨-, -, rfl⟩⟩ := deliver_cases hloop
      · rfl
      · rfl
      · rfl
    | endPoll =>
      obtain ⟨-, rfl⟩ := endPoll_cases hloop
      rfl
    | warn =>
      obtain ⟨-, rfl⟩ := warn_cases hloop
      rfl
    | fail =>
      obtain ⟨-, rfl⟩ := fail_cases hloop
      rfl

end Asked

def State.header (o : Options) (s : State) : List Char :=
  match s.phase with
  | .looping => o.cmd.header o.format
  | .loaded | .attaching _ => []

theorem written_eq_header {o : Options} {cfg : Tracelet.FilterConfig} {off : UInt64}
    {es : List Event} {s : State} (hrun : run (step o cfg) .start es = some s) :
    outputs (step o cfg) (written o off) .start es =
      s.header o ++ outputs (step o cfg) (rows o off) .start es := by
  -- the header comes with the step into the loop, and no row comes before it
  refine (run_history (P := fun es s =>
      (outputs (step o cfg) (written o off) .start es =
        s.header o ++ outputs (step o cfg) (rows o off) .start es) ∧
      (s.phase ≠ .looping → outputs (step o cfg) (rows o off) .start es = []))
    (fun past s e s' hpast hs hstep => ?_) hrun ⟨rfl, fun _ => rfl⟩).1
  obtain ⟨hout, hnone⟩ := hs
  rw [outputs_concat hpast hstep, outputs_concat hpast hstep, hout]
  cases e with
  | setup =>
    obtain ⟨hphase, rfl⟩ | ⟨p, left, hphase, rfl⟩ | ⟨hphase, rfl⟩ := setup_cases hstep
    · simp [State.header, written, rows, hphase, hnone]
    · simp [State.header, written, rows, hphase, hnone]
    · simp [State.header, written, rows, hphase, hnone]
  | fires f =>
    obtain rfl := Option.some.inj hstep
    have hphase : (s.fires f).phase = s.phase := by
      unfold State.fires
      split_ifs <;> rfl
    simpa [State.header, written, rows, hphase] using hnone
  | loop e =>
    obtain ⟨-, hgo, loop, hloop, rfl⟩ := loop_cases hstep
    refine ⟨by simp [State.header, written, rows], fun hphase => ?_⟩
    rcases hgo with rfl | hlooping
    · rw [hnone hphase]
      rfl
    · exact absurd hlooping hphase

/-- The firings whose programs got the memory they asked for. -/
def kept (fs : List Firing) : List Firing := fs.filter fun f => f.record.isSome

theorem filterMap_record (fs : List Firing) :
    fs.filterMap Firing.record = (kept fs).map Firing.bytes := by
  induction fs with
  | nil => rfl
  | cons f fs ih =>
    cases hrecord : f.record with
    | none => simpa [kept, hrecord] using ih
    | some record => simpa [kept, hrecord, Firing.bytes] using ih

/-- What the callback makes of a kept record is the row of its firing. -/
theorem line_bytes {cmd : Command} {f : Firing} (hprog : f.prog ∈ cmd.progs)
    (hkept : f.record.isSome = true) (format : OutputFormat) (off : UInt64) :
    cmd.line format off f.bytes = f.line format off := by
  obtain ⟨task, now, tracepoint⟩ := f
  cases tracepoint with
  | schedProcessExec ctx reserved =>
    cases cmd with
    | fileOpen | tcp => simp [Command.progs, Firing.prog] at hprog
    | exec => cases reserved with
      | none => cases hkept
      | some slot => exact line_fillExec format off task now ctx slot
  | sysEnter call ctx reserved =>
    cases cmd with
    | exec | tcp => cases call <;> simp [Command.progs, Firing.prog] at hprog
    | fileOpen => cases reserved with
      | none => cases hkept
      | some slot => exact line_fillOpen format off task now call ctx slot
  | inetSockSetState ctx inet reserved =>
    cases cmd with
    | exec | fileOpen => simp [Command.progs, Firing.prog] at hprog
    | tcp =>
      cases hkind : ctx.kind with
      | none => simp [Firing.record, hkind] at hkept
      | some kind => cases reserved with
        | none => simp [Firing.record, hkind] at hkept
        | some slot =>
          have hrow := line_fillTcp format off task now hkind inet slot
          simpa [Firing.bytes, Firing.record, hkind] using hrow

theorem decodes_bytes {cmd : Command} {f : Firing} (hprog : f.prog ∈ cmd.progs)
    (hkept : f.record.isSome = true) : cmd.decodes f.bytes = f.readable := by
  have hdecodes : cmd.decodes f.bytes = (cmd.line .text 0 f.bytes).isSome := by
    cases cmd <;> simp [Command.decodes, Command.line]
  rw [hdecodes, line_bytes hprog hkept, Firing.line]
  split_ifs with hreadable
  · exact hreadable.symm
  · exact (Bool.eq_false_iff.mpr hreadable).symm

/-- What the user sees of the firings that were asked for. -/
structure Shown (o : Options) (off : UInt64) (asked : List Firing) (out : List Char) (s : State) :
    Prop where
  stdout : out =
    s.header o ++ (((kept asked).take s.loop.counted).filterMap (Firing.line o.format off)).flatten
  lines : s.loop.lines = ((kept asked).take s.loop.counted).countP Firing.readable
  pending : s.loop.maps.events = ((kept asked).drop s.loop.consumed).map Firing.bytes
  counted_le : s.loop.counted ≤ s.loop.consumed
  consumed_le : s.loop.consumed ≤ (kept asked).length
  running : s.loop.running = true → s.loop.counted = s.loop.consumed
  drops : Stats.readDropKey s.loop.maps.drops 0 =
    UInt64.ofNat (asked.countP fun f => f.record.isNone)

theorem shown_of_run {o : Options} {cfg : Tracelet.FilterConfig} (off : UInt64)
    {es : List Event} {s : State}
    (hcfg : Tracelet.Filter.config o.args o.mask = .ok cfg)
    (hrun : run (step o cfg) .start es = some s) :
    Ready o cfg s ∧ Shown o off (outputs (step o cfg) (asked o) .start es)
      (outputs (step o cfg) (written o off) .start es) s := by
  have hprog := prog_of_mem_outputs o cfg es
  have hfailures : s.loop.failures =
      (outputs (step o cfg) (asked o) .start es).countP fun f => f.record.isNone := by
    refine (run_history (P := fun es s => Ready o cfg s ∧ s.loop.failures =
        (outputs (step o cfg) (asked o) .start es).countP fun f => f.record.isNone)
      (fun past s e s' hpast hs hstep => ⟨hs.1.step hstep, ?_⟩) hrun ⟨.start o cfg, rfl⟩).2
    rw [failures_step hcfg hs.1 hstep, hs.2, outputs_concat hpast hstep, List.countP_append]
  obtain ⟨hready, hloop, hrows⟩ :=
    simulates (I := Ready o cfg) (fun s e s' h hstep => step_simulates off h hstep) hrun
      (.start o cfg)
  obtain ⟨hdelivered, hprinted, hlines⟩ := outputs_written o.format off hloop
  have hcounted := run_invariant (P := Counted) (fun s e s' h hstep => h.step hstep) hloop
    (counted_start _)
  -- the records submitted are those of the firings that were asked for and stored
  have hsubmitted : submitted EventLoop.Event.submits (outputs (step o cfg) trace .start es) =
      (kept (outputs (step o cfg) (asked o) .start es)).map Firing.bytes := by
    rw [← filterMap_record, submitted, filterMap_outputs, filterMap_outputs]
    exact outputs_congr (I := Ready o cfg) (fun s e s' h hstep =>
      ⟨h.step hstep, submits_trace hcfg h e fun record he => by rw [he] at hstep; cases hstep⟩)
      (.start o cfg) es
  have hsame : (withFilter (filterOf cfg) s.loop).counted = s.loop.counted := rfl
  have htake :
    ((submitted EventLoop.Event.submits (outputs (step o cfg) trace .start es)).take
      s.loop.counted) =
      ((kept (outputs (step o cfg) (asked o) .start es)).take s.loop.counted).map Firing.bytes := by
    rw [hsubmitted, List.map_take]
  have hmem : ∀ f ∈ (kept (outputs (step o cfg) (asked o) .start es)).take s.loop.counted,
      f.prog ∈ o.cmd.progs ∧ f.record.isSome = true := by
    intro f hf
    obtain ⟨hall, hkept⟩ := List.mem_filter.mp (List.mem_of_mem_take hf)
    exact ⟨hprog f hall, hkept⟩
  refine ⟨hready, ?_, ?_, ?_, hdelivered.counted_le, ?_, hdelivered.running, ?_⟩
  · rw [written_eq_header hrun, hrows]
    refine congrArg (s.header o ++ ·) (hprinted.trans ?_)
    rw [hsame, htake, printed, List.filterMap_map]
    exact congrArg List.flatten (List.filterMap_congr fun f hf =>
      line_bytes (hmem f hf).1 (hmem f hf).2 o.format off)
  · have hl : s.loop.lines = _ := hlines
    rw [hl, hsame, htake, List.countP_map]
    exact List.countP_congr fun f hf => by
      rw [Function.comp_apply, decodes_bytes (hmem f hf).1 (hmem f hf).2]
  · have hpending : s.loop.maps.events = _ := hdelivered.pending
    rw [hpending, hsubmitted, List.map_drop]
    rfl
  · have hle := hdelivered.consumed_le
    rwa [hsubmitted, List.length_map] at hle
  · have hdrops : Stats.readDropKey s.loop.maps.drops 0 = UInt64.ofNat s.loop.failures := by
      rw [Stats.readDropKey]
      exact congrArg (Option.getD · 0) hcounted.ringbufDrops
    rw [hdrops, hfailures]

/-- From the command line to standard output: after the header, a run prints the
rows of exactly the asked-for firings that got memory, that the decoders can read
and that were delivered before a signal, in the order in which they happened, and
each row says what happened. The records not yet delivered are still in the ring
buffer, and the failed reservations are counted. -/
theorem run_shows_asked (o : Options) (cfg : Tracelet.FilterConfig) (off : UInt64) (es : List Event)
    (s : State) (hcfg : Tracelet.Filter.config o.args o.mask = .ok cfg)
    (hrun : run (step o cfg) .start es = some s) :
    Ready o cfg s ∧ Shown o off (outputs (step o cfg) (asked o) .start es)
      (outputs (step o cfg) (written o off) .start es) s :=
  shown_of_run off hcfg hrun

def execOptions : Options where
  cmd := .exec
  args := ⟨none, none, none⟩
  event := none
  count := none
  format := .text
  pid_ne_nil := by simp
  comm_noNul := by simp

def shellExecs : Firing :=
  ⟨shell, 0, .schedProcessExec ⟨100, shortPath⟩ (some (Vector.replicate 176 0))⟩

set_option maxRecDepth 4000 in
theorem run_shows_asked_shell :
    ∃ s, run (step execOptions { eventMask := 7 }) .start
        [.setup, .fires shellExecs, .setup, .fires shellExecs, .setup, .loop (.check false),
          .loop .deliver] = some s ∧
      Shown execOptions 0
        (outputs (step execOptions { eventMask := 7 }) (asked execOptions) .start
          [.setup, .fires shellExecs, .setup, .fires shellExecs, .setup, .loop (.check false),
            .loop .deliver])
        (outputs (step execOptions { eventMask := 7 }) (written execOptions 0) .start
          [.setup, .fires shellExecs, .setup, .fires shellExecs, .setup, .loop (.check false),
            .loop .deliver]) s := by
  obtain ⟨s, hs⟩ :=
    Option.isSome_iff_exists.mp (show (run (step execOptions { eventMask := 7 }) .start
    [.setup, .fires shellExecs, .setup, .fires shellExecs, .setup, .loop (.check false),
      .loop .deliver]).isSome = true by decide)
  exact ⟨s, hs, (run_shows_asked execOptions { eventMask := 7 } 0 _ s rfl hs).2⟩

end Session

end Tracelet
