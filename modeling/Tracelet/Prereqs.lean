import Tracelet.Columns
import Tracelet.DashboardSession
import Tracelet.LatencySession

namespace Tracelet
open KernelMap TransitionRun

namespace Prereqs
open Bpf
open LatencyPane (Prog collectProgs)

def tracepointsFor : String → List String
  | "exec" => ["sched/sched_process_exec"]
  | "open" => ["syscalls/sys_enter_open", "syscalls/sys_enter_openat", "syscalls/sys_enter_openat2"]
  | "tcp" => ["sock/inet_sock_set_state"]
  | "latency" => ["syscalls/sys_enter_read", "syscalls/sys_exit_read", "syscalls/sys_enter_write",
      "syscalls/sys_exit_write", "syscalls/sys_enter_openat", "syscalls/sys_exit_openat"]
  | "dashboard" =>
    ["sched/sched_process_exec", "syscalls/sys_enter_open", "syscalls/sys_enter_openat",
      "syscalls/sys_enter_openat2", "syscalls/sys_exit_openat", "syscalls/sys_enter_read",
      "syscalls/sys_exit_read", "syscalls/sys_enter_write", "syscalls/sys_exit_write",
      "sock/inet_sock_set_state"]
  | _ => []

structure BpfError where
  msg : String
  deriving DecidableEq

/-- `there` says which files exist. -/
def findTracefs (there : String → Bool) : Except BpfError String :=
  match ["/sys/kernel/tracing", "/sys/kernel/debug/tracing"].find? fun dir =>
    there (dir ++ "/events") with
  | some dir => .ok dir
  | none => .error ⟨"tracefs not found; needed for tracepoint validation"⟩

def missingTracepoints (there : String → Bool) (tracefs collector : String) : List String :=
  (tracepointsFor collector).filter fun tp => !there (tracefs ++ "/events/" ++ tp)

def checkPrereqs (there : String → Bool) (collector : String) : Except BpfError Unit :=
  if !there "/sys/kernel/btf/vmlinux" then
    .error
      ⟨"kernel BTF required at /sys/kernel/btf/vmlinux (Linux 5.4+ with CONFIG_DEBUG_INFO_BTF)"⟩
  else
    match findTracefs there with
    | .error err => .error err
    | .ok tracefs =>
      let missing := missingTracepoints there tracefs collector
      if missing ≠ [] then
        .error ⟨"missing tracepoints: " ++ String.intercalate ", " missing ++
          "; kernel may be too old"⟩
      else .ok ()

/-- What the commands pass to it. -/
def collector : EventLoop.Command → String
  | .exec => "exec"
  | .fileOpen => "open"
  | .tcp => "tcp"

/-- `SEC("tp/..")` of a program in `tracelet.bpf.c`. -/
def tracepoint : Prog → String
  | .traceExec => "sched/sched_process_exec"
  | .traceOpen => "syscalls/sys_enter_open"
  | .traceOpenat => "syscalls/sys_enter_openat"
  | .traceOpenat2 => "syscalls/sys_enter_openat2"
  | .traceTcp => "sock/inet_sock_set_state"
  | .latency (.enter k) => "syscalls/sys_enter_" ++ k.name
  | .latency (.exit k) => "syscalls/sys_exit_" ++ k.name

/-- The tracepoint of a program is there. -/
def Attachable (there : String → Bool) (p : Prog) : Prop :=
  ∃ tracefs, findTracefs there = .ok tracefs ∧ there (tracefs ++ "/events/" ++ tracepoint p) = true

theorem tracepointsFor_collector (cmd : EventLoop.Command) :
    tracepointsFor (collector cmd) = cmd.progs.map tracepoint := by
  cases cmd <;> rfl

theorem tracepointsFor_latency :
    tracepointsFor "latency" = LatencyPane.latencyProgs.map tracepoint := rfl

/-- `check_prereqs` asks for all the tracepoints that both panes could use, and `collect`
attaches to some of them. -/
theorem mem_tracepointsFor_dashboard (tp : String) :
    tp ∈ tracepointsFor "dashboard" ↔
      tp ∈ (collectProgs ++ LatencyPane.latencyProgs).map tracepoint := by
  -- `trace_openat` and `trace_openat_enter` are on the same tracepoint
  have hperm : (tracepointsFor "dashboard" ++ ["syscalls/sys_enter_openat"]).Perm
      ((collectProgs ++ LatencyPane.latencyProgs).map tracepoint) := by decide
  rw [← hperm.mem_iff, List.mem_append, List.mem_singleton]
  refine ⟨Or.inl, fun h => h.elim id fun heq => ?_⟩
  rw [heq]
  decide

theorem missingTracepoints_eq_nil_iff (there : String → Bool) (tracefs collector : String) :
    missingTracepoints there tracefs collector = [] ↔
      ∀ tp ∈ tracepointsFor collector, there (tracefs ++ "/events/" ++ tp) = true := by
  simp only [missingTracepoints, List.filter_eq_nil_iff, Bool.not_eq_true', Bool.not_eq_false]

theorem checkPrereqs_eq_ok_iff (there : String → Bool) (collector : String) :
    checkPrereqs there collector = .ok () ↔ there "/sys/kernel/btf/vmlinux" = true ∧
      ∃ tracefs, findTracefs there = .ok tracefs ∧
        ∀ tp ∈ tracepointsFor collector, there (tracefs ++ "/events/" ++ tp) = true := by
  unfold checkPrereqs
  cases there "/sys/kernel/btf/vmlinux" with
  | false => simp
  | true =>
    cases findTracefs there with
    | error err => simp
    | ok tracefs =>
      simp only [Bool.not_true, Bool.false_eq_true, if_false, true_and, Except.ok.injEq,
        exists_eq_left', ← missingTracepoints_eq_nil_iff]
      split_ifs with hmissing
      · simp [hmissing]
      · simpa using hmissing

/-- A command starts exactly if there is a BTF file and all its programs can be attached. -/
theorem checkPrereqs_ok_iff_attachable {there : String → Bool} {collector : String}
    {progs : List Prog} (hne : progs ≠ []) (hprogs : ∀ tp, tp ∈ tracepointsFor collector ↔
    tp ∈ progs.map tracepoint) :
    checkPrereqs there collector = .ok () ↔
      there "/sys/kernel/btf/vmlinux" = true ∧ ∀ p ∈ progs, Attachable there p := by
  rw [checkPrereqs_eq_ok_iff]
  refine and_congr_right fun _ => ⟨?_, fun h => ?_⟩
  · rintro ⟨tracefs, hfound, hthere⟩ p hp
    exact ⟨tracefs, hfound, hthere _ ((hprogs _).mpr (List.mem_map_of_mem hp))⟩
  · obtain ⟨p, hp⟩ := List.exists_mem_of_ne_nil progs hne
    obtain ⟨tracefs, hfound, -⟩ := h p hp
    refine ⟨tracefs, hfound, fun tp htp => ?_⟩
    obtain ⟨q, hq, rfl⟩ := List.mem_map.mp ((hprogs tp).mp htp)
    obtain ⟨tracefs', hfound', hthere⟩ := h q hq
    obtain rfl := Except.ok.inj (hfound.symm.trans hfound')
    exact hthere

def readMissing (err : BpfError) : List String :=
  (Columns.readJoined ((err.msg.toList.drop 21).rdrop 23)).map String.ofList

theorem findTracefs_error {there : String → Bool} {err : BpfError}
    (h : findTracefs there = .error err) :
    there "/sys/kernel/tracing/events" = false ∧
      there "/sys/kernel/debug/tracing/events" = false := by
  unfold findTracefs at h
  split at h
  · cases h
  · rename_i hnone
    simpa using List.find?_eq_none.mp hnone

theorem notMem_tracepointsFor (collector : String) :
    ∀ tp ∈ tracepointsFor collector, ',' ∉ tp.toList ∧ ' ' ∉ tp.toList := by
  unfold tracepointsFor
  split
  all_goals decide

theorem readMissing_intercalate {missing : List String} (hne : missing ≠ [])
    (h : ∀ tp ∈ missing, ',' ∉ tp.toList ∧ ' ' ∉ tp.toList) :
    readMissing ⟨"missing tracepoints: " ++ String.intercalate ", " missing ++
      "; kernel may be too old"⟩ =
      missing := by
  have hbefore : "missing tracepoints: ".toList.length = 21 := by decide
  have hbehind : "; kernel may be too old".toList.length = 23 := by decide
  have hnames : Columns.readJoined (", ".toList.intercalate (missing.map String.toList)) =
      missing.map String.toList := by
    refine Columns.readJoined_intercalate (List.map_eq_nil_iff.not.mpr hne) fun name hname => ?_
    obtain ⟨tp, htp, rfl⟩ := List.mem_map.mp hname
    exact h tp htp
  rw [readMissing, String.toList_append, String.toList_append, String.toList_intercalate,
    List.append_assoc, List.drop_left' hbefore, ← hbehind, List.rdrop_append_length, hnames,
    List.map_map]
  exact List.map_id'' (fun tp => String.ofList_toList) missing

/-- A command that does not start says why: there is no BTF file, there is no tracefs, or
the message lists exactly the tracepoints that are missing. -/
theorem missing_listed {there : String → Bool} {collector : String} {err : BpfError}
    (h : checkPrereqs there collector = .error err) :
    there "/sys/kernel/btf/vmlinux" = false ∨
      (findTracefs there = .error err ∧ there "/sys/kernel/tracing/events" = false ∧
        there "/sys/kernel/debug/tracing/events" = false) ∨
      ∃ tracefs, findTracefs there = .ok tracefs ∧ missingTracepoints there tracefs collector ≠ [] ∧
        readMissing err = missingTracepoints there tracefs collector := by
  unfold checkPrereqs at h
  split_ifs at h with hbtf
  · exact .inl (by simpa using hbtf)
  · right
    cases hfound : findTracefs there with
    | error err' =>
      simp only [hfound, Except.error.injEq] at h
      rw [← h]
      exact .inl ⟨rfl, findTracefs_error hfound⟩
    | ok tracefs =>
      simp only [hfound] at h
      split_ifs at h with hmissing
      refine .inr ⟨tracefs, rfl, hmissing, ?_⟩
      rw [← Except.error.inj h]
      exact readMissing_intercalate hmissing fun tp htp =>
        notMem_tracepointsFor collector tp (List.mem_of_mem_filter htp)

/-- Tracefs stands in its old place, and the kernel is too old for `openat2`. -/
def oldKernel (path : String) : Bool :=
  path ≠ "/sys/kernel/tracing/events" ∧
    path ≠ "/sys/kernel/debug/tracing/events/syscalls/sys_enter_openat2"

theorem missing_listed_old :
    ∃ err, checkPrereqs oldKernel "open" = .error err ∧
      readMissing err = ["syscalls/sys_enter_openat2"] := by
  refine ⟨_, rfl, ?_⟩
  obtain h | ⟨h, -⟩ | ⟨tracefs, hfound, -, hlist⟩ :=
    missing_listed (show checkPrereqs oldKernel "open" = .error _ from rfl)
  · cases h
  · cases h
  · cases hfound
    exact hlist

theorem attached_dashboard {S : Type} {lib : ListWidget S} {off : UInt64}
    {cfg : Tracelet.FilterConfig} {started now : ℕ} {es : List DashboardSession.Event}
    {s : DashboardSession.State S}
    (hrun : run (DashboardSession.step lib off cfg) (.start lib started now) es = some s) :
    s.attached ⊆ collectProgs := by
  -- what is attached and what is left to attach; dropping a link only takes away
  have hall : s.attached ++ DashboardSession.left s.phase ⊆ collectProgs := by
    refine run_invariant (P := fun s => s.attached ++ DashboardSession.left s.phase ⊆ collectProgs)
      (fun s e s' h hstep => ?_) hrun (List.Subset.refl _)
    cases e with
    | setup =>
      obtain ⟨-, ⟨hphase, rfl⟩ | ⟨p, left, hphase, rfl⟩ | ⟨hphase, loop, -, rfl⟩⟩ :=
        DashboardSession.setup_cases hstep
      · rw [hphase] at h
        exact h
      · rw [hphase] at h
        rw [List.append_assoc]
        exact h
      · rw [hphase] at h
        exact h
    | fires f =>
      obtain rfl := Option.some.inj hstep
      unfold DashboardSession.State.fires
      split_ifs <;> exact h
    | detach =>
      obtain ⟨-, rfl⟩ := DashboardSession.detach_cases hstep
      obtain ⟨hattached, hleft⟩ := List.append_subset.mp h
      exact List.append_subset.mpr ⟨fun p hp => hattached (List.mem_of_mem_tail hp), hleft⟩
    | loop e =>
      obtain ⟨-, loop, -, rfl⟩ := DashboardSession.loop_cases hstep
      exact h
  exact (List.append_subset.mp hall).1

/-- Once `check_prereqs` is passed, none of the five commands ever attaches a program to a
tracepoint that is not there. -/
theorem attached_exist (there : String → Bool) :
    (∀ o cfg es s, checkPrereqs there (collector o.cmd) = .ok () →
      run (Session.step o cfg) .start es = some s → ∀ p ∈ s.attached, Attachable there p) ∧
    (∀ o cfg clock busy es s, checkPrereqs there "latency" = .ok () →
      run (LatencySession.step o cfg) (.start o clock busy) es = some s →
      ∀ p ∈ s.system.attached, Attachable there (.latency p)) ∧
    ∀ (S : Type) (lib : ListWidget S) off cfg started now es s,
      checkPrereqs there "dashboard" = .ok () →
      run (DashboardSession.step lib off cfg) (.start lib started now) es = some s →
      ∀ p ∈ s.attached, Attachable there p := by
  refine ⟨fun o cfg es s hok hrun p hp => ?_, fun o cfg clock busy es s hok _ p _ => ?_,
    fun S lib off cfg started now es s hok hrun p hp => ?_⟩
  · have hready : Session.Ready o cfg s :=
      run_invariant (fun _ _ _ h hstep => h.step hstep) hrun (.start o cfg)
    have hprog := (hready.of_mem hp).1
    have hneeded : checkPrereqs there (collector o.cmd) = .ok () ↔ _ :=
      checkPrereqs_ok_iff_attachable (List.ne_nil_of_mem hprog) fun tp =>
        (by rw [tracepointsFor_collector])
    exact (hneeded.mp hok).2 p hprog
  · have hneeded : checkPrereqs there "latency" = .ok () ↔ _ ∧ ∀ q ∈ LatencyPane.latencyProgs, _ :=
      checkPrereqs_ok_iff_attachable (List.cons_ne_nil _ _) fun tp =>
        (by rw [tracepointsFor_latency])
    refine (hneeded.mp hok).2 _ ?_
    -- all six programs are covered, whichever of them `--syscall` selects
    cases p with
    | enter k => cases k <;> simp [LatencyPane.latencyProgs, Latency.attach, Latency.selected]
    | exit k => cases k <;> simp [LatencyPane.latencyProgs, Latency.attach, Latency.selected]
  · have hneeded : checkPrereqs there "dashboard" = .ok () ↔ _ :=
      checkPrereqs_ok_iff_attachable (List.cons_ne_nil _ _) mem_tracepointsFor_dashboard
    exact (hneeded.mp hok).2 p (List.mem_append_left _ (attached_dashboard hrun hp))

theorem attached_exist_old :
    ∃ s, run (Session.step Session.execOptions { eventMask := 7 }) .start
      [.setup, .setup] = some s ∧
      s.attached ≠ [] ∧ ∀ p ∈ s.attached, Attachable oldKernel p := by
  refine ⟨_, rfl, List.cons_ne_nil _ _, ?_⟩
  exact (attached_exist oldKernel).1 Session.execOptions { eventMask := 7 }
    [.setup, .setup] _ rfl rfl

end Prereqs

end Tracelet
