import Tracelet.Columns
import Tracelet.Session

namespace Tracelet
open RustText KernelMap TransitionRun Columns

namespace Events

/-- The millisecond of the day that `HH:MM:SS.mmm` names. -/
def readTime (cs : List Char) : ℕ :=
  let field := fun start len => Nat.ofDigitChars 10 ((cs.drop start).take len) 0
  ((field 0 2 * 60 + field 3 2) * 60 + field 6 2) * 1000 + field 9 3

theorem readTime_fields {hours minutes seconds millis : List Char} (hh : hours.length = 2)
    (hm : minutes.length = 2) (hs : seconds.length = 2) (hms : millis.length = 3) :
    readTime (hours ++ ':' :: minutes ++ ':' :: seconds ++ '.' :: millis) =
      ((Nat.ofDigitChars 10 hours 0 * 60 + Nat.ofDigitChars 10 minutes 0) * 60 +
        Nat.ofDigitChars 10 seconds 0) * 1000 + Nat.ofDigitChars 10 millis 0 := by
  obtain ⟨a, b, rfl⟩ := List.length_eq_two.mp hh
  obtain ⟨c, d, rfl⟩ := List.length_eq_two.mp hm
  obtain ⟨e, f, rfl⟩ := List.length_eq_two.mp hs
  obtain ⟨g, h, i, rfl⟩ := List.length_eq_three.mp hms
  rfl

theorem readTime_clockTime (ns : UInt64) :
    readTime (clockTime ns).toList = millisOfDay ns.toNat := by
  have hfields : (clockTime ns).toList =
      zeroPad 2 (ns.toNat / 1000000000 / 3600 % 24) ++ ':' ::
        zeroPad 2 (ns.toNat / 1000000000 / 60 % 60) ++ ':' ::
        zeroPad 2 (ns.toNat / 1000000000 % 60) ++ '.' ::
        zeroPad 3 (ns.toNat % 1000000000 / 1000000) := by
    simp [clockTime, UInt64.toNat_div, UInt64.toNat_mod]
  have htwo : ∀ {n : ℕ}, n < 60 → (zeroPad 2 n).length = 2 := fun h =>
    length_zeroPad (by decide) (by omega)
  rw [hfields, readTime_fields (htwo (by omega)) (htwo (by omega)) (htwo (by omega))
    (length_zeroPad (by decide) (by omega))]
  simp only [ofDigitChars_zeroPad, millisOfDay]
  omega

theorem blank_notMem_wallTime (ktimeNs off : UInt64) : ' ' ∉ (wallTime ktimeNs off).toList := by
  simp [wallTime, clockTime, blank_notMem_zeroPad]

end Events

structure TextRow where
  time : ℕ
  pid : ℕ
  ppid : Option ℕ
  comm : String
  event : Option String
  details : String

namespace EventLoop

def Command.columns : Command → List Column
  | exec => [.token 12, .token 7, .token 7, .fixed 16]
  | fileOpen => [.token 12, .token 7, .fixed 16]
  | tcp => [.token 12, .fixed 16, .token 7, .token 9]

def readNumber (digits : List Char) : ℕ := Nat.ofDigitChars 10 digits 0

theorem readNumber_toString (n : ℕ) : readNumber (toString n).toList = n := by
  rw [toList_toString, readNumber, Nat.ofDigitChars_ten_toDigits]

def Command.readRow (cmd : Command) (line : List Char) : Option TextRow :=
  match cmd, Columns.readRow cmd.columns line.dropLast with
  | exec, ([time, pid, ppid, comm], filename) =>
    some ⟨Events.readTime time, readNumber pid, some (readNumber ppid), .ofList comm, none,
      .ofList filename⟩
  | fileOpen, ([time, pid, comm], filename) =>
    some ⟨Events.readTime time, readNumber pid, none, .ofList comm, none, .ofList filename⟩
  | tcp, ([time, comm, pid, event], destination) =>
    some ⟨Events.readTime time, readNumber pid, none, .ofList comm, some (.ofList event),
      .ofList destination⟩
  | _, _ => none

end EventLoop

theorem readRow_printRow (row : List (Column × String))
    (h : row.Forall fun p => p.1.Fits p.2.toList) (last : String) :
    Columns.readRow (row.map Prod.fst)
        (printRow (row.map fun p => (p.1.width, p.2)) last).dropLast =
      (row.map fun p => trimEnd p.2.toList, last.toList) := by
  have hpad : (printRow (row.map fun p => (p.1.width, p.2)) last).dropLast =
      (row.map fun p => (p.1, p.2.toList)).flatMap (fun p => pad p.1.width p.2) ++ last.toList := by
    rw [printRow, List.dropLast_concat, List.flatMap_map, List.flatMap_map]
    rfl
  have hcolumns : row.map Prod.fst = (row.map fun p => (p.1, p.2.toList)).map Prod.fst := by
    rw [List.map_map]
    rfl
  rw [hpad, hcolumns, readRow_pad]
  · rw [List.map_map]
    rfl
  · exact List.forall_mem_map.mpr (List.forall_iff_forall_mem.mp h)

namespace EventLoop

section Rows

variable {time comm : String} (htime : ' ' ∉ time.toList) (pid ppid : ℕ)
  (hcomm : comm.toList.length ≤ 16)
  (last : String)
include htime hcomm

theorem readRow_exec :
    Command.exec.readRow
        (printRow [(12, time), (7, toString pid), (7, toString ppid), (16, comm)] last) =
      some ⟨Events.readTime time.toList, pid, some ppid, .ofList (trimEnd comm.toList),
        none, last⟩ := by
  have hread :=
    readRow_printRow [(.token 12, time), (.token 7, toString pid), (.token 7, toString ppid),
    (.fixed 16, comm)] ⟨htime, blank_notMem_toString pid, blank_notMem_toString ppid, hcomm⟩ last
  change Columns.readRow Command.exec.columns _ = _ at hread
  simp only [List.map_cons, List.map_nil, Column.width] at hread
  unfold Command.readRow
  rw [hread]
  simp only [trimEnd_of_notMem htime, trimEnd_of_notMem (blank_notMem_toString _),
    readNumber_toString, String.ofList_toList]

theorem readRow_open :
    Command.fileOpen.readRow (printRow [(12, time), (7, toString pid), (16, comm)] last) =
      some ⟨Events.readTime time.toList, pid, none, .ofList (trimEnd comm.toList), none, last⟩ := by
  have hread := readRow_printRow [(.token 12, time), (.token 7, toString pid), (.fixed 16, comm)]
    ⟨htime, blank_notMem_toString pid, hcomm⟩ last
  change Columns.readRow Command.fileOpen.columns _ = _ at hread
  simp only [List.map_cons, List.map_nil, Column.width] at hread
  unfold Command.readRow
  rw [hread]
  simp only [trimEnd_of_notMem htime, trimEnd_of_notMem (blank_notMem_toString _),
    readNumber_toString, String.ofList_toList]

theorem readRow_tcp {event : String} (hevent : ' ' ∉ event.toList) :
    Command.tcp.readRow (printRow [(12, time), (16, comm), (7, toString pid), (9, event)] last) =
      some ⟨Events.readTime time.toList, pid, none, .ofList (trimEnd comm.toList),
        some event, last⟩ := by
  have hread := readRow_printRow [(.token 12, time), (.fixed 16, comm), (.token 7, toString pid),
    (.token 9, event)] ⟨htime, hcomm, blank_notMem_toString pid, hevent⟩ last
  change Columns.readRow Command.tcp.columns _ = _ at hread
  simp only [List.map_cons, List.map_nil, Column.width] at hread
  unfold Command.readRow
  rw [hread]
  simp only [trimEnd_of_notMem htime, trimEnd_of_notMem (blank_notMem_toString _),
    readNumber_toString, trimEnd_of_notMem hevent, String.ofList_toList]

end Rows

end EventLoop

namespace Bpf
open EventLoop
open Tracelet.Filter (EventKind)

/-- What the row of a firing says, from what happened: blanks at the end of the
process name are lost. -/
def Firing.textRow (off : UInt64) (f : Firing) : TextRow :=
  let time := millisOfDay (off + f.now).toNat
  let comm := String.ofList (trimEnd (asText f.task.comm.name).toList)
  match f.tracepoint with
  | .schedProcessExec ctx _ =>
    ⟨time, ctx.pid.toUInt32.toNat, some f.task.parentTgid.toNat, comm, none,
      asText (ctx.filename.bytes.take 127)⟩
  | .sysEnter call ctx _ =>
    ⟨time, f.task.tgid.toNat, none, comm, none, asText ((call.fname ctx).bytes.take 127)⟩
  | .inetSockSetState ctx _ _ =>
    ⟨time, f.task.tgid.toNat, none, comm, some (ctx.kind.elim "" EventKind.name),
      ctx.endpoint ctx.daddr ctx.daddrV6 ctx.dport⟩

def Firing.members (off : UInt64) (f : Firing) : List (String × Json.Value) :=
  let time := .string (Events.wallTime f.now off)
  let comm := .string (asText f.task.comm.name)
  match f.tracepoint with
  | .schedProcessExec ctx _ =>
    [("event", .string "exec"), ("time", time), ("pid", .ofNat ctx.pid.toUInt32.toNat),
      ("ppid", .ofNat f.task.parentTgid.toNat), ("comm", comm),
      ("filename", .string (asText (ctx.filename.bytes.take 127)))]
  | .sysEnter call ctx _ =>
    [("event", .string "open"), ("time", time), ("pid", .ofNat f.task.tgid.toNat), ("comm", comm),
      ("filename", .string (asText ((call.fname ctx).bytes.take 127)))]
  | .inetSockSetState ctx _ _ =>
    [("event", .string "tcp"), ("time", time), ("pid", .ofNat f.task.tgid.toNat), ("comm", comm),
      ("tcp_event", .string (ctx.kind.elim "" EventKind.name)),
      ("source", .string (ctx.endpoint ctx.saddr ctx.saddrV6 ctx.sport)),
      ("destination", .string (ctx.endpoint ctx.daddr ctx.daddrV6 ctx.dport))]

theorem length_asText (bs : List UInt8) : (asText bs).toList.length = bs.length := by
  rw [asText, String.toList_ofList, List.length_map]

theorem plain_asText {bs : List UInt8} (h : PrintableText bs) : Plain (asText bs).toList := by
  rw [asText, String.toList_ofList]
  intro c hc
  obtain ⟨b, hb, rfl⟩ := List.mem_map.mp hc
  rw [Output.toNat_char]
  exact ⟨UInt8.le_iff_toNat_le.mp (h b hb).1, UInt8.lt_iff_toNat_lt.mp (h b hb).2⟩

theorem plain_endpoint (ctx : TcpCtx) (v4 : Vector UInt8 4) (v6 : Vector UInt8 16) (port : UInt16) :
    Plain (ctx.endpoint v4 v6 port).toList := by
  unfold TcpCtx.endpoint
  split_ifs
  · simp [plain_displayIpv4]
  · simp [plain_displayIpv6]

theorem blank_notMem_name (kind : Option EventKind) :
    ' ' ∉ (kind.elim "" EventKind.name).toList := by
  cases kind with
  | none => decide
  | some kind => cases kind <;> decide

theorem plain_name (kind : Option EventKind) : Plain (kind.elim "" EventKind.name).toList := by
  cases kind with
  | none => simp
  | some kind => cases kind <;> simp [EventKind.name]

/-- The reader of a command reads what its rows say. -/
theorem readRow_row {cmd : Command} {f : Firing} (hprog : f.prog ∈ cmd.progs) (off : UInt64) :
    cmd.readRow (f.row .text off) = some (f.textRow off) := by
  obtain ⟨task, now, tracepoint⟩ := f
  have htime := Events.blank_notMem_wallTime now off
  have hread : Events.readTime (Events.wallTime now off).toList = millisOfDay (off + now).toNat :=
    Events.readTime_clockTime (off + now)
  have hcomm : (asText task.comm.name).toList.length ≤ 16 := by
    have hlen := task.comm.length_le
    rw [length_asText]
    omega
  cases tracepoint with
  | schedProcessExec ctx reserved =>
    cases cmd with
    | fileOpen | tcp => simp [Command.progs, Firing.prog] at hprog
    | exec => exact (readRow_exec htime _ _ hcomm _).trans (by rw [hread]; rfl)
  | sysEnter call ctx reserved =>
    cases cmd with
    | exec | tcp => cases call <;> simp [Command.progs, Firing.prog] at hprog
    | fileOpen => exact (readRow_open htime _ hcomm _).trans (by rw [hread]; rfl)
  | inetSockSetState ctx inet reserved =>
    cases cmd with
    | exec | fileOpen => simp [Command.progs, Firing.prog] at hprog
    | tcp =>
      exact (readRow_tcp htime _ hcomm _ (blank_notMem_name ctx.kind)).trans (by rw [hread]; rfl)

/-- The JSON reader reads what a line says. -/
theorem parse_row {f : Firing} (hkept : f.record.isSome = true) (h : f.readable = true)
    (off : UInt64) :
    Json.parse (f.row .json off) = some (.object (f.members off)) := by
  obtain ⟨task, now, tracepoint⟩ := f
  have htime := Events.plain_wallTime now off
  obtain ⟨hname, hreadable⟩ := Bool.and_eq_true_iff.mp h
  have hcomm := plain_asText (of_decide_eq_true hname)
  cases tracepoint with
  | schedProcessExec ctx reserved =>
    cases reserved with
    | none => cases hkept
    | some slot =>
      have hfile := plain_asText (of_decide_eq_true hreadable).1
      have hkey : Output.IsKey "exec" := by simp [Output.IsKey]
      refine (Output.jsonLine_spec hkey ?_).object
      simp [Output.IsKey, Output.Field.Plain, htime, hcomm, hfile]
  | sysEnter call ctx reserved =>
    cases reserved with
    | none => cases hkept
    | some slot =>
      have hfile := plain_asText (of_decide_eq_true hreadable).1
      have hkey : Output.IsKey "open" := by simp [Output.IsKey]
      refine (Output.jsonLine_spec hkey ?_).object
      simp [Output.IsKey, Output.Field.Plain, htime, hcomm, hfile]
  | inetSockSetState ctx inet reserved =>
    have hkey : Output.IsKey "tcp" := by simp [Output.IsKey]
    refine (Output.jsonLine_spec hkey ?_).object
    simp [Output.IsKey, Output.Field.Plain, htime, hcomm, plain_name, plain_endpoint]

end Bpf

namespace Session
open Bpf EventLoop
open Tracelet.Filter (FilterArgs EventKind configure)

def rowLines (format : OutputFormat) (out : List Char) : List (List Char) :=
  match format with
  | .text => (lines out).drop 1
  | .json => lines out

theorem isLine_append_newline {text body : String} (h : text = body ++ "\n")
    (hbody : '\n' ∉ body.toList) : IsLine text.toList := by
  refine ⟨body.toList, ?_, hbody⟩
  rw [h, String.toList_append]
  rfl

theorem isLine_header (cmd : Command) : IsLine (cmd.header .text) := by
  cases cmd with
  | exec =>
    have h : "TIME         PID     PPID    PROCESS          COMMAND\n" =
        "TIME         PID     PPID    PROCESS          COMMAND" ++ "\n" := by decide
    exact isLine_append_newline h (by simp)
  | fileOpen =>
    have h : "TIME         PID     PROCESS          PATH\n" =
        "TIME         PID     PROCESS          PATH" ++ "\n" := by decide
    exact isLine_append_newline h (by simp)
  | tcp =>
    have h : "TIME         PROCESS          PID     EVENT     DESTINATION\n" =
        "TIME         PROCESS          PID     EVENT     DESTINATION" ++ "\n" := by decide
    exact isLine_append_newline h (by simp)

theorem counted_eq_zero {o : Options} {cfg : Tracelet.FilterConfig} {es : List Event} {s : State}
    (hrun : run (step o cfg) .start es = some s) (hphase : s.phase ≠ .looping) :
    s.loop.counted = 0 := by
  refine run_invariant (P := fun s => s.phase ≠ .looping → s.loop.counted = 0)
    (fun s e s' hs hstep => ?_) hrun (fun _ => rfl) hphase
  cases e with
  | setup =>
    obtain ⟨hphase, rfl⟩ | ⟨p, left, hphase, rfl⟩ | ⟨hphase, rfl⟩ := setup_cases hstep
    · exact fun _ => hs (by simp [hphase])
    · exact fun _ => hs (by simp [hphase])
    · exact fun h => absurd rfl h
  | fires f =>
    obtain rfl := Option.some.inj hstep
    unfold State.fires
    split_ifs <;> exact hs
  | loop e =>
    obtain ⟨-, hgo, loop, hloop, rfl⟩ := loop_cases hstep
    intro hnot
    obtain rfl := hgo.resolve_right hnot
    obtain rfl := Option.some.inj hloop
    exact hs hnot

theorem isLine_row {cmd : Command} {f : Firing} (hprog : f.prog ∈ cmd.progs)
    (hkept : f.record.isSome = true) (hreadable : f.readable = true) (format : OutputFormat)
    (off : UInt64) : IsLine (f.row format off) := by
  have hdecodes : cmd.decodes f.bytes = true := (decodes_bytes hprog hkept).trans hreadable
  obtain ⟨cs, hcs, hline⟩ := Command.isLine_line hdecodes format off
  rw [line_bytes hprog hkept, Firing.line, if_pos hreadable] at hcs
  rw [Option.some.inj hcs]
  exact hline

theorem rowLines_of_shown {o : Options} {off : UInt64} {all : List Firing}
    {out : List Char} {s : State} (h : Shown o off all out s)
    (hprog : ∀ f ∈ all, f.prog ∈ o.cmd.progs)
    (hcounted : s.phase ≠ .looping → s.loop.counted = 0) :
    rowLines o.format out =
      (((kept all).take s.loop.counted).filter Firing.readable).map (Firing.row o.format off) := by
  have hrows : ((kept all).take s.loop.counted).filterMap (Firing.line o.format off) =
      (((kept all).take s.loop.counted).filter Firing.readable).map (Firing.row o.format off) := by
    rw [← List.filterMap_eq_map, List.filterMap_filter]
    rfl
  -- every row is one line, so the rows come back from the text
  have hlines : ∀ l ∈ (((kept all).take s.loop.counted).filter Firing.readable).map
      (Firing.row o.format off), IsLine l := by
    intro l hl
    obtain ⟨f, hf, rfl⟩ := List.mem_map.mp hl
    obtain ⟨htake, hreadable⟩ := List.mem_filter.mp hf
    obtain ⟨hall, hkept⟩ := List.mem_filter.mp (List.mem_of_mem_take htake)
    exact isLine_row (hprog f hall) hkept hreadable o.format off
  have hout := h.stdout
  rw [hrows] at hout
  rw [hout]
  cases hformat : o.format with
  | json =>
    have hheader : s.header o = [] := by
      unfold State.header
      rw [hformat]
      split
      · cases o.cmd <;> rfl
      · rfl
      · rfl
    rw [rowLines, hheader, List.nil_append, ← hformat]
    exact lines_flatten hlines
  | text =>
    rw [← hformat]
    -- the header is one line; before the loop there is neither header nor row
    by_cases hphase : s.phase = .looping
    · obtain ⟨body, hbody, hnewline⟩ := isLine_header o.cmd
      have hheader : s.header o = body ++ ['\n'] := by
        rw [State.header, hphase, hformat, hbody]
      rw [hheader, hformat, rowLines, lines_append hnewline, List.drop_one,
        List.tail_cons, ← hformat]
      exact lines_flatten hlines
    · have hheader : s.header o = [] := by
        unfold State.header
        split
        · exact absurd ‹_› hphase
        · rfl
        · rfl
      rw [hheader, hcounted hphase, List.take_zero, hformat]
      rfl

/-- Standard output of a whole run reads back: the rows, column by column, and the
JSON lines, as objects, say what happened in exactly the asked-for firings that were
shown, in their order. -/
theorem stdout_reads_back (o : Options) (cfg : Tracelet.FilterConfig) (off : UInt64)
    (es : List Event) (s : State) (hcfg : Tracelet.Filter.config o.args o.mask = .ok cfg)
    (hrun : run (step o cfg) .start es = some s) :
    let out := outputs (step o cfg) (written o off) .start es
    let shown := ((kept (outputs (step o cfg) (asked o) .start es)).take s.loop.counted).filter
      Firing.readable
    (o.format = .text →
      (rowLines .text out).map o.cmd.readRow = shown.map fun f => some (f.textRow off)) ∧
    (o.format = .json →
      (rowLines .json out).map Json.parse = shown.map fun f => some (.object (f.members off))) := by
  intro out shown
  have hprog := prog_of_mem_outputs o cfg es
  have hrows : rowLines o.format out = shown.map (Firing.row o.format off) :=
    rowLines_of_shown (shown_of_run off hcfg hrun).2 hprog (counted_eq_zero hrun)
  have hmem : ∀ f ∈ shown, f.prog ∈ o.cmd.progs ∧ f.record.isSome = true ∧ f.readable = true := by
    intro f hf
    obtain ⟨htake, hreadable⟩ := List.mem_filter.mp hf
    obtain ⟨hall, hkept⟩ := List.mem_filter.mp (List.mem_of_mem_take htake)
    exact ⟨hprog f hall, hkept, hreadable⟩
  refine ⟨fun hformat => ?_, fun hformat => ?_⟩
  · rw [hformat] at hrows
    rw [hrows, List.map_map]
    exact List.map_congr_left fun f hf => readRow_row (hmem f hf).1 off
  · rw [hformat] at hrows
    rw [hrows, List.map_map]
    exact List.map_congr_left fun f hf => parse_row (hmem f hf).2.1 (hmem f hf).2.2 off

def shellRun : List Event :=
  [.setup, .fires shellExecs, .setup, .fires shellExecs, .setup, .loop (.check false),
    .loop .deliver]

def jsonOptions : Options := { execOptions with format := .json }

set_option maxRecDepth 8000 in
theorem stdout_reads_back_shell :
    (rowLines .text (outputs (step execOptions { eventMask := 7 }) (written execOptions 0) .start
        shellRun)).map Command.exec.readRow =
      [some ⟨0, 100, some 1, "sh", none, "/a"⟩] ∧
    (rowLines .json (outputs (step jsonOptions { eventMask := 7 }) (written jsonOptions 0) .start
        shellRun)).map Json.parse =
      [some (.object [("event", .string "exec"), ("time", .string "00:00:00.000"),
        ("pid", .ofNat 100), ("ppid", .ofNat 1), ("comm", .string "sh"),
        ("filename", .string "/a")])] := by
  obtain ⟨s, hs⟩ :=
    Option.isSome_iff_exists.mp (show (run (step execOptions { eventMask := 7 }) .start
    shellRun).isSome = true by decide)
  obtain ⟨t, ht⟩ :=
    Option.isSome_iff_exists.mp (show (run (step jsonOptions { eventMask := 7 }) .start
    shellRun).isSome = true by decide)
  have htext := (stdout_reads_back execOptions { eventMask := 7 } 0 shellRun s rfl hs).1 rfl
  have hjson := (stdout_reads_back jsonOptions { eventMask := 7 } 0 shellRun t rfl ht).2 rfl
  obtain rfl := Option.some.inj hs
  obtain rfl := Option.some.inj ht
  exact ⟨htext, hjson⟩

end Session

end Tracelet
