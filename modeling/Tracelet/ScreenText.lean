import Tracelet.DashboardSession
import Tracelet.LatencyLoop
import Tracelet.ReadBack

namespace Tracelet
open RustText KernelMap TransitionRun Columns

namespace ScreenText
open Collector Dashboard DashboardLoop
open EventLoop (readNumber readNumber_toString)

def keys : String :=
  "space pause | up/down scroll | pgup/pgdn page | home newest | end oldest | tab focus | q quit"

def streamRow (row : StreamRow) : List Char :=
  pad 12 row.wall.toList ++ pad 7 (toString row.pid.toNat).toList ++ pad 16 row.process.toList ++
    pad 8 row.event.toList ++ row.details.toList

def streamRows (snap : Snapshot) : List (List Char) × ℕ :=
  (snap.stream.map streamRow, snap.stream.length)

def overviewLine (o : Overview) : List Labelled :=
  [⟨"events/s ".toList, 6, (toString o.rate.toNat).toList⟩,
    ⟨"processes ".toList, 6, (toString o.processes).toList⟩,
    ⟨"tcp ".toList, 6, (toString o.tcpTotal.toNat).toList⟩,
    ⟨"file ".toList, 6, (toString o.fileTotal.toNat).toList⟩,
    ⟨"dropped ".toList, 0, (toString o.dropped.toNat).toList⟩]

def stateLine (paused : Bool) : List Char :=
  ("state: " ++ if paused then "PAUSED" else "live").toList

def mix (distribution : List (String × UInt64)) : List Char :=
  if distribution = [] then "no events yet".toList
  else [' ', ' '].intercalate
    (distribution.map fun (name, count) => name.toList ++ ' ' :: (toString count.toNat).toList)

def topRow (row : TopRow) : List Char :=
  pad 16 row.process.toList ++ "pid ".toList ++ pad 7 (toString row.pid.toNat).toList ++
    List.leftpad 8 ' ' (toString row.count.toNat).toList

/-- What `draw` puts into the panes, and the title above the stream. The borders, the
colours and the cut at the edge of the terminal are left out. -/
structure Texts where
  overview : List (List Char)
  latency : List (List Char)
  title : List Char
  stream : List (List Char)
  top : List (List Char)

def latencyLine (name : String) (s : Hist.Stats) : List Char :=
  pad 7 name.toList ++ "n ".toList ++ List.leftpad 7 ' ' (toString s.count.toNat).toList ++
    "  p50 ".toList ++ List.leftpad 9 ' ' (Hist.formatNs s.p50).toList ++
    "  p95 ".toList ++ List.leftpad 9 ' ' (Hist.formatNs s.p95).toList ++
    "  p99 ".toList ++ List.leftpad 9 ' ' (Hist.formatNs s.p99).toList

def latencyLines (latency : List (String × Hist.Stats)) : List (List Char) :=
  if latency = [] then ["no latency samples".toList]
  else latency.map fun (name, s) => latencyLine name s

def draw {S : Type} (frame : Frame S) : Texts :=
  let (rows, total) := streamRows frame.snap
  { overview :=
      [(overviewLine frame.snap.overview).flatMap Labelled.text,
        stateLine frame.ui.paused, keys.toList]
    latency := latencyLines frame.snap.latency ++ [[], mix frame.snap.distribution]
    title := ("events " ++ toString total ++ if total > rows.length then "+" else "").toList
    stream := rows
    top := frame.snap.top.map topRow }

structure SeenRow where
  time : ℕ
  pid : ℕ
  process : String
  event : String
  details : String

structure SeenLatency where
  name : String
  count : ℕ
  p50 : String
  p95 : String
  p99 : String

structure SeenTop where
  process : String
  pid : ℕ
  count : ℕ

structure Seen where
  overview : List ℕ
  paused : Bool
  latency : List SeenLatency
  distribution : List (String × ℕ)
  events : ℕ
  stream : List SeenRow
  top : List SeenTop

def readStreamRow (row : List Char) : Option SeenRow :=
  match Columns.readRow [.token 12, .token 7, .fixed 16, .token 8] row with
  | ([time, pid, process, event], details) =>
    some ⟨Events.readTime time, readNumber pid, .ofList process, .ofList event, .ofList details⟩
  | _ => none

def readTopRow (row : List Char) : Option SeenTop :=
  match Columns.readRow [.fixed 16, .token 3, .token 7] row with
  | ([process, _, pid], count) =>
    some ⟨.ofList process, readNumber pid, readNumber (readRight count)⟩
  | _ => none

def readLatencyLine (line : List Char) : Option SeenLatency :=
  match tokens line with
  | [name, _, count, _, p50, _, p95, _, p99] =>
    some ⟨.ofList name, readNumber count, .ofList p50, .ofList p95, .ofList p99⟩
  | _ => none

def readLatencyLines (lines : List (List Char)) : List SeenLatency :=
  if lines = ["no latency samples".toList] then [] else lines.filterMap readLatencyLine

def readMix (line : List Char) : List (String × ℕ) :=
  if line = "no events yet".toList then []
  else (pairs (tokens line)).map fun p => (.ofList p.1, readNumber p.2)

def readOverview (line : List Char) : List ℕ :=
  (readLabelled ["events/s ".toList, "processes ".toList, "tcp ".toList, "file ".toList,
    "dropped ".toList] line).map readNumber

def read (t : Texts) : Seen where
  overview := readOverview (t.overview.getD 0 [])
  paused := decide (t.overview.getD 1 [] = "state: PAUSED".toList)
  latency := readLatencyLines (t.latency.rdrop 2)
  distribution := readMix (t.latency.getLastD [])
  events := readNumber (t.title.drop 7)
  stream := t.stream.filterMap readStreamRow
  top := t.top.filterMap readTopRow

/-- Blanks at the end of a process name are lost. -/
def SeenRow.of (row : StreamRow) : SeenRow :=
  ⟨Events.readTime row.wall.toList, row.pid.toNat, .ofList (trimEnd row.process.toList), row.event,
    row.details⟩

def SeenLatency.of (name : String) (s : Hist.Stats) : SeenLatency :=
  ⟨name, s.count.toNat, Hist.formatNs s.p50, Hist.formatNs s.p95, Hist.formatNs s.p99⟩

def SeenTop.of (row : TopRow) : SeenTop :=
  ⟨.ofList (trimEnd row.process.toList), row.pid.toNat, row.count.toNat⟩

/-- What `draw` shows of a frame. -/
def Seen.of {S : Type} (frame : Frame S) : Seen where
  overview :=
    let o := frame.snap.overview
    [o.rate.toNat, o.processes, o.tcpTotal.toNat, o.fileTotal.toNat, o.dropped.toNat]
  paused := frame.ui.paused
  latency := frame.snap.latency.map fun (name, s) => .of name s
  distribution := frame.snap.distribution.map fun (name, count) => (name, count.toNat)
  events := frame.snap.stream.length
  stream := frame.snap.stream.map .of
  top := frame.snap.top.map .of

structure Legible (snap : Snapshot) : Prop where
  stream : ∀ row ∈ snap.stream, ' ' ∉ row.wall.toList ∧ row.process.toList.length ≤ 16 ∧
    ' ' ∉ row.event.toList
  top : ∀ row ∈ snap.top, row.process.toList.length ≤ 16
  distribution : ∀ p ∈ snap.distribution, Token p.1.toList
  latency : ∀ p ∈ snap.latency, Token p.1.toList

theorem isDigit_toString (n : ℕ) : ∀ c ∈ (toString n).toList, c.isDigit = true := by
  intro c hc
  rw [toList_toString] at hc
  exact Nat.isDigit_of_mem_toDigits (by decide) (by decide) hc

theorem token_toString (n : ℕ) : Token (toString n).toList := by
  refine ⟨?_, blank_notMem_toString n⟩
  rw [toList_toString]
  exact Nat.toDigits_ne_nil

theorem readStreamRow_streamRow {row : StreamRow} (hwall : ' ' ∉ row.wall.toList)
    (hprocess : row.process.toList.length ≤ 16) (hevent : ' ' ∉ row.event.toList) :
    readStreamRow (streamRow row) = some (.of row) := by
  have hfits :
    ∀ p ∈ [(Column.token 12, row.wall.toList), (.token 7, (toString row.pid.toNat).toList),
      (.fixed 16, row.process.toList), (.token 8, row.event.toList)], p.1.Fits p.2 := by
    simp only [List.forall_mem_cons]
    exact ⟨hwall, blank_notMem_toString _, hprocess, hevent, List.forall_mem_nil _⟩
  have hread := readRow_pad hfits row.details.toList
  simp only [List.map_cons, List.map_nil, List.flatMap_cons, List.flatMap_nil, Column.width,
    List.append_nil, ← List.append_assoc] at hread
  rw [readStreamRow, streamRow, hread]
  simp only [trimEnd_of_notMem hwall, trimEnd_of_notMem (blank_notMem_toString _),
    trimEnd_of_notMem hevent, readNumber_toString, String.ofList_toList, SeenRow.of]

theorem readTopRow_topRow {row : TopRow} (hprocess : row.process.toList.length ≤ 16) :
    readTopRow (topRow row) = some (.of row) := by
  have hpid : pad 3 "pid".toList = "pid ".toList := by decide
  have hfits : ∀ p ∈ [(Column.fixed 16, row.process.toList), (.token 3, "pid".toList),
      (.token 7, (toString row.pid.toNat).toList)], p.1.Fits p.2 := by
    simp only [List.forall_mem_cons]
    exact ⟨hprocess, (show ' ' ∉ "pid".toList by decide), blank_notMem_toString _,
      List.forall_mem_nil _⟩
  have hread := readRow_pad hfits (List.leftpad 8 ' ' (toString row.count.toNat).toList)
  simp only [List.map_cons, List.map_nil, List.flatMap_cons, List.flatMap_nil, Column.width,
    List.append_nil, ← List.append_assoc, hpid] at hread
  have hend : ∀ c ∈ ([] : List Char).head?, c = ' ' := fun c hc => (by cases hc)
  have hcount :=
    readRight_leftpad (blank_notMem_toString row.count.toNat) hend 8 (token_toString _).1
  rw [List.append_nil] at hcount
  rw [readTopRow, topRow, hread]
  simp only [trimEnd_of_notMem (blank_notMem_toString _), readNumber_toString, hcount, SeenTop.of]

theorem token_formatNs (ns : UInt64) : Token (Hist.formatNs ns).toList :=
  ⟨Hist.formatNs_ne_nil ns, Hist.blank_notMem_formatNs ns⟩

theorem readLatencyLine_latencyLine {name : String} (hname : Token name.toList) (s : Hist.Stats) :
    readLatencyLine (latencyLine name s) = some (.of name s) := by
  have hlabel : ∀ label ∈ ["n", "p50", "p95", "p99"], Token label.toList := by
    simp [Token]
  simp only [List.forall_mem_cons] at hlabel
  obtain ⟨hn, h50, h95, h99, -⟩ := hlabel
  have hline : latencyLine name s = pad 7 name.toList ++ ("n".toList ++ ' ' ::
      (List.leftpad 7 ' ' (toString s.count.toNat).toList ++ ' ' :: ' ' ::
      ("p50".toList ++ ' ' :: (List.leftpad 9 ' ' (Hist.formatNs s.p50).toList ++ ' ' :: ' ' ::
      ("p95".toList ++ ' ' :: (List.leftpad 9 ' ' (Hist.formatNs s.p95).toList ++ ' ' :: ' ' ::
      ("p99".toList ++ ' ' :: List.leftpad 9 ' ' (Hist.formatNs s.p99).toList))))))) := by
    simp [latencyLine]
  have htokens : tokens (latencyLine name s) = [name.toList, "n".toList,
      (toString s.count.toNat).toList, "p50".toList, (Hist.formatNs s.p50).toList, "p95".toList,
      (Hist.formatNs s.p95).toList, "p99".toList, (Hist.formatNs s.p99).toList] := by
    rw [hline, tokens_pad hname, tokens_append hn, tokens_leftpad_append (token_toString _),
      tokens_blank, tokens_append h50, tokens_leftpad_append (token_formatNs _), tokens_blank,
      tokens_append h95, tokens_leftpad_append (token_formatNs _), tokens_blank, tokens_append h99,
      tokens_leftpad (token_formatNs _)]
  rw [readLatencyLine, htokens]
  simp only [String.ofList_toList, readNumber_toString, SeenLatency.of]

theorem readMix_mix {distribution : List (String × UInt64)}
    (h : ∀ p ∈ distribution, Token p.1.toList) :
    readMix (mix distribution) = distribution.map fun (name, count) => (name, count.toNat) := by
  by_cases hempty : distribution = []
  · rw [hempty]
    rfl
  · let items := distribution.map fun (name, count) => (name.toList, (toString count.toNat).toList)
    have hitems : ∀ p ∈ items, Token p.1 ∧ Token p.2 := by
      intro p hp
      obtain ⟨q, hq, rfl⟩ := List.mem_map.mp hp
      exact ⟨h q hq, token_toString _⟩
    have hmix : mix distribution = [' ', ' '].intercalate
        (items.map fun p => p.1 ++ ' ' :: p.2) := by
      rw [mix, if_neg hempty, List.map_map]
      rfl
    have hpairs : pairs (tokens (mix distribution)) = items := by
      rw [hmix]
      exact pairs_tokens_intercalate hitems
    -- else the second word, which is a count, would be `events`
    have hsome : mix distribution ≠ "no events yet".toList := by
      intro hno
      have hwords : pairs (tokens "no events yet".toList) =
        [("no".toList, "events".toList)] := by decide
      rw [hno, hwords] at hpairs
      have hmem : ("no".toList, "events".toList) ∈ items := hpairs ▸ List.mem_singleton_self _
      obtain ⟨q, -, hq⟩ := List.mem_map.mp hmem
      have hcount : (toString q.2.toNat).toList = "events".toList := (Prod.ext_iff.mp hq).2
      have hdigit := isDigit_toString q.2.toNat 'e' (by rw [hcount]; decide)
      exact absurd hdigit (by decide)
    rw [readMix, if_neg hsome, hpairs, List.map_map]
    apply List.map_congr_left
    intro q hq
    simp only [Function.comp_apply, String.ofList_toList, readNumber_toString]

theorem fits_number {label : List Char}
    (h : label ≠ [] ∧ ∀ c ∈ label.head?, c.isDigit = false ∧ c ≠ ' ') (width n : ℕ) :
    (Labelled.mk label width (toString n).toList).Fits :=
  ⟨h.1, h.2, isDigit_toString n⟩

theorem readOverview_overviewLine (o : Overview) :
    readOverview ((overviewLine o).flatMap Labelled.text) =
      [o.rate.toNat, o.processes, o.tcpTotal.toNat, o.fileTotal.toNat, o.dropped.toNat] := by
  have hfits : ∀ l ∈ overviewLine o, l.Fits := by
    simp only [overviewLine, List.forall_mem_cons]
    exact ⟨fits_number (by simp) _ _, fits_number (by simp) _ _, fits_number (by simp) _ _,
      fits_number (by simp) _ _, fits_number (by simp) _ _, List.forall_mem_nil _⟩
  have hlabels : (overviewLine o).map Labelled.label = ["events/s ".toList, "processes ".toList,
    "tcp ".toList, "file ".toList, "dropped ".toList] := rfl
  rw [readOverview, ← hlabels, readLabelled_text hfits]
  simp only [overviewLine, List.map_cons, List.map_nil, readNumber_toString]

theorem filterMap_map_of_eq_some {α β γ : Type} {f : α → β} {g : β → Option γ} {t : α → γ}
    {xs : List α} (h : ∀ x ∈ xs, g (f x) = some (t x)) : (xs.map f).filterMap g = xs.map t := by
  rw [List.filterMap_map, ← List.filterMap_eq_map]
  exact List.filterMap_congr h

theorem length_latencyLine (name : String) (s : Hist.Stats) :
    18 < (latencyLine name s).length := by
  simp only [latencyLine, pad, List.length_append, List.length_leftpad, length_rightpad_blank]
  omega

theorem readLatencyLines_latencyLines {latency : List (String × Hist.Stats)}
    (h : ∀ p ∈ latency, Token p.1.toList) :
    readLatencyLines (latencyLines latency) = latency.map fun (name, s) => .of name s := by
  by_cases hempty : latency = []
  · rw [hempty]
    rfl
  · rw [latencyLines, if_neg hempty, readLatencyLines, if_neg]
    · exact filterMap_map_of_eq_some fun p hp => readLatencyLine_latencyLine (h p hp) p.2
    · -- a line of statistics is longer than the text that stands for none
      intro hno
      obtain ⟨p, ps, hp⟩ := List.exists_cons_of_ne_nil hempty
      rw [hp, List.map_cons] at hno
      have hfirst : latencyLine p.1 p.2 = "no latency samples".toList := (List.cons.inj hno).1
      have hlen := length_latencyLine p.1 p.2
      rw [hfirst] at hlen
      exact absurd hlen (by decide)

/-- Everything that `draw` puts into the panes is read again. -/
theorem read_draw {S : Type} {frame : Frame S} (h : Legible frame.snap) :
    read (draw frame) = .of frame := by
  have hoverview := readOverview_overviewLine frame.snap.overview
  have hstate : decide (stateLine frame.ui.paused = "state: PAUSED".toList) = frame.ui.paused := by
    cases frame.ui.paused <;> decide
  have hlatency := readLatencyLines_latencyLines h.latency
  have hmix := readMix_mix h.distribution
  -- the total is the number of rows, so there is never a plus sign behind it
  have htitle : readNumber (("events " ++ toString frame.snap.stream.length ++ "").toList.drop 7) =
      frame.snap.stream.length := by
    have hlabel : "events ".toList.length = 7 := by decide
    rw [String.append_empty, String.toList_append, List.drop_left' hlabel, readNumber_toString]
  have hstream : (frame.snap.stream.map streamRow).filterMap readStreamRow =
      frame.snap.stream.map .of :=
    filterMap_map_of_eq_some fun row hrow => by
      obtain ⟨hwall, hprocess, hevent⟩ := h.stream row hrow
      exact readStreamRow_streamRow hwall hprocess hevent
  have htop := filterMap_map_of_eq_some fun row hrow => readTopRow_topRow (h.top row hrow)
  have hlines : (latencyLines frame.snap.latency ++ [[], mix frame.snap.distribution]).rdrop 2 =
      latencyLines frame.snap.latency :=
    List.rdrop_append_length
  have hlast : (latencyLines frame.snap.latency ++
      [[], mix frame.snap.distribution]).getLastD [] = mix frame.snap.distribution := by
    simp
  simp only [read, draw, streamRows, List.length_map, gt_iff_lt, lt_irrefl, if_false,
    List.getD_cons_zero,
    List.getD_cons_succ, hoverview, hstate, hlines, hlatency, hlast, hmix, htitle, hstream,
    htop, Seen.of]

end ScreenText

namespace DashboardSession
open Bpf Collector Dashboard DashboardLoop ScreenText
open Session (kept)
open Tracelet.Stream (streamMax)

def seenRow (off : UInt64) (f : Firing) : SeenRow :=
  let row := f.streamRow off
  ⟨millisOfDay (off + f.now).toNat, row.pid.toNat, .ofList (trimEnd row.process.toList), row.event,
    row.details⟩

theorem wall_streamRow (off : UInt64) (f : Firing) :
    (f.streamRow off).wall = Events.wallTime f.now off := by
  unfold Firing.streamRow
  split <;> rfl

theorem of_streamRow (off : UInt64) (f : Firing) :
    SeenRow.of (f.streamRow off) = seenRow off f := by
  have htime : Events.readTime (Events.wallTime f.now off).toList =
      millisOfDay (off + f.now).toNat :=
    Events.readTime_clockTime (off + f.now)
  rw [SeenRow.of, wall_streamRow, htime, seenRow]

theorem length_process_le (f : Firing) : (asText f.task.comm.name).toList.length ≤ 16 := by
  have hlen := f.task.comm.length_le
  rw [length_asText]
  omega

theorem token_event {f : Firing} (hkept : f.record.isSome = true) (off : UInt64) :
    Token (f.streamRow off).event.toList := by
  obtain ⟨task, now, tracepoint⟩ := f
  cases tracepoint with
  | schedProcessExec | sysEnter => exact ⟨by simp [Firing.streamRow], by simp [Firing.streamRow]⟩
  | inetSockSetState ctx inet reserved =>
    cases hkind : ctx.kind with
    | none => simp [Firing.record, hkind] at hkept
    | some kind =>
      simp only [Firing.streamRow, hkind, Option.elim_some]
      cases kind <;> exact ⟨by decide, by decide⟩

theorem legible {off : UInt64} {fs : List Firing} {age : ℕ} {snap : Snapshot}
    (h : PicturesFirings off fs age snap) (hkept : ∀ f ∈ fs, f.record.isSome = true)
    (hlatency : ∀ p ∈ snap.latency, Token p.1.toList) : Legible snap where
  stream row hrow := by
    rw [h.stream] at hrow
    obtain ⟨f, hf, rfl⟩ := List.mem_map.mp (List.mem_reverse.mp (List.mem_of_mem_take hrow))
    rw [wall_streamRow, process_streamRow]
    exact ⟨Events.blank_notMem_wallTime f.now off, length_process_le f,
      (token_event (hkept f hf) off).2⟩
  top row hrow := by
    obtain ⟨f, -, hprocess⟩ := Option.map_eq_some_iff.mp (h.top row hrow).2
    rw [← hprocess]
    exact length_process_le f
  distribution p hp := by
    obtain ⟨hpos, -⟩ := (h.distribution p.1 p.2).mp hp
    obtain ⟨f, hf, hname⟩ := List.mem_map.mp (List.count_pos_iff.mp hpos)
    rw [← hname]
    exact token_event (hkept f hf) off
  latency := hlatency

/-- What the panes say about the firings, `age` nanoseconds after the start. -/
structure ReadsFirings (off : UInt64) (fs : List Firing) (age : ℕ) (seen : Seen) : Prop where
  overview : ∃ dropped, seen.overview =
    [(UInt64.ofNat fs.length / UInt64.ofNat (max (age / 1000000000) 1)).toNat,
      (fs.map fun f => (f.streamRow off).pid).dedup.length, fs.countP Firing.isTcp,
      fs.countP fun f => !f.isTcp, dropped]
  distributionNodup : (seen.distribution.map Prod.fst).Nodup
  distribution : ∀ name count, (name, count) ∈ seen.distribution ↔
    0 < count ∧ count = (fs.map fun f => (f.streamRow off).event).count name
  events : seen.events = min streamMax fs.length
  stream : seen.stream = (fs.map (seenRow off)).reverse.take streamMax
  topLength : seen.top.length = min 10 (fs.map fun f => (f.streamRow off).pid).dedup.length
  topSorted : seen.top.Pairwise fun a b => b.count < a.count ∨ a.count = b.count ∧ b.pid < a.pid
  top : ∀ row ∈ seen.top, ∃ pid : UInt32, row.pid = pid.toNat ∧
    row.count = (fs.map fun f => (f.streamRow off).pid).count pid ∧
    ((fs.filter fun f => (f.streamRow off).pid = pid).getLast?.map fun f =>
      String.ofList (trimEnd (asText f.task.comm.name).toList)) = some row.process
  leftOut : ∀ f ∈ fs, (∀ row ∈ seen.top, row.pid ≠ (f.streamRow off).pid.toNat) → ∀ row ∈ seen.top,
    (fs.map fun f => (f.streamRow off).pid).count (f.streamRow off).pid ≤ row.count

theorem mem_distribution_iff {off : UInt64} {fs : List Firing} {age : ℕ} {snap : Snapshot}
    (h : PicturesFirings off fs age snap) (hlen : fs.length < 2 ^ 64) (name : String) (count : ℕ) :
    (name, count) ∈ snap.distribution.map (fun (name, count) => (name, count.toNat)) ↔
      0 < count ∧ count = (fs.map fun f => (f.streamRow off).event).count name := by
  rw [List.mem_map]
  constructor
  · rintro ⟨⟨name', count'⟩, hmem, heq⟩
    obtain ⟨rfl, rfl⟩ := Prod.ext_iff.mp heq
    obtain ⟨hpos, hcount⟩ := (h.distribution _ _).mp hmem
    have hcountPos : 0 < count'.toNat := by
      rw [hcount]
      exact hpos
    exact ⟨hcountPos, hcount⟩
  · -- the count of a name fits into the `u64` that counted it
    rintro ⟨hpos, hcount⟩
    have hle : count ≤ fs.length := by
      rw [hcount]
      exact List.count_le_length.trans_eq (List.length_map _)
    have hnat : (UInt64.ofNat count).toNat = count := UInt64.toNat_ofNat_of_lt' (hle.trans_lt hlen)
    refine ⟨(name, UInt64.ofNat count), (h.distribution _ _).mpr ⟨hcount ▸ hpos, ?_⟩, ?_⟩
    · rw [hnat, hcount]
    · exact Prod.ext rfl hnat

theorem readsFirings_of_pictures {S : Type} {off : UInt64} {fs : List Firing} {age : ℕ}
    {frame : Frame S} (h : PicturesFirings off fs age frame.snap) (hlen : fs.length < 2 ^ 64) :
    ReadsFirings off fs age (.of frame) where
  overview := by
    refine ⟨frame.snap.overview.dropped.toNat, ?_⟩
    simp only [Seen.of, h.rate, h.processes, h.tcpTotal, h.fileTotal]
  distributionNodup := by
    have hnames := h.distributionNodup
    rwa [Seen.of, List.map_map]
  distribution := mem_distribution_iff h hlen
  events := by
    rw [Seen.of, h.stream, List.length_take, List.length_reverse, List.length_map]
  stream := by
    rw [Seen.of, h.stream, List.map_take, List.map_reverse, List.map_map]
    simp only [Function.comp_def, of_streamRow]
  topLength := by
    rw [Seen.of, List.length_map, h.topLength]
  topSorted := by
    rw [Seen.of, List.pairwise_map]
    refine h.topSorted.imp fun {a b} hab => ?_
    simpa only [SeenTop.of, UInt64.lt_iff_toNat_lt, UInt32.lt_iff_toNat_lt,
      ← UInt64.toNat_inj] using hab
  top row hrow := by
    obtain ⟨r, hr, rfl⟩ := List.mem_map.mp hrow
    obtain ⟨hcount, hprocess⟩ := h.top r hr
    refine ⟨r.pid, rfl, hcount, ?_⟩
    have htrim := congrArg (Option.map fun s : String => String.ofList (trimEnd s.toList)) hprocess
    rw [Option.map_map, Option.map_some] at htrim
    exact htrim
  leftOut f hf hout row hrow := by
    obtain ⟨r, hr, rfl⟩ := List.mem_map.mp hrow
    refine h.leftOut f hf (fun r' hr' hpid => ?_) r hr
    exact hout (.of r') (List.mem_map_of_mem hr') (congrArg UInt32.toNat hpid)

section

variable {S : Type} {lib : ListWidget S} {off : UInt64} {cfg : Tracelet.FilterConfig}

def drawnTexts (s : DashboardLoop.State S) (e : DashboardLoop.Event) :
    List Texts :=
  (frames s e).map (draw)

theorem drawnTexts_eq (s : State S) (es : List Event) :
    outputs (step lib off cfg) (written drawnTexts) s es =
      (outputs (step lib off cfg) (written frames) s es).map (draw) := by
  rw [← List.filterMap_eq_map, filterMap_outputs]
  have hwritten : written (S := S) drawnTexts =
      fun s e => (written frames s e).filterMap (some ∘ draw) := by
    funext s e
    rw [List.filterMap_eq_map]
    cases e <;> rfl
  rw [hwritten]

theorem token_latency (s : State S) (es : List Event) :
    ∀ frame ∈ outputs (step lib off cfg) (written frames) s es, ∀ p ∈ frame.snap.latency,
      Token p.1.toList := by
  refine forall_mem_outputs (I := fun _ => True)
    (P := fun frame : Frame S => ∀ p ∈ frame.snap.latency, Token p.1.toList)
    (fun s e s' _ _ => ⟨trivial, fun frame hframe p hp => ?_⟩) trivial es
  have hnames : ∀ name ∈ syscallNames, Token name.toList := by
    simp [syscallNames, Token]
  cases e with
  | setup | fires | detach => cases hframe
  | loop e =>
    cases e with
    | fire | signal | pass | collect => cases hframe
    | ui e =>
      cases e with
      | draw orders =>
        obtain rfl := List.mem_singleton.mp hframe
        obtain ⟨⟨name, slots⟩, hzip, rfl⟩ := List.mem_map.mp hp
        exact hnames name (List.of_mem_zip hzip).1
      | _ => cases hframe

/-- From the command line to the texts on the screen: reading the panes of any frame
gives back what `draw` shows of it, but for blanks at the end of a process name, and
this tells of exactly the asked-for firings that the collector had got by then. -/
theorem screen_reads_back (lib : ListWidget S) (o : Options)
    (cfg : Tracelet.FilterConfig) (off : UInt64) (started now : ℕ) (es : List Event) (s : State S)
    (hcfg : Tracelet.Filter.config o.args filterEventAll = .ok cfg)
    (hrun : run (step lib off cfg) (.start lib started now) es = some s)
    (hfits : (outputs (step lib off cfg) (asked o) (.start lib started now) es).length < 2 ^ 64) :
    let all := outputs (step lib off cfg) (asked o) (.start lib started now) es
    let shown := outputs (step lib off cfg) (written frames) (.start lib started now) es
    let times := outputs (step lib off cfg) (written drawn) (.start lib started now) es
    let texts := outputs (step lib off cfg) (written drawnTexts) (.start lib started now) es
    texts.map read = shown.map Seen.of ∧
      List.Forall₂ (fun d t => d.consumed ≤ (kept all).length ∧
        ReadsFirings off (((kept all).take d.consumed).filter Firing.readable)
          (d.now - started) (read t))
        times texts := by
  intro all shown times texts
  have htexts : texts = shown.map (draw) := drawnTexts_eq _ es
  have hkept : ∀ f ∈ kept all, f.record.isSome = true := fun f hf => (List.mem_filter.mp hf).2
  have hlen : ∀ n, (((kept all).take n).filter Firing.readable).length < 2 ^ 64 := fun n =>
    (((List.take_sublist n _).filter _).length_le.trans (List.length_filter_le _ _)).trans_lt
      ((List.length_filter_le _ _).trans_lt hfits)
  have hshows : List.Forall₂ (fun frame d => ShowsFirings off started (kept all) d frame)
      shown times :=
    (shows_of_run hcfg hrun hfits).flip
  -- rows and names come from firings, but those of the latency pane from the source
  have hboth : List.Forall₂ (fun (frame : Frame S) d => Legible frame.snap ∧
      ShowsFirings off started (kept all) d frame) shown times := by
    refine ((List.forall₂_and_left _ _).mpr ⟨token_latency _ es, hshows⟩).imp fun frame d h => ?_
    refine ⟨legible h.2.pictures (fun f hf => ?_) h.1, h.2⟩
    exact hkept f (List.mem_of_mem_take (List.mem_filter.mp hf).1)
  obtain ⟨hlegible, -⟩ := (List.forall₂_and_left _ _).mp hboth
  rw [htexts, List.map_map]
  refine ⟨List.map_congr_left fun frame hframe => read_draw (hlegible frame hframe), ?_⟩
  rw [List.forall₂_map_right_iff]
  refine List.Forall₂.flip (hboth.imp fun frame d h => ?_)
  refine ⟨h.2.consumed_le, ?_⟩
  rw [read_draw h.1]
  exact readsFirings_of_pictures h.2.pictures (hlen d.consumed)

end

set_option maxRecDepth 8000 in
theorem screen_reads_back_shell :
    ∃ orders frame, outputs (step .index 0 { eventMask := 7 }) (written frames) (.start .index 0 0)
        (shellFrame orders) = [frame] ∧
      outputs (step .index 0 { eventMask := 7 }) (written drawnTexts) (.start .index 0 0)
        (shellFrame orders) = [draw frame] ∧
      read (draw frame) = .of frame ∧
        ReadsFirings 0 [Session.shellExecs] 0 (read (draw frame)) := by
  obtain ⟨orders⟩ := HashOrders.nonempty
  obtain ⟨s, hs⟩ := Option.isSome_iff_exists.mp (show (run (step .index 0 { eventMask := 7 })
    (.start .index 0 0) (shellFrame orders)).isSome = true from rfl)
  obtain ⟨hsame, hread⟩ := screen_reads_back .index plainOptions { eventMask := 7 } 0 0 0 _ s rfl hs
    (show 1 < 2 ^ 64 by decide)
  obtain ⟨hfirst, -⟩ := List.forall₂_cons.mp hread
  exact ⟨orders, _, rfl, rfl, List.head_eq_of_cons_eq hsame, hfirst.2⟩

end DashboardSession

end Tracelet
