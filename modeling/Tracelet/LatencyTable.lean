import Tracelet.LatencyPane
import Tracelet.Mean
import Tracelet.Output

namespace Tracelet
open RustText

namespace Hist

def formatNs (ns : UInt64) : String :=
  if ns < 1000 then toString ns.toNat ++ "ns"
  else if ns < 1000000 then toString (ns / 1000).toNat ++ "us"
  else if ns < 1000000000 then .ofList (displayFixed 1 (ns.toFloat / 1000000.0)) ++ "ms"
  else .ofList (displayFixed 2 (ns.toFloat / 1000000000.0)) ++ "s"

example : [999, 1500, 1000000, 2000000000, upperBoundNs 30].map formatNs =
    ["999ns", "1us", "1.0ms", "2.00s", "2.15s"] := by
  decide +kernel

theorem plain_formatNs (ns : UInt64) : Plain (formatNs ns).toList := by
  unfold formatNs
  split_ifs
  · simp
  · simp
  · simp [plain_displayFixed]
  · simp [plain_displayFixed]

theorem blank_notMem_formatNs (ns : UInt64) : ' ' ∉ (formatNs ns).toList := by
  unfold formatNs
  split_ifs
  · simp [blank_notMem_toDigits]
  · simp [blank_notMem_toDigits]
  · simp [blank_notMem_displayFixed]
  · simp [blank_notMem_displayFixed]

theorem formatNs_ne_nil (ns : UInt64) : (formatNs ns).toList ≠ [] := by
  unfold formatNs
  split_ifs <;> simp

end Hist

namespace Output

/-- The count is a `u64`, unlike the numbers of the other lines. -/
def latencyJsonLine (time syscall : String) (count : UInt64) (p50 p95 p99 mean max : String) :
    List Char :=
  "\x7b\"event\":\"latency\"".toList ++ writeMember ("time", .text time) ++
    writeMember ("syscall", .text syscall) ++ ",\"count\":".toList ++
      (toString count.toNat).toList ++
    [("p50", .text p50), ("p95", .text p95), ("p99", .text p99), ("mean", .text mean),
      ("max", .text max)].flatMap writeMember ++ "\x7d\n".toList

theorem latencyJsonLine_spec {time syscall p50 p95 p99 mean max : String} (count : UInt64)
    (hplain : ∀ s ∈ [time, syscall, p50, p95, p99, mean, max], Plain s.toList) :
    IsJsonLine (latencyJsonLine time syscall count p50 p95 p99 mean max)
      [("event", .string "latency"), ("time", .string time), ("syscall", .string syscall),
        ("count", .ofNat count.toNat), ("p50", .string p50), ("p95", .string p95),
        ("p99", .string p99), ("mean", .string mean), ("max", .string max)] := by
  simp only [List.forall_mem_cons] at hplain
  obtain ⟨htime, hsyscall, hp50, hp95, hp99, hmean, hmax, -⟩ := hplain
  have hkeys : ∀ key ∈ ["event", "latency", "time", "syscall", "count", "p50", "p95", "p99", "mean",
      "max"], IsKey key := by
    simp [IsKey]
  simp only [List.forall_mem_cons] at hkeys
  obtain ⟨hevent, hlatency, htimeKey, hsyscallKey, hcountKey, h50, h95, h99, hmeanKey,
    hmaxKey, -⟩ := hkeys
  -- `count` is the one member that is a number; the five behind it are texts
  let rest : List (String × Field) := [("p50", .text p50), ("p95", .text p95), ("p99", .text p99),
    ("mean", .text mean), ("max", .text max)]
  have hrest : ∀ m ∈ rest, IsKey m.1 ∧ m.2.Plain := by
    simp [rest, h50, h95, h99, hmeanKey, hmaxKey, Field.Plain, hp50, hp95, hp99, hmean, hmax]
  have hcount := membersText_writeMember hrest hcountKey.encodes (Json.reads_toDigits count.toNat)
  have hmembers := Json.MembersText.cons hevent.encodes hlatency.encodes.reads
    (Json.MembersText.cons htimeKey.encodes (reads_jsonEscapeString htime)
      (Json.MembersText.cons hsyscallKey.encodes (reads_jsonEscapeString hsyscall) hcount))
  have hspace : ∀ c ∈ ['\n'], Json.isSpace c = true := by
    simp [Json.isSpace]
  have hline : latencyJsonLine time syscall count p50 p95 p99 mean max = '\x7b' ::
      (Json.memberText "event".toList ('"' :: "latency".toList ++ ['"']) ++ ',' ::
        (Json.memberText "time".toList (jsonEscapeString time) ++ ',' ::
          (Json.memberText "syscall".toList (jsonEscapeString syscall) ++ ',' ::
            (Json.memberText "count".toList (Nat.toDigits 10 count.toNat) ++
              (rest.flatMap writeMember ++ ['\x7d']))))) ++ ['\n'] := by
    unfold latencyJsonLine writeMember Json.memberText
    rw [toList_toString]
    simp [rest, Field.write]
  rw [hline]
  constructor
  · apply isLine_of_plain
    have hwrite : Plain (rest.flatMap writeMember) := plain_flatMap fun m hm => by
      simp [writeMember, (hrest m hm).1.plain, m.2.plain_write]
    simp [Json.memberText, plain_jsonEscapeString, hwrite]
  · simpa [rest, Field.value] using hmembers.parse_eq hspace

end Output

namespace Latency
open Hist

def row (format : OutputFormat) (time : String) (kind : SyscallKind)
    (stats : Stats) : List Char :=
  match format with
  | .text =>
    printRow [(11, kind.name), (11, toString stats.count.toNat), (9, formatNs stats.p50),
      (9, formatNs stats.p95), (9, formatNs stats.p99), (9, formatNs (mean stats))]
      (formatNs stats.max)
  | .json =>
    Output.latencyJsonLine time kind.name stats.count (formatNs stats.p50)
      (formatNs stats.p95) (formatNs stats.p99) (formatNs (mean stats))
      (formatNs stats.max)

def tableHeader (time : String) : OutputFormat → List (List Char)
  | .text =>
    ["--- ".toList ++ time.toList ++ " ---\n".toList,
      printRow [(11, "SYSCALL"), (11, "COUNT"), (9, "P50"), (9, "P95"), (9, "P99"), (9, "MEAN")]
        "MAX"]
  | .json => []

/-- The lines of one turn of the loop. -/
def table (format : OutputFormat) (nowNs : UInt64) (kinds : List SyscallKind)
    (histogram : List (List UInt64)) : List (List Char) :=
  tableHeader (Events.clockTime nowNs) format ++ kinds.map fun kind =>
    row format (Events.clockTime nowNs) kind
      (summarize ((histogram[kind.index.toNat]?).getD []))

theorem plain_name (kind : SyscallKind) : Plain kind.name.toList := by
  cases kind <;> simp [SyscallKind.name]

theorem plain_clockTime (ns : UInt64) : Plain (Events.clockTime ns).toList := by
  simp [Events.clockTime, plain_zeroPad]

theorem row_json (nowNs : UInt64) (kind : SyscallKind) (stats : Stats) :
    IsJsonLine (row .json (Events.clockTime nowNs) kind stats)
      [("event", .string "latency"), ("time", .string (Events.clockTime nowNs)),
        ("syscall", .string kind.name), ("count", .ofNat stats.count.toNat),
        ("p50", .string (formatNs stats.p50)), ("p95", .string (formatNs stats.p95)),
        ("p99", .string (formatNs stats.p99)), ("mean", .string (formatNs (mean stats))),
        ("max", .string (formatNs stats.max))] := by
  apply Output.latencyJsonLine_spec
  simp [plain_name, plain_clockTime, plain_formatNs]

theorem isLine_table (format : OutputFormat) (nowNs : UInt64)
    (kinds : List SyscallKind) (histogram : List (List UInt64)) :
    ∀ line ∈ table format nowNs kinds histogram, IsLine line := by
  have htime := plain_clockTime nowNs
  have hrow : ∀ kind stats, IsLine (row format (Events.clockTime nowNs) kind stats) := by
    intro kind stats
    cases format with
    | text => exact isLine_printRow (by simp [plain_name, plain_formatNs]) (plain_formatNs _)
    | json => exact (row_json nowNs kind stats).line
  have hheader : ∀ line ∈ tableHeader (Events.clockTime nowNs) format, IsLine line := by
    cases format with
    | json => exact fun line hline => (List.not_mem_nil hline).elim
    | text =>
      have hfirst :
          IsLine ("--- ".toList ++ (Events.clockTime nowNs).toList ++ " ---\n".toList) := by
        have hplain :
            Plain ("--- ".toList ++ (Events.clockTime nowNs).toList ++ " ---".toList) := by
          simp [htime]
        simpa using isLine_of_plain hplain
      have hsecond : IsLine (printRow [(11, "SYSCALL"), (11, "COUNT"), (9, "P50"), (9, "P95"),
          (9, "P99"), (9, "MEAN")] "MAX") :=
        isLine_printRow (by simp) (by simp)
      simp only [tableHeader, List.forall_mem_cons]
      exact ⟨hfirst, hsecond, fun line hline => (List.not_mem_nil hline).elim⟩
  intro line hline
  rcases List.mem_append.mp hline with h | h
  · exact hheader line h
  · obtain ⟨kind, -, rfl⟩ := List.mem_map.mp h
    exact hrow kind _

end Latency

end Tracelet
