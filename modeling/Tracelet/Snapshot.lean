import Tracelet.MapOrder
import Tracelet.Ranking
import Tracelet.Collector
import Tracelet.Hist

namespace Tracelet

namespace Collector
open Ranking

structure Overview where
  rate : UInt64
  processes : ℕ
  tcpTotal : UInt64
  fileTotal : UInt64
  dropped : UInt64

structure TopRow where
  process : String
  pid : UInt32
  count : UInt64
  deriving DecidableEq

structure Snapshot where
  overview : Overview
  stream : List StreamRow
  top : List TopRow
  distribution : List (String × UInt64)
  latency : List (String × Hist.Stats)

def syscallNames : List String := ["read", "write", "openat"]

/-- By count, then by pid, both descending. -/
def TopRow.order (a b : TopRow) : Ordering := (compare b.count a.count).then (compare b.pid a.pid)

/-- By count descending, then by name. -/
def distributionOrder (a b : String × UInt64) : Ordering :=
  (compare b.2 a.2).then (compare a.1 b.1)

def topRows (entries : List (UInt32 × String × UInt64)) : List TopRow :=
  entries.map fun (pid, process, count) => ⟨process, pid, count⟩

/-- `now` is the instant at which `started` is asked for its age. The two hash maps are
iterated over in the given orders. -/
def Snapshot.take (shared : Shared) (now : ℕ) (processes : MapOrder shared.processes)
    (byEvent : MapOrder shared.byEvent) : Snapshot :=
  let secs := max ((shared.started.map fun t => (now - t) / 1000000000).getD 0) 1
  { overview :=
      { rate := shared.total / UInt64.ofNat secs
        processes := shared.processes.keys.card
        tcpTotal := shared.tcpTotal
        fileTotal := shared.fileTotal
        dropped := shared.dropped }
    stream := shared.recent.reverse
    top := (sortBy TopRow.order (topRows processes.entries)).take 10
    distribution := sortBy distributionOrder byEvent.entries
    latency := (syscallNames.zip shared.latency).map fun (name, slots) =>
      (name, Hist.summarize slots) }

instance : Std.TransCmp TopRow.order :=
  transCmp_then (transCmp_desc TopRow.count) (transCmp_desc TopRow.pid)

instance : Std.TransCmp distributionOrder :=
  transCmp_then (transCmp_desc Prod.snd) (transCmp_asc Prod.fst)

theorem TopRow.order_eq_eq {a b : TopRow} :
    a.order b = .eq ↔ a.count = b.count ∧ a.pid = b.pid := by
  rw [TopRow.order, Ordering.then_eq_eq, Std.compare_eq_iff_eq, Std.compare_eq_iff_eq,
    eq_comm (a := b.count), eq_comm (a := b.pid)]

theorem TopRow.order_eq_lt {a b : TopRow} :
    a.order b = .lt ↔ b.count < a.count ∨ a.count = b.count ∧ b.pid < a.pid := by
  rw [TopRow.order, Ordering.then_eq_lt, Std.compare_eq_iff_eq, Std.compare_eq_lt,
    Std.compare_eq_lt, eq_comm (a := b.count)]

theorem distributionOrder_eq_eq {a b : String × UInt64} : distributionOrder a b = .eq ↔ a = b := by
  rw [distributionOrder, Ordering.then_eq_eq, Std.compare_eq_iff_eq, Std.compare_eq_iff_eq,
    Prod.ext_iff, eq_comm (a := b.2), and_comm]

theorem compare_string_eq_lt {a b : String} : compare a b = .lt ↔ a < b := compareOfLessAndEq_eq_lt

theorem distributionOrder_eq_lt {a b : String × UInt64} :
    distributionOrder a b = .lt ↔ b.2 < a.2 ∨ a.2 = b.2 ∧ a.1 < b.1 := by
  rw [distributionOrder, Ordering.then_eq_lt, Std.compare_eq_iff_eq, Std.compare_eq_lt,
    compare_string_eq_lt, eq_comm (a := b.2)]

end Collector

end Tracelet
