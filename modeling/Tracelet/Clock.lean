import Tracelet.Event

namespace Tracelet
open ByteMemory RustText

structure Timespec where
  tvSec : Int64
  tvNsec : Int64

namespace Events

/-- `none` is a failed `clock_gettime(CLOCK_BOOTTIME)`. -/
def bootTimeNs : Option Timespec → UInt64
  | none => 0
  | some ts => ts.tvSec.toUInt64 * 1000000000 + ts.tvNsec.toUInt64

def clockTime (ns : UInt64) : String :=
  let secs := ns / 1000000000
  let millis := (ns % 1000000000) / 1000000
  String.ofList
    (zeroPad 2 ((secs / 3600) % 24).toNat ++ ':' :: zeroPad 2 ((secs / 60) % 60).toNat ++
      ':' :: zeroPad 2 (secs % 60).toNat ++ '.' :: zeroPad 3 millis.toNat)

def wallTime (ktimeNs bootOffsetNs : UInt64) : String := clockTime (bootOffsetNs + ktimeNs)

end Events

namespace Collector

/-- The dashboard reads the timestamp at its fixed offset in the raw record. -/
def wallTime (data : List UInt8) (bootOffsetNs : UInt64) : String :=
  if data.length < 16 then "???:??:??.???"
  else Events.clockTime (bootOffsetNs + u64At data 8)

end Collector

/-- Offsets in nanoseconds from `CLOCK_MONOTONIC`, constant during a run. -/
structure Clocks where
  realtime : ℕ
  suspended : ℕ

namespace Clocks

/-- `CLOCK_BOOTTIME` when `CLOCK_MONOTONIC` reads `mono`. -/
def boottime (c : Clocks) (mono : ℕ) : Timespec :=
  ⟨Int64.ofNat ((mono + c.suspended) / 1000000000), Int64.ofNat ((mono + c.suspended) % 1000000000)⟩

def bootOffsetNs (c : Clocks) (start : ℕ) : UInt64 := Events.bootTimeNs (some (c.boottime start))

/-- `SystemTime::now()` since the epoch, cast to `u64` as `latency::run` does. -/
def systemTimeNs (c : Clocks) (mono : ℕ) : UInt64 := UInt64.ofNat (mono + c.realtime)

end Clocks

/-- Which millisecond of its day an instant lies in. -/
def millisOfDay (ns : ℕ) : ℕ := ns / 1000000 % 86400000

theorem Clocks.bootOffsetNs_eq (c : Clocks) (start : ℕ) :
    c.bootOffsetNs start = UInt64.ofNat (start + c.suspended) := by
  have hcast (n : ℕ) : (Int64.ofNat n).toUInt64 = UInt64.ofNat n := rfl
  have h1 : (1000000000 : UInt64) = UInt64.ofNat 1000000000 := rfl
  rw [Clocks.bootOffsetNs, Events.bootTimeNs, Clocks.boottime, hcast, hcast, h1, ← UInt64.ofNat_mul,
    ← UInt64.ofNat_add, Nat.div_add_mod']

theorem Events.clockTime_eq_iff (a b : UInt64) :
    Events.clockTime a = Events.clockTime b ↔ millisOfDay a.toNat = millisOfDay b.toNat := by
  have hfields (n : UInt64) : Events.clockTime n = String.ofList
      (zeroPad 2 (n.toNat / 1000000000 / 3600 % 24) ++ ':' ::
        zeroPad 2 (n.toNat / 1000000000 / 60 % 60) ++ ':' ::
        zeroPad 2 (n.toNat / 1000000000 % 60) ++ '.' ::
        zeroPad 3 (n.toNat % 1000000000 / 1000000)) := by
    simp [Events.clockTime, UInt64.toNat_div, UInt64.toNat_mod]
  rw [hfields, hfields, String.ofList_inj]
  constructor
  · intro h
    -- the fields have fixed widths, so they can be cut apart one by one
    simp only [List.append_assoc, List.cons_append] at h
    obtain ⟨hh, h⟩ := List.append_inj h (by
      rw [length_zeroPad (by omega) (by omega), length_zeroPad (by omega) (by omega)])
    obtain ⟨hm, h⟩ := List.append_inj (List.cons.inj h).2 (by
      rw [length_zeroPad (by omega) (by omega), length_zeroPad (by omega) (by omega)])
    obtain ⟨hs, h⟩ := List.append_inj (List.cons.inj h).2 (by
      rw [length_zeroPad (by omega) (by omega), length_zeroPad (by omega) (by omega)])
    have hms := zeroPad_injective 3 (List.cons.inj h).2
    replace hh := zeroPad_injective 2 hh
    replace hm := zeroPad_injective 2 hm
    replace hs := zeroPad_injective 2 hs
    unfold millisOfDay
    omega
  · intro h
    unfold millisOfDay at h
    have hh : a.toNat / 1000000000 / 3600 % 24 = b.toNat / 1000000000 / 3600 % 24 := by omega
    have hm : a.toNat / 1000000000 / 60 % 60 = b.toNat / 1000000000 / 60 % 60 := by omega
    have hs : a.toNat / 1000000000 % 60 = b.toNat / 1000000000 % 60 := by omega
    have hms : a.toNat % 1000000000 / 1000000 = b.toNat % 1000000000 / 1000000 := by omega
    rw [hh, hm, hs, hms]

theorem Collector.wallTime_eq {data : List UInt8} (h : 16 ≤ data.length) (off : UInt64) :
    Collector.wallTime data off = Events.wallTime (u64At data 8) off := by
  rw [Collector.wallTime, if_neg (by omega), Events.wallTime]

/-- The time shown for an event, by the commands from the decoded field and by
the dashboard from the raw record, against the wall clock at the event. -/
theorem event_time_eq_wall_clock_iff (c : Clocks) (start : ℕ) (k : UInt64) (data : List UInt8)
    (hlen : 16 ≤ data.length) (hk : u64At data 8 = k) :
    (Events.wallTime k (c.bootOffsetNs start) = Events.clockTime (c.systemTimeNs k.toNat) ∧
      Collector.wallTime data (c.bootOffsetNs start) =
        Events.clockTime (c.systemTimeNs k.toNat)) ↔
    millisOfDay ((start + c.suspended + k.toNat) % 2 ^ 64) =
      millisOfDay ((k.toNat + c.realtime) % 2 ^ 64) := by
  have hoff : (c.bootOffsetNs start + k).toNat = (start + c.suspended + k.toNat) % 2 ^ 64 := by
    rw [Clocks.bootOffsetNs_eq, UInt64.toNat_add, UInt64.toNat_ofNat', Nat.mod_add_mod]
  rw [Collector.wallTime_eq hlen, hk, and_self, Events.wallTime, Events.clockTime_eq_iff, hoff,
    Clocks.systemTimeNs, UInt64.toNat_ofNat']

theorem event_time_eq_wall_clock_one_day :
    Events.wallTime 5 ((⟨86400000000000, 0⟩ : Clocks).bootOffsetNs 0) =
        Events.clockTime ((⟨86400000000000, 0⟩ : Clocks).systemTimeNs 5) ∧
      Collector.wallTime (leBytes 16 (5 * 2 ^ 64)) ((⟨86400000000000, 0⟩ : Clocks).bootOffsetNs 0) =
        Events.clockTime ((⟨86400000000000, 0⟩ : Clocks).systemTimeNs 5) :=
  (event_time_eq_wall_clock_iff ⟨86400000000000, 0⟩ 0 5 (leBytes 16 (5 * 2 ^ 64)) (by decide)
    (by decide)).mpr (by decide)

/-- Started an hour after boot, in November 2023: what is shown one second later
is twice the uptime, not the time of day. -/
theorem event_time_wrong_after_one_hour :
    Events.wallTime 3601000000000
        ((⟨1700000000000000000, 0⟩ : Clocks).bootOffsetNs 3600000000000) = "02:00:01.000" ∧
      Events.clockTime ((⟨1700000000000000000, 0⟩ : Clocks).systemTimeNs 3601000000000) =
        "23:13:21.000" ∧
      Events.wallTime 3601000000000
          ((⟨1700000000000000000, 0⟩ : Clocks).bootOffsetNs 3600000000000) ≠
        Events.clockTime ((⟨1700000000000000000, 0⟩ : Clocks).systemTimeNs 3601000000000) := by
  decide

end Tracelet
