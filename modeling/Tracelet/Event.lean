import Tracelet.ByteMemory
import Tracelet.RustText

namespace Tracelet
open ByteMemory

def recordVersion : UInt32 := 1

def eventKindExec : UInt32 := 1
def eventKindOpen : UInt32 := 2

def afInet : UInt8 := 2
def afInet6 : UInt8 := 10

def tcpEventConnect : UInt8 := 1
def tcpEventAccept : UInt8 := 2
def tcpEventClose : UInt8 := 3

structure ExecEvent where
  ktimeNs : UInt64
  kind : UInt32
  pid : UInt32
  ppid : UInt32
  comm : Vector UInt8 16
  filename : Vector UInt8 128
  deriving DecidableEq

structure OpenEvent where
  ktimeNs : UInt64
  kind : UInt32
  pid : UInt32
  comm : Vector UInt8 16
  filename : Vector UInt8 128
  deriving DecidableEq

structure TcpEvent where
  ktimeNs : UInt64
  pid : UInt32
  comm : Vector UInt8 16
  eventType : UInt8
  family : UInt8
  sport : UInt16
  dport : UInt16
  saddr : Vector UInt8 16
  daddr : Vector UInt8 16
  deriving DecidableEq

/-- A `repr(C)` struct as C lays it out on x86-64: its size, and how its fields lie in
that many bytes. -/
class ReprC (E : Type) where
  size : ℕ
  fields : List UInt8 → E

/-- Four bytes of padding follow `filename`. -/
instance : ReprC ExecEvent where
  size := 168
  fields b :=
    { ktimeNs := u64At b 0
      kind := u32At b 8
      pid := u32At b 12
      ppid := u32At b 16
      comm := arrayAt b 20 16
      filename := arrayAt b 36 128 }

instance : ReprC OpenEvent where
  size := 160
  fields b :=
    { ktimeNs := u64At b 0
      kind := u32At b 8
      pid := u32At b 12
      comm := arrayAt b 16 16
      filename := arrayAt b 32 128 }

/-- Six bytes of padding follow `daddr`. -/
instance : ReprC TcpEvent where
  size := 72
  fields b :=
    { ktimeNs := u64At b 0
      pid := u32At b 8
      comm := arrayAt b 12 16
      eventType := byteAt b 28
      family := byteAt b 29
      sport := u16At b 30
      dport := u16At b 32
      saddr := arrayAt b 34 16
      daddr := arrayAt b 50 16 }

namespace TcpEvent

def eventName (ev : TcpEvent) : String :=
  if ev.eventType = tcpEventConnect then "CONNECT"
  else if ev.eventType = tcpEventAccept then "ACCEPT"
  else if ev.eventType = tcpEventClose then "CLOSE"
  else "UNKNOWN"

def addrOf (ev : TcpEvent) (bytes : Vector UInt8 16) : String :=
  if ev.family = afInet then RustText.displayIpv4 bytes[0] bytes[1] bytes[2] bytes[3]
  else "[" ++ RustText.displayIpv6 bytes ++ "]"

def source (ev : TcpEvent) : String := ev.addrOf ev.saddr ++ ":" ++ toString ev.sport.toNat

def destination (ev : TcpEvent) : String := ev.addrOf ev.daddr ++ ":" ++ toString ev.dport.toNat

end TcpEvent

namespace Common

def printable (buf : List UInt8) : Bool := buf.all fun b => b == 0 || (0x20 ≤ b && b < 0x7f)

def readEvent (E : Type) [ReprC E] (data : List UInt8) : Option E :=
  if data.length ≠ ReprC.size E then none else some (ReprC.fields data)

end Common

/-- The bytes before the first NUL: `position(|&b| b == 0).unwrap_or(len)`. -/
def cutNul (buf : List UInt8) : List UInt8 := buf.take (buf.findIdx (· == 0))

theorem cutNul_append_nul {name : List UInt8} (h : 0 ∉ name) (rest : List UInt8) :
    cutNul (name ++ 0 :: rest) = name := by
  have hidx : (name ++ 0 :: rest).findIdx (· == 0) = name.length := by
    rw [List.findIdx_append, if_neg]
    · simp [List.findIdx_cons]
    · intro hlt
      obtain ⟨b, hb, h0⟩ := List.findIdx_lt_length.mp hlt
      exact h (eq_of_beq h0 ▸ hb)
  rw [cutNul, hidx, List.take_left]

theorem mem_cutNul {buf : List UInt8} {b : UInt8} (h : b ∈ cutNul buf) : b ∈ buf ∧ b ≠ 0 := by
  refine ⟨List.mem_of_mem_take h, ?_⟩
  rintro rfl
  obtain ⟨i, hi, h0⟩ := List.mem_iff_getElem.mp h
  simp only [cutNul, List.length_take, List.getElem_take] at hi h0
  have hlt : i < buf.findIdx (· == 0) := by omega
  have hne := List.not_of_lt_findIdx hlt
  simp [h0] at hne

theorem cutNul_ascii_of_printable {buf : List UInt8} (h : Common.printable buf = true) :
    ∀ b ∈ cutNul buf, b < 0x80 := by
  intro b hb
  obtain ⟨hmem, hne⟩ := mem_cutNul hb
  have hp := List.all_eq_true.mp h b hmem
  simp only [Bool.or_eq_true, beq_iff_eq, hne, false_or, Bool.and_eq_true, decide_eq_true_eq] at hp
  exact UInt8.lt_trans hp.2 (by decide)

end Tracelet
