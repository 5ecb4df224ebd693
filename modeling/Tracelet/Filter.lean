import Tracelet.KernelMap
import Tracelet.Event

namespace Tracelet
open KernelMap

abbrev maxPids : ℕ := 16
def commMaxLen : ℕ := 15

def filterEventConnect : UInt32 := 1
def filterEventAccept : UInt32 := 2
def filterEventClose : UInt32 := 4
def filterEventAll : UInt32 := 7

/-- `src/error.rs`; the other variants wrap errors of libraries. -/
inductive TraceletError where
  | invalid (msg : String)
  deriving DecidableEq

/-- `FilterConfig` of `tracelet-common`; the default is all zeroes. -/
structure FilterConfig where
  eventMask : UInt32 := 0
  pidCount : UInt32 := 0
  pids : Vector UInt32 maxPids := Vector.replicate maxPids 0
  ppid : UInt32 := 0
  ppidEnabled : UInt32 := 0
  commEnabled : UInt32 := 0
  comm : Vector UInt8 16 := Vector.replicate 16 0
  deriving DecidableEq

namespace Filter

structure FilterArgs where
  pid : Option (List UInt32)
  ppid : Option UInt32
  comm : Option String

inductive EventKind where
  | connect | accept | close
  deriving DecidableEq

def EventKind.mask : EventKind → UInt32
  | connect => filterEventConnect
  | accept => filterEventAccept
  | close => filterEventClose

def eventMask : Option EventKind → UInt32
  | some kind => kind.mask
  | none => filterEventAll

def commBytes (comm : String) : Except TraceletError (Vector UInt8 16) :=
  let bytes := RustText.asBytes comm
  if bytes.isEmpty then .error (.invalid "comm filter must not be empty")
  else if bytes.length > commMaxLen then .error (.invalid "comm filter must be at most 15 bytes")
  else .ok (Vector.ofFn fun i => bytes.getD i 0)

/-- `cfg.pids[i] = pid` for each listed pid; the length was checked before. -/
def listPids (pids : List UInt32) : Vector UInt32 maxPids := Vector.ofFn fun i => pids.getD i 0

def withPids (args : FilterArgs) (cfg : FilterConfig) : Except TraceletError FilterConfig :=
  match args.pid with
  | none => .ok cfg
  | some pids =>
    if pids.length > maxPids then .error (.invalid "at most 16 PIDs supported")
    else .ok { cfg with pidCount := UInt32.ofNat pids.length, pids := listPids pids }

def withPpid (args : FilterArgs) (cfg : FilterConfig) : FilterConfig :=
  match args.ppid with
  | none => cfg
  | some ppid => { cfg with ppid := ppid, ppidEnabled := 1 }

def withComm (args : FilterArgs) (cfg : FilterConfig) : Except TraceletError FilterConfig :=
  match args.comm with
  | none => .ok cfg
  | some comm => do return { cfg with comm := ← commBytes comm, commEnabled := 1 }

def config (args : FilterArgs) (mask : UInt32) : Except TraceletError FilterConfig := do
  let cfg ← withPids args { eventMask := mask }
  withComm args (withPpid args cfg)

end Filter

end Tracelet
