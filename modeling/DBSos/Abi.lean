import Mathlib.Algebra.GroupWithZero.Nat

/-!
# IPC messages and capabilities

Messages are copied whole by every delivery path. `stamp` is an auxiliary mark
that is absent from the source: no modelled function reads it, and the copies
of a message carry it along, so a statement about a run can tell two sends of
equal content apart. `Message::empty` carries none.
-/

namespace DBSos.Abi

def payloadSize : Nat := 64

def portKernel : UInt16 := 0

/-- `Message`, with the auxiliary `stamp`. -/
structure Message where
  srcPort : UInt16
  dstPort : UInt16
  msgType : UInt16
  flags : UInt16
  length : UInt16
  shmemCap : UInt16
  data : Vector UInt8 payloadSize
  stamp : Option Nat
deriving DecidableEq

/-- `Message::empty`. -/
def Message.empty : Message where
  srcPort := 0
  dstPort := 0
  msgType := 0
  flags := 0
  length := 0
  shmemCap := 0
  data := Vector.replicate payloadSize 0
  stamp := none

/-- `Message::ping`. -/
def Message.ping (source target : UInt16) : Message :=
  { Message.empty with srcPort := source, dstPort := target, msgType := 0x0001 }

@[simp] theorem Message.empty_msgType : Message.empty.msgType = 0 := rfl
@[simp] theorem Message.empty_stamp : Message.empty.stamp = none := rfl

end DBSos.Abi

/-!
## Capabilities: types, rights and result codes

The kernel and its servers share these constants. Capability words are 64-bit;
the model keeps them as natural numbers because nothing computes with them
except the test of a rights bit.
-/

namespace DBSos.Abi

/-- `CapType`: what a capability refers to. -/
inductive CapType where
  | ipcTarget
  | sharedMem
  | irq
  | ipcReply
deriving DecidableEq, Repr

/-- The discriminant stored in `Cap::cap_type`. -/
def CapType.value : CapType → Nat
  | .ipcTarget => 1
  | .sharedMem => 2
  | .irq => 3
  | .ipcReply => 4

def capSend : Nat := 1 <<< 0
def capRecv : Nat := 1 <<< 1
def capRead : Nat := 1 <<< 2
def capWrite : Nat := 1 <<< 3

/-- One slot of a capability table. -/
structure Cap where
  capType : Nat
  serverId : Nat
  rights : Nat
  data : Nat
deriving DecidableEq, Repr

/-- `Cap::null`. -/
def Cap.null : Cap := ⟨0, 0, 0, 0⟩

/-- `Cap::is_valid`. -/
def Cap.isValid (cap : Cap) : Bool := cap.capType ≠ 0

abbrev maxCapsPerProcess : Nat := 64

instance : NeZero maxCapsPerProcess := ⟨by decide⟩

def ipcOk : Int := 0
def ipcErrBadCap : Int := -1
def ipcErrNoServer : Int := -2
def ipcErrTimeout : Int := -3
def ipcErrNoMem : Int := -4
def ipcErrDenied : Int := -5

@[simp] theorem Cap.isValid_null : Cap.null.isValid = false := rfl

end DBSos.Abi
