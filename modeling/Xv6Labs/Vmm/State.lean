import Xv6Labs.Kernel.Memory

/-!
# The virtual machine monitor: its state and the tables of registers

One `vm_virtual_state` serves every process; a register of the trapframe and
a CSR are named by the enumerations the tables of the source range over.
-/

namespace Xv6Labs.Vmm

open Kernel

/-- `U_MODE`, `S_MODE`, `M_MODE` -/
inductive Mode where
  | u
  | s
  | m
  deriving DecidableEq

def Mode.level : Mode → Nat
  | .u => 0
  | .s => 1
  | .m => 2

instance : LE Mode := ⟨fun left right => left.level ≤ right.level⟩

instance (left right : Mode) : Decidable (left ≤ right) :=
  inferInstanceAs (Decidable (left.level ≤ right.level))

theorem Mode.le_m (mode : Mode) : mode ≤ .m := by
  cases mode <;> decide

inductive Reg where
  | ra | sp | gp | tp | t0 | t1 | t2 | s0 | s1
  | a0 | a1 | a2 | a3 | a4 | a5 | a6 | a7 | s2
  | s3 | s4 | s5 | s6 | s7 | s8 | s9 | s10 | s11
  | t3 | t4 | t5 | t6
  deriving DecidableEq

/-- `struct trapframe`, less what `usertrapret` writes on every return. -/
structure Trapframe where
  epc : Word
  reg : Reg → Word

namespace Trapframe

def zeroed : Trapframe := ⟨0, fun _ => 0⟩

def setReg (tf : Trapframe) (reg : Reg) (value : Word) : Trapframe :=
  { tf with reg := Function.update tf.reg reg value }

end Trapframe

/-- Conversion of a `uint64` to an `int` parameter or result. -/
def toInt (value : Word) : BitVec 32 := value.setWidth 32

/-- Conversion of an `int` to `uint64`. -/
def ofInt (value : BitVec 32) : Word := value.signExtend 64

/-- The order of the registers in `get_trapframe`, from 1. -/
def sourceReg : Nat → Option Reg
  | 1 => some .ra
  | 2 => some .sp
  | 3 => some .gp
  | 4 => some .tp
  | 5 => some .t0
  | 6 => some .t1
  | 7 => some .t2
  | 8 => some .s0
  | 9 => some .s1
  | 10 => some .a0
  | 11 => some .a1
  | 12 => some .a2
  | 13 => some .a3
  | 14 => some .a4
  | 15 => some .a5
  | 16 => some .a6
  | 17 => some .a7
  | 18 => some .s2
  | 19 => some .s3
  | 20 => some .s4
  | 21 => some .s5
  | 22 => some .s6
  | 23 => some .s7
  | 24 => some .s8
  | 25 => some .s9
  | 26 => some .s10
  | 27 => some .s11
  | 28 => some .t3
  | 29 => some .t4
  | 30 => some .t5
  | 31 => some .t6
  | _ => none

/-- `get_trapframe` -/
def getTrapframe (tf : Trapframe) (rs1 : Nat) : BitVec 32 :=
  match sourceReg rs1 with
  | some reg => toInt (tf.reg reg)
  | none => 0

/-- The order of the registers in `csrr_write_trapframe`, from 10. -/
def destinationReg : Nat → Option Reg
  | 0xa => some .a0
  | 0xb => some .a1
  | 0xc => some .a2
  | 0xd => some .a3
  | 0xe => some .a4
  | 0xf => some .a5
  | 0x10 => some .a6
  | 0x11 => some .a7
  | 0x12 => some .t0
  | 0x13 => some .t1
  | 0x14 => some .t2
  | 0x15 => some .t3
  | 0x16 => some .t4
  | 0x17 => some .t5
  | 0x18 => some .t6
  | 0x19 => some .s0
  | 0x1a => some .s1
  | 0x1b => some .s2
  | 0x1c => some .s3
  | 0x1d => some .s4
  | 0x1e => some .s5
  | 0x1f => some .s6
  | 0x20 => some .s7
  | 0x21 => some .s8
  | 0x22 => some .s9
  | 0x23 => some .s10
  | 0x24 => some .s11
  | _ => none

/-- `csrr_write_trapframe` -/
def csrrWriteTrapframe (regVal : Nat) (value : BitVec 32) (tf : Trapframe) :
    Trapframe :=
  match destinationReg regVal with
  | some reg => tf.setReg reg (ofInt value)
  | none => tf

instance neZeroPmpEntries : NeZero 16 := ⟨by decide⟩

inductive Csr where
  | mtvec | mstatus | mepc | medeleg | mideleg
  | mie | mip | mtval2 | mcounteren | mstatush
  | mvendorid | marchid | mimpid | mhartid | mconfigptr
  | mcause | mscratch | misa | mtval | mtinst
  | sstatus | sie | sepc | stvec | satp
  | sedeleg | scounteren | uepc | utvec | uscratch
  | ustatus | ucause | ubadaddr | uip | uie
  | pmpaddr (index : Fin 16)
  | pmpcfg (index : Fin 16)
  deriving DecidableEq

/-- `struct vm_reg`, less the `code` that nothing reads. -/
structure VmReg where
  mode : Mode
  val : Word

/-- `struct vm_virtual_state`.  A null `vmm_pagetable` is the absent table. -/
structure VmState where
  reg : Csr → VmReg
  execMode : Mode
  vmmPagetable : PageTable

/-- The mode `trap_and_emulate_init` records for a register. -/
def Csr.initMode : Csr → Mode
  | .sstatus | .sie | .sepc | .stvec | .satp | .sedeleg | .scounteren => .s
  | .uepc | .utvec | .uscratch | .ustatus | .ucause | .ubadaddr | .uip | .uie =>
      .u
  | _ => .m

def Csr.initVal : Csr → Word
  | .mvendorid => 0x637365353336
  | _ => 0

namespace VmState

/-- All bytes of the structure are 0. -/
def zeroed : VmState := ⟨fun _ => ⟨.u, 0⟩, .u, .absent⟩

/-- `trap_and_emulate_init` -/
def init : VmState :=
  ⟨fun csr => ⟨csr.initMode, csr.initVal⟩, .m, .absent⟩

def val (vmm : VmState) (csr : Csr) : Word := (vmm.reg csr).val

def setVal (vmm : VmState) (csr : Csr) (value : Word) : VmState :=
  { vmm with reg := Function.update vmm.reg csr { vmm.reg csr with val := value } }

@[simp] theorem setVal_execMode (vmm : VmState) (csr : Csr) (value : Word) :
    (vmm.setVal csr value).execMode = vmm.execMode := rfl

theorem setVal_self (vmm : VmState) (csr : Csr) (value : Word)
    (same : vmm.val csr = value) : vmm.setVal csr value = vmm := by
  subst value
  simp [setVal, val]

theorem setVal_val (vmm : VmState) (csr other : Csr) (value : Word) :
    (vmm.setVal csr value).val other =
      if other = csr then value else vmm.val other := by
  by_cases same : other = csr
  · simp [setVal, val, same]
  · simp [setVal, val, same]

theorem setVal_mode (vmm : VmState) (csr other : Csr) (value : Word) :
    ((vmm.setVal csr value).reg other).mode = (vmm.reg other).mode := by
  by_cases same : other = csr
  · simp [setVal, same]
  · simp [setVal, same]

end VmState

/-- `csr_register_map_values` -/
def csrRegisterMap : List (Nat × Option Csr) :=
  ([(0x305, some .mtvec), (0xf14, some .mhartid), (0x300, some .mstatus),
   (0x341, some .mepc), (0x302, some .medeleg), (0x303, some .mideleg),
   (0xf11, some .mvendorid), (0x140, some .mscratch), (0x342, some .mcause),
   (0x343, some .mtval), (0x344, some .mip), (0x34a, some .mtinst),
   (0x301, some .misa), (0x304, some .mie), (0x306, some .mcounteren),
   (0xf12, some .marchid), (0xf13, some .mimpid), (0xf15, some .mconfigptr),
   (0x180, some .satp), (0x104, some .sie), (0x105, some .stvec),
   (0x100, some .sstatus), (0x102, some .sedeleg), (0x106, some .scounteren),
   (0x041, some .uepc), (0x042, some .ucause), (0x043, some .ubadaddr),
   (0x044, some .uip), (0x004, some .uie), (0x005, some .utvec),
   (0x040, some .uscratch), (0x34b, some .mtval2), (0x141, some .sepc),
   (0x34c, none), (0x000, none)] : List (Nat × Option Csr)) ++
    (List.finRange 16).flatMap fun index =>
      [(0x3a0 + index.val, some (.pmpcfg index)),
        (0x3b0 + index.val, some (.pmpaddr index))]

/-- `csr_register` -/
def csrRegister (code : Nat) : Option Csr :=
  (csrRegisterMap.find? fun entry => entry.1 = code).bind (·.2)

/-- The loop of `csr_register_1`: an entry whose mode is too high is passed
over, one that is null ends the search. -/
def searchReadable (vmm : VmState) (code : Nat) (currMode : Mode) :
    List (Nat × Option Csr) → Option Csr
  | [] => none
  | (entryCode, entry) :: rest =>
      if entryCode = code then
        match entry with
        | none => none
        | some csr =>
            if (vmm.reg csr).mode ≤ currMode then some csr
            else searchReadable vmm code currMode rest
      else searchReadable vmm code currMode rest

/-- `csr_register_1` -/
def csrRegister1 (vmm : VmState) (code : Nat) (currMode : Mode) : Option Csr :=
  searchReadable vmm code currMode csrRegisterMap

structure Proc where
  killed : Bool
  vmprocess : Bool
  sz : Nat
  pagetable : PageTable
  trapframePage : Nat
  trapframe : Trapframe

/-- The kernel under the virtual machines.  Processes are named by their pid,
which `allocpid` never hands out twice. -/
structure Host where
  proc : Nat → Proc
  vmm : VmState
  vmmPage : Nat
  pmpConfig : Bool
  phys : Physical

namespace Host

def setProc (h : Host) (pid : Nat) (p : Proc) : Host :=
  { h with proc := Function.update h.proc pid p }

/-- `kill` -/
def kill (h : Host) (pid : Nat) : Host :=
  h.setProc pid { h.proc pid with killed := true }

def setEpc (h : Host) (pid : Nat) (epc : Word) : Host :=
  h.setProc pid
    { h.proc pid with
      trapframe := { (h.proc pid).trapframe with epc := epc } }

def epc (h : Host) (pid : Nat) : Word := (h.proc pid).trapframe.epc

def setMode (h : Host) (mode : Mode) : Host :=
  { h with vmm := { h.vmm with execMode := mode } }

def setCsr (h : Host) (csr : Csr) (value : Word) : Host :=
  { h with vmm := h.vmm.setVal csr value }

section Fields

variable (h : Host) (pid : Nat)

@[simp] theorem kill_vmm : (h.kill pid).vmm = h.vmm := rfl

@[simp] theorem kill_pmpConfig : (h.kill pid).pmpConfig = h.pmpConfig := rfl

@[simp] theorem kill_killed : ((h.kill pid).proc pid).killed = true := by
  simp [kill, setProc]

@[simp] theorem kill_epc : (h.kill pid).epc pid = h.epc pid := by
  simp [kill, epc, setProc]

@[simp] theorem setEpc_vmm (epc : Word) : (h.setEpc pid epc).vmm = h.vmm := rfl

@[simp] theorem setEpc_killed (epc : Word) :
    ((h.setEpc pid epc).proc pid).killed = (h.proc pid).killed := by
  simp [setEpc, setProc]

@[simp] theorem setEpc_epc (epc : Word) : (h.setEpc pid epc).epc pid = epc := by
  simp [setEpc, Host.epc, setProc]

@[simp] theorem setMode_proc (mode : Mode) : (h.setMode mode).proc = h.proc := rfl

@[simp] theorem setMode_execMode (mode : Mode) :
    (h.setMode mode).vmm.execMode = mode := rfl

@[simp] theorem setCsr_proc (csr : Csr) (value : Word) :
    (h.setCsr csr value).proc = h.proc := rfl

@[simp] theorem setCsr_execMode (csr : Csr) (value : Word) :
    (h.setCsr csr value).vmm.execMode = h.vmm.execMode := rfl

end Fields

end Host

end Xv6Labs.Vmm
