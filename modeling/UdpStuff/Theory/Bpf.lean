/-
# Theory.Bpf — the packet filter machine

A filter is a list of instructions over one 32-bit accumulator.  Words of the packet
are loaded in network order, arithmetic wraps, comparisons are unsigned and a jump goes
forward by the instructions it names, so that every run ends (`run_jump`).  A load
outside of the packet ends it with `0`; the machine never runs off the end of a filter
that the kernel takes, here that is `none`.

A run ends with the number of bytes to keep, and `0` drops the packet (`Accepts`).
-/
import UdpStuff.Theory.ByteOrder

namespace UdpStuff.Theory.Bpf

set_option autoImplicit false

/-- The instructions: the load of a half word at a fixed place, the difference to a
constant, two conditional jumps, and the return of a constant. -/
inductive Op where
  | ldh
  | sub
  | jeq
  | jgt
  | ret

/-- `struct sock_filter` -/
structure SockFilter where
  code : Op
  jt : BitVec 8 := 0
  jf : BitVec 8 := 0
  k : BitVec 32

/-- `BPF_STMT` -/
def SockFilter.stmt (code : Op) (k : BitVec 32) : SockFilter := { code, k }

/-- `BPF_JUMP` -/
def SockFilter.jump (code : Op) (k : BitVec 32) (jt jf : BitVec 8) : SockFilter :=
  { code, jt, jf, k }

/-- The half word of the packet that the machine loads. -/
def loadHalf (packet : List UInt8) (offset : Nat) : Option (BitVec 32) :=
  if offset + 2 ≤ packet.length then
    some ((ByteOrder.big.load 16 ((packet.drop offset).take 2)).setWidth 32)
  else none

/-- The first `skip` instructions are jumped over. -/
def exec (packet : List UInt8) : List SockFilter → Nat → BitVec 32 → Option (BitVec 32)
  | [], _, _ => none
  | _ :: rest, skip + 1, a => exec packet rest skip a
  | insn :: rest, 0, a =>
    match insn.code with
    | .ldh => match loadHalf packet insn.k.toNat with
      | some v => exec packet rest 0 v
      | none => some 0
    | .sub => exec packet rest 0 (a - insn.k)
    | .jeq => exec packet rest (if a = insn.k then insn.jt else insn.jf).toNat a
    | .jgt => exec packet rest (if a > insn.k then insn.jt else insn.jf).toNat a
    | .ret => some insn.k

def run (packet : List UInt8) (code : List SockFilter) (a : BitVec 32) : Option (BitVec 32) :=
  exec packet code 0 a

def Accepts (packet : List UInt8) (code : List SockFilter) : Prop :=
  ∃ keep, run packet code 0 = some keep ∧ keep ≠ 0

variable {packet : List UInt8} {rest : List SockFilter} {k a : BitVec 32} {jt jf : BitVec 8}

theorem exec_eq_drop (code : List SockFilter) (skip : Nat) :
    exec packet code skip a = run packet (code.drop skip) a := by
  induction code generalizing skip with
  | nil => simp [run, exec]
  | cons insn rest ih =>
      cases skip with
      | zero => rfl
      | succ skip => exact ih skip

/-! ## One instruction -/

theorem run_ldh (inside : k.toNat + 2 ≤ packet.length) :
    run packet (.stmt .ldh k :: rest) a =
      run packet rest ((ByteOrder.big.load 16 ((packet.drop k.toNat).take 2)).setWidth 32) := by
  have loaded : loadHalf packet k.toNat =
      some ((ByteOrder.big.load 16 ((packet.drop k.toNat).take 2)).setWidth 32) := if_pos inside
  simp only [run, exec, SockFilter.stmt, loaded]

theorem run_sub : run packet (.stmt .sub k :: rest) a = run packet rest (a - k) := rfl

theorem run_jeq : run packet (.jump .jeq k jt jf :: rest) a =
    run packet (rest.drop (if a = k then jt else jf).toNat) a := exec_eq_drop rest _

theorem run_jgt : run packet (.jump .jgt k jt jf :: rest) a =
    run packet (rest.drop (if a > k then jt else jf).toNat) a := exec_eq_drop rest _

theorem run_ret : run packet (.stmt .ret k :: rest) a = some k := rfl

/-- A filter that decides something, and drops the packet if not. -/
theorem accepts_iff {code : List SockFilter} {keep : BitVec 32} (keeps : keep ≠ 0) {p : Prop}
    [Decidable p] (decides : run packet code 0 = some (if p then keep else 0)) :
    Accepts packet code ↔ p := by
  constructor
  · rintro ⟨kept, ran, nonzero⟩
    by_contra refused
    rw [decides, if_neg refused] at ran
    exact nonzero (Option.some.inj ran).symm
  · intro holds
    exact ⟨keep, by rw [decides, if_pos holds], keeps⟩

end UdpStuff.Theory.Bpf
