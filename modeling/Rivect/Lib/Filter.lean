import Mathlib.Algebra.Ring.Nat

/-!
Classic packet-filter programs over the record a system-call filter reads: the accumulator
machine, its little-endian instruction format, and the rules by which a program is followed
from its front.
-/

namespace Rivect.Lib.Filter

open List

/-- The low `count` bytes of a number, least significant first. -/
def leBytes : Nat → Nat → List UInt8
  | 0, _ => []
  | count + 1, value => UInt8.ofNat value :: leBytes count (value / 256)

/-- The number that little-endian bytes spell. -/
def leValue : List UInt8 → Nat
  | [] => 0
  | byte :: rest => byte.toNat + 256 * leValue rest

@[simp]
theorem length_leBytes (count value : Nat) : (leBytes count value).length = count := by
  induction count generalizing value with
  | zero => rfl
  | succ count ih => simp [leBytes, ih]

theorem leValue_leBytes (count value : Nat) :
    leValue (leBytes count value) = value % 256 ^ count := by
  induction count generalizing value with
  | zero => simp [leBytes, leValue, Nat.mod_one]
  | succ count ih =>
      have hbyte : (UInt8.ofNat value).toNat = value % 256 := by simp
      rw [leBytes, leValue, ih, hbyte, Nat.pow_succ', Nat.mod_mul]

/-- A machine word is read back from as many bytes as it is wide. -/
theorem ofNat_leBytes {w : Nat} (count : Nat) (value : BitVec w) (hwidth : 2 ^ w = 256 ^ count) :
    BitVec.ofNat w (leValue (leBytes count value.toNat)) = value := by
  apply BitVec.eq_of_toNat_eq
  rw [leValue_leBytes, ← hwidth, BitVec.toNat_ofNat, Nat.mod_mod, Nat.mod_eq_of_lt value.isLt]

/-- One instruction: opcode, the two relative offsets of a branch, and the operand. -/
structure Instruction where
  code : BitVec 16
  jt : BitVec 8
  jf : BitVec 8
  k : BitVec 32
  deriving DecidableEq

/-- The record a filter judges. -/
structure Data where
  nr : BitVec 32
  arch : BitVec 32
  instructionPointer : BitVec 64
  args : Fin 6 → BitVec 64

/-- The two 32-bit halves of a 64-bit value, as they lie in memory. -/
def halves (value : BitVec 64) : List (BitVec 32) :=
  [value.setWidth 32, (value >>> 32).setWidth 32]

/-- The record as its sixteen aligned words. -/
def Data.words (data : Data) : List (BitVec 32) :=
  data.nr :: data.arch :: (halves data.instructionPointer ++
    (finRange 6).flatMap fun i => halves (data.args i))

/-- A word load: aligned, and inside the record. -/
def Data.load (data : Data) (offset : BitVec 32) : Option (BitVec 32) :=
  if offset.toNat % 4 = 0 then data.words[offset.toNat / 4]? else none

/-- A 64-bit value is zero-extended from its low half exactly when its high half is zero. -/
theorem halves_eq_iff (value : BitVec 64) (low : BitVec 32) :
    (value.setWidth 32 = low ∧ (value >>> 32).setWidth 32 = 0#32) ↔
      value = low.setWidth 64 := by
  simp only [← BitVec.toNat_inj, BitVec.toNat_setWidth, BitVec.toNat_ushiftRight,
    Nat.shiftRight_eq_div_pow]
  have hvalue := value.isLt
  have hlow := low.isLt
  simp only [BitVec.toNat_ofNat]
  omega

/-- What one instruction does with the accumulator: go on, branch, or return. -/
inductive Effect where
  | next (accumulator : BitVec 32)
  | jump (offset : Nat)
  | ret (verdict : BitVec 32)
  | fault
  deriving DecidableEq

/-- The instructions of accumulator programs: word load, and, jump-if-equal, jump-if-set,
return; any other opcode faults. -/
def Instruction.effect (i : Instruction) (data : Data) (accumulator : BitVec 32) : Effect :=
  if i.code = 0x20 then
    match data.load i.k with
    | some word => .next word
    | none => .fault
  else if i.code = 0x54 then .next (accumulator &&& i.k)
  else if i.code = 0x15 then .jump (if accumulator = i.k then i.jt.toNat else i.jf.toNat)
  else if i.code = 0x45 then .jump (if accumulator &&& i.k ≠ 0 then i.jt.toNat else i.jf.toNat)
  else if i.code = 0x06 then .ret i.k
  else .fault

/-- The machine: where it stands in the program, and its accumulator. -/
structure Machine where
  pc : Nat
  accumulator : BitVec 32

/-- One step of the machine: a new state, or the verdict. Standing outside the program is a
fault. -/
def step (program : List Instruction) (data : Data) (machine : Machine) :
    Option (Machine ⊕ BitVec 32) :=
  match program[machine.pc]? with
  | none => none
  | some i =>
    match i.effect data machine.accumulator with
    | .next accumulator => some (.inl ⟨machine.pc + 1, accumulator⟩)
    | .jump offset => some (.inl ⟨machine.pc + 1 + offset, machine.accumulator⟩)
    | .ret verdict => some (.inr verdict)
    | .fault => none

/-- The machine for a bounded number of steps. -/
def runFor (program : List Instruction) (data : Data) : Nat → Machine → Option (BitVec 32)
  | 0, _ => none
  | steps + 1, machine =>
    match step program data machine with
    | some (.inl machine) => runFor program data steps machine
    | some (.inr verdict) => some verdict
    | none => none

/-- A whole run, from the first instruction with a zero accumulator: as many steps as there
are instructions. -/
def run (program : List Instruction) (data : Data) : Option (BitVec 32) :=
  runFor program data program.length ⟨0, 0⟩

/-- Does the instruction branch? -/
def Instruction.Jumps (i : Instruction) : Prop :=
  i.code = 0x15 ∨ i.code = 0x45

instance (i : Instruction) : Decidable i.Jumps :=
  inferInstanceAs (Decidable (_ ∨ _))

/-- Both targets of every branch are instructions of the program. -/
def JumpsInside (program : List Instruction) : Prop :=
  ∀ pc i, program[pc]? = some i → i.Jumps →
    pc + 1 + i.jt.toNat < program.length ∧ pc + 1 + i.jf.toNat < program.length

theorem jumpsInside_nil : JumpsInside [] := by
  intro pc i hat
  simp at hat

theorem jumpsInside_cons {i : Instruction} {rest : List Instruction} :
    JumpsInside (i :: rest) ↔
      (i.Jumps → i.jt.toNat < rest.length ∧ i.jf.toNat < rest.length) ∧ JumpsInside rest := by
  constructor
  · intro h
    refine ⟨fun hjumps => ?_, fun pc j hat hjumps => ?_⟩
    · have hhead := h 0 i rfl hjumps
      simp only [length_cons] at hhead
      omega
    · have htail := h (pc + 1) j (by simpa using hat) hjumps
      simp only [length_cons] at htail
      omega
  · rintro ⟨hhead, htail⟩ pc j hat hjumps
    cases pc with
    | zero =>
        obtain rfl : i = j := by simpa using hat
        have := hhead hjumps
        simp only [length_cons]
        omega
    | succ pc =>
        have := htail pc j (by simpa using hat) hjumps
        simp only [length_cons]
        omega

/-- The program followed from its front: a branch drops the instructions it skips. -/
def follow (data : Data) : List Instruction → BitVec 32 → Option (BitVec 32)
  | [], _ => none
  | i :: rest, accumulator =>
    match i.effect data accumulator with
    | .next accumulator => follow data rest accumulator
    | .jump offset => follow data (rest.drop offset) accumulator
    | .ret verdict => some verdict
    | .fault => none
  termination_by program => program.length
  decreasing_by
  · exact Nat.lt_succ_self _
  · rw [length_drop, length_cons]
    omega

/-- The machine does what following the rest of the program says, and takes at most one step
for each instruction that is left: every step moves forward. -/
theorem runFor_follow (program : List Instruction) (data : Data) :
    ∀ left machine, program.length - machine.pc ≤ left →
      runFor program data left machine =
        follow data (program.drop machine.pc) machine.accumulator := by
  intro left
  induction left with
  | zero =>
      intro machine hleft
      rw [drop_eq_nil_of_le (by omega), follow]
      rfl
  | succ left ih =>
      intro machine hleft
      by_cases hpc : machine.pc < program.length
      · have hat : program[machine.pc]? = some program[machine.pc] := by simp [hpc]
        have hcut : program.drop machine.pc = program[machine.pc] :: program.drop (machine.pc + 1) :=
          drop_eq_getElem_cons hpc
        rw [runFor, step, hat, hcut, follow]
        dsimp only
        cases program[machine.pc].effect data machine.accumulator with
        | next accumulator =>
            have hrest := ih ⟨machine.pc + 1, accumulator⟩ (by dsimp only; omega)
            exact hrest
        | jump offset =>
            have hrest := ih ⟨machine.pc + 1 + offset, machine.accumulator⟩
              (by dsimp only; omega)
            have hdrop : program.drop (machine.pc + 1 + offset) =
                (program.drop (machine.pc + 1)).drop offset := drop_drop.symm
            rw [hdrop] at hrest
            exact hrest
        | ret verdict => rfl
        | fault => rfl
      · have hout : program[machine.pc]? = none := by simp; omega
        rw [drop_eq_nil_of_le (by omega), follow, runFor, step, hout]

theorem run_eq_follow (program : List Instruction) (data : Data) :
    run program data = follow data program 0 :=
  runFor_follow program data program.length ⟨0, 0⟩ (by simp)

section rules

variable {data : Data} {i : Instruction} {rest : List Instruction} {accumulator : BitVec 32}

theorem follow_load {word : BitVec 32} (hcode : i.code = 0x20)
    (hload : data.load i.k = some word) :
    follow data (i :: rest) accumulator = follow data rest word := by
  rw [follow]
  simp [Instruction.effect, hcode, hload]

theorem follow_and (hcode : i.code = 0x54) :
    follow data (i :: rest) accumulator = follow data rest (accumulator &&& i.k) := by
  rw [follow]
  simp [Instruction.effect, hcode]

theorem follow_jeq (hcode : i.code = 0x15) :
    follow data (i :: rest) accumulator =
      if accumulator = i.k then follow data (rest.drop i.jt.toNat) accumulator
      else follow data (rest.drop i.jf.toNat) accumulator := by
  rw [follow, show i.effect data accumulator =
    .jump (if accumulator = i.k then i.jt.toNat else i.jf.toNat) by
      simp [Instruction.effect, hcode]]
  dsimp only
  split <;> rfl

theorem follow_jset (hcode : i.code = 0x45) :
    follow data (i :: rest) accumulator =
      if accumulator &&& i.k ≠ 0 then follow data (rest.drop i.jt.toNat) accumulator
      else follow data (rest.drop i.jf.toNat) accumulator := by
  rw [follow, show i.effect data accumulator =
    .jump (if accumulator &&& i.k ≠ 0 then i.jt.toNat else i.jf.toNat) by
      simp [Instruction.effect, hcode]]
  dsimp only
  split <;> rfl

theorem follow_ret (hcode : i.code = 0x06) : follow data (i :: rest) accumulator = some i.k := by
  rw [follow]
  simp [Instruction.effect, hcode]

end rules

/-- The eight bytes of an instruction. -/
def Instruction.bytes (i : Instruction) : List UInt8 :=
  leBytes 2 i.code.toNat ++ leBytes 1 i.jt.toNat ++ leBytes 1 i.jf.toNat ++ leBytes 4 i.k.toNat

/-- A filter file as its instructions: eight bytes each, nothing left over. -/
def decode : List UInt8 → Option (List Instruction)
  | [] => some []
  | c0 :: c1 :: jt :: jf :: k0 :: k1 :: k2 :: k3 :: rest => do
    let program ← decode rest
    return ⟨BitVec.ofNat 16 (leValue [c0, c1]), BitVec.ofNat 8 (leValue [jt]),
      BitVec.ofNat 8 (leValue [jf]), BitVec.ofNat 32 (leValue [k0, k1, k2, k3])⟩ :: program
  | _ => none

theorem decode_bytes_append (i : Instruction) (rest : List UInt8) :
    decode (i.bytes ++ rest) = (decode rest).map (i :: ·) := by
  have hcode := ofNat_leBytes 2 i.code rfl
  have hjt := ofNat_leBytes 1 i.jt rfl
  have hjf := ofNat_leBytes 1 i.jf rfl
  have hk := ofNat_leBytes 4 i.k rfl
  simp only [leBytes] at hcode hjt hjf hk
  simp only [Instruction.bytes, leBytes, cons_append, nil_append, decode, hcode, hjt,
    hjf, hk]
  cases decode rest <;> rfl

/-- A file written instruction by instruction reads back as those instructions. -/
theorem decode_bytes (program : List Instruction) :
    decode (program.flatMap Instruction.bytes) = some program := by
  induction program with
  | nil => rfl
  | cons i program ih => rw [flatMap_cons, decode_bytes_append, ih]; rfl

end Rivect.Lib.Filter
