import Rivect.Lib.Filter

/-!
The seccomp filters of the sandbox helper (`crates/rivect-sandbox-helper/src/lib.rs`): the system
call tables, `compile_seccomp`, and the verdict of the compiled program on every record.
-/

namespace Rivect.Sandbox

open Lib.Filter List

inductive SeccompCompileError where
  | architecture
  deriving DecidableEq

/-- The two fixed points at which the native launch installs its fence. -/
inductive SeccompStage where
  | preInjection
  | final
  deriving DecidableEq

def AUDIT_ARCH_AARCH64 : BitVec 32 := 0xC00000B7

def AUDIT_ARCH_X86_64 : BitVec 32 := 0xC000003E

def SECCOMP_RET_ERRNO_EPERM : BitVec 32 := 0x00050001

def SECCOMP_RET_ERRNO_ENOSYS : BitVec 32 := 0x00050026

def SYS_CLONE3 : BitVec 32 := 435

def CLONE_NEWTIME : BitVec 32 := 0x00000080
def CLONE_NEWNS : BitVec 32 := 0x00020000
def CLONE_NEWCGROUP : BitVec 32 := 0x02000000
def CLONE_NEWUTS : BitVec 32 := 0x04000000
def CLONE_NEWIPC : BitVec 32 := 0x08000000
def CLONE_NEWUSER : BitVec 32 := 0x10000000
def CLONE_NEWPID : BitVec 32 := 0x20000000
def CLONE_NEWNET : BitVec 32 := 0x40000000

def CLONE_NEW_NAMESPACE_FLAGS : BitVec 32 :=
  CLONE_NEWTIME ||| CLONE_NEWNS ||| CLONE_NEWCGROUP ||| CLONE_NEWUTS ||| CLONE_NEWIPC |||
    CLONE_NEWUSER ||| CLONE_NEWPID ||| CLONE_NEWNET

def SECCOMP_DATA_ARGS0_OFFSET : BitVec 32 := 16

def SECCOMP_RET_ALLOW : BitVec 32 := 0x7FFF0000

def BPF_LD_W_ABS : BitVec 16 := 0x20
def BPF_ALU_AND_K : BitVec 16 := 0x54
def BPF_JEQ_K : BitVec 16 := 0x15
def BPF_RET_K : BitVec 16 := 0x06
def SECCOMP_DATA_NR_OFFSET : BitVec 32 := 0
def SECCOMP_DATA_ARCH_OFFSET : BitVec 32 := 4

def SECCOMP_COMPAT_BAND_MASK : BitVec 32 := 0xBFFFFFFF

/-- The tuple of `NativeSyscallTable`, with its five places named as `compile_seccomp` and
`sys_clone` name them. -/
structure NativeSyscallTable where
  arch : BitVec 32
  finalDenied : List (BitVec 32)
  earlyDenied : List (BitVec 32)
  socketpair : BitVec 32
  clone : BitVec 32
  deriving DecidableEq

/-- `native_net_syscalls`, over the name of the architecture the helper was built for. -/
def nativeNetSyscalls (ARCH : String) : Option NativeSyscallTable :=
  match ARCH with
  | "aarch64" => some
      { arch := AUDIT_ARCH_AARCH64
        finalDenied :=
          [198, 200, 201, 202, 203, 206, 211, 212, 242, 243, 269, 97, 117, 154, 157, 268, 270,
            271, 280, 425, 426, 427, 434, 438, SYS_CLONE3]
        earlyDenied := [198, 211, 269, 117, 270, 271, 438, 425, 426, 427]
        socketpair := 199
        clone := 220 }
  | "x86_64" => some
      { arch := AUDIT_ARCH_X86_64
        finalDenied :=
          [41, 42, 43, 44, 46, 47, 49, 50, 288, 299, 307, 101, 109, 112, 272, 308, 310, 311, 321,
            425, 426, 427, 434, 438, SYS_CLONE3]
        earlyDenied := [41, 46, 307, 101, 310, 311, 438, 425, 426, 427]
        socketpair := 53
        clone := 56 }
  | _ => none

/-- The first instructions of the final stage: the architecture guard, whose constant offset
reaches the return of the first deny pair, and the number with the compat band cleared. -/
def finalPrefix (table : NativeSyscallTable) : List Instruction :=
  [⟨BPF_LD_W_ABS, 0, 0, SECCOMP_DATA_ARCH_OFFSET⟩,
    ⟨BPF_JEQ_K, 0, 3, table.arch⟩,
    ⟨BPF_LD_W_ABS, 0, 0, SECCOMP_DATA_NR_OFFSET⟩,
    ⟨BPF_ALU_AND_K, 0, 0, SECCOMP_COMPAT_BAND_MASK⟩]

/-- The check of one 64-bit argument, low word and then high word. -/
def argumentCheck (offset expected : BitVec 32) : List Instruction :=
  [⟨BPF_LD_W_ABS, 0, 0, offset⟩,
    ⟨BPF_JEQ_K, 1, 0, expected⟩,
    ⟨BPF_RET_K, 0, 0, SECCOMP_RET_ERRNO_EPERM⟩,
    ⟨BPF_LD_W_ABS, 0, 0, offset + 4⟩,
    ⟨BPF_JEQ_K, 1, 0, 0⟩,
    ⟨BPF_RET_K, 0, 0, SECCOMP_RET_ERRNO_EPERM⟩]

/-- The raw ABI bit, judged on `x86_64` before the number is. -/
def abiBit (table : NativeSyscallTable) : List Instruction :=
  if table.arch = AUDIT_ARCH_X86_64 then
    [⟨0x45, 0, 1, 0x40000000⟩, ⟨BPF_RET_K, 0, 0, SECCOMP_RET_ERRNO_EPERM⟩]
  else []

/-- The first instructions of the stage before the injection. -/
def preInjectionPrefix (table : NativeSyscallTable) : List Instruction :=
  [⟨BPF_LD_W_ABS, 0, 0, SECCOMP_DATA_ARCH_OFFSET⟩,
    ⟨BPF_JEQ_K, 1, 0, table.arch⟩,
    ⟨BPF_RET_K, 0, 0, SECCOMP_RET_ERRNO_EPERM⟩,
    ⟨BPF_LD_W_ABS, 0, 0, SECCOMP_DATA_NR_OFFSET⟩] ++
  abiBit table ++
  [⟨BPF_JEQ_K, 0, 19, table.socketpair⟩] ++
  [((16 : BitVec 32), (1 : BitVec 32)), (24, 524293), (32, 0)].flatMap
    (fun check => argumentCheck check.1 check.2) ++
  [⟨BPF_RET_K, 0, 0, SECCOMP_RET_ALLOW⟩,
    ⟨BPF_LD_W_ABS, 0, 0, SECCOMP_DATA_NR_OFFSET⟩]

/-- The value a denied number returns. -/
def deniedReturn (nr : BitVec 32) : BitVec 32 :=
  if nr = SYS_CLONE3 then SECCOMP_RET_ERRNO_ENOSYS else SECCOMP_RET_ERRNO_EPERM

/-- The pair of instructions for each denied number. -/
def denyPairs (denied : List (BitVec 32)) : List Instruction :=
  denied.flatMap fun nr => [⟨BPF_JEQ_K, 0, 1, nr⟩, ⟨BPF_RET_K, 0, 0, deniedReturn nr⟩]

/-- `clone` is judged by the namespace bits of its first argument. -/
def cloneCheck (table : NativeSyscallTable) : List Instruction :=
  [⟨BPF_JEQ_K, 0, 4, table.clone⟩,
    ⟨BPF_LD_W_ABS, 0, 0, SECCOMP_DATA_ARGS0_OFFSET⟩,
    ⟨BPF_ALU_AND_K, 0, 0, CLONE_NEW_NAMESPACE_FLAGS⟩,
    ⟨BPF_JEQ_K, 1, 0, 0⟩,
    ⟨BPF_RET_K, 0, 0, SECCOMP_RET_ERRNO_EPERM⟩]

/-- The program `compile_seccomp` assembles from a table. -/
def seccompProgram (table : NativeSyscallTable) : SeccompStage → List Instruction
  | .final =>
      finalPrefix table ++ denyPairs table.finalDenied ++ cloneCheck table ++
        [⟨BPF_RET_K, 0, 0, SECCOMP_RET_ALLOW⟩]
  | .preInjection =>
      preInjectionPrefix table ++ denyPairs table.earlyDenied ++
        [⟨BPF_RET_K, 0, 0, SECCOMP_RET_ALLOW⟩]

/-- `compile_seccomp`: the program as the file the kernel loads. -/
def compileSeccomp (ARCH : String) (stage : SeccompStage) :
    Except SeccompCompileError (List UInt8) :=
  match nativeNetSyscalls ARCH with
  | none => .error .architecture
  | some table => .ok ((seccompProgram table stage).flatMap Instruction.bytes)

/-- What the final stage should answer. -/
def finalVerdict (table : NativeSyscallTable) (data : Data) : BitVec 32 :=
  let n := data.nr &&& ~~~(0x40000000 : BitVec 32)
  if data.arch ≠ table.arch then SECCOMP_RET_ERRNO_EPERM
  else if n = SYS_CLONE3 then SECCOMP_RET_ERRNO_ENOSYS
  else if n ∈ table.finalDenied then SECCOMP_RET_ERRNO_EPERM
  else if n = table.clone ∧ (data.args 0).setWidth 32 &&& CLONE_NEW_NAMESPACE_FLAGS ≠ 0 then
    SECCOMP_RET_ERRNO_EPERM
  else SECCOMP_RET_ALLOW

/-- What the stage before the injection should answer. -/
def preInjectionVerdict (table : NativeSyscallTable) (data : Data) : BitVec 32 :=
  if data.arch ≠ table.arch then SECCOMP_RET_ERRNO_EPERM
  else if table.arch = AUDIT_ARCH_X86_64 ∧ data.nr &&& 0x40000000 ≠ 0 then
    SECCOMP_RET_ERRNO_EPERM
  else if data.nr = table.socketpair then
    if data.args 0 = 1 ∧ data.args 1 = 524293 ∧ data.args 2 = 0 then SECCOMP_RET_ALLOW
    else SECCOMP_RET_ERRNO_EPERM
  else if data.nr ∈ table.earlyDenied then SECCOMP_RET_ERRNO_EPERM
  else SECCOMP_RET_ALLOW

/-- The policy of both stages. -/
def seccompVerdict (table : NativeSyscallTable) (data : Data) : SeccompStage → BitVec 32
  | .final => finalVerdict table data
  | .preInjection => preInjectionVerdict table data

section program

variable {data : Data} {accumulator : BitVec 32} {rest tail : List Instruction}
  {denied : List (BitVec 32)} {table : NativeSyscallTable}

theorem load_arch : data.load SECCOMP_DATA_ARCH_OFFSET = some data.arch := rfl

theorem load_nr : data.load SECCOMP_DATA_NR_OFFSET = some data.nr := rfl

theorem load_args0 :
    data.load SECCOMP_DATA_ARGS0_OFFSET = some ((data.args 0).setWidth 32) := rfl

/-- The deny pairs return on the numbers they list, and pass every other number on. -/
theorem follow_denyPairs :
    follow data (denyPairs denied ++ tail) accumulator =
      if accumulator ∈ denied then some (deniedReturn accumulator)
      else follow data tail accumulator := by
  induction denied with
  | nil => simp [denyPairs]
  | cons nr denied ih =>
      have hcut : denyPairs (nr :: denied) ++ tail =
          ⟨BPF_JEQ_K, 0, 1, nr⟩ :: ⟨BPF_RET_K, 0, 0, deniedReturn nr⟩ ::
            (denyPairs denied ++ tail) := rfl
      rw [hcut, follow_jeq rfl]
      by_cases hnr : accumulator = nr
      · subst hnr
        rw [if_pos rfl, if_pos mem_cons_self]
        exact follow_ret rfl
      · rw [if_neg hnr]
        have hdrop := ih
        simp only [mem_cons, hnr, false_or]
        exact hdrop

theorem follow_argumentCheck {offset expected : BitVec 32} {value : BitVec 64}
    (hlow : data.load offset = some (value.setWidth 32))
    (hhigh : data.load (offset + 4) = some ((value >>> 32).setWidth 32)) :
    follow data (argumentCheck offset expected ++ rest) accumulator =
      if value = expected.setWidth 64 then follow data rest 0
      else some SECCOMP_RET_ERRNO_EPERM := by
  have hvalue := halves_eq_iff value expected
  have hcut : argumentCheck offset expected ++ rest =
      ⟨BPF_LD_W_ABS, 0, 0, offset⟩ :: ⟨BPF_JEQ_K, 1, 0, expected⟩ ::
        ⟨BPF_RET_K, 0, 0, SECCOMP_RET_ERRNO_EPERM⟩ :: ⟨BPF_LD_W_ABS, 0, 0, offset + 4⟩ ::
          ⟨BPF_JEQ_K, 1, 0, 0⟩ :: ⟨BPF_RET_K, 0, 0, SECCOMP_RET_ERRNO_EPERM⟩ :: rest := rfl
  rw [hcut, follow_load rfl hlow, follow_jeq rfl]
  by_cases hl : value.setWidth 32 = expected
  · rw [if_pos hl]
    change follow data (_ :: _) _ = _
    rw [follow_load rfl hhigh, follow_jeq rfl]
    by_cases hh : (value >>> 32).setWidth 32 = 0
    · rw [if_pos hh, if_pos (hvalue.mp ⟨hl, hh⟩), hh]
      rfl
    · rw [if_neg hh, if_neg fun heq => hh (hvalue.mpr heq).2]
      exact follow_ret rfl
  · rw [if_neg hl, if_neg fun heq => hl (hvalue.mpr heq).1]
    exact follow_ret rfl

theorem follow_allow :
    follow data [⟨BPF_RET_K, 0, 0, SECCOMP_RET_ALLOW⟩] accumulator = some SECCOMP_RET_ALLOW :=
  follow_ret rfl

theorem follow_cloneCheck :
    follow data (cloneCheck table ++ [⟨BPF_RET_K, 0, 0, SECCOMP_RET_ALLOW⟩]) accumulator =
      some (if accumulator = table.clone ∧
          (data.args 0).setWidth 32 &&& CLONE_NEW_NAMESPACE_FLAGS ≠ 0 then
        SECCOMP_RET_ERRNO_EPERM else SECCOMP_RET_ALLOW) := by
  have hcut : cloneCheck table ++ [⟨BPF_RET_K, 0, 0, SECCOMP_RET_ALLOW⟩] =
      ⟨BPF_JEQ_K, 0, 4, table.clone⟩ :: ⟨BPF_LD_W_ABS, 0, 0, SECCOMP_DATA_ARGS0_OFFSET⟩ ::
        ⟨BPF_ALU_AND_K, 0, 0, CLONE_NEW_NAMESPACE_FLAGS⟩ :: ⟨BPF_JEQ_K, 1, 0, 0⟩ ::
          ⟨BPF_RET_K, 0, 0, SECCOMP_RET_ERRNO_EPERM⟩ ::
            [⟨BPF_RET_K, 0, 0, SECCOMP_RET_ALLOW⟩] := rfl
  rw [hcut, follow_jeq rfl]
  by_cases hclone : accumulator = table.clone
  · rw [if_pos hclone]
    change follow data (_ :: _) _ = _
    rw [follow_load rfl load_args0, follow_and rfl, follow_jeq rfl]
    by_cases hbits : (data.args 0).setWidth 32 &&& CLONE_NEW_NAMESPACE_FLAGS = 0
    · rw [if_pos hbits, if_neg fun h => h.2 hbits]
      exact follow_allow
    · rw [if_neg hbits, if_pos ⟨hclone, hbits⟩]
      exact follow_ret rfl
  · rw [if_neg hclone, if_neg fun h => hclone h.1]
    exact follow_allow

/-- What the theorems below need of a table: the guard of the final stage lands on the return
of a number that is not `clone3`, and only the final stage denies `clone3`. -/
structure NativeSyscallTable.Sound (table : NativeSyscallTable) : Prop where
  guard : ∃ nr rest, table.finalDenied = nr :: rest ∧ nr ≠ SYS_CLONE3
  final : SYS_CLONE3 ∈ table.finalDenied
  early : SYS_CLONE3 ∉ table.earlyDenied

theorem nativeNetSyscalls_sound {ARCH : String} (h : nativeNetSyscalls ARCH = some table) :
    table.Sound := by
  unfold nativeNetSyscalls at h
  split at h
  · cases h
    exact ⟨⟨198, _, rfl, by decide⟩, by decide, by decide⟩
  · cases h
    exact ⟨⟨41, _, rfl, by decide⟩, by decide, by decide⟩
  · cases h

/-- After the prefix of the final stage the number stands in the accumulator, its compat band
cleared; a foreign architecture is refused. -/
theorem follow_finalPrefix (hguard : ∃ nr after, denied = nr :: after ∧ nr ≠ SYS_CLONE3) :
    follow data (finalPrefix table ++ (denyPairs denied ++ tail)) 0 =
      if data.arch = table.arch then
        follow data (denyPairs denied ++ tail) (data.nr &&& SECCOMP_COMPAT_BAND_MASK)
      else some SECCOMP_RET_ERRNO_EPERM := by
  obtain ⟨nr, after, rfl, hnr⟩ := hguard
  have hcut : finalPrefix table ++ (denyPairs (nr :: after) ++ tail) =
      ⟨BPF_LD_W_ABS, 0, 0, SECCOMP_DATA_ARCH_OFFSET⟩ :: ⟨BPF_JEQ_K, 0, 3, table.arch⟩ ::
        ⟨BPF_LD_W_ABS, 0, 0, SECCOMP_DATA_NR_OFFSET⟩ ::
          ⟨BPF_ALU_AND_K, 0, 0, SECCOMP_COMPAT_BAND_MASK⟩ :: ⟨BPF_JEQ_K, 0, 1, nr⟩ ::
            ⟨BPF_RET_K, 0, 0, deniedReturn nr⟩ :: (denyPairs after ++ tail) := rfl
  have hdeny : denyPairs (nr :: after) ++ tail =
      ⟨BPF_JEQ_K, 0, 1, nr⟩ :: ⟨BPF_RET_K, 0, 0, deniedReturn nr⟩ ::
        (denyPairs after ++ tail) := rfl
  rw [hcut, hdeny, follow_load rfl load_arch, follow_jeq rfl]
  by_cases harch : data.arch = table.arch
  · rw [if_pos harch, if_pos harch]
    change follow data (_ :: _) _ = _
    rw [follow_load rfl load_nr, follow_and rfl]
  · rw [if_neg harch, if_neg harch]
    -- The constant offset of the guard reaches the return of the first deny pair.
    change follow data (⟨BPF_RET_K, 0, 0, deniedReturn nr⟩ :: _) _ = _
    rw [follow_ret rfl, deniedReturn, if_neg hnr]

theorem follow_final (htable : table.Sound) :
    follow data (seccompProgram table .final) 0 = some (finalVerdict table data) := by
  have hmask : ~~~(0x40000000 : BitVec 32) = SECCOMP_COMPAT_BAND_MASK := by decide
  rw [seccompProgram, append_assoc, append_assoc, follow_finalPrefix htable.guard,
    follow_denyPairs, follow_cloneCheck]
  unfold finalVerdict
  rw [hmask]
  by_cases harch : data.arch = table.arch
  · rw [if_pos harch, if_neg (not_not.mpr harch)]
    by_cases hclone3 : data.nr &&& SECCOMP_COMPAT_BAND_MASK = SYS_CLONE3
    · have hmem := htable.final
      rw [hclone3, if_pos hmem]
      rfl
    · simp only [deniedReturn, if_neg hclone3]
      split <;> rfl
  · rw [if_neg harch, if_pos harch]

/-- The three argument checks of `socketpair`, and the return behind them. -/
theorem follow_socketpairChecks :
    follow data ([((16 : BitVec 32), (1 : BitVec 32)), (24, 524293), (32, 0)].flatMap
        (fun check => argumentCheck check.1 check.2) ++
      ⟨BPF_RET_K, 0, 0, SECCOMP_RET_ALLOW⟩ :: tail) accumulator =
      some (if data.args 0 = 1 ∧ data.args 1 = 524293 ∧ data.args 2 = 0 then SECCOMP_RET_ALLOW
        else SECCOMP_RET_ERRNO_EPERM) := by
  have hcut : [((16 : BitVec 32), (1 : BitVec 32)), (24, 524293), (32, 0)].flatMap
        (fun check => argumentCheck check.1 check.2) ++
      ⟨BPF_RET_K, 0, 0, SECCOMP_RET_ALLOW⟩ :: tail =
      argumentCheck 16 1 ++ (argumentCheck 24 524293 ++ (argumentCheck 32 0 ++
        ⟨BPF_RET_K, 0, 0, SECCOMP_RET_ALLOW⟩ :: tail)) := rfl
  have hload0 : data.load 16 = some ((data.args 0).setWidth 32) := rfl
  have hload1 : data.load 24 = some ((data.args 1).setWidth 32) := rfl
  have hload2 : data.load 32 = some ((data.args 2).setWidth 32) := rfl
  rw [hcut, follow_argumentCheck hload0 rfl, follow_argumentCheck hload1 rfl,
    follow_argumentCheck hload2 rfl, follow_ret rfl]
  have hone : (1 : BitVec 32).setWidth 64 = 1 := by decide
  have hkind : (524293 : BitVec 32).setWidth 64 = 524293 := by decide
  have hzero : (0 : BitVec 32).setWidth 64 = 0 := by decide
  rw [hone, hkind, hzero]
  by_cases h0 : data.args 0 = 1
  · by_cases h1 : data.args 1 = 524293
    · by_cases h2 : data.args 2 = 0
      · rw [if_pos h0, if_pos h1, if_pos h2, if_pos ⟨h0, h1, h2⟩]
      · rw [if_pos h0, if_pos h1, if_neg h2, if_neg fun h => h2 h.2.2]
    · rw [if_pos h0, if_neg h1, if_neg fun h => h1 h.2.1]
  · rw [if_neg h0, if_neg fun h => h0 h.1]

theorem follow_abiBit :
    follow data (abiBit table ++ rest) accumulator =
      if table.arch = AUDIT_ARCH_X86_64 ∧ accumulator &&& 0x40000000 ≠ 0 then
        some SECCOMP_RET_ERRNO_EPERM
      else follow data rest accumulator := by
  unfold abiBit
  by_cases hx86 : table.arch = AUDIT_ARCH_X86_64
  · rw [if_pos hx86]
    have hcut : [⟨0x45, 0, 1, 0x40000000⟩, ⟨BPF_RET_K, 0, 0, SECCOMP_RET_ERRNO_EPERM⟩] ++ rest =
        ⟨0x45, 0, 1, 0x40000000⟩ :: ⟨BPF_RET_K, 0, 0, SECCOMP_RET_ERRNO_EPERM⟩ :: rest := rfl
    rw [hcut, follow_jset rfl]
    by_cases hbit : accumulator &&& 0x40000000 ≠ 0
    · rw [if_pos hbit, if_pos ⟨hx86, hbit⟩]
      exact follow_ret rfl
    · rw [if_neg hbit, if_neg fun h => hbit h.2]
      rfl
  · rw [if_neg hx86, if_neg fun h => hx86 h.1]
    rfl

theorem follow_preInjection (htable : table.Sound) :
    follow data (seccompProgram table .preInjection) 0 =
      some (preInjectionVerdict table data) := by
  have hcut : seccompProgram table .preInjection =
      ⟨BPF_LD_W_ABS, 0, 0, SECCOMP_DATA_ARCH_OFFSET⟩ :: ⟨BPF_JEQ_K, 1, 0, table.arch⟩ ::
        ⟨BPF_RET_K, 0, 0, SECCOMP_RET_ERRNO_EPERM⟩ ::
          ⟨BPF_LD_W_ABS, 0, 0, SECCOMP_DATA_NR_OFFSET⟩ :: (abiBit table ++
            ⟨BPF_JEQ_K, 0, 19, table.socketpair⟩ ::
              ([((16 : BitVec 32), (1 : BitVec 32)), (24, 524293), (32, 0)].flatMap
                  (fun check => argumentCheck check.1 check.2) ++
                ⟨BPF_RET_K, 0, 0, SECCOMP_RET_ALLOW⟩ ::
                  ⟨BPF_LD_W_ABS, 0, 0, SECCOMP_DATA_NR_OFFSET⟩ ::
                    (denyPairs table.earlyDenied ++
                      [⟨BPF_RET_K, 0, 0, SECCOMP_RET_ALLOW⟩]))) := by
    simp only [seccompProgram, preInjectionPrefix, append_assoc, cons_append,
      nil_append]
  rw [hcut, follow_load rfl load_arch, follow_jeq rfl]
  unfold preInjectionVerdict
  by_cases harch : data.arch = table.arch
  · rw [if_pos harch, if_neg (not_not.mpr harch)]
    change follow data (_ :: _) _ = _
    rw [follow_load rfl load_nr, follow_abiBit]
    by_cases hband : table.arch = AUDIT_ARCH_X86_64 ∧ data.nr &&& 0x40000000 ≠ 0
    · rw [if_pos hband, if_pos hband]
    · rw [if_neg hband, if_neg hband, follow_jeq rfl]
      by_cases hpair : data.nr = table.socketpair
      · rw [if_pos hpair, if_pos hpair]
        exact follow_socketpairChecks
      · rw [if_neg hpair, if_neg hpair]
        -- Nineteen instructions are skipped: the argument checks and the return behind them.
        change follow data (⟨BPF_LD_W_ABS, 0, 0, SECCOMP_DATA_NR_OFFSET⟩ ::
          (denyPairs table.earlyDenied ++ _)) _ = _
        rw [follow_load rfl load_nr, follow_denyPairs, follow_allow]
        by_cases hdenied : data.nr ∈ table.earlyDenied
        · have hclone3 : data.nr ≠ SYS_CLONE3 := fun h => htable.early (h ▸ hdenied)
          rw [if_pos hdenied, if_pos hdenied, deniedReturn, if_neg hclone3]
        · rw [if_neg hdenied, if_neg hdenied]
  · rw [if_neg harch, if_pos harch]
    exact follow_ret rfl

theorem jumpsInside_denyPairs (htail : tail ≠ []) (h : JumpsInside tail) :
    JumpsInside (denyPairs denied ++ tail) := by
  have hpos := length_pos_iff.mpr htail
  induction denied with
  | nil => exact h
  | cons nr denied ih =>
      refine jumpsInside_cons.mpr ⟨fun _ => ?_, jumpsInside_cons.mpr ⟨?_, ih⟩⟩
      · change 0 < _ + 1 ∧ 1 < _ + 1
        simp only [append_eq, length_append]
        omega
      · rintro (hcode | hcode)
        · exact absurd (show BPF_RET_K = 0x15 from hcode) (by decide)
        · exact absurd (show BPF_RET_K = 0x45 from hcode) (by decide)

theorem jumpsInside_final : JumpsInside (seccompProgram table .final) := by
  have htail : JumpsInside (cloneCheck table ++ [⟨BPF_RET_K, 0, 0, SECCOMP_RET_ALLOW⟩]) := by
    simp [cloneCheck, jumpsInside_cons, jumpsInside_nil, Instruction.Jumps, BPF_LD_W_ABS,
      BPF_ALU_AND_K, BPF_RET_K]
  have hpairs := @jumpsInside_denyPairs _ table.finalDenied (by simp) htail
  have hlong : 2 ≤ (denyPairs table.finalDenied ++
      (cloneCheck table ++
        ([⟨BPF_RET_K, 0, 0, SECCOMP_RET_ALLOW⟩] : List Instruction))).length := by
    simp only [cloneCheck, length_append, length_cons]
    omega
  rw [seccompProgram, append_assoc, append_assoc]
  generalize denyPairs table.finalDenied ++ _ = rest at hpairs hlong
  simp [finalPrefix, jumpsInside_cons, Instruction.Jumps, hpairs, BPF_LD_W_ABS, BPF_ALU_AND_K]
  omega

theorem jumpsInside_preInjection : JumpsInside (seccompProgram table .preInjection) := by
  have htail : JumpsInside [⟨BPF_RET_K, 0, 0, SECCOMP_RET_ALLOW⟩] := by
    simp [jumpsInside_cons, jumpsInside_nil, Instruction.Jumps, BPF_RET_K]
  have hpairs := @jumpsInside_denyPairs _ table.earlyDenied (by simp) htail
  rw [seccompProgram, append_assoc]
  generalize denyPairs table.earlyDenied ++ _ = rest at hpairs
  unfold preInjectionPrefix abiBit
  split
  · simp [argumentCheck, jumpsInside_cons, Instruction.Jumps, hpairs, BPF_LD_W_ABS, BPF_RET_K]
  · simp [argumentCheck, jumpsInside_cons, Instruction.Jumps, hpairs, BPF_LD_W_ABS, BPF_RET_K]

end program

/-- On both supported architectures the file of either stage is a program whose branches stay
inside it, and on every record the kernel's run of it returns the verdict of the policy. -/
theorem compileSeccomp_verdict (ARCH : String) (stage : SeccompStage)
    (table : NativeSyscallTable) (htable : nativeNetSyscalls ARCH = some table) :
    ∃ file program, compileSeccomp ARCH stage = .ok file ∧
      file = program.flatMap Instruction.bytes ∧ decode file = some program ∧
      JumpsInside program ∧
      ∀ data, run program data = some (seccompVerdict table data stage) := by
  have hsound := nativeNetSyscalls_sound htable
  refine ⟨_, seccompProgram table stage, by rw [compileSeccomp, htable], rfl,
    decode_bytes _, ?_, fun data => ?_⟩
  · cases stage with
    | preInjection => exact jumpsInside_preInjection
    | final => exact jumpsInside_final
  · rw [run_eq_follow]
    cases stage with
    | preInjection => exact follow_preInjection hsound
    | final => exact follow_final hsound

theorem compileSeccomp_verdict_x86_64 :
    ∃ table file program, nativeNetSyscalls "x86_64" = some table ∧
      compileSeccomp "x86_64" .preInjection = .ok file ∧ decode file = some program ∧
      ∀ data, run program data = some (preInjectionVerdict table data) := by
  obtain ⟨file, program, hfile, -, hdecode, -, hrun⟩ :=
    compileSeccomp_verdict "x86_64" .preInjection _ rfl
  exact ⟨_, file, program, rfl, hfile, hdecode, hrun⟩

end Rivect.Sandbox
