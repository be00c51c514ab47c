import McpeLauncher.ByteMemory

/-! # Patching calls

`PatchUtils::patchCallInstruction` overwrites code with a jump or a call, which is decoded here as
the processor does it. On 64-bit x86 the opcode is written before the reach is tested, and on ARM
the address is read where the code is aligned (`patchCallInstruction_iff`). -/
namespace PatchUtils
open ByteMemory

/-- What a call leaves behind: the memory, and the exception if it throws. -/
structure Patched (w : Nat) where
  mem : Memory w
  error : Option String

def opcode (jump : Bool) : BitVec 8 := if jump then 0xe9 else 0xe8

/-- `ptr` is an `int`. -/
def InReach {w : Nat} (ptr : BitVec w) : Prop := ¬ (ptr.toInt > 2 ^ 31 - 1 ∨ ptr.toInt < -2 ^ 31)

instance {w : Nat} (ptr : BitVec w) : Decidable (InReach ptr) := inferInstanceAs (Decidable (¬ _))

def patchX86 {w : Nat} (mem : Memory w) (patchOff func : BitVec w) (jump : Bool) : Patched w :=
  let mem := store mem patchOff [opcode jump]
  let ptr := func - patchOff - 5
  if InReach ptr then ⟨store mem (patchOff + 1) (wordBytes (ptr.setWidth 32)), none⟩
  else ⟨mem, some "patchCallInstruction: out of range"⟩

def thumb (patchOff : BitVec 32) : Bool := patchOff.toNat % 2 = 1

def dataArm (patchOff : BitVec 32) : BitVec 32 := if thumb patchOff then patchOff - 1 else patchOff

def patchArm (mem : Memory 32) (patchOff func : BitVec 32) (jump : Bool) : Patched 32 :=
  if !jump then ⟨mem, some "Non-jump patches not supported in ARM mode"⟩
  else
    let data := dataArm patchOff
    let mem := store mem data
      (if thumb patchOff then [0xdf, 0xf8, 0x00, 0xf0] else [0x04, 0xf0, 0x1f, 0xe5])
    ⟨store mem (data + 4) (wordBytes func), none⟩

inductive Architecture where
  | x86
  | x86_64
  | arm
  deriving DecidableEq

def Architecture.bits : Architecture → Nat
  | .x86 => 32
  | .x86_64 => 64
  | .arm => 32

def patchCallInstruction : (arch : Architecture) → Memory arch.bits → BitVec arch.bits →
    BitVec arch.bits → Bool → Patched arch.bits
  | .x86 => patchX86
  | .x86_64 => patchX86
  | .arm => patchArm

/-- An instruction that goes elsewhere. -/
inductive Branch (w : Nat) where
  | call (target : BitVec w)
  | jump (target : BitVec w)
  deriving DecidableEq

def decodeX86 {w : Nat} (mem : Memory w) (a : BitVec w) : Option (Branch w) :=
  let target := a + 5 + (word mem (a + 1)).signExtend w
  if mem a = 0xe8 then some (.call target)
  else if mem a = 0xe9 then some (.jump target)
  else none

/-- The offset of `ldr pc, [pc, #offset]` in ARM code. -/
def ldrPcArm (instruction : BitVec 32) : Option (BitVec 32) :=
  let offset := instruction &&& 0xfff
  if instruction &&& 0xff7ff000 = 0xe51ff000 then
    some (if instruction.getLsbD 23 then offset else -offset)
  else none

/-- The offset of `ldr.w pc, [pc, #offset]` in Thumb code. -/
def ldrPcThumb (instruction : BitVec 32) : Option (BitVec 32) :=
  let offset := (instruction >>> 16) &&& 0xfff
  if instruction &&& 0xf000ff7f = 0xf000f85f then
    some (if instruction.getLsbD 7 then offset else -offset)
  else none

/-- A load of the program counter goes to Thumb code at an odd address, to ARM code at a multiple of
four. -/
def interworking (target : BitVec 32) : Option (Branch 32) :=
  if target.toNat % 4 = 2 then none else some (.jump target)

def align (a : BitVec 32) : BitVec 32 := BitVec.ofNat 32 (a.toNat / 4 * 4)

/-- The load of the program counter at an address, in the state that the address says. -/
def decodeArm (mem : Memory 32) (patchOff : BitVec 32) : Option (Branch 32) :=
  let a := dataArm patchOff
  if thumb patchOff then
    (ldrPcThumb (word mem a)).bind fun offset => interworking (word mem (align (a + 4) + offset))
  else if a.toNat % 4 = 0 then
    (ldrPcArm (word mem a)).bind fun offset => interworking (word mem (a + 8 + offset))
  else none

def decode : (arch : Architecture) → Memory arch.bits → BitVec arch.bits →
    Option (Branch arch.bits)
  | .x86 => decodeX86
  | .x86_64 => decodeX86
  | .arm => decodeArm

/-- The first byte of the instruction, and the number of its bytes. -/
def extent : (arch : Architecture) → BitVec arch.bits → BitVec arch.bits × Nat
  | .x86, patchOff => (patchOff, 5)
  | .x86_64, patchOff => (patchOff, 5)
  | .arm, patchOff => (dataArm patchOff, 8)

section Properties
variable (arch : Architecture) (mem : Memory arch.bits) (patchOff func : BitVec arch.bits)
  (jump : Bool)

/-- Bytes elsewhere stay, and the call writes an instruction that goes to the function or throws and
leaves the code. -/
def AllOrNothing : Prop :=
  let after := patchCallInstruction arch mem patchOff func jump
  (∀ x, (extent arch patchOff).2 ≤ (x - (extent arch patchOff).1).toNat → after.mem x = mem x) ∧
    match after.error with
    | none => decode arch after.mem patchOff =
        some (if jump then .jump func else .call func)
    | some _ => after.mem = mem

end Properties

def Patchable : (arch : Architecture) → Memory arch.bits → BitVec arch.bits →
    BitVec arch.bits → Bool → Prop
  | .x86, _, _, _, _ => True
  | .x86_64, mem, patchOff, func, jump => InReach (func - patchOff - 5) ∨ mem patchOff = opcode jump
  | .arm, _, patchOff, func, jump =>
    jump = false ∨ (func.toNat % 4 ≠ 2 ∧
      (patchOff.toNat % 4 < 2 ∨ patchOff.toNat % 4 = 3 ∧ func = 0xf000f000#32))

/-! ## x86 -/

section X86
variable {w : Nat}

theorem signExtend_setWidth (hw : 32 ≤ w) {ptr : BitVec w} (h : InReach ptr) :
    (ptr.setWidth 32).signExtend w = ptr := by
  rw [InReach, not_or] at h
  apply BitVec.eq_of_toInt_eq
  rw [BitVec.toInt_signExtend_of_le hw, BitVec.toInt_setWidth,
    ← Int.bmod_bmod_of_dvd (Nat.pow_dvd_pow 2 hw), ← BitVec.toInt_eq_toNat_bmod]
  exact Int.bmod_eq_of_le (by omega) (by omega)

variable (mem : Memory w) (patchOff func : BitVec w) (jump : Bool)

theorem patchX86_of_inReach (hw : 32 ≤ w) (h : InReach (func - patchOff - 5)) :
    patchX86 mem patchOff func jump =
      ⟨store mem patchOff (opcode jump :: wordBytes ((func - patchOff - 5).setWidth 32)),
        none⟩ := by
  have hfit : 1 + 4 < 2 ^ w := lt_of_lt_of_le (by decide) (Nat.pow_le_pow_right (by decide) hw)
  rw [patchX86]
  rw [if_pos h]
  exact congrArg (Patched.mk · none) (store_append mem patchOff [opcode jump] _ hfit)

theorem decodeX86_patched (hw : 32 ≤ w) (h : InReach (func - patchOff - 5)) :
    decodeX86 (store mem patchOff
      (opcode jump :: wordBytes ((func - patchOff - 5).setWidth 32))) patchOff =
      some (if jump then .jump func else .call func) := by
  have hfit : 5 ≤ 2 ^ w := le_trans (by decide) (Nat.pow_le_pow_right (by decide) hw)
  have hword : word (store mem patchOff
      (opcode jump :: wordBytes ((func - patchOff - 5).setWidth 32))) (patchOff + 1) =
      (func - patchOff - 5).setWidth 32 := by
    have := word_store mem patchOff [opcode jump] [] ((func - patchOff - 5).setWidth 32) hfit
    rwa [List.append_nil] at this
  have htarget : patchOff + 5 + (func - patchOff - 5) = func := by grind
  simp only [decodeX86, store_cons_self, hword, signExtend_setWidth hw h, htarget]
  cases jump with
  | false => rfl
  | true => rfl

theorem patchX86_of_not_inReach (h : ¬ InReach (func - patchOff - 5)) :
    patchX86 mem patchOff func jump =
      ⟨store mem patchOff [opcode jump], some "patchCallInstruction: out of range"⟩ := by
  exact if_neg h

/-- Out of reach the opcode has been written all the same. -/
theorem patchX86_iff (hw : 32 ≤ w) :
    ((∀ x, 5 ≤ (x - patchOff).toNat → (patchX86 mem patchOff func jump).mem x = mem x) ∧
      match (patchX86 mem patchOff func jump).error with
      | none => decodeX86 (patchX86 mem patchOff func jump).mem patchOff =
          some (if jump then .jump func else .call func)
      | some _ => (patchX86 mem patchOff func jump).mem = mem) ↔
      InReach (func - patchOff - 5) ∨ mem patchOff = opcode jump := by
  by_cases h : InReach (func - patchOff - 5)
  · rw [patchX86_of_inReach mem patchOff func jump hw h]
    refine iff_of_true ⟨fun x hx => ?_, decodeX86_patched mem patchOff func jump hw h⟩ (.inl h)
    exact store_of_le mem patchOff hx
  · rw [patchX86_of_not_inReach mem patchOff func jump h, or_iff_right h]
    refine (and_iff_right fun x hx => ?_).trans (store_singleton_eq_iff mem patchOff)
    exact store_of_le mem patchOff (le_trans (by simp) hx)

end X86

theorem inReach_of_32 (ptr : BitVec 32) : InReach ptr := by
  have hlt : ptr.toInt < 2 ^ 31 := BitVec.toInt_lt
  have hle : -2 ^ 31 ≤ ptr.toInt := BitVec.le_toInt ptr
  rw [InReach]
  omega

/-! ## ARM -/

section Arm
variable (mem : Memory 32) (patchOff func : BitVec 32)

def ldrPc (patchOff : BitVec 32) : BitVec 32 := if thumb patchOff then 0xf000f8df else 0xe51ff004

theorem patchArm_jump :
    patchArm mem patchOff func true =
      ⟨store mem (dataArm patchOff) (wordBytes (ldrPc patchOff) ++ wordBytes func), none⟩ := by
  have hbytes : (if thumb patchOff then [0xdf, 0xf8, 0x00, 0xf0] else [0x04, 0xf0, 0x1f, 0xe5]) =
      wordBytes (ldrPc patchOff) := by
    rw [ldrPc]
    split
    · decide
    · decide
  rw [patchArm]
  simp only [Bool.not_true, Bool.false_eq_true, if_false, hbytes]
  exact congrArg (Patched.mk · none)
    (store_append mem (dataArm patchOff) (wordBytes (ldrPc patchOff)) (wordBytes func) (by simp))

theorem word_patched_func :
    word (store mem (dataArm patchOff) (wordBytes (ldrPc patchOff) ++ wordBytes func))
      (dataArm patchOff + 4) = func := by
  have := word_store mem (dataArm patchOff) (wordBytes (ldrPc patchOff)) [] func (by simp)
  rwa [List.append_nil] at this

theorem word_patched_ldrPc :
    word (store mem (dataArm patchOff) (wordBytes (ldrPc patchOff) ++ wordBytes func))
      (dataArm patchOff) = ldrPc patchOff := by
  have := word_store mem (dataArm patchOff) [] (wordBytes func) (ldrPc patchOff) (by simp)
  rwa [show dataArm patchOff + BitVec.ofNat 32 ([] : List (BitVec 8)).length = dataArm patchOff
    from add_zero _] at this

theorem word_patched_middle (h : thumb patchOff = true) :
    word (store mem (dataArm patchOff) (wordBytes (ldrPc patchOff) ++ wordBytes func))
      (dataArm patchOff + 2) =
      func.extractLsb' 8 8 ++ func.extractLsb' 0 8 ++ 0xf0#8 ++ 0x00#8 := by
  have hbytes : wordBytes (ldrPc patchOff) ++ wordBytes func =
      [0xdf, 0xf8] ++
        wordBytes (func.extractLsb' 8 8 ++ func.extractLsb' 0 8 ++ 0xf0#8 ++ 0x00#8) ++
        [func.extractLsb' 16 8, func.extractLsb' 24 8] := by
    rw [wordBytes_append, ldrPc, if_pos h]
    rfl
  rw [hbytes]
  exact word_store mem (dataArm patchOff) [0xdf, 0xf8] _ _ (by simp)

theorem middle_eq_iff :
    func.extractLsb' 8 8 ++ func.extractLsb' 0 8 ++ 0xf0#8 ++ 0x00#8 = func ↔
      func = 0xf000f000#32 := by
  constructor
  · intro h
    have hbytes := congrArg wordBytes h
    rw [wordBytes_append, wordBytes, List.cons.injEq, List.cons.injEq, List.cons.injEq,
      List.cons.injEq] at hbytes
    obtain ⟨h0, h8, h16, h24, -⟩ := hbytes
    have hall := append_bytes func
    rw [← h24, ← h16, ← h8, ← h0] at hall
    rw [← hall]
    decide
  · rintro rfl
    decide

theorem thumb_iff : thumb patchOff = true ↔ patchOff.toNat % 2 = 1 := decide_eq_true_iff

theorem dataArm_toNat (h : patchOff.toNat % 2 = 1) :
    (dataArm patchOff).toNat = patchOff.toNat - 1 := by
  have hone : (1 : BitVec 32).toNat = 1 := rfl
  rw [dataArm, if_pos ((thumb_iff patchOff).mpr h), BitVec.toNat_sub, hone]
  omega

/-- Thumb code at a multiple of four has the address right behind the instruction. -/
theorem align_dataArm (h : patchOff.toNat % 4 = 1) :
    align (dataArm patchOff + 4) = dataArm patchOff + 4 := by
  have hdata := dataArm_toNat patchOff (by omega)
  have hfour : (4 : BitVec 32).toNat = 4 := rfl
  apply BitVec.eq_of_toNat_eq
  rw [align, BitVec.toNat_ofNat, BitVec.toNat_add, hfour]
  omega

theorem align_dataArm_middle (h : patchOff.toNat % 4 = 3) :
    align (dataArm patchOff + 4) = dataArm patchOff + 2 := by
  have hdata := dataArm_toNat patchOff (by omega)
  have hfour : (4 : BitVec 32).toNat = 4 := rfl
  have htwo : (2 : BitVec 32).toNat = 2 := rfl
  apply BitVec.eq_of_toNat_eq
  rw [align, BitVec.toNat_ofNat, BitVec.toNat_add, BitVec.toNat_add, hfour, htwo]
  omega

theorem interworking_eq_iff (target func : BitVec 32) :
    interworking target = some (.jump func) ↔ target = func ∧ func.toNat % 4 ≠ 2 := by
  rw [interworking]
  split
  · next h =>
    refine iff_of_false (by simp) ?_
    rintro ⟨rfl, hne⟩
    exact hne h
  · next h =>
    rw [Option.some.injEq, Branch.jump.injEq]
    exact ⟨fun heq => ⟨heq, heq ▸ h⟩, And.left⟩

/-- What the patched code loads: the function where the code is aligned, and else a half of the
instruction with a half of the function. -/
theorem decodeArm_thumb (h : patchOff.toNat % 2 = 1) :
    decodeArm (store mem (dataArm patchOff) (wordBytes (ldrPc patchOff) ++ wordBytes func))
      patchOff = some (.jump func) ↔
      func.toNat % 4 ≠ 2 ∧ (patchOff.toNat % 4 = 1 ∨ func = 0xf000f000#32) := by
  have hthumb := (thumb_iff patchOff).mpr h
  have hload : ldrPcThumb (ldrPc patchOff) = some 0 := by
    rw [ldrPc, if_pos hthumb]
    decide
  simp only [decodeArm, word_patched_ldrPc, hthumb, if_true, hload, Option.bind_some, add_zero]
  rw [interworking_eq_iff, and_comm]
  refine and_congr_right fun _ => ?_
  by_cases haligned : patchOff.toNat % 4 = 1
  · rw [align_dataArm patchOff haligned]
    exact iff_of_true (word_patched_func mem patchOff func) (.inl haligned)
  · rw [align_dataArm_middle patchOff (by omega), word_patched_middle mem patchOff func hthumb,
      middle_eq_iff]
    exact (or_iff_right haligned).symm

theorem decodeArm_arm (h : patchOff.toNat % 2 ≠ 1) :
    decodeArm (store mem (dataArm patchOff) (wordBytes (ldrPc patchOff) ++ wordBytes func))
      patchOff = some (.jump func) ↔
      func.toNat % 4 ≠ 2 ∧ patchOff.toNat % 4 = 0 := by
  have hthumb : thumb patchOff = false := by
    rw [Bool.eq_false_iff]
    exact fun h' => h ((thumb_iff patchOff).mp h')
  have hdata : (dataArm patchOff).toNat = patchOff.toNat := by
    rw [dataArm, hthumb]
    rfl
  have hload : ldrPcArm (ldrPc patchOff) = some (-4) := by
    rw [ldrPc, hthumb]
    decide
  have hnext : dataArm patchOff + 8 + -4 = dataArm patchOff + 4 := by grind
  simp only [decodeArm, word_patched_ldrPc, hthumb, Bool.false_eq_true, if_false, hdata]
  by_cases haligned : patchOff.toNat % 4 = 0
  · rw [if_pos haligned, hload, Option.bind_some, hnext, word_patched_func, interworking_eq_iff,
      and_iff_right rfl, and_iff_left haligned]
  · rw [if_neg haligned]
    exact iff_of_false (by simp) fun hand => haligned hand.2

theorem patchArm_iff (jump : Bool) :
    ((∀ x, 8 ≤ (x - dataArm patchOff).toNat → (patchArm mem patchOff func jump).mem x = mem x) ∧
      match (patchArm mem patchOff func jump).error with
      | none => decodeArm (patchArm mem patchOff func jump).mem patchOff =
          some (if jump then .jump func else .call func)
      | some _ => (patchArm mem patchOff func jump).mem = mem) ↔
      jump = false ∨ (func.toNat % 4 ≠ 2 ∧
        (patchOff.toNat % 4 < 2 ∨ patchOff.toNat % 4 = 3 ∧ func = 0xf000f000#32)) := by
  cases jump with
  | false => exact iff_of_true ⟨fun _ _ => rfl, rfl⟩ (.inl rfl)
  | true =>
    have hframe : ∀ x, 8 ≤ (x - dataArm patchOff).toNat → store mem (dataArm patchOff)
        (wordBytes (ldrPc patchOff) ++ wordBytes func) x = mem x :=
      fun x hx => store_of_le mem (dataArm patchOff) hx
    rw [patchArm_jump, or_iff_right Bool.true_eq_false.mp]
    refine (and_iff_right hframe).trans ?_
    by_cases hthumb : patchOff.toNat % 2 = 1
    · refine (decodeArm_thumb mem patchOff func hthumb).trans (and_congr_right fun _ => ?_)
      have hlow : patchOff.toNat % 4 < 2 ↔ patchOff.toNat % 4 = 1 := by omega
      have hhigh : patchOff.toNat % 4 = 3 ↔ ¬ patchOff.toNat % 4 = 1 := by omega
      rw [hlow, hhigh, or_and_left, and_iff_right (Classical.em _)]
    · refine (decodeArm_arm mem patchOff func hthumb).trans (and_congr_right fun _ => ?_)
      have hlow : patchOff.toNat % 4 < 2 ↔ patchOff.toNat % 4 = 0 := by omega
      have hhigh : ¬ patchOff.toNat % 4 = 3 := by omega
      rw [hlow, or_iff_left fun h => hhigh h.1]

end Arm

/-- **All or nothing**, for each processor. -/
theorem patchCallInstruction_iff (arch : Architecture) (mem : Memory arch.bits)
    (patchOff func : BitVec arch.bits) (jump : Bool) :
    AllOrNothing arch mem patchOff func jump ↔ Patchable arch mem patchOff func jump := by
  cases arch with
  | x86 =>
    refine (patchX86_iff mem patchOff func jump (le_refl 32)).trans ?_
    exact iff_of_true (.inl (inReach_of_32 _)) trivial
  | x86_64 => exact patchX86_iff mem patchOff func jump (by decide)
  | arm => exact patchArm_iff mem patchOff func jump

/-- On 64-bit x86 a function four gigabytes away; and Thumb code at address 2, which loads its own
second half as the address. -/
theorem patchCallInstruction_partial :
    (patchCallInstruction .x86_64 (fun _ => 0x90) 0 0x100000000 true).error =
        some "patchCallInstruction: out of range" ∧
      (patchCallInstruction .x86_64 (fun _ => 0x90) 0 0x100000000 true).mem 0 = 0xe9 ∧
      ¬ AllOrNothing .x86_64 (fun _ => 0x90) 0 0x100000000 true ∧
      decode .arm (patchCallInstruction .arm (fun _ => 0) 3 0x1001 true).mem 3 =
        some (.jump 0x1001f000) ∧
      ¬ AllOrNothing .arm (fun _ => 0) 3 0x1001 true := by
  refine ⟨by decide, by decide, fun h => ?_, by decide, fun h => ?_⟩
  · have hiff := patchX86_iff (w := 64) (fun _ => 0x90) 0 0x100000000 true (by decide)
    exact absurd (hiff.mp h) (by decide)
  · have hiff := patchArm_iff (fun _ => 0) 3 0x1001 true
    exact absurd (hiff.mp h) (by decide)

end PatchUtils
