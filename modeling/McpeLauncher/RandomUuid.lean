import Mathlib

/-! # Random UUIDs

`UUID::randomUUID` sets the version and the variant in 16 random bytes. The byte with the variant is
made from byte 6 instead of byte 8, which is not used. -/
namespace McpeLauncherClient

abbrev RawBytes := Fin 16 → BitVec 8

def hexDigit (n : BitVec 4) : Char :=
  ['0', '1', '2', '3', '4', '5', '6', '7', '8', '9', 'a', 'b', 'c', 'd', 'e', 'f'].getD n.toNat '0'

def hexPair (b : BitVec 8) : List Char :=
  [hexDigit (b.extractLsb' 4 4), hexDigit (b.extractLsb' 0 4)]

/-- The format: the numbers of the bytes, and the dashes. -/
def uuidFormat : List (Option (Fin 16)) :=
  [some 0, some 1, some 2, some 3, none, some 4, some 5, none, some 6, some 7, none, some 8,
    some 9, none, some 10, some 11, some 12, some 13, some 14, some 15]

def writePart (bytes : RawBytes) : Option (Fin 16) → List Char
  | some i => hexPair (bytes i)
  | none => ['-']

def writeUuid (bytes : RawBytes) : List Char := uuidFormat.flatMap (writePart bytes)

def stamp (rawBytes : RawBytes) : RawBytes :=
  let rawBytes := Function.update rawBytes 6 ((rawBytes 6 &&& 0x0F#8) ||| 0x40#8)
  Function.update rawBytes 8 ((rawBytes 6 &&& 0x3F#8) ||| 0x80#8)

/-- `UUID::randomUUID`, for the bytes that are drawn. -/
def randomUuid (rawBytes : RawBytes) : List Char := writeUuid (stamp rawBytes)

/-- The bits of a byte that are neither of the version nor of the variant. -/
def freeBits (i : Fin 16) : BitVec 8 := if i = 6 then 0x0F#8 else if i = 8 then 0x3F#8 else 0xFF#8

example : ((List.finRange 16).flatMap fun i =>
    (List.range 8).filter (freeBits i).getLsbD).length = 122 := by decide +kernel

/-- The version 4, and the variant that has the bits 10. -/
def fixedBits (i : Fin 16) : BitVec 8 := if i = 6 then 0x40#8 else if i = 8 then 0x80#8 else 0x00#8

def isHex (c : Char) : Prop := c ∈ "0123456789abcdef".toList

/-- The characters that a UUID of version 4 has, place by place. -/
def versionFour : List (Char → Prop) :=
  List.replicate 8 isHex ++ [(· = '-')] ++ List.replicate 4 isHex ++ [(· = '-'), (· = '4')] ++
    List.replicate 3 isHex ++ [(· = '-'), (· ∈ ['8', '9', 'a', 'b'])] ++ List.replicate 3 isHex ++
    [(· = '-')] ++ List.replicate 12 isHex

def IsVersionFour (text : List Char) : Prop := List.Forall₂ (fun P c => P c) versionFour text

/-- What the map from the bytes to the texts should do, on these draws. -/
structure KeepsEntropy (draws : Set RawBytes) : Prop where
  wellFormed : ∀ raw ∈ draws, IsVersionFour (randomUuid raw)
  fixes : ∀ raw ∈ draws, ∃ bytes, randomUuid raw = writeUuid bytes ∧
    ∀ i, bytes i &&& ~~~freeBits i = fixedBits i ∧ bytes i &&& freeBits i = raw i &&& freeBits i
  injective : ∀ raw ∈ draws, ∀ raw' ∈ draws, randomUuid raw = randomUuid raw' →
    ∀ i, raw i &&& freeBits i = raw' i &&& freeBits i

theorem hexDigit_injective : Function.Injective hexDigit := by
  have h : ∀ m n : BitVec 4, hexDigit m = hexDigit n → m = n := by decide +kernel
  exact fun m n => h m n

theorem isHex_hexDigit : ∀ n : BitVec 4, isHex (hexDigit n) := by
  unfold isHex
  decide +kernel

theorem append_halves : ∀ b : BitVec 8, b.extractLsb' 4 4 ++ b.extractLsb' 0 4 = b := by
  decide +kernel

theorem hexPair_injective : Function.Injective hexPair := by
  intro b c h
  obtain ⟨hhigh, hrest⟩ := List.cons_eq_cons.mp h
  obtain ⟨hlow, -⟩ := List.cons_eq_cons.mp hrest
  rw [← append_halves b, ← append_halves c, hexDigit_injective hhigh, hexDigit_injective hlow]

theorem length_writePart (bytes bytes' : RawBytes) (part : Option (Fin 16)) :
    (writePart bytes part).length = (writePart bytes' part).length := by
  cases part <;> rfl

theorem flatMap_writePart_inj {bytes bytes' : RawBytes} {format : List (Option (Fin 16))}
    (h : format.flatMap (writePart bytes) = format.flatMap (writePart bytes')) :
    ∀ part ∈ format, writePart bytes part = writePart bytes' part := by
  induction format with
  | nil => exact fun part hpart => absurd hpart List.not_mem_nil
  | cons first format ih =>
    obtain ⟨hfirst, hrest⟩ := List.append_inj h (length_writePart bytes bytes' first)
    intro part hpart
    rcases List.mem_cons.mp hpart with rfl | hpart
    · exact hfirst
    · exact ih hrest part hpart

theorem writeUuid_injective : Function.Injective writeUuid := by
  intro bytes bytes' h
  have hformat : ∀ i : Fin 16, some i ∈ uuidFormat := by decide
  funext i
  exact hexPair_injective (flatMap_writePart_inj h (some i) (hformat i))

variable (raw : RawBytes)

theorem stamp_six : stamp raw 6 = (raw 6 &&& 0x0F#8) ||| 0x40#8 := by simp [stamp]

theorem stamp_eight :
    stamp raw 8 = (((raw 6 &&& 0x0F#8) ||| 0x40#8) &&& 0x3F#8) ||| 0x80#8 := by
  simp [stamp]

theorem stamp_other {i : Fin 16} (h6 : i ≠ 6) (h8 : i ≠ 8) :
    stamp raw i = raw i := by
  simp [stamp, h6, h8]

theorem stamp_fixed (i : Fin 16) :
    stamp raw i &&& ~~~freeBits i = fixedBits i := by
  by_cases h6 : i = 6
  · have h : ∀ x : BitVec 8, ((x &&& 0x0F#8) ||| 0x40#8) &&& ~~~0x0F#8 = 0x40#8 := by decide +kernel
    rw [h6, stamp_six]
    exact h (raw 6)
  by_cases h8 : i = 8
  · have h : ∀ x : BitVec 8, (x &&& 0x3F#8 ||| 0x80#8) &&& ~~~0x3F#8 = 0x80#8 := by decide +kernel
    rw [h8, stamp_eight]
    exact h _
  · simp [freeBits, fixedBits, h6, h8]

/-- The only byte that is not kept is byte 8, which byte 6 is written over. -/
theorem stamp_free_iff :
    (∀ i, stamp raw i &&& freeBits i = raw i &&& freeBits i) ↔
      raw 8 &&& 0x3F#8 = raw 6 &&& 0x0F#8 := by
  have hsix : ∀ x : BitVec 8, ((x &&& 0x0F#8) ||| 0x40#8) &&& 0x0F#8 = x &&& 0x0F#8 := by
    decide +kernel
  have height : ∀ x : BitVec 8,
      ((((x &&& 0x0F#8) ||| 0x40#8) &&& 0x3F#8) ||| 0x80#8) &&& 0x3F#8 = x &&& 0x0F#8 := by
    decide +kernel
  constructor
  · intro h
    have h8 : stamp raw 8 &&& 0x3F#8 = raw 8 &&& 0x3F#8 := h 8
    rw [← h8, stamp_eight]
    exact height (raw 6)
  · intro h i
    by_cases h6 : i = 6
    · rw [h6, stamp_six]
      exact hsix (raw 6)
    by_cases h8 : i = 8
    · rw [h8, stamp_eight]
      exact (height (raw 6)).trans h.symm
    · rw [stamp_other raw h6 h8]

theorem isVersionFour_randomUuid : IsVersionFour (randomUuid raw) := by
  have hversion : hexDigit ((stamp raw 6).extractLsb' 4 4) = '4' := by
    have h : ∀ x : BitVec 8,
        hexDigit (((x &&& 0x0F#8) ||| 0x40#8).extractLsb' 4 4) = '4' := by decide +kernel
    exact h (raw 6)
  have hvariant : hexDigit ((stamp raw 8).extractLsb' 4 4) ∈ ['8', '9', 'a', 'b'] := by
    have h : ∀ x : BitVec 8,
        hexDigit (((x &&& 0x3F#8) ||| 0x80#8).extractLsb' 4 4) ∈ ['8', '9', 'a', 'b'] := by
      decide +kernel
    exact h _
  simpa [IsVersionFour, versionFour, List.replicate, randomUuid, writeUuid, uuidFormat,
    writePart, hexPair, isHex_hexDigit, hversion] using hvariant

/-- **The UUIDs keep all that was drawn but version and variant exactly if in every draw the last
six bits of byte 8 are the last four of byte 6.** -/
theorem random_uuid_iff (draws : Set RawBytes) :
    KeepsEntropy draws ↔ ∀ raw ∈ draws, raw 8 &&& 0x3F#8 = raw 6 &&& 0x0F#8 := by
  constructor
  · intro hkeeps raw hraw
    obtain ⟨bytes, htext, hbits⟩ := hkeeps.fixes raw hraw
    have hbytes : stamp raw = bytes := writeUuid_injective htext
    rw [← stamp_free_iff, hbytes]
    exact fun i => (hbits i).2
  · intro hdraws
    have hfree := fun raw hraw => (stamp_free_iff raw).mpr (hdraws raw hraw)
    refine ⟨fun raw _ => isVersionFour_randomUuid raw,
      fun raw hraw => ⟨stamp raw, rfl, fun i => ⟨stamp_fixed raw i, hfree raw hraw i⟩⟩, ?_⟩
    intro raw hraw raw' hraw' htexts i
    rw [← hfree raw hraw i, ← hfree raw' hraw' i, writeUuid_injective htexts]

/-- Two draws that differ in byte 8 give one UUID. -/
theorem random_uuid_collision :
    randomUuid (fun _ => 0#8) = randomUuid (Function.update (fun _ => 0#8) 8 1#8) ∧
      randomUuid (fun _ => 0#8) = "00000000-0000-4000-8000-000000000000".toList ∧
      ¬ KeepsEntropy Set.univ := by
  have hsame : randomUuid (fun _ => 0#8) =
      randomUuid (Function.update (fun _ => 0#8) 8 1#8) := by
    decide +kernel
  refine ⟨hsame, by decide +kernel, fun hkeeps => ?_⟩
  have hfree := hkeeps.injective _ trivial _ trivial hsame 8
  revert hfree
  decide +kernel

end McpeLauncherClient
