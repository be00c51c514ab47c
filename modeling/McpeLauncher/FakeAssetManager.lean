import Mathlib.Algebra.Ring.Int.Defs
import McpeLauncher.Runs
import McpeLauncher.WordSize

/-! # Assets

The functions of `fake_assetmanager`, and the file they should be, `AssetFile`. `AAsset_seek64` does
not store the offset, counts backwards from the end, and refuses only what is negative as a
`ssize_t` (`assets_iff`). -/
namespace FakeAssetManager
open Runs

/-- A call for an open asset; `offset` is an `off64_t` and `whence` any `int`. -/
inductive AssetCall where
  | read (count : Nat)
  | seek (offset : Int64) (whence : Int32)
  | getRemainingLength
  deriving DecidableEq

/-- The answer to a call: the bytes with their number, the offset or none, the length. -/
inductive AssetAnswer where
  | bytes (buf : List UInt8) (count : Int)
  | offset (offset : Option Int)
  | length (length : Int)
  deriving DecidableEq

variable {word : WordSize}

structure AAsset where
  buffer : List UInt8
  offset : Nat

/-- `AAsset_read`: what is written to `buf`, and what is returned. -/
def aassetRead (asset : AAsset) (count : Nat) : (List UInt8 × Int32) × AAsset :=
  if asset.offset > asset.buffer.length then (([], 0), asset)
  else
    let count := min count (asset.buffer.length - asset.offset)
    (((asset.buffer.drop asset.offset).take count, Int32.ofNat count),
      { asset with offset := asset.offset + count })

/-- The number whose value as a `size_t` is `newOffset`. -/
def newOffset (asset : AAsset) (offset : Int64) (whence : Int32) : Int :=
  if whence = 0 then offset.toInt
  else if whence = 1 then asset.offset + offset.toInt
  else if whence = 2 then asset.buffer.length - offset.toInt
  else 0

/-- `(ssize_t) newOffset < 0`. -/
def NegativeAs (word : WordSize) (n : Int) : Prop := 2 ^ (word.bits - 1) ≤ n % 2 ^ word.bits

instance (n : Int) : Decidable (NegativeAs word n) :=
  inferInstanceAs (Decidable (2 ^ (word.bits - 1) ≤ n % 2 ^ word.bits))

/-- `AAsset_seek64`; `-EINVAL` is -22. -/
def aassetSeek64 (word : WordSize) (asset : AAsset) (offset : Int64) (whence : Int32) : Int :=
  let n := newOffset asset offset whence
  if NegativeAs word n then -22 else n % 2 ^ word.bits

def aassetGetRemainingLength64 (word : WordSize) (asset : AAsset) : Int :=
  ((asset.buffer.length : Int) - asset.offset) % 2 ^ word.bits

def orError (n : Int) : Option Int := if n < 0 then none else some n

def aassetCall (word : WordSize) (asset : AAsset) : AssetCall → AssetAnswer × AAsset
  | .read count =>
    let ((buf, n), asset) := aassetRead asset count
    (.bytes buf n.toInt, asset)
  | .seek offset whence => (.offset (orError (aassetSeek64 word asset offset whence)), asset)
  | .getRemainingLength => (.length (aassetGetRemainingLength64 word asset), asset)

/-- A seekable file: its content and an offset in it. -/
structure AssetFile where
  content : List UInt8
  offset : Nat
  inside : offset ≤ content.length

namespace AssetFile

def target (f : AssetFile) (offset : Int) (whence : Int32) : Option Int :=
  if whence = 0 then some offset
  else if whence = 1 then some (f.offset + offset)
  else if whence = 2 then some (f.content.length + offset)
  else none

def advance (f : AssetFile) (count : Nat) : AssetFile where
  content := f.content
  offset := f.offset + min count (f.content.length - f.offset)
  inside := by
    have := f.inside
    omega

/-- A seek inside the file moves it, one outside fails. -/
def seek (f : AssetFile) (offset : Int) (whence : Int32) : Option Int × AssetFile :=
  match f.target offset whence with
  | none => (none, f)
  | some t =>
    if h : 0 ≤ t ∧ t ≤ f.content.length then
      (some t, ⟨f.content, t.toNat, by omega⟩)
    else (none, f)

def call (f : AssetFile) : AssetCall → AssetAnswer × AssetFile
  | .read count =>
    let buf := (f.content.drop f.offset).take count
    (.bytes buf buf.length, f.advance count)
  | .seek offset whence =>
    let (result, f) := f.seek offset.toInt whence
    (.offset result, f)
  | .getRemainingLength => (.length (f.content.length - f.offset), f)

end AssetFile

/-! ## Where the asset is the file -/

/-- What a string can hold. -/
structure AssetContent (word : WordSize) where
  bytes : List UInt8
  fits : bytes.length < 2 ^ (word.bits - 1)

def openAsset (content : AssetContent word) : AAsset := ⟨content.bytes, 0⟩

def openFile (content : AssetContent word) : AssetFile := ⟨content.bytes, 0, Nat.zero_le _⟩

/-- The seek leads to where the asset stands. -/
def Stays (asset : AAsset) (offset : Int) (whence : Int32) : Prop :=
  whence = 0 ∧ offset = asset.offset ∨ whence = 1 ∧ offset = 0 ∨
    whence = 2 ∧ offset = 0 ∧ asset.offset = asset.buffer.length

/-- The asset refuses the seek, and from the end it leads outside. -/
def Refused (word : WordSize) (asset : AAsset) (offset : Int64) (whence : Int32) : Prop :=
  NegativeAs word (newOffset asset offset whence) ∧
    (whence = 2 → ¬ (-(asset.buffer.length : Int) ≤ offset.toInt ∧ offset.toInt ≤ 0))

/-- The calls that an asset answers as a file does. -/
def Alike (word : WordSize) (asset : AAsset) : AssetCall → Prop
  | .read count => min count (asset.buffer.length - asset.offset) < 2 ^ 31
  | .seek offset whence => Stays asset offset.toInt whence ∨ Refused word asset offset whence
  | .getRemainingLength => True

/-- The asset and the file have the same content and stand at the same offset. -/
structure Same (word : WordSize) (asset : AAsset) (f : AssetFile) : Prop where
  content : asset.buffer = f.content
  offset : asset.offset = f.offset
  fits : f.content.length < 2 ^ (word.bits - 1)

theorem two_pow_bits (word : WordSize) : (2 : Int) ^ word.bits = 2 * 2 ^ (word.bits - 1) := by
  exact_mod_cast word.two_pow_bits

theorem toInt_ofNat_eq_iff (n : Nat) : (Int32.ofNat n).toInt = n ↔ n < 2 ^ 31 := by
  constructor
  · have := Int32.toInt_lt (Int32.ofNat n)
    omega
  · exact Int32.toInt_ofNat_of_lt

section Calls
variable {asset : AAsset} {f : AssetFile}

open AssetFile

theorem Same.read_iff (h : Same word asset f) (count : Nat) :
    ((aassetCall word asset (.read count)).1 = (f.call (.read count)).1 ∧
      Same word (aassetCall word asset (.read count)).2 (f.call (.read count)).2) ↔
      Alike word asset (.read count) := by
  obtain ⟨buffer, offset⟩ := asset
  obtain ⟨rfl, rfl, hfits⟩ := h
  have hinside : ¬ f.offset > f.content.length := Nat.not_lt.mpr f.inside
  have hlength : ((f.content.drop f.offset).take count).length =
      min count (f.content.length - f.offset) := by
    rw [List.length_take, List.length_drop]
  have htake : (f.content.drop f.offset).take (min count (f.content.length - f.offset)) =
      (f.content.drop f.offset).take count := by
    rw [List.take_eq_take_iff, List.length_drop]
    omega
  simp only [aassetCall, aassetRead, if_neg hinside, call, Alike, hlength, htake,
    AssetAnswer.bytes.injEq, true_and, toInt_ofNat_eq_iff]
  exact and_iff_left ⟨rfl, rfl, hfits⟩

theorem Same.remaining (h : Same word asset f) :
    aassetGetRemainingLength64 word asset = f.content.length - f.offset := by
  have hinside := f.inside
  have hfits : (f.content.length : Int) < 2 ^ (word.bits - 1) := by exact_mod_cast h.fits
  have hbits := two_pow_bits word
  rw [aassetGetRemainingLength64, h.content, h.offset]
  exact Int.emod_eq_of_lt (by omega) (by omega)

theorem orError_seek64 (offset : Int64) (whence : Int32) :
    orError (aassetSeek64 word asset offset whence) =
      if NegativeAs word (newOffset asset offset whence) then none
      else some (newOffset asset offset whence % 2 ^ word.bits) := by
  have hpos : (0 : Int) < 2 ^ word.bits := Int.pow_pos (by decide)
  rw [orError, aassetSeek64]
  by_cases hneg : NegativeAs word (newOffset asset offset whence)
  · simp [hneg]
  · simp only [if_neg hneg]
    rw [if_neg (by omega)]

theorem Same.seek_target (h : Same word asset f) {offset : Int64} {whence : Int32} {t : Int}
    (ht : f.target offset.toInt whence = some t) :
    ((aassetCall word asset (.seek offset whence)).1 = (f.call (.seek offset whence)).1 ∧
      Same word (aassetCall word asset (.seek offset whence)).2
        (f.call (.seek offset whence)).2) ↔
      if 0 ≤ t ∧ t ≤ f.content.length then
        ¬ NegativeAs word (newOffset asset offset whence) ∧
          newOffset asset offset whence % 2 ^ word.bits = t ∧ t = f.offset
      else NegativeAs word (newOffset asset offset whence) := by
  simp only [aassetCall, call, AssetFile.seek, ht, orError_seek64]
  by_cases hin : 0 ≤ t ∧ t ≤ f.content.length
  · rw [dif_pos hin, if_pos hin]
    have hsame : Same word asset ⟨f.content, t.toNat, by omega⟩ ↔ t = f.offset := by
      refine ⟨fun hs => ?_, fun heq => ⟨h.content, ?_, h.fits⟩⟩
      · have hoffset : t.toNat = f.offset := hs.offset.symm.trans h.offset
        omega
      · rw [h.offset]
        show f.offset = t.toNat
        omega
    rw [hsame]
    by_cases hneg : NegativeAs word (newOffset asset offset whence)
    · simp [hneg]
    · simp [hneg]
  · rw [dif_neg hin, if_neg hin]
    by_cases hneg : NegativeAs word (newOffset asset offset whence)
    · simp [hneg, h]
    · simp [hneg]

theorem small_offset (word : WordSize) {n : Int} (h0 : 0 ≤ n) (hn : n < 2 ^ (word.bits - 1)) :
    ¬ NegativeAs word n ∧ n % 2 ^ word.bits = n := by
  have hbits := two_pow_bits word
  have hmod : n % 2 ^ word.bits = n := Int.emod_eq_of_lt h0 (by omega)
  refine ⟨?_, hmod⟩
  rw [NegativeAs, hmod]
  omega

theorem Same.seek_forward (h : Same word asset f) (t : Int) :
    (if 0 ≤ t ∧ t ≤ f.content.length then
        ¬ NegativeAs word t ∧ t % 2 ^ word.bits = t ∧ t = f.offset
      else NegativeAs word t) ↔ t = f.offset ∨ NegativeAs word t := by
  have hinside := f.inside
  have hfits : (f.content.length : Int) < 2 ^ (word.bits - 1) := by exact_mod_cast h.fits
  by_cases hin : 0 ≤ t ∧ t ≤ f.content.length
  · obtain ⟨hneg, hmod⟩ := small_offset word hin.1 (by omega)
    simp [hin, hneg, hmod]
  · have hne : t ≠ f.offset := by omega
    simp [hin, hne]

theorem Same.seek_end (h : Same word asset f) (o : Int) :
    (if 0 ≤ f.content.length + o ∧ f.content.length + o ≤ f.content.length then
        ¬ NegativeAs word (f.content.length - o) ∧
          (f.content.length - o) % 2 ^ word.bits = f.content.length + o ∧
          f.content.length + o = f.offset
      else NegativeAs word (f.content.length - o)) ↔
      (o = 0 ∧ f.offset = f.content.length) ∨ NegativeAs word (f.content.length - o) ∧
        ¬ (-(f.content.length : Int) ≤ o ∧ o ≤ 0) := by
  have hfits : (f.content.length : Int) < 2 ^ (word.bits - 1) := by exact_mod_cast h.fits
  have hbits := two_pow_bits word
  by_cases hin : -(f.content.length : Int) ≤ o ∧ o ≤ 0
  · have hin' : 0 ≤ f.content.length + o ∧ f.content.length + o ≤ f.content.length := by omega
    rw [if_pos hin']
    constructor
    · rintro ⟨-, hmod, hoffset⟩
      -- the two offsets are less than `2 ^ word.bits` apart, so that they are the same
      rw [Int.emod_eq_of_lt (by omega) (by omega)] at hmod
      exact .inl ⟨by omega, by omega⟩
    · rintro (⟨rfl, hoffset⟩ | ⟨-, hout⟩)
      · obtain ⟨hneg, hmod⟩ := small_offset word (n := f.content.length - 0) (by omega) (by omega)
        exact ⟨hneg, by omega, by omega⟩
      · exact absurd hin hout
  · have hin' : ¬ (0 ≤ f.content.length + o ∧ f.content.length + o ≤ f.content.length) := by omega
    have hne : o ≠ 0 := by omega
    rw [if_neg hin']
    simp [hin, hne]

theorem Same.seek_iff (h : Same word asset f) (offset : Int64) (whence : Int32) :
    ((aassetCall word asset (.seek offset whence)).1 = (f.call (.seek offset whence)).1 ∧
      Same word (aassetCall word asset (.seek offset whence)).2
        (f.call (.seek offset whence)).2) ↔
      Alike word asset (.seek offset whence) := by
  by_cases h0 : whence = 0
  · subst h0
    rw [h.seek_target rfl]
    have := h.seek_forward offset.toInt
    simpa [Alike, Stays, Refused, newOffset, h.offset] using this
  by_cases h1 : whence = 1
  · subst h1
    rw [h.seek_target rfl]
    have := h.seek_forward (f.offset + offset.toInt)
    simpa [Alike, Stays, Refused, newOffset, h.offset] using this
  by_cases h2 : whence = 2
  · subst h2
    rw [h.seek_target rfl]
    have := h.seek_end offset.toInt
    simpa [Alike, Stays, Refused, newOffset, h.offset, h.content] using this
  · -- no file goes anywhere, and the asset answers 0
    have hzero := (small_offset word (n := 0) (by decide) (Int.pow_pos (by decide))).1
    have htarget : f.target offset.toInt whence = none := by simp [target, h0, h1, h2]
    refine iff_of_false (fun hsame => ?_) ?_
    · have hanswer := hsame.1
      simp [aassetCall, call, AssetFile.seek, htarget, orError_seek64, newOffset, h0, h1,
        h2, hzero] at hanswer
    · simp [Alike, Stays, Refused, newOffset, h0, h1, h2, hzero]

end Calls

/-- **An asset is a file exactly along the calls that both answer alike.** -/
theorem assets_iff (content : AssetContent word) (calls : List AssetCall) :
    (∀ front, front <+: calls →
      outputs (aassetCall word) (openAsset content) front =
          outputs AssetFile.call (openFile content) front ∧
        Same word (final (aassetCall word) (openAsset content) front)
          (final AssetFile.call (openFile content) front)) ↔
      Along (fun asset c => (aassetCall word asset c).2) (Alike word) (openAsset content)
        calls := by
  refine lockstep_iff (fun asset f c h => ?_) ⟨rfl, rfl, content.fits⟩ calls
  cases c with
  | read count => exact h.read_iff count
  | seek offset whence => exact h.seek_iff offset whence
  | getRemainingLength => exact iff_of_true ⟨congrArg AssetAnswer.length h.remaining, h⟩ trivial

/-- After a seek to 1 the first byte is read again; one from the end by -1 answers 3 in a file of
two bytes, and one to 9 answers 9. -/
theorem assets_seek_lost :
    outputs (aassetCall .w64) (openAsset (⟨[7, 8], by decide⟩ : AssetContent .w64))
        [.seek 1 0, .read 1, .seek (-1) 2, .seek 9 0] =
      [.offset (some 1), .bytes [7] 1, .offset (some 3), .offset (some 9)] ∧
    outputs AssetFile.call (openFile (⟨[7, 8], by decide⟩ : AssetContent .w64))
        [.seek 1 0, .read 1, .seek (-1) 2, .seek 9 0] =
      [.offset (some 1), .bytes [8] 1, .offset (some 1), .offset none] ∧
    outputs (aassetCall .w64) (openAsset (⟨[7, 8], by decide⟩ : AssetContent .w64))
        [.seek 1 0, .read 1] ≠
      outputs AssetFile.call (openFile (⟨[7, 8], by decide⟩ : AssetContent .w64))
        [.seek 1 0, .read 1] := by
  decide +kernel

end FakeAssetManager
