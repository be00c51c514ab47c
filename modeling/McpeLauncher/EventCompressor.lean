import Mathlib.Algebra.Group.Nat.Defs
import Mathlib.Data.List.Basic

/-! # Compressing events

`EventCompressor` calls zlib until there is room left in the last 4096 bytes, and looks at no status
but `Z_STREAM_ERROR`. -/
namespace Cll
open List

inductive ZStatus where
  | ok
  | streamEnd
  | bufError
  | dataError
  | memError
  | streamError
  deriving DecidableEq

/-- The output that is still to come, and the status when there is no more. -/
structure ZStream where
  output : List UInt8
  final : ZStatus

/-- A call with `Z_FINISH` and this much room: the status, what is written, and the stream. -/
def ZStream.call (availOut : Nat) (zs : ZStream) : ZStatus × List UInt8 × ZStream :=
  (if zs.output.length < availOut then zs.final else .ok, zs.output.take availOut,
    { zs with output := zs.output.drop availOut })

/-- What zlib makes of the input of a stream, in raw deflate format. -/
structure Zlib where
  deflate : List UInt8 → ZStream
  inflate : List UInt8 → ZStream
  deflate_final : ∀ x, (deflate x).final = .streamEnd
  inflate_deflate : ∀ x, inflate (deflate x).output = ⟨x, .streamEnd⟩
  inflate_final : ∀ y, (inflate y).final ≠ .streamError

namespace EventCompressor

/-- The loop of both functions; `none` is a `CompressError`. -/
def runStream (zs : ZStream) (out : List UInt8) : Option (List UInt8) :=
  let call := zs.call 4096
  if call.1 = .streamError then none
  else if call.2.1.length = 4096 then runStream call.2.2 (out ++ call.2.1)
  else some (out ++ call.2.1)
termination_by zs.output.length
decreasing_by
  rename_i hfull
  simp only [call, ZStream.call, length_take] at hfull
  simp only [ZStream.call, length_drop]
  omega

/-- `(uInt) size` bytes are given to zlib. -/
def availIn (data : List UInt8) : List UInt8 := data.take (data.length % 2 ^ 32)

def compress (zlib : Zlib) (data : List UInt8) : Option (List UInt8) :=
  runStream (zlib.deflate (availIn data)) []

def decompress (zlib : Zlib) (data : List UInt8) : Option (List UInt8) :=
  runStream (zlib.inflate (availIn data)) []

def Complete (zlib : Zlib) (y : List UInt8) : Prop := (zlib.inflate y).final = .streamEnd

theorem availIn_of_lt {data : List UInt8} (h : data.length < 2 ^ 32) : availIn data = data := by
  rw [availIn, Nat.mod_eq_of_lt h, take_length]

/-- **The loop collects the output**, whatever its length is. -/
theorem runStream_eq (zs : ZStream) (out : List UInt8) (h : zs.final ≠ .streamError) :
    runStream zs out = some (out ++ zs.output) := by
  induction zs, out using runStream.induct with
  | case1 zs out call hret =>
    -- only the last call gives the final status
    simp only [call, ZStream.call] at hret
    split at hret
    · exact absurd hret h
    · cases hret
  | case2 zs out call hret hfull ih =>
    rw [runStream, if_neg hret, if_pos hfull, ih h, append_assoc]
    exact congrArg (fun l => some (out ++ l)) (take_append_drop 4096 zs.output)
  | case3 zs out call hret hroom =>
    rw [runStream, if_neg hret, if_neg hroom]
    simp only [call, ZStream.call, length_take] at hroom
    exact congrArg (fun l => some (out ++ l)) (take_of_length_le (by omega))

theorem compress_eq (zlib : Zlib) (x : List UInt8) :
    compress zlib x = some (zlib.deflate (availIn x)).output := by
  have hfinal : (zlib.deflate (availIn x)).final ≠ .streamError := by
    rw [zlib.deflate_final]
    decide
  rw [compress, runStream_eq _ _ hfinal, nil_append]

theorem decompress_eq (zlib : Zlib) (y : List UInt8) :
    decompress zlib y = some (zlib.inflate (availIn y)).output := by
  rw [decompress, runStream_eq _ _ (zlib.inflate_final _), nil_append]

/-- **What was compressed comes back exactly if the part that is passed on is inflated to it; and
decompression never throws**, although the input may be no whole stream. -/
theorem compressor_iff (zlib : Zlib) (x y : List UInt8) (hx : x.length < 2 ^ 32) :
    let compressed := (zlib.deflate x).output
    ((compress zlib x).bind (decompress zlib) = some x ↔
        (zlib.inflate (availIn compressed)).output = x) ∧
      (compressed.length < 2 ^ 32 → (zlib.inflate (availIn compressed)).output = x) ∧
      ((¬ Complete zlib y → decompress zlib y = none) ↔ Complete zlib y) := by
  refine ⟨?_, fun hlength => ?_, ?_⟩
  · rw [compress_eq, availIn_of_lt hx, Option.bind_some, decompress_eq, Option.some_inj]
  · rw [availIn_of_lt hlength, zlib.inflate_deflate]
  · rw [decompress_eq]
    exact ⟨fun h => by_contra fun hnot => absurd (h hnot) nofun, fun h hnot => absurd h hnot⟩

end EventCompressor

/-- A format that puts one byte in front. -/
def Zlib.tagged : Zlib where
  deflate x := ⟨1 :: x, .streamEnd⟩
  inflate
    | [] => ⟨[], .bufError⟩
    | _ :: x => ⟨x, .streamEnd⟩
  deflate_final _ := rfl
  inflate_deflate _ := rfl
  inflate_final y := by cases y <;> nofun

namespace EventCompressor

theorem compressor_two_bytes :
    (compress Zlib.tagged [5, 6]).bind (decompress Zlib.tagged) = some [5, 6] :=
  (compressor_iff Zlib.tagged [5, 6] [] (by decide)).1.mpr rfl

/-- The empty text, which is the front of a stream, is decompressed to the empty text. -/
theorem decompress_truncated :
    decompress Zlib.tagged [] = some [] ∧ ¬ Complete Zlib.tagged [] := by
  exact ⟨runStream_eq _ _ nofun, nofun⟩

end EventCompressor
end Cll
