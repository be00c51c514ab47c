import Mathlib
import McpeLauncher.Base64Grammar

/-! # The coordinates of a public key

`EcdsaPublicKey` encodes the coordinates of a point on prime256v1, in as many bytes as they need.
What is wanted is the base64url form of all 32 bytes, without padding. -/
namespace McpeLauncherClient
open Base64 List

namespace Prime256v1

def p : Nat := 0xffffffff00000001000000000000000000000000ffffffffffffffffffffffff

def b : Nat := 0x5ac635d8aa3a93e7b3ebbd55769886bc651d06b0cc53b0f63bce3c3e27d2604b

end Prime256v1

/-- The affine coordinates of a point: `y^2 = x^3 - 3 x + b`. -/
structure CurvePoint where
  x : Nat
  y : Nat
  x_lt : x < Prime256v1.p
  y_lt : y < Prime256v1.p
  onCurve : (y ^ 2 + 3 * x) % Prime256v1.p = (x ^ 3 + Prime256v1.b) % Prime256v1.p

def bigEndian : Nat → Nat → List UInt8
  | 0, _ => []
  | n + 1, x => bigEndian n (x / 256) ++ [UInt8.ofNat (x % 256)]

structure EcdsaPublicKey where
  xbase64 : List UInt8
  ybase64 : List UInt8
  deriving DecidableEq

inductive EcdsaError where
  | publicKey
  | allocate
  | affineCoordinates

def EcdsaError.what : EcdsaError → String
  | .publicKey => "OpenSSL failed to get ecdsa public key"
  | .allocate => "OpenSSL failed to allocate bignum"
  | .affineCoordinates => "OpenSSL failed to get affine coordinates"

/-- With the bytes that `BN_bn2bin` writes, the point of the key, and whether numbers are allocated
and coordinates read. -/
def newEcdsaPublicKey (bnBn2bin : Nat → List UInt8) (point : Option CurvePoint)
    (allocated coordinates : Bool) : Except EcdsaError EcdsaPublicKey :=
  match point with
  | none => .error .publicKey
  | some point =>
    if !allocated then .error .allocate
    else if !coordinates then .error .affineCoordinates
    else .ok { xbase64 := encode (bnBn2bin point.x), ybase64 := encode (bnBn2bin point.y) }

def urlTable : List UInt8 :=
  "ABCDEFGHIJKLMNOPQRSTUVWXYZabcdefghijklmnopqrstuvwxyz0123456789-_".toList.map
    fun c => UInt8.ofNat c.toNat

/-- The groups of six bits, the last one filled up with zeros. -/
def sixBits : List UInt8 → List UInt8
  | [] => []
  | [a] => [(sextets a 0 0).1, (sextets a 0 0).2.1]
  | [a, b] => [(sextets a b 0).1, (sextets a b 0).2.1, (sextets a b 0).2.2.1]
  | a :: b :: c :: rest =>
    (sextets a b c).1 :: (sextets a b c).2.1 :: (sextets a b c).2.2.1 ::
      (sextets a b c).2.2.2 :: sixBits rest

def base64Url (bytes : List UInt8) : List UInt8 :=
  (sixBits bytes).map fun v => urlTable.getD v.toNat 0

/-- What the texts of a key should be. -/
structure InFixedForm (point : CurvePoint) (key : EcdsaPublicKey) : Prop where
  x : key.xbase64 = base64Url (bigEndian 32 point.x)
  y : key.ybase64 = base64Url (bigEndian 32 point.y)

theorem length_bigEndian (n x : Nat) : (bigEndian n x).length = n := by
  induction n generalizing x with
  | zero => rfl
  | succ n ih => rw [bigEndian, length_append, ih, length_singleton]

theorem length_sixBits (bytes : List UInt8) :
    (sixBits bytes).length = (4 * bytes.length + 2) / 3 := by
  fun_induction sixBits bytes with
  | case1 => rfl
  | case2 a => simp
  | case3 a b => simp
  | case4 a b c rest ih =>
    simp only [length_cons, ih]
    omega

/-- A text that `Base64::encode` wrote is whole blocks of four, and 32 bytes have 43 groups. -/
theorem encode_ne_base64Url (bytes : List UInt8) (x : Nat) :
    encode bytes ≠ base64Url (bigEndian 32 x) := by
  intro heq
  have hlength := congrArg length heq
  rw [length_encode, base64Url, length_map, length_sixBits, length_bigEndian] at hlength
  omega

/-- **The texts of a key are not the ones wanted, for any point of the curve**, whatever bytes
OpenSSL gives for its coordinates. -/
theorem key_texts_never (bnBn2bin : Nat → List UInt8) (point : CurvePoint) :
    ∃ key, newEcdsaPublicKey bnBn2bin (some point) true true = .ok key ∧ ¬ InFixedForm point key :=
  ⟨_, rfl, fun h => encode_ne_base64Url _ point.x h.x⟩

/-- As OpenSSL documents it: in `BN_num_bytes` bytes, which are as many as the number needs. -/
def shortestBytes (x : Nat) : List UInt8 := bigEndian ((x.size + 7) / 8) x

/-- The base point, whose texts are padded, and a point with the coordinate 0, whose text is empty.
-/
theorem key_texts_base_point :
    let base : CurvePoint := {
      x := 0x6b17d1f2e12c4247f8bce6e563a440f277037d812deb33a0f4a13945d898c296
      y := 0x4fe342e2fe1a7f9b8ee7eb4a7c0f9e162bce33576b315ececbb6406837bf51f5
      x_lt := by decide +kernel
      y_lt := by decide +kernel
      onCurve := by decide +kernel }
    let zero : CurvePoint := {
      x := 0
      y := 0x66485c780e2f83d72433bd5d84a06bb6541c2af31dae871728bf856a174f93f4
      x_lt := by decide +kernel
      y_lt := by decide +kernel
      onCurve := by decide +kernel }
    let key : EcdsaPublicKey := {
      xbase64 := ascii "axfR8uEsQkf4vOblY6RA8ncDfYEt6zOg9KE5RdiYwpY="
      ybase64 := ascii "T+NC4v4af5uO5+tKfA+eFivOM1drMV7Oy7ZAaDe/UfU=" }
    (newEcdsaPublicKey shortestBytes (some base) true true = .ok key ∧
      base64Url (bigEndian 32 base.y) = ascii "T-NC4v4af5uO5-tKfA-eFivOM1drMV7Oy7ZAaDe_UfU" ∧
      ¬ InFixedForm base key) ∧
    ∃ key, newEcdsaPublicKey shortestBytes (some zero) true true = .ok key ∧ key.xbase64 = [] ∧
      base64Url (bigEndian 32 zero.x) = replicate 43 65 := by
  intro base zero key
  have hx : encode (shortestBytes base.x) = key.xbase64 := by decide +kernel
  have hy : encode (shortestBytes base.y) = key.ybase64 := by decide +kernel
  refine ⟨⟨?_, by decide +kernel, fun h => ?_⟩, _, rfl, by decide +kernel, by decide +kernel⟩
  · show Except.ok _ = Except.ok key
    rw [hx, hy]
  · exact encode_ne_base64Url _ _ (hx.trans h.x)

end McpeLauncherClient
