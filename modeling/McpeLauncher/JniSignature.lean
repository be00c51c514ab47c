import Mathlib

/-! # JNI signatures

The types in a JNI method signature, and `SkipJNIType` of libjnivm, which moves a pointer past one.
A pointer is the rest of the C string, its terminator included; behind that it is the empty list,
and reading is undefined. -/
namespace Jnivm
open List

def nul : Char := Char.ofNat 0

/-- The name of a class as it stands between `L` and `;`. -/
structure ClassName where
  chars : List Char
  no_semicolon : ';' ∉ chars
  no_nul : nul ∉ chars

/-- A JNI type that a parameter may have. -/
inductive JType where
  | boolean | byte | char | short | int | long | float | double
  | object (name : ClassName)
  | array (element : JType)

def JType.text : JType → List Char
  | .boolean => ['Z']
  | .byte => ['B']
  | .char => ['C']
  | .short => ['S']
  | .int => ['I']
  | .long => ['J']
  | .float => ['F']
  | .double => ['D']
  | .object name => 'L' :: (name.chars ++ [';'])
  | .array element => '[' :: element.text

/-- The signature of a method; without a result it returns void. -/
def methodSignature (params : List JType) (result : Option JType) : List Char :=
  '(' :: (params.flatMap JType.text ++ ')' :: (result.map JType.text).getD ['V'])

/-- `std::find(cur, end, ';')`: the terminator is `end`. -/
def findSemicolon (cur : List Char) : List Char := cur.dropWhile fun c => c ≠ ';' && c ≠ nul

/-- Whatever else is one character long; the `- 1` after a recursive call and the `+ 1` at the end
cancel out. -/
def skipJNIType : List Char → Option (List Char)
  | [] => none
  | '[' :: cur => skipJNIType cur
  | '(' :: cur => skipJNIType cur
  | 'L' :: cur => some (findSemicolon ('L' :: cur)).tail
  | _ :: cur => some cur

theorem findSemicolon_length_le (cur : List Char) : (findSemicolon cur).length ≤ cur.length :=
  (dropWhile_suffix _).length_le

theorem skipJNIType_length_lt {cur next : List Char} (h : skipJNIType cur = some next) :
    next.length < cur.length := by
  fun_induction skipJNIType cur with
  | case1 => exact absurd h (by simp)
  | case2 cur ih => exact Nat.lt_succ_of_lt (ih h)
  | case3 cur ih => exact Nat.lt_succ_of_lt (ih h)
  | case4 cur =>
    obtain rfl := Option.some.inj h
    have hle := findSemicolon_length_le ('L' :: cur)
    simp only [length_tail, length_cons] at hle ⊢
    omega
  | case5 c cur =>
    obtain rfl := Option.some.inj h
    exact Nat.lt_succ_self _

theorem findSemicolon_append {front : List Char} (hsemicolon : ';' ∉ front) (hnul : nul ∉ front)
    (rest : List Char) : findSemicolon (front ++ rest) = findSemicolon rest := by
  rw [findSemicolon, dropWhile_append_of_pos]
  · rfl
  · intro c hc
    simp only [ne_eq, Bool.and_eq_true, decide_eq_true_eq]
    exact ⟨fun h => hsemicolon (h ▸ hc), fun h => hnul (h ▸ hc)⟩

theorem findSemicolon_name (name : ClassName) (rest : List Char) :
    findSemicolon ('L' :: (name.chars ++ ';' :: rest)) = ';' :: rest := by
  rw [← cons_append, findSemicolon_append]
  · rfl
  · exact not_mem_cons_of_ne_of_not_mem (by decide) name.no_semicolon
  · exact not_mem_cons_of_ne_of_not_mem (by decide) name.no_nul

theorem skipJNIType_text (t : JType) (rest : List Char) :
    skipJNIType (t.text ++ rest) = some rest := by
  induction t with
  | array element ih => exact ih
  | object name =>
    rw [JType.text, cons_append, append_assoc, singleton_append, skipJNIType,
      findSemicolon_name, tail_cons]
  | _ => rfl

end Jnivm
