import McpeLauncher.JniSignature

/-! # Types in generated code

`ParseJNIType` writes the C++ type for a JNI type. It has no case for `char`, and for fake-jni it
forgets the array around elements whose type is written with two characters. -/
namespace Jnivm
open List

/-- `fake` is `JNIVM_FAKE_JNI_SYNTAX`; there is no case for `C`. -/
def primitiveName (fake : Bool) : Char → Option String
  | 'V' => some "void"
  | 'Z' => some (if !fake then "jboolean" else "FakeJni::JBoolean")
  | 'B' => some (if !fake then "jbyte" else "FakeJni::JByte")
  | 'S' => some (if !fake then "jshort" else "FakeJni::JShort")
  | 'I' => some (if !fake then "jint" else "FakeJni::JInt")
  | 'J' => some (if !fake then "jlong" else "FakeJni::JLong")
  | 'F' => some (if !fake then "jfloat" else "FakeJni::JFloat")
  | 'D' => some (if !fake then "jdouble" else "FakeJni::JDouble")
  | _ => none

def fakeArrayName : Char → Option String
  | 'Z' => some "std::shared_ptr<FakeJni::JBooleanArray>"
  | 'B' => some "std::shared_ptr<FakeJni::JByteArray>"
  | 'S' => some "std::shared_ptr<FakeJni::JShortArray>"
  | 'I' => some "std::shared_ptr<FakeJni::JIntArray>"
  | 'J' => some "std::shared_ptr<FakeJni::JLongArray>"
  | 'F' => some "std::shared_ptr<FakeJni::JFloatArray>"
  | 'D' => some "std::shared_ptr<FakeJni::JDoubleArray>"
  | _ => none

def wrapArray (fake : Bool) (type : String) : String :=
  (if !fake then "std::shared_ptr<jnivm::Array<" else "std::shared_ptr<FakeJni::JArray<") ++
    type ++ ">>"

/-- The pointer to a class whose name is written with slashes and dollar signs. -/
def sharedPtr (name : List Char) : String :=
  "std::shared_ptr<" ++ String.ofList (name.flatMap fun c =>
    if c = '/' ∨ c = '$' then [':', ':'] else [c]) ++ ">"

/-- The case of a class, up to `cend`; the comparisons begin with the `L`. -/
def classType (fake : Bool) (cur cend : List Char) : String :=
  let name := cur.take (cur.length - cend.length)
  if fake ∧ name = "java/lang/String".toList then "std::shared_ptr<FakeJni::JString>"
  else if fake ∧ name = "java/lang/Object".toList then "std::shared_ptr<FakeJni::JObject>"
  else sharedPtr name.tail

/-- `ParseJNIType`, with what `type` holds before; what is not known leaves it so. -/
def parseJNIType (fake : Bool) : List Char → String → Option (List Char × String)
  | [], _ => none
  | '[' :: next, type => (parseJNIType fake next type).map fun (cur, type) =>
    if !fake then (cur, wrapArray fake type)
    else if next.length - cur.length = 1 then (cur, (next.head?.bind fakeArrayName).getD type)
    else (cur, wrapArray fake type)
  | 'L' :: rest, _ =>
    let cend := findSemicolon ('L' :: rest)
    some (cend, classType fake ('L' :: rest) cend)
  | c :: rest, type => some (c :: rest, (primitiveName fake c).getD type)

/-! ## What should be written -/

def primitiveType (fake : Bool) (name capitalised : String) : String :=
  if fake then "FakeJni::J" ++ capitalised else "j" ++ name

namespace JType

/-- The type in C++: one array around the type of the elements for each bracket. -/
def translation (fake : Bool) : JType → String
  | .boolean => primitiveType fake "boolean" "Boolean"
  | .byte => primitiveType fake "byte" "Byte"
  | .char => primitiveType fake "char" "Char"
  | .short => primitiveType fake "short" "Short"
  | .int => primitiveType fake "int" "Int"
  | .long => primitiveType fake "long" "Long"
  | .float => primitiveType fake "float" "Float"
  | .double => primitiveType fake "double" "Double"
  | .object name => sharedPtr name.chars
  | .array element => wrapArray fake (element.translation fake)

/-- Not `char`, and for fake-jni no array of two-character elements. -/
def Translated (fake : Bool) : JType → Prop
  | .char => False
  | .array element => element.Translated fake ∧ ¬ (fake = true ∧ element.text.length = 2)
  | _ => True

def written (fake : Bool) (type : String) : JType → String
  | .char => type
  | .array element =>
    if fake = true ∧ element.text.length = 2 then element.written fake type
    else wrapArray fake (element.written fake type)
  | t => t.translation fake

variable {fake : Bool} {type : String} {t : JType}

theorem text_of_length_two (h : t.text.length = 2) (rest : List Char) :
    (t.text ++ rest).head?.bind fakeArrayName = none := by
  cases t with
  | object name | array element => rfl
  | _ => exact absurd h (by decide)

theorem parseJNIType_text (fake : Bool) (t : JType) (rest : List Char) (type : String) :
    ∃ c, parseJNIType fake (t.text ++ rest) type = some (c :: rest, t.written fake type) := by
  induction t with
  | object name =>
    refine ⟨';', ?_⟩
    rw [text, cons_append, append_assoc, singleton_append, parseJNIType, findSemicolon_name,
      classType]
    have hname : ('L' :: (name.chars ++ ';' :: rest)).take
        (('L' :: (name.chars ++ ';' :: rest)).length - (';' :: rest).length) =
          'L' :: name.chars := by
      rw [← cons_append, length_append, Nat.add_sub_cancel, take_left]
    simp only [hname]
    rw [if_neg (by simp), if_neg (by simp)]
    rfl
  | array element ih =>
    obtain ⟨c, hc⟩ := ih
    refine ⟨c, ?_⟩
    have hdistance : (element.text ++ rest).length - (c :: rest).length = 1 ↔
        element.text.length = 2 := by
      rw [length_append, length_cons]
      omega
    rw [text, cons_append, parseJNIType, hc, Option.map_some, written]
    simp only [hdistance]
    by_cases hfake : fake = true
    · by_cases htwo : element.text.length = 2
      · rw [text_of_length_two htwo]
        simp [hfake, htwo]
      · simp [hfake, htwo]
    · simp [hfake]
  | char => exact ⟨'C', rfl⟩
  | _ => exact ⟨_, by cases fake <;> rfl⟩

theorem Translated.written_eq (h : t.Translated fake) (type : String) :
    t.written fake type = t.translation fake := by
  induction t with
  | char => exact h.elim
  | array element ih => rw [written, if_neg h.2, ih h.1, translation]
  | _ => rfl

theorem length_wrapArray (fake : Bool) (type : String) :
    (wrapArray fake type).length = (if fake then 34 else 31) + type.length := by
  rw [wrapArray, String.length_append, String.length_append, Nat.add_right_comm]
  cases fake <;> rfl

theorem length_written_lt (h : ¬ t.Translated fake) :
    (t.written fake "").length < (t.translation fake).length := by
  induction t with
  | char => cases fake <;> decide
  | array element ih =>
    rw [translation, length_wrapArray, written]
    by_cases helement : element.Translated fake
    · rw [if_pos (by_contra fun hno => h ⟨helement, hno⟩), helement.written_eq]
      split <;> omega
    · have hlt := ih helement
      split
      · omega
      · rw [length_wrapArray]
        omega
  | _ => exact absurd trivial h

end JType

/-- **A type is translated, as far as `SkipJNIType` skips, exactly if it is not made of `char` and,
in the syntax of fake-jni, has no array around a type of two characters.** -/
theorem parseJNIType_iff (fake : Bool) (t : JType) (rest : List Char) :
    (∀ type, ∃ cur, parseJNIType fake (t.text ++ rest) type = some (cur, t.translation fake) ∧
      skipJNIType (t.text ++ rest) = some cur.tail) ↔ t.Translated fake := by
  constructor
  · intro h
    by_contra hnot
    obtain ⟨cur, hcur, -⟩ := h ""
    obtain ⟨c, hc⟩ := t.parseJNIType_text fake rest ""
    rw [hc] at hcur
    have heq := (Prod.mk.inj (Option.some.inj hcur)).2
    exact absurd (congrArg String.length heq) (ne_of_lt (JType.length_written_lt hnot))
  · intro h type
    obtain ⟨c, hc⟩ := t.parseJNIType_text fake rest type
    exact ⟨c :: rest, hc.trans (by rw [h.written_eq]), skipJNIType_text t rest⟩

/-- `C` leaves the text empty, and `[[I` gets one array only. -/
theorem parseJNIType_fails :
    parseJNIType false "C".toList "" = some (['C'], "") ∧
    parseJNIType true "[[I".toList "" =
      some (['I'], "std::shared_ptr<FakeJni::JArray<FakeJni::JInt>>") ∧
    (JType.array (.array .int)).translation true =
      "std::shared_ptr<FakeJni::JArray<std::shared_ptr<FakeJni::JArray<FakeJni::JInt>>>>" := by
  decide

end Jnivm
