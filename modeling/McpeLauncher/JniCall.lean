import McpeLauncher.JniSignature

/-! # Calling Java methods with variable arguments

`Call…Method` takes an array of `jvalue`s, a `va_list` or the arguments. libjnivm makes the array
from the `va_list` by going through the signature (`JValuesfromValist`). -/
namespace Jnivm
open List

/-- An exception that leaves the function, or undefined behaviour. -/
inductive Fault where
  | invalidArgument (what : String)
  | undefined

/-- `jfloat` and `jdouble`: a float is passed as a double and taken as a float again. -/
structure Floats where
  Float : Type
  Double : Type
  widen : Float → Double
  narrow : Double → Float
  narrow_widen : ∀ x, narrow (widen x) = x

/-- `jvalue`, a union.  `unset` has no member set, all its bytes are zero. -/
inductive JValue (N : Floats) (O : Type) where
  | unset
  | z (v : BitVec 8)
  | b (v : BitVec 8)
  | c (v : BitVec 16)
  | s (v : BitVec 16)
  | i (v : BitVec 32)
  | j (v : BitVec 64)
  | f (v : N.Float)
  | d (v : N.Double)
  | l (v : O)

/-- A variable argument, after the default promotions. -/
inductive VaArg (N : Floats) (O : Type) where
  | int (v : BitVec 32)
  | long (v : BitVec 64)
  | double (v : N.Double)
  | pointer (v : O)

section
variable {N : Floats} {O : Type}

/-- How an argument is passed; `jboolean` and `jchar` are unsigned.  What has no member
set is no argument. -/
def JValue.promote : JValue N O → Option (VaArg N O)
  | .unset => none
  | .z v => some (.int (v.setWidth 32))
  | .b v => some (.int (v.signExtend 32))
  | .c v => some (.int (v.setWidth 32))
  | .s v => some (.int (v.signExtend 32))
  | .i v => some (.int v)
  | .j v => some (.long v)
  | .f v => some (.double (N.widen v))
  | .d v => some (.double v)
  | .l v => some (.pointer v)

/-- `va_arg(list, int)`; another type, or no argument, is undefined. -/
def vaInt : List (VaArg N O) → Except Fault (BitVec 32 × List (VaArg N O))
  | .int v :: list => .ok (v, list)
  | _ => .error .undefined

def vaLong : List (VaArg N O) → Except Fault (BitVec 64 × List (VaArg N O))
  | .long v :: list => .ok (v, list)
  | _ => .error .undefined

def vaDouble : List (VaArg N O) → Except Fault (N.Double × List (VaArg N O))
  | .double v :: list => .ok (v, list)
  | _ => .error .undefined

def vaPointer : List (VaArg N O) → Except Fault (O × List (VaArg N O))
  | .pointer v :: list => .ok (v, list)
  | _ => .error .undefined

/-- The pointer behind the type that starts with `c`. -/
def nextType (c : Char) (rest : List Char) : Except Fault (List Char) :=
  match c with
  | '[' => match skipJNIType rest with
    | none => .error .undefined
    | some signature => .ok signature
  | 'L' => match findSemicolon ('L' :: rest) with
    | ';' :: signature => .ok signature
    | _ => .error (.invalidArgument "Signature missing ';' after 'L'")
  | _ => .ok rest

/-- The value for the type that starts with `c`.  There is no case for `C`. -/
def nextValue (c : Char) (list : List (VaArg N O)) :
    Except Fault (JValue N O × List (VaArg N O)) :=
  match c with
  | 'V' => .ok (.unset, list)
  | 'Z' => (vaInt list).map fun (v, list) => (.z (v.setWidth 8), list)
  | 'B' => (vaInt list).map fun (v, list) => (.b (v.setWidth 8), list)
  | 'S' => (vaInt list).map fun (v, list) => (.s (v.setWidth 16), list)
  | 'I' => (vaInt list).map fun (v, list) => (.i v, list)
  | 'J' => (vaLong list).map fun (v, list) => (.j v, list)
  | 'F' => (vaDouble list).map fun (v, list) => (.f (N.narrow v), list)
  | 'D' => (vaDouble list).map fun (v, list) => (.d v, list)
  | '[' => (vaPointer list).map fun (v, list) => (.l v, list)
  | 'L' => (vaPointer list).map fun (v, list) => (.l v, list)
  | _ => .ok (.unset, list)

theorem nextType_length_le {c : Char} {rest next : List Char} (h : nextType c rest = .ok next) :
    next.length ≤ rest.length := by
  unfold nextType at h
  split at h
  · split at h
    · contradiction
    · next hskip =>
      obtain rfl := Except.ok.inj h
      exact le_of_lt (skipJNIType_length_lt hskip)
  · split at h
    · next hfind =>
      obtain rfl := Except.ok.inj h
      have hle := findSemicolon_length_le ('L' :: rest)
      rw [hfind, length_cons, length_cons] at hle
      omega
    · contradiction
  · obtain rfl := Except.ok.inj h
    exact le_rfl

def jValuesLoop (list : List (VaArg N O)) (signature : List Char) (values : List (JValue N O)) :
    Except Fault (List (JValue N O)) :=
  match signature with
  | [] => .error .undefined
  | c :: rest =>
    if c = ')' ∨ rest = [] then .ok values
    else
      match _hnext : nextType c rest with
      | .error e => .error e
      | .ok signature => match nextValue c list with
        | .error e => .error e
        | .ok (value, list) => jValuesLoop list signature (values ++ [value])
termination_by signature.length
decreasing_by
  have := nextType_length_le _hnext
  simp only [length_cons]
  omega

def jValuesfromValist (list : List (VaArg N O)) (signature : List Char) :
    Except Fault (List (JValue N O)) :=
  match signature ++ [nul] with
  | '(' :: rest => jValuesLoop list rest []
  | _ => .error (.invalidArgument
      ("Signature doesn't begin with '(' " ++ String.ofList signature))

/-! ## The values are the arguments -/

/-- A value that may be passed for a parameter. -/
inductive JType.Takes : JType → JValue N O → Prop
  | boolean (v) : Takes .boolean (.z v)
  | byte (v) : Takes .byte (.b v)
  | char (v) : Takes .char (.c v)
  | short (v) : Takes .short (.s v)
  | int (v) : Takes .int (.i v)
  | long (v) : Takes .long (.j v)
  | float (v) : Takes .float (.f v)
  | double (v) : Takes .double (.d v)
  | object (name v) : Takes (.object name) (.l v)
  | array (element v) : Takes (.array element) (.l v)

theorem setWidth_signExtend {w : Nat} (v : BitVec w) (h : w ≤ 32) :
    (v.signExtend 32).setWidth w = v := by
  rw [← BitVec.signExtend_eq_setWidth_of_le _ h]
  apply BitVec.eq_of_toInt_eq
  rw [BitVec.toInt_signExtend_eq_toInt_bmod_of_le _ h, BitVec.toInt_signExtend_of_le h,
    BitVec.toInt_bmod_cancel]

theorem nextValue_promote {t : JType} {v : JValue N O} (ht : t.Takes v) (hchar : t ≠ .char)
    (list : List (VaArg N O)) :
    ∀ c ∈ t.text.head?, nextValue c (v.promote.toList ++ list) = .ok (v, list) := by
  rintro c hc
  cases ht with
  | char v => exact absurd rfl hchar
  | boolean v | byte v | short v | int v | long v | float v | double v | object name v
  | array element v =>
    obtain rfl := Option.some.inj hc
    simp [nextValue, JValue.promote, vaInt, vaLong, vaDouble, vaPointer, Except.map,
      setWidth_signExtend, N.narrow_widen]

theorem nextType_text (t : JType) (rest : List Char) :
    ∃ c tail, t.text = c :: tail ∧ c ≠ ')' ∧ nextType c (tail ++ rest) = .ok rest := by
  cases t with
  | object name =>
    refine ⟨'L', name.chars ++ [';'], rfl, by decide, ?_⟩
    rw [nextType, append_assoc, singleton_append, findSemicolon_name]
    rfl
  | array element =>
    refine ⟨'[', element.text, rfl, by decide, ?_⟩
    rw [nextType, skipJNIType_text]
  | _ => exact ⟨_, [], rfl, by decide, rfl⟩

/-- One round of the loop. -/
theorem jValuesLoop_cons {c : Char} {rest : List Char} (hc : c ≠ ')') (hrest : rest ≠ [])
    (list : List (VaArg N O)) (values : List (JValue N O)) :
    jValuesLoop list (c :: rest) values = (nextType c rest).bind fun next =>
      (nextValue c list).bind fun (value, list) => jValuesLoop list next (values ++ [value]) := by
  rw [jValuesLoop, if_neg (not_or.mpr ⟨hc, hrest⟩)]
  split
  · next hnext => rw [hnext]; rfl
  · next hnext =>
    rw [hnext]
    split
    · next hvalue => simp only [Except.bind, hvalue]
    · next hvalue => simp only [Except.bind, hvalue]

theorem jValuesLoop_param {t : JType} {v : JValue N O} (ht : t.Takes v) (hchar : t ≠ .char)
    {rest : List Char} (hrest : rest ≠ []) (list : List (VaArg N O))
    (values : List (JValue N O)) :
    jValuesLoop (v.promote.toList ++ list) (t.text ++ rest) values =
      jValuesLoop list rest (values ++ [v]) := by
  obtain ⟨c, tail, htext, hc, hnext⟩ := nextType_text t rest
  have hvalue := nextValue_promote ht hchar list c (by rw [htext]; rfl)
  rw [htext, cons_append, jValuesLoop_cons hc (by simp [hrest]), hnext]
  simp only [Except.bind, hvalue]

theorem jValuesLoop_char {rest : List Char} (hrest : rest ≠ []) (list : List (VaArg N O))
    (values : List (JValue N O)) :
    jValuesLoop list (JType.char.text ++ rest) values =
      jValuesLoop list rest (values ++ [.unset]) := by
  rw [show JType.char.text ++ rest = 'C' :: rest from rfl, jValuesLoop, if_neg (by simp [hrest])]
  rfl

def vaList (args : List (JValue N O)) : List (VaArg N O) := args.flatMap (·.promote.toList)

section
variable {params : List JType} {args : List (JValue N O)}
  (hargs : List.Forall₂ JType.Takes params args) (hchar : JType.char ∉ params)
include hargs hchar

theorem jValuesLoop_params (rest : List Char) (list : List (VaArg N O))
    (values : List (JValue N O)) :
    jValuesLoop (vaList args ++ list) (params.flatMap JType.text ++ ')' :: rest) values =
      .ok (values ++ args) := by
  induction hargs generalizing values with
  | nil => rw [flatMap_nil, nil_append, jValuesLoop, if_pos (.inl rfl), append_nil]
  | @cons t v params args ht _ ih =>
    simp only [mem_cons, not_or] at hchar
    rw [vaList, flatMap_cons, flatMap_cons, append_assoc, append_assoc,
      jValuesLoop_param ht (Ne.symm hchar.1) (by simp)]
    rw [show args.flatMap (·.promote.toList) = vaList args from rfl, ih hchar.2, append_assoc,
      singleton_append]

theorem jValuesfromValist_eq (result : Option JType) (list : List (VaArg N O)) :
    jValuesfromValist (vaList args ++ list) (methodSignature params result) = .ok args := by
  rw [jValuesfromValist, methodSignature, cons_append, append_assoc, cons_append]
  exact jValuesLoop_params hargs hchar _ list []

end

/-- The loop only adds values. -/
theorem jValuesLoop_prefix {list : List (VaArg N O)} {signature : List Char}
    {values vs : List (JValue N O)} (h : jValuesLoop list signature values = .ok vs) :
    values <+: vs := by
  fun_induction jValuesLoop list signature values with
  | case1 => cases h
  | case2 => exact Except.ok.inj h ▸ prefix_rfl
  | case3 => cases h
  | case4 => cases h
  | case5 list c rest values hgo signature hnext value list' hvalue ih =>
    exact (prefix_append _ _).trans (ih h)

/-- The value of the first `char` stays unset. -/
theorem jValuesLoop_of_char {params : List JType} {args : List (JValue N O)}
    (hargs : List.Forall₂ JType.Takes params args) (hchar : JType.char ∈ params)
    (rest : List Char) (list : List (VaArg N O)) (values : List (JValue N O)) :
    jValuesLoop (vaList args ++ list) (params.flatMap JType.text ++ ')' :: rest) values ≠
      .ok (values ++ args) := by
  induction hargs generalizing values with
  | nil => exact absurd hchar not_mem_nil
  | @cons t v params args ht _ ih =>
    rw [vaList, flatMap_cons, flatMap_cons, append_assoc, append_assoc]
    by_cases ht' : t = .char
    · subst ht'
      cases ht with
      | char v =>
        rw [jValuesLoop_char (by simp)]
        intro hok
        have hfirst := jValuesLoop_prefix hok
        rw [prefix_append_right_inj] at hfirst
        exact absurd (singleton_prefix_cons_iff.mp hfirst) (by simp)
    · rw [jValuesLoop_param ht ht' (by simp)]
      have hnext := ih (mem_of_ne_of_mem (Ne.symm ht') hchar) (values ++ [v])
      rw [append_assoc values, singleton_append] at hnext
      exact hnext

variable {M E T : Type}

/-- The handlers and overloads for a receiver, and the value where there is nothing to return. -/
structure CallEnv (N : Floats) (O M E T : Type) where
  signature : M → List Char
  nativehandle : M → Option (List (JValue N O) → Except E T)
  findVirtualOverload : M → Option M
  findNonVirtualOverload : M → Option M
  defaultVal : List Char → T

namespace CallEnv
variable (env : CallEnv N O M E T)

/-- What the handler throws is the pending exception. A method not found or not hooked is a null
pointer. -/
def run (mid : Option M) (param : List (JValue N O)) : Except Fault (T × Option E) :=
  match mid with
  | none => .error .undefined
  | some mid => match env.nativehandle mid with
    | none => .error .undefined
    | some handle => match handle param with
      | .ok value => .ok (value, none)
      | .error e => .ok (env.defaultVal (env.signature mid), some e)

/-- A call with an array; `find` is the overload that is run. -/
def call (find : M → Option M) (id : Option M) (param : List (JValue N O)) :
    Except Fault (T × Option E) :=
  match id with
  | none => .ok (env.defaultVal [], none)
  | some mid => match env.nativehandle mid with
    | none => .ok (env.defaultVal (env.signature mid), none)
    | some _ => env.run (find mid) param

def callMethod : Option M → List (JValue N O) → Except Fault (T × Option E) :=
  env.call env.findVirtualOverload

def callNonvirtualMethod : Option M → List (JValue N O) → Except Fault (T × Option E) :=
  env.call env.findNonVirtualOverload

def callStaticMethod : Option M → List (JValue N O) → Except Fault (T × Option E) := env.call some

def callMethodV (id : Option M) (param : List (VaArg N O)) : Except Fault (T × Option E) :=
  match id with
  | none => .ok (env.defaultVal [], none)
  | some mid => (jValuesfromValist param (env.signature mid)).bind (env.callMethod (some mid))

/-- The other two do not ask for a null method. -/
def callNonvirtualMethodV (id : Option M) (param : List (VaArg N O)) :
    Except Fault (T × Option E) :=
  match id with
  | none => .error .undefined
  | some mid =>
    (jValuesfromValist param (env.signature mid)).bind (env.callNonvirtualMethod (some mid))

def callStaticMethodV (id : Option M) (param : List (VaArg N O)) : Except Fault (T × Option E) :=
  match id with
  | none => .error .undefined
  | some mid => (jValuesfromValist param (env.signature mid)).bind (env.callStaticMethod (some mid))

end CallEnv

/-- A value of each type; no character is 0, as the bytes of an unset value are. -/
def JType.sample [Inhabited N.Float] [Inhabited N.Double] [Inhabited O] : JType → JValue N O
  | .boolean => .z 1
  | .byte => .b 1
  | .char => .c 65
  | .short => .s 1
  | .int => .i 1
  | .long => .j 1
  | .float => .f default
  | .double => .d default
  | .object _ | .array _ => .l default

/-- **Variable arguments and arrays agree exactly if no parameter is of type `char`**: whatever is
passed, the values are the arguments, and the calls do the same. -/
theorem valist_calls_agree [Inhabited N.Float] [Inhabited N.Double] [Inhabited O]
    (params : List JType) (result : Option JType) :
    (∀ args : List (JValue N O), List.Forall₂ JType.Takes params args → ∀ more,
      jValuesfromValist (vaList args ++ more) (methodSignature params result) = .ok args ∧
      ∀ (M E T : Type) (env : CallEnv N O M E T) (mid : M),
        env.signature mid = methodSignature params result →
        env.callMethodV (some mid) (vaList args ++ more) = env.callMethod (some mid) args ∧
        env.callNonvirtualMethodV (some mid) (vaList args ++ more) =
          env.callNonvirtualMethod (some mid) args ∧
        env.callStaticMethodV (some mid) (vaList args ++ more) =
          env.callStaticMethod (some mid) args) ↔
      JType.char ∉ params := by
  constructor
  · intro hagree hchar
    have hargs : List.Forall₂ JType.Takes params (params.map (JType.sample (N := N) (O := O))) := by
      rw [forall₂_map_right_iff, forall₂_same]
      intro t _
      cases t <;> constructor
    obtain ⟨hvalues, _⟩ := hagree _ hargs []
    rw [jValuesfromValist, methodSignature, cons_append, append_assoc, cons_append] at hvalues
    exact jValuesLoop_of_char hargs hchar _ [] [] hvalues
  · intro hchar args hargs more
    have hvalues := jValuesfromValist_eq hargs hchar result more
    refine ⟨hvalues, fun M E T env mid hmid => ⟨?_, ?_, ?_⟩⟩
    · rw [CallEnv.callMethodV, hmid, hvalues]
      rfl
    · rw [CallEnv.callNonvirtualMethodV, hmid, hvalues]
      rfl
    · rw [CallEnv.callStaticMethodV, hmid, hvalues]
      rfl

end

/-- Floating point numbers without rounding. -/
def Floats.exact : Floats where
  Float := ℚ
  Double := ℚ
  widen := id
  narrow := id
  narrow_widen _ := rfl

def CallEnv.echo (signature : List Char) :
    CallEnv Floats.exact Nat Unit Unit (List (JValue Floats.exact Nat)) where
  signature _ := signature
  nativehandle _ := some .ok
  findVirtualOverload := some
  findNonVirtualOverload := some
  defaultVal _ := []

/-- `(CI)V`: the number is the character, and the character is lost. -/
theorem valist_char_lost :
    let params := [.char, .int]
    let args : List (JValue Floats.exact Nat) := [.c 65, .i 7]
    let env := CallEnv.echo (methodSignature params none)
    List.Forall₂ JType.Takes params args ∧
    jValuesfromValist (vaList args) (methodSignature params none) = .ok [.unset, .i 65] ∧
    env.callStaticMethod (some ()) args = .ok (args, none) ∧
    env.callStaticMethodV (some ()) (vaList args) = .ok ([.unset, .i 65], none) := by
  intro params args env
  have hvalues : jValuesfromValist (vaList args) (methodSignature params none) =
      .ok [.unset, .i 65] := by
    show jValuesLoop [.int 65, .int 7] (JType.char.text ++ ['I', ')', 'V', nul]) [] = _
    rw [jValuesLoop_char (by simp)]
    have hint := jValuesLoop_param (.int 65) (by simp) (cons_ne_nil ')' ['V', nul])
      [.int 7] [(.unset : JValue Floats.exact Nat)]
    refine hint.trans ?_
    rw [jValuesLoop, if_pos (.inl rfl)]
    rfl
  refine ⟨.cons (.char 65) (.cons (.int 7) .nil), hvalues, rfl, ?_⟩
  show (jValuesfromValist (vaList args) (methodSignature params none)).bind _ = _
  rw [hvalues]
  rfl

end Jnivm
