import McpeLauncher.JniCall

/-! # Calling registered natives

A native function is called through libffi: its signature is parsed into a prototype
(`getFfiPrototype`), by which the arguments are fetched from a `va_list` or an array. -/
namespace FakeJni
open List
open Jnivm (ClassName Floats JType JValue VaArg methodSignature vaList)

inductive FfiType where
  | void | uint8 | sint8 | uint16 | sint16 | sint32 | float | sint64 | double | pointer
  deriving DecidableEq

/-- An exception, or undefined behaviour. -/
inductive Fault where
  | runtimeError (what : String)
  | undefined

/-- The pointer behind the next semicolon. -/
def parseClass (signature : List Char) : Option (List Char) :=
  match signature.dropWhile (· ≠ ';') with
  | _ :: rest => some rest
  | [] => none

/-- Where `parse` goes on behind a `[`; `signature--` takes back the step over a primitive type. -/
def parseArray : List Char → Option (List Char)
  | '[' :: rest => parseArray rest
  | 'L' :: rest => parseClass rest
  | rest => some rest

def primitiveType : Char → Option FfiType
  | 'Z' => some .uint8
  | 'B' => some .sint8
  | 'C' => some .uint16
  | 'S' => some .sint16
  | 'I' => some .sint32
  | 'F' => some .float
  | 'J' => some .sint64
  | 'D' => some .double
  | _ => none

/-- A round of `parse`: the parentheses, what the callback adds, and where it goes on. -/
def parseStep (parensMatched : Int8) (c : Char) (rest : List Char) :
    Except Fault (Int8 × Option FfiType × List Char) :=
  match c with
  | '(' => .ok (parensMatched + 1, none, rest)
  | ')' => .ok (parensMatched + 1, none, rest)
  | 'V' =>
    if parensMatched = -1 then
      .error (.runtimeError "Illegal JNI function prototype, void cannot be a function argument!")
    else .ok (parensMatched, some .void, rest)
  | 'L' => match parseClass rest with
    | none => .error .undefined
    | some next => .ok (parensMatched, some .pointer, next)
  | '[' => match parseArray rest with
    | none => .error .undefined
    | some next => .ok (parensMatched, some .pointer, next)
  | c => match primitiveType c with
    | none => .error (.runtimeError "Illegal JNI function prototype!")
    | some type => .ok (parensMatched, some type, rest)

variable {c : Char} {next signature : List Char} {type : Option FfiType}

theorem parseClass_length_le (h : parseClass signature = some next) :
    next.length ≤ signature.length := by
  unfold parseClass at h
  split at h
  · next hdrop =>
    obtain rfl := Option.some.inj h
    have hle := (dropWhile_suffix (· ≠ ';') (l := signature)).length_le
    rw [hdrop, length_cons] at hle
    omega
  · contradiction

theorem parseArray_length_le (h : parseArray signature = some next) :
    next.length ≤ signature.length := by
  fun_induction parseArray signature with
  | case1 rest ih => exact Nat.le_succ_of_le (ih h)
  | case2 rest => exact Nat.le_succ_of_le (parseClass_length_le h)
  | case3 rest => exact (Option.some.inj h) ▸ le_rfl

theorem parseStep_length_le {parens parens' : Int8} {rest : List Char}
    (h : parseStep parens c rest = .ok (parens', type, next)) : next.length ≤ rest.length := by
  unfold parseStep at h
  split at h
  · cases h; exact le_rfl
  · cases h; exact le_rfl
  · split at h
    · contradiction
    · cases h; exact le_rfl
  · split at h
    · contradiction
    · next hclass => cases h; exact parseClass_length_le hclass
  · split at h
    · contradiction
    · next harray => cases h; exact parseArray_length_le harray
  · split at h
    · contradiction
    · cases h; exact le_rfl

/-- `JniFunctionParser::parse` with the callbacks of `getFfiPrototype`. -/
def parse (parensMatched : Int8) (signature : List Char) (prototype : List FfiType) :
    Except Fault (List FfiType) :=
  match signature with
  | [] =>
    if parensMatched = 0 then .ok prototype
    else .error (.runtimeError "Unmatched parenthesis in JNI function prototype!")
  | c :: rest => match _hstep : parseStep parensMatched c rest with
    | .error e => .error e
    | .ok (parensMatched, type, signature) =>
      parse parensMatched signature (prototype ++ type.toList)
termination_by signature.length
decreasing_by
  have := parseStep_length_le _hstep
  simp only [length_cons]
  omega

def getFfiPrototype (signature : List Char) : Except Fault (List FfiType) := parse (-2) signature []

/-! ## What the parser makes of a type -/

/-- The primitive type at the bottom of an array. -/
def leafType : JType → Option FfiType
  | .boolean => some .uint8
  | .byte => some .sint8
  | .char => some .uint16
  | .short => some .sint16
  | .int => some .sint32
  | .long => some .sint64
  | .float => some .float
  | .double => some .double
  | .object _ => none
  | .array element => leafType element

def prototypeOf : JType → List FfiType
  | .object _ => [.pointer]
  | .array element => .pointer :: (leafType element).toList
  | t => (leafType t).toList

theorem parse_step {parens parens' : Int8} {rest : List Char}
    (h : parseStep parens c rest = .ok (parens', type, next)) (prototype : List FfiType) :
    parse parens (c :: rest) prototype = parse parens' next (prototype ++ type.toList) := by
  rw [parse]
  split
  · next herror => simp [h] at herror
  · next hok =>
    have heq := Except.ok.inj (h.symm.trans hok)
    obtain ⟨rfl, rfl, rfl⟩ := heq
    rfl

theorem parseClass_name (name : ClassName) (rest : List Char) :
    parseClass (name.chars ++ ';' :: rest) = some rest := by
  have hdrop : (name.chars ++ ';' :: rest).dropWhile (· ≠ ';') = ';' :: rest := by
    rw [dropWhile_append_of_pos]
    · rfl
    · intro c hc
      exact decide_eq_true fun h => name.no_semicolon (h ▸ hc)
  rw [parseClass, hdrop]

theorem parseStep_primitive {type : FfiType} (h : primitiveType c = some type) (parens : Int8)
    (rest : List Char) : parseStep parens c rest = .ok (parens, some type, rest) := by
  unfold primitiveType at h
  split at h <;> cases h <;> rfl

theorem parseArray_text (element : JType) (rest : List Char) :
    ∃ next, parseArray (element.text ++ rest) = some next ∧ ∀ parens prototype,
      parse parens next prototype = parse parens rest (prototype ++ (leafType element).toList) := by
  induction element with
  | array element ih => exact ih
  | object name =>
    refine ⟨rest, ?_, fun parens prototype => by simp [leafType]⟩
    rw [JType.text, cons_append, append_assoc, singleton_append]
    exact parseClass_name name rest
  | _ => exact ⟨_, rfl, fun parens prototype => parse_step (parseStep_primitive rfl _ _) prototype⟩

/-- **A type of the signature becomes its part of the prototype.** -/
theorem parse_text (t : JType) (parens : Int8) (rest : List Char) (prototype : List FfiType) :
    parse parens (t.text ++ rest) prototype = parse parens rest (prototype ++ prototypeOf t) := by
  cases t with
  | object name =>
    have hstep : parseStep parens 'L' (name.chars ++ ';' :: rest) =
        .ok (parens, some .pointer, rest) := by
      simp only [parseStep, parseClass_name]
    rw [JType.text, cons_append, append_assoc, singleton_append, parse_step hstep]
    rfl
  | array element =>
    obtain ⟨next, hnext, hparse⟩ := parseArray_text element rest
    have hstep : parseStep parens '[' (element.text ++ rest) =
        .ok (parens, some .pointer, next) := by
      simp only [parseStep, hnext]
    rw [JType.text, cons_append, parse_step hstep, hparse, append_assoc]
    rfl
  | _ => exact parse_step (parseStep_primitive rfl _ _) prototype

theorem parse_params (params : List JType) (parens : Int8) (rest : List Char)
    (prototype : List FfiType) :
    parse parens (params.flatMap JType.text ++ rest) prototype =
      parse parens rest (prototype ++ params.flatMap prototypeOf) := by
  induction params generalizing prototype with
  | nil => simp
  | cons t params ih => rw [flatMap_cons, append_assoc, parse_text, ih, flatMap_cons, append_assoc]

def resultPrototype (result : Option JType) : List FfiType := (result.map prototypeOf).getD [.void]

theorem getFfiPrototype_eq (params : List JType) (result : Option JType) :
    getFfiPrototype (methodSignature params result) =
      .ok (params.flatMap prototypeOf ++ resultPrototype result) := by
  have hopen : ∀ parens rest, parseStep parens '(' rest = .ok (parens + 1, none, rest) :=
    fun _ _ => rfl
  have hclose : ∀ parens rest, parseStep parens ')' rest = .ok (parens + 1, none, rest) :=
    fun _ _ => rfl
  have hparens : (-2 + 1 + 1 : Int8) = 0 := by decide
  rw [getFfiPrototype, methodSignature, parse_step (hopen _ _), parse_params,
    parse_step (hclose _ _), hparens]
  rcases result with _ | t
  · have hvoid : parseStep 0 'V' [] = .ok (0, some .void, []) := rfl
    rw [Option.map_none, Option.getD_none, parse_step hvoid, parse, if_pos rfl]
    simp [resultPrototype]
  · rw [Option.map_some, Option.getD_some, ← append_nil t.text, parse_text, parse, if_pos rfl]
    simp [resultPrototype]

structure FfiCif where
  argTypes : List FfiType
  rtype : FfiType
  deriving DecidableEq

/-- What `descriptors` has for a hash; the pointer of a deleted descriptor stays. -/
inductive CifPtr where
  | null
  | live (cif : FfiCif)
  | deleted
  deriving DecidableEq

def prepCif (signature : List Char) : Except Fault FfiCif := do
  let args ← getFfiPrototype signature
  match args.getLast? with
  | none => .error .undefined
  | some rtype => .ok { argTypes := .pointer :: .pointer :: args.dropLast, rtype := rtype }

/-- A `JMethodID` of type `REGISTER_NATIVES_FUNC`. -/
structure NativeMethod (F : Type) where
  fnPtr : F
  descriptor : FfiCif

variable {F : Type}

def findDescriptor (hash : List Char → Nat) (descriptors : Nat → CifPtr) (signature : List Char) :
    Except Fault FfiCif :=
  match descriptors (hash signature) with
  | .null => prepCif signature
  | .live cif => .ok cif
  | .deleted => .error .undefined

/-- The constructor that `registerNatives` calls. -/
def newNativeMethod (hash : List Char → Nat) (descriptors : Nat → CifPtr) (signature : List Char)
    (fnPtr : F) : Except Fault (NativeMethod F × (Nat → CifPtr)) := do
  let cif ← findDescriptor hash descriptors signature
  -- `typeResolverGenerator` knows no resolver for `void`
  if .void ∈ cif.argTypes.drop 2 then
    .error (.runtimeError "FATAL: Could not resolve valid FFI type after parsing!")
  else .ok (⟨fnPtr, cif⟩, Function.update descriptors (hash signature) (.live cif))

section
variable {N : Floats} {O : Type} {args : List (JValue N O)} {params : List JType}

/-- The arguments of a call. -/
inductive ArgList (N : Floats) (O : Type) where
  | vaList (list : List (VaArg N O))
  | jvalues (values : List (JValue N O))

/-- The call that libffi is asked for; a value that was never written is missing. -/
structure NativeCall (F : Type) (N : Floats) (O : Type) where
  fnPtr : F
  values : List (Option (JValue N O))

/-- The cases of `_INTERNAL_INVOKE_VA_ARG`, with what `safe_va_arg` reads; there is none for
`uint8`. -/
def fetchValue (ofInt : BitVec 32 → N.Float) :
    FfiType → List (VaArg N O) → Option (Option (JValue N O) × List (VaArg N O))
  | .sint8, .int v :: list => some (some (.b (v.setWidth 8)), list)
  | .uint16, .int v :: list => some (some (.c (v.setWidth 16)), list)
  | .sint16, .int v :: list => some (some (.s (v.setWidth 16)), list)
  | .sint32, .int v :: list => some (some (.i v), list)
  | .float, .int v :: list => some (some (.f (ofInt v)), list)
  | .sint64, .long v :: list => some (some (.j v), list)
  | .double, .double v :: list => some (some (.d v), list)
  | .pointer, .pointer v :: list => some (some (.l v), list)
  | .uint8, list => some (none, list)
  | .void, list => some (none, list)
  | _, _ => none

def fetchValues (ofInt : BitVec 32 → N.Float) :
    List FfiType → List (VaArg N O) → Option (List (Option (JValue N O)))
  | [], _ => some []
  | type :: types, list => do
    let (value, list) ← fetchValue ofInt type list
    let values ← fetchValues ofInt types list
    some (value :: values)

/-- The values of a call; those for an array of `jvalue`s are allocated and left as they are. -/
def argumentValues (ofInt : BitVec 32 → N.Float) (types : List FfiType) :
    ArgList N O → Option (List (Option (JValue N O)))
  | .vaList list => fetchValues ofInt types list
  | .jvalues _ => some (types.map fun _ => none)

/-- `JMethodID::directInvoke` up to the call of libffi; `self` is the class or instance. -/
def directInvoke (ofInt : BitVec 32 → N.Float) (m : NativeMethod F) (env self : O)
    (args : ArgList N O) : Option (NativeCall F N O) := do
  let values ← argumentValues ofInt (m.descriptor.argTypes.drop 2) args
  some ⟨m.fnPtr, some (.l env) :: some (.l self) :: values⟩

/-! ## Which arguments arrive -/

/-- An array whose element type is parsed once more. -/
def PrimitiveArray : JType → Bool
  | .array element => (leafType element).isSome
  | _ => false

/-- The types whose arguments are fetched from a `va_list` as they were passed. -/
def Fetched : JType → Bool
  | .boolean => false
  | .float => false
  | t => !PrimitiveArray t

theorem length_prototypeOf (t : JType) :
    (prototypeOf t).length = if PrimitiveArray t then 2 else 1 := by
  cases t with
  | array element =>
    rcases hleaf : leafType element with _ | type
    · simp [prototypeOf, PrimitiveArray, hleaf]
    · simp [prototypeOf, PrimitiveArray, hleaf]
  | _ => rfl

theorem length_le_prototypes (params : List JType) :
    params.length ≤ (params.flatMap prototypeOf).length := by
  induction params with
  | nil => exact le_rfl
  | cons t params ih =>
    rw [flatMap_cons, length_append, length_cons, length_prototypeOf]
    split <;> omega

theorem not_primitiveArray_of_length (h : (params.flatMap prototypeOf).length = params.length) :
    ∀ t ∈ params, PrimitiveArray t = false := by
  induction params with
  | nil => simp
  | cons t params ih =>
    have hle := length_le_prototypes params
    rw [flatMap_cons, length_append, length_cons, length_prototypeOf] at h
    split at h
    · omega
    · next hfalse =>
      intro t' ht'
      rcases mem_cons.mp ht' with rfl | ht'
      · simpa using hfalse
      · exact ih (by omega) t' ht'

section
variable {ofInt : BitVec 32 → N.Float} {types : List FfiType} {list : List (VaArg N O)}
  {values : List (Option (JValue N O))}

theorem length_fetchValues (h : fetchValues ofInt types list = some values) :
    values.length = types.length := by
  induction types generalizing list values with
  | nil =>
    obtain rfl := Option.some.inj h
    rfl
  | cons type types ih =>
    obtain ⟨⟨value, rest⟩, -, h⟩ := Option.bind_eq_some_iff.mp h
    obtain ⟨others, hothers, h⟩ := Option.bind_eq_some_iff.mp h
    obtain rfl := Option.some.inj h
    rw [length_cons, length_cons, ih hothers]

theorem fetchValues_eq_cons_iff {type : FfiType} {value : Option (JValue N O)} :
    fetchValues ofInt (type :: types) list = some (value :: values) ↔
      ∃ rest, fetchValue ofInt type list = some (value, rest) ∧
        fetchValues ofInt types rest = some values := by
  constructor
  · intro h
    obtain ⟨⟨value', rest⟩, hfetch, h⟩ := Option.bind_eq_some_iff.mp h
    obtain ⟨values', hvalues, h⟩ := Option.bind_eq_some_iff.mp h
    obtain ⟨rfl, rfl⟩ := cons.inj (Option.some.inj h)
    exact ⟨rest, hfetch, hvalues⟩
  · rintro ⟨rest, hfetch, hvalues⟩
    rw [fetchValues, hfetch]
    simp only [Option.bind_eq_bind, Option.bind_some, hvalues]

end

variable (ofInt : BitVec 32 → N.Float)

/-- **One argument is fetched as it was passed**, or its type is none of those. -/
theorem fetchValues_cons_iff {t : JType} {v : JValue N O}
    (ht : t.Takes v) (harray : PrimitiveArray t = false) (types : List FfiType)
    (list : List (VaArg N O)) (values : List (Option (JValue N O))) :
    fetchValues ofInt (prototypeOf t ++ types) (v.promote.toList ++ list) =
        some (some v :: values) ↔
      Fetched t = true ∧ fetchValues ofInt types list = some values := by
  cases ht with
  | array element v =>
    have hleaf : leafType element = none := by simpa [PrimitiveArray] using harray
    simp [prototypeOf, hleaf, Fetched, harray, fetchValues_eq_cons_iff, fetchValue, JValue.promote]
  | boolean v | byte v | char v | short v | int v | long v | float v | double v | object name v =>
    simp [prototypeOf, leafType, Fetched, PrimitiveArray, fetchValues_eq_cons_iff, fetchValue,
      JValue.promote, Jnivm.setWidth_signExtend]

theorem fetchValues_params_iff
    (hargs : List.Forall₂ JType.Takes params args) (harray : ∀ t ∈ params, PrimitiveArray t = false)
    (more : List (VaArg N O)) :
    fetchValues ofInt (params.flatMap prototypeOf) (vaList args ++ more) =
        some (args.map some) ↔
      ∀ t ∈ params, Fetched t = true := by
  induction hargs with
  | nil => simp [fetchValues]
  | @cons t v params args ht _ ih =>
    rw [forall_mem_cons] at harray
    rw [vaList, flatMap_cons, flatMap_cons, append_assoc, map_cons,
      fetchValues_cons_iff ofInt ht harray.1, forall_mem_cons, ← ih harray.2]
    rfl

theorem dropLast_resultPrototype (result : Option JType) :
    (resultPrototype result).dropLast = [] ↔ ∀ t ∈ result, PrimitiveArray t = false := by
  rcases result with _ | t
  · simp [resultPrototype]
  · have hlength : (resultPrototype (some t)).dropLast.length = (prototypeOf t).length - 1 :=
      length_dropLast
    rw [← length_eq_zero_iff, hlength, length_prototypeOf]
    cases h : PrimitiveArray t <;> simp [h]

theorem fetchValues_iff (hargs : List.Forall₂ JType.Takes params args)
    (result : Option JType) (more : List (VaArg N O)) :
    fetchValues ofInt (params.flatMap prototypeOf ++ (resultPrototype result).dropLast)
        (vaList args ++ more) = some (args.map some) ↔
      (∀ t ∈ params, Fetched t = true) ∧ ∀ t ∈ result, PrimitiveArray t = false := by
  rw [← dropLast_resultPrototype]
  constructor
  · intro hfetch
    -- as many types as arguments: no parameter has two types, and the result has one
    have hlength := length_fetchValues hfetch
    have hle := length_le_prototypes params
    rw [length_map, ← hargs.length_eq, length_append] at hlength
    have hresult : (resultPrototype result).dropLast = [] := length_eq_zero_iff.mp (by omega)
    rw [hresult, append_nil] at hfetch
    exact ⟨(fetchValues_params_iff ofInt hargs (not_primitiveArray_of_length (by omega)) more).mp
      hfetch, hresult⟩
  · rintro ⟨hfetched, hresult⟩
    rw [hresult, append_nil, fetchValues_params_iff ofInt hargs ?_ more]
    · exact hfetched
    · intro t ht
      have := hfetched t ht
      cases t <;> simp_all [Fetched, PrimitiveArray]

/-- Values that were never written are the arguments only if there are none. -/
theorem unwritten_iff (hargs : List.Forall₂ JType.Takes params args) (result : Option JType) :
    some ((params.flatMap prototypeOf ++ (resultPrototype result).dropLast).map fun _ =>
        (none : Option (JValue N O))) = some (args.map some) ↔
      params = [] ∧ ∀ t ∈ result, PrimitiveArray t = false := by
  rw [← dropLast_resultPrototype, Option.some_inj]
  cases hargs with
  | nil =>
    rw [flatMap_nil, nil_append, map_nil, map_eq_nil_iff]
    simp only [true_and]
  | @cons t v params args ht hargs =>
    refine ⟨fun heq => ?_, fun h => absurd h.1 (cons_ne_nil _ _)⟩
    have hmem : some v ∈ ((t :: params).flatMap prototypeOf ++
        (resultPrototype result).dropLast).map fun _ => (none : Option (JValue N O)) := by
      rw [heq]
      exact mem_cons_self
    obtain ⟨_, _, hv⟩ := mem_map.mp hmem
    contradiction

def cifOf (params : List JType) (result : Option JType) : FfiCif where
  argTypes := .pointer :: .pointer ::
    (params.flatMap prototypeOf ++ (resultPrototype result).dropLast)
  rtype := (resultPrototype result).getLast?.getD .void

theorem prepCif_eq (params : List JType) (result : Option JType) :
    prepCif (methodSignature params result) = .ok (cifOf params result) := by
  have hne : resultPrototype result ≠ [] := by
    rcases result with _ | t
    · exact cons_ne_nil _ _
    · apply ne_nil_of_length_pos
      show 0 < (prototypeOf t).length
      rw [length_prototypeOf]
      split <;> omega
  obtain ⟨rtype, hrtype⟩ := getLast?_isSome.mpr hne |> Option.isSome_iff_exists.mp
  simp only [prepCif, getFfiPrototype_eq, bind, Except.bind, getLast?_append, hrtype,
    Option.some_or, dropLast_append_of_ne_nil hne, cifOf, Option.getD_some]

theorem void_notMem_prototypeOf (t : JType) : FfiType.void ∉ prototypeOf t := by
  have hleaf : ∀ t, FfiType.void ∉ (leafType t).toList := by
    intro t
    induction t with
    | array element ih => exact ih
    | _ => simp [leafType]
  cases t with
  | object name => simp [prototypeOf]
  | array element =>
    intro hmem
    rcases mem_cons.mp hmem with h | h
    · contradiction
    · exact hleaf element h
  | _ => simp [prototypeOf, leafType]

theorem void_notMem_cifOf (params : List JType) (result : Option JType) :
    FfiType.void ∉ (cifOf params result).argTypes.drop 2 := by
  intro hmem
  rcases mem_append.mp hmem with h | h
  · obtain ⟨t, _, ht⟩ := mem_flatMap.mp h
    exact void_notMem_prototypeOf t ht
  · rcases result with _ | t
    · simp [resultPrototype] at h
    · exact void_notMem_prototypeOf t (mem_of_mem_dropLast h)

/-- Without a descriptor under the hash, or with the one of the same signature. -/
def Current (hash : List Char → Nat) (descriptors : Nat → CifPtr) (signature : List Char) : Prop :=
  descriptors (hash signature) = .null ∨
    ∃ cif, prepCif signature = .ok cif ∧ descriptors (hash signature) = .live cif

theorem newNativeMethod_eq {hash : List Char → Nat} {descriptors : Nat → CifPtr}
    {result : Option JType} (h : Current hash descriptors (methodSignature params result))
    (fnPtr : F) :
    newNativeMethod hash descriptors (methodSignature params result) fnPtr =
      .ok (⟨fnPtr, cifOf params result⟩, Function.update descriptors
        (hash (methodSignature params result)) (.live (cifOf params result))) := by
  have hfind : findDescriptor hash descriptors (methodSignature params result) =
      .ok (cifOf params result) := by
    rcases h with hnull | ⟨cif, hcif, hlive⟩
    · rw [findDescriptor, hnull]
      exact prepCif_eq params result
    · rw [findDescriptor, hlive]
      exact hcif.symm.trans (prepCif_eq params result)
  rw [newNativeMethod, hfind]
  exact if_neg (void_notMem_cifOf params result)

def fullCall (fnPtr : F) (env self : O) (args : List (JValue N O)) : NativeCall F N O :=
  ⟨fnPtr, some (.l env) :: some (.l self) :: args.map some⟩

theorem directInvoke_eq_fullCall_iff (m : NativeMethod F)
    (env self : O) (list : ArgList N O) (args : List (JValue N O)) :
    directInvoke ofInt m env self list = some (fullCall m.fnPtr env self args) ↔
      argumentValues ofInt (m.descriptor.argTypes.drop 2) list = some (args.map some) := by
  rw [directInvoke]
  rcases argumentValues ofInt (m.descriptor.argTypes.drop 2) list with _ | values
  · simp
  · simp [fullCall]

/-- **Which natives get their arguments.** From a `va_list`, those without a `boolean` or `float`
parameter and without arrays of primitives. From an array, those without parameters and such a
result. -/
theorem native_gets_arguments_iff (hash : List Char → Nat) (descriptors : Nat → CifPtr)
    (ofInt : BitVec 32 → N.Float) (params : List JType) (result : Option JType)
    (args : List (JValue N O)) (more : List (VaArg N O)) (fnPtr : F) (env self : O)
    (hargs : List.Forall₂ JType.Takes params args)
    (hcurrent : Current hash descriptors (methodSignature params result)) :
    ∃ m descriptors',
      newNativeMethod hash descriptors (methodSignature params result) fnPtr =
        .ok (m, descriptors') ∧
      (directInvoke ofInt m env self (.vaList (vaList args ++ more)) =
          some (fullCall fnPtr env self args) ↔
        (∀ t ∈ params, Fetched t = true) ∧ ∀ t ∈ result, PrimitiveArray t = false) ∧
      (directInvoke ofInt m env self (.jvalues args) = some (fullCall fnPtr env self args) ↔
        params = [] ∧ ∀ t ∈ result, PrimitiveArray t = false) := by
  refine ⟨_, _, newNativeMethod_eq hcurrent fnPtr, ?_, ?_⟩
  · rw [directInvoke_eq_fullCall_iff ofInt ⟨fnPtr, cifOf params result⟩]
    exact fetchValues_iff ofInt hargs result more
  · rw [directInvoke_eq_fullCall_iff ofInt ⟨fnPtr, cifOf params result⟩]
    exact unwritten_iff hargs result

end

def exactOfInt (v : BitVec 32) : Floats.exact.Float := (v.toInt : ℚ)

theorem native_gets_arguments_iff_three :
    let name : ClassName := ⟨['S'], by decide, by decide⟩
    let params : List JType := [.byte, .object name, .long]
    let args : List (JValue Floats.exact Nat) := [.b 7, .l 3, .j 5]
    ∃ m descriptors',
      newNativeMethod (fun _ => 0) (fun _ => .null) (methodSignature params none) 'f' =
        .ok (m, descriptors') ∧
      directInvoke exactOfInt m 1 2 (.vaList (vaList args)) =
        some (fullCall 'f' 1 2 args) := by
  intro name params args
  obtain ⟨m, descriptors', hnew, hva, -⟩ := native_gets_arguments_iff
    (fun _ => 0) (fun _ => .null) exactOfInt params none args [] 'f' 1 2
    (.cons (.byte 7) (.cons (.object name 3) (.cons (.long 5) .nil))) (.inl rfl)
  exact ⟨m, descriptors', hnew, hva.mpr ⟨by decide, by simp⟩⟩

/-- `(Z)V` gets no value of a `va_list`, `(I)V` none of an array, and `([I)V` asks for an
argument that is not there. -/
theorem native_arguments_lost :
    let new := fun params =>
      newNativeMethod (fun _ => 0) (fun _ => .null) (methodSignature params none) 'f'
    let call := fun (params : List JType) (args : ArgList Floats.exact Nat) =>
      directInvoke exactOfInt ⟨'f', cifOf params none⟩ 1 2 args
    ((new [.boolean]).map Prod.fst = .ok ⟨'f', cifOf [.boolean] none⟩ ∧
      call [.boolean] (.vaList (vaList [.z 1])) = some ⟨'f', [some (.l 1), some (.l 2), none]⟩) ∧
    ((new [.int]).map Prod.fst = .ok ⟨'f', cifOf [.int] none⟩ ∧
      call [.int] (.jvalues [.i 7]) = some ⟨'f', [some (.l 1), some (.l 2), none]⟩) ∧
    ((new [.array .int]).map Prod.fst = .ok ⟨'f', cifOf [.array .int] none⟩ ∧
      call [.array .int] (.vaList (vaList [.l 3])) = none) := by
  intro new call
  have hnew : ∀ params, (new params).map Prod.fst = .ok ⟨'f', cifOf params none⟩ := by
    intro params
    exact congrArg (Except.map Prod.fst) (newNativeMethod_eq (.inl rfl) 'f')
  exact ⟨⟨hnew _, rfl⟩, ⟨hnew _, rfl⟩, ⟨hnew _, rfl⟩⟩

end FakeJni
