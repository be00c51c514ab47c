import McpeLauncher.JniCall

/-! # Exceptions of handlers

The functions of JNI are to catch what handlers throw and leave it as the pending exception. The
accesses of instance fields do not (`handler_exceptions_iff`). -/
namespace Jnivm

/-- What the accesses of a field with some receiver find. -/
structure FieldEnv (F E T : Type) where
  type : F → List Char
  getnativehandle : F → Option (Except E T)
  setnativehandle : F → Option (T → Except E Unit)
  defaultVal : List Char → T

namespace FieldEnv
variable {F E T : Type} (env : FieldEnv F E T)

/-- The value and the exception that is pending afterwards; what the getter throws leaves the
function. -/
def getField : Option F → Except E (T × Option E)
  | none => .ok (env.defaultVal [], none)
  | some fid => match env.getnativehandle fid with
    | none => .ok (env.defaultVal (env.type fid), none)
    | some result => result.map (·, none)

def setField (id : Option F) (value : T) : Except E (Option E) :=
  match id.bind env.setnativehandle with
  | none => .ok none
  | some handle => (handle value).map fun _ => none

def getStaticField : Option F → T × Option E
  | none => (env.defaultVal [], none)
  | some fid => match env.getnativehandle fid with
    | none => (env.defaultVal (env.type fid), none)
    | some (.ok value) => (value, none)
    | some (.error e) => (env.defaultVal (env.type fid), some e)

def setStaticField (id : Option F) (value : T) : Option E :=
  match id.bind env.setnativehandle with
  | none => none
  | some handle => match handle value with
    | .ok _ => none
    | .error e => some e

end FieldEnv

inductive Dispatch where
  | method
  | nonvirtual
  | static

/-- A function of JNI with its arguments.  The functions with `...` are those with a `va_list`. -/
inductive EntryPoint (N : Floats) (O M F T : Type) where
  | call (kind : Dispatch) (id : Option M) (param : List (JValue N O))
  | callV (kind : Dispatch) (id : Option M) (param : List (VaArg N O))
  | getField (static : Bool) (id : Option F)
  | setField (static : Bool) (id : Option F) (value : T)

section
variable {N : Floats} {O M F E T : Type} (methods : CallEnv N O M E T) (fields : FieldEnv F E T)

def CallEnv.find : Dispatch → M → Option M
  | .method => methods.findVirtualOverload
  | .nonvirtual => methods.findNonVirtualOverload
  | .static => some

/-- What is returned, if anything is, and the exception that is pending then; or what leaves the
function. -/
def enter : EntryPoint N O M F T → Except (Fault ⊕ E) (Option T × Option E)
  | .call kind id param => returned <| match kind with
    | .method => methods.callMethod id param
    | .nonvirtual => methods.callNonvirtualMethod id param
    | .static => methods.callStaticMethod id param
  | .callV kind id param => returned <| match kind with
    | .method => methods.callMethodV id param
    | .nonvirtual => methods.callNonvirtualMethodV id param
    | .static => methods.callStaticMethodV id param
  | .getField false id => ((fields.getField id).map fun r => (some r.1, r.2)).mapError .inr
  | .setField false id value => ((fields.setField id value).map (none, ·)).mapError .inr
  | .getField true fid => .ok ((fields.getStaticField fid).map some id)
  | .setField true id value => .ok (none, fields.setStaticField id value)
where
  returned (r : Except Fault (T × Option E)) : Except (Fault ⊕ E) (Option T × Option E) :=
    (r.map fun r => (some r.1, r.2)).mapError .inl

/-- The handler that is run throws `e`; the last argument is the default result then. -/
inductive Throws (e : E) : EntryPoint N O M F T → Option T → Prop
  | call {kind : Dispatch} {id mid : M} {param : List (JValue N O)}
      {handle : List (JValue N O) → Except E T} (hooked : (methods.nativehandle id).isSome)
      (find : methods.find kind id = some mid) (handler : methods.nativehandle mid = some handle)
      (throws : handle param = .error e) :
      Throws e (.call kind (some id) param) (some (methods.defaultVal (methods.signature mid)))
  | callV {kind : Dispatch} {id : M} {list : List (VaArg N O)} {param : List (JValue N O)}
      {result : Option T} (values : jValuesfromValist list (methods.signature id) = .ok param)
      (throws : Throws e (.call kind (some id) param) result) :
      Throws e (.callV kind (some id) list) result
  | getField {static : Bool} {fid : F} (throws : fields.getnativehandle fid = some (.error e)) :
      Throws e (.getField static (some fid)) (some (fields.defaultVal (fields.type fid)))
  | setField {static : Bool} {fid : F} {value : T} {handle : T → Except E Unit}
      (handler : fields.setnativehandle fid = some handle) (throws : handle value = .error e) :
      Throws e (.setField static (some fid) value) none

def EntryPoint.OfInstanceField : EntryPoint N O M F T → Prop
  | .getField static _ | .setField static _ _ => static = false
  | _ => False

variable {methods : CallEnv N O M E T} {fields : FieldEnv F E T} {e : E} {result : Option T}

theorem enter_call_of_throws {kind : Dispatch} {id : Option M} {param : List (JValue N O)}
    (h : Throws methods fields e (.call kind id param) result) :
    enter methods fields (.call kind id param) = .ok (result, some e) := by
  cases h with
  | @call _ id mid _ handle hooked find handler throws =>
    obtain ⟨first, hfirst⟩ := Option.isSome_iff_exists.mp hooked
    have hrun : methods.run (some mid) param =
        .ok (methods.defaultVal (methods.signature mid), some e) := by
      simp only [CallEnv.run, handler, throws]
    have hcall : methods.call (methods.find kind) (some id) param =
        .ok (methods.defaultVal (methods.signature mid), some e) := by
      simp only [CallEnv.call, hfirst, find, hrun]
    cases kind <;> exact congrArg enter.returned hcall

/-- The values are taken from the `va_list` before anything is caught, and nothing else is
different. -/
theorem enter_callV_of_values {kind : Dispatch} {id : M} {list : List (VaArg N O)}
    {param : List (JValue N O)}
    (h : jValuesfromValist list (methods.signature id) = .ok param) :
    enter methods fields (.callV kind (some id) list) =
      enter methods fields (.call kind (some id) param) := by
  cases kind <;> simp [enter, CallEnv.callMethodV, CallEnv.callNonvirtualMethodV,
    CallEnv.callStaticMethodV, h, Except.bind]

/-- **What a handler throws is pending afterwards, with the default result,** unless the field
of an instance is accessed: then it leaves the function. -/
theorem handler_exceptions_iff (methods : CallEnv N O M E T) (fields : FieldEnv F E T) (e : E)
    (entry : EntryPoint N O M F T) (result : Option T)
    (h : Throws methods fields e entry result) :
    (enter methods fields entry = .ok (result, some e) ↔ ¬ entry.OfInstanceField) ∧
      (entry.OfInstanceField → enter methods fields entry = .error (.inr e)) := by
  cases h with
  | call hooked find handler throws =>
    apply And.intro (iff_of_true _ id) False.elim
    exact enter_call_of_throws (.call hooked find handler throws)
  | callV values throws =>
    apply And.intro (iff_of_true _ id) False.elim
    exact (enter_callV_of_values values).trans (enter_call_of_throws throws)
  | @getField static fid throws =>
    cases static <;> simp [enter, FieldEnv.getField, FieldEnv.getStaticField, throws, Except.map,
      Except.mapError, EntryPoint.OfInstanceField]
  | @setField static fid value handle handler throws =>
    cases static <;> simp [enter, FieldEnv.setField, FieldEnv.setStaticField, handler, throws,
      Except.map, Except.mapError, EntryPoint.OfInstanceField]

end

def FieldEnv.throwing {T : Type} (value : T) : FieldEnv Unit Unit T where
  type _ := ['I']
  getnativehandle _ := some (.error ())
  setnativehandle _ := some fun _ => .error ()
  defaultVal _ := value

theorem handler_exceptions_static :
    enter (CallEnv.echo []) (FieldEnv.throwing []) (.getField true (some ())) =
      .ok (some [], some ()) :=
  (handler_exceptions_iff _ (FieldEnv.throwing []) () _ _ (.getField rfl)).1.2 nofun

/-- The exceptions leave `GetIntField` and `SetIntField`; `GetStaticIntField` catches them. -/
theorem handler_exception_escapes :
    (FieldEnv.throwing 0).getField (some ()) = .error () ∧
      (FieldEnv.throwing 0).setField (some ()) 7 = .error () ∧
      (FieldEnv.throwing 0).getStaticField (some ()) = (0, some ()) := by
  refine ⟨rfl, rfl, rfl⟩

end Jnivm
