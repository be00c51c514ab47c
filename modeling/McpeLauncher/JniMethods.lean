import McpeLauncher.ClassHierarchy
import McpeLauncher.JniCall

/-! # Methods of libjnivm

The classes with their vectors of methods, the three ways a method gets into such a vector (a
lookup of an id that is not there, a hook, a native registration), and the searches that the calls
make. -/
namespace Jnivm
open ClassHierarchy Function

/-- What a `nativehandle` points to. -/
inductive Handle where
  | raw (fnPtr : Nat)
  | wrapper (funk : Nat)
  deriving DecidableEq

structure Method where
  name : List Char
  signature : List Char
  static : Bool := false
  native : Bool := false
  nativehandle : Option Handle := none
  deriving DecidableEq

/-- What `baseclasses` returns, without the null pointers, and the full names. -/
structure Classes (K : Type) extends Hierarchy K where
  nativePrefix : K → List Char

structure MethodTable (K : Type) where
  /-- The methods that were made so far have the addresses below. -/
  size : Nat := 0
  method : Nat → Method := fun _ => ⟨[], [], false, false, none⟩
  /-- `Class::methods`. -/
  methods : K → List Nat := fun _ => []
  /-- `Class::natives`. -/
  natives : K → List Char → Option Nat := fun _ _ => none

namespace MethodTable
variable {K : Type} {t : MethodTable K} {a : Nat}

def find (t : MethodTable K) (cl : K) (p : Method → Bool) : Option Nat :=
  (t.methods cl).find? fun m => p (t.method m)

def getMethod (t : MethodTable K) (cl : K) (sig name : List Char) : Option Nat :=
  t.find cl fun m => m.name = name && m.signature = sig

/-- The search of `GetMethodID` in one class; natives are passed over. -/
def ownMethodID (t : MethodTable K) (isStatic : Bool) (name sig : List Char) (cl : K) :
    Option Nat :=
  t.find cl fun m => m.static = isStatic && !m.native && m.name = name && m.signature = sig

/-- `findNonVirtualOverload`; without a class it is the method itself. -/
def findNonVirtualOverload (t : MethodTable K) (cl : Option K) (mid : Nat) : Option Nat :=
  match cl with
  | none => some mid
  | some cl => t.find cl fun m =>
      !m.static && (t.method mid).name = m.name && (t.method mid).signature = m.signature &&
        m.nativehandle.isSome

/-- It goes on with the base class of `Method`, not of `cl`, a null pointer, so the next search is
the last and finds `mid`. -/
def findVirtualOverload (t : MethodTable K) (cl : Option K) (mid : Nat) : Option Nat :=
  match t.findNonVirtualOverload cl mid with
  | some r => some r
  | none => t.findNonVirtualOverload none mid

variable [DecidableEq K]

def push (t : MethodTable K) (cl : K) (m : Method) : MethodTable K :=
  { t with
    size := t.size + 1
    method := Function.update t.method t.size m
    methods := Function.update t.methods cl (t.methods cl ++ [t.size]) }

/-- The signature of a constructor: it returns the class. -/
def initSignature (nativePrefix sig : List Char) : List Char :=
  let params := match sig.dropWhile (· ≠ ')') with
    | [] => []
    | _ :: _ => sig.takeWhile (· ≠ ')') ++ [')']
  params ++ 'L' :: (nativePrefix ++ [';'])

/-- The search goes on in the base classes; what is nowhere found is made, without a handle. -/
def findMethodID (h : Classes K) (t : MethodTable K) (isStatic : Bool) (cl : K)
    (name sig : List Char) : Nat × MethodTable K :=
  match h.search (t.ownMethodID isStatic name sig) cl with
  | some m => (m, t)
  | none => (t.size, t.push cl { name := name, signature := sig, static := isStatic })

/-- `GetMethodID` and `GetStaticMethodID` for a class; a constructor is a static method. -/
def getMethodID (h : Classes K) (t : MethodTable K) (isStatic : Bool) (cl : K)
    (name sig : List Char) : Nat × MethodTable K :=
  if !isStatic && name = "<init>".toList then
    t.findMethodID h true cl name (initSignature (h.nativePrefix cl) sig)
  else t.findMethodID h isStatic cl name sig

/-- `FunctionBase::install`: the handle of the method is replaced, and nothing else of it. -/
def install (t : MethodTable K) (isStatic : Bool) (cl : K) (id ssig : List Char) (funk : Nat) :
    MethodTable K :=
  match t.find cl fun m => m.static = isStatic && m.name = id && m.signature = ssig with
  | some m =>
    { t with
      method := Function.update t.method m
        { t.method m with nativehandle := some (.wrapper funk) } }
  | none =>
    t.push cl { name := id, signature := ssig, static := isStatic,
                nativehandle := some (.wrapper funk) }

def registerNative (t : MethodTable K) (cl : K) (name sig : List Char) (fnPtr : Nat) :
    MethodTable K :=
  { t.push cl { name := name, signature := sig, native := true,
                nativehandle := some (.raw fnPtr) } with
    natives := Function.update t.natives cl (Function.update (t.natives cl) name (some fnPtr)) }

def registerNatives (t : MethodTable K) (cl : K)
    (methods : List (List Char × List Char × Nat)) : MethodTable K :=
  methods.foldl (fun t (name, sig, fnPtr) => t.registerNative cl name sig fnPtr) t

/-- `UnregisterNatives`; the methods stay. -/
def unregisterNatives (t : MethodTable K) (cl : K) : MethodTable K :=
  { t with natives := Function.update t.natives cl fun _ => none }

theorem push_method_new (t : MethodTable K) (cl : K) (m : Method) :
    (t.push cl m).method t.size = m := update_self _ _ _

theorem push_method (ha : a < t.size) (cl : K) (m : Method) :
    (t.push cl m).method a = t.method a := update_of_ne (ne_of_lt ha) _ _

theorem mem_push_methods {cl cl' : K} {m : Method} (ha : a ∈ (t.push cl m).methods cl') :
    a ∈ t.methods cl' ∨ a = t.size := by
  by_cases hcl : cl' = cl
  · subst hcl
    simp only [push, update_self, List.mem_append, List.mem_singleton] at ha
    exact ha
  · simp only [push, update_of_ne hcl] at ha
    exact .inl ha

variable {N : Floats} {O E T : Type}

omit [DecidableEq K] in
/-- With a receiver of the class `receiver`, and `clazz` given to nonvirtual calls; `run` calls a
handle. -/
def callEnv (t : MethodTable K) (receiver : K) (clazz : Option K)
    (run : Nat → Handle → List (JValue N O) → Except E T) (defaultVal : List Char → T) :
    CallEnv N O Nat E T where
  signature m := (t.method m).signature
  nativehandle m := (t.method m).nativehandle.map (run m)
  findVirtualOverload := t.findVirtualOverload (some receiver)
  findNonVirtualOverload := t.findNonVirtualOverload clazz
  defaultVal := defaultVal

end MethodTable
end Jnivm
