import McpeLauncher.FakeJniClasses
import McpeLauncher.FfiInvoke
import McpeLauncher.JniMethods
import McpeLauncher.Runs

/-! # Native registration

`RegisterNatives` and `UnregisterNatives` of libjnivm and of fake-jni. Both search the methods of a
class from the front, so the first registration is found; and `UnregisterNatives` of libjnivm leaves
the methods where they are. That of fake-jni destroys them, and with the last one of a signature its
libffi descriptor, whose pointer stays in the table for the next native of the signature. -/

/-! ## fake-jni -/

namespace FakeJni
open List Function

inductive MethodType where
  | staticFunc | memberFunc | registerNativesFunc | stlFunc | arbitraryStlFunc | composedFunc
  deriving DecidableEq

/-- A method descriptor with two addresses; those of a composed one are of the one it stands for. -/
structure JMethodID where
  addr : Nat
  nameAddr : Nat
  name : List Char
  signature : List Char
  type : MethodType
  fnPtr : Nat
  modifiers : Nat := 0
  adj : Nat := 0
  proxyFuncV : Nat := 0
  proxyFuncA : Nat := 0
  deriving DecidableEq

/-- `JMethodID::operator==`.  The names are compared by their addresses. -/
def JMethodID.same (m mid : JMethodID) : Bool :=
  m.nameAddr = mid.nameAddr && m.signature = mid.signature && m.type = mid.type &&
    m.modifiers = mid.modifiers &&
    (if m.type = .memberFunc then m.fnPtr = mid.fnPtr && m.adj = mid.adj
     else m.fnPtr = mid.fnPtr) &&
    m.proxyFuncV = mid.proxyFuncV && m.proxyFuncA = mid.proxyFuncA

def registerMethod (functions : List JMethodID) (mid : JMethodID) : Bool × List JMethodID :=
  if functions.any fun reg =>
      reg.same mid && reg.name = mid.name && reg.signature = mid.signature then
    (false, functions)
  else (true, functions ++ [mid])

/-- `JClass::unregisterMethod`: the entry with the pointer is taken out. -/
def unregisterMethod (functions : List JMethodID) (mid : JMethodID) : List JMethodID :=
  functions.eraseP fun m => m.addr = mid.addr

/-- The methods of a class; `next` is an address that is not in use, and neither are those
after it. -/
structure JClass where
  functions : List JMethodID
  next : Nat
  below : ∀ m ∈ functions, m.addr < next ∧ m.nameAddr < next
  addr_inj : ∀ m ∈ functions, ∀ m' ∈ functions, m.addr = m'.addr → m = m'

namespace JClass

/-- `new JMethodID(method)`, with a copy of the name; what the constructor does to `descriptors` is
in `NativeState.registerNative`. -/
def newMethodID (c : JClass) (name signature : List Char) (fnPtr : Nat) : JMethodID where
  addr := c.next
  nameAddr := c.next + 1
  name := name
  signature := signature
  type := .registerNativesFunc
  fnPtr := fnPtr

/-- The copy of the name is new, so no method is the same. -/
theorem registerMethod_newMethodID (c : JClass) (name signature : List Char) (fnPtr : Nat) :
    registerMethod c.functions (c.newMethodID name signature fnPtr) =
      (true, c.functions ++ [c.newMethodID name signature fnPtr]) := by
  refine if_neg ?_
  rw [any_eq_true]
  rintro ⟨reg, hreg, hsame⟩
  have haddr : reg.nameAddr = c.next + 1 := by
    simp only [JMethodID.same, newMethodID, Bool.and_eq_true] at hsame
    exact of_decide_eq_true hsame.1.1.1.1.1.1.1.1
  have := (c.below reg hreg).2
  omega

def registerNative (c : JClass) (name signature : List Char) (fnPtr : Nat) : JClass where
  functions := (registerMethod c.functions (c.newMethodID name signature fnPtr)).2
  next := c.next + 2
  below := by
    intro m hm
    rw [registerMethod_newMethodID, List.mem_append, List.mem_singleton] at hm
    rcases hm with hm | rfl
    · have := c.below m hm
      omega
    · exact ⟨Nat.lt_add_of_pos_right (by decide), Nat.lt_succ_self _⟩
  addr_inj := by
    intro m hm m' hm' haddr
    rw [registerMethod_newMethodID, List.mem_append, List.mem_singleton] at hm hm'
    rcases hm with hm | rfl <;> rcases hm' with hm' | rfl
    · exact c.addr_inj m hm m' hm' haddr
    · exact absurd haddr (Nat.ne_of_lt (c.below m hm).1)
    · exact absurd haddr.symm (Nat.ne_of_lt (c.below m' hm').1)
    · rfl

/-- The methods that `unregisterNatives` takes out, one after another. -/
def withoutNatives (c : JClass) : List JMethodID :=
  (c.functions.filter fun mid => mid.type = .registerNativesFunc).foldl unregisterMethod c.functions

variable {functions : List JMethodID}

theorem foldl_unregisterMethod_cons {mid : JMethodID} {toRemove : List JMethodID}
    (h : ∀ m ∈ toRemove, mid.addr ≠ m.addr) :
    toRemove.foldl unregisterMethod (mid :: functions) =
      mid :: toRemove.foldl unregisterMethod functions := by
  induction toRemove generalizing functions with
  | nil => rfl
  | cons m toRemove ih =>
    have hne : mid.addr ≠ m.addr := h m mem_cons_self
    rw [foldl_cons, unregisterMethod, eraseP_cons_of_neg (by simpa using hne)]
    exact ih fun m' hm' => h m' (mem_cons_of_mem _ hm')

/-- A method that is no native is none of those to remove. -/
theorem addr_ne_native {mid : JMethodID}
    (h : ∀ m ∈ mid :: functions, ∀ m' ∈ mid :: functions, m.addr = m'.addr → m = m')
    (htype : mid.type ≠ .registerNativesFunc) :
    ∀ m ∈ functions.filter fun mid => mid.type = .registerNativesFunc, mid.addr ≠ m.addr := by
  intro m hm haddr
  obtain ⟨hm, hnative⟩ := mem_filter.mp hm
  rw [h mid mem_cons_self m (mem_cons_of_mem _ hm) haddr] at htype
  exact htype (of_decide_eq_true hnative)

theorem foldl_unregisterMethod (h : ∀ m ∈ functions, ∀ m' ∈ functions, m.addr = m'.addr → m = m') :
    (functions.filter fun mid => mid.type = .registerNativesFunc).foldl unregisterMethod
      functions = functions.filter fun mid => mid.type ≠ .registerNativesFunc := by
  induction functions with
  | nil => rfl
  | cons mid functions ih =>
    have hrest := ih fun m hm m' hm' => h m (mem_cons_of_mem _ hm) m' (mem_cons_of_mem _ hm')
    by_cases htype : mid.type = .registerNativesFunc
    · rw [filter_cons_of_pos (by simpa using htype),
        filter_cons_of_neg (by simpa using htype), foldl_cons, unregisterMethod,
        eraseP_cons_of_pos (by simp)]
      exact hrest
    · rw [filter_cons_of_neg (by simpa using htype),
        filter_cons_of_pos (by simpa using htype),
        foldl_unregisterMethod_cons (addr_ne_native h htype), hrest]

theorem withoutNatives_eq (c : JClass) :
    c.withoutNatives = c.functions.filter fun mid => mid.type ≠ .registerNativesFunc :=
  foldl_unregisterMethod c.addr_inj

/-- The list of the class; the destructors are in `NativeState.unregisterNatives`. -/
def unregisterNatives (c : JClass) : JClass where
  functions := c.withoutNatives
  next := c.next
  below := by
    intro m hm
    rw [withoutNatives_eq] at hm
    exact c.below m (List.mem_filter.mp hm).1
  addr_inj := by
    intro m hm m' hm'
    rw [withoutNatives_eq] at hm hm'
    exact c.addr_inj m (List.mem_filter.mp hm).1 m' (List.mem_filter.mp hm').1

end JClass

def JClass.find (c : JClass) (sig name : List Char) : Option JMethodID :=
  c.functions.find? fun func => name = func.name && sig = func.signature

def getMethod {K : Type} [DecidableEq K] (h : JClasses K) (classes : K → JClass)
    (sig name : List Char) (clazz : K) : Option JMethodID :=
  h.walk (fun c => (classes c).find sig name) clazz

end FakeJni

namespace NativeRegistration
open List Function

/-- A name, a signature and a function, as in a `JNINativeMethod`. -/
structure Registration where
  name : List Char
  signature : List Char
  fnPtr : Nat

inductive NativeOp where
  | registerNatives (methods : List Registration)
  | unregisterNatives

def registrations (ops : List NativeOp) : List Registration :=
  ops.foldl (fun all op => match op with
    | .registerNatives methods => all ++ methods
    | .unregisterNatives => all) []

/-- What was registered since the last `UnregisterNatives`, and what was before. -/
structure History where
  current : List Registration := []
  retired : List Registration := []

def History.step (past : History) : NativeOp → History
  | .registerNatives methods => { past with current := past.current ++ methods }
  | .unregisterNatives => { current := [], retired := past.retired ++ past.current }

def current (ops : List NativeOp) : List Registration := (ops.foldl History.step {}).current

/-- The functions for a name and signature, in the order of their registration. -/
def functionsOf (all : List Registration) (name sig : List Char) : List Nat :=
  (all.filter fun r => r.name = name && r.signature = sig).map Registration.fnPtr

theorem functionsOf_append (all more : List Registration) (name sig : List Char) :
    functionsOf (all ++ more) name sig = functionsOf all name sig ++ functionsOf more name sig := by
  rw [functionsOf, filter_append, map_append]
  rfl

/-- The functions that are held after one registration more, and so after many. -/
theorem holds_registrations {σ : Type} {name sig : List Char} (Holds : List Nat → σ → Prop)
    {register : σ → Registration → σ}
    (hregister : ∀ fns s r, Holds fns s → Holds (fns ++ functionsOf [r] name sig) (register s r))
    {fns : List Nat} {s : σ} (hs : Holds fns s) (methods : List Registration) :
    Holds (fns ++ functionsOf methods name sig) (methods.foldl register s) := by
  induction methods generalizing fns s with
  | nil =>
    rw [functionsOf, filter_nil, map_nil, append_nil]
    exact hs
  | cons r methods ih =>
    have hrest := ih (hregister fns s r hs)
    rw [append_assoc, ← functionsOf_append] at hrest
    exact hrest

variable {K : Type} [DecidableEq K]

/-! ## Lookups in libjnivm -/

section Jnivm
open Jnivm

def jnivmStep (cl : K) (t : MethodTable K) : NativeOp → MethodTable K
  | .registerNatives methods =>
    t.registerNatives cl (methods.map fun r => (r.name, r.signature, r.fnPtr))
  | .unregisterNatives => t.unregisterNatives cl

def nativeFunction (m : Method) : Option Nat :=
  match m.native, m.nativehandle with
  | true, some (.raw fnPtr) => some fnPtr
  | _, _ => none

/-- The native function that `Class::getMethod` comes to, if any. -/
def jnivmLookup (t : MethodTable K) (cl : K) (name sig : List Char) : Option Nat :=
  ((t.getMethod cl sig name).map t.method).bind nativeFunction

def nativeMethod (name sig : List Char) (fnPtr : Nat) : Method :=
  { name := name, signature := sig, native := true, nativehandle := some (.raw fnPtr) }

/-- The methods of the name and signature are native and hold the functions. -/
structure JnivmHolds (cl : K) (name sig : List Char) (fns : List Nat) (t : MethodTable K) :
    Prop where
  listed : ∀ m ∈ t.methods cl, m < t.size
  found : ((t.methods cl).map t.method).filter (fun m => m.name = name && m.signature = sig) =
    fns.map (nativeMethod name sig)

variable {cl : K} {name sig : List Char} {fns : List Nat} {t : MethodTable K}

theorem JnivmHolds.registerNative (hh : JnivmHolds cl name sig fns t) (r : Registration) :
    JnivmHolds cl name sig (fns ++ functionsOf [r] name sig)
      (t.registerNative cl r.name r.signature r.fnPtr) := by
  have hmethods : (t.registerNative cl r.name r.signature r.fnPtr).methods cl =
      t.methods cl ++ [t.size] := update_self _ _ _
  have hold : ∀ m ∈ t.methods cl,
      (t.registerNative cl r.name r.signature r.fnPtr).method m = t.method m :=
    fun m hm => MethodTable.push_method (hh.listed m hm) cl _
  have hnew : (t.registerNative cl r.name r.signature r.fnPtr).method t.size =
      nativeMethod r.name r.signature r.fnPtr := MethodTable.push_method_new t cl _
  constructor
  · intro m hm
    rw [hmethods, mem_append, mem_singleton] at hm
    rcases hm with hm | rfl
    · exact Nat.lt_succ_of_lt (hh.listed m hm)
    · exact Nat.lt_succ_self _
  · rw [hmethods, map_append, map_congr_left hold, filter_append, hh.found,
      map_append, map_singleton, hnew]
    congr 1
    by_cases hr : r.name = name ∧ r.signature = sig
    · obtain ⟨rfl, rfl⟩ := hr
      simp [functionsOf, nativeMethod]
    · have hdec : (decide (r.name = name) && decide (r.signature = sig)) = false := by
        simpa using hr
      simp [functionsOf, nativeMethod, hdec]

theorem JnivmHolds.registerNatives (hh : JnivmHolds cl name sig fns t)
    (methods : List Registration) :
    JnivmHolds cl name sig (fns ++ functionsOf methods name sig)
      (t.registerNatives cl (methods.map fun r => (r.name, r.signature, r.fnPtr))) := by
  rw [MethodTable.registerNatives, foldl_map]
  exact holds_registrations (JnivmHolds cl name sig) (fun _ _ r hh => hh.registerNative r) hh
    methods

theorem JnivmHolds.run (hh : JnivmHolds cl name sig [] t) (ops : List NativeOp) :
    JnivmHolds cl name sig (functionsOf (registrations ops) name sig)
      (ops.foldl (jnivmStep cl) t) := by
  refine foldl_rel (r := fun all t => JnivmHolds cl name sig (functionsOf all name sig) t)
    hh ?_
  intro op _ all t hall
  cases op with
  | registerNatives methods =>
    rw [functionsOf_append]
    exact hall.registerNatives methods
  | unregisterNatives => exact ⟨hall.listed, hall.found⟩

omit [DecidableEq K] in
theorem JnivmHolds.lookup (hh : JnivmHolds cl name sig fns t) :
    jnivmLookup t cl name sig = fns.head? := by
  have hfound : (t.getMethod cl sig name).map t.method =
      fns.head?.map (nativeMethod name sig) := by
    rw [← head?_map, ← hh.found, head?_filter, find?_map]
    rfl
  rw [jnivmLookup, hfound]
  rcases fns with _ | ⟨fnPtr, fns⟩
  · rfl
  · rfl

end Jnivm

/-! ## Lookups in fake-jni -/

section FakeJni
open FakeJni

/-- A class with `JMethodID::descriptors`: how many natives have the hash, and its descriptor. -/
structure NativeState where
  cls : JClass
  counts : Nat → Nat
  descriptors : Nat → CifPtr
  undefined : Bool := false

namespace NativeState
variable (hash : List Char → Nat)

/-- `clazz->registerMethod(new JMethodID(method))`. The constructor counts the native before it
looks for the descriptor, and an exception takes neither back. -/
def registerNative (s : NativeState) (r : Registration) : Except Fault Unit × NativeState :=
  let h := hash r.signature
  let s := { s with counts := update s.counts h (s.counts h + 1) }
  match findDescriptor hash s.descriptors r.signature with
  | .error fault => (.error fault, s)
  | .ok cif =>
    let s := { s with descriptors := update s.descriptors h (.live cif) }
    -- `typeResolverGenerator` knows no resolver for `void`
    if .void ∈ cif.argTypes.drop 2 then
      (.error (.runtimeError "FATAL: Could not resolve valid FFI type after parsing!"), s)
    else (.ok (), { s with cls := s.cls.registerNative r.name r.signature r.fnPtr })

/-- The loop of `registerNatives`, which an exception leaves. -/
def registerNatives (s : NativeState) : List Registration → NativeState
  | [] => s
  | r :: methods =>
    match s.registerNative hash r with
    | (.ok (), s) => s.registerNatives methods
    | (.error (.runtimeError _), s) => s
    | (.error .undefined, s) => { s with undefined := true }

/-- `~JMethodID` of a native: the pointer to a deleted descriptor stays. -/
def destroy (s : NativeState) (signature : List Char) : NativeState :=
  let h := hash signature
  let s := { s with counts := update s.counts h (s.counts h - 1) }
  if s.counts h = 0 then
    match s.descriptors h with
    | .live _ => { s with descriptors := update s.descriptors h .deleted }
    | _ => { s with undefined := true }
  else s

def unregisterNatives (s : NativeState) : NativeState :=
  let natives := s.cls.functions.filter fun mid => mid.type = .registerNativesFunc
  { (natives.map JMethodID.signature).foldl (destroy hash) s with cls := s.cls.unregisterNatives }

def step (s : NativeState) : NativeOp → NativeState
  | .registerNatives methods => s.registerNatives hash methods
  | .unregisterNatives => s.unregisterNatives hash

end NativeState

/-- The native function that `JClass::getMethod` comes to, if any. -/
def fakeLookup (h : JClasses K) (classes : K → JClass) (clazz : K) (name sig : List Char) :
    Option Nat :=
  match FakeJni.getMethod h classes sig name clazz with
  | some m => if m.type = .registerNativesFunc then some m.fnPtr else none
  | none => none

/-- The methods of the name and signature are native and hold the functions. -/
structure FakeHolds (name sig : List Char) (fns : List Nat) (c : JClass) : Prop where
  native : ∀ m ∈ c.functions, m.name = name → m.signature = sig → m.type = .registerNativesFunc
  found : (c.functions.filter fun m => name = m.name && sig = m.signature).map JMethodID.fnPtr =
    fns

variable {name sig : List Char} {fns : List Nat} {c : JClass}

theorem registerNative_functions (c : JClass) (name signature : List Char) (fnPtr : Nat) :
    (c.registerNative name signature fnPtr).functions =
      c.functions ++ [c.newMethodID name signature fnPtr] :=
  congrArg Prod.snd (c.registerMethod_newMethodID name signature fnPtr)

theorem FakeHolds.registerNative (hh : FakeHolds name sig fns c) (r : Registration) :
    FakeHolds name sig (fns ++ functionsOf [r] name sig)
      (c.registerNative r.name r.signature r.fnPtr) := by
  constructor
  · intro m hm hname hsig
    rw [registerNative_functions, mem_append, mem_singleton] at hm
    rcases hm with hm | rfl
    · exact hh.native m hm hname hsig
    · rfl
  · rw [registerNative_functions, filter_append, map_append, hh.found]
    congr 1
    by_cases hr : name = r.name ∧ sig = r.signature
    · obtain ⟨rfl, rfl⟩ := hr
      simp [functionsOf, JClass.newMethodID]
    · have hdec : (decide (name = r.name) && decide (sig = r.signature)) = false := by
        simpa using hr
      simp [functionsOf, JClass.newMethodID, hdec, eq_comm (a := r.name),
        eq_comm (a := r.signature)]

theorem FakeHolds.unregisterNatives (hh : FakeHolds name sig fns c) :
    FakeHolds name sig [] c.unregisterNatives := by
  have hfunctions : c.unregisterNatives.functions =
      c.functions.filter fun mid => mid.type ≠ .registerNativesFunc := c.withoutNatives_eq
  constructor
  · intro m hm hname hsig
    rw [hfunctions] at hm
    exact hh.native m (mem_filter.mp hm).1 hname hsig
  · rw [hfunctions, filter_filter, map_eq_nil_iff, filter_eq_nil_iff]
    intro m hm hboth
    simp only [Bool.and_eq_true, decide_eq_true_eq] at hboth
    exact hboth.2 (hh.native m hm hboth.1.1.symm hboth.1.2.symm)

theorem FakeHolds.find (hh : FakeHolds name sig fns c) :
    (c.find sig name).map JMethodID.fnPtr = fns.head? := by
  rw [← hh.found, head?_map, head?_filter]
  rfl

theorem FakeHolds.lookup {h : JClasses K} {classes : K → JClass} {clazz : K}
    (hh : FakeHolds name sig fns c) (hclazz : clazz ≠ h.object)
    (hup : ∀ a, h.Above clazz a → a ≠ clazz → a ≠ h.object → (classes a).find sig name = none) :
    fakeLookup h (update classes clazz c) clazz name sig = fns.head? := by
  rw [← hh.find, fakeLookup, FakeJni.getMethod]
  rcases hfind : c.find sig name with _ | m
  · have hnone : h.walk (fun a => (update classes clazz c a).find sig name) clazz = none := by
      rw [JClasses.walk_eq_none_iff]
      intro a ha hne
      by_cases haclazz : a = clazz
      · rw [haclazz, update_self, hfind]
      · rw [update_of_ne haclazz]
        exact hup a ha haclazz hne
    rw [hnone]
    rfl
  · have htype : m.type = .registerNativesFunc := by
      have hpair := find?_some hfind
      simp only [Bool.and_eq_true, decide_eq_true_eq] at hpair
      exact hh.native m (mem_of_find?_eq_some hfind) hpair.1.symm hpair.2.symm
    rw [JClasses.walk_of_some hclazz (by rw [update_self, hfind])]
    simp [htype]

/-! ## Descriptors that are used again -/

section
variable {hash : List Char → Nat} {start s : NativeState} {past : History} {r : Registration}
  {h : Nat}

/-- The descriptor was deleted at the start, or with the last native of the class that had it while
no other class used it. -/
def Freed (hash : List Char → Nat) (start : NativeState) (past : History) (h : Nat) : Prop :=
  start.descriptors h = .deleted ∨
    start.counts h = 0 ∧ ∃ r ∈ past.retired, hash r.signature = h

/-- No native is registered whose descriptor is deleted. -/
def Intact (hash : List Char → Nat) (start : NativeState) (past : History) : NativeOp → Prop
  | .registerNatives methods => ∀ r ∈ methods, ¬ Freed hash start past (hash r.signature)
  | .unregisterNatives => True

def WellFormed (r : Registration) : Prop :=
  ∃ params result, r.signature = Jnivm.methodSignature params result

/-- The class and the table after what was registered and retired. -/
structure Follows (hash : List Char → Nat) (start : NativeState) (name sig : List Char)
    (past : History) (s : NativeState) : Prop where
  holds : FakeHolds name sig (functionsOf past.current name sig) s.cls
  natives : (s.cls.functions.filter fun mid => mid.type = .registerNativesFunc).map
    JMethodID.signature = past.current.map Registration.signature
  counts : ∀ h, s.counts h =
    start.counts h + (past.current.map Registration.signature).countP (hash · = h)
  live : ∀ r ∈ past.current, ∃ cif, s.descriptors (hash r.signature) = .live cif
  deleted : ∀ h, s.descriptors h = .deleted ↔ Freed hash start past h
  prepared : ∀ h cif, s.descriptors h = .live cif → .void ∉ cif.argTypes.drop 2

/-- A descriptor that is not deleted is there, or the signature gives one. -/
theorem Follows.findDescriptor (hs : Follows hash start name sig past s) (hr : WellFormed r)
    (hintact : ¬ Freed hash start past (hash r.signature)) :
    ∃ cif, FakeJni.findDescriptor hash s.descriptors r.signature = .ok cif ∧
      .void ∉ cif.argTypes.drop 2 := by
  rw [FakeJni.findDescriptor]
  rcases hptr : s.descriptors (hash r.signature) with _ | cif | _
  · obtain ⟨params, result, hsig⟩ := hr
    rw [hsig]
    exact ⟨_, prepCif_eq params result, void_notMem_cifOf params result⟩
  · exact ⟨cif, rfl, hs.prepared _ cif hptr⟩
  · exact absurd ((hs.deleted _).mp hptr) hintact

theorem Follows.registerNative (hs : Follows hash start name sig past s) (hr : WellFormed r)
    (hintact : ¬ Freed hash start past (hash r.signature)) :
    ∃ s', s.registerNative hash r = (.ok (), s') ∧ s'.undefined = s.undefined ∧
      Follows hash start name sig { past with current := past.current ++ [r] } s' := by
  obtain ⟨cif, hfind, hvoid⟩ := hs.findDescriptor hr hintact
  refine ⟨{ s with
    cls := s.cls.registerNative r.name r.signature r.fnPtr
    counts := update s.counts (hash r.signature) (s.counts (hash r.signature) + 1)
    descriptors := update s.descriptors (hash r.signature) (.live cif) }, ?_, rfl, ?_⟩
  · simp only [NativeState.registerNative, hfind, hvoid, if_false]
  · constructor
    · rw [functionsOf_append]
      exact hs.holds.registerNative r
    · rw [registerNative_functions, filter_append, map_append, hs.natives, map_append]
      rfl
    · intro h
      rw [map_append, countP_append, ← Nat.add_assoc, ← hs.counts]
      by_cases hh : h = hash r.signature
      · simp [hh]
      · simp [hh, Ne.symm hh]
    · intro q hq
      by_cases hh : hash q.signature = hash r.signature
      · exact ⟨cif, by rw [hh]; exact update_self _ _ _⟩
      · have hold : q ∈ past.current := by
          rcases mem_append.mp hq with hq | hq
          · exact hq
          · exact absurd (by rw [mem_singleton.mp hq]) hh
        obtain ⟨cif', hlive⟩ := hs.live q hold
        exact ⟨cif', (update_of_ne hh _ _).trans hlive⟩
    · intro h
      show update s.descriptors _ _ h = .deleted ↔ Freed hash start past h
      by_cases hh : h = hash r.signature
      · rw [hh, update_self]
        exact iff_of_false (by simp) hintact
      · rw [update_of_ne hh]
        exact hs.deleted h
    · intro h cif' hlive
      by_cases hh : h = hash r.signature
      · rw [hh] at hlive
        obtain rfl := CifPtr.live.inj ((update_self _ _ _).symm.trans hlive)
        exact hvoid
      · exact hs.prepared h cif' ((update_of_ne hh _ _).symm.trans hlive)

/-- The pointer to the deleted descriptor is read. -/
theorem Follows.registerNative_freed (hs : Follows hash start name sig past s)
    (hfreed : Freed hash start past (hash r.signature)) :
    (s.registerNative hash r).1 = .error .undefined := by
  simp only [NativeState.registerNative, FakeJni.findDescriptor, (hs.deleted _).mpr hfreed]

theorem Follows.registerNatives (hs : Follows hash start name sig past s)
    {methods : List Registration} (hmethods : ∀ r ∈ methods, WellFormed r)
    (hdefined : s.undefined = false) :
    ((s.registerNatives hash methods).undefined = false ↔
      Intact hash start past (.registerNatives methods)) ∧
    (Intact hash start past (.registerNatives methods) →
      Follows hash start name sig (past.step (.registerNatives methods))
        (s.registerNatives hash methods)) := by
  induction methods generalizing past s with
  | nil =>
    refine ⟨iff_of_true hdefined (by simp [Intact]), fun _ => ?_⟩
    rw [History.step, append_nil]
    exact hs
  | cons r methods ih =>
    obtain ⟨hr, hmethods⟩ := forall_mem_cons.mp hmethods
    rw [Intact, forall_mem_cons]
    by_cases hfreed : Freed hash start past (hash r.signature)
    · have hundefined : (s.registerNatives hash (r :: methods)).undefined = true := by
        have herror := hs.registerNative_freed hfreed
        rw [NativeState.registerNatives]
        split
        · simp_all
        · simp_all
        · rfl
      rw [hundefined]
      exact ⟨iff_of_false (by simp) fun h => h.1 hfreed, fun h => absurd hfreed h.1⟩
    · obtain ⟨s', hs', hundefined, hfollows⟩ := hs.registerNative hr hfreed
      have hrest := ih hfollows hmethods (hundefined.trans hdefined)
      rw [NativeState.registerNatives, hs', and_iff_right hfreed]
      rw [History.step, append_assoc] at hrest
      exact hrest

/-- The descriptors whose only users are destroyed are deleted, each once. -/
theorem foldl_destroy {others : Nat → Nat} {signatures : List (List Char)}
    (hcounts : ∀ h, s.counts h = others h + signatures.countP (hash · = h))
    (hlive : ∀ signature ∈ signatures, ∃ cif, s.descriptors (hash signature) = .live cif) :
    ∃ descriptors, signatures.foldl (NativeState.destroy hash) s =
        { s with counts := others, descriptors := descriptors } ∧
      ∀ h, descriptors h = if others h = 0 ∧ ∃ signature ∈ signatures, hash signature = h
        then .deleted else s.descriptors h := by
  induction signatures generalizing s with
  | nil =>
    have : s.counts = others := funext hcounts
    exact ⟨s.descriptors, by rw [foldl_nil, ← this], by simp⟩
  | cons signature signatures ih =>
    obtain ⟨⟨cif, hcif⟩, hlive⟩ := forall_mem_cons.mp hlive
    have hrest : ∀ h, update s.counts (hash signature) (s.counts (hash signature) - 1) h =
        others h + signatures.countP (hash · = h) := by
      intro h
      have hcount := hcounts h
      rw [countP_cons] at hcount
      by_cases hh : h = hash signature
      · rw [hh, update_self, ← hh, hcount]
        simp [hh]
      · rw [update_of_ne hh, hcount]
        simp [Ne.symm hh]
    rw [foldl_cons, NativeState.destroy]
    by_cases hlast : update s.counts (hash signature) (s.counts (hash signature) - 1)
        (hash signature) = 0
    · -- no other native has the descriptor
      have hnone := hlast
      rw [hrest, Nat.add_eq_zero_iff, countP_eq_zero] at hnone
      have hlive' : ∀ other ∈ signatures, ∃ cif,
          update s.descriptors (hash signature) .deleted (hash other) = .live cif := by
        intro other hother
        rw [update_of_ne (by simpa using hnone.2 other hother)]
        exact hlive other hother
      obtain ⟨descriptors, hfold, hdescriptors⟩ := ih (s := { s with
        counts := update s.counts (hash signature) (s.counts (hash signature) - 1)
        descriptors := update s.descriptors (hash signature) .deleted }) hrest hlive'
      refine ⟨descriptors, ?_, fun h => ?_⟩
      · dsimp only
        rw [if_pos hlast, hcif]
        exact hfold
      · rw [hdescriptors]
        by_cases hh : h = hash signature
        · simp [hh, hnone.1]
        · simp [hh, Ne.symm hh]
    · obtain ⟨descriptors, hfold, hdescriptors⟩ := ih (s := { s with
        counts := update s.counts (hash signature) (s.counts (hash signature) - 1) }) hrest hlive
      refine ⟨descriptors, ?_, fun h => ?_⟩
      · dsimp only
        rw [if_neg hlast]
        exact hfold
      · rw [hdescriptors]
        refine if_congr (and_congr_right fun hzero => ?_) rfl rfl
        rw [exists_mem_cons_iff, or_iff_right_of_imp]
        rintro rfl
        rw [hrest, hzero, Nat.zero_add, countP_eq_zero] at hlast
        simpa using hlast

theorem Follows.unregisterNatives (hs : Follows hash start name sig past s) :
    (s.unregisterNatives hash).undefined = s.undefined ∧
      Follows hash start name sig (past.step .unregisterNatives) (s.unregisterNatives hash) := by
  obtain ⟨descriptors, hfold, hdescriptors⟩ := foldl_destroy hs.counts (by
    rw [forall_mem_map]
    exact hs.live)
  have heq : s.unregisterNatives hash =
      ⟨s.cls.unregisterNatives, start.counts, descriptors, s.undefined⟩ := by
    rw [NativeState.unregisterNatives, hs.natives, hfold]
  rw [heq]
  refine ⟨rfl, hs.holds.unregisterNatives, ?_, fun h => rfl, by simp [History.step], ?_, ?_⟩
  · show (s.cls.withoutNatives.filter _).map _ = []
    rw [s.cls.withoutNatives_eq, filter_filter]
    simp
  · intro h
    have hretired : Freed hash start (past.step .unregisterNatives) h ↔
        Freed hash start past h ∨ start.counts h = 0 ∧
          ∃ signature ∈ past.current.map Registration.signature, hash signature = h := by
      simp only [Freed, History.step, mem_append, or_and_right, exists_or, and_or_left, or_assoc,
        mem_map, exists_exists_and_eq_and]
    rw [hretired, ← hs.deleted]
    show descriptors h = .deleted ↔ _
    rw [hdescriptors]
    split
    · rename_i hlast
      exact iff_of_true rfl (.inr hlast)
    · rename_i hlast
      exact (or_iff_left hlast).symm
  · intro h cif hlive
    have hkept := hdescriptors h
    rw [show descriptors h = .live cif from hlive] at hkept
    split at hkept
    · exact absurd hkept (by simp)
    · exact hs.prepared h cif hkept.symm

/-- One call of the history: what is undefined, and what follows. -/
theorem Follows.step (hs : Follows hash start name sig past s) {op : NativeOp}
    (hop : ∀ methods, op = .registerNatives methods → ∀ r ∈ methods, WellFormed r)
    (hdefined : s.undefined = false) :
    ((s.step hash op).undefined = false ↔ Intact hash start past op) ∧
    (Intact hash start past op →
      Follows hash start name sig (past.step op) (s.step hash op)) := by
  cases op with
  | registerNatives methods => exact hs.registerNatives (hop methods rfl) hdefined
  | unregisterNatives =>
    obtain ⟨hundefined, hnext⟩ := hs.unregisterNatives
    exact ⟨iff_of_true (hundefined.trans hdefined) trivial, fun _ => hnext⟩

theorem undefined_step (hs : s.undefined = true) (op : NativeOp) :
    (s.step hash op).undefined = true := by
  have hregister : ∀ (s : NativeState) r, (s.registerNative hash r).2.undefined = s.undefined := by
    intro s r
    simp only [NativeState.registerNative]
    split
    · rfl
    · split <;> rfl
  have hdestroy : ∀ (s : NativeState) signature, s.undefined = true →
      (s.destroy hash signature).undefined = true := by
    intro s signature hs
    simp only [NativeState.destroy]
    split
    · split
      · exact hs
      · rfl
    · exact hs
  cases op with
  | registerNatives methods =>
    show (s.registerNatives hash methods).undefined = true
    induction methods generalizing s with
    | nil => exact hs
    | cons r methods ih =>
      have hnext := (hregister s r).trans hs
      rw [NativeState.registerNatives]
      split
      · rename_i hcall
        rw [hcall] at hnext
        exact ih hnext
      · rename_i hcall
        rw [hcall] at hnext
        exact hnext
      · rfl
  | unregisterNatives => exact Runs.invariant_all _ hdestroy hs _

/-- **What is undefined.**  A run reads a deleted descriptor exactly if a native is registered whose
descriptor is deleted. -/
theorem Follows.run (hs : Follows hash start name sig past s) (hdefined : s.undefined = false)
    {ops : List NativeOp}
    (hops : ∀ methods, .registerNatives methods ∈ ops → ∀ r ∈ methods, WellFormed r) :
    ((ops.foldl (NativeState.step hash) s).undefined = false ↔
      Runs.Along History.step (Intact hash start) past ops) ∧
    (Runs.Along History.step (Intact hash start) past ops →
      Follows hash start name sig (ops.foldl History.step past)
        (ops.foldl (NativeState.step hash) s)) := by
  induction ops generalizing past s with
  | nil => exact ⟨iff_of_true hdefined trivial, fun _ => hs⟩
  | cons op ops ih =>
    obtain ⟨hintact, hnext⟩ := hs.step (fun methods hop => hops methods (hop ▸ mem_cons_self))
      hdefined
    rw [foldl_cons, foldl_cons, Runs.Along]
    by_cases h : Intact hash start past op
    · obtain ⟨hrest, hfollows⟩ := ih (hnext h) (hintact.mpr h) fun methods hmem =>
        hops methods (mem_cons_of_mem _ hmem)
      exact ⟨hrest.trans (and_iff_right h).symm, fun hall => hfollows hall.2⟩
    · have hfirst : (s.step hash op).undefined = true :=
        Bool.eq_true_of_not_eq_false fun hdefined => h (hintact.mp hdefined)
      have hundefined : (ops.foldl (NativeState.step hash) (s.step hash op)).undefined = true :=
        Runs.invariant_all (fun s : NativeState => s.undefined = true)
          (fun _ op hs => undefined_step hs op) hfirst ops
      rw [hundefined]
      exact ⟨iff_of_false (by simp) fun hall => h hall.1, fun hall => absurd hall.1 h⟩

/-- No native of the class is registered yet, and no method of the name and signature. -/
structure Unregistered (name sig : List Char) (s : NativeState) : Prop where
  missing : FakeHolds name sig [] s.cls
  natives : ∀ mid ∈ s.cls.functions, mid.type ≠ .registerNativesFunc
  prepared : ∀ h cif, s.descriptors h = .live cif → .void ∉ cif.argTypes.drop 2
  defined : s.undefined = false

theorem Unregistered.follows (hstart : Unregistered name sig start) (hash : List Char → Nat) :
    Follows hash start name sig {} start where
  holds := hstart.missing
  natives := by
    rw [filter_eq_nil_iff.mpr (by simpa using hstart.natives)]
    rfl
  counts h := rfl
  live := by simp
  deleted h := by simp [Freed]
  prepared := hstart.prepared

end

end FakeJni

open Jnivm FakeJni in
/-- **The first registration wins.** On a class without another method of the name and signature,
libjnivm finds the first function registered, fake-jni the first since `unregisterNatives`; so the
last one is found exactly where it is that one, and in fake-jni no native was registered whose
descriptor had been deleted. -/
theorem last_registration_iff {cl : K} {t : MethodTable K} {name sig : List Char}
    (ht : JnivmHolds cl name sig [] t) {h : JClasses K} {classes : K → JClass} {clazz : K}
    (hclazz : clazz ≠ h.object)
    (hup : ∀ a, h.Above clazz a → a ≠ clazz → a ≠ h.object → (classes a).find sig name = none)
    {start : NativeState} (hstart : Unregistered name sig start) (hash : List Char → Nat)
    {ops : List NativeOp}
    (hops : ∀ methods, .registerNatives methods ∈ ops → ∀ r ∈ methods, WellFormed r) :
    (jnivmLookup (ops.foldl (jnivmStep cl) t) cl name sig =
        (functionsOf (current ops) name sig).getLast? ↔
      (functionsOf (registrations ops) name sig).head? =
        (functionsOf (current ops) name sig).getLast?) ∧
    ((ops.foldl (NativeState.step hash) start).undefined = false ∧
        fakeLookup h (Function.update classes clazz (ops.foldl (NativeState.step hash) start).cls)
          clazz name sig = (functionsOf (current ops) name sig).getLast? ↔
      Runs.Along History.step (Intact hash start) {} ops ∧
        (functionsOf (current ops) name sig).head? =
          (functionsOf (current ops) name sig).getLast?) := by
  obtain ⟨hdefined, hfollows⟩ := (hstart.follows hash).run hstart.defined hops
  refine ⟨by rw [(ht.run ops).lookup], ?_⟩
  rw [hdefined]
  refine and_congr_right fun hintact => ?_
  rw [(hfollows hintact).holds.lookup hclazz hup]
  rfl

def emptyClass : FakeJni.JClass := ⟨[], 0, by simp, by simp⟩

theorem emptyTable_holds {K : Type} (cl : K) (name sig : List Char) :
    JnivmHolds cl name sig [] ({} : Jnivm.MethodTable K) :=
  ⟨by simp, rfl⟩

def objectAndOne : FakeJni.JClasses Bool where
  object := false
  parent _ := false
  depth c := c.toNat
  depth_lt := by decide

open FakeJni in
/-- An empty class; as many natives of other classes have each descriptor. -/
def emptyState (others : Nat) : NativeState where
  cls := emptyClass
  counts _ := others
  descriptors _ := if others = 0 then .null else .live (cifOf [] none)

open FakeJni in
theorem emptyState_unregistered (others : Nat) (name sig : List Char) :
    Unregistered name sig (emptyState others) := by
  refine ⟨⟨by simp [emptyState, emptyClass], rfl⟩, by simp [emptyState, emptyClass], ?_, rfl⟩
  intro _ cif hlive
  have hcif : cif = cifOf [] none := by
    simp only [emptyState] at hlive
    split at hlive
    · contradiction
    · exact (CifPtr.live.inj hlive).symm
  rw [hcif]
  exact void_notMem_cifOf [] none

/-- `f` is registered after a registration that was taken back, which libjnivm still finds. -/
def onceAgain : List NativeOp :=
  [.registerNatives [⟨['f'], "()V".toList, 1⟩], .unregisterNatives,
    .registerNatives [⟨['f'], "()V".toList, 2⟩]]

theorem wellFormed_void (fnPtr : Nat) : WellFormed ⟨['f'], ['(', ')', 'V'], fnPtr⟩ :=
  ⟨[], none, rfl⟩

theorem onceAgain_wellFormed :
    ∀ methods, .registerNatives methods ∈ onceAgain → ∀ r ∈ methods, WellFormed r := by
  simp [onceAgain, wellFormed_void]

/-- The descriptor of `()V` is not deleted where another class has a native of the signature. -/
theorem last_registration_iff_once :
    jnivmLookup (onceAgain.foldl (jnivmStep true) {}) true ['f'] "()V".toList ≠ some 2 ∧
    (onceAgain.foldl (NativeState.step List.length) (emptyState 1)).undefined = false ∧
    fakeLookup objectAndOne (Function.update (fun _ => emptyClass) true
      (onceAgain.foldl (NativeState.step List.length) (emptyState 1)).cls) true ['f']
        "()V".toList = some 2 := by
  have hup : ∀ a, objectAndOne.Above true a → a ≠ true → a ≠ objectAndOne.object →
      emptyClass.find "()V".toList ['f'] = none := fun _ _ _ _ => rfl
  obtain ⟨hjnivm, hfake⟩ := last_registration_iff (emptyTable_holds true _ _) (by decide) hup
    (emptyState_unregistered 1 ['f'] "()V".toList) List.length onceAgain_wellFormed
  refine ⟨fun hfound => absurd (hjnivm.mp hfound) (by decide), hfake.mpr ⟨?_, by decide⟩⟩
  simp [onceAgain, Runs.Along, Intact, Freed, emptyState]

/-- `f` is registered twice, and both find the first function; registered again after
`UnregisterNatives`, fake-jni reads a deleted descriptor. -/
theorem second_registration_lost :
    let ops : List NativeOp :=
      [.registerNatives [⟨['f'], "()V".toList, 1⟩, ⟨['f'], "()V".toList, 2⟩]]
    (functionsOf (current ops) ['f'] "()V".toList).getLast? = some 2 ∧
    jnivmLookup (ops.foldl (jnivmStep true) {}) true ['f'] "()V".toList = some 1 ∧
    fakeLookup objectAndOne (Function.update (fun _ => emptyClass) true
      (ops.foldl (NativeState.step List.length) (emptyState 0)).cls) true ['f']
        "()V".toList = some 1 ∧
    (onceAgain.foldl (NativeState.step List.length) (emptyState 0)).undefined = true := by
  intro ops
  have hstart := (emptyState_unregistered 0 ['f'] "()V".toList).follows List.length
  refine ⟨by decide, by decide, ?_, ?_⟩
  · have hops : ∀ methods, .registerNatives methods ∈ ops → ∀ r ∈ methods, WellFormed r := by
      simp [ops, wellFormed_void]
    have hfollows := (hstart.run rfl hops).2 (by simp [ops, Runs.Along, Intact, Freed, emptyState])
    exact hfollows.holds.lookup (by decide) fun _ _ _ _ => rfl
  · rw [← Bool.not_eq_false, (hstart.run rfl onceAgain_wellFormed).1]
    simp [onceAgain, Runs.Along, Intact, Freed, emptyState, History.step]

end NativeRegistration

/-! ## What unregistering answers -/

namespace FakeJni
open List

/-- `erase` returns an iterator to the entry behind the one taken out, and this is compared with the
end. -/
def unregisterAnswer (functions : List JMethodID) (mid : JMethodID) : Bool :=
  (functions.dropWhile (·.addr ≠ mid.addr)).tail ≠ []

/-- `success` after the second loop of `unregisterNatives`. -/
def unregisterAll (functions : List JMethodID) : List JMethodID → Bool
  | [] => true
  | mid :: toRemove =>
    unregisterAnswer functions mid && unregisterAll (unregisterMethod functions mid) toRemove

/-- The result of `unregisterNatives`. -/
def JClass.unregisterResult (c : JClass) : Int :=
  let toRemove := c.functions.filter fun mid => mid.type = .registerNativesFunc
  if unregisterAll c.functions toRemove then 0 else -1

variable {front functions toRemove : List JMethodID} {mid last : JMethodID}

theorem unregisterAll_cons (h : ∀ m ∈ toRemove, mid.addr ≠ m.addr) :
    unregisterAll (mid :: functions) toRemove = unregisterAll functions toRemove := by
  induction toRemove generalizing functions with
  | nil => rfl
  | cons m toRemove ih =>
    have hne : mid.addr ≠ m.addr := h m mem_cons_self
    rw [unregisterAll, unregisterAnswer, dropWhile_cons_of_pos (by simpa using hne),
      unregisterMethod, eraseP_cons_of_neg (by simpa using hne),
      ih fun m' hm' => h m' (mem_cons_of_mem _ hm')]
    rfl

/-- Only the removal of the last entry is answered with no. -/
theorem unregisterAll_natives
    (h : ∀ m ∈ front ++ [last], ∀ m' ∈ front ++ [last], m.addr = m'.addr → m = m') :
    unregisterAll (front ++ [last])
        ((front ++ [last]).filter fun mid => mid.type = .registerNativesFunc) =
      decide (last.type ≠ .registerNativesFunc) := by
  induction front with
  | nil =>
    by_cases htype : last.type = .registerNativesFunc
    · simp [unregisterAll, unregisterAnswer, htype]
    · simp [unregisterAll, htype]
  | cons mid front ih =>
    rw [cons_append] at h ⊢
    have hrest := ih fun m hm m' hm' => h m (mem_cons_of_mem _ hm) m' (mem_cons_of_mem _ hm')
    by_cases htype : mid.type = .registerNativesFunc
    · rw [filter_cons_of_pos (by simpa using htype), unregisterAll, unregisterMethod,
        eraseP_cons_of_pos (by simp), hrest, unregisterAnswer, dropWhile_cons_of_neg (by simp)]
      simp
    · rw [filter_cons_of_neg (by simpa using htype),
        unregisterAll_cons (JClass.addr_ne_native h htype), hrest]

theorem unregisterAnswer_concat :
    unregisterAnswer (front ++ [last]) mid = true ↔ ∃ m ∈ front, m.addr = mid.addr := by
  induction front with
  | nil =>
    rw [nil_append, unregisterAnswer, dropWhile_cons]
    split <;> simp
  | cons m front ih =>
    simp only [mem_cons, exists_eq_or_imp]
    rw [← ih, cons_append, unregisterAnswer, unregisterAnswer]
    by_cases heq : m.addr = mid.addr
    · rw [dropWhile_cons_of_neg (by simpa using heq)]
      simp [heq]
    · rw [dropWhile_cons_of_pos (by simpa using heq), or_iff_right heq]

/-- **Unregistering answers right unless the last method of the list is taken out.** -/
theorem unregister_iff (c : JClass) :
    (∀ mid, (∀ front m back, c.functions = front ++ m :: back → m.addr = mid.addr →
        (∀ m' ∈ front, m'.addr ≠ mid.addr) → unregisterMethod c.functions mid = front ++ back) ∧
      ((∀ m ∈ c.functions, m.addr ≠ mid.addr) → unregisterMethod c.functions mid = c.functions) ∧
      ((unregisterAnswer c.functions mid = true ↔ ∃ m ∈ c.functions, m.addr = mid.addr) ↔
        ∀ front last, c.functions = front ++ [last] → last.addr = mid.addr →
          ∃ m ∈ front, m.addr = mid.addr)) ∧
    c.unregisterNatives.functions =
      c.functions.filter (fun mid => mid.type ≠ .registerNativesFunc) ∧
    (c.unregisterResult = 0 ↔
      ∀ last ∈ c.functions.getLast?, last.type ≠ .registerNativesFunc) := by
  refine ⟨fun mid => ⟨fun front m back heq hm hfront => ?_, fun hnone => ?_, ?_⟩,
    c.withoutNatives_eq, ?_⟩
  · rw [heq, unregisterMethod, eraseP_append_right _ (by simpa using hfront),
      eraseP_cons_of_pos (by simpa using hm)]
  · exact eraseP_of_forall_not (by simpa using hnone)
  · rcases c.functions.eq_nil_or_concat' with hnil | ⟨front, last, hlast⟩
    · simp [hnil, unregisterAnswer]
    · rw [hlast, unregisterAnswer_concat]
      simp only [mem_append, mem_singleton, or_and_right, exists_or, exists_eq_left]
      constructor
      · rintro h _ _ heq hin
        obtain ⟨rfl, hsame⟩ := append_inj' heq rfl
        obtain rfl := singleton_inj.mp hsame
        exact h.mpr (.inr hin)
      · exact fun h => ⟨.inl, fun hin => hin.elim id (h front last rfl)⟩
  · rw [JClass.unregisterResult]
    rcases c.functions.eq_nil_or_concat' with hnil | ⟨front, last, hlast⟩
    · simp [hnil, unregisterAll]
    · have hinj := c.addr_inj
      rw [hlast] at hinj
      rw [hlast, unregisterAll_natives hinj, getLast?_concat]
      simp

/-- A class with one native, at the address 0. -/
def oneNative : JClass where
  functions := [⟨0, 1, ['f'], ['(', ')', 'V'], .registerNativesFunc, 7, 0, 0, 0, 0⟩]
  next := 2
  below := by decide
  addr_inj := by decide

/-- The method is taken out, and both say that it was not. -/
theorem unregister_last :
    (∀ mid ∈ oneNative.functions, unregisterMethod oneNative.functions mid = [] ∧
      unregisterAnswer oneNative.functions mid = false) ∧
    oneNative.unregisterNatives.functions = [] ∧ oneNative.unregisterResult = -1 := by
  decide

end FakeJni
