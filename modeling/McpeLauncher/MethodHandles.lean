import McpeLauncher.JniMethods
import McpeLauncher.Runs

/-! # Method handles of libjnivm

A `nativehandle` is code or a `std::function`, as the flag `native` is to tell. `Method::invoke`
goes by it, the other calls take every handle for a `std::function`. -/
namespace Jnivm
open ClassHierarchy Function MethodTable

inductive CallKind where
  | raw | wrapper
  deriving DecidableEq

def Handle.kind : Handle → CallKind
  | .raw _ => .raw
  | .wrapper _ => .wrapper

def Method.Matches (m : Method) : Prop :=
  ∀ handle, m.nativehandle = some handle → (m.native = true ↔ handle.kind = .raw)

/-- The handles that were called, and how. -/
abbrev Calls := List (Handle × CallKind)

namespace MethodTable
variable {K : Type} {N : Floats} {O : Type}

/-- Calls that take every handle for a `std::function`. -/
def wrapperEnv (t : MethodTable K) (receiver : K) (clazz : Option K) :
    CallEnv N O Nat Empty Calls :=
  t.callEnv receiver clazz (fun _ handle _ => .ok [(handle, .wrapper)]) fun _ => []

/-- The handle that a call has called, if it came so far. -/
def calls (result : Except Fault (Calls × Option Empty)) : Calls :=
  match result with
  | .ok (called, _) => called
  | .error _ => []

/-- The types that `Method::invoke` and `Method::jinvoke` know for a result. -/
def supportedType (signature : List Char) : Bool :=
  match (signature.reverse.takeWhile (· ≠ ')')).reverse.head? with
  | some type => type ∈ ['V', 'Z', 'B', 'S', 'I', 'J', 'F', 'D', '[', 'L']
  | none => false

/-- `Method::invoke`; `jinvoke` is the call for a method that is not native. -/
def invoke (t : MethodTable K) (jinvoke : Calls) (m : Nat) : Calls :=
  if supportedType (t.method m).signature then
    if (t.method m).native then
      match (t.method m).nativehandle with
      | some handle => [(handle, .raw)]
      | none => []
    else jinvoke
  else []

end MethodTable

/-- An id is one that was returned so far, and `Method::invoke` is called on what `Class::getMethod`
returns. -/
inductive MethodOp (K : Type) (N : Floats) (O : Type) where
  | hook (isStatic : Bool) (cl : K) (id ssig : List Char) (funk : Nat)
  | registerNatives (cl : K) (methods : List (List Char × List Char × Nat))
  | unregisterNatives (cl : K)
  | getMethodID (isStatic : Bool) (cl : K) (name sig : List Char)
  | callMethod (receiver : K) (id : Nat) (param : List (JValue N O))
  | callNonvirtualMethod (receiver : K) (clazz : Option K) (id : Nat) (param : List (JValue N O))
  | callStaticMethod (cl : K) (id : Nat) (param : List (JValue N O))
  | invokeObject (cl : K) (sig name : List Char) (receiver : K) (param : List (JValue N O))
  | invokeClass (cl : K) (sig name : List Char) (param : List (JValue N O))

structure MethodState (K : Type) where
  table : MethodTable K := {}
  /-- The ids that were returned. -/
  ids : List Nat := []
  called : Calls := []

namespace MethodState
variable {K : Type} {N : Floats} {O : Type} {isStatic : Bool} {h : Classes K} {receiver : K}
  {param : List (JValue N O)} {find : Nat → Option Nat} {clazz : Option K} {mid : Option Nat}

def record (s : MethodState K) (called : Calls) : MethodState K :=
  { s with called := s.called ++ called }

def step [DecidableEq K] (h : Classes K) (s : MethodState K) : MethodOp K N O → MethodState K
  | .hook isStatic cl id ssig funk => { s with table := s.table.install isStatic cl id ssig funk }
  | .registerNatives cl methods => { s with table := s.table.registerNatives cl methods }
  | .unregisterNatives cl => { s with table := s.table.unregisterNatives cl }
  | .getMethodID isStatic cl name sig =>
    { s with
      table := (s.table.getMethodID h isStatic cl name sig).2
      ids := s.ids ++ [(s.table.getMethodID h isStatic cl name sig).1] }
  | .callMethod receiver id param =>
    s.record (MethodTable.calls ((s.table.wrapperEnv receiver none).callMethod s.ids[id]? param))
  | .callNonvirtualMethod receiver clazz id param =>
    s.record (MethodTable.calls
      ((s.table.wrapperEnv receiver clazz).callNonvirtualMethod s.ids[id]? param))
  | .callStaticMethod cl id param =>
    s.record (MethodTable.calls ((s.table.wrapperEnv cl none).callStaticMethod s.ids[id]? param))
  | .invokeObject cl sig name receiver param => match s.table.getMethod cl sig name with
    | none => s
    | some m => s.record (s.table.invoke
        (MethodTable.calls ((s.table.wrapperEnv receiver none).callMethod (some m) param)) m)
  | .invokeClass cl sig name param => match s.table.getMethod cl sig name with
    | none => s
    | some m => s.record (s.table.invoke
        (MethodTable.calls ((s.table.wrapperEnv cl none).callStaticMethod (some m) param)) m)

/-- The method that a search comes to is not native. -/
def NoNative (s : MethodState K) (found : Option Nat) : Prop :=
  ∀ m ∈ found, (s.table.method m).native = false

instance (s : MethodState K) (found : Option Nat) : Decidable (s.NoNative found) :=
  inferInstanceAs (Decidable (∀ m ∈ found, (s.table.method m).native = false))

/-- What must not happen: a hook for a native method, and a native method found as an
overload. -/
def Apart (s : MethodState K) : MethodOp K N O → Prop
  | .hook isStatic cl id ssig _ =>
    s.NoNative (s.table.find cl fun m => m.static = isStatic && m.name = id && m.signature = ssig)
  | .callMethod receiver id _ =>
    s.NoNative (s.ids[id]?.bind (s.table.findNonVirtualOverload (some receiver)))
  | .callNonvirtualMethod _ clazz id _ =>
    s.NoNative (s.ids[id]?.bind (s.table.findNonVirtualOverload clazz))
  | .invokeObject cl sig name receiver _ =>
    ∀ m ∈ s.table.getMethod cl sig name, (s.table.method m).native = false →
      s.NoNative (s.table.findNonVirtualOverload (some receiver) m)
  | _ => True

instance (s : MethodState K) : (op : MethodOp K N O) → Decidable (s.Apart op)
  | .hook _ _ _ _ _ => inferInstanceAs (Decidable (s.NoNative _))
  | .callMethod _ _ _ => inferInstanceAs (Decidable (s.NoNative _))
  | .callNonvirtualMethod _ _ _ _ => inferInstanceAs (Decidable (s.NoNative _))
  | .invokeObject cl sig name receiver _ =>
    inferInstanceAs (Decidable (∀ m ∈ s.table.getMethod cl sig name,
      (s.table.method m).native = false →
        s.NoNative (s.table.findNonVirtualOverload (some receiver) m)))
  | .registerNatives _ _ => isTrue trivial
  | .unregisterNatives _ => isTrue trivial
  | .getMethodID _ _ _ _ => isTrue trivial
  | .callStaticMethod _ _ _ => isTrue trivial
  | .invokeClass _ _ _ _ => isTrue trivial

/-- Flags and handles go together, and so do handles and calls. -/
structure Valid (s : MethodState K) : Prop where
  flag : ∀ m, (s.table.method m).Matches
  listed : ∀ cl, ∀ m ∈ s.table.methods cl, m < s.table.size
  ids : ∀ m ∈ s.ids, m < s.table.size ∧ (s.table.method m).native = false
  called : ∀ c ∈ s.called, c.2 = c.1.kind

theorem valid_start : ({} : MethodState K).Valid where
  flag := by
    intro m handle hhandle
    contradiction
  listed := by
    intro cl m hm
    contradiction
  ids := by
    intro m hm
    contradiction
  called := by
    intro c hc
    contradiction

theorem mem_calls {t : MethodTable K} {c : Handle × CallKind}
    (hc : c ∈ MethodTable.calls ((t.wrapperEnv receiver clazz).call find mid param)) :
    ∃ r, mid.bind find = some r ∧ (t.method r).nativehandle = some c.1 ∧ c.2 = .wrapper := by
  rcases mid with _ | mid
  · contradiction
  · rcases hmid : (t.method mid).nativehandle with _ | handle
    · simp [CallEnv.call, wrapperEnv, callEnv, hmid,
        MethodTable.calls] at hc
    · rcases hfind : find mid with _ | r
      · simp [CallEnv.call, CallEnv.run, wrapperEnv, callEnv, hmid, hfind,
          MethodTable.calls] at hc
      · refine ⟨r, hfind, ?_⟩
        rcases hr : (t.method r).nativehandle with _ | handle'
        · simp [CallEnv.call, CallEnv.run, wrapperEnv, callEnv, hmid, hfind,
            hr, MethodTable.calls] at hc
        · obtain rfl : c = (handle', .wrapper) := by
            simpa [CallEnv.call, CallEnv.run, wrapperEnv, callEnv, hmid,
              hfind, hr, MethodTable.calls] using hc
          exact ⟨rfl, rfl⟩

section
variable {s : MethodState K} {m : Nat}

theorem Valid.record (hv : s.Valid) {called : Calls} (hcalled : ∀ c ∈ called, c.2 = c.1.kind) :
    (s.record called).Valid where
  flag := hv.flag
  listed := hv.listed
  ids := hv.ids
  called := by
    intro c hc
    rcases List.mem_append.mp hc with hold | hnew
    · exact hv.called c hold
    · exact hcalled c hnew

theorem Valid.calls (hv : s.Valid) (hfind : s.NoNative (mid.bind find)) :
    ∀ c ∈ MethodTable.calls ((s.table.wrapperEnv receiver clazz).call find mid param),
      c.2 = c.1.kind := by
  intro c hc
  obtain ⟨r, hr, hhandle, hkind⟩ := mem_calls hc
  have hflag := hv.flag r c.1 hhandle
  rw [hfind r hr] at hflag
  rcases hc : c.1 with fnPtr | funk
  · rw [hc] at hflag
    exact absurd (hflag.mpr rfl) (by decide)
  · exact hkind

/-- The virtual search comes to an overload in the receiver's class or to the id. -/
theorem NoNative.virtual (hmid : s.NoNative mid)
    (hfind : s.NoNative (mid.bind (s.table.findNonVirtualOverload (some receiver)))) :
    s.NoNative (mid.bind (s.table.findVirtualOverload (some receiver))) := by
  intro r hr
  rcases mid with _ | mid
  · contradiction
  · change s.table.findVirtualOverload (some receiver) mid = some r at hr
    rw [findVirtualOverload] at hr
    split at hr
    · next r' hfound => exact hfind r (hfound.trans hr)
    · exact hmid r hr

theorem Valid.noNative_ids (hv : s.Valid) (id : Nat) : s.NoNative s.ids[id]? := by
  intro m hm
  exact (hv.ids m (List.mem_of_getElem? hm)).2

theorem Valid.invoke (hv : s.Valid) {jinvoke : Calls}
    (hjinvoke : (s.table.method m).native = false → ∀ c ∈ jinvoke, c.2 = c.1.kind) :
    ∀ c ∈ s.table.invoke jinvoke m, c.2 = c.1.kind := by
  intro c hc
  rw [MethodTable.invoke] at hc
  split at hc
  · split at hc
    · next hnative =>
      split at hc
      · next handle hhandle =>
        obtain rfl := List.mem_singleton.mp hc
        exact ((hv.flag m handle hhandle).mp hnative).symm
      · contradiction
    · next hnative => exact hjinvoke (by simpa using hnative) c hc
  · contradiction

theorem Valid.of_search (hv : s.Valid) {name sig : List Char} {cl : K}
    (hm : h.search (s.table.ownMethodID isStatic name sig) cl = some m) :
    m < s.table.size ∧ (s.table.method m).native = false := by
  obtain ⟨owner, _, hown⟩ := Hierarchy.above_of_search hm
  refine ⟨hv.listed owner m (List.mem_of_find?_eq_some hown), ?_⟩
  have hfound := List.find?_some hown
  simp only [Bool.and_eq_true, Bool.not_eq_true'] at hfound
  exact hfound.1.1.2

end

variable [DecidableEq K]

section
variable {s : MethodState K} (hv : s.Valid)
include hv

theorem Valid.push (cl : K) {m : Method} (hm : m.Matches) :
    { s with table := s.table.push cl m }.Valid where
  flag := by
    intro a
    by_cases ha : a = s.table.size
    · rw [ha, push_method_new]
      exact hm
    · have hold : (s.table.push cl m).method a = s.table.method a := update_of_ne ha _ _
      rw [hold]
      exact hv.flag a
  listed := by
    intro cl' a ha
    rcases mem_push_methods ha with hold | rfl
    · exact Nat.lt_succ_of_lt (hv.listed cl' a hold)
    · exact Nat.lt_succ_self _
  ids := by
    intro a ha
    obtain ⟨hlt, hnative⟩ := hv.ids a ha
    rw [push_method hlt]
    exact ⟨Nat.lt_succ_of_lt hlt, hnative⟩
  called := hv.called

theorem Valid.registerNative (cl : K) (name sig : List Char) (fnPtr : Nat) :
    { s with table := s.table.registerNative cl name sig fnPtr }.Valid := by
  have hpush := hv.push cl (m := { name := name, signature := sig, native := true,
                                   nativehandle := some (.raw fnPtr) }) (by
    rintro handle hhandle
    obtain rfl := Option.some.inj hhandle
    exact ⟨fun _ => rfl, fun _ => rfl⟩)
  exact ⟨hpush.flag, hpush.listed, hpush.ids, hpush.called⟩

theorem Valid.registerNatives (cl : K) (methods : List (List Char × List Char × Nat)) :
    { s with table := s.table.registerNatives cl methods }.Valid := by
  induction methods generalizing s with
  | nil => exact hv
  | cons method methods ih => exact ih (hv.registerNative cl method.1 method.2.1 method.2.2)

theorem Valid.install {cl : K} {id ssig : List Char} (happart : s.NoNative
      (s.table.find cl fun m => m.static = isStatic && m.name = id && m.signature = ssig))
    (funk : Nat) : { s with table := s.table.install isStatic cl id ssig funk }.Valid := by
  have hmatches : ∀ m : Method, m.native = false →
      ({ m with nativehandle := some (.wrapper funk) } : Method).Matches := by
    intro m hnative handle hhandle
    obtain rfl := Option.some.inj hhandle
    simp [hnative, Handle.kind]
  rw [MethodTable.install]
  split
  · next m hfound =>
    have hnative := happart m hfound
    have hkeep : ∀ a, (update s.table.method m
        { s.table.method m with nativehandle := some (.wrapper funk) } a).native =
          (s.table.method a).native := by
      intro a
      by_cases ha : a = m
      · rw [ha, update_self]
      · rw [update_of_ne ha]
    refine ⟨?_, hv.listed, ?_, hv.called⟩
    · intro a
      by_cases ha : a = m
      · simp only [ha, update_self]
        exact hmatches _ hnative
      · simp only [update_of_ne ha]
        exact hv.flag a
    · intro a ha
      obtain ⟨hlt, hid⟩ := hv.ids a ha
      exact ⟨hlt, (hkeep a).trans hid⟩
  · exact hv.push cl (hmatches { name := id, signature := ssig, static := isStatic } rfl)

theorem Valid.findMethodID (h : Classes K) (isStatic : Bool) (cl : K) (name sig : List Char) :
    { s with
      table := (s.table.findMethodID h isStatic cl name sig).2
      ids := s.ids ++ [(s.table.findMethodID h isStatic cl name sig).1] }.Valid := by
  rw [MethodTable.findMethodID]
  split
  · next m hfound =>
    refine ⟨hv.flag, hv.listed, ?_, hv.called⟩
    intro a ha
    rcases List.mem_append.mp ha with hold | hnew
    · exact hv.ids a hold
    · obtain rfl := List.mem_singleton.mp hnew
      exact hv.of_search hfound
  · have hpush := hv.push cl (m := { name := name, signature := sig, static := isStatic }) (by
      intro handle hhandle
      contradiction)
    refine ⟨hpush.flag, hpush.listed, ?_, hpush.called⟩
    intro a ha
    rcases List.mem_append.mp ha with hold | hnew
    · exact hpush.ids a hold
    · obtain rfl := List.mem_singleton.mp hnew
      refine ⟨Nat.lt_succ_self _, ?_⟩
      exact congrArg Method.native (push_method_new _ _ _)

theorem Valid.getMethodID (h : Classes K) (isStatic : Bool) (cl : K) (name sig : List Char) :
    { s with
      table := (s.table.getMethodID h isStatic cl name sig).2
      ids := s.ids ++ [(s.table.getMethodID h isStatic cl name sig).1] }.Valid := by
  rw [MethodTable.getMethodID]
  split
  · exact hv.findMethodID h true cl name _
  · exact hv.findMethodID h isStatic cl name sig

theorem Valid.step {op : MethodOp K N O} (hop : s.Apart op) : (s.step h op).Valid := by
  cases op with
  | hook isStatic cl id ssig funk => exact hv.install hop funk
  | registerNatives cl methods => exact hv.registerNatives cl methods
  | unregisterNatives cl => exact ⟨hv.flag, hv.listed, hv.ids, hv.called⟩
  | getMethodID isStatic cl name sig => exact hv.getMethodID h isStatic cl name sig
  | callMethod receiver id param => exact hv.record (hv.calls ((hv.noNative_ids id).virtual hop))
  | callNonvirtualMethod receiver clazz id param => exact hv.record (hv.calls hop)
  | callStaticMethod cl id param =>
    have hsome : s.NoNative (s.ids[id]?.bind some) := by
      rw [Option.bind_fun_some]
      exact hv.noNative_ids id
    exact hv.record (hv.calls hsome)
  | invokeObject cl sig name receiver param =>
    rw [MethodState.step]
    split
    · exact hv
    · next m hfound =>
      refine hv.record (hv.invoke fun hnative => hv.calls ?_)
      have hm : s.NoNative (some m) := by
        intro r hr
        rw [← Option.some.inj hr, hnative]
      exact hm.virtual (hop m hfound hnative)
  | invokeClass cl sig name param =>
    rw [MethodState.step]
    split
    · exact hv
    · refine hv.record (hv.invoke fun hnative => hv.calls ?_)
      intro r hr
      rw [← Option.some.inj hr, hnative]

end

/-- **Handles are called as what they are**, and the flags tell it, in every run without a hook for
a native method or a native method found as overload. -/
theorem handles_called_as_stored (h : Classes K) (ops : List (MethodOp K N O))
    (hops : Runs.Along (step h) Apart ({} : MethodState K) ops) :
    (∀ c ∈ (ops.foldl (step h) ({} : MethodState K)).called, c.2 = c.1.kind) ∧
      ∀ m, ((ops.foldl (step h) ({} : MethodState K)).table.method m).Matches := by
  have hv : (ops.foldl (step h) ({} : MethodState K)).Valid :=
    Runs.invariant Valid (fun _ _ hv hop => hv.step hop) valid_start hops
  exact ⟨hv.called, hv.flag⟩

def twoClasses : Classes (Fin 2) where
  parents c := if c = 1 then [0] else []
  depth c := c.val
  depth_lt := by decide
  nativePrefix _ := []

def apartRun : List (MethodOp (Fin 2) Floats.exact Nat) :=
  [.registerNatives 0 [(['n'], "()V".toList, 1)], .hook false 0 ['f'] "()V".toList 2,
    .invokeObject 0 "()V".toList ['n'] 1 [], .invokeObject 0 "()V".toList ['f'] 1 []]

theorem handles_called_as_stored_apart :
    (∀ c ∈ (apartRun.foldl (step twoClasses) {}).called, c.2 = c.1.kind) ∧
      ∀ m, ((apartRun.foldl (step twoClasses) {}).table.method m).Matches :=
  handles_called_as_stored twoClasses apartRun (by decide)

/-- A hook for a native method is called as code; and the search from class 0 finds the native
method of class 1. -/
theorem handles_confused :
    let hooked : List (MethodOp (Fin 2) Floats.exact Nat) :=
      [.registerNatives 0 [(['f'], "()V".toList, 1)], .hook false 0 ['f'] "()V".toList 2,
        .invokeObject 0 "()V".toList ['f'] 0 []]
    let overload : List (MethodOp (Fin 2) Floats.exact Nat) :=
      [.hook false 0 ['f'] "()V".toList 3, .registerNatives 1 [(['f'], "()V".toList, 4)],
        .invokeObject 0 "()V".toList ['f'] 1 []]
    (hooked.foldl (step twoClasses) {}).called = [(.wrapper 2, .raw)] ∧
      (overload.foldl (step twoClasses) {}).called = [(.raw 4, .wrapper)] := by
  decide

end MethodState
end Jnivm
