import McpeLauncher.JniMethods

/-! # Virtual dispatch of libjnivm

A call is to run the implementation of the nearest class above the receiver's or the given one.
`CallMethod` looks into the receiver's class only, and `CallNonvirtualMethod` into the given one; a
method without a handle ends both. -/
namespace Jnivm
open ClassHierarchy.Hierarchy CallEnv
namespace MethodTable
variable {K : Type} {N : Floats} {O : Type} {receiver clazz : K} {t : MethodTable K} {m mid : Nat}

def implementation (t : MethodTable K) (name sig : List Char) (cl : K) : Option Nat :=
  t.find cl fun m => !m.static && name = m.name && sig = m.signature && m.nativehandle.isSome

/-- The implementation of the nearest class that has one, from `cl` up. -/
def nearest (h : Classes K) (t : MethodTable K) (mid : Nat) (cl : K) : Option Nat :=
  h.search (t.implementation (t.method mid).name (t.method mid).signature) cl

def Hooked (t : MethodTable K) (mid : Nat) : Prop := (t.method mid).nativehandle.isSome = true

instance (t : MethodTable K) (mid : Nat) : Decidable (t.Hooked mid) :=
  inferInstanceAs (Decidable (_ = true))

/-- Calls that give back the method that was run, or nothing if none was. -/
def dispatch (t : MethodTable K) (receiver clazz : K) : CallEnv N O Nat Empty (Option Nat) :=
  t.callEnv receiver (some clazz) (fun m _ _ => .ok (some m)) fun _ => none

theorem hooked_of_overload {cl : K} (h : t.findNonVirtualOverload (some cl) mid = some m) :
    t.Hooked m := by
  have h : t.implementation (t.method mid).name (t.method mid).signature cl = some m := h
  have hm := List.find?_some h
  simp only [Bool.and_eq_true] at hm
  exact hm.2

theorem dispatch_run (hm : t.Hooked m) (param : List (JValue N O)) :
    (t.dispatch receiver clazz).run (some m) param = .ok (some m, none) := by
  obtain ⟨handle, hhandle⟩ := Option.isSome_iff_exists.mp hm
  simp only [run, dispatch, callEnv, hhandle, Option.map_some]

theorem dispatch_call_hooked (hmid : t.Hooked mid) (find : Nat → Option Nat)
    (param : List (JValue N O)) :
    (t.dispatch receiver clazz).call find (some mid) param =
      (t.dispatch receiver clazz).run (find mid) param := by
  obtain ⟨handle, hhandle⟩ := Option.isSome_iff_exists.mp hmid
  simp only [call, dispatch, callEnv, hhandle, Option.map_some]

theorem dispatch_call_unhooked (hmid : ¬ t.Hooked mid) (find : Nat → Option Nat)
    (param : List (JValue N O)) :
    (t.dispatch receiver clazz).call find (some mid) param = .ok (none, none) := by
  have hnone : (t.method mid).nativehandle = none := by simpa [Hooked] using hmid
  simp only [call, dispatch, callEnv, hnone, Option.map_none]

section
variable (h : Classes K) (t : MethodTable K) (receiver clazz : K) (mid : Nat)
  (param : List (JValue N O))

theorem callMethod_eq (hmid : t.Hooked mid) :
    (t.dispatch receiver clazz).callMethod (some mid) param =
      .ok ((t.findNonVirtualOverload (some receiver) mid).or (some mid), none) := by
  rw [callMethod, dispatch_call_hooked hmid]
  show (t.dispatch receiver clazz).run (t.findVirtualOverload (some receiver) mid) param = _
  rw [findVirtualOverload]
  rcases hown : t.findNonVirtualOverload (some receiver) mid with _ | r
  · exact dispatch_run hmid param
  · exact dispatch_run (hooked_of_overload hown) param

theorem callNonvirtualMethod_eq (hmid : t.Hooked mid) :
    (t.dispatch receiver clazz).callNonvirtualMethod (some mid) param =
      match t.findNonVirtualOverload (some clazz) mid with
      | some r => .ok (some r, none)
      | none => .error .undefined := by
  rw [callNonvirtualMethod, dispatch_call_hooked hmid]
  show (t.dispatch receiver clazz).run (t.findNonVirtualOverload (some clazz) mid) param = _
  rcases hown : t.findNonVirtualOverload (some clazz) mid with _ | r
  · rfl
  · exact dispatch_run (hooked_of_overload hown) param

theorem nearest_of_overload {h : Classes K} {t : MethodTable K} {mid r : Nat} {cl : K}
    (hown : t.findNonVirtualOverload (some cl) mid = some r) : t.nearest h mid cl = some r :=
  h.search_of_some hown

theorem callMethod_nearest_iff :
    (t.dispatch receiver clazz).callMethod (some mid) param =
        .ok (t.nearest h mid receiver, none) ↔
      if t.Hooked mid then
        (t.findNonVirtualOverload (some receiver) mid).isSome ∨
          t.nearest h mid receiver = some mid
      else t.nearest h mid receiver = none := by
  by_cases hmid : t.Hooked mid
  · rw [if_pos hmid, callMethod_eq t receiver clazz mid param hmid]
    rcases hown : t.findNonVirtualOverload (some receiver) mid with _ | r
    · simp [eq_comm]
    · simp [nearest_of_overload hown]
  · rw [if_neg hmid, callMethod, dispatch_call_unhooked hmid]
    simp [eq_comm]

theorem callNonvirtualMethod_nearest_iff :
    (t.dispatch receiver clazz).callNonvirtualMethod (some mid) param =
        .ok (t.nearest h mid clazz, none) ↔
      if t.Hooked mid then (t.findNonVirtualOverload (some clazz) mid).isSome = true
      else t.nearest h mid clazz = none := by
  by_cases hmid : t.Hooked mid
  · rw [if_pos hmid, callNonvirtualMethod_eq t receiver clazz mid param hmid]
    rcases hown : t.findNonVirtualOverload (some clazz) mid with _ | r
    · simp
    · simp [nearest_of_overload hown]
  · rw [if_neg hmid, callNonvirtualMethod, dispatch_call_unhooked hmid]
    simp [eq_comm]

theorem callMethod_ok :
    ∃ ran, (t.dispatch receiver clazz).callMethod (some mid) param = .ok (ran, none) := by
  by_cases hmid : t.Hooked mid
  · exact ⟨_, callMethod_eq t receiver clazz mid param hmid⟩
  · exact ⟨none, dispatch_call_unhooked hmid _ param⟩

end

variable [DecidableEq K]

/-- **When a call runs the nearest implementation**: the method of the id must have a handle, and a
virtual call needs one in the receiver's own class or the id's as the nearest, a nonvirtual call one
in the given class itself. -/
theorem calls_nearest_iff (h : Classes K) (t : MethodTable K) (C D E : K) (name sig : List Char)
    (param : List (JValue N O)) :
    let mid := (t.getMethodID h false C name sig).1
    let t := (t.getMethodID h false C name sig).2
    let own := t.implementation (t.method mid).name (t.method mid).signature
    ((t.dispatch D E).callMethod (some mid) param = .ok (t.nearest h mid D, none) ↔
      if t.Hooked mid then (own D).isSome ∨ t.nearest h mid D = some mid
      else t.nearest h mid D = none) ∧
    ((t.dispatch D E).callNonvirtualMethod (some mid) param = .ok (t.nearest h mid E, none) ↔
      if t.Hooked mid then (own E).isSome = true else t.nearest h mid E = none) ∧
    ∃ ran, (t.dispatch D E).callMethod (some mid) param = .ok (ran, none) :=
  ⟨callMethod_nearest_iff h _ D E _ param, callNonvirtualMethod_nearest_iff h _ D E _ param,
    callMethod_ok _ D E _ param⟩

def countedClasses : Classes Nat where
  parents c := if c = 0 then [] else [c - 1]
  depth c := c
  depth_lt := by
    intro c p hp
    split at hp
    · contradiction
    · rw [List.mem_singleton.mp hp]
      omega
  nativePrefix _ := []

def twoHooks : MethodTable Nat :=
  (({} : MethodTable Nat).install false 0 ['f'] "()V".toList 10).install false 1 ['f']
    "()V".toList 11

theorem nearest_twoHooks : twoHooks.nearest countedClasses 0 2 = some 1 := by
  rw [nearest, search_of_none (by decide)]
  show [1].findSome? _ = _
  rw [List.findSome?_cons, search_of_some (b := 1) (by decide)]

/-- Class 0's method is run where class 1's is nearest; the nonvirtual call with class 2 is
undefined. -/
theorem intermediate_override_skipped :
    let param : List (JValue Floats.exact Nat) := []
    let mid := (twoHooks.getMethodID countedClasses false 0 ['f'] "()V".toList).1
    let t := (twoHooks.getMethodID countedClasses false 0 ['f'] "()V".toList).2
    t.nearest countedClasses mid 2 = some 1 ∧
    (t.dispatch 2 2).callMethod (some mid) param = .ok (some 0, none) ∧
    (t.dispatch 2 2).callNonvirtualMethod (some mid) param = .error .undefined := by
  intro param
  have hid : twoHooks.getMethodID countedClasses false 0 ['f'] "()V".toList = (0, twoHooks) := by
    have hfound :
        countedClasses.search (twoHooks.ownMethodID false ['f'] "()V".toList) 0 = some 0 :=
      search_of_some (by decide)
    rw [getMethodID, if_neg (by decide), findMethodID, hfound]
  rw [hid]
  refine ⟨nearest_twoHooks, ?_, ?_⟩
  · exact callMethod_eq twoHooks 2 2 0 param (by decide)
  · exact callNonvirtualMethod_eq twoHooks 2 2 0 param (by decide)

end MethodTable
end Jnivm
