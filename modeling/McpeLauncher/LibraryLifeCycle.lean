import Mathlib
import McpeLauncher.Runs

/-! # The libraries of a Jvm

`~Jvm` of fake-jni removes the libraries while it goes through their `PointerList`: `erase` moves
the iterator to the next one, and the loop moves on from there. Every second library is left to the
list, which closes its handle and runs no hook. A library's unload hook is moreover looked up only
where its load hook was found. `life_cycle_iff` says which libraries are unloaded and closed as
their exports demand. -/
namespace FakeJni
open List

/-- The hooks of one kind, with what those return that return something. -/
structure Hooks where
  onLoad : Option Int := none
  onAttach : Option Int := none
  onUnload : Bool := false
  deriving DecidableEq

/-- The hooks for static linkage (`_L`), if there is one for loading; or else the others. -/
def Hooks.bind (static dynamic : Hooks) : Hooks :=
  if static.onLoad.isSome then static else if dynamic.onLoad.isSome then dynamic else {}

/-- `jniBound` and `agentBound`. -/
def Hooks.bound (h : Hooks) : Bool := h.onAttach.isSome || h.onLoad.isSome || h.onUnload

/-- `agentAttach` of a `Jvm` that is running, and `agentLoad`. -/
def Hooks.start (h : Hooks) (running : Bool) : Int :=
  (if running then h.onAttach else h.onLoad).getD 0

/-- What `dlsym` finds in a library that `dlopen` has opened. -/
structure Opened where
  jniStatic : Hooks
  jniDynamic : Hooks
  agentStatic : Hooks
  agentDynamic : Hooks
  deriving DecidableEq

/-- `number` stands for the address, which no other library gets; `exports` is what it was made
from. -/
structure Library where
  number : Nat
  path : String
  exports : Opened
  deriving DecidableEq

/-- `JNI_OnLoad_` and `JNI_OnUnload_`. -/
def Library.jni (l : Library) : Hooks := l.exports.jniStatic.bind l.exports.jniDynamic

/-- `Agent_OnLoad_`, `Agent_OnAttach_` and `Agent_OnUnload_`. -/
def Library.agent (l : Library) : Hooks := l.exports.agentStatic.bind l.exports.agentDynamic

inductive LibraryEvent where
  | jniUnload (library : Nat)
  | agentUnload (library : Nat)
  | close (library : Nat)
  deriving DecidableEq

def LibraryEvent.library : LibraryEvent → Nat
  | .jniUnload n | .agentUnload n | .close n => n

def unloadEvents (n : Nat) (jni agent : Bool) : List LibraryEvent :=
  (if jni then [.jniUnload n] else []) ++ if agent then [.agentUnload n] else []

/-- `jniUnload` and `agentUnload`, where they are called. -/
def Library.unload (l : Library) : List LibraryEvent :=
  unloadEvents l.number (l.jni.bound && l.jni.onUnload) (l.agent.bound && l.agent.onUnload)

/-- `libraries` is the `PointerList`, without repetition. `attached` were attached successfully, and
`next` is a number that no library has. -/
structure Jvm where
  libraries : List Library := []
  next : Nat := 0
  attached : List Library := []
  log : List LibraryEvent := []

namespace Jvm

/-- `attachLibrary`, with the text of its exception. -/
def attachLibrary (jvm : Jvm) (rpath : String) (running : Bool) (opened : Option Opened) :
    Option String × Jvm :=
  let path := if rpath.isEmpty then "(embedded)" else rpath
  if jvm.libraries.any (·.path = path) then (none, jvm)
  else match opened with
    | none => (some ("FATAL: Failed to open library: '" ++ path ++ "'!"), jvm)
    | some o =>
      let library : Library := ⟨jvm.next, path, o⟩
      let made := { jvm with next := jvm.next + 1 }
      if library.jni.bound && library.jni.onLoad == some 0 then
        (some ("FATAL: Error initializing JNI library: '" ++ path ++ "'"), made)
      else if library.agent.bound && library.agent.start running != 0 then
        (some ("FATAL: Error initializing agent library: '" ++ path ++ "'"), made)
      else
        (none, { made with
          libraries := jvm.libraries ++ [library]
          attached := jvm.attached ++ [library] })

/-- What `removeLibrary` does: `erase` gives the library to its deallocator, which closes the
handle. -/
def events (l : Library) : List LibraryEvent := l.unload ++ [.close l.number]

/-- `removeLibrary` of a path. -/
def removeLibrary (jvm : Jvm) (path : String) : Bool × Jvm :=
  match jvm.libraries.find? (·.path = path) with
  | some l => (true, { jvm with libraries := jvm.libraries.erase l, log := jvm.log ++ events l })
  | none => (false, jvm)

/-- The loop of `~Jvm`, with the libraries `before` the iterator: what it does, and what it leaves.
-/
def removeAll (before : List Library) : List Library → List LibraryEvent × List Library
  | [] => ([], before)
  | [l] => (events l, before)
  -- `erase` moves the iterator to `l'`, and `operator++` moves it on from there
  | l :: l' :: after =>
    (events l ++ (removeAll (before ++ [l']) after).1, (removeAll (before ++ [l']) after).2)

/-- `~Jvm`, and then `~PointerList`: the log. -/
def destructor (jvm : Jvm) : List LibraryEvent :=
  jvm.log ++ (removeAll [] jvm.libraries).1 ++
    (removeAll [] jvm.libraries).2.map fun l => .close l.number

inductive Call where
  | attach (rpath : String) (running : Bool) (opened : Option Opened)
  | remove (path : String)

def step (jvm : Jvm) : Call → Jvm
  | .attach rpath running opened => (jvm.attachLibrary rpath running opened).2
  | .remove path => (jvm.removeLibrary path).2

/-! ## What should be done -/

/-- There is an unload hook: that of the static linkage if the library is linked so, or else the
other one. -/
def unloads (static dynamic : Hooks) : Bool :=
  if static.onLoad.isSome then static.onUnload else dynamic.onUnload

/-- What a library is to be told before its handle is closed, by what it exports. -/
def unloadHooks (l : Library) : List LibraryEvent :=
  unloadEvents l.number (unloads l.exports.jniStatic l.exports.jniDynamic)
    (unloads l.exports.agentStatic l.exports.agentDynamic)

/-- An unload hook comes with the load hook of its linkage. -/
def Paired (static dynamic : Hooks) : Prop :=
  unloads static dynamic = true → static.onLoad.isSome = true ∨ dynamic.onLoad.isSome = true

theorem unloadEvents_inj {n : Nat} {jni agent jni' agent' : Bool} :
    unloadEvents n jni agent = unloadEvents n jni' agent' ↔ jni = jni' ∧ agent = agent' := by
  revert jni agent jni' agent'
  simp [unloadEvents]

theorem bind_unloads_iff (static dynamic : Hooks) :
    ((static.bind dynamic).bound && (static.bind dynamic).onUnload) = unloads static dynamic ↔
      Paired static dynamic := by
  unfold Hooks.bind Paired unloads
  by_cases hstatic : static.onLoad.isSome = true
  · simp [hstatic, Hooks.bound]
  · by_cases hdynamic : dynamic.onLoad.isSome = true
    · simp [hstatic, hdynamic, Hooks.bound]
    · simp [hstatic, hdynamic]

theorem unload_eq_iff (l : Library) :
    l.unload = unloadHooks l ↔ Paired l.exports.jniStatic l.exports.jniDynamic ∧
      Paired l.exports.agentStatic l.exports.agentDynamic := by
  rw [Library.unload, unloadHooks, unloadEvents_inj, Library.jni, Library.agent, bind_unloads_iff,
    bind_unloads_iff]

/-! ## What is in the log -/

def logOf (log : List LibraryEvent) (n : Nat) : List LibraryEvent :=
  log.filter fun e => e.library = n

theorem library_of_mem_events (l : Library) {e : LibraryEvent} (he : e ∈ events l) :
    e.library = l.number := by
  unfold events Library.unload unloadEvents at he
  split at he <;> split at he <;> simp at he <;> grind [LibraryEvent.library]

/-- Where every library writes its own events, the log has those of each. -/
theorem logOf_flatMap {f : Library → List LibraryEvent}
    (hf : ∀ x, ∀ e ∈ f x, e.library = x.number) {xs : List Library}
    (hnodup : (xs.map Library.number).Nodup) {l : Library} (hl : l ∈ xs) :
    logOf (xs.flatMap f) l.number = f l := by
  have hother {ys : List Library} (hys : l.number ∉ ys.map Library.number) :
      logOf (ys.flatMap f) l.number = [] := by
    refine filter_eq_nil_iff.mpr fun e he heq => ?_
    obtain ⟨y, hy, he⟩ := mem_flatMap.mp he
    exact hys (mem_map.mpr ⟨y, hy, (hf y e he).symm.trans (of_decide_eq_true heq)⟩)
  have hown : logOf (f l) l.number = f l :=
    filter_eq_self.mpr fun e he => decide_eq_true (hf l e he)
  obtain ⟨p, q, rfl⟩ := append_of_mem hl
  rw [map_append, map_cons, nodup_middle, nodup_cons, mem_append, not_or] at hnodup
  have hp := hother hnodup.1.1
  have hq := hother hnodup.1.2
  unfold logOf at hown hp hq ⊢
  rw [flatMap_append, flatMap_cons, filter_append, filter_append, hp, hq, hown, append_nil,
    nil_append]

/-- `gone` are the libraries that were removed. -/
structure Inv (jvm : Jvm) (gone : List Library) : Prop where
  log : jvm.log = gone.flatMap events
  perm : jvm.attached ~ gone ++ jvm.libraries
  numbers : (jvm.attached.map Library.number).Nodup
  below : ∀ l ∈ jvm.attached, l.number < jvm.next

variable {jvm : Jvm} {gone : List Library} {l : Library}

theorem Inv.insert (h : Inv jvm gone) (hl : l.number = jvm.next) :
    Inv { jvm with
      libraries := jvm.libraries ++ [l], next := jvm.next + 1
      attached := jvm.attached ++ [l] } gone := by
  have hnew : l.number ∉ jvm.attached.map Library.number := fun hmem => by
    obtain ⟨l', hl', heq⟩ := mem_map.mp hmem
    have := h.below l' hl'
    omega
  refine ⟨h.log, ?_, ?_, fun l' hl' => ?_⟩
  · rw [← append_assoc]
    exact h.perm.append_right [l]
  · rw [map_append]
    exact h.numbers.append (nodup_singleton _) (disjoint_singleton.mpr hnew)
  · rcases mem_append.mp hl' with hl' | hl'
    · exact Nat.lt_succ_of_lt (h.below l' hl')
    · rw [mem_singleton.mp hl']
      exact Nat.lt_succ_of_le hl.le

theorem Inv.attach (h : Inv jvm gone) (rpath : String) (running : Bool) (opened : Option Opened) :
    Inv (jvm.attachLibrary rpath running opened).2 gone := by
  have hmade : Inv { jvm with next := jvm.next + 1 } gone :=
    { h with below := fun l hl => Nat.lt_succ_of_lt (h.below l hl) }
  rw [attachLibrary.eq_def]
  generalize (if rpath.isEmpty then "(embedded)" else rpath) = path
  dsimp only
  split
  · exact h
  · split
    · exact h
    · split
      · exact hmade
      · split
        · exact hmade
        · exact h.insert rfl

theorem Inv.removeLibrary (h : Inv jvm gone) (path : String) :
    ∃ gone', Inv (jvm.removeLibrary path).2 gone' := by
  rw [Jvm.removeLibrary]
  split
  · next l hl =>
    refine ⟨gone ++ [l], ?_, h.perm.trans ?_, h.numbers, h.below⟩
    · rw [h.log, flatMap_append, flatMap_singleton]
    · rw [append_assoc]
      exact (perm_cons_erase (mem_of_find?_eq_some hl)).append_left gone
  · exact ⟨gone, h⟩

theorem run_inv (calls : List Call) : ∃ gone, Inv (calls.foldl step {}) gone := by
  refine Runs.invariant_all (fun jvm => ∃ gone, Inv jvm gone) (fun jvm call h => ?_) ?_ calls
  · obtain ⟨gone, h⟩ := h
    cases call with
    | attach rpath running opened => exact ⟨gone, h.attach rpath running opened⟩
    | remove path => exact h.removeLibrary path
  · exact ⟨[], by constructor <;> simp⟩

/-! ## The destructor -/

/-- The first of a list, and every second one after it. -/
def everySecond {α : Type} : List α → List α
  | [] => []
  | [x] => [x]
  | x :: _ :: xs => x :: everySecond xs

theorem everySecond_cons {α : Type} (x : α) (xs : List α) :
    everySecond (x :: xs) = x :: everySecond xs.tail := by
  cases xs <;> rfl

theorem everySecond_perm {α : Type} (xs : List α) :
    everySecond xs ++ everySecond xs.tail ~ xs := by
  induction xs with
  | nil => exact .nil
  | cons x xs ih =>
    rw [everySecond_cons, tail_cons, cons_append]
    exact (perm_append_comm.trans ih).cons x

/-- **The loop of the destructor** removes every second library. -/
theorem removeAll_eq (before ls : List Library) :
    removeAll before ls = ((everySecond ls).flatMap events, before ++ everySecond ls.tail) := by
  induction ls using everySecond.induct generalizing before with
  | case1 => simp [removeAll, everySecond]
  | case2 l => simp [removeAll, everySecond]
  | case3 l l' after ih =>
    rw [removeAll, ih, everySecond, tail_cons, everySecond_cons, flatMap_cons, append_assoc]
    rfl

/-- What the log has of a library that was attached. -/
def share (jvm : Jvm) (l : Library) : List LibraryEvent :=
  if l ∈ everySecond jvm.libraries.tail then [.close l.number] else events l

theorem library_of_mem_share (l : Library) {e : LibraryEvent} (he : e ∈ jvm.share l) :
    e.library = l.number := by
  rw [share] at he
  split at he
  · rw [mem_singleton.mp he]
    rfl
  · exact library_of_mem_events l he

theorem Inv.split (h : Inv jvm gone) :
    jvm.attached ~ gone ++ everySecond jvm.libraries ++ everySecond jvm.libraries.tail := by
  rw [append_assoc]
  exact h.perm.trans ((everySecond_perm jvm.libraries).symm.append_left gone)

theorem Inv.destructor_eq (h : Inv jvm gone) :
    jvm.destructor =
      (gone ++ everySecond jvm.libraries ++ everySecond jvm.libraries.tail).flatMap jvm.share := by
  have hdisjoint := disjoint_of_nodup_append (h.split.nodup_iff.mp h.numbers.of_map)
  rw [destructor, removeAll_eq, h.log, ← flatMap_append, nil_append, map_eq_flatMap]
  refine (congrArg₂ (· ++ ·) ?_ ?_).trans flatMap_append.symm
  · exact flatMap_congr fun x hx => (if_neg (hdisjoint hx)).symm
  · exact flatMap_congr fun x hx => (if_pos hx).symm

theorem Inv.logOf_destructor (h : Inv jvm gone) (hl : l ∈ jvm.attached) :
    logOf jvm.destructor l.number = jvm.share l := by
  rw [h.destructor_eq]
  exact logOf_flatMap (fun x _ => library_of_mem_share x)
    ((h.split.map _).nodup_iff.mp h.numbers) (h.split.mem_iff.mp hl)

/-- **Every library is unloaded and closed once, as its exports demand, exactly if** those that the
destructor of a `Jvm` leaves to its list have no unload hook, and those of the others come with a
load hook. -/
theorem life_cycle_iff (calls : List Call) :
    (∀ l ∈ (calls.foldl step {}).attached,
      logOf (calls.foldl step {}).destructor l.number = unloadHooks l ++ [.close l.number]) ↔
      ∀ l ∈ (calls.foldl step {}).attached,
        if l ∈ everySecond (calls.foldl step {}).libraries.tail then unloadHooks l = []
        else Paired l.exports.jniStatic l.exports.jniDynamic ∧
          Paired l.exports.agentStatic l.exports.agentDynamic := by
  obtain ⟨gone, h⟩ := run_inv calls
  generalize calls.foldl step {} = jvm at h
  refine forall₂_congr fun l hl => ?_
  rw [h.logOf_destructor hl, share]
  split
  · rw [self_eq_append_left]
  · rw [events, append_left_inj, unload_eq_iff]

/-- The second of two libraries is closed and not unloaded, and neither is one that exports
`JNI_OnUnload` alone. -/
theorem second_not_unloaded :
    let opened : Opened := ⟨{}, ⟨some 1, none, true⟩, {}, {}⟩
    let orphan : Opened := ⟨{}, ⟨none, none, true⟩, {}, {}⟩
    (([.attach "a" false (some opened), .attach "b" false (some opened)] : List Call).foldl step
        {}).destructor = [.jniUnload 0, .close 0, .close 1] ∧
      (([.attach "a" false (some orphan)] : List Call).foldl step {}).destructor = [.close 0] := by
  decide

/-- **Only what was attached is ever unloaded or closed**: a library that is refused after it was
opened keeps its handle. -/
theorem closed_was_attached (calls : List Call) :
    (calls.foldl step {}).destructor.map LibraryEvent.library ⊆
      (calls.foldl step {}).attached.map Library.number := by
  intro n hn
  obtain ⟨e, he, rfl⟩ := mem_map.mp hn
  obtain ⟨_, h⟩ := run_inv calls
  rw [h.destructor_eq] at he
  obtain ⟨l, hl, he⟩ := mem_flatMap.mp he
  exact mem_map.mpr ⟨l, h.split.mem_iff.mpr hl, (library_of_mem_share l he).symm⟩

end Jvm
end FakeJni
