import Mathlib
import McpeLauncher.FrameStack
import McpeLauncher.Runs

/-! # References of libjnivm

With `EnableJNIVMGC` a local reference is the object's pointer and an entry in the frame; a global
one is the pointer of a `Global`, a weak one that of a `Weak`. An object is destroyed when nothing
keeps it. -/
namespace Jnivm
open FrameStack List Function

/-- The objects that the `VM` keeps. -/
inductive GlobalObject (O : Type) where
  | global (wrapped : O)
  | weak (wrapped : O)
  deriving DecidableEq

/-- `ENV` and `VM`, as far as references go. -/
structure RefEnv (O : Type) where
  localframe : List (List O) := [[]]
  freeframes : List (List O) := []
  /-- The objects in `globals` by their addresses, which are below `next`. -/
  globals : Nat → Option (GlobalObject O) := fun _ => none
  next : Nat := 0
  /-- Whether something else keeps the object. -/
  owned : O → Bool
  /-- Whether the object has not been destroyed. -/
  alive : O → Bool
  /-- Whether memory was used that had been freed. -/
  undefined : Bool := false

/-- A `jobject`: the address of an object, or of a `Global` or `Weak`. -/
inductive JRef (O : Type) where
  | object (o : O)
  | handle (id : Nat)

namespace RefEnv
variable {O : Type} [DecidableEq O]

def hasOwner (e : RefEnv O) (o : O) : Bool :=
  e.owned o || o ∈ e.localframe.flatten || o ∈ e.freeframes.flatten ||
    (List.range e.next).any fun id => e.globals id = some (.global o)

/-- Objects that nothing keeps are destroyed. -/
def settle (e : RefEnv O) : RefEnv O := { e with alive := fun o => e.alive o && e.hasOwner o }

/-- `UnpackJObject<Object>`; nothing at all if the memory was freed. -/
def unpackJObject (e : RefEnv O) : JRef O → Option (Option O)
  | .object o => if e.alive o then some (some o) else none
  | .handle id => match e.globals id with
    | some (.weak wrapped) => some (if e.alive wrapped then some wrapped else none)
    | some (.global wrapped) => some (some wrapped)
    | none => none

def newLocalRef (e : RefEnv O) (o : O) : RefEnv O := { e with localframe := push o e.localframe }

def deleteLocalRef (e : RefEnv O) (o : O) : RefEnv O :=
  { e with localframe := eraseTop o e.localframe }

def pushLocalFrame (e : RefEnv O) : RefEnv O :=
  match e.freeframes with
  | [] => { e with localframe := [] :: e.localframe }
  | frame :: freeframes => { e with localframe := frame :: e.localframe, freeframes := freeframes }

/-- `PopLocalFrame` without a result: the frame is cleared and kept for later. -/
def popLocalFrame (e : RefEnv O) : RefEnv O :=
  { e with
    localframe := pop e.localframe
    freeframes := [] :: e.freeframes }

/-- `NewGlobalRef` and `NewWeakGlobalRef` of an object. -/
def newGlobalObject (e : RefEnv O) (g : GlobalObject O) : RefEnv O :=
  { e with globals := Function.update e.globals e.next (some g), next := e.next + 1 }

/-- `DeleteGlobalRef` and `DeleteWeakGlobalRef`; a reference of the other kind is left. -/
def deleteGlobalObject (e : RefEnv O) (id : Nat) (isWeak : Bool) : RefEnv O :=
  match e.globals id, isWeak with
  | none, _ => { e with undefined := true }
  | some (.global _), false => { e with globals := Function.update e.globals id none }
  | some (.weak _), true => { e with globals := Function.update e.globals id none }
  | _, _ => e

theorem hasOwner_iff {e : RefEnv O} {o : O} :
    e.hasOwner o = true ↔ e.owned o = true ∨ o ∈ e.localframe.flatten ∨
      o ∈ e.freeframes.flatten ∨ ∃ id < e.next, e.globals id = some (.global o) := by
  simp only [hasOwner, Bool.or_eq_true, decide_eq_true_eq, any_eq_true, mem_range, or_assoc]

end RefEnv

/-- What a native program holds: its local references frame by frame, and its global and
weak ones. -/
structure JniRefs (O : Type) where
  frames : List (List O) := [[]]
  handles : Nat → Option (GlobalObject O) := fun _ => none

/-- The calls of native code, and of the program around it, which hands out objects and keeps them
or no longer does. -/
inductive RefOp (O : Type) where
  | toJNIType (o : O)
  | retain (r : JRef O)
  | release (o : O)
  | newLocalRef (r : JRef O)
  /-- A reference of the frame `k`, counted from the top. -/
  | deleteLocalRef (o : O) (k : Nat)
  | pushLocalFrame
  | popLocalFrame
  | newGlobalRef (r : JRef O)
  | deleteGlobalRef (id : Nat)
  | newWeakGlobalRef (r : JRef O)
  | deleteWeakGlobalRef (id : Nat)

structure RefSession (O : Type) where
  env : RefEnv O
  refs : JniRefs O := {}

namespace RefSession
variable {O : Type} [DecidableEq O]

/-- What is done with the object of a reference; nothing is done with a null pointer. -/
def withObject (s : RefSession O) (r : JRef O) (f : O → RefSession O) : RefSession O :=
  match s.env.unpackJObject r with
  | none => { s with env := { s.env with undefined := true } }
  | some none => s
  | some (some o) => f o

def localRef (s : RefSession O) (o : O) : RefSession O where
  env := s.env.newLocalRef o
  refs := { s.refs with frames := push o s.refs.frames }

def newHandle (s : RefSession O) (g : GlobalObject O) : RefSession O where
  env := s.env.newGlobalObject g
  refs := { s.refs with handles := Function.update s.refs.handles s.env.next (some g) }

def deleteHandle (s : RefSession O) (id : Nat) (isWeak : Bool) : RefSession O where
  env := s.env.deleteGlobalObject id isWeak
  refs := { s.refs with handles := Function.update s.refs.handles id none }

/-- An operation, before objects are destroyed. -/
def perform (s : RefSession O) : RefOp O → RefSession O
  | .toJNIType o => s.localRef o
  | .retain r => s.withObject r fun o =>
      { s with env := { s.env with owned := Function.update s.env.owned o true } }
  | .release o => { s with env := { s.env with owned := Function.update s.env.owned o false } }
  | .newLocalRef r => s.withObject r s.localRef
  | .deleteLocalRef o k => s.withObject (.object o) fun o =>
      { env := s.env.deleteLocalRef o, refs := { s.refs with frames := eraseAt o k s.refs.frames } }
  | .pushLocalFrame =>
    { env := s.env.pushLocalFrame, refs := { s.refs with frames := [] :: s.refs.frames } }
  | .popLocalFrame =>
    { env := s.env.popLocalFrame, refs := { s.refs with frames := pop s.refs.frames } }
  | .newGlobalRef r => s.withObject r fun o => s.newHandle (.global o)
  | .deleteGlobalRef id => s.deleteHandle id false
  | .newWeakGlobalRef r => s.withObject r fun o => s.newHandle (.weak o)
  | .deleteWeakGlobalRef id => s.deleteHandle id true

def step (s : RefSession O) (op : RefOp O) : RefSession O :=
  { s.perform op with env := (s.perform op).env.settle }

def ValidRef (s : RefSession O) : JRef O → Prop
  | .object o => o ∈ s.refs.frames.flatten
  | .handle id => s.refs.handles id ≠ none

/-- The rules of JNI: only valid references are used, and each is deleted as what it is. -/
def Allowed (s : RefSession O) : RefOp O → Prop
  | .toJNIType o => s.env.owned o = true
  | .retain r => s.ValidRef r
  | .release _ => True
  | .newLocalRef r => s.ValidRef r
  | .deleteLocalRef o k => ∃ frame, s.refs.frames[k]? = some frame ∧ o ∈ frame
  | .pushLocalFrame => True
  | .popLocalFrame => True
  | .newGlobalRef r => s.ValidRef r
  | .deleteGlobalRef id => ∃ o, s.refs.handles id = some (.global o)
  | .newWeakGlobalRef r => s.ValidRef r
  | .deleteWeakGlobalRef id => ∃ o, s.refs.handles id = some (.weak o)

/-- An environment with the objects that are kept elsewhere, and no references. -/
def start (owned : O → Bool) : RefSession O := { env := { owned := owned, alive := owned } }

structure Inv (s : RefSession O) : Prop where
  defined : s.env.undefined = false
  covers : Covers s.env.localframe s.refs.frames
  frame : s.refs.frames ≠ []
  free : ∀ frame ∈ s.env.freeframes, frame = []
  handles : s.refs.handles = s.env.globals
  below : ∀ id, s.env.next ≤ id → s.env.globals id = none
  live : ∀ o, s.env.hasOwner o = true → s.env.alive o = true

variable {s : RefSession O}

/-! ## What the operations keep -/

section
variable (h : s.Inv)
include h

open RefEnv

theorem Inv.alive_owned {o : O} (ho : s.env.owned o = true) : s.env.alive o = true :=
  h.live o (hasOwner_iff.mpr (.inl ho))

theorem Inv.alive_local {o : O} (ho : o ∈ s.env.localframe.flatten) : s.env.alive o = true :=
  h.live o (hasOwner_iff.mpr (.inr (.inl ho)))

theorem Inv.alive_free {o : O} (ho : o ∈ s.env.freeframes.flatten) : s.env.alive o = true :=
  h.live o (hasOwner_iff.mpr (.inr (.inr (.inl ho))))

variable {r : JRef O} {id : Nat} {op : RefOp O}

theorem Inv.alive_global {o : O} (hid : s.env.globals id = some (.global o)) :
    s.env.alive o = true := by
  refine h.live o (hasOwner_iff.mpr (.inr (.inr (.inr ⟨id, ?_, hid⟩))))
  by_contra hge
  rw [h.below id (Nat.le_of_not_lt hge)] at hid
  contradiction

/-- A valid reference leads to an object that is there, or is a null pointer. -/
theorem Inv.unpackJObject (hr : s.ValidRef r) :
    ∃ found, s.env.unpackJObject r = some found ∧ ∀ o ∈ found, s.env.alive o = true := by
  cases r with
  | object o =>
    have halive : s.env.alive o = true := h.alive_local (h.covers.mem hr)
    refine ⟨some o, if_pos halive, ?_⟩
    rintro _ ⟨⟩
    exact halive
  | handle id =>
    rw [ValidRef, h.handles] at hr
    rcases hg : s.env.globals id with _ | wrapped | wrapped
    · exact absurd hg hr
    · refine ⟨some wrapped, by simp only [RefEnv.unpackJObject, hg], ?_⟩
      rintro _ ⟨⟩
      exact h.alive_global hg
    · refine ⟨if s.env.alive wrapped then some wrapped else none,
        by simp only [RefEnv.unpackJObject, hg], ?_⟩
      intro o ho
      split at ho
      · next halive =>
        obtain rfl := Option.some.inj ho
        exact halive
      · contradiction

theorem Inv.withObject (hr : s.ValidRef r) {f : O → RefSession O}
    (hf : ∀ o, s.env.alive o = true → (f o).Inv) : (s.withObject r f).Inv := by
  obtain ⟨found, hfound, halive⟩ := h.unpackJObject hr
  rw [RefSession.withObject, hfound]
  rcases found with _ | o
  · exact h
  · exact hf o (halive o rfl)

theorem Inv.localRef {o : O} (ho : s.env.alive o = true) : (s.localRef o).Inv where
  defined := h.defined
  covers := h.covers.push o
  frame := by
    rcases hframes : s.refs.frames with _ | ⟨frame, frames⟩
    · exact absurd hframes h.frame
    · simp [RefSession.localRef, hframes, push]
  free := h.free
  handles := h.handles
  below := h.below
  live := by
    intro x hx
    rcases hasOwner_iff.mp hx with hx | hx | hx | ⟨id, -, hx⟩
    · exact h.alive_owned hx
    · rcases mem_flatten_push hx with hx | rfl
      · exact h.alive_local hx
      · exact ho
    · exact h.alive_free hx
    · exact h.alive_global hx

theorem Inv.deleteLocalRef {o : O} {k : Nat} {frame : List O} (hk : s.refs.frames[k]? = some frame)
    (ho : o ∈ frame) :
    (s.perform (.deleteLocalRef o k)).Inv := by
  have halive : s.env.alive o = true := by
    refine h.alive_local (h.covers.mem ?_)
    exact mem_flatten.mpr ⟨frame, mem_of_getElem? hk, ho⟩
  have hunpack : s.env.unpackJObject (.object o) = some (some o) := if_pos halive
  simp only [perform, RefSession.withObject, hunpack]
  refine ⟨h.defined, h.covers.delete hk ho, ?_, h.free, h.handles, h.below, ?_⟩
  · intro hnil
    have hlength := congrArg length hnil
    rw [eraseAt, length_modify, length_nil, length_eq_zero_iff] at hlength
    exact h.frame hlength
  · intro x hx
    rcases hasOwner_iff.mp hx with hx | hx | hx | ⟨id, -, hx⟩
    · exact h.alive_owned hx
    · exact h.alive_local (mem_flatten_eraseTop hx)
    · exact h.alive_free hx
    · exact h.alive_global hx

theorem Inv.pushLocalFrame : (s.perform .pushLocalFrame).Inv := by
  rcases hfree : s.env.freeframes with _ | ⟨frame, freeframes⟩
  · simp only [perform, RefEnv.pushLocalFrame, hfree]
    refine ⟨h.defined, h.covers.cons_nil, cons_ne_nil _ _, ?_, h.handles, h.below, ?_⟩
    · intro frame hframe
      exact h.free frame (hfree ▸ hframe)
    · intro x hx
      refine h.live x ?_
      simpa [hasOwner_iff, hfree] using hx
  · obtain rfl := h.free frame (hfree ▸ mem_cons_self)
    simp only [perform, RefEnv.pushLocalFrame, hfree]
    refine ⟨h.defined, h.covers.cons_nil, cons_ne_nil _ _, ?_, h.handles, h.below, ?_⟩
    · intro frame hframe
      exact h.free frame (hfree ▸ mem_cons_of_mem _ hframe)
    · intro x hx
      refine h.live x ?_
      simpa [hasOwner_iff, hfree] using hx

theorem Inv.popLocalFrame : (s.perform .popLocalFrame).Inv where
  defined := h.defined
  covers := h.covers.pop
  frame := pop_ne_nil _
  free := by
    intro frame hframe
    rcases mem_cons.mp hframe with rfl | hframe
    · rfl
    · exact h.free frame hframe
  handles := h.handles
  below := h.below
  live := by
    intro x hx
    rcases hasOwner_iff.mp hx with hx | hx | hx | ⟨id, -, hx⟩
    · exact h.alive_owned hx
    · exact h.alive_local (mem_flatten_pop hx)
    · exact h.alive_free hx
    · exact h.alive_global hx

theorem Inv.newHandle {g : GlobalObject O} (hg : ∀ o, g = .global o → s.env.alive o = true) :
    (s.newHandle g).Inv where
  defined := h.defined
  covers := h.covers
  frame := h.frame
  free := h.free
  handles := by
    show update s.refs.handles _ _ = update s.env.globals _ _
    rw [h.handles]
  below := by
    intro id hid
    have hne : id ≠ s.env.next := ne_of_gt hid
    show update s.env.globals s.env.next (some g) id = none
    rw [update_of_ne hne]
    exact h.below id (Nat.le_of_succ_le hid)
  live := by
    intro x hx
    rcases hasOwner_iff.mp hx with hx | hx | hx | ⟨id, -, hglobal⟩
    · exact h.alive_owned hx
    · exact h.alive_local hx
    · exact h.alive_free hx
    · by_cases hnext : id = s.env.next
      · subst hnext
        have hself : update s.env.globals s.env.next (some g) s.env.next =
            some (.global x) := hglobal
        rw [update_self] at hself
        exact hg x (Option.some.inj hself)
      · have hold : update s.env.globals s.env.next (some g) id = some (.global x) := hglobal
        rw [update_of_ne hnext] at hold
        exact h.alive_global hold

theorem Inv.deleteHandle {isWeak : Bool} (hdelete : s.env.deleteGlobalObject id isWeak =
      { s.env with globals := update s.env.globals id none }) : (s.deleteHandle id isWeak).Inv := by
  rw [RefSession.deleteHandle, hdelete]
  refine ⟨h.defined, h.covers, h.frame, h.free, ?_, ?_, ?_⟩
  · rw [h.handles]
  · intro other hother
    show update s.env.globals id none other = none
    by_cases hid : other = id
    · rw [hid, update_self]
    · rw [update_of_ne hid]
      exact h.below other hother
  · intro x hx
    rcases hasOwner_iff.mp hx with hx | hx | hx | ⟨other, -, hglobal⟩
    · exact h.alive_owned hx
    · exact h.alive_local hx
    · exact h.alive_free hx
    · have hold : update s.env.globals id none other = some (.global x) := hglobal
      have hne : other ≠ id := by
        rintro rfl
        rw [update_self] at hold
        contradiction
      rw [update_of_ne hne] at hold
      exact h.alive_global hold

theorem Inv.setOwned (o : O) {held : Bool} (ho : held = true → s.env.alive o = true) :
    { s with env := { s.env with owned := update s.env.owned o held } }.Inv where
  defined := h.defined
  covers := h.covers
  frame := h.frame
  free := h.free
  handles := h.handles
  below := h.below
  live := by
    intro x hx
    rcases hasOwner_iff.mp hx with hx | hx
    · have hold : update s.env.owned o held x = true := hx
      by_cases hxo : x = o
      · rw [hxo, update_self] at hold
        rw [hxo]
        exact ho hold
      · rw [update_of_ne hxo] at hold
        exact h.alive_owned hold
    · exact h.live x (hasOwner_iff.mpr (.inr hx))

theorem Inv.perform (hop : s.Allowed op) : (s.perform op).Inv := by
  cases op with
  | toJNIType o => exact h.localRef (h.alive_owned hop)
  | retain r => exact h.withObject hop fun o ho => h.setOwned o fun _ => ho
  | release o => exact h.setOwned o nofun
  | newLocalRef r => exact h.withObject hop fun o ho => h.localRef ho
  | deleteLocalRef o k =>
    obtain ⟨frame, hk, ho⟩ := hop
    exact h.deleteLocalRef hk ho
  | pushLocalFrame => exact h.pushLocalFrame
  | popLocalFrame => exact h.popLocalFrame
  | newGlobalRef r =>
    refine h.withObject hop fun o ho => h.newHandle ?_
    rintro _ ⟨⟩
    exact ho
  | deleteGlobalRef id =>
    obtain ⟨o, hid⟩ := hop
    rw [h.handles] at hid
    exact h.deleteHandle (by simp only [deleteGlobalObject, hid])
  | newWeakGlobalRef r =>
    refine h.withObject hop fun o ho => h.newHandle ?_
    intro x hx
    contradiction
  | deleteWeakGlobalRef id =>
    obtain ⟨o, hid⟩ := hop
    rw [h.handles] at hid
    exact h.deleteHandle (by simp only [deleteGlobalObject, hid])

theorem Inv.step (hop : s.Allowed op) : (s.step op).Inv := by
  have hperform := h.perform hop
  refine ⟨hperform.defined, hperform.covers, hperform.frame, hperform.free, hperform.handles,
    hperform.below, ?_⟩
  intro o ho
  have howner : (s.perform op).env.hasOwner o = true := ho
  show ((s.perform op).env.alive o && (s.perform op).env.hasOwner o) = true
  rw [hperform.live o howner, howner]
  rfl

end

theorem Inv.start (owned : O → Bool) : (RefSession.start owned).Inv where
  defined := rfl
  covers := ⟨rfl, fun _ _ => le_rfl⟩
  frame := cons_ne_nil _ _
  free := by
    intro frame hframe
    contradiction
  handles := rfl
  below := fun _ _ => rfl
  live := by simp [RefEnv.hasOwner_iff, RefSession.start]

/-- **Objects live as long as they are referenced** by a local reference neither deleted nor popped
or a global one not deleted; a weak reference leads to its object exactly while it is there; and
freed memory is never used. -/
theorem referenced_objects_alive (owned : O → Bool) (ops : List (RefOp O))
    (hops : Runs.Along step Allowed (start owned) ops) :
    let s := ops.foldl step (start owned)
    (∀ o, (o ∈ s.refs.frames.flatten ∨ ∃ id, s.refs.handles id = some (.global o)) →
      s.env.alive o = true) ∧
    (∀ id o, s.refs.handles id = some (.weak o) →
      (s.env.unpackJObject (.handle id) = some (some o) ↔ s.env.alive o = true)) ∧
    s.env.undefined = false := by
  intro s
  have h : s.Inv := Runs.invariant Inv (fun _ _ h hop => h.step hop) (Inv.start owned) hops
  refine ⟨?_, ?_, h.defined⟩
  · rintro o (ho | ⟨id, hid⟩)
    · exact h.alive_local (h.covers.mem ho)
    · rw [h.handles] at hid
      exact h.alive_global hid
  · intro id o hid
    rw [h.handles] at hid
    simp [RefEnv.unpackJObject, hid]

/-- Two references to the object 0 in two frames; the outer one is deleted, and the inner entry
goes. -/
def deleteOuter : List (RefOp Nat) :=
  [.toJNIType 0, .pushLocalFrame, .newLocalRef (.object 0), .newWeakGlobalRef (.object 0),
    .deleteLocalRef 0 1, .release 0]

theorem referenced_objects_alive_outer :
    let s := deleteOuter.foldl step (start fun _ => true)
    (∀ o, (o ∈ s.refs.frames.flatten ∨ ∃ id, s.refs.handles id = some (.global o)) →
      s.env.alive o = true) ∧
    (∀ id o, s.refs.handles id = some (.weak o) →
      (s.env.unpackJObject (.handle id) = some (some o) ↔ s.env.alive o = true)) ∧
    s.env.undefined = false := by
  refine referenced_objects_alive (fun _ => true) deleteOuter
    ⟨rfl, trivial, ?_, ?_, ?_, trivial, trivial⟩
  · show 0 ∈ _
    decide
  · show 0 ∈ _
    decide
  · exact ⟨[0], rfl, mem_singleton_self 0⟩

end RefSession
end Jnivm
