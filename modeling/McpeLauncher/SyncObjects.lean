import Mathlib
import McpeLauncher.Runs

/-! # Mutexes, condition variables and locks of bionic

An object of the game has a field `wrapped`, the value of a static initializer or a pointer to the
object of the host, which is made at first use. The field goes on pointing to a host object whose
constructor failed or that was destroyed, and a second initialization loses it. -/
namespace LibcShim
open Runs Function Finset

inductive SyncKind where
  | mutex
  | cond
  | rwlock
  deriving DecidableEq

/-- An object of the game, by its kind and its address. -/
structure SyncObject where
  kind : SyncKind
  address : Nat
  deriving DecidableEq

inductive MutexType where
  | normal
  | recursive
  | errorcheck
  deriving DecidableEq

/-- `mutex_init_value`, which is also the null pointer, `recursive_mutex_init_value` and
`errorcheck_mutex_init_value`. -/
inductive InitValue where
  | zero
  | recursive
  | errorcheck
  deriving DecidableEq

/-- The type that `mutex_static_initializer` sets. -/
def InitValue.mutexType : InitValue → MutexType
  | .zero => .normal
  | .recursive => .recursive
  | .errorcheck => .errorcheck

/-- A mutex's initial value may have a field of its own; it stands for both as long as `wrapped` is
null. -/
inductive Wrapped where
  | uninitialized (value : InitValue)
  | host (p : Nat)
  deriving DecidableEq

/-- The fields, and the host objects: how many were made, the live ones, how often each was freed,
and their types. -/
structure SyncState where
  wrapped : SyncObject → Wrapped
  made : Nat
  live : Finset Nat
  frees : Nat → Nat
  types : Nat → MutexType

def SyncState.start (values : SyncObject → InitValue) : SyncState where
  wrapped o := .uninitialized (values o)
  made := 0
  live := ∅
  frees _ := 0
  types _ := .normal

namespace SyncState
variable (s : SyncState)

def construct (o : SyncObject) (type : MutexType) : SyncState where
  wrapped := Function.update s.wrapped o (.host s.made)
  made := s.made + 1
  live := insert s.made s.live
  frees := s.frees
  types := Function.update s.types s.made type

def delete (p : Nat) : SyncState :=
  { s with
    live := s.live.erase p
    frees := Function.update s.frees p (s.frees p + 1) }

/-- `make_c_wrapped`; `ret` is what the constructor returns. -/
def makeCWrapped (o : SyncObject) (type : MutexType) (ret : Int) : SyncState :=
  if ret = 0 then s.construct o type else (s.construct o type).delete s.made

/-- Nothing for an object without a host object, and `destroy_c_wrapped` otherwise. -/
def destroy (o : SyncObject) : SyncState :=
  match s.wrapped o with
  | .uninitialized _ => s
  | .host p => s.delete p

/-- With no attributes, or those of a type; `to_host_mutex_type` throws for any but the three. -/
def pthreadMutexInit (mutex : Nat) (attr : Option (Option MutexType)) (ret : Int) : SyncState :=
  if attr = some none then s
  else s.makeCWrapped ⟨.mutex, mutex⟩ (attr.join.getD .normal) ret

/-- `to_host_clock_type` throws for attributes with an unknown clock. -/
def pthreadCondInit (cond : Nat) (unknownClock : Bool) (ret : Int) : SyncState :=
  if unknownClock then s else s.makeCWrapped ⟨.cond, cond⟩ .normal ret

/-- A lock with attributes is refused with an exception. -/
def pthreadRwlockInit (rwlock : Nat) (attr : Bool) (ret : Int) : SyncState :=
  if attr then s else s.makeCWrapped ⟨.rwlock, rwlock⟩ .normal ret

/-- The pointer passed on, or `none` if the initializer of a mutex throws; the others ignore what
the constructor returned. -/
def toHost (o : SyncObject) (ret : Int) : Option Nat × SyncState :=
  match s.wrapped o with
  | .host p => (some p, s)
  | .uninitialized value =>
    (if o.kind = .mutex ∧ ret ≠ 0 then none else some s.made,
      s.makeCWrapped o value.mutexType ret)

end SyncState

/-- With what the host's constructors return. `use` passes on one pointer, `wait` two. -/
inductive SyncCall where
  | mutexInit (mutex : Nat) (attr : Option (Option MutexType)) (ret : Int)
  | condInit (cond : Nat) (unknownClock : Bool) (ret : Int)
  | rwlockInit (rwlock : Nat) (attr : Bool) (ret : Int)
  | destroy (o : SyncObject)
  | use (o : SyncObject) (ret : Int)
  | wait (cond mutex : Nat) (condRet mutexRet : Int)

namespace SyncState

def step (s : SyncState) : SyncCall → SyncState
  | .mutexInit mutex attr ret => s.pthreadMutexInit mutex attr ret
  | .condInit cond unknownClock ret => s.pthreadCondInit cond unknownClock ret
  | .rwlockInit rwlock attr ret => s.pthreadRwlockInit rwlock attr ret
  | .destroy o => s.destroy o
  | .use o ret => (s.toHost o ret).2
  | .wait cond mutex condRet mutexRet =>
    ((s.toHost ⟨.cond, cond⟩ condRet).2.toHost ⟨.mutex, mutex⟩ mutexRet).2

/-- No field dangles, and no host object is lost or freed twice. -/
structure Sound (s : SyncState) : Prop where
  field : ∀ o p, s.wrapped o = .host p → p ∈ s.live
  freed : ∀ p < s.made, p ∈ s.live ∧ s.frees p = 0 ∧ (∃ o, s.wrapped o = .host p) ∨
    p ∉ s.live ∧ s.frees p = 1

def Fresh (s : SyncState) (o : SyncObject) : Prop := ∃ value, s.wrapped o = .uninitialized value

/-- Unless its attributes are refused, an object is initialized when it is fresh only; so it is
destroyed; and the host's constructors succeed. -/
def Careful (s : SyncState) : SyncCall → Prop
  | .mutexInit mutex attr ret => attr ≠ some none → s.Fresh ⟨.mutex, mutex⟩ ∧ ret = 0
  | .condInit cond unknownClock ret => unknownClock = false → s.Fresh ⟨.cond, cond⟩ ∧ ret = 0
  | .rwlockInit rwlock attr ret => attr = false → s.Fresh ⟨.rwlock, rwlock⟩ ∧ ret = 0
  | .destroy o => s.Fresh o
  | .use o ret => s.Fresh o → ret = 0
  | .wait cond mutex condRet mutexRet =>
    (s.Fresh ⟨.cond, cond⟩ → condRet = 0) ∧ (s.Fresh ⟨.mutex, mutex⟩ → mutexRet = 0)

/-- Besides, no two fields point to one host object, and those not made yet are not there. -/
structure Inv (s : SyncState) : Prop where
  sound : s.Sound
  unique : ∀ o o' p, s.wrapped o = .host p → s.wrapped o' = .host p → o = o'
  unmade : ∀ p, s.made ≤ p → p ∉ s.live ∧ s.frees p = 0

theorem Inv.start (values : SyncObject → InitValue) : (start values).Inv where
  sound := ⟨fun _ _ h => (by cases h), fun _ hp => absurd hp (Nat.not_lt_zero _)⟩
  unique _ _ _ h := by cases h
  unmade _ _ := ⟨notMem_empty _, rfl⟩

/-! ## Making an object -/

variable {p : Nat} {c : SyncCall}

section Make
variable {s : SyncState} {o o' : SyncObject} {type : MutexType} {ret : Int}

theorem fresh_or_host (s : SyncState) (o : SyncObject) :
    s.Fresh o ∨ ∃ p, s.wrapped o = .host p := by
  rcases h : s.wrapped o with value | p
  · exact .inl ⟨value, h⟩
  · exact .inr ⟨p, rfl⟩

theorem wrapped_construct_self (s : SyncState) (o : SyncObject) (type : MutexType) :
    (s.construct o type).wrapped o = .host s.made :=
  update_self ..

theorem wrapped_construct_of_ne (s : SyncState) (type : MutexType) (h : o' ≠ o) :
    (s.construct o type).wrapped o' = s.wrapped o' :=
  update_of_ne h ..

/-- A pointer in a field is the new one of the object, or an old one of another object. -/
theorem wrapped_construct_cases (hp : (s.construct o type).wrapped o' = .host p) :
    o' = o ∧ p = s.made ∨ o' ≠ o ∧ s.wrapped o' = .host p := by
  by_cases heq : o' = o
  · rw [heq, wrapped_construct_self] at hp
    exact .inl ⟨heq, (Wrapped.host.inj hp).symm⟩
  · rw [s.wrapped_construct_of_ne type heq] at hp
    exact .inr ⟨heq, hp⟩

theorem wrapped_make_self : (s.makeCWrapped o type ret).wrapped o = .host s.made := by
  rw [makeCWrapped]
  split <;> exact s.wrapped_construct_self o type

theorem wrapped_make_of_ne (h : o' ≠ o) :
    (s.makeCWrapped o type ret).wrapped o' = s.wrapped o' := by
  rw [makeCWrapped]
  split <;> exact s.wrapped_construct_of_ne type h

theorem Inv.construct (h : s.Inv) (hfresh : s.Fresh o) : (s.construct o type).Inv := by
  obtain ⟨value, hvalue⟩ := hfresh
  have hne {o' : SyncObject} {p : Nat} (hp : s.wrapped o' = .host p) : o' ≠ o := by
    rintro rfl
    cases hvalue.symm.trans hp
  have hlt {o' : SyncObject} {p : Nat} (hp : s.wrapped o' = .host p) : p ≠ s.made := by
    rintro rfl
    exact (h.unmade _ le_rfl).1 (h.sound.field o' _ hp)
  refine ⟨⟨?_, ?_⟩, ?_, ?_⟩
  · intro o' p hp
    rcases wrapped_construct_cases hp with ⟨-, rfl⟩ | ⟨-, hold⟩
    · exact mem_insert_self _ _
    · exact mem_insert_of_mem (h.sound.field o' p hold)
  · intro p hp
    rcases Nat.lt_succ_iff_lt_or_eq.mp hp with hp | rfl
    · rcases h.sound.freed p hp with ⟨hlive, hfrees, o', howner⟩ | ⟨hdead, hfrees⟩
      · refine .inl ⟨mem_insert_of_mem hlive, hfrees, o', ?_⟩
        exact (s.wrapped_construct_of_ne type (hne howner)).trans howner
      · refine .inr ⟨fun hmem => ?_, hfrees⟩
        rcases mem_insert.mp hmem with rfl | hmem
        · exact lt_irrefl _ hp
        · exact hdead hmem
    · exact .inl ⟨mem_insert_self _ _, (h.unmade _ le_rfl).2, o,
        s.wrapped_construct_self o type⟩
  · intro o₁ o₂ p h₁ h₂
    rcases wrapped_construct_cases h₁ with ⟨rfl, rfl⟩ | ⟨-, hold₁⟩
    · rcases wrapped_construct_cases h₂ with ⟨rfl, -⟩ | ⟨-, hold₂⟩
      · rfl
      · exact absurd rfl (hlt hold₂)
    · rcases wrapped_construct_cases h₂ with ⟨-, rfl⟩ | ⟨-, hold₂⟩
      · exact absurd rfl (hlt hold₁)
      · exact h.unique o₁ o₂ p hold₁ hold₂
  · intro p hp
    obtain ⟨hdead, hfrees⟩ := h.unmade p (Nat.le_of_succ_le hp)
    refine ⟨fun hmem => ?_, hfrees⟩
    rcases mem_insert.mp hmem with rfl | hmem
    · exact absurd hp (Nat.not_succ_le_self _)
    · exact hdead hmem

/-- The field points to a host object that was freed. -/
def Dangles (s : SyncState) (o : SyncObject) : Prop :=
  ∃ p < s.made, s.wrapped o = .host p ∧ p ∉ s.live

theorem Dangles.not_sound (h : s.Dangles o) : ¬ s.Sound := by
  obtain ⟨p, -, hfield, hdead⟩ := h
  exact fun hsound => hdead (hsound.field o p hfield)

theorem dangles_of_failed (h : ret ≠ 0) : (s.makeCWrapped o type ret).Dangles o := by
  refine ⟨s.made, ?_, wrapped_make_self, ?_⟩
  · rw [makeCWrapped, if_neg h]
    exact Nat.lt_succ_self _
  · rw [makeCWrapped, if_neg h]
    exact notMem_erase _ _

/-- What dangles is not mended by what happens to another object. -/
theorem Dangles.make (h : s.Dangles o) (hne : o ≠ o') : (s.makeCWrapped o' type ret).Dangles o := by
  obtain ⟨p, hlt, hfield, hdead⟩ := h
  refine ⟨p, ?_, (wrapped_make_of_ne hne).trans hfield, ?_⟩
  · rw [makeCWrapped]
    split <;> exact Nat.lt_succ_of_lt hlt
  · have hinsert : p ∉ insert s.made s.live := fun hmem =>
      (mem_insert.mp hmem).elim (ne_of_lt hlt) hdead
    rw [makeCWrapped]
    split
    · exact hinsert
    · exact fun hmem => hinsert (mem_of_mem_erase hmem)

/-- The host object of an object that is initialized again is lost. -/
theorem Inv.not_sound_construct (h : s.Inv) (hp : s.wrapped o = .host p) :
    ¬ (s.construct o type).Sound := by
  intro hsound
  have hlive := h.sound.field o p hp
  have hlt : p < s.made := by
    by_contra hge
    exact (h.unmade p (not_lt.mp hge)).1 hlive
  rcases hsound.freed p (Nat.lt_succ_of_lt hlt) with ⟨-, -, o', howner⟩ | ⟨hdead, -⟩
  · rcases wrapped_construct_cases howner with ⟨-, rfl⟩ | ⟨hne, hold⟩
    · exact lt_irrefl _ hlt
    · exact hne (h.unique o' o p hold hp)
  · exact hdead (mem_insert_of_mem hlive)

theorem Inv.make (h : s.Inv) (hfresh : s.Fresh o) (hret : ret = 0) :
    (s.makeCWrapped o type ret).Inv := by
  rw [makeCWrapped, if_pos hret]
  exact h.construct hfresh

theorem Inv.init {refused : Prop} [Decidable refused] (h : s.Inv)
    (hc : ¬ refused → s.Fresh o ∧ ret = 0) :
    (if refused then s else s.makeCWrapped o type ret).Inv := by
  split
  · exact h
  · next hgo => exact h.make (hc hgo).1 (hc hgo).2

theorem Inv.of_sound_make (h : s.Inv) (hsound : (s.makeCWrapped o type ret).Sound) :
    s.Fresh o ∧ ret = 0 := by
  have hret : ret = 0 := by
    by_contra hfailed
    exact (dangles_of_failed hfailed).not_sound hsound
  rw [makeCWrapped, if_pos hret] at hsound
  rcases s.fresh_or_host o with hfresh | ⟨p, hp⟩
  · exact ⟨hfresh, hret⟩
  · exact absurd hsound (h.not_sound_construct hp)

end Make

/-! ## Using and destroying an object -/

section Use
variable {s : SyncState} {o o' : SyncObject} {ret : Int}

theorem toHost_of_host (h : s.wrapped o = .host p) : (s.toHost o ret).2 = s := by rw [toHost, h]

theorem toHost_of_uninitialized {value : InitValue} (h : s.wrapped o = .uninitialized value) :
    (s.toHost o ret).2 = s.makeCWrapped o value.mutexType ret := by
  rw [toHost, h]

theorem wrapped_toHost_of_ne (hne : o' ≠ o) : (s.toHost o ret).2.wrapped o' = s.wrapped o' := by
  rcases s.fresh_or_host o with ⟨value, h⟩ | ⟨p, h⟩
  · rw [toHost_of_uninitialized h, wrapped_make_of_ne hne]
  · rw [toHost_of_host h]

theorem Inv.toHost (h : s.Inv) (hret : s.Fresh o → ret = 0) : (s.toHost o ret).2.Inv := by
  rcases s.fresh_or_host o with ⟨value, hvalue⟩ | ⟨p, hp⟩
  · rw [toHost_of_uninitialized hvalue]
    exact h.make ⟨value, hvalue⟩ (hret ⟨value, hvalue⟩)
  · rw [toHost_of_host hp]
    exact h

theorem dangles_of_toHost (hfresh : s.Fresh o) (hret : ret ≠ 0) : (s.toHost o ret).2.Dangles o := by
  obtain ⟨value, hvalue⟩ := hfresh
  rw [toHost_of_uninitialized hvalue]
  exact dangles_of_failed hret

theorem Dangles.toHost (h : s.Dangles o) (hne : o ≠ o') : (s.toHost o' ret).2.Dangles o := by
  rcases s.fresh_or_host o' with ⟨value, hvalue⟩ | ⟨p, hp⟩
  · rw [toHost_of_uninitialized hvalue]
    exact h.make hne
  · rw [toHost_of_host hp]
    exact h

theorem of_sound_toHost (hsound : (s.toHost o ret).2.Sound) (hfresh : s.Fresh o) : ret = 0 := by
  by_contra hfailed
  exact (dangles_of_toHost hfresh hfailed).not_sound hsound

theorem destroy_of_fresh (h : s.Fresh o) : s.destroy o = s := by
  obtain ⟨value, hvalue⟩ := h
  rw [destroy, hvalue]

theorem of_sound_destroy (hsound : (s.destroy o).Sound) : s.Fresh o := by
  rcases s.fresh_or_host o with hfresh | ⟨p, hp⟩
  · exact hfresh
  · -- The field still points to what was deleted.
    rw [destroy, hp] at hsound
    exact absurd (hsound.field o p hp) (notMem_erase p s.live)

end Use

theorem Inv.step {s : SyncState} (h : s.Inv) (hc : s.Careful c) : (s.step c).Inv := by
  cases c with
  | mutexInit mutex attr ret => exact h.init hc
  | condInit cond unknownClock ret => exact h.init fun hgo => hc (Bool.eq_false_iff.mpr hgo)
  | rwlockInit rwlock attr ret => exact h.init fun hgo => hc (Bool.eq_false_iff.mpr hgo)
  | destroy o =>
    rw [SyncState.step, destroy_of_fresh hc]
    exact h
  | use o ret => exact h.toHost hc
  | wait cond mutex condRet mutexRet =>
    apply (h.toHost hc.1).toHost
    rintro ⟨value, hvalue⟩
    rw [wrapped_toHost_of_ne (by simp)] at hvalue
    exact hc.2 ⟨value, hvalue⟩

theorem Inv.careful_of_sound {s : SyncState} (h : s.Inv) (hsound : (s.step c).Sound) :
    s.Careful c := by
  cases c with
  | mutexInit mutex attr ret =>
    intro hattr
    rw [SyncState.step, pthreadMutexInit, if_neg hattr] at hsound
    exact h.of_sound_make hsound
  | condInit cond unknownClock ret =>
    rintro rfl
    exact h.of_sound_make hsound
  | rwlockInit rwlock attr ret =>
    rintro rfl
    exact h.of_sound_make hsound
  | destroy o => exact of_sound_destroy hsound
  | use o ret => exact of_sound_toHost hsound
  | wait cond mutex condRet mutexRet =>
    have hcond : s.Fresh ⟨.cond, cond⟩ → condRet = 0 := by
      intro hfresh
      by_contra hfailed
      exact ((dangles_of_toHost hfresh hfailed).toHost (by simp)).not_sound hsound
    refine ⟨hcond, fun ⟨value, hvalue⟩ => of_sound_toHost hsound ⟨value, ?_⟩⟩
    rw [wrapped_toHost_of_ne (by simp), hvalue]

end SyncState

open SyncState

/-- **After every front of a run the fields are markers or point to live host objects, and each host
object has an owner or was freed once, exactly if every call is careful.** -/
theorem sync_objects_iff (values : SyncObject → InitValue) (calls : List SyncCall) :
    (∀ front, front <+: calls → (front.foldl step (.start values)).Sound) ↔
      Along step Careful (.start values) calls :=
  forall_front_iff Inv Sound (fun _ h => h.sound)
    (fun _ _ h hc => h.step hc) (fun _ _ h hsound => h.careful_of_sound hsound)
    (Inv.start values) calls

/-- A mutex that is destroyed twice, and one whose constructor fails. -/
theorem sync_objects_dangle :
    let o : SyncObject := ⟨.mutex, 0⟩
    let once : SyncState := [SyncCall.mutexInit 0 none 0, .destroy o].foldl step
      (.start fun _ => .zero)
    let twice : SyncState := [SyncCall.mutexInit 0 none 0, .destroy o, .destroy o].foldl
      step (.start fun _ => .zero)
    let failed : SyncState := [SyncCall.use o 12].foldl step (.start fun _ => .zero)
    (once.wrapped o = .host 0 ∧ 0 ∉ once.live) ∧ twice.frees 0 = 2 ∧
      (failed.wrapped o = .host 0 ∧ 0 ∉ failed.live) ∧ ¬ once.Sound ∧ ¬ failed.Sound := by
  intro o once twice failed
  have honce : once.wrapped o = .host 0 ∧ 0 ∉ once.live := by decide +kernel
  have hfailed : failed.wrapped o = .host 0 ∧ 0 ∉ failed.live := by decide +kernel
  exact ⟨honce, by decide +kernel, hfailed, fun h => honce.2 (h.field o 0 honce.1),
    fun h => hfailed.2 (h.field o 0 hfailed.1)⟩

end LibcShim
