import Mathlib.Data.List.FinRange
import McpeLauncher.Runs

/-! # Touch pointers

An `EGLUTWindow` gives small numbers to touches. `pointerIds` has sixteen slots, -1 where a slot is
free; the pointer of a touch is the slot that holds its id. -/
namespace GameWindow
open Runs Function

/-- `pointerIds`, and whether an entry that it does not have was written. -/
structure EGLUTWindow where
  pointerIds : Fin 16 → Int32 := fun _ => -1
  outside : Bool := false

namespace EGLUTWindow

def slotOf (w : EGLUTWindow) (id : Int32) : Option (Fin 16) :=
  (List.finRange 16).find? fun i => w.pointerIds i = id

def pointer (i : Fin 16) : Int32 := Int32.ofNat i

def putId (w : EGLUTWindow) (i : Fin 16) (id : Int32) : EGLUTWindow :=
  { w with pointerIds := Function.update w.pointerIds i id }

def obtainTouchPointer (w : EGLUTWindow) (eglutId : Int32) : Int32 × EGLUTWindow :=
  match w.slotOf eglutId with
  | some i => (pointer i, w)
  | none =>
    match w.slotOf (-1) with
    | some i => (pointer i, w.putId i eglutId)
    | none => (16 + eglutId, w)

def slotAt (ourId : Int32) : Option (Fin 16) := (List.finRange 16).find? fun i => pointer i = ourId

def releaseTouchPointer (w : EGLUTWindow) (ourId : Int32) : EGLUTWindow :=
  match slotAt ourId with
  | some i => w.putId i (-1)
  | none => { w with outside := true }

end EGLUTWindow

inductive TouchKind where
  | start
  | update
  | stop
  deriving DecidableEq

/-- What eglut reports; a window passes it on with another id. -/
structure TouchEvent (R : Type) where
  kind : TouchKind
  id : Int32
  x : R
  y : R
  deriving DecidableEq

variable {R : Type}

namespace EGLUTWindow

/-- `_eglutTouchStartFunc`, `_eglutTouchUpdateFunc` and `_eglutTouchEndFunc` of the
current window. -/
def touch (w : EGLUTWindow) (e : TouchEvent R) : TouchEvent R × EGLUTWindow :=
  let (ourId, w) := w.obtainTouchPointer e.id
  ({ e with id := ourId },
    match e.kind with
    | .stop => w.releaseTouchPointer ourId
    | _ => w)

/-- The touch has a slot or finds a free one. -/
def Slotted (w : EGLUTWindow) (e : TouchEvent R) : Prop :=
  e.id ≠ -1 ∧ ∃ i, w.pointerIds i = e.id ∨ w.pointerIds i = -1

end EGLUTWindow

/-- A window with the touches that have started and not ended, each with the pointer that was
reported first. -/
structure TouchSession where
  window : EGLUTWindow := {}
  active : Int32 → Option Int32 := fun _ => none

namespace TouchSession

def started (s : TouchSession) (e : TouchEvent R) : Int32 → Option Int32 :=
  Function.update s.active e.id
    (match e.kind with
      | .start => some ((s.active e.id).getD (s.window.touch e).1.id)
      | .update => s.active e.id
      | .stop => none)

def step (s : TouchSession) (e : TouchEvent R) : TouchSession := ⟨(s.window.touch e).2, s.started e⟩

def run (events : List (TouchEvent R)) : TouchSession := events.foldl step {}

/-- Every event finds a slot for its touch. -/
def AllSlotted (events : List (TouchEvent R)) : Prop :=
  Along step (fun s e => s.window.Slotted e) {} events

/-- Active touches have different pointers. -/
def Apart (s : TouchSession) : Prop := ∀ a b p, s.active a = some p → s.active b = some p → a = b

/-- What an event is reported with, where its touch is active. -/
def Keeps (s : TouchSession) (e : TouchEvent R) : Prop :=
  ∀ p, s.active e.id = some p → (s.window.touch e).1.id = p

/-- The end of a touch frees the slot of its pointer and no other. -/
def FreesOwn (s : TouchSession) (e : TouchEvent R) : Prop :=
  e.kind = .stop → ∀ i, (s.step e).window.pointerIds i =
    if EGLUTWindow.pointer i = (s.window.touch e).1.id then -1 else s.window.pointerIds i

end TouchSession

namespace EGLUTWindow
variable {w : EGLUTWindow} {id : Int32} {i j : Fin 16} {e : TouchEvent R}

theorem slotOf_eq_some (h : w.slotOf id = some i) : w.pointerIds i = id := by
  have := List.find?_some h
  simpa using this

theorem slotOf_eq_none (h : w.slotOf id = none) (i : Fin 16) : w.pointerIds i ≠ id := by
  have := List.find?_eq_none.mp h i (List.mem_finRange i)
  simpa using this

theorem pointer_inj (h : pointer i = pointer j) : i = j := by
  revert i j
  decide

theorem slotAt_pointer (i : Fin 16) : slotAt (pointer i) = some i := by
  revert i
  decide

/-- No id is in two slots. -/
def Single (w : EGLUTWindow) : Prop :=
  ∀ i j, w.pointerIds i = w.pointerIds j → w.pointerIds i ≠ -1 → i = j

theorem obtainTouchPointer_slotted (h : w.Slotted e) :
    ∃ i, w.obtainTouchPointer e.id = (pointer i, w.putId i e.id) ∧
      (w.pointerIds i = e.id ∨ w.pointerIds i = -1 ∧ ∀ j, w.pointerIds j ≠ e.id) := by
  obtain ⟨-, j, hj⟩ := h
  rw [obtainTouchPointer]
  rcases hown : w.slotOf e.id with _ | i
  · have hnone := slotOf_eq_none hown
    rcases hfree : w.slotOf (-1) with _ | i
    · have hnot := slotOf_eq_none hfree j
      exact absurd hj (not_or.mpr ⟨hnone j, hnot⟩)
    · exact ⟨i, rfl, .inr ⟨slotOf_eq_some hfree, hnone⟩⟩
  · have hi := slotOf_eq_some hown
    refine ⟨i, ?_, .inl hi⟩
    rw [putId, ← hi, update_eq_self]

theorem touch_slotted (h : w.Slotted e) :
    ∃ i, w.touch e = ({ e with id := pointer i },
        w.putId i (if e.kind = .stop then -1 else e.id)) ∧
      (w.pointerIds i = e.id ∨ w.pointerIds i = -1 ∧ ∀ j, w.pointerIds j ≠ e.id) := by
  obtain ⟨i, hobtain, hi⟩ := obtainTouchPointer_slotted h
  refine ⟨i, ?_, hi⟩
  rw [touch, hobtain]
  rcases hkind : e.kind with _ | _ | _
  · rfl
  · rfl
  · simp only [releaseTouchPointer, slotAt_pointer, putId, update_idem, if_true]

/-- An id that goes into its own slot, or into any slot when it has none, is in no other. -/
theorem Single.putId (h : w.Single) (hi : w.pointerIds i = id ∨ ∀ j, w.pointerIds j ≠ id)
    {id' : Int32} (hid' : id' = id ∨ id' = -1) : (w.putId i id').Single := by
  have hother : ∀ j, j ≠ i → id ≠ -1 → w.pointerIds j ≠ id := by
    intro j hj hne heq
    rcases hi with hown | hnone
    · exact hj (h j i (heq.trans hown.symm) (heq ▸ hne))
    · exact hnone j heq
  intro j k hjk hfree
  simp only [EGLUTWindow.putId] at hjk hfree
  by_cases hj : j = i
  · subst hj
    rw [update_self] at hjk hfree
    obtain rfl := hid'.resolve_right hfree
    by_contra hk
    rw [update_of_ne (Ne.symm hk)] at hjk
    exact hother k (Ne.symm hk) hfree hjk.symm
  · rw [update_of_ne hj] at hjk hfree
    by_cases hk : k = i
    · subst hk
      rw [update_self] at hjk
      obtain rfl := hid'.resolve_right (hjk ▸ hfree)
      exact absurd hjk (hother j hj (hjk ▸ hfree))
    · rw [update_of_ne hk] at hjk
      exact h j k hjk hfree

end EGLUTWindow

namespace TouchSession
open EGLUTWindow

/-- Every active touch has the slot of its pointer. -/
structure Inv (s : TouchSession) : Prop where
  inside : s.window.outside = false
  single : s.window.Single
  owns : ∀ id p, s.active id = some p → id ≠ -1 ∧ ∃ i, p = pointer i ∧ s.window.pointerIds i = id

theorem Inv.start : Inv {} where
  inside := rfl
  single _ _ _ hfree := absurd rfl hfree
  owns _ _ h := nomatch h

variable {s : TouchSession} {e : TouchEvent R} {i : Fin 16}

theorem Inv.apart (h : s.Inv) : s.Apart := by
  intro a b p ha hb
  obtain ⟨-, i, hi, rfl⟩ := h.owns a p ha
  obtain ⟨-, j, hj, rfl⟩ := h.owns b p hb
  rw [pointer_inj (hi.symm.trans hj)]

/-- An active touch has one slot, so that its events find it. -/
theorem Inv.slot_of_active (h : s.Inv) {p : Int32} (hi : s.window.pointerIds i = e.id ∨
      s.window.pointerIds i = -1 ∧ ∀ j, s.window.pointerIds j ≠ e.id)
    (hp : s.active e.id = some p) :
    p = pointer i := by
  obtain ⟨hne, j, rfl, hj⟩ := h.owns _ p hp
  rcases hi with hi | ⟨-, hnone⟩
  · rw [h.single j i (hj.trans hi.symm) (hj ▸ hne)]
  · exact absurd hj (hnone j)

theorem Inv.keeps (h : s.Inv) (he : s.window.Slotted e) : s.Keeps e := by
  intro p hp
  obtain ⟨i, htouch, hi⟩ := touch_slotted he
  rw [htouch]
  exact (h.slot_of_active hi hp).symm

theorem freesOwn (he : s.window.Slotted e) : s.FreesOwn e := by
  intro hstop j
  obtain ⟨i, htouch, hi⟩ := touch_slotted he
  rw [step, htouch, if_pos hstop]
  show update s.window.pointerIds i (-1) j = _
  by_cases hj : j = i
  · subst hj
    rw [update_self, if_pos rfl]
  · rw [update_of_ne hj, if_neg fun hpointer => hj (pointer_inj hpointer)]

theorem Inv.started_self (h : s.Inv) {id' p : Int32}
    (htouch : s.window.touch e = ({ e with id := pointer i }, s.window.putId i id'))
    (hi : s.window.pointerIds i = e.id ∨
      s.window.pointerIds i = -1 ∧ ∀ j, s.window.pointerIds j ≠ e.id)
    (hp : s.started e e.id = some p) : p = pointer i ∧ e.kind ≠ .stop := by
  simp only [started, update_self, htouch] at hp
  rcases hkind : e.kind with _ | _ | _
  · simp only [hkind] at hp
    refine ⟨?_, by decide⟩
    rcases hactive : s.active e.id with _ | q
    · simpa [hactive] using hp.symm
    · rw [hactive] at hp
      rw [← Option.some.inj hp]
      exact h.slot_of_active hi hactive
  · simp only [hkind] at hp
    exact ⟨h.slot_of_active hi hp, by decide⟩
  · simp [hkind] at hp

theorem Inv.step (h : s.Inv) (he : s.window.Slotted e) : (s.step e).Inv := by
  obtain ⟨i, htouch, hi⟩ := touch_slotted he
  have hstep : s.step e = ⟨s.window.putId i (if e.kind = .stop then -1 else e.id),
      s.started e⟩ := by
    rw [TouchSession.step, htouch]
  rw [hstep]
  refine ⟨h.inside, ?_, ?_⟩
  · refine h.single.putId (hi.imp_right And.right) ?_
    by_cases hstop : e.kind = .stop
    · rw [if_pos hstop]
      exact .inr rfl
    · rw [if_neg hstop]
      exact .inl rfl
  · intro id p hp
    by_cases hid : id = e.id
    · -- the touch of the event: it has the slot that the event found
      subst hid
      obtain ⟨hpointer, hkind⟩ := h.started_self htouch hi hp
      refine ⟨he.1, i, hpointer, ?_⟩
      rw [if_neg hkind]
      exact update_self ..
    · -- another touch: its slot is another one
      replace hp : s.started e id = some p := hp
      rw [started, update_of_ne hid] at hp
      obtain ⟨hne, j, hj, howns⟩ := h.owns id p hp
      refine ⟨hne, j, hj, ?_⟩
      have hji : j ≠ i := by
        rintro rfl
        rcases hi with hown | ⟨hfree, -⟩
        · exact hid (howns.symm.trans hown)
        · exact hne (howns.symm.trans hfree)
      show update s.window.pointerIds i _ j = id
      rw [update_of_ne hji, howns]

end TouchSession

open TouchSession in
/-- **Touches keep their pointers, and no two active ones have the same**, as long as every
event finds a slot for its touch. -/
theorem touch_pointers (events : List (TouchEvent R)) (h : AllSlotted events) :
    (run events).Apart ∧ (run events).window.outside = false ∧
      ∀ before e, before ++ [e] <+: events → (run before).Keeps e ∧ (run before).FreesOwn e := by
  have hinv : ∀ events : List (TouchEvent R), AllSlotted events → (run events).Inv :=
    fun events => invariant Inv (fun s e => Inv.step) Inv.start
  refine ⟨(hinv events h).apart, (hinv events h).inside, ?_⟩
  rintro before e ⟨after, rfl⟩
  obtain ⟨hbefore, he, -⟩ := along_append.mp (along_append.mp h).1
  exact ⟨(hinv before hbefore).keeps he, freesOwn he⟩

def touchStarts (n : Nat) : List (TouchEvent Unit) :=
  (List.range n).map fun i => ⟨.start, Int32.ofNat i, (), ()⟩

instance (w : EGLUTWindow) (e : TouchEvent R) : Decidable (w.Slotted e) :=
  inferInstanceAs (Decidable (_ ∧ ∃ i, w.pointerIds i = e.id ∨ w.pointerIds i = -1))

instance (events : List (TouchEvent R)) : Decidable (TouchSession.AllSlotted events) :=
  inferInstanceAs (Decidable (Along _ _ _ events))

open TouchSession in
theorem touch_pointers_two :
    AllSlotted (touchStarts 2) ∧ (run (touchStarts 2)).Apart ∧ (run (touchStarts 2)).Keeps
      (⟨.stop, 1, (), ()⟩ : TouchEvent Unit) := by
  have hslotted : AllSlotted (touchStarts 2 ++ [⟨.stop, 1, (), ()⟩]) := by decide
  have hfront : AllSlotted (touchStarts 2) := (along_append.mp hslotted).1
  obtain ⟨-, -, hkeeps⟩ := touch_pointers _ hslotted
  exact ⟨hfront, (touch_pointers _ hfront).1, (hkeeps _ _ List.prefix_rfl).1⟩

open TouchSession in
/-- The last of seventeen touches has no slot: its end writes behind the table, and then its pointer
is 0. -/
theorem touch_pointers_seventeen :
    (run (touchStarts 17 ++ [⟨.stop, 16, (), ()⟩])).window.outside = true ∧
      (run (touchStarts 17 ++ [⟨.stop, 0, (), ()⟩])).active 16 = some 32 ∧
      ((run (touchStarts 17 ++ [⟨.stop, 0, (), ()⟩])).window.touch ⟨.update, 16, (), ()⟩).1.id =
        0 ∧
      ¬ (run (touchStarts 17 ++ [⟨.stop, 0, (), ()⟩])).Keeps
        (⟨.update, 16, (), ()⟩ : TouchEvent Unit) := by
  have hactive : (run (touchStarts 17 ++ [⟨.stop, 0, (), ()⟩])).active 16 = some 32 := by
    decide +kernel
  refine ⟨by decide +kernel, hactive, by decide +kernel, fun hkeeps => ?_⟩
  exact absurd (hkeeps 32 hactive) (by decide +kernel)

end GameWindow
