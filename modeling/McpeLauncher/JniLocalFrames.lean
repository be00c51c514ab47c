import McpeLauncher.JniReferenceTable
import McpeLauncher.UpperBound

/-! # Local references of fake-jni

A local frame is a `JniReferenceTable` whose numbers start where those of the frame below end; the
frame of a reference is found by bisection of the starts. -/
namespace FakeJni
open UpperBound List JniReferenceTable

/-! ## References as pointers -/

/-- `JniReferenceDescription`, read from a pointer: the lowest bit and the rest. -/
structure JniReferenceDescription where
  isGlobal : Bool
  index : Nat

namespace JniReferenceDescription

/-- The pointer of a number, through an `unsigned int` and the bits that a pointer has left. -/
def ptr (bits index : Nat) (isGlobal : Bool) : Nat :=
  2 * (index % 2 ^ 32 % 2 ^ (bits - 1)) + if isGlobal then 1 else 0

def ofPtr (ptr : Nat) : JniReferenceDescription where
  isGlobal := ptr % 2 = 1
  index := ptr / 2

/-- The numbers below this one fit into a reference. -/
def limit (bits : Nat) : Nat := min (2 ^ 32) (2 ^ (bits - 1))

theorem ptr_of_lt {bits index : Nat} (h : index < limit bits) :
    ptr bits index false = 2 * index := by
  obtain ⟨hint, hbits⟩ := Nat.lt_min.mp h
  simp only [ptr, Bool.false_eq_true, if_false, add_zero]
  rw [Nat.mod_eq_of_lt hint, Nat.mod_eq_of_lt hbits]

theorem ofPtr_two_mul (index : Nat) : ofPtr (2 * index) = ⟨false, index⟩ := by simp [ofPtr]

end JniReferenceDescription

open JniReferenceDescription

/-- A `size_t` that was stored in an `int`, with pointers of 32 or 64 bits. -/
def viaInt (bits n : Nat) : Nat :=
  if n % 2 ^ 32 < 2 ^ 31 then n % 2 ^ 32 else n % 2 ^ 32 + (2 ^ bits - 2 ^ 32)

/-- What a sign puts in front of a number does not fit into a reference. -/
theorem viaInt_eq {bits n : Nat} (hn : n < limit bits) (h : viaInt bits n < limit bits) :
    viaInt bits n = n := by
  obtain ⟨hint, -⟩ := Nat.lt_min.mp hn
  rw [viaInt, Nat.mod_eq_of_lt hint] at h ⊢
  split
  · rfl
  · next hsign =>
    rw [if_neg hsign] at h
    obtain ⟨hlow, -⟩ := Nat.lt_min.mp h
    by_cases hbits : bits ≤ 32
    · have hpow : 2 ^ bits ≤ 2 ^ 32 := Nat.pow_le_pow_right (by decide) hbits
      omega
    · have hpow : 2 ^ 33 ≤ 2 ^ bits := Nat.pow_le_pow_right (by decide) (by omega)
      omega

/-! ## The environment -/

/-- The frames of a `JniEnv`, the last one being `back`, and the global references of its
`Jvm`. -/
structure JniEnv (O : Type) where
  localFrames : List (JniReferenceTable O) := []
  globalReferences : JniReferenceTable O

namespace JniEnv
variable {O : Type}

/-- Where a frame starts that is pushed now, before it is stored in an `int`. -/
def nextStart (env : JniEnv O) : Nat :=
  match env.localFrames.getLast? with
  | none => 1
  | some back => back.getStart + back.getSize

def pushLocalFrame (bits : Nat) (env : JniEnv O) (frameSize : Nat) : Option (JniEnv O) := do
  let frame ← JniReferenceTable.make frameSize (viaInt bits env.nextStart)
  some { env with localFrames := env.localFrames ++ [frame] }

def popLocalFrame (env : JniEnv O) : Option (JniEnv O) :=
  if env.localFrames.isEmpty then none
  else some { env with localFrames := env.localFrames.dropLast }

def backPos (env : JniEnv O) : Nat := env.localFrames.length - 1

def ensureLocalCapacity (env : JniEnv O) (frameSize : Nat) : Option (JniEnv O) := do
  let back ← env.localFrames[env.backPos]?
  let back ← back.ensureSize frameSize
  some { env with localFrames := env.localFrames.set env.backPos back }

/-- The reference, null for a null object. -/
def createLocalReference (bits : Nat) (env : JniEnv O) : Option O → Option (Nat × JniEnv O)
  | none => some (0, env)
  | some object => do
    let back ← env.localFrames[env.backPos]?
    let (index, back) ← back.createReference object
    some (ptr bits index false, { env with localFrames := env.localFrames.set env.backPos back })

/-- The position before the one that `std::upper_bound` finds. -/
def findFrame (env : JniEnv O) (index : Nat) : Option Nat :=
  match upperBound (fun i => env.localFrames[i]?.any fun frame => index < frame.getStart) 0
    env.localFrames.length with
  | 0 => none
  | pos + 1 => some pos

def deleteLocalReference (env : JniEnv O) (reference : Nat) : Option (JniEnv O) :=
  if (ofPtr reference).isGlobal then none
  else do
    let pos ← env.findFrame (ofPtr reference).index
    let frame ← env.localFrames[pos]?
    let frame ← frame.deleteReference (ofPtr reference).index
    some { env with localFrames := env.localFrames.set pos frame }

def resolveReference (env : JniEnv O) (reference : Nat) : Option O :=
  if (ofPtr reference).isGlobal then env.globalReferences.getReference (ofPtr reference).index
  else do
    let pos ← env.findFrame (ofPtr reference).index
    let frame ← env.localFrames[pos]?
    frame.getReference (ofPtr reference).index

/-- The object of the result that a frame is popped with. -/
def moveRef (env : JniEnv O) (move : Nat) : Option O :=
  if move = 0 then none else env.resolveReference move

def popLocalFrameWith (bits : Nat) (env : JniEnv O) (move : Nat) : Option (Nat × JniEnv O) := do
  let popped ← env.popLocalFrame
  popped.createLocalReference bits (env.moveRef move)

end JniEnv

/-! ## Frames one after another -/

/-- All numbers of the frames fit into references. -/
def Fits {O : Type} (bits : Nat) (frames : List (JniReferenceTable O)) : Prop :=
  ∀ frame ∈ frames, frame.startIndex + frame.getSize ≤ limit bits

/-- A frame with numbers, none of which is that of the null pointer. -/
structure GoodFrame {O : Type} (frame : JniReferenceTable O) : Prop where
  valid : ∃ free, frame.Valid free
  pos : 0 < frame.getSize
  start : 0 < frame.startIndex

/-- Frames whose numbers follow each other and fit into references. -/
structure Stacked {O : Type} (bits : Nat) (frames : List (JniReferenceTable O)) : Prop where
  good : ∀ frame ∈ frames, GoodFrame frame
  fits : Fits bits frames
  apart : ∀ (i j : Nat) (f g : JniReferenceTable O), i < j → frames[i]? = some f →
    frames[j]? = some g → f.startIndex + f.getSize ≤ g.startIndex

namespace Stacked
variable {O : Type} {bits : Nat} {env : JniEnv O} {frames : List (JniReferenceTable O)}
  {frame frame' : JniReferenceTable O} {d i : Nat}

theorem findFrame_eq (h : Stacked bits env.localFrames) (hframe : env.localFrames[d]? = some frame)
    (hi : i < frame.getSize) : env.findFrame (frame.startIndex + i) = some d := by
  have hd : d < env.localFrames.length := (List.getElem?_eq_some_iff.mp hframe).1
  have hpos : upperBound (fun j => env.localFrames[j]?.any fun g =>
      frame.startIndex + i < g.getStart) 0 env.localFrames.length = d + 1 := by
    apply upperBound_eq hd
    -- the frames up to `d` start at the number or before it, those after `d` behind it
    · intro j hj
      have hget := getElem?_eq_getElem (l := env.localFrames) (i := j) (by omega)
      rw [hget, Option.any_some, decide_eq_false_iff_not, getStart]
      rcases Nat.lt_succ_iff_lt_or_eq.mp hj with hlt | rfl
      · have := h.apart j d _ _ hlt hget hframe
        omega
      · rw [Option.some.inj (hget.symm.trans hframe)]
        omega
    · intro j hj hlen
      have hget := getElem?_eq_getElem hlen
      rw [hget, Option.any_some, decide_eq_true_eq, getStart]
      have := h.apart d j _ _ hj hframe hget
      omega
  rw [JniEnv.findFrame, hpos]

theorem set (h : Stacked bits frames) (hframe : frames[d]? = some frame)
    (hvalid : ∃ free, frame'.Valid free) (hstart : frame'.startIndex = frame.startIndex)
    (hsize : frame.getSize ≤ frame'.getSize)
    (hgrows : frame'.getSize = frame.getSize ∨ d + 1 = frames.length)
    (hfits : Fits bits (frames.set d frame')) : Stacked bits (frames.set d frame') where
  good g hg := by
    rcases mem_or_eq_of_mem_set hg with hg | rfl
    · exact h.good g hg
    · have hgood := h.good frame (mem_of_getElem? hframe)
      exact ⟨hvalid, lt_of_lt_of_le hgood.pos hsize, hstart ▸ hgood.start⟩
  fits := hfits
  apart j k f g hjk hf hg := by
    have hk : k < frames.length := by
      have := (List.getElem?_eq_some_iff.mp hg).1
      rwa [length_set] at this
    rw [getElem?_set] at hf hg
    split at hf
    · next hdj =>
      subst hdj
      rw [if_neg (ne_of_lt hjk)] at hg
      rw [if_pos (lt_trans hjk hk)] at hf
      obtain rfl := Option.some.inj hf
      have := h.apart d k _ _ hjk hframe hg
      omega
    · split at hg
      · next hdk =>
        subst hdk
        rw [if_pos hk] at hg
        obtain rfl := Option.some.inj hg
        rw [hstart]
        exact h.apart j d _ _ hjk hf hframe
      · exact h.apart j k f g hjk hf hg

theorem dropLast (h : Stacked bits frames) : Stacked bits frames.dropLast where
  good g hg := h.good g (mem_of_mem_dropLast hg)
  fits g hg := h.fits g (mem_of_mem_dropLast hg)
  apart j k f g hjk hf hg := by
    rw [getElem?_dropLast] at hf hg
    split at hf
    · split at hg
      · exact h.apart j k f g hjk hf hg
      · contradiction
    · contradiction

theorem append (h : Stacked bits frames) (hgood : GoodFrame frame)
    (hapart : ∀ f ∈ frames, f.startIndex + f.getSize ≤ frame.startIndex)
    (hfits : Fits bits (frames ++ [frame])) : Stacked bits (frames ++ [frame]) where
  good g hg := by
    rcases mem_append.mp hg with hg | hg
    · exact h.good g hg
    · exact mem_singleton.mp hg ▸ hgood
  fits := hfits
  apart j k f g hjk hf hg := by
    have hk : k < frames.length + 1 := by
      have := (List.getElem?_eq_some_iff.mp hg).1
      rwa [length_append, length_singleton] at this
    rw [getElem?_append_left (by omega)] at hf
    rcases Nat.lt_succ_iff_lt_or_eq.mp hk with hlt | rfl
    · rw [getElem?_append_left hlt] at hg
      exact h.apart j k f g hjk hf hg
    · rw [getElem?_append_right (le_rfl), Nat.sub_self] at hg
      obtain rfl := Option.some.inj hg
      exact hapart f (mem_of_getElem? hf)

theorem le_nextStart (h : Stacked bits env.localFrames) (hmem : frame ∈ env.localFrames) :
    frame.startIndex + frame.getSize ≤ env.nextStart := by
  obtain ⟨d, hframe⟩ := mem_iff_getElem?.mp hmem
  have hd : d < env.localFrames.length := (List.getElem?_eq_some_iff.mp hframe).1
  have hback := getLast?_eq_getElem? (l := env.localFrames)
  rw [getElem?_eq_getElem (by omega)] at hback
  rw [JniEnv.nextStart, hback]
  by_cases hlast : d = env.localFrames.length - 1
  · subst hlast
    rw [getElem?_eq_getElem (by omega)] at hframe
    rw [Option.some.inj hframe]
    exact le_rfl
  · have := h.apart d (env.localFrames.length - 1) _ _ (by omega) hframe
      (getElem?_eq_getElem (by omega))
    exact Nat.le_add_right_of_le this

theorem nextStart_pos (h : Stacked bits env.localFrames) : 0 < env.nextStart := by
  rw [JniEnv.nextStart]
  split
  · exact Nat.zero_lt_one
  · next back hback =>
    exact Nat.add_pos_left (h.good back (mem_of_getLast? hback)).start _

end Stacked

/-! ## What a program knows of its references -/

/-- A local reference: the position of its frame, the pointer, and the object. -/
structure LocalRef (O : Type) where
  frame : Nat
  ref : Nat
  object : O
  deriving DecidableEq

section
variable {O : Type} {bits : Nat} {env : JniEnv O} {frames : List (JniReferenceTable O)}
  {live : List (LocalRef O)} {l : LocalRef O} {d : Nat}

def Holds (frames : List (JniReferenceTable O)) (l : LocalRef O) : Prop :=
  ∃ frame i, frames[l.frame]? = some frame ∧ frame.slot i = some l.object ∧
    l.ref = 2 * (frame.startIndex + i)

/-- The frames hold the references of a program, all of them different. -/
structure Tracks (bits : Nat) (env : JniEnv O) (live : List (LocalRef O)) : Prop where
  stacked : Stacked bits env.localFrames
  holds : ∀ l ∈ live, Holds env.localFrames l
  nodup : (live.map LocalRef.ref).Nodup

theorem Holds.findFrame (hl : Holds env.localFrames l) (h : Stacked bits env.localFrames) :
    env.findFrame (ofPtr l.ref).index = some l.frame := by
  obtain ⟨frame, i, hframe, hslot, href⟩ := hl
  rw [href, ofPtr_two_mul]
  exact h.findFrame_eq hframe (lt_of_slot hslot)

theorem Holds.resolveReference (hl : Holds env.localFrames l) (h : Stacked bits env.localFrames) :
    l.ref ≠ 0 ∧ env.resolveReference l.ref = some l.object := by
  have hfind := hl.findFrame h
  obtain ⟨frame, i, hframe, hslot, href⟩ := hl
  have hstart := (h.good frame (mem_of_getElem? hframe)).start
  refine ⟨by omega, ?_⟩
  rw [JniEnv.resolveReference, hfind, href, ofPtr_two_mul]
  simp only [Bool.false_eq_true, if_false, Option.bind_eq_bind, Option.bind_some, hframe,
    getReference_add, hslot]

theorem Holds.set (hl : Holds frames l) {frame frame' : JniReferenceTable O}
    (hframe : frames[d]? = some frame) (hstart : frame'.startIndex = frame.startIndex)
    (hslot : ∀ i o, l.ref = 2 * (frame.startIndex + i) → frame.slot i = some o →
      frame'.slot i = some o) : Holds (frames.set d frame') l := by
  obtain ⟨g, i, hg, hi, href⟩ := hl
  by_cases hd : d = l.frame
  · subst hd
    obtain rfl := Option.some.inj (hframe.symm.trans hg)
    refine ⟨frame', i, ?_, hslot i _ href hi, hstart ▸ href⟩
    exact getElem?_set_self (List.getElem?_eq_some_iff.mp hg).1
  · refine ⟨g, i, ?_, hi, href⟩
    rwa [getElem?_set_ne hd]

theorem Holds.ref_ne (hl : Holds frames l) (h : Stacked bits frames) {i : Nat}
    {back : JniReferenceTable O} (hback : frames[d]? = some back) (hlast : d + 1 = frames.length)
    (hnone : back.slot i = none) : l.ref ≠ 2 * (back.startIndex + i) := by
  obtain ⟨g, j, hg, hj, href⟩ := hl
  intro heq
  rcases lt_or_ge l.frame d with hlt | hge
  · have := h.apart _ _ _ _ hlt hg hback
    have := lt_of_slot hj
    omega
  · have hframe : l.frame = d := by
      have := (List.getElem?_eq_some_iff.mp hg).1
      omega
    rw [hframe, hback] at hg
    obtain rfl := Option.some.inj hg
    obtain rfl : j = i := by omega
    rw [hnone] at hj
    contradiction

theorem Fits.set (h : Fits bits frames) {frame frame' : JniReferenceTable O}
    (hframe : frames[d]? = some frame) (hstart : frame'.startIndex = frame.startIndex)
    (hsize : frame'.getSize = frame.getSize) : Fits bits (frames.set d frame') := by
  intro g hg
  rcases mem_or_eq_of_mem_set hg with hg | rfl
  · exact h g hg
  · rw [hstart, hsize]
    exact h frame (mem_of_getElem? hframe)

theorem JniEnv.exists_back (hne : env.localFrames ≠ []) :
    ∃ back, env.localFrames[env.backPos]? = some back ∧
      env.backPos + 1 = env.localFrames.length := by
  have hlength := length_pos_iff.mpr hne
  have hpos : env.backPos < env.localFrames.length := Nat.sub_one_lt_of_lt hlength
  exact ⟨_, getElem?_eq_getElem hpos, Nat.sub_add_cancel hlength⟩

namespace Tracks

section
variable (h : Tracks bits env live)
include h

theorem pushLocalFrame {size : Nat} (hsize : 0 < size) (hnext : env.nextStart < limit bits) :
    ∃ env', env.pushLocalFrame bits size = some env' ∧
      (Fits bits env'.localFrames → Tracks bits env' live) := by
  obtain ⟨frame, hmake, hvalid, hstart, hgetSize⟩ :=
    make_spec (O := O) hsize (viaInt bits env.nextStart)
  refine ⟨_, by rw [JniEnv.pushLocalFrame, hmake]; rfl, ?_⟩
  intro hfits
  -- the new frame fits with the start that the `int` gave it
  have hframe := hfits frame (mem_append_right _ mem_cons_self)
  have hint : viaInt bits env.nextStart = env.nextStart := viaInt_eq hnext (by omega)
  rw [hint] at hstart
  refine ⟨h.stacked.append ⟨hvalid, by omega, ?_⟩ ?_ hfits, ?_, h.nodup⟩
  · exact hstart ▸ h.stacked.nextStart_pos
  · intro f hf
    exact hstart ▸ h.stacked.le_nextStart hf
  · intro l hl
    obtain ⟨g, i, hg, hi, href⟩ := h.holds l hl
    refine ⟨g, i, ?_, hi, href⟩
    rwa [getElem?_append_left (List.getElem?_eq_some_iff.mp hg).1]

theorem popLocalFrame :
    Tracks bits { env with localFrames := env.localFrames.dropLast }
      (live.filter (·.frame < env.backPos)) where
  stacked := h.stacked.dropLast
  holds l hl := by
    obtain ⟨hmem, hlt⟩ := mem_filter.mp hl
    obtain ⟨g, i, hg, hi, href⟩ := h.holds l hmem
    refine ⟨g, i, ?_, hi, href⟩
    have hframe : l.frame < env.localFrames.length - 1 := of_decide_eq_true hlt
    rwa [getElem?_dropLast, if_pos hframe]
  nodup := (filter_sublist.map _).nodup h.nodup

theorem ensureLocalCapacity (hne : env.localFrames ≠ []) (size : Nat) :
    ∃ env', env.ensureLocalCapacity size = some env' ∧
      (Fits bits env'.localFrames → Tracks bits env' live) := by
  obtain ⟨back, hback, hlast⟩ := JniEnv.exists_back hne
  obtain ⟨free, hvalid⟩ := (h.stacked.good back (mem_of_getElem? hback)).valid
  obtain ⟨back', hensure, hvalid', hstart, hsize, hslot⟩ := hvalid.ensureSize size
  refine ⟨{ env with localFrames := env.localFrames.set env.backPos back' }, ?_, ?_⟩
  · rw [JniEnv.ensureLocalCapacity, hback]
    simp only [Option.bind_eq_bind, Option.bind_some, hensure]
  · intro hfits
    refine ⟨h.stacked.set hback hvalid' hstart hsize (.inr hlast) hfits, ?_, h.nodup⟩
    intro l hl
    refine (h.holds l hl).set hback hstart ?_
    intro i o _ hi
    rw [hslot]
    exact hi

/-- **A new reference is a new one**: its number had no object, so no other reference has it. -/
theorem createLocalReference (hne : env.localFrames ≠ []) (object : O) :
    ∃ ref env', env.createLocalReference bits (some object) = some (ref, env') ∧
      env'.localFrames.length = env.localFrames.length ∧
      (Fits bits env'.localFrames → Tracks bits env' (⟨env.backPos, ref, object⟩ :: live)) := by
  obtain ⟨back, hback, hlast⟩ := JniEnv.exists_back hne
  have hgood := h.stacked.good back (mem_of_getElem? hback)
  obtain ⟨free, hvalid⟩ := hgood.valid
  obtain ⟨back', i, hcreate, hvalid', hstart, hsize, hi, hnone, hslot⟩ :=
    hvalid.createReference hgood.pos object
  refine ⟨ptr bits (back.startIndex + i) false,
    { env with localFrames := env.localFrames.set env.backPos back' }, ?_, length_set, ?_⟩
  · rw [JniEnv.createLocalReference, hback]
    simp only [Option.bind_eq_bind, Option.bind_some, hcreate]
  · intro hfits
    have hback' : (env.localFrames.set env.backPos back')[env.backPos]? = some back' :=
      getElem?_set_self (by omega)
    have hfit := hfits back' (mem_of_getElem? hback')
    have hptr : ptr bits (back.startIndex + i) false = 2 * (back.startIndex + i) :=
      ptr_of_lt (by omega)
    have hstacked := h.stacked.set hback hvalid' hstart hsize (.inr hlast) hfits
    have hslots : ∀ j o, back.slot j = some o → back'.slot j = some o := by
      intro j o hj
      rw [hslot, if_neg]
      · exact hj
      · rintro rfl
        rw [hnone] at hj
        contradiction
    have hold : ∀ l ∈ live, Holds (env.localFrames.set env.backPos back') l := by
      intro l hl
      exact (h.holds l hl).set hback hstart fun j o _ => hslots j o
    have hnew : Holds (env.localFrames.set env.backPos back')
        ⟨env.backPos, ptr bits (back.startIndex + i) false, object⟩ := by
      refine ⟨back', i, hback', ?_, hstart ▸ hptr⟩
      rw [hslot, if_pos rfl]
    refine ⟨hstacked, ?_, ?_⟩
    · intro l hl
      rcases mem_cons.mp hl with rfl | hl
      · exact hnew
      · exact hold l hl
    · rw [map_cons, nodup_cons]
      refine ⟨?_, h.nodup⟩
      intro hmem
      obtain ⟨l, hl, href⟩ := mem_map.mp hmem
      exact (h.holds l hl).ref_ne h.stacked hback hlast hnone (href.trans hptr)

theorem deleteLocalReference (hl : l ∈ live) :
    ∃ env', env.deleteLocalReference l.ref = some env' ∧
      Tracks bits env' (live.filter (·.ref ≠ l.ref)) := by
  have hfind := (h.holds l hl).findFrame h.stacked
  obtain ⟨frame, i, hframe, hslot, href⟩ := h.holds l hl
  obtain ⟨free, hvalid⟩ := (h.stacked.good frame (mem_of_getElem? hframe)).valid
  obtain ⟨frame', hdelete, hvalid', hstart, hsize, hslots⟩ := hvalid.deleteReference hslot
  refine ⟨{ env with localFrames := env.localFrames.set l.frame frame' }, ?_, ?_, ?_, ?_⟩
  · rw [JniEnv.deleteLocalReference, hfind, href, ofPtr_two_mul]
    simp only [Bool.false_eq_true, if_false, Option.bind_eq_bind, Option.bind_some, hframe, hdelete]
  · exact h.stacked.set hframe hvalid' hstart hsize.ge (.inl hsize)
      (h.stacked.fits.set hframe hstart hsize)
  · intro l' hl'
    obtain ⟨hmem, hne⟩ := mem_filter.mp hl'
    refine (h.holds l' hmem).set hframe hstart ?_
    intro j o hj hobject
    rw [hslots, if_neg]
    · exact hobject
    · rintro rfl
      simp [href, hj] at hne
  · exact (filter_sublist.map _).nodup h.nodup

end

end Tracks
end

/-- The calls of a native program on one `JniEnv`. -/
inductive FrameCall (O : Type) where
  | pushLocalFrame (frameSize : Nat)
  /-- With a result to carry over, or null. -/
  | popLocalFrame (move : Nat)
  | ensureLocalCapacity (frameSize : Nat)
  | createLocalReference (object : O)
  | deleteLocalReference (reference : Nat)
  | resolveReference (reference : Nat)

/-- The environment, the references that the program has, and whether a call failed. -/
structure FrameSession (O : Type) where
  env : JniEnv O
  live : List (LocalRef O) := []
  failed : Bool := false

namespace FrameSession
variable {O : Type} {bits : Nat} {s : FrameSession O}

def orFail {α : Type} (s : FrameSession O) (result : Option α) (f : α → FrameSession O) :
    FrameSession O :=
  match result with
  | none => { s with failed := true }
  | some a => f a

/-- A reference is there from its creation until it is deleted or its frame is popped. -/
def step (bits : Nat) (s : FrameSession O) : FrameCall O → FrameSession O
  | .pushLocalFrame frameSize =>
    s.orFail (s.env.pushLocalFrame bits frameSize) fun env => { s with env := env }
  | .popLocalFrame move =>
    s.orFail (s.env.popLocalFrameWith bits move) fun result =>
      { s with
        env := result.2
        live := ((s.env.moveRef move).toList.map fun object =>
            ⟨s.env.backPos - 1, result.1, object⟩) ++
          s.live.filter (·.frame < s.env.backPos) }
  | .ensureLocalCapacity frameSize =>
    s.orFail (s.env.ensureLocalCapacity frameSize) fun env => { s with env := env }
  | .createLocalReference object =>
    s.orFail (s.env.createLocalReference bits (some object)) fun result =>
      { s with env := result.2, live := ⟨s.env.backPos, result.1, object⟩ :: s.live }
  | .deleteLocalReference reference =>
    s.orFail (s.env.deleteLocalReference reference) fun env =>
      { s with env := env, live := s.live.filter (·.ref ≠ reference) }
  | .resolveReference _ => s

/-- Frames have room, one always remains, only references that are there are deleted, and the
numbers fit. -/
def Allowed (bits : Nat) (s : FrameSession O) (call : FrameCall O) : Prop :=
  (match call with
    | .pushLocalFrame frameSize => 0 < frameSize ∧ s.env.nextStart < limit bits
    | .popLocalFrame _ => 1 < s.env.localFrames.length
    | .ensureLocalCapacity _ => s.env.localFrames ≠ []
    | .createLocalReference _ => s.env.localFrames ≠ []
    | .deleteLocalReference reference => ∃ l ∈ s.live, l.ref = reference
    | .resolveReference _ => True) ∧
  Fits bits (s.step bits call).env.localFrames

instance Fits.decidable (bits : Nat) (frames : List (JniReferenceTable O)) :
    Decidable (Fits bits frames) :=
  inferInstanceAs (Decidable (∀ frame ∈ frames, _))

instance Allowed.decidable [DecidableEq O] (bits : Nat) (s : FrameSession O) :
    ∀ call, Decidable (Allowed bits s call)
  | .pushLocalFrame _ => inferInstanceAs (Decidable ((_ ∧ _) ∧ Fits bits _))
  | .popLocalFrame _ => inferInstanceAs (Decidable (1 < s.env.localFrames.length ∧ Fits bits _))
  | .ensureLocalCapacity _ => inferInstanceAs (Decidable (s.env.localFrames ≠ [] ∧ Fits bits _))
  | .createLocalReference _ => inferInstanceAs (Decidable (s.env.localFrames ≠ [] ∧ Fits bits _))
  | .deleteLocalReference _ => inferInstanceAs (Decidable ((∃ l ∈ s.live, l.ref = _) ∧ Fits bits _))
  | .resolveReference _ => inferInstanceAs (Decidable (True ∧ Fits bits _))

def start (globalReferences : JniReferenceTable O) : FrameSession O :=
  { env := { globalReferences := globalReferences } }

structure Inv (bits : Nat) (s : FrameSession O) : Prop where
  running : s.failed = false
  tracks : Tracks bits s.env s.live

theorem inv_start (globalReferences : JniReferenceTable O) : Inv bits (start globalReferences) :=
  ⟨rfl, ⟨by simp [start], by simp [Fits, start], by simp [start]⟩, by simp [start],
    nodup_nil⟩

theorem Inv.popLocalFrame (h : Inv bits s) (move : Nat) (hlength : 1 < s.env.localFrames.length) :
    ∃ ref env, s.env.popLocalFrameWith bits move = some (ref, env) ∧
      env.localFrames.length + 1 = s.env.localFrames.length ∧
      (Fits bits env.localFrames → Tracks bits env (((s.env.moveRef move).toList.map fun object =>
            ⟨s.env.backPos - 1, ref, object⟩) ++ s.live.filter (·.frame < s.env.backPos))) := by
  have hpopped : s.env.popLocalFrame =
      some { s.env with localFrames := s.env.localFrames.dropLast } := by
    refine if_neg ?_
    rw [isEmpty_iff_length_eq_zero]
    omega
  have hdrop : s.env.localFrames.dropLast.length + 1 = s.env.localFrames.length := by
    rw [length_dropLast]
    omega
  rw [JniEnv.popLocalFrameWith, hpopped, Option.bind_eq_bind, Option.bind_some]
  rcases s.env.moveRef move with _ | object
  · exact ⟨0, _, rfl, hdrop, fun _ => h.tracks.popLocalFrame⟩
  · have hne : s.env.localFrames.dropLast ≠ [] := by
      apply ne_nil_of_length_pos
      omega
    obtain ⟨ref, env, hcreate, hlen, htracks⟩ :=
      h.tracks.popLocalFrame.createLocalReference hne object
    refine ⟨ref, env, hcreate, hlen ▸ hdrop, ?_⟩
    rw [JniEnv.backPos, length_dropLast] at htracks
    exact htracks

theorem Inv.step (h : Inv bits s) {call : FrameCall O} (hcall : Allowed bits s call) :
    Inv bits (s.step bits call) := by
  obtain ⟨hallowed, hfits⟩ := hcall
  cases call with
  | pushLocalFrame frameSize =>
    obtain ⟨env, henv, htracks⟩ := h.tracks.pushLocalFrame hallowed.1 hallowed.2
    simp only [FrameSession.step, henv, orFail] at hfits ⊢
    exact ⟨h.running, htracks hfits⟩
  | popLocalFrame move =>
    obtain ⟨ref, env, hpop, -, htracks⟩ := h.popLocalFrame move hallowed
    simp only [FrameSession.step, hpop, orFail] at hfits ⊢
    exact ⟨h.running, htracks hfits⟩
  | ensureLocalCapacity frameSize =>
    obtain ⟨env, henv, htracks⟩ := h.tracks.ensureLocalCapacity hallowed frameSize
    simp only [FrameSession.step, henv, orFail] at hfits ⊢
    exact ⟨h.running, htracks hfits⟩
  | createLocalReference object =>
    obtain ⟨ref, env, hcreate, -, htracks⟩ := h.tracks.createLocalReference hallowed object
    simp only [FrameSession.step, hcreate, orFail] at hfits ⊢
    exact ⟨h.running, htracks hfits⟩
  | deleteLocalReference reference =>
    obtain ⟨l, hl, rfl⟩ := hallowed
    obtain ⟨env, hdelete, htracks⟩ := h.tracks.deleteLocalReference hl
    simp only [FrameSession.step, hdelete, orFail]
    exact ⟨h.running, htracks⟩
  | resolveReference reference => exact h

/-- **Local references are distinct and lead to their objects.** No call fails, and each reference
is not null and resolves to its object. Deleting one leaves the others, and a popped frame's result
is a reference to the same object in the frame below. -/
theorem local_references_resolve (bits : Nat) (globalReferences : JniReferenceTable O)
    (calls : List (FrameCall O))
    (h : Runs.Along (step bits) (Allowed bits) (start globalReferences) calls) :
    let s := calls.foldl (step bits) (start globalReferences)
    s.failed = false ∧ (s.live.map LocalRef.ref).Nodup ∧
      (∀ l ∈ s.live, l.ref ≠ 0 ∧ s.env.resolveReference l.ref = some l.object) ∧
      (∀ l ∈ s.live, ∃ env, s.env.deleteLocalReference l.ref = some env ∧
        ∀ l' ∈ s.live, l'.ref ≠ l.ref → env.resolveReference l'.ref = some l'.object) ∧
      ∀ l ∈ s.live, Allowed bits s (.popLocalFrame l.ref) →
        ∃ ref env, s.env.popLocalFrameWith bits l.ref = some (ref, env) ∧
          env.localFrames.length + 1 = s.env.localFrames.length ∧
          ref ≠ 0 ∧ env.resolveReference ref = some l.object ∧
          env.findFrame (ofPtr ref).index = some env.backPos := by
  intro s
  have hinv : Inv bits s := Runs.invariant (Inv bits) (fun _ _ hs ha => hs.step ha) (inv_start _) h
  have hresolve : ∀ l ∈ s.live, l.ref ≠ 0 ∧ s.env.resolveReference l.ref = some l.object :=
    fun l hl => (hinv.tracks.holds l hl).resolveReference hinv.tracks.stacked
  refine ⟨hinv.running, hinv.tracks.nodup, hresolve, ?_, ?_⟩
  · intro l hl
    obtain ⟨env, hdelete, htracks⟩ := hinv.tracks.deleteLocalReference hl
    refine ⟨env, hdelete, ?_⟩
    intro l' hl' hne
    have hmem : l' ∈ s.live.filter (·.ref ≠ l.ref) := mem_filter.mpr ⟨hl', by simpa using hne⟩
    exact ((htracks.holds l' hmem).resolveReference htracks.stacked).2
  · rintro l hl ⟨hlength, hfits⟩
    obtain ⟨ref, env, hpop, hlen, htracks⟩ := hinv.popLocalFrame l.ref hlength
    obtain ⟨hnull, hobject⟩ := hresolve l hl
    have hmove : s.env.moveRef l.ref = some l.object := (if_neg hnull).trans hobject
    simp only [step, hpop, orFail] at hfits
    have htracks := htracks hfits
    rw [hmove] at htracks
    have hholds := htracks.holds _ (mem_append_left _ mem_cons_self)
    obtain ⟨href, hres⟩ := hholds.resolveReference htracks.stacked
    refine ⟨ref, env, hpop, hlen, href, hres, ?_⟩
    rw [show env.backPos = s.env.backPos - 1 by rw [JniEnv.backPos, JniEnv.backPos]; omega]
    exact hholds.findFrame htracks.stacked

theorem local_references_resolve_carried :
    let calls : List (FrameCall Nat) := [.pushLocalFrame 1, .createLocalReference 5,
      .createLocalReference 6, .pushLocalFrame 2, .createLocalReference 7,
      .deleteLocalReference 2, .popLocalFrame 6]
    let s := calls.foldl (step 64) (start { startIndex := 1 })
    Runs.Along (step 64) (Allowed 64) (start { startIndex := 1 }) calls ∧
      s.live = [⟨0, 2, 7⟩, ⟨0, 4, 6⟩] ∧
      ∀ l ∈ s.live, l.ref ≠ 0 ∧ s.env.resolveReference l.ref = some l.object :=
  have h : Runs.Along (step 64) (Allowed 64) (start { startIndex := 1 }) _ := by decide +kernel
  ⟨h, by decide +kernel, (local_references_resolve 64 { startIndex := 1 } _ h).2.2.1⟩

end FrameSession

end FakeJni
