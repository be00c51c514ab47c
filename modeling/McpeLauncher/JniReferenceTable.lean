import Mathlib.Tactic
import McpeLauncher.Runs
import McpeLauncher.ThreadedFreeList

/-! # Reference tables of fake-jni

A `JniReferenceTable` numbers the objects that native code refers to. Free numbers form a list
through `referencesNextIndex`; when it is empty the table doubles. An operation gives nothing where
the source throws or leaves its arrays. -/
namespace FakeJni
open ThreadedFreeList List Runs

structure JniReferenceTable (O : Type) where
  startIndex : Nat
  references : List (Option O) := []
  referencesNextIndex : List Nat := []
  lastReferenceIndex : Nat := 0
  deriving DecidableEq

namespace JniReferenceTable
variable {O : Type} {next : List Nat} {i size : Nat}

def getStart (t : JniReferenceTable O) : Nat := t.startIndex

def getSize (t : JniReferenceTable O) : Nat := t.references.length

def setNext (next : List Nat) (index value : Nat) : Option (List Nat) :=
  if index < next.length then some (next.set index value) else none

/-- What `resizeFrame` appends to `referencesNextIndex`. -/
def newEntries (oldSize size : Nat) : List Nat :=
  (List.range' (1 + oldSize) (size - (1 + oldSize))).map (· + 1) ++
    if oldSize < size then [0] else []

def resizeFrame (t : JniReferenceTable O) (size : Nat) : Option (JniReferenceTable O) :=
  if size < t.getSize then none
  else do
    let next := if t.referencesNextIndex.isEmpty then [1] else t.referencesNextIndex
    let next ← setNext (next ++ newEntries t.getSize size) t.lastReferenceIndex (1 + t.getSize)
    some { t with
      references := t.references ++ List.replicate (size - t.getSize) none
      referencesNextIndex := next
      lastReferenceIndex := size }

def make (size start : Nat) : Option (JniReferenceTable O) :=
  resizeFrame { startIndex := start } size

def ensureSize (t : JniReferenceTable O) (size : Nat) : Option (JniReferenceTable O) :=
  if t.getSize < size then t.resizeFrame size else some t

/-- The rest of `reserveReference`, once there is a free number. -/
def takeFirst (t : JniReferenceTable O) : Option (Nat × JniReferenceTable O) :=
  match t.referencesNextIndex[0]? with
  | some (ret + 1) => do
    let following ← t.referencesNextIndex[ret + 1]?
    some (ret, { t with
      referencesNextIndex := (t.referencesNextIndex.set 0 following).set (ret + 1) 0
      lastReferenceIndex := if following = 0 then 0 else t.lastReferenceIndex })
  -- without a free number `ret` wraps around, and is refused by `createReference`
  | _ => none

def reserveReference (t : JniReferenceTable O) : Option (Nat × JniReferenceTable O) := do
  let t ← if t.referencesNextIndex[0]? = some 0 then t.resizeFrame (t.getSize * 2) else some t
  t.takeFirst

def returnReference (t : JniReferenceTable O) (index : Nat) : Option (JniReferenceTable O) := do
  let next ← setNext t.referencesNextIndex t.lastReferenceIndex (index + 1)
  some { t with referencesNextIndex := next, lastReferenceIndex := index + 1 }

def createReference (t : JniReferenceTable O) (ref : O) : Option (Nat × JniReferenceTable O) := do
  let (ret, t) ← t.reserveReference
  if ret < t.getSize then
    some (t.startIndex + ret, { t with references := t.references.set ret (some ref) })
  else none

def slot (t : JniReferenceTable O) (i : Nat) : Option O := t.references[i]?.join

/-- A difference below `startIndex` wraps around and is out of bounds. -/
def deleteReference (t : JniReferenceTable O) (index : Nat) : Option (JniReferenceTable O) :=
  if index < t.startIndex then none
  else match t.slot (index - t.startIndex) with
    | none => none
    | some _ => returnReference
        { t with references := t.references.set (index - t.startIndex) none } (index - t.startIndex)

def getReference (t : JniReferenceTable O) (index : Nat) : Option O :=
  if index < t.startIndex then none else t.slot (index - t.startIndex)

/-- The free list holds the numbers without an object, each counted from 1. -/
structure Valid (t : JniReferenceTable O) (free : List Nat) : Prop where
  chain : Chain t.referencesNextIndex t.lastReferenceIndex free
  length : t.referencesNextIndex.length = t.getSize + 1
  free_iff : ∀ i, i + 1 ∈ free ↔ i < t.getSize ∧ t.slot i = none
  used : ∀ i, i < t.getSize → i + 1 ∉ free → t.referencesNextIndex[i + 1]? = some 0

variable {t : JniReferenceTable O} {free : List Nat}

theorem lt_of_slot {o : O} (h : t.slot i = some o) : i < t.getSize := by
  have hget : t.references[i]? = some (some o) := Option.join_eq_some_iff.mp h
  exact (List.getElem?_eq_some_iff.mp hget).1

theorem slot_eq_none (h : t.getSize ≤ i) : t.slot i = none := by
  rw [slot, getElem?_eq_none h]
  rfl

theorem slot_append_replicate (refs : List (Option O)) (count i : Nat) :
    (refs ++ replicate count none)[i]?.join = refs[i]?.join := by
  by_cases hi : i < refs.length
  · rw [getElem?_append_left hi]
  · rw [getElem?_append_right (Nat.le_of_not_lt hi),
      getElem?_eq_none (Nat.le_of_not_lt hi), getElem?_replicate]
    split <;> rfl

theorem slot_set {refs : List (Option O)} (hi : i < refs.length) (o : Option O) (j : Nat) :
    (refs.set i o)[j]?.join = if j = i then o else refs[j]?.join := by
  by_cases hj : j = i
  · rw [if_pos hj, hj, getElem?_set_self hi]
    rfl
  · rw [if_neg hj, getElem?_set_ne (Ne.symm hj)]

theorem length_newEntries {oldSize : Nat} (h : oldSize < size) :
    (newEntries oldSize size).length = size - oldSize := by
  rw [newEntries, if_pos h, length_append, length_map, length_range', length_singleton]
  omega

theorem linked_newEntries {oldSize : Nat} (hnext : next.length = oldSize + 1) (h : oldSize < size) :
    Linked (next ++ newEntries oldSize size) (oldSize + 1)
      (range' (oldSize + 1 + 1) (size - oldSize - 1)) := by
  apply Linked.of_getElem?
  · intro i hi
    rw [getElem?_append_right (by omega), newEntries, getElem?_append_left
      (by rw [length_map, length_range']; omega), getElem?_map,
      getElem?_range' (by omega), Option.map_some]
    congr 1
    omega
  · rw [getElem?_append_right (by omega), newEntries, if_pos h, getElem?_append_right
      (by rw [length_map, length_range']; omega), length_map, length_range']
    rw [show oldSize + 1 + (size - oldSize - 1) - next.length - (size - (1 + oldSize)) = 0 by omega]
    rfl

theorem getLast_range {a count : Nat} :
    (a :: range' (a + 1) count).getLast (cons_ne_nil _ _) = a + count := by
  induction count generalizing a with
  | zero => rfl
  | succ count ih =>
    rw [getLast_congr _ (cons_ne_nil _ _) (by rw [range'_succ]), getLast_cons (cons_ne_nil _ _), ih]
    omega

theorem resizeFrame_eq
    (hnext : (if t.referencesNextIndex.isEmpty then [1] else t.referencesNextIndex) = next)
    (hlast : t.lastReferenceIndex < next.length) (hsize : t.getSize < size) :
    t.resizeFrame size = some { t with
      references := t.references ++ replicate (size - t.getSize) none
      referencesNextIndex :=
        (next ++ newEntries t.getSize size).set t.lastReferenceIndex (t.getSize + 1)
      lastReferenceIndex := size } := by
  have hlast' : t.lastReferenceIndex < (next ++ newEntries t.getSize size).length := by
    rw [length_append]
    omega
  rw [resizeFrame, if_neg (Nat.not_lt_of_lt hsize)]
  simp only [hnext, setNext, if_pos hlast', add_comm 1, Option.bind_eq_bind, Option.bind_some]

section
variable (h : t.Valid free)
include h

theorem Valid.last_mem : t.lastReferenceIndex ∈ 0 :: free := h.chain.last_eq ▸ getLast_mem _

theorem Valid.last_lt : t.lastReferenceIndex < t.referencesNextIndex.length :=
  h.chain.linked.lt t.lastReferenceIndex h.last_mem

theorem Valid.last_ne (hi : i + 1 ∉ free) : t.lastReferenceIndex ≠ i + 1 := by
  intro heq
  rcases mem_cons.mp h.last_mem with hzero | hmem
  · omega
  · exact hi (heq ▸ hmem)

theorem Valid.le_of_mem (hi : i ∈ 0 :: free) : i ≤ t.getSize := by
  have := h.chain.linked.lt i hi
  rw [h.length] at this
  omega

theorem Valid.chain_grown (hsize : t.getSize < size) :
    Chain ((t.referencesNextIndex ++ newEntries t.getSize size).set t.lastReferenceIndex
      (t.getSize + 1)) size (free ++ range' (t.getSize + 1) (size - t.getSize)) := by
  have hcount : size - t.getSize = size - t.getSize - 1 + 1 := by omega
  have hnodup : ((0 :: free) ++ (t.getSize + 1) ::
      range' (t.getSize + 1 + 1) (size - t.getSize - 1)).Nodup := by
    rw [← range'_succ]
    refine nodup_append.mpr ⟨h.chain.nodup, nodup_range', ?_⟩
    intro i hi j hj hij
    have hold := h.le_of_mem hi
    have hnew := (mem_range'_1.mp hj).1
    omega
  have hchain : Chain (t.referencesNextIndex ++ newEntries t.getSize size) t.lastReferenceIndex
      free := ⟨h.chain.linked.append _, h.chain.nodup, h.chain.last_eq⟩
  have hgrown := hchain.give (linked_newEntries h.length hsize) hnodup
  rw [getLast_range] at hgrown
  rw [hcount, range'_succ]
  convert hgrown using 1
  omega

theorem Valid.resizeFrame (hsize : t.getSize < size) :
    ∃ t', t.resizeFrame size = some t' ∧ (∃ free, t'.Valid free) ∧
      t'.startIndex = t.startIndex ∧ t'.getSize = size ∧ ∀ i, t'.slot i = t.slot i := by
  have hnonempty : t.referencesNextIndex.isEmpty = false := by
    rw [isEmpty_eq_false_iff, ← length_pos_iff, h.length]
    omega
  have hgetSize : (t.references ++ replicate (size - t.getSize) none).length = size := by
    rw [length_append, length_replicate]
    exact Nat.add_sub_cancel' (le_of_lt hsize)
  refine ⟨_, resizeFrame_eq (if_neg (by simp [hnonempty])) h.last_lt hsize,
    ⟨free ++ range' (t.getSize + 1) (size - t.getSize), h.chain_grown hsize, ?_, ?_, ?_⟩, rfl,
    hgetSize, slot_append_replicate t.references _⟩
  · rw [length_set, length_append, h.length, length_newEntries hsize]
    show _ = (t.references ++ _).length + 1
    omega
  · intro i
    rw [mem_append, h.free_iff, mem_range'_1]
    show _ ↔ i < (t.references ++ _).length ∧ (t.references ++ _)[i]?.join = none
    rw [hgetSize, slot_append_replicate]
    constructor
    · rintro (⟨hi, hnone⟩ | ⟨hi, hlt⟩)
      · exact ⟨by omega, hnone⟩
      · exact ⟨by omega, slot_eq_none (by omega)⟩
    · rintro ⟨hi, hnone⟩
      by_cases hold : i < t.getSize
      · exact .inl ⟨hold, hnone⟩
      · exact .inr ⟨by omega, by omega⟩
  · intro i hi hfree
    rw [mem_append, not_or, mem_range'_1] at hfree
    have hi' : i < size := hgetSize ▸ hi
    have hold : i < t.getSize := by omega
    rw [getElem?_set_ne (h.last_ne hfree.1), getElem?_append_left (by rw [h.length]; omega)]
    exact h.used i hold hfree.1

end

theorem make_spec (hsize : 0 < size) (start : Nat) :
    ∃ t : JniReferenceTable O, make size start = some t ∧ (∃ free, t.Valid free) ∧
      t.startIndex = start ∧ t.getSize = size := by
  have hempty : Valid (O := O) { startIndex := start, referencesNextIndex := [0] } [] :=
    ⟨⟨rfl, nodup_singleton 0, rfl⟩, rfl, by simp [getSize], by simp [getSize]⟩
  obtain ⟨t, ht, hvalid, hstart, hgetSize, _⟩ := hempty.resizeFrame hsize
  refine ⟨t, ?_, hvalid, hstart, hgetSize⟩
  rw [← ht, make, resizeFrame_eq rfl Nat.zero_lt_one hsize,
    resizeFrame_eq rfl Nat.zero_lt_one hsize]
  rfl

theorem Valid.ensureSize (h : t.Valid free) (size : Nat) :
    ∃ t', t.ensureSize size = some t' ∧ (∃ free, t'.Valid free) ∧
      t'.startIndex = t.startIndex ∧ t.getSize ≤ t'.getSize ∧ ∀ i, t'.slot i = t.slot i := by
  by_cases hsize : t.getSize < size
  · obtain ⟨t', ht', hvalid, hstart, hgetSize, hslot⟩ := h.resizeFrame hsize
    refine ⟨t', ?_, hvalid, hstart, by omega, hslot⟩
    rw [JniReferenceTable.ensureSize, if_pos hsize, ht']
  · exact ⟨t, if_neg hsize, ⟨free, h⟩, rfl, le_rfl, fun _ => rfl⟩

/-! ## Creating and deleting -/

theorem Valid.takeFirst {ret : Nat} (h : t.Valid ((ret + 1) :: free)) (ref : O) :
    ∃ t', t.takeFirst = some (ret, t') ∧ t'.startIndex = t.startIndex ∧
      t'.references = t.references ∧
      Valid { t' with references := t.references.set ret (some ref) } free := by
  obtain ⟨following, hfollowing, hchain⟩ := h.chain.take
  obtain ⟨hret, hslot⟩ := (h.free_iff ret).mp mem_cons_self
  have hnodup := (nodup_cons.mp (nodup_cons.mp h.chain.nodup).2).1
  refine ⟨{ t with
    referencesNextIndex := (t.referencesNextIndex.set 0 following).set (ret + 1) 0
    lastReferenceIndex := if following = 0 then 0 else t.lastReferenceIndex },
    ?_, rfl, rfl, hchain, ?_, ?_, ?_⟩
  · simp only [JniReferenceTable.takeFirst, h.chain.linked.1, hfollowing]
    rfl
  · rw [length_set, length_set, h.length]
    simp only [getSize, length_set]
  · intro i
    have hiff := h.free_iff i
    simp only [getSize, slot, length_set, slot_set hret] at hiff ⊢
    by_cases hi : i = ret
    · rw [if_pos hi, hi]
      exact ⟨fun hmem => absurd hmem hnodup, fun hnone => nomatch hnone.2⟩
    · rw [if_neg hi, ← hiff, mem_cons]
      constructor
      · exact .inr
      · rintro (heq | hmem)
        · exact absurd (Nat.succ.inj heq) hi
        · exact hmem
  · intro i hi hfree
    simp only [getSize, length_set] at hi
    have hlen : i + 1 < t.referencesNextIndex.length := by
      rw [h.length]
      exact Nat.succ_lt_succ hi
    by_cases heq : ret + 1 = i + 1
    · rw [heq, getElem?_set_self (by rwa [length_set])]
    · rw [getElem?_set_ne heq, getElem?_set_ne (Nat.succ_ne_zero i).symm]
      refine h.used i hi ?_
      rw [mem_cons, not_or]
      exact ⟨Ne.symm heq, hfree⟩

theorem Valid.exists_cons (h : t.Valid free) (hfree : free ≠ []) :
    ∃ ret rest, free = (ret + 1) :: rest := by
  obtain ⟨first, rest, rfl⟩ := exists_cons_of_ne_nil hfree
  rcases first with _ | ret
  · exact absurd mem_cons_self (nodup_cons.mp h.chain.nodup).1
  · exact ⟨ret, rest, rfl⟩

/-- When nothing is free the table doubles first. -/
theorem Valid.reserveReference (h : t.Valid free) (hpos : 0 < t.getSize) :
    ∃ (t' : JniReferenceTable O) (ret : Nat) (rest : List Nat),
      t.reserveReference = t'.takeFirst ∧ t'.Valid ((ret + 1) :: rest) ∧
      t'.startIndex = t.startIndex ∧ t.getSize ≤ t'.getSize ∧ ∀ i, t'.slot i = t.slot i := by
  by_cases hfree : free = []
  · have hdouble : t.getSize < t.getSize * 2 := by omega
    obtain ⟨t', ht', ⟨free', hvalid⟩, hstart, hsize, hslot⟩ := h.resizeFrame hdouble
    have hnew : t.getSize + 1 ∈ free' := by
      refine (hvalid.free_iff t.getSize).mpr ⟨by omega, ?_⟩
      rw [hslot]
      exact slot_eq_none (le_rfl)
    obtain ⟨ret, rest, rfl⟩ := hvalid.exists_cons (ne_nil_of_mem hnew)
    refine ⟨t', ret, rest, ?_, hvalid, hstart, by omega, hslot⟩
    rw [JniReferenceTable.reserveReference, if_pos (h.chain.head_eq_zero_iff.mpr hfree), ht']
    rfl
  · have hhead : t.referencesNextIndex[0]? ≠ some 0 := mt h.chain.head_eq_zero_iff.mp hfree
    obtain ⟨ret, rest, rfl⟩ := h.exists_cons hfree
    refine ⟨t, ret, rest, ?_, h, rfl, le_rfl, fun _ => rfl⟩
    rw [JniReferenceTable.reserveReference, if_neg hhead]
    rfl

/-- **A new reference gets a number that no object has**, and the other objects keep theirs. -/
theorem Valid.createReference (h : t.Valid free) (hpos : 0 < t.getSize) (ref : O) :
    ∃ t' i, t.createReference ref = some (t.startIndex + i, t') ∧ (∃ free, t'.Valid free) ∧
      t'.startIndex = t.startIndex ∧ t.getSize ≤ t'.getSize ∧ i < t'.getSize ∧ t.slot i = none ∧
      ∀ j, t'.slot j = if j = i then some ref else t.slot j := by
  obtain ⟨t₁, ret, rest, hreserve, hvalid, hstart, hsize, hslot⟩ := h.reserveReference hpos
  obtain ⟨hret, hnone⟩ := (hvalid.free_iff ret).mp mem_cons_self
  obtain ⟨t₂, htake, hstart₂, hrefs, hvalid₂⟩ := hvalid.takeFirst ref
  have hret₂ : ret < t₂.getSize := by
    rw [getSize, hrefs]
    exact hret
  have hlength : (t₁.references.set ret (some ref)).length = t₁.getSize := length_set
  refine ⟨{ t₂ with references := t₁.references.set ret (some ref) }, ret, ?_, ⟨rest, hvalid₂⟩,
    hstart₂.trans hstart, ?_, ?_, ?_, ?_⟩
  · rw [JniReferenceTable.createReference, hreserve, htake, ← hstart, ← hstart₂, ← hrefs]
    exact if_pos hret₂
  · exact hsize.trans_eq hlength.symm
  · exact hret.trans_eq hlength.symm
  · rw [← hslot]
    exact hnone
  · intro j
    rw [← hslot]
    exact slot_set hret (some ref) j

/-- **A deleted reference frees its number**, and the other objects keep theirs. -/
theorem Valid.deleteReference (h : t.Valid free) {o : O} (hi : t.slot i = some o) :
    ∃ t', t.deleteReference (t.startIndex + i) = some t' ∧ (∃ free, t'.Valid free) ∧
      t'.startIndex = t.startIndex ∧ t'.getSize = t.getSize ∧
      ∀ j, t'.slot j = if j = i then none else t.slot j := by
  have hlt := lt_of_slot hi
  have hfree : i + 1 ∉ free := by
    intro hmem
    rw [((h.free_iff i).mp hmem).2] at hi
    contradiction
  have hnodup : ((0 :: free) ++ [i + 1]).Nodup := by
    refine nodup_append.mpr ⟨h.chain.nodup, nodup_singleton _, ?_⟩
    rintro x hx _ hy rfl
    rcases mem_cons.mp hx with rfl | hx
    · exact absurd (mem_singleton.mp hy) (Nat.succ_ne_zero i).symm
    · exact hfree (mem_singleton.mp hy ▸ hx)
  have hlength : (t.references.set i none).length = t.getSize := length_set
  refine ⟨{ t with
    references := t.references.set i none
    referencesNextIndex := t.referencesNextIndex.set t.lastReferenceIndex (i + 1)
    lastReferenceIndex := i + 1 }, ?_, ⟨free ++ [i + 1], ?_, ?_, ?_, ?_⟩, rfl, hlength, ?_⟩
  · rw [JniReferenceTable.deleteReference, if_neg (by omega), Nat.add_sub_cancel_left, hi]
    simp only [returnReference, setNext, if_pos h.last_lt]
    rfl
  · have hend : Linked t.referencesNextIndex (i + 1) [] := h.used i hlt hfree
    exact h.chain.give hend hnodup
  · rw [length_set, h.length]
    exact congrArg (· + 1) hlength.symm
  · intro j
    rw [mem_append, mem_singleton, h.free_iff]
    show _ ↔ j < (t.references.set i none).length ∧ (t.references.set i none)[j]?.join = none
    rw [hlength, slot_set hlt]
    by_cases hj : j = i
    · simp [hj, hlt]
    · simp [hj, slot]
  · intro j hj hmem
    rw [mem_append, not_or, mem_singleton] at hmem
    rw [getElem?_set_ne (h.last_ne hmem.1)]
    exact h.used j (hlength ▸ hj) hmem.1
  · exact slot_set hlt none

theorem getReference_add (t : JniReferenceTable O) (i : Nat) :
    t.getReference (t.startIndex + i) = t.slot i := by
  rw [getReference, if_neg (by omega), Nat.add_sub_cancel_left]

/-! ## Sequences of calls -/

inductive TableCall (O : Type) where
  | ensureSize (size : Nat)
  | createReference (ref : O)
  | deleteReference (index : Nat)

/-- A call that throws leaves the table as it was. -/
def step (t : JniReferenceTable O) : TableCall O → JniReferenceTable O
  | .ensureSize size => (t.ensureSize size).getD t
  | .createReference ref => ((t.createReference ref).map Prod.snd).getD t
  | .deleteReference index => (t.deleteReference index).getD t

/-- A reference is given a number of the table that was free; where none was, the table has
grown. -/
def Creates (t : JniReferenceTable O) : TableCall O → Prop
  | .createReference ref => ∃ t' i, t.createReference ref = some (t.startIndex + i, t') ∧
      i < t'.getSize ∧ t.slot i = none ∧ t'.slot i = some ref ∧
      ((∀ j < t.getSize, t.slot j ≠ none) → t.getSize < t'.getSize)
  | _ => True

/-- References are only created in a table that has numbers. -/
def HasRoom (t : JniReferenceTable O) : TableCall O → Prop
  | .createReference _ => 0 < t.getSize
  | _ => True

/-- A table of no numbers; its free list starts with number 1 all the same. -/
def empty (start : Nat) : JniReferenceTable O where
  startIndex := start
  referencesNextIndex := [1]

/-- What a table is after any calls. -/
def Usable (t : JniReferenceTable O) : Prop :=
  (0 < t.getSize ∧ ∃ free, t.Valid free) ∨ ∃ start, t = empty start

theorem usable_make (size start : Nat) :
    ∃ t : JniReferenceTable O, make size start = some t ∧ t.Usable := by
  rcases Nat.eq_zero_or_pos size with rfl | hsize
  · exact ⟨empty start, rfl, .inr ⟨start, rfl⟩⟩
  · obtain ⟨t, ht, hvalid, -, hgetSize⟩ := make_spec hsize start
    exact ⟨t, ht, .inl ⟨hgetSize ▸ hsize, hvalid⟩⟩

/-- The first numbers of an empty table take the place of those it pretends to have. -/
theorem usable_ensureSize_empty (start size : Nat) :
    ((empty start : JniReferenceTable O).step (.ensureSize size)).Usable := by
  rcases Nat.eq_zero_or_pos size with rfl | hsize
  · exact .inr ⟨start, rfl⟩
  · have hresize : (empty start : JniReferenceTable O).resizeFrame size = make size start := by rfl
    have hgrows : (empty start : JniReferenceTable O).getSize < size := hsize
    obtain ⟨t, ht, husable⟩ := usable_make (O := O) size start
    rw [step, ensureSize, if_pos hgrows, hresize, ht]
    exact husable

theorem Valid.step_deleteReference (h : t.Valid free) (hpos : 0 < t.getSize) (index : Nat) :
    (t.step (.deleteReference index)).Usable := by
  rw [step]
  by_cases hstart : index < t.startIndex
  · rw [JniReferenceTable.deleteReference, if_pos hstart]
    exact .inl ⟨hpos, free, h⟩
  obtain ⟨i, rfl⟩ := Nat.exists_eq_add_of_le (Nat.le_of_not_lt hstart)
  rcases hi : t.slot i with _ | o
  · rw [JniReferenceTable.deleteReference, if_neg hstart, Nat.add_sub_cancel_left, hi]
    exact .inl ⟨hpos, free, h⟩
  · obtain ⟨t', ht', hvalid, -, hsize, -⟩ := h.deleteReference hi
    rw [ht']
    exact .inl ⟨hsize ▸ hpos, hvalid⟩

theorem Usable.step (h : t.Usable) (call : TableCall O) : (t.step call).Usable := by
  rcases h with ⟨hpos, free, h⟩ | ⟨start, rfl⟩
  · cases call with
    | ensureSize size =>
      obtain ⟨t', ht', hvalid, -, hsize, -⟩ := h.ensureSize size
      rw [JniReferenceTable.step, ht']
      exact .inl ⟨hpos.trans_le hsize, hvalid⟩
    | createReference ref =>
      obtain ⟨t', i, ht', hvalid, -, hsize, -⟩ := h.createReference hpos ref
      rw [JniReferenceTable.step, ht']
      exact .inl ⟨hpos.trans_le hsize, hvalid⟩
    | deleteReference index => exact h.step_deleteReference hpos index
  · cases call with
    | ensureSize size => exact usable_ensureSize_empty start size
    | createReference ref => exact .inr ⟨start, rfl⟩
    | deleteReference index =>
      refine .inr ⟨start, ?_⟩
      rw [JniReferenceTable.step, JniReferenceTable.deleteReference]
      split <;> rfl

theorem Usable.creates_iff (h : t.Usable) (call : TableCall O) :
    t.Creates call ↔ t.HasRoom call := by
  cases call with
  | ensureSize size => exact Iff.rfl
  | deleteReference index => exact Iff.rfl
  | createReference ref =>
    rcases h with ⟨hpos, free, h⟩ | ⟨start, rfl⟩
    · refine iff_of_true ?_ hpos
      obtain ⟨t', i, ht', -, -, -, hi, hnone, hslot⟩ := h.createReference hpos ref
      refine ⟨t', i, ht', hi, hnone, (hslot i).trans (if_pos rfl), fun hfull => ?_⟩
      by_contra hsize
      exact hfull i (by omega) hnone
    · refine iff_of_false ?_ (lt_irrefl 0)
      rintro ⟨t', i, ht', -⟩
      -- the entry behind number 1 is not there
      cases ht'

/-- **Every reference that is created gets a free number, in a table that grows when none is
left, exactly if none is created in a table without numbers.** -/
theorem references_created_iff (size start : Nat) (calls : List (TableCall O)) :
    ∃ t : JniReferenceTable O, make size start = some t ∧
      (Along step Creates t calls ↔ Along step HasRoom t calls) := by
  obtain ⟨t, ht, husable⟩ := usable_make (O := O) size start
  refine ⟨t, ht, ?_, ?_⟩
  · exact Along.imp Usable (fun _ call h _ => h.step call)
      (fun _ call h hcall => (h.creates_iff call).mp hcall) husable
  · exact Along.imp Usable (fun _ call h _ => h.step call)
      (fun _ call h hcall => (h.creates_iff call).mpr hcall) husable

/-- The first reference in a frame that was pushed with the capacity 0. -/
theorem references_created_fails :
    ∃ t : JniReferenceTable Nat, make 0 1 = some t ∧ t.createReference 7 = none ∧
      ¬ Along step Creates t [.createReference 7] := by
  refine ⟨empty 1, rfl, rfl, ?_⟩
  rintro ⟨⟨t', i, ht', -⟩, -⟩
  cases ht'

end JniReferenceTable
end FakeJni
