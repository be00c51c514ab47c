import McpeLauncher.FakeJniString
import McpeLauncher.Runs

/-! # Primitive arrays of fake-jni

The region functions index an array and a buffer with the same number. `Get…ArrayElements` hands out
the storage of an array, or a copy; `Release…ArrayElements` does not know which it gets back: it
frees whatever it is given, and never after the mode 0. -/
namespace FakeJni
open List Runs

/-- `_GET_ARRAY_REGION` and `_SET_ARRAY_REGION`: the moves between `buf[b]` and `(*arr)[a]`, in
order. -/
def arrayRegion {β : Type} (move : Int → Int → β) (size start len : Int) :
    Except StringError (List β) :=
  if 0 > len ∨ jint (start + len) > size then
    .error (.runtimeError "FATAL: Invalid array region requested!")
  else .ok ((List.range (jint (start + len) - start).toNat).map
    fun k : Nat => move (start + k) (start + k))

inductive Assignment where
  | toBuf (b a : Int)
  | toArr (a b : Int)

def getArrayRegion : Int → Int → Int → Except StringError (List Assignment) := arrayRegion .toBuf

def setArrayRegion : Int → Int → Int → Except StringError (List Assignment) :=
  arrayRegion fun b a => .toArr a b

/-- The elements from `start` on go with `buf[0 .. len)`; a range outside is refused. -/
def RegionExact {β : Type} (move : Int → Int → β) (size start len : Int)
    (out : Except StringError (List β)) : Prop :=
  if 0 ≤ start ∧ 0 ≤ len ∧ start + len ≤ size then
    out = .ok ((List.range len.toNat).map fun k : Nat => move k (start + k))
  else ∃ e, out = .error e

/-- Nothing is copied, or from the start on; a range outside is caught by the check. -/
def Caught (size start len : Int) : Prop :=
  if 0 ≤ start ∧ 0 ≤ len ∧ start + len ≤ size then len = 0 ∨ start = 0
  else len < 0 ∨ (size < start + len ∧ start + len < 2 ^ 31)

theorem arrayRegion_iff {β : Type} {move : Int → Int → β} {size start len : Int}
    (hmove : ∀ b b' a, move b a = move b' a → b = b') (hsize : 0 ≤ size ∧ size < 2 ^ 31)
    (hstart : IsJInt start) (hlen : IsJInt len) :
    RegionExact move size start len (arrayRegion move size start len) ↔ Caught size start len := by
  obtain ⟨hstart₁, hstart₂⟩ := hstart
  obtain ⟨hlen₁, hlen₂⟩ := hlen
  rw [RegionExact, Caught]
  by_cases hinside : 0 ≤ start ∧ 0 ≤ len ∧ start + len ≤ size
  · have hsum : jint (start + len) = start + len := IsJInt.jint_eq ⟨by omega, by omega⟩
    rw [if_pos hinside, if_pos hinside, arrayRegion, hsum, if_neg (by omega),
      show start + len - start = len by omega]
    constructor
    · intro h
      rcases Nat.eq_zero_or_pos len.toNat with hzero | hpos
      · exact .inl (by omega)
      · have hfirst := map_inj_left.mp (Except.ok.inj h) 0 (mem_range.mpr hpos)
        have heq := hmove _ _ _ hfirst
        exact .inr (by omega)
    · rintro (rfl | rfl)
      · rfl
      · simp only [Int.zero_add]
  · have hcheck : (∃ e, arrayRegion move size start len = .error e) ↔
        0 > len ∨ jint (start + len) > size := by
      rw [arrayRegion]
      split
      · next h => exact iff_of_true ⟨_, rfl⟩ h
      · next h => exact iff_of_false (fun ⟨e, he⟩ => by cases he) h
    rw [if_neg hinside, if_neg hinside, hcheck]
    by_cases hover : 2 ^ 31 ≤ start + len
    · -- the sum wraps around to a negative number, which is no larger than the size
      rw [jint_wrap hover (by omega)]
      omega
    · by_cases hlow : start + len < -2 ^ 31
      · exact iff_of_true (.inl (by omega)) (.inl (by omega))
      · rw [IsJInt.jint_eq ⟨by omega, by omega⟩]
        omega

theorem isJInt_toInt (n : Int32) : IsJInt n.toInt := ⟨n.le_toInt, n.toInt_lt⟩

/-- **The regions that are copied and refused as they should be**, in both directions. -/
theorem array_regions_iff (length : Fin (2 ^ 31)) (start len : Int32) :
    (RegionExact .toBuf length start.toInt len.toInt
        (getArrayRegion length start.toInt len.toInt) ∧
      RegionExact (fun b a => .toArr a b) length start.toInt len.toInt
        (setArrayRegion length start.toInt len.toInt)) ↔
      Caught length start.toInt len.toInt := by
  have hsize : 0 ≤ (length : Int) ∧ (length : Int) < 2 ^ 31 := ⟨by omega, by omega⟩
  rw [getArrayRegion, setArrayRegion, arrayRegion_iff (fun _ _ _ h => (Assignment.toBuf.inj h).1)
    hsize (isJInt_toInt start) (isJInt_toInt len), arrayRegion_iff
    (fun _ _ _ h => (Assignment.toArr.inj h).2) hsize (isJInt_toInt start) (isJInt_toInt len),
    and_self]

/-- The second element goes to `buf[1]`; from -1 on the element before the array is read; and a
sum that overflows is not refused. -/
theorem array_regions_shifted :
    getArrayRegion 2 1 1 = .ok [.toBuf 1 1] ∧ getArrayRegion 2 (-1) 1 = .ok [.toBuf (-1) (-1)] ∧
      setArrayRegion 2 (2 ^ 31 - 1) 1 = .ok [] := by
  refine ⟨rfl, rfl, rfl⟩

/-! ## Leases of elements -/

/-- The storage of an array, or one of the copies in the order in which they were made. -/
inductive Elems where
  | storage (array : Nat)
  | copy (n : Nat)
  deriving DecidableEq

inductive ReleaseMode where
  | zero
  | commit
  | abort
  deriving DecidableEq

/-- `holder` is the array of a copy that was not given back with the mode 0 or `JNI_ABORT`;
`expected` is what each array should hold by the rules of JNI. Freed memory keeps its contents. -/
structure Leases (α : Type) where
  contents : Elems → List α
  made : Nat := 0
  freed : Elems → Nat := fun _ => 0
  holder : Nat → Option Nat := fun _ => none
  expected : Nat → List α

namespace Leases
variable {α : Type} {s : Leases α} {n : Nat}

def start (contents : Elems → List α) : Leases α :=
  { contents, expected := fun a => contents (.storage a) }

/-- `_GET_ARRAY_ELEMENTS`; `copy` is none for a null pointer, and what it points to is read. -/
def getElements (s : Leases α) (array : Nat) (copy : Option Bool) : Leases α :=
  if copy = some true then
    { s with
      contents := Function.update s.contents (.copy s.made) (s.contents (.storage array))
      made := s.made + 1
      holder := Function.update s.holder s.made (some array) }
  else s

@[simp] def free (s : Leases α) (elems : Elems) : Leases α :=
  { s with freed := Function.update s.freed elems (s.freed elems + 1) }

/-- The loop `(*arr)[i] = elems[i]`. -/
@[simp] def copyBack (s : Leases α) (array : Nat) (elems : Elems) : Leases α :=
  { s with contents := Function.update s.contents (.storage array) (s.contents elems) }

@[simp] def freeElements (s : Leases α) (array : Nat) (elems : Elems) : ReleaseMode → Leases α
  | .zero => s.copyBack array elems
  | .commit => (s.copyBack array elems).free elems
  | .abort => s.free elems

/-- The array that a pointer is released with; a copy is not released again. -/
@[simp] def arrayOf (s : Leases α) : Elems → Option Nat
  | .storage array => some array
  | .copy n => s.holder n

/-- The lease of a copy ends, unless it is only committed. -/
@[simp] def endLease (s : Leases α) : Elems → ReleaseMode → Leases α
  | .copy n, .zero => { s with holder := Function.update s.holder n none }
  | .copy n, .abort => { s with holder := Function.update s.holder n none }
  | _, _ => s

inductive LeaseCall (α : Type) where
  | get (array : Nat) (copy : Option Bool)
  | write (elems : Elems) (i : Nat) (v : α)
  | release (elems : Elems) (mode : ReleaseMode)

@[simp] def step (s : Leases α) : LeaseCall α → Leases α
  | .get array copy => s.getElements array copy
  | .write elems i v =>
    { s with
      contents := Function.update s.contents elems ((s.contents elems).set i v)
      expected := match elems with
        | .storage array => Function.update s.expected array ((s.contents elems).set i v)
        | .copy _ => s.expected }
  | .release elems mode => match s.arrayOf elems with
    | none => s
    | some array =>
      -- by the rules of JNI the elements are copied back unless the changes are given up
      { (s.freeElements array elems mode).endLease elems mode with
        expected :=
          if mode = .abort then s.expected
          else Function.update s.expected array (s.contents elems) }

/-- The arrays hold what they should, and copies are freed once, when their lease ends. -/
structure Right (s : Leases α) : Prop where
  contents : ∀ a, s.contents (.storage a) = s.expected a
  storage : ∀ a, s.freed (.storage a) = 0
  copies : ∀ n < s.made, s.freed (.copy n) = if s.holder n = none then 1 else 0

/-- **Every call leaves the arrays with what they should hold.** -/
theorem contents_step (h : ∀ a, s.contents (.storage a) = s.expected a) (c : LeaseCall α)
    (a : Nat) :
    (s.step c).contents (.storage a) = (s.step c).expected a := by
  cases c with
  | get array copy =>
    rw [Leases.step, getElements]
    split <;> simp [h a]
  | write elems i v => cases elems <;> simp [Function.update_apply, h a]
  | release elems mode =>
    cases elems with
    | storage array =>
      by_cases ha : a = array
      · subst ha
        cases mode <;> simp [h a]
      · cases mode <;> simp [ha, h a]
    | copy n =>
      rcases hholder : s.holder n with _ | array
      · simp [hholder, h a]
      · cases mode <;> simp [hholder, Function.update_apply, h a]

/-- Storage is released with the mode 0, and copies with `JNI_ABORT`. -/
def Careful (s : Leases α) : LeaseCall α → Prop
  | .release (.storage _) mode => mode = .zero
  | .release (.copy n) mode => s.holder n ≠ none → mode = .abort
  | _ => True

/-- Besides, nothing is known of the copies to come. -/
structure Inv (s : Leases α) : Prop extends s.Right where
  fresh : ∀ n, s.made ≤ n → s.holder n = none ∧ s.freed (.copy n) = 0

theorem Inv.start (contents : Elems → List α) : (start contents).Inv :=
  ⟨⟨fun _ => rfl, fun _ => rfl, fun n hn => absurd hn (Nat.not_lt_zero n)⟩, fun _ _ => ⟨rfl, rfl⟩⟩

theorem Inv.lt_made (h : s.Inv) (hholder : s.holder n ≠ none) : n < s.made := by
  by_contra hge
  exact hholder (h.fresh n (Nat.le_of_not_lt hge)).1

theorem Inv.freed_eq (h : s.Inv) (hholder : s.holder n ≠ none) : s.freed (.copy n) = 0 := by
  rw [h.copies n (h.lt_made hholder), if_neg hholder]

theorem Inv.get (h : s.Inv) (array : Nat) (copy : Option Bool) :
    (s.getElements array copy).Inv := by
  rw [getElements]
  split
  · refine ⟨⟨fun a => ?_, h.storage, fun n hn => ?_⟩, fun n hn => ?_⟩
    · simpa [Function.update_apply] using h.contents a
    · rcases Nat.lt_succ_iff_lt_or_eq.mp hn with hold | rfl
      · simpa [ne_of_lt hold] using h.copies n hold
      · simpa using (h.fresh _ (le_rfl)).2
    · have hlt : s.made < n := hn
      simpa [ne_of_gt hlt] using h.fresh n (le_of_lt hlt)
  · exact h

theorem Inv.step (h : s.Inv) {c : LeaseCall α} (hc : s.Careful c) : (s.step c).Inv := by
  cases c with
  | get array copy => exact h.get array copy
  | write elems i v => exact ⟨⟨contents_step h.contents _, h.storage, h.copies⟩, h.fresh⟩
  | release elems mode =>
    have hcontents := contents_step h.contents (.release elems mode)
    cases elems with
    | storage array =>
      obtain rfl : mode = .zero := hc
      exact ⟨⟨hcontents, h.storage, h.copies⟩, h.fresh⟩
    | copy n =>
      rcases hholder : s.holder n with _ | array
      · simpa [hholder] using h
      have hheld : s.holder n ≠ none := by simp [hholder]
      obtain rfl : mode = .abort := hc hheld
      simp only [Leases.step, arrayOf, hholder, freeElements, free, endLease] at hcontents ⊢
      refine ⟨⟨hcontents, fun a => ?_, fun k hk => ?_⟩, fun k hk => ?_⟩
      · simpa [Function.update_apply] using h.storage a
      · by_cases hkn : k = n
        · simp [hkn, h.freed_eq hheld]
        · simpa [hkn] using h.copies k hk
      · have hkn : k ≠ n := ne_of_gt ((h.lt_made hheld).trans_le hk)
        simpa [hkn] using h.fresh k hk

/-- Any other release frees storage, frees a copy that is still leased, or never frees one. -/
theorem Inv.careful (h : s.Inv) {c : LeaseCall α} (hright : (s.step c).Right) : s.Careful c := by
  cases c with
  | get array copy => trivial
  | write elems i v => trivial
  | release elems mode =>
    cases elems with
    | storage array =>
      have hstorage := hright.storage array
      cases mode with
      | zero => rfl
      | commit | abort => simp at hstorage
    | copy n =>
      intro hheld
      obtain ⟨array, harray⟩ := Option.ne_none_iff_exists'.mp hheld
      have hcopies := hright.copies n
      cases mode with
      | abort => rfl
      | zero | commit => simp [harray, h.lt_made hheld, h.freed_eq hheld] at hcopies

end Leases

/-- **The leases of arrays.** After every run the arrays hold what they should; and after every
front of a run also the copies are freed as they should be, and no storage is, exactly if storage
is only released with the mode 0 and copies only with `JNI_ABORT`. -/
theorem array_leases_iff {α : Type} (contents : Elems → List α)
    (calls : List (Leases.LeaseCall α)) :
    (∀ a, (calls.foldl Leases.step (.start contents)).contents (.storage a) =
        (calls.foldl Leases.step (.start contents)).expected a) ∧
      ((∀ front, front <+: calls → (front.foldl Leases.step (.start contents)).Right) ↔
        Along Leases.step Leases.Careful (.start contents) calls) := by
  refine ⟨invariant_all (fun s : Leases α => ∀ a, s.contents (.storage a) = s.expected a)
    (fun _ c h => Leases.contents_step h c) (fun _ => rfl) calls, ?_⟩
  exact forall_front_iff Leases.Inv Leases.Right (fun _ h => h.toRight) (fun _ _ h hc => h.step hc)
    (fun _ _ h hright => h.careful hright) (Leases.Inv.start contents) calls

/-- A copy released with the mode 0 is not freed, one that is committed is, and so is storage
released with `JNI_ABORT`. -/
theorem array_leases_wrong :
    let start : Leases Nat := .start fun _ => [7]
    let copied := start.step (.get 0 (some true))
    let released := copied.step (.release (.copy 0) .zero)
    let committed := copied.step (.release (.copy 0) .commit)
    let aborted := (start.step (.get 0 none)).step (.release (.storage 0) .abort)
    (released.freed (.copy 0) = 0 ∧ released.holder 0 = none) ∧
      (committed.freed (.copy 0) = 1 ∧ committed.holder 0 = some 0) ∧
      aborted.freed (.storage 0) = 1 := by
  decide

end FakeJni
