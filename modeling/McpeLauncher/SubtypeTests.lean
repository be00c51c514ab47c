import McpeLauncher.FakeJniClasses

/-! # Subtype tests

`isAssignableFrom` and `isInstanceOf`. The loop of fake-jni stops before `JObject`, and its
`isInstanceOf` compares two classes; libjnivm reaches `java/lang/Object` only among the declared
parents. -/
/-- `NativeInterface::isInstanceOf` of fake-jni, for an object of the class `cls`. -/
def FakeJni.isInstanceOf {K : Type} [DecidableEq K] (cls clazz : K) : Bool := cls = clazz

namespace FakeJni.JClasses
open ClassHierarchy
variable {K : Type} [DecidableEq K] (h : JClasses K)

def isAssignableFrom (jderived jbase : K) : Bool :=
  (h.walk (fun derived => if derived = jbase then some () else none) jderived).isSome

variable {h}

theorem isAssignableFrom_iff {d b : K} :
    h.isAssignableFrom d b = true ↔ b ≠ h.object ∧ h.Above d b := by
  rw [isAssignableFrom, Option.isSome_iff_ne_none, Ne, walk_eq_none_iff]
  constructor
  · intro hsome
    by_contra hnot
    refine hsome fun a ha hne => if_neg fun hab => hnot ?_
    exact ⟨hab ▸ hne, hab ▸ ha⟩
  · rintro ⟨hne, hb⟩ hnone
    have := hnone b hb hne
    rw [if_pos rfl] at this
    contradiction

end FakeJni.JClasses

namespace Jnivm
open ClassHierarchy
variable {K : Type} [DecidableEq K]

/-- `HasBaseClass`, which is `IsAssignableFrom` with each `jclass` taken for the class it points to,
as the cast does. -/
def hasBaseClass (h : Hierarchy K) (cl c2 : K) : Bool :=
  if cl = c2 then true
  else (h.parents cl).attach.any fun i => hasBaseClass h i.1 c2
termination_by h.depth cl
decreasing_by exact h.depth_lt cl i.1 i.2

/-- `IsInstanceOf`; the object is known by its class, and may be null. -/
def isInstanceOf (h : Hierarchy K) (jo : Option K) (cl : K) : Bool :=
  match jo with
  | none => false
  | some objectClass => hasBaseClass h objectClass cl

theorem hasBaseClass_iff {h : Hierarchy K} {cl c2 : K} :
    hasBaseClass h cl c2 = true ↔ h.Above cl c2 := by
  induction cl using h.induct with
  | hstep cl ih =>
    rw [hasBaseClass, Hierarchy.above_iff]
    by_cases hcl : cl = c2
    · simp [hcl]
    · have hne : c2 ≠ cl := fun h => hcl h.symm
      simp only [if_neg hcl, List.any_eq_true, List.mem_attach, true_and, Subtype.exists, hne,
        false_or]
      constructor
      · rintro ⟨p, hp, hbase⟩
        exact ⟨p, hp, (ih p hp).mp hbase⟩
      · rintro ⟨p, hp, habove⟩
        exact ⟨p, hp, (ih p hp).mpr habove⟩

/-- **Where the tests are right.** `isAssignableFrom` of fake-jni: except for `JObject`; its
`isInstanceOf`: for the object's own class and no proper ancestor. `IsAssignableFrom` of libjnivm:
except for `java/lang/Object` undeclared; its `IsInstanceOf`: everywhere. The two agree except for
`JObject`. -/
theorem subtype_tests_iff (J : FakeJni.JClasses K) (L : Hierarchy K) (object d b : K) :
    ((J.isAssignableFrom d b = true ↔ J.Above d b ∨ b = J.object) ↔ b ≠ J.object) ∧
    ((FakeJni.isInstanceOf d b = J.isAssignableFrom d b) ↔
      if d = b then b ≠ J.object else b ≠ J.object → ¬ J.Above d b) ∧
    ((hasBaseClass L d b = true ↔ L.Above d b ∨ b = object) ↔ (b = object → L.Above d object)) ∧
    isInstanceOf L (some d) b = hasBaseClass L d b ∧
    (J.isAssignableFrom d b = hasBaseClass J.toHierarchy d b ↔ b ≠ J.object) := by
  refine ⟨?_, ?_, ?_, rfl, ?_⟩
  · rw [FakeJni.JClasses.isAssignableFrom_iff]
    by_cases hb : b = J.object
    · simp [hb]
    · simp [hb]
  · rw [Bool.eq_iff_iff, FakeJni.JClasses.isAssignableFrom_iff, FakeJni.isInstanceOf,
      decide_eq_true_eq]
    by_cases hd : d = b
    · subst hd
      have hself : J.Above d d := .refl d
      simp [hself]
    · simp [hd]
  · rw [hasBaseClass_iff]
    by_cases hb : b = object
    · simp [hb]
    · simp [hb]
  · rw [Bool.eq_iff_iff, FakeJni.JClasses.isAssignableFrom_iff, hasBaseClass_iff]
    show (b ≠ J.object ∧ J.Above d b ↔ J.Above d b) ↔ b ≠ J.object
    by_cases hb : b = J.object
    · simp [hb, J.above_object d]
    · simp [hb]

/-- Class 2 derives from class 1, and that from `JObject`, which is class 0. -/
def objectAndTwo : FakeJni.JClasses (Fin 3) where
  object := 0
  parent c := c - 1
  depth c := c.val
  depth_lt := by decide

def noParents : Hierarchy (Fin 3) where
  parents _ := []
  depth _ := 0
  depth_lt := by
    intro c p hp
    contradiction

/-- Class 2 with `JObject` and, for its object, with class 1; and `java/lang/Object` undeclared. -/
theorem subtype_tests_wrong :
    (objectAndTwo.Above 2 0 ∧ objectAndTwo.isAssignableFrom 2 0 = false) ∧
    (objectAndTwo.isAssignableFrom 2 1 = true ∧
      FakeJni.isInstanceOf (2 : Fin 3) 1 = false) ∧
    hasBaseClass noParents 2 0 = false := by
  refine ⟨⟨objectAndTwo.above_object 2, ?_⟩, ⟨?_, rfl⟩, ?_⟩
  · rw [← Bool.not_eq_true, FakeJni.JClasses.isAssignableFrom_iff]
    simp [objectAndTwo]
  · rw [FakeJni.JClasses.isAssignableFrom_iff]
    refine ⟨by decide, ?_⟩
    exact FakeJni.JClasses.above_parent (by decide) (.refl _)
  · rw [hasBaseClass]
    simp [noParents]

end Jnivm
