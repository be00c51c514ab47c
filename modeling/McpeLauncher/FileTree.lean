import Mathlib.Data.List.Basic
import Mathlib.Logic.Function.Basic
import Mathlib.Tactic.Common

/-! # Directories and paths

A file system as the graph of its directories, with `.` and `..` among the entries and links
followed, the resolution of a path (`lookup`), and `mkdir`, which only adds to it (`Extends`). -/
namespace FileTree
open List

/-- Files and directories are numbered. `mayMake`: the system lets a missing entry be created. -/
structure FileSystem where
  isDir : Nat → Bool
  entry : Nat → List Char → Option Nat
  root : Nat
  cwd : Nat
  next : Nat
  mayMake : Nat → List Char → Bool
  root_isDir : isDir root = true
  cwd_isDir : isDir cwd = true
  isDir_of_entry : ∀ {i name j}, entry i name = some j → isDir i = true
  lt_of_entry : ∀ {i name j}, entry i name = some j → j < next
  dot : ∀ {i}, isDir i = true → entry i ['.'] = some i
  dotdot : ∀ {i}, isDir i = true → ∃ j, entry i ['.', '.'] = some j ∧ isDir j = true

def components (p : List Char) : List (List Char) := (p.splitOn '/').filter (· ≠ [])

/-- The names that are looked up one after the other; a slash at the end asks for a
directory. -/
def steps (p : List Char) : List (List Char) :=
  components p ++ if p.getLast? = some '/' then [['.']] else []

theorem components_append_slash (p q : List Char) :
    components (p ++ '/' :: q) = components p ++ components q := by
  rw [components, splitOn, splitOnP_append_cons p q (by decide), filter_append]
  rfl

variable {slashes name : List Char}

theorem components_slashes (hslashes : ∀ c ∈ slashes, c = '/') (hne : slashes ≠ [])
    (p q : List Char) : components (p ++ slashes ++ q) = components p ++ components q := by
  induction slashes generalizing p with
  | nil => exact absurd rfl hne
  | cons c slashes ih =>
    obtain rfl : c = '/' := hslashes c (by simp)
    have hrest : ∀ c ∈ slashes, c = '/' := fun c hc => hslashes c (by simp [hc])
    rw [append_assoc, cons_append, components_append_slash]
    by_cases hnil : slashes = []
    · rw [hnil, nil_append]
    · rw [← nil_append slashes, ih hrest hnil []]
      rfl

theorem components_name (hname : '/' ∉ name) (hne : name ≠ []) : components name = [name] := by
  have hsplit : name.splitOn '/' = [name] := by
    refine splitOnP_eq_singleton fun c hc => ?_
    have : c ≠ '/' := fun heq => hname (heq ▸ hc)
    simpa using this
  rw [components, hsplit]
  simp [hne]

theorem steps_slashes (hslashes : ∀ c ∈ slashes, c = '/') (hne : slashes ≠ []) (hname : '/' ∉ name)
    (p : List Char) :
    steps (p ++ slashes ++ name) = components p ++ [if name = [] then ['.'] else name] := by
  rw [steps, components_slashes hslashes hne]
  by_cases hnil : name = []
  · have hlast : (p ++ slashes ++ name).getLast? = some '/' := by
      rw [hnil, append_nil, getLast?_append_of_ne_nil _ hne, getLast?_eq_some_getLast hne]
      exact congrArg some (hslashes _ (getLast_mem hne))
    rw [if_pos hlast, if_pos hnil, hnil]
    simp [components]
  · have hlast : (p ++ slashes ++ name).getLast? ≠ some '/' := by
      rw [getLast?_append_of_ne_nil _ hnil]
      exact fun h => hname (mem_of_getLast? h)
    rw [if_neg hlast, if_neg hnil, components_name hname hnil, append_nil]

namespace FileSystem
variable (fs : FileSystem) {fs' : FileSystem} {names : List (List Char)} {p : List Char} {d i : Nat}

def start (p : List Char) : Nat := if p.head? = some '/' then fs.root else fs.cwd

def walk : Nat → List (List Char) → Option Nat
  | i, [] => some i
  | i, name :: rest => (fs.entry i name).bind (walk · rest)

def lookup (p : List Char) : Option Nat := if p = [] then none else fs.walk (fs.start p) (steps p)

/-- The new directory is empty but for `.` and `..`. -/
def create (d : Nat) (name : List Char) (hd : fs.isDir d = true)
    (hnew : fs.entry d name = none) : FileSystem where
  isDir i := i = fs.next || fs.isDir i
  entry i n :=
    if i = fs.next then
      if n = ['.'] then some fs.next else if n = ['.', '.'] then some d else none
    else if i = d ∧ n = name then some fs.next
    else fs.entry i n
  root := fs.root
  cwd := fs.cwd
  next := fs.next + 1
  mayMake := fs.mayMake
  root_isDir := by simp [fs.root_isDir]
  cwd_isDir := by simp [fs.cwd_isDir]
  isDir_of_entry := by
    intro i n j h
    split at h
    · next hi => simp [hi]
    · split at h
      · next hi => simp [hi.1, hd]
      · simp [fs.isDir_of_entry h]
  lt_of_entry := by
    intro i n j h
    have hlt : d < fs.next := fs.lt_of_entry (fs.dot hd)
    split at h
    · split at h
      · simp at h
        omega
      · split at h
        · simp at h
          omega
        · cases h
    · split at h
      · simp at h
        omega
      · exact Nat.lt_succ_of_lt (fs.lt_of_entry h)
  dot := by
    intro i h
    by_cases hi : i = fs.next
    · simp [hi]
    · have hdir : fs.isDir i = true := by simpa [hi] using h
      have hdot := fs.dot hdir
      have hne : ¬ (i = d ∧ ['.'] = name) := by
        rintro ⟨rfl, rfl⟩
        rw [hdot] at hnew
        cases hnew
      rw [if_neg hi, if_neg hne, hdot]
  dotdot := by
    intro i h
    by_cases hi : i = fs.next
    · exact ⟨d, by simp [hi], by simp [hd]⟩
    · have hdir : fs.isDir i = true := by simpa [hi] using h
      obtain ⟨j, hdotdot, hj⟩ := fs.dotdot hdir
      have hne : ¬ (i = d ∧ ['.', '.'] = name) := by
        rintro ⟨rfl, rfl⟩
        rw [hdotdot] at hnew
        cases hnew
      refine ⟨j, ?_, by simp [hj]⟩
      rw [if_neg hi, if_neg hne, hdotdot]

/-- None where the path is there, its directory is not, or the system does not let it. -/
def mkdir (p : List Char) : Option FileSystem :=
  match (components p).getLast?, fs.walk (fs.start p) (components p).dropLast with
  | some name, some d =>
    if h : fs.isDir d = true ∧ fs.entry d name = none then
      if fs.mayMake d name then some (fs.create d name h.1 h.2) else none
    else none
  | _, _ => none

/-- The components are made directories, those that are missing by creating them. -/
def makePath (fs : FileSystem) (d : Nat) : List (List Char) → Option (FileSystem × Nat)
  | [] => some (fs, d)
  | name :: rest =>
    match hentry : fs.entry d name with
    | some i => if fs.isDir i then fs.makePath i rest else none
    | none =>
      if hd : fs.isDir d = true then
        if fs.mayMake d name then (fs.create d name hd hentry).makePath fs.next rest else none
      else none

def isDirectory (p : List Char) : Bool := (fs.lookup p).any fs.isDir

/-- The missing parts of a path can be created. -/
def Makes (p : List Char) : Prop := (fs.makePath (fs.start p) (components p)).isSome

instance (p : List Char) : Decidable (fs.Makes p) := inferInstanceAs (Decidable (_ = true))

variable {fs}

theorem walk_append (i : Nat) (a b : List (List Char)) :
    fs.walk i (a ++ b) = (fs.walk i a).bind (fs.walk · b) := by
  induction a generalizing i with
  | nil => rfl
  | cons name a ih =>
    rw [cons_append, walk, walk]
    cases fs.entry i name with
    | none => rfl
    | some j => exact ih j

theorem walk_singleton (i : Nat) (name : List Char) : fs.walk i [name] = fs.entry i name := by
  exact Option.bind_fun_some (fs.entry i name)

theorem walk_concat (h : fs.walk i names = some d) (name : List Char) :
    fs.walk i (names ++ [name]) = fs.entry d name := by
  rw [walk_append, h]
  exact walk_singleton d name

theorem start_append (hp : p ≠ []) (q : List Char) : fs.start (p ++ q) = fs.start p := by
  rw [start, start, head?_append_of_ne_nil _ hp]

theorem isDir_start (p : List Char) : fs.isDir (fs.start p) = true := by
  rw [start]
  split
  · exact fs.root_isDir
  · exact fs.cwd_isDir

theorem lookup_of_ne_nil (hp : p ≠ []) : fs.lookup p = fs.walk (fs.start p) (steps p) := if_neg hp

theorem isDirectory_iff :
    fs.isDirectory p = true ↔ ∃ d, fs.lookup p = some d ∧ fs.isDir d = true := by
  rw [isDirectory, Option.any_eq_true]

theorem walk_components (h : fs.lookup p = some d) :
    fs.walk (fs.start p) (components p) = some d := by
  rw [lookup] at h
  split at h
  · cases h
  · rw [steps] at h
    split at h
    · rw [walk_append, Option.bind_eq_some_iff] at h
      obtain ⟨i, hi, hdot⟩ := h
      rw [walk_singleton] at hdot
      rw [hi, ← hdot, fs.dot (fs.isDir_of_entry hdot)]
    · rwa [append_nil] at h

/-- Everything that was there is where it was. -/
structure Extends (fs fs' : FileSystem) : Prop where
  root : fs'.root = fs.root
  cwd : fs'.cwd = fs.cwd
  isDir : ∀ {i}, fs.isDir i = true → fs'.isDir i = true
  entry : ∀ {i name j}, fs.entry i name = some j → fs'.entry i name = some j

theorem Extends.refl (fs : FileSystem) : Extends fs fs := ⟨rfl, rfl, id, id⟩

theorem Extends.trans {fs₁ fs₂ fs₃ : FileSystem} (h₁ : Extends fs₁ fs₂) (h₂ : Extends fs₂ fs₃) :
    Extends fs₁ fs₃ :=
  ⟨h₂.root.trans h₁.root, h₂.cwd.trans h₁.cwd, fun h => h₂.isDir (h₁.isDir h),
    fun h => h₂.entry (h₁.entry h)⟩

theorem Extends.start (h : Extends fs fs') (p : List Char) : fs'.start p = fs.start p := by
  rw [FileSystem.start, FileSystem.start, h.root, h.cwd]

theorem walk_mono (h : Extends fs fs') {j : Nat} (hwalk : fs.walk i names = some j) :
    fs'.walk i names = some j := by
  induction names generalizing i with
  | nil => exact hwalk
  | cons name names ih =>
    rw [walk, Option.bind_eq_some_iff] at hwalk
    obtain ⟨k, hk, hrest⟩ := hwalk
    rw [walk, h.entry hk]
    exact ih hrest

section Create
variable {d : Nat} {name : List Char} (hd : fs.isDir d = true) (hnew : fs.entry d name = none)

theorem create_isDir_next : (fs.create d name hd hnew).isDir fs.next = true := by simp [create]

theorem create_entry_next {n : List Char} (hdot : n ≠ ['.']) (hdotdot : n ≠ ['.', '.']) :
    (fs.create d name hd hnew).entry fs.next n = none := by
  simp [create, hdot, hdotdot]

theorem create_entry_new : (fs.create d name hd hnew).entry d name = some fs.next := by
  have hne : d ≠ fs.next := Nat.ne_of_lt (fs.lt_of_entry (fs.dot hd))
  simp [create, hne]

theorem create_extends : Extends fs (fs.create d name hd hnew) := by
  refine ⟨rfl, rfl, fun h => by simp [create, h], fun {i n j} h => ?_⟩
  have hi : i ≠ fs.next := Nat.ne_of_lt (fs.lt_of_entry (fs.dot (fs.isDir_of_entry h)))
  have hne : ¬ (i = d ∧ n = name) := by
    rintro ⟨rfl, rfl⟩
    rw [h] at hnew
    cases hnew
  simp only [create, if_neg hi, if_neg hne, h]

end Create

theorem mkdir_eq_some (h : fs.mkdir p = some fs') :
    ∃ names name d, ∃ (hd : fs.isDir d = true) (hnew : fs.entry d name = none),
      components p = names ++ [name] ∧ fs.walk (fs.start p) names = some d ∧
        fs' = fs.create d name hd hnew := by
  rw [mkdir] at h
  split at h
  · next name d hlast hwalk =>
    split at h
    · next hdir =>
      split at h
      · refine ⟨_, name, d, hdir.1, hdir.2, ?_, hwalk, (Option.some.inj h).symm⟩
        exact (dropLast_append_getLast? name hlast).symm
      · cases h
    · cases h
  · cases h

theorem mkdir_of_walk (hp : components p = names ++ [name])
    (hwalk : fs.walk (fs.start p) names = some d) (hd : fs.isDir d = true)
    (hnew : fs.entry d name = none) (hmay : fs.mayMake d name = true) :
    fs.mkdir p = some (fs.create d name hd hnew) := by
  rw [mkdir, hp, getLast?_concat, dropLast_concat, hwalk]
  show (if h : fs.isDir d = true ∧ fs.entry d name = none then _ else _) = _
  rw [dif_pos ⟨hd, hnew⟩, if_pos hmay]

theorem mkdir_of_lookup (h : (fs.lookup p).isSome) : fs.mkdir p = none := by
  rw [Option.eq_none_iff_forall_ne_some]
  intro fs' hmk
  obtain ⟨names, name, d, hd, hnew, hp, hwalk, -⟩ := mkdir_eq_some hmk
  have hnone : fs.lookup p = none := by
    rw [lookup]
    split
    · rfl
    · rw [steps, hp, walk_append, walk_concat hwalk, hnew]
      rfl
  rw [hnone] at h
  cases h

theorem isDirectory_of_mkdir (h : fs.mkdir p = some fs') :
    Extends fs fs' ∧ fs'.isDirectory p = true := by
  obtain ⟨names, name, d, hd, hnew, hp, hwalk, rfl⟩ := mkdir_eq_some h
  have hext := create_extends hd hnew
  have hnil : p ≠ [] := by
    rintro rfl
    simp [components] at hp
  have hnext : (fs.create d name hd hnew).walk (fs.start p) (components p) = some fs.next := by
    rw [hp, walk_concat (walk_mono hext hwalk), create_entry_new]
  refine ⟨hext, isDirectory_iff.mpr ⟨fs.next, ?_, create_isDir_next hd hnew⟩⟩
  rw [lookup_of_ne_nil hnil, hext.start, steps, walk_append, hnext]
  split
  · exact (walk_singleton _ _).trans (dot _ (create_isDir_next hd hnew))
  · rfl

/-! ## The whole path -/

theorem makePath_of_some (h : fs.entry d name = some i) (rest : List (List Char)) :
    fs.makePath d (name :: rest) = if fs.isDir i then fs.makePath i rest else none := by
  rw [makePath]
  split
  · next j hj =>
    rw [h] at hj
    obtain rfl := Option.some.inj hj
    rfl
  · next hnone =>
    rw [h] at hnone
    cases hnone

theorem makePath_of_none (hd : fs.isDir d = true) (h : fs.entry d name = none)
    (rest : List (List Char)) :
    fs.makePath d (name :: rest) =
      if fs.mayMake d name then (fs.create d name hd h).makePath fs.next rest else none := by
  rw [makePath]
  split
  · next j hj =>
    rw [h] at hj
    cases hj
  · rw [dif_pos hd]

theorem makePath_of_not_isDir (hd : ¬ fs.isDir d = true) (name : List Char)
    (rest : List (List Char)) : fs.makePath d (name :: rest) = none := by
  rw [makePath]
  split
  · next i hi => exact absurd (fs.isDir_of_entry hi) hd
  · rw [dif_neg hd]

theorem makePath_append (fs : FileSystem) (d : Nat) (a b : List (List Char)) :
    fs.makePath d (a ++ b) = (fs.makePath d a).bind fun x => x.1.makePath x.2 b := by
  induction a generalizing fs d with
  | nil => rfl
  | cons name a ih =>
    rw [cons_append]
    cases hentry : fs.entry d name with
    | some i =>
      rw [makePath_of_some hentry, makePath_of_some hentry]
      split
      · exact ih fs i
      · rfl
    | none =>
      by_cases hd : fs.isDir d = true
      · rw [makePath_of_none hd hentry, makePath_of_none hd hentry]
        split
        · exact ih _ _
        · rfl
      · rw [makePath_of_not_isDir hd, makePath_of_not_isDir hd]
        rfl

theorem makePath_of_walk (h : fs.walk d names = some i) (hi : fs.isDir i = true) :
    fs.makePath d names = some (fs, i) := by
  induction names generalizing d with
  | nil => exact congrArg (fun i => some (fs, i)) (Option.some.inj h)
  | cons name names ih =>
    rw [walk, Option.bind_eq_some_iff] at h
    obtain ⟨j, hj, hrest⟩ := h
    have hdir : fs.isDir j = true := by
      cases names with
      | nil => exact Option.some.inj hrest ▸ hi
      | cons n names =>
        rw [walk, Option.bind_eq_some_iff] at hrest
        obtain ⟨k, hk, -⟩ := hrest
        exact fs.isDir_of_entry hk
    rw [makePath_of_some hj, if_pos hdir]
    exact ih hrest

theorem makePath_spec {fs : FileSystem} (h : fs.makePath d names = some (fs', i))
    (hd : fs.isDir d = true) : Extends fs fs' ∧ fs'.walk d names = some i ∧ fs'.isDir i = true := by
  induction names generalizing fs d with
  | nil =>
    obtain ⟨rfl, rfl⟩ := Prod.mk.inj (Option.some.inj h)
    exact ⟨Extends.refl fs, rfl, hd⟩
  | cons name names ih =>
    cases hentry : fs.entry d name with
    | some j =>
      rw [makePath_of_some hentry] at h
      split at h
      · next hj =>
        obtain ⟨hext, hwalk, hi⟩ := ih h hj
        refine ⟨hext, ?_, hi⟩
        rw [walk, hext.entry hentry]
        exact hwalk
      · cases h
    | none =>
      rw [makePath_of_none hd hentry] at h
      split at h
      · obtain ⟨hext, hwalk, hi⟩ := ih h (create_isDir_next hd hentry)
        refine ⟨(create_extends hd hentry).trans hext, ?_, hi⟩
        rw [walk, hext.entry (create_entry_new hd hentry)]
        exact hwalk
      · cases h

end FileSystem

end FileTree
