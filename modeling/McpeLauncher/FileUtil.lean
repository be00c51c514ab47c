import Mathlib.Data.List.DropRight
import Mathlib.Order.OrderIsoNat
import McpeLauncher.FileTree

/-! # Recursive directory creation

`FileUtil::getParent` cuts a path before its last slashes; `mkdirRecursive` creates the parent and
then the path itself. `fuel` bounds the nested calls. -/
namespace FileUtil
open FileTree FileTree.FileSystem List

def rfindSlash : List Char → Option Nat
  | [] => none
  | c :: path =>
    match rfindSlash path with
    | some i => some (i + 1)
    | none => if c = '/' then some 0 else none

def skipSlashes (path : List Char) : Nat → Nat
  | 0 => 0
  | iof + 1 => if path[iof]? = some '/' then skipSlashes path iof else iof + 1

def getParent (path : List Char) : List Char :=
  match rfindSlash path with
  | none => []
  | some iof => path.take (skipSlashes path iof)

def cStr (s : List Char) : List Char := s.takeWhile (· ≠ '\x00')

section Functions
variable (fs : FileSystem) (path : List Char)

def pathExists : Bool := (fs.lookup (cStr path)).isSome

def isDirectory : Bool := fs.isDirectory (cStr path)

end Functions

/-- The exceptions of `mkdirRecursive`. -/
inductive MkdirError where
  | notDirectory (path : List Char)
  | mkdirFailed (path : List Char)

def MkdirError.what : MkdirError → List Char
  | .notDirectory path => "File exists and is not a directory: ".toList ++ path
  | .mkdirFailed path => "mkdir failed, path = ".toList ++ path

/-- How a call ends, and the file system then. -/
inductive Outcome where
  | returned (fs : FileSystem)
  | threw (fs : FileSystem) (error : MkdirError)

def mkdirRecursive : Nat → FileSystem → List Char → Option Outcome
  | 0, _, _ => none
  | fuel + 1, fs, path =>
    if isDirectory fs path then some (.returned fs)
    else if pathExists fs path then some (.threw fs (.notDirectory path))
    else match mkdirRecursive fuel fs (getParent path) with
      | none => none
      | some (.threw fs error) => some (.threw fs error)
      | some (.returned fs) =>
        match fs.mkdir (cStr path) with
        | none => some (.threw fs (.mkdirFailed path))
        | some fs => some (.returned fs)

/-! ## The parts of a path -/

def lastName (path : List Char) : List Char := path.rtakeWhile (· ≠ '/')

variable (path : List Char)

theorem rfindSlash_concat (c : Char) :
    rfindSlash (path ++ [c]) = if c = '/' then some path.length else rfindSlash path := by
  induction path with
  | nil => rfl
  | cons b path ih =>
    rw [cons_append, rfindSlash, ih, rfindSlash]
    by_cases hslash : c = '/'
    · rw [if_pos hslash, if_pos hslash]
      rfl
    · rw [if_neg hslash, if_neg hslash]

theorem take_skipSlashes (i : Nat) (hi : i ≤ path.length) :
    path.take (skipSlashes path i) = (path.take i).rdropWhile (· = '/') := by
  induction i with
  | zero => rfl
  | succ i ih =>
    have hget : path[i]? = some path[i] := getElem?_eq_getElem hi
    rw [skipSlashes, hget, take_add_one, hget, Option.toList_some, rdropWhile_concat]
    by_cases hslash : path[i] = '/'
    · rw [if_pos (congrArg some hslash), if_pos (by simpa using hslash)]
      exact ih (Nat.le_of_succ_le hi)
    · rw [if_neg (fun h => hslash (Option.some.inj h)), if_neg (by simpa using hslash),
        take_add_one, hget, Option.toList_some]

theorem rfindSlash_cases :
    rfindSlash path = none ∧ path.rdropWhile (· ≠ '/') = [] ∨
      ∃ i, rfindSlash path = some i ∧ i < path.length ∧
        path.rdropWhile (· ≠ '/') = path.take i ++ ['/'] := by
  induction path using reverseRecOn with
  | nil => exact .inl ⟨rfl, rfl⟩
  | append_singleton path c ih =>
    rw [rfindSlash_concat, rdropWhile_concat]
    by_cases hslash : c = '/'
    · rw [if_pos hslash, if_neg (by simpa using hslash), hslash]
      exact .inr ⟨path.length, rfl, by simp, by simp⟩
    · rw [if_neg hslash, if_pos (by simpa using hslash)]
      refine ih.imp id ?_
      rintro ⟨i, hfind, hi, hdrop⟩
      refine ⟨i, hfind, ?_, ?_⟩
      · rw [length_append]
        omega
      · rw [hdrop, take_append_of_le_length (le_of_lt hi)]

theorem getParent_eq :
    getParent path = (path.rdropWhile (· ≠ '/')).rdropWhile (· = '/') := by
  rw [getParent]
  obtain ⟨hfind, hdrop⟩ | ⟨i, hfind, hi, hdrop⟩ := rfindSlash_cases path
  · rw [hfind, hdrop]
    rfl
  · rw [hfind, hdrop, rdropWhile_concat, if_pos (by simp)]
    exact take_skipSlashes path i (le_of_lt hi)

theorem path_parts :
    ∃ slashes, path = getParent path ++ slashes ++ lastName path ∧
      (∀ c ∈ slashes, c = '/') ∧ (getParent path ≠ [] → slashes ≠ []) := by
  refine ⟨(path.rdropWhile (· ≠ '/')).rtakeWhile (· = '/'), ?_, ?_, ?_⟩
  · rw [getParent_eq, rdropWhile_append_rtakeWhile, lastName, rdropWhile_append_rtakeWhile]
  · intro c hc
    simpa using mem_rtakeWhile_imp hc
  · intro hparent hnil
    rw [getParent_eq] at hparent
    obtain ⟨-, hdrop⟩ | ⟨i, -, -, hdrop⟩ := rfindSlash_cases path
    · rw [hdrop] at hparent
      exact hparent rfl
    · rw [hdrop, rtakeWhile_concat_pos _ _ _ (by simp)] at hnil
      simp at hnil

theorem slash_not_mem_lastName : '/' ∉ lastName path := by
  intro h
  simpa using mem_rtakeWhile_imp h

/-! ## What the system sees -/

/-- The name the system sees at the end of the path. -/
def finalName (path : List Char) : List Char := cStr (lastName path)

/-- The path ends with a name for something new in its parent. -/
structure Named (path : List Char) : Prop where
  parent : '\x00' ∉ getParent path
  ne_nil : finalName path ≠ []
  ne_dot : finalName path ≠ ['.']
  ne_dotdot : finalName path ≠ ['.', '.']

variable {s : List Char} {fuel : Nat}

theorem cStr_append (h : '\x00' ∉ s) (t : List Char) : cStr (s ++ t) = s ++ cStr t := by
  apply takeWhile_append_of_pos
  intro c hc
  have : c ≠ '\x00' := fun heq => h (heq ▸ hc)
  simpa using this

theorem cStr_eq_self (h : '\x00' ∉ s) : cStr s = s := by
  have happend := cStr_append h []
  rwa [append_nil, show cStr [] = [] from rfl, append_nil] at happend

theorem cStr_append_of_mem (h : '\x00' ∈ s) (t : List Char) : cStr (s ++ t) = cStr s := by
  induction s with
  | nil => cases h
  | cons c s ih =>
    by_cases hc : c = '\x00'
    · rw [cStr, cStr, cons_append, takeWhile_cons_of_neg (by simpa using hc),
        takeWhile_cons_of_neg (by simpa using hc)]
    · have hs : '\x00' ∈ s := (mem_cons.mp h).resolve_left (Ne.symm hc)
      rw [cStr, cStr, cons_append, takeWhile_cons_of_pos (by simpa using hc),
        takeWhile_cons_of_pos (by simpa using hc)]
      exact congrArg (c :: ·) (ih hs)

theorem slash_not_mem_finalName : '/' ∉ finalName path :=
  fun h => slash_not_mem_lastName path ((takeWhile_subset _) h)

theorem cStr_parts {path : List Char} (hparent : '\x00' ∉ getParent path)
    (hne : getParent path ≠ []) :
    ∃ slashes, cStr path = getParent path ++ slashes ++ finalName path ∧
      (∀ c ∈ slashes, c = '/') ∧ slashes ≠ [] := by
  obtain ⟨slashes, hpath, hslashes, hsome⟩ := path_parts path
  have hfront : '\x00' ∉ getParent path ++ slashes := by
    rw [mem_append, not_or]
    exact ⟨hparent, fun h => absurd (hslashes _ h) (by decide)⟩
  refine ⟨slashes, ?_, hslashes, hsome hne⟩
  rw [hpath, cStr_append hfront, ← hpath, finalName]

section Child
variable {fs : FileSystem} {path : List Char} {d : Nat}

theorem start_cStr (hparent : '\x00' ∉ getParent path) (hne : getParent path ≠ []) :
    fs.start (cStr path) = fs.start (getParent path) := by
  obtain ⟨slashes, hpath, -, -⟩ := cStr_parts hparent hne
  rw [hpath, append_assoc, start_append hne]

theorem lookup_cStr (hparent : '\x00' ∉ getParent path) (hne : getParent path ≠ [])
    (hwalk : fs.walk (fs.start (getParent path)) (components (getParent path)) = some d) :
    fs.lookup (cStr path) =
      fs.entry d (if finalName path = [] then ['.'] else finalName path) := by
  obtain ⟨slashes, hpath, hslashes, hsome⟩ := cStr_parts hparent hne
  have hnil : cStr path ≠ [] := by
    rw [hpath]
    simp [hne]
  rw [lookup_of_ne_nil hnil, start_cStr hparent hne, hpath,
    steps_slashes hslashes hsome (slash_not_mem_finalName path), walk_concat hwalk]

theorem components_cStr (hnamed : Named path) (hne : getParent path ≠ []) :
    components (cStr path) = components (getParent path) ++ [finalName path] := by
  obtain ⟨slashes, hpath, hslashes, hsome⟩ := cStr_parts hnamed.parent hne
  rw [hpath, components_slashes hslashes hsome,
    components_name (slash_not_mem_finalName path) hnamed.ne_nil]

theorem isDirectory_ne_nil (h : isDirectory fs path = true) : path ≠ [] := by
  rintro rfl
  cases h

/-- A path without a name of its own is there as soon as its parent is. -/
theorem pathExists_of_not_named (hnot : ¬ Named path)
    (h : isDirectory fs (getParent path) = true) : pathExists fs path = true := by
  have hne := isDirectory_ne_nil h
  obtain ⟨d, hlookup, hd⟩ := isDirectory_iff.mp h
  rw [pathExists]
  by_cases hparent : '\x00' ∈ getParent path
  · obtain ⟨slashes, hpath, -, -⟩ := path_parts path
    rw [hpath, append_assoc, cStr_append_of_mem hparent, hlookup]
    rfl
  · rw [cStr_eq_self hparent] at hlookup
    rw [lookup_cStr hparent hne (walk_components hlookup)]
    by_cases hnil : finalName path = []
    · rw [if_pos hnil, fs.dot hd]
      rfl
    · rw [if_neg hnil]
      by_cases hdot : finalName path = ['.']
      · rw [hdot, fs.dot hd]
        rfl
      · by_cases hdotdot : finalName path = ['.', '.']
        · obtain ⟨j, hj, -⟩ := fs.dotdot hd
          rw [hdotdot, hj]
          rfl
        · exact absurd ⟨hparent, hnil, hdot, hdotdot⟩ hnot

theorem isDirectory_of_not_pathExists (h : pathExists fs path = false) :
    isDirectory fs path = false := by
  rw [pathExists, Option.isSome_eq_false_iff, Option.isNone_iff_eq_none] at h
  rw [isDirectory, FileSystem.isDirectory, h]
  rfl

end Child

/-! ## Calls that return -/

/-- From the path upwards, what is missing has a name, up to a directory. -/
inductive Creatable (fs : FileSystem) : List Char → Prop
  | there {path : List Char} (h : isDirectory fs path = true) : Creatable fs path
  | missing {path : List Char} (hmissing : pathExists fs path = false) (hnamed : Named path)
      (hparent : Creatable fs (getParent path)) : Creatable fs path

theorem Creatable.ne_nil {fs : FileSystem} {path : List Char} (h : Creatable fs path) :
    path ≠ [] := by
  cases h with
  | there h => exact isDirectory_ne_nil h
  | missing _ hnamed _ =>
    rintro rfl
    exact hnamed.ne_nil rfl

section Missing
variable {fs fs' : FileSystem} {path : List Char} {d : Nat}

/-- There is nothing in a new directory, and in an old one the path would have been found. -/
theorem entry_finalName (hmissing : pathExists fs path = false) (hnamed : Named path)
    (hne : getParent path ≠ [])
    (hwalk : fs'.walk (fs'.start (getParent path)) (components (getParent path)) = some d)
    (hfresh : fs' = fs ∨ ∀ n, n ≠ ['.'] → n ≠ ['.', '.'] → fs'.entry d n = none) :
    fs'.entry d (finalName path) = none := by
  rcases hfresh with rfl | hfresh
  · rw [pathExists, lookup_cStr hnamed.parent hne hwalk, if_neg hnamed.ne_nil] at hmissing
    simpa using hmissing
  · exact hfresh _ hnamed.ne_dot hnamed.ne_dotdot

theorem makePath_named (hnamed : Named path) (hne : getParent path ≠ [])
    (hmake : fs.makePath (fs.start (getParent path)) (components (getParent path)) =
      some (fs', d)) :
    fs.makePath (fs.start (cStr path)) (components (cStr path)) =
      fs'.makePath d [finalName path] := by
  rw [start_cStr hnamed.parent hne, components_cStr hnamed hne, makePath_append, hmake]
  rfl

theorem mkdirRecursive_succ {fs'' : FileSystem} (hmissing : pathExists fs path = false)
    (hrec : mkdirRecursive fuel fs (getParent path) = some (.returned fs'))
    (hmkdir : fs'.mkdir (cStr path) = some fs'') :
    mkdirRecursive (fuel + 1) fs path = some (.returned fs'') := by
  rw [mkdirRecursive, isDirectory_of_not_pathExists hmissing, hmissing, hrec]
  simp only [Bool.false_eq_true, if_false, hmkdir]

end Missing

/-- By induction along the parents: what was made last is an empty directory, so that the next name
is missing there. -/
theorem Creatable.returns {fs : FileSystem} {path : List Char} (h : Creatable fs path)
    (hmakes : fs.Makes (cStr path)) :
    ∃ fs' d fuel, fs.makePath (fs.start (cStr path)) (components (cStr path)) = some (fs', d) ∧
      mkdirRecursive fuel fs path = some (.returned fs') ∧
      (fs' = fs ∨ ∀ n, n ≠ ['.'] → n ≠ ['.', '.'] → fs'.entry d n = none) := by
  induction h with
  | @there path h =>
    obtain ⟨d, hlookup, hd⟩ := isDirectory_iff.mp h
    refine ⟨fs, d, 1, makePath_of_walk (walk_components hlookup) hd, ?_, .inl rfl⟩
    rw [mkdirRecursive, if_pos h]
  | @missing path hmissing hnamed hparent ih =>
    have hne := hparent.ne_nil
    rw [cStr_eq_self hnamed.parent] at ih
    obtain ⟨y, hy⟩ := Option.isSome_iff_exists.mp hmakes
    have habove : fs.Makes (getParent path) := by
      rw [start_cStr hnamed.parent hne, components_cStr hnamed hne, makePath_append,
        Option.bind_eq_some_iff] at hy
      obtain ⟨x, hx, -⟩ := hy
      exact Option.isSome_of_eq_some hx
    obtain ⟨fs', d, fuel, hmake, hrec, hfresh⟩ := ih habove
    obtain ⟨hext, hwalk, hd⟩ := makePath_spec hmake (isDir_start _)
    rw [← hext.start] at hwalk
    have hnew := entry_finalName hmissing hnamed hne hwalk hfresh
    rw [makePath_named hnamed hne hmake, makePath_of_none hd hnew] at hy ⊢
    have hmay : fs'.mayMake d (finalName path) = true := by
      by_contra hnot
      rw [if_neg hnot] at hy
      cases hy
    have hmkdir : fs'.mkdir (cStr path) = some (fs'.create d (finalName path) hd hnew) := by
      apply mkdir_of_walk (components_cStr hnamed hne) _ hd hnew hmay
      rw [start_cStr hnamed.parent hne]
      exact hwalk
    refine ⟨fs'.create d (finalName path) hd hnew, fs'.next, fuel + 1, if_pos hmay,
      mkdirRecursive_succ hmissing hrec hmkdir, .inr ?_⟩
    exact fun n hdot hdotdot => create_entry_next hd hnew hdot hdotdot

theorem creatable_of_returned {fs fs' : FileSystem} {path : List Char}
    (h : mkdirRecursive fuel fs path = some (.returned fs')) :
    Creatable fs path ∧ isDirectory fs' path = true := by
  induction fuel generalizing path fs' with
  | zero => cases h
  | succ fuel ih =>
    rw [mkdirRecursive] at h
    split at h
    · next hdir =>
      obtain rfl := Outcome.returned.inj (Option.some.inj h)
      exact ⟨.there hdir, hdir⟩
    · split at h
      · cases h
      · next hmissing =>
        rw [Bool.not_eq_true] at hmissing
        split at h
        · cases h
        · cases h
        · next fs₁ hrec =>
          obtain ⟨hparent, hdir⟩ := ih hrec
          split at h
          · cases h
          · next fs₂ hmkdir =>
            obtain rfl := Outcome.returned.inj (Option.some.inj h)
            have hnamed : Named path := by
              by_contra hnot
              have hthere := pathExists_of_not_named hnot hdir
              rw [mkdir_of_lookup hthere] at hmkdir
              cases hmkdir
            exact ⟨.missing hmissing hnamed hparent, (isDirectory_of_mkdir hmkdir).2⟩

/-- **Recursive creation** returns with the path a directory exactly if what is missing
has names of its own, up to a directory above it. -/
theorem mkdirRecursive_iff (fs : FileSystem) (path : List Char)
    (hmakes : fs.Makes (cStr path)) :
    (∃ fuel fs', mkdirRecursive fuel fs path = some (.returned fs') ∧
      isDirectory fs' path = true) ↔ Creatable fs path := by
  constructor
  · rintro ⟨fuel, fs', hreturned, -⟩
    exact (creatable_of_returned hreturned).1
  · intro h
    obtain ⟨fs', d, fuel, -, hreturned, -⟩ := h.returns hmakes
    exact ⟨fuel, fs', hreturned, (creatable_of_returned hreturned).2⟩

def bareRoot : FileSystem where
  isDir i := i = 0
  entry i n := if i = 0 ∧ (n = ['.'] ∨ n = ['.', '.']) then some 0 else none
  root := 0
  cwd := 0
  next := 1
  mayMake _ _ := true
  root_isDir := by simp
  cwd_isDir := by simp
  isDir_of_entry := by
    intro i n j h
    split at h
    · next hi => simp [hi.1]
    · cases h
  lt_of_entry := by
    intro i n j h
    split at h
    · obtain rfl := Option.some.inj h
      exact Nat.zero_lt_one
    · cases h
  dot := by
    intro i h
    obtain rfl : i = 0 := by simpa using h
    rfl
  dotdot := by
    intro i h
    exact ⟨0, by simpa using h, by simp⟩

def oneDirectory : FileSystem := bareRoot.create 0 ['d'] rfl rfl

theorem mkdirRecursive_below :
    ∃ fuel fs', mkdirRecursive fuel oneDirectory "/d//a/b".toList = some (.returned fs') ∧
      isDirectory fs' "/d//a/b".toList = true := by
  refine (mkdirRecursive_iff oneDirectory "/d//a/b".toList (by decide)).mpr ?_
  refine .missing rfl ⟨by decide, by decide, by decide, by decide⟩ ?_
  refine .missing rfl ⟨by decide, by decide, by decide, by decide⟩ ?_
  exact .there rfl

/-- The empty path is missing and its own parent: the call does not return. -/
theorem mkdirRecursive_nil (fs : FileSystem) (fuel : Nat) : mkdirRecursive fuel fs [] = none := by
  induction fuel with
  | zero => rfl
  | succ fuel ih =>
    have hmissing : pathExists fs [] = false := rfl
    have hparent : getParent [] = [] := rfl
    rw [mkdirRecursive, if_neg (by simp [isDirectory_of_not_pathExists hmissing]),
      if_neg (by simp [hmissing]), hparent, ih]

/-- Neither does a call return that comes to the empty path. -/
theorem mkdirRecursive_of_getParent_nil {fs : FileSystem} {path : List Char}
    (hmissing : pathExists fs path = false) (hparent : getParent path = []) (fuel : Nat) :
    mkdirRecursive fuel fs path = none := by
  cases fuel with
  | zero => rfl
  | succ fuel =>
    rw [mkdirRecursive, if_neg (by simp [isDirectory_of_not_pathExists hmissing]),
      if_neg (by simp [hmissing]), hparent, mkdirRecursive_nil]

/-- The empty path, a missing relative name, an entry of the root; and a slash at the end, with
which the directory is made. -/
theorem mkdirRecursive_fails :
    (∀ fuel, mkdirRecursive fuel oneDirectory [] = none) ∧
    (∀ fuel, mkdirRecursive fuel oneDirectory "a".toList = none) ∧
    (∀ fuel, mkdirRecursive fuel oneDirectory "/a".toList = none) ∧
    (∃ fs', mkdirRecursive 3 oneDirectory "/d/a/".toList =
      some (.threw fs' (.mkdirFailed "/d/a/".toList))) ∧
    ∀ path ∈ ["", "a", "/a", "/d/a/"], oneDirectory.Makes (cStr path.toList) :=
  ⟨mkdirRecursive_nil _, mkdirRecursive_of_getParent_nil rfl rfl,
    mkdirRecursive_of_getParent_nil rfl rfl, ⟨_, rfl⟩, by decide⟩

/-! ## Reading a file -/

/-- The results of `read`, by the number of the call and the bytes asked for; `none` is an error. -/
structure Reads where
  read : Nat → Nat → Option (List UInt8)
  length_le : ∀ {i n bytes}, read i n = some bytes → bytes.length ≤ n

/-- What `open`, `fstat` (the bit `S_IFDIR` of the mode) and `lseek` say; `none` where they fail. -/
structure FileCalls where
  opened : Bool
  isDirectory : Option Bool
  size : Option Nat
  reads : Reads

namespace Reads
variable (r : Reads) (size : Nat)

/-- The loop of `readFile`, for at most `fuel` rounds. -/
def loop : (fuel i o : Nat) → List UInt8 → Option (Bool × List UInt8)
  | 0, _, _, _ => none
  | fuel + 1, i, o, out =>
    if o < size then
      match r.read i (size - o) with
      | none => some (false, out)
      | some bytes =>
        loop fuel (i + 1) (o + bytes.length) (out.take o ++ bytes ++ out.drop (o + bytes.length))
    else some (true, out)

/-- The bytes that the first calls give. -/
def got : Nat → List UInt8
  | 0 => []
  | k + 1 => got k ++ (r.read k (size - (got k).length)).getD []

/-- The result of the call `i`. -/
def result (i : Nat) : Option (List UInt8) := r.read i (size - (r.got size i).length)

/-- No call fails, and from some call on they give nothing, although bytes are missing. -/
def Stalls : Prop :=
  ∃ n, (∀ i < n, r.result size i ≠ none) ∧ (∀ i, n ≤ i → r.result size i = some []) ∧
    (r.got size n).length < size

end Reads

/-- `readFile`, for at most `fuel` rounds of its loop: the result, and `out`. -/
def readFile (f : FileCalls) (fuel : Nat) (out : List UInt8) : Option (Bool × List UInt8) :=
  if f.opened && f.isDirectory == some false then
    match f.size with
    | none => some (false, out)
    | some size =>
      f.reads.loop size fuel 0 0 (out.take size ++ List.replicate (size - out.length) 0)
  else some (false, out)

namespace Reads
variable {r : Reads} {size : Nat}

theorem length_got_le (k : Nat) : (r.got size k).length ≤ size := by
  induction k with
  | zero => exact Nat.zero_le _
  | succ k ih =>
    rw [got, length_append]
    cases hread : r.read k (size - (r.got size k).length) with
    | none => exact ih
    | some bytes =>
      have := r.length_le hread
      simp only [Option.getD_some]
      omega

theorem length_got_mono {i j : Nat} (h : i ≤ j) :
    (r.got size i).length ≤ (r.got size j).length := by
  induction j, h using Nat.le_induction with
  | base => exact le_rfl
  | succ j _ ih =>
    rw [got, length_append]
    exact Nat.le_add_right_of_le ih

theorem got_succ {i : Nat} {bytes : List UInt8} (h : r.result size i = some bytes) :
    r.got size (i + 1) = r.got size i ++ bytes := by
  rw [result] at h
  rw [got, h, Option.getD_some]

theorem got_of_stalls {n i : Nat} (h : ∀ i, n ≤ i → r.result size i = some []) (hi : n ≤ i) :
    r.got size i = r.got size n := by
  induction i, hi using Nat.le_induction with
  | base => rfl
  | succ i hi ih => rw [got_succ (h i hi), append_nil, ih]

/-- The loop is over before the call `k`, or with it. -/
def StopsAt (r : Reads) (size k : Nat) : Prop :=
  (r.got size k).length = size ∨ r.result size k = none

/-- **Where a loop stops that returns**, and with what. -/
theorem stopsAt_of_loop {fuel i : Nat} {out : List UInt8} {res : Bool × List UInt8}
    (hout : out.length = size) (hi : ∀ j < i, r.result size j ≠ none)
    (h : r.loop size fuel i (r.got size i).length
      (r.got size i ++ out.drop (r.got size i).length) = some res) :
    ∃ k, r.StopsAt size k ∧ (∀ j < k, r.result size j ≠ none) ∧
      (res.1 = true → res.2 = r.got size k ∧ res.2.length = size) := by
  induction fuel generalizing i with
  | zero => cases h
  | succ fuel ih =>
    rw [loop] at h
    split at h
    · split at h
      · next hread =>
        cases h
        exact ⟨i, .inr hread, hi, nofun⟩
      · next bytes hread =>
        refine ih (i := i + 1) (fun j hj => ?_) ?_
        · rcases Nat.lt_succ_iff_lt_or_eq.mp hj with hj | rfl
          · exact hi j hj
          · exact fun hnone => by rw [result, hread] at hnone; cases hnone
        rw [got_succ hread, ← h, length_append, take_left, drop_append, drop_drop,
          drop_of_length_le (Nat.le_add_right _ _), nil_append, Nat.add_sub_cancel_left]
    · next hend =>
      cases h
      have hlength := le_antisymm (length_got_le i) (Nat.le_of_not_lt hend)
      rw [hlength, drop_of_length_le (le_of_eq hout), append_nil]
      exact ⟨i, .inl hlength, hi, fun _ => ⟨rfl, hlength⟩⟩

theorem loop_of_stopsAt {i k : Nat} (hk : r.StopsAt size k) (hi : i ≤ k) (out : List UInt8) :
    ∃ fuel res, r.loop size fuel i (r.got size i).length out = some res := by
  induction hn : k - i generalizing i out with
  | zero =>
    obtain rfl : i = k := by omega
    refine ⟨1, ?_⟩
    rw [loop]
    split
    · next hlt =>
      rcases hk with hk | hk
      · omega
      · rw [result] at hk
        exact ⟨_, by rw [hk]⟩
    · exact ⟨_, rfl⟩
  | succ n ih =>
    by_cases hlt : (r.got size i).length < size
    · cases hread : r.result size i with
      | none => exact ⟨1, _, by rw [loop, if_pos hlt, ← result, hread]⟩
      | some bytes =>
        have hnext := got_succ hread
        obtain ⟨fuel, res, hloop⟩ := ih (i := i + 1) (by omega)
          (out.take (r.got size i).length ++ bytes ++
            out.drop ((r.got size i).length + bytes.length)) (by omega)
        refine ⟨fuel + 1, res, ?_⟩
        rw [hnext, length_append] at hloop
        rw [loop, if_pos hlt, ← result, hread]
        exact hloop
    · exact ⟨1, _, by rw [loop, if_neg hlt]⟩

/-- **A loop that does not stop stalls**: the bytes that are missing cannot become fewer for
ever. -/
theorem stalls_iff : r.Stalls size ↔ ∀ k, ¬ r.StopsAt size k := by
  constructor
  · rintro ⟨n, hbefore, hafter, hmissing⟩ k hk
    rcases lt_or_ge k n with hlt | hge
    · rcases hk with hk | hk
      · have hmono : (r.got size k).length ≤ _ := length_got_mono (le_of_lt hlt)
        omega
      · exact hbefore k hlt hk
    · rcases hk with hk | hk
      · rw [got_of_stalls hafter hge] at hk
        omega
      · rw [hafter k hge] at hk
        cases hk
  · intro hgo
    have hmissing : ∀ k, (r.got size k).length < size := fun k =>
      lt_of_le_of_ne (length_got_le k) fun h => hgo k (.inl h)
    have hanti : Antitone fun i => size - (r.got size i).length :=
      fun i j h => Nat.sub_le_sub_left (length_got_mono h) size
    obtain ⟨n, hn⟩ := WellFoundedLT.antitone_chain_condition hanti
    refine ⟨n, fun i _ h => hgo i (.inr h), fun i hi => ?_, hmissing n⟩
    obtain ⟨bytes, hread⟩ := Option.ne_none_iff_exists'.mp fun h => hgo i (.inr h)
    have hsame : size - (r.got size i).length = size - (r.got size (i + 1)).length :=
      (hn i hi).symm.trans (hn (i + 1) (Nat.le_succ_of_le hi))
    have hless := hmissing (i + 1)
    rw [got_succ hread, length_append] at hsame hless
    have hnil : bytes = [] := length_eq_zero_iff.mp (by omega)
    rw [hread, hnil]

end Reads

/-- **`readFile` returns unless its reads stall, and when it succeeds `out` is what was read.** -/
theorem readFile_iff (f : FileCalls) (out : List UInt8) :
    ((∃ fuel res, readFile f fuel out = some res) ↔
      ¬ (f.opened = true ∧ f.isDirectory = some false ∧
        ∃ size, f.size = some size ∧ f.reads.Stalls size)) ∧
    ∀ fuel out', readFile f fuel out = some (true, out') →
      ∃ size k, f.size = some size ∧ (∀ i < k, f.reads.result size i ≠ none) ∧
        out' = f.reads.got size k ∧ out'.length = size := by
  unfold readFile
  split
  · next hopen =>
    rw [Bool.and_eq_true, beq_iff_eq] at hopen
    cases hsize : f.size with
    | none => exact ⟨iff_of_true ⟨0, _, rfl⟩ (by simp), fun _ _ h => by cases h⟩
    | some size =>
      have hlength : (out.take size ++ replicate (size - out.length) 0).length = size := by
        rw [length_append, length_take, length_replicate]
        omega
      refine ⟨?_, fun fuel out' h => ?_⟩
      · simp only [hopen, Option.some.injEq, true_and, exists_eq_left', Reads.stalls_iff,
          not_forall, not_not]
        constructor
        · rintro ⟨fuel, res, h⟩
          obtain ⟨k, hk, -⟩ := Reads.stopsAt_of_loop (i := 0) hlength nofun h
          exact ⟨k, hk⟩
        · rintro ⟨k, hk⟩
          exact Reads.loop_of_stopsAt hk (Nat.zero_le k) _
      · obtain ⟨k, -, hread, hk⟩ := Reads.stopsAt_of_loop (i := 0) hlength nofun h
        exact ⟨size, k, rfl, hread, hk rfl⟩
  · next hfail =>
    refine ⟨iff_of_true ⟨0, _, rfl⟩ fun h => hfail ?_, fun _ _ h => by cases h⟩
    rw [h.1, h.2.1]
    rfl

def noBytes : Reads := ⟨fun _ _ => some [], fun h => by cases h; exact Nat.zero_le _⟩

/-- A file of one byte that is gone when it is read. -/
theorem readFile_endless :
    ¬ ∃ fuel res, readFile ⟨true, some false, some 1, noBytes⟩ fuel [] = some res := by
  have hloop fuel : ∀ i out, noBytes.loop 1 fuel i 0 out = none := by
    induction fuel with
    | zero => exact fun _ _ => rfl
    | succ fuel ih => exact fun i out => ih (i + 1) _
  rintro ⟨fuel, res, h⟩
  exact nomatch h.symm.trans (hloop fuel 0 _)

end FileUtil
