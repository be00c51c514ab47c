import McpeLauncher.FileUtil
import McpeLauncher.TextSearch

/-! # Searching the path

`EnvPathUtil::findInPath` writes the name of the program behind each directory of a list and takes
the first that `access` calls executable. A pointer into a C string is the rest from there on. -/
namespace EnvPathUtil
open List
open FileUtil (cStr)

/-- `buf` and `o`. -/
structure Cursor where
  buf : List Char
  o : Nat

/-- `memcpy(&buf[o], src, n)`, and `o += n`. -/
def Cursor.put (c : Cursor) (src : List Char) : Option Cursor :=
  if c.o + src.length ≤ c.buf.length then
    some ⟨c.buf.take c.o ++ src ++ c.buf.drop (c.o + src.length), c.o + src.length⟩
  else none

def resize (buf : List Char) (n : Nat) : List Char :=
  buf.take n ++ List.replicate (n - buf.length) '\x00'

def willAppendSlashCwd (cwd : List Char) : Bool :=
  if cwd.length = 0 then false else cwd[cwd.length - 1]? ≠ some '/'

section Flags
variable (cwd path : List Char) (len : Nat)

def willPrefixWithCwd : Bool := len = 0 || path[0]? ≠ some '/'

def willReplaceWithDot : Bool := len = 0 && cwd.length = 0

def willAppendSlash : Bool :=
  if willReplaceWithDot cwd len then true else len ≠ 0 && path[len - 1]? ≠ some '/'

end Flags

section Write
variable (cwd path : List Char) (len : Nat) (c : Cursor)

def writeCwd : Option Cursor :=
  if willPrefixWithCwd path len then
    (c.put cwd).bind fun c => if willAppendSlashCwd cwd then c.put ['/'] else some c
  else some c

def writeEntry : Option Cursor :=
  if willReplaceWithDot cwd len then c.put ['.'] else c.put (path.take len)

def writeSlash : Option Cursor := if willAppendSlash cwd path len then c.put ['/'] else some c

end Write

/-- One round of the loop, up to the call of `access`. -/
def fillBuffer (cwd path what buf : List Char) (len : Nat) : Option (List Char) :=
  let cwdWithSlashLen := cwd.length + if willAppendSlashCwd cwd then 1 else 0
  let buf := resize buf
    ((if willPrefixWithCwd path len then cwdWithSlashLen else 0) +
      (if willReplaceWithDot cwd len then 1 else len) +
      (if willAppendSlash cwd path len then 1 else 0) + what.length)
  (writeCwd cwd path len ⟨buf, 0⟩).bind fun c =>
    (writeEntry cwd path len c).bind fun c =>
      (writeSlash cwd path len c).bind fun c => (c.put what).map Cursor.buf

/-- The files that `access` has been asked for, and what is returned. -/
structure Search where
  tried : List (List Char)
  result : Option (List Char)
  deriving DecidableEq

section Search
variable (executable : List Char → Bool)

def searchLoop (what cwd : List Char) (buf path : List Char) : Option Search :=
  let len := (path.idxOf? ':').getD path.length
  match fillBuffer cwd path what buf len with
  | none => none
  | some buf =>
    if executable (cStr buf) then some ⟨[buf], some buf⟩
    else match h : path.idxOf? ':' with
      | none => some ⟨[buf], none⟩
      | some i =>
        (searchLoop what cwd buf (path.drop (i + 1))).map fun s => ⟨buf :: s.tried, s.result⟩
termination_by path.length
decreasing_by
  obtain ⟨hi, -⟩ := idxOf?_eq_some_iff.mp h
  rw [length_drop]
  omega

def searchPath (environment path : Option (List Char)) : List Char :=
  match path with
  | some path => path
  | none =>
    match environment with
    | none => "/bin:/usr/bin".toList
    | some path => if path.length = 0 then "/bin:/usr/bin".toList else path

def findInPath (environment : Option (List Char)) (what : List Char)
    (path cwd : Option (List Char)) : Option Search :=
  searchLoop executable what (cwd.getD []) [] (searchPath environment path)

end Search

def withSlash (s : List Char) : List Char := if s.getLast? = some '/' then s else s ++ ['/']

/-- The directory an entry stands for; an empty working directory is none. -/
def directory (cwd : Option (List Char)) (entry : List Char) : List Char :=
  if entry.head? = some '/' then entry
  else if cwd.getD [] = [] then (if entry = [] then ['.'] else entry)
  else withSlash (cwd.getD []) ++ entry

def candidate (what : List Char) (cwd : Option (List Char)) (entry : List Char) : List Char :=
  withSlash (directory cwd entry) ++ what

/-! ## What is written -/

/-- The cursor behind what has been written. -/
def Cursor.behind (front rest : List Char) : Cursor := ⟨front ++ rest, front.length⟩

theorem put_behind {front rest src : List Char} (h : src.length ≤ rest.length) :
    (Cursor.behind front rest).put src =
      some (Cursor.behind (front ++ src) (rest.drop src.length)) := by
  have hfit :
      (Cursor.behind front rest).o + src.length ≤ (Cursor.behind front rest).buf.length := by
    simpa [Cursor.behind] using h
  rw [Cursor.put, if_pos hfit]
  simp [Cursor.behind]

theorem ite_put_behind (b : Bool) {front rest src : List Char}
    (h : (if b then src else []).length ≤ rest.length) :
    (if b then (Cursor.behind front rest).put src else some (Cursor.behind front rest)) =
      some (Cursor.behind (front ++ if b then src else [])
        (rest.drop (if b then src else []).length)) := by
  cases b with
  | false => simp
  | true => exact put_behind h

theorem length_resize (buf : List Char) (n : Nat) : (resize buf n).length = n := by
  rw [resize, length_append, length_take, length_replicate]
  omega

section Fill
variable (cwd path what : List Char) (len : Nat)

def cwdPart : List Char := if willPrefixWithCwd path len then
  cwd ++ (if willAppendSlashCwd cwd then ['/'] else []) else []

def entryPart : List Char := if willReplaceWithDot cwd len then ['.'] else path.take len

def slashPart : List Char := if willAppendSlash cwd path len then ['/'] else []

theorem writeCwd_behind {rest : List Char} (h : (cwdPart cwd path len).length ≤ rest.length) :
    writeCwd cwd path len (.behind [] rest) =
      some (.behind (cwdPart cwd path len) (rest.drop (cwdPart cwd path len).length)) := by
  rw [writeCwd]
  by_cases hcwd : willPrefixWithCwd path len = true
  · rw [cwdPart, if_pos hcwd, length_append] at h
    have hslash : (if willAppendSlashCwd cwd then ['/'] else []).length ≤
        (rest.drop cwd.length).length := by
      rw [length_drop]
      omega
    rw [cwdPart, if_pos hcwd, if_pos hcwd, put_behind (by omega), Option.bind_some,
      ite_put_behind _ hslash, drop_drop, length_append, nil_append]
  · rw [cwdPart, if_neg hcwd, if_neg hcwd]
    rfl

theorem length_cwdPart : (cwdPart cwd path len).length =
    if willPrefixWithCwd path len then
      cwd.length + (if willAppendSlashCwd cwd then 1 else 0) else 0 := by
  rw [cwdPart, apply_ite length, length_append, apply_ite length]
  rfl

theorem length_entryPart (hlen : len ≤ path.length) : (entryPart cwd path len).length =
    if willReplaceWithDot cwd len then 1 else len := by
  rw [entryPart, apply_ite length, length_take, min_eq_left hlen]
  rfl

theorem length_slashPart : (slashPart cwd path len).length =
    if willAppendSlash cwd path len then 1 else 0 := by
  rw [slashPart, apply_ite length]
  rfl

theorem fillBuffer_eq (hlen : len ≤ path.length) (buf : List Char) :
    fillBuffer cwd path what buf len =
      some (cwdPart cwd path len ++ entryPart cwd path len ++ slashPart cwd path len ++ what) := by
  have hentry (c : Cursor) : writeEntry cwd path len c = c.put (entryPart cwd path len) := by
    rw [writeEntry, entryPart, apply_ite c.put]
  rw [fillBuffer]
  simp only [← length_cwdPart, ← length_entryPart cwd path len hlen, ← length_slashPart]
  generalize hrest : resize buf _ = rest
  have hlength := congrArg length hrest
  rw [length_resize] at hlength
  have hstart : (⟨rest, 0⟩ : Cursor) = .behind [] rest := rfl
  rw [hstart, writeCwd_behind cwd path len (by omega), Option.bind_some, hentry,
    put_behind (by rw [length_drop]; omega), Option.bind_some, writeSlash,
    ite_put_behind _ (by rw [← slashPart, length_drop, length_drop]; omega),
    Option.bind_some, ← slashPart,
    put_behind (by rw [length_drop, length_drop, length_drop]; omega)]
  rw [drop_drop, drop_drop, drop_drop, drop_eq_nil_of_le (by omega)]
  exact congrArg some (append_nil _)

end Fill

theorem withSlash_eq (s : List Char) :
    withSlash s = s ++ if s.getLast? = some '/' then [] else ['/'] := by
  rw [withSlash]
  split
  · rw [append_nil]
  · rfl

theorem cwd_with_slash {cwd : List Char} (h : cwd ≠ []) :
    cwd ++ (if willAppendSlashCwd cwd then ['/'] else []) = withSlash cwd := by
  have hlength : cwd.length ≠ 0 := by simpa using h
  rw [withSlash_eq, willAppendSlashCwd, if_neg hlength, ← getLast?_eq_getElem?]
  by_cases hslash : cwd.getLast? = some '/'
  · simp [hslash]
  · simp [hslash]

theorem withSlash_append {s : List Char} (hs : s ≠ []) (front : List Char) :
    withSlash (front ++ s) = front ++ s ++ if s.getLast? = some '/' then [] else ['/'] := by
  rw [withSlash_eq, getLast?_append_of_ne_nil _ hs]

theorem withSlash_withSlash (s : List Char) : withSlash (withSlash s) = withSlash s := by
  by_cases hslash : s.getLast? = some '/'
  · simp [withSlash, hslash]
  · simp [withSlash, hslash]

section Parts
variable (what path : List Char) (cwd : Option (List Char))

theorem parts_zero :
    cwdPart (cwd.getD []) path 0 ++ entryPart (cwd.getD []) path 0 ++
      slashPart (cwd.getD []) path 0 ++ what = candidate what cwd [] := by
  have hhead : ([] : List Char).head? ≠ some '/' := by simp
  rw [candidate, directory, if_neg hhead]
  generalize cwd.getD [] = cwd
  by_cases hcwd : cwd = []
  · subst hcwd
    rfl
  · have hdot : willReplaceWithDot cwd 0 = false := by simp [willReplaceWithDot, hcwd]
    rw [if_neg hcwd, append_nil, withSlash_withSlash, ← cwd_with_slash hcwd]
    simp [cwdPart, entryPart, slashPart, willPrefixWithCwd, willAppendSlash, hdot]

theorem parts_pos {len : Nat} (hpos : len ≠ 0) (hlen : len ≤ path.length) :
    cwdPart (cwd.getD []) path len ++ entryPart (cwd.getD []) path len ++
      slashPart (cwd.getD []) path len ++ what = candidate what cwd (path.take len) := by
  have hne : path.take len ≠ [] := by
    intro h
    have := congrArg length h
    rw [length_take, length_nil] at this
    omega
  have hhead : path[0]? = (path.take len).head? := by
    rw [head?_eq_getElem?, getElem?_take_of_lt (by omega)]
  have hlast : path[len - 1]? = (path.take len).getLast? := by
    rw [getLast?_eq_getElem?, length_take, min_eq_left hlen, getElem?_take_of_lt (by omega)]
  rw [candidate, directory]
  generalize cwd.getD [] = cwd
  have hdot : willReplaceWithDot cwd len = false := by simp [willReplaceWithDot, hpos]
  have hslash : slashPart cwd path len =
      if (path.take len).getLast? = some '/' then [] else ['/'] := by
    simp [slashPart, willAppendSlash, hdot, hpos, hlast, ite_not]
  have hentry : entryPart cwd path len = path.take len := by simp [entryPart, hdot]
  rw [hslash, hentry]
  by_cases habs : (path.take len).head? = some '/'
  · have hfront : willPrefixWithCwd path len = false := by
      simp [willPrefixWithCwd, hpos, hhead, habs]
    rw [if_pos habs, withSlash_eq, cwdPart, hfront]
    rfl
  · have hfront : willPrefixWithCwd path len = true := by simp [willPrefixWithCwd, hhead, habs]
    rw [if_neg habs, cwdPart, if_pos hfront]
    by_cases hcwd : cwd = []
    · subst hcwd
      rw [if_pos rfl, if_neg hne, withSlash_eq]
      rfl
    · rw [if_neg hcwd, cwd_with_slash hcwd, withSlash_append hne]

theorem fillBuffer_candidate {len : Nat} (hlen : len ≤ path.length) (buf : List Char) :
    fillBuffer (cwd.getD []) path what buf len = some (candidate what cwd (path.take len)) := by
  rw [fillBuffer_eq _ _ _ _ hlen]
  by_cases hpos : len = 0
  · rw [hpos, take_zero, parts_zero]
  · rw [parts_pos what path cwd hpos hlen]

end Parts

section Loop
variable (executable : List Char → Bool)

/-- The candidates up to the first that is executable. -/
def searchIn (candidates : List (List Char)) : Search where
  tried := candidates.takeWhile (fun c => !executable (cStr c)) ++
    (candidates.find? fun c => executable (cStr c)).toList
  result := candidates.find? fun c => executable (cStr c)

theorem searchIn_cons (c : List Char) (candidates : List (List Char)) :
    searchIn executable (c :: candidates) =
      if executable (cStr c) then ⟨[c], some c⟩
      else ⟨c :: (searchIn executable candidates).tried,
        (searchIn executable candidates).result⟩ := by
  by_cases hc : executable (cStr c) = true
  · simp [searchIn, hc]
  · simp [searchIn, hc]

theorem splitOn_of_idxOf? (path : List Char) :
    path.splitOn ':' =
      path.take ((path.idxOf? ':').getD path.length) ::
        match path.idxOf? ':' with
        | none => []
        | some i => (path.drop (i + 1)).splitOn ':' := by
  cases hfind : path.idxOf? ':' with
  | none =>
    have hmem := idxOf?_eq_none_iff.mp hfind
    rw [Option.getD_none, take_length]
    refine splitOnP_eq_singleton fun c hc => ?_
    have : c ≠ ':' := fun heq => hmem (heq ▸ hc)
    simpa using this
  | some i =>
    have hmem := TextSearch.not_mem_take_of_idxOf? hfind
    have hfree : ∀ c ∈ path.take i, (c == ':') = false := by
      intro c hc
      have : c ≠ ':' := fun heq => hmem (heq ▸ hc)
      simpa using this
    have hsplit := splitOnP_append_cons_of_forall_mem hfree ':' rfl (path.drop (i + 1))
    rw [TextSearch.take_append_of_idxOf? hfind] at hsplit
    exact hsplit

theorem searchLoop_eq (what : List Char) (cwd : Option (List Char)) (buf path : List Char) :
    searchLoop executable what (cwd.getD []) buf path =
      some (searchIn executable ((path.splitOn ':').map (candidate what cwd))) := by
  have hlen (path : List Char) : (path.idxOf? ':').getD path.length ≤ path.length := by
    cases hfind : path.idxOf? ':' with
    | none => exact le_rfl
    | some i =>
      obtain ⟨hi, -⟩ := idxOf?_eq_some_iff.mp hfind
      exact le_of_lt hi
  fun_induction searchLoop executable what (cwd.getD []) buf path with
  | case1 buf path len hfill =>
    rw [fillBuffer_candidate _ _ _ (hlen path)] at hfill
    cases hfill
  | case2 buf path len buf' hfill hexec =>
    rw [fillBuffer_candidate _ _ _ (hlen path)] at hfill
    obtain rfl := Option.some.inj hfill
    rw [splitOn_of_idxOf?, map_cons, searchIn_cons, if_pos hexec]
  | case3 buf path len buf' hfill hexec hnone =>
    rw [fillBuffer_candidate _ _ _ (hlen path)] at hfill
    obtain rfl := Option.some.inj hfill
    rw [splitOn_of_idxOf?, map_cons, searchIn_cons, if_neg hexec, hnone]
    rfl
  | case4 buf path len buf' hfill hexec i hi ih =>
    rw [fillBuffer_candidate _ _ _ (hlen path)] at hfill
    obtain rfl := Option.some.inj hfill
    rw [ih, splitOn_of_idxOf? path, map_cons, searchIn_cons, if_neg hexec, hi]
    rfl

end Loop

/-- **The search follows the path**: the first candidate, of one for each entry, that is executable
is the result. -/
theorem findInPath_eq (executable : List Char → Bool) (environment : Option (List Char))
    (what : List Char) (path cwd : Option (List Char)) :
    findInPath executable environment what path cwd =
      some (searchIn executable
        (((searchPath environment path).splitOn ':').map (candidate what cwd))) :=
  searchLoop_eq executable what cwd [] (searchPath environment path)

example : ["/bin", "lib/", ""].map (fun e => candidate ['x'] (some "/app".toList) e.toList) =
    ["/bin/x".toList, "/app/lib/x".toList, "/app/x".toList] := by decide

end EnvPathUtil
