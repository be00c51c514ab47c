import McpeLauncher.FrameStream

/-! # Lines

Records that end in a separator and hold it nowhere else. `lines` are the complete lines of some
data (`lines_spec`), `scan` finds whole lines at the front (`scan_front`), and `fitting` counts
those that stay within a limit. -/
namespace Lines
open List
variable {α : Type} (nl : α) {ls : List (List α)} {l : List α}

/-- Ends in the separator and holds no other. -/
def IsLine (l : List α) : Prop := ∃ t, nl ∉ t ∧ l = t ++ [nl]

theorem IsLine.ne_nil (h : IsLine nl l) : l ≠ [] := by
  obtain ⟨t, _, rfl⟩ := h
  simp

theorem flatten_eq_nil (hls : ∀ l ∈ ls, IsLine nl l) : ls.flatten = [] ↔ ls = [] := by
  rw [flatten_eq_nil_iff]
  constructor
  · intro hnil
    refine eq_nil_iff_forall_not_mem.mpr fun l hl => ?_
    exact (hls l hl).ne_nil nl (hnil l hl)
  · rintro rfl l hl
    exact absurd hl not_mem_nil

theorem getLast?_flatten (hls : ∀ l ∈ ls, IsLine nl l) (hne : ls ≠ []) :
    ls.flatten.getLast? = some nl := by
  obtain ⟨front, l, rfl⟩ := (eq_nil_or_concat' ls).resolve_left hne
  obtain ⟨t, _, rfl⟩ := hls l (by simp)
  rw [flatten_append, flatten_singleton, ← append_assoc, getLast?_concat]

theorem not_mem_of_front {w q : List α} (hl : IsLine nl l) (hw : l = w ++ q) (hq : q ≠ []) :
    nl ∉ w := by
  obtain ⟨t, ht, rfl⟩ := hl
  rcases append_eq_append_iff.mp hw with ⟨x, rfl, hx⟩ | ⟨x, rfl, hx⟩
  · cases x with
    | nil => simpa using ht
    | cons a x =>
      have := (append_eq_nil_iff.mp (cons.inj hx).2.symm).2
      exact absurd this hq
  · exact fun hmem => ht (mem_append_left _ hmem)

/-! ## How many lines fit -/

/-- How many of the lines, from the front, fit into a number of lines and of bytes. -/
def fitting : (maxCount maxSize : Nat) → List (List α) → Nat
  | _, _, [] => 0
  | 0, _, _ :: _ => 0
  | maxCount + 1, maxSize, l :: ls =>
    if l.length ≤ maxSize then fitting maxCount (maxSize - l.length) ls + 1 else 0

section Fitting
variable {maxCount maxSize : Nat}

theorem fitting_le (maxCount maxSize : Nat) (ls : List (List α)) :
    fitting maxCount maxSize ls ≤ ls.length ∧ fitting maxCount maxSize ls ≤ maxCount ∧
      (ls.take (fitting maxCount maxSize ls)).flatten.length ≤ maxSize := by
  induction ls generalizing maxCount maxSize with
  | nil => simp [fitting]
  | cons l ls ih =>
    cases maxCount with
    | zero => simp [fitting]
    | succ maxCount =>
      rw [fitting]
      split
      · obtain ⟨hlength, hcount, hsize⟩ := ih maxCount (maxSize - l.length)
        rw [take_succ_cons, flatten_cons, length_append, length_cons]
        omega
      · simp

theorem fitting_pos : 0 < fitting maxCount maxSize (l :: ls) ↔
    0 < maxCount ∧ l.length ≤ maxSize := by
  cases maxCount with
  | zero => simp [fitting]
  | succ maxCount =>
    rw [fitting]
    split <;> simp [*]

/-- No more lines fit if the number is reached or the next line is too long. -/
theorem eq_fitting {k : Nat} (hlength : k ≤ ls.length) (hcount : k ≤ maxCount)
    (hsize : (ls.take k).flatten.length ≤ maxSize)
    (hstop : k = maxCount ∨ ∀ l, ls[k]? = some l → maxSize < ((ls.take k).flatten ++ l).length) :
    k = fitting maxCount maxSize ls := by
  induction ls generalizing k maxCount maxSize with
  | nil => simpa [fitting] using hlength
  | cons l ls ih =>
    cases k with
    | zero =>
      rcases hstop with rfl | hlong
      · rfl
      · have hl : maxSize < l.length := by simpa using hlong l rfl
        refine (Nat.eq_zero_of_not_pos fun hpos => ?_).symm
        exact absurd (fitting_pos.mp hpos).2 (Nat.not_le.mpr hl)
    | succ k =>
      obtain ⟨maxCount, rfl⟩ : ∃ n, maxCount = n + 1 := ⟨maxCount - 1, by omega⟩
      rw [take_succ_cons, flatten_cons, length_append] at hsize
      rw [fitting, if_pos (by omega), Nat.succ_inj]
      refine ih (Nat.le_of_succ_le_succ hlength) (Nat.le_of_succ_le_succ hcount) (by omega) ?_
      refine hstop.imp Nat.succ.inj fun hlong l' hl' => ?_
      have hless := hlong l' hl'
      rw [take_succ_cons, flatten_cons, append_assoc, length_append] at hless
      omega

end Fitting

section Split
variable [DecidableEq α] {t rest data : List α}

/-- The complete lines of the data, when `cur` has come before. -/
def split (cur : List α) : List α → List (List α)
  | [] => []
  | a :: rest => if a = nl then (cur ++ [a]) :: split [] rest else split (cur ++ [a]) rest

def lines (data : List α) : List (List α) := split nl [] data

theorem split_append (ht : nl ∉ t) (cur rest : List α) :
    split nl cur (t ++ rest) = split nl (cur ++ t) rest := by
  induction t generalizing cur with
  | nil => simp
  | cons a t ih =>
    have ha : a ≠ nl := fun h => ht (by simp [h])
    rw [cons_append, split, if_neg ha, ih (fun h => ht (by simp [h]))]
    simp

/-- **Lines are read back**, and what follows the last of them is left out. -/
theorem lines_flatten_append (hls : ∀ l ∈ ls, IsLine nl l) (ht : nl ∉ t) :
    lines nl (ls.flatten ++ t) = ls := by
  unfold lines
  induction ls with
  | nil =>
    have := split_append nl ht [] []
    rw [append_nil] at this
    rw [flatten_nil, nil_append, this]
    rfl
  | cons l ls ih =>
    obtain ⟨u, hu, rfl⟩ := hls l (by simp)
    rw [flatten_cons, append_assoc, append_assoc, split_append nl hu]
    simp only [nil_append, cons_append, split, if_true]
    rw [ih (fun l hl => hls l (by simp [hl]))]

theorem lines_flatten (hls : ∀ l ∈ ls, IsLine nl l) : lines nl ls.flatten = ls := by
  simpa using lines_flatten_append nl hls (t := []) (by simp)

theorem flatten_flatMap_lines {β : Type} {f : β → List α} {xs : List β}
    (h : ∀ x ∈ xs, f x = (lines nl (f x)).flatten) :
    (xs.flatMap fun x => lines nl (f x)).flatten = xs.flatMap f := by
  induction xs with
  | nil => rfl
  | cons x xs ih =>
    rw [flatMap_cons, flatMap_cons, flatten_append, ← h x (by simp),
      ih fun y hy => h y (by simp [hy])]

theorem split_spec (data : List α) : ∀ cur : List α, nl ∉ cur →
    (∀ l ∈ split nl cur data, IsLine nl l) ∧
      ∃ t, nl ∉ t ∧ cur ++ data = (split nl cur data).flatten ++ t := by
  induction data with
  | nil => exact fun cur hcur => ⟨by simp [split], cur, hcur, by simp [split]⟩
  | cons a rest ih =>
    intro cur hcur
    rw [split]
    split
    · next ha =>
      obtain ⟨hlines, t, ht, heq⟩ := ih [] (by simp)
      refine ⟨?_, t, ht, ?_⟩
      · intro l hl
        rcases mem_cons.mp hl with rfl | hl
        · exact ⟨cur, hcur, by rw [ha]⟩
        · exact hlines l hl
      · rw [flatten_cons, append_assoc, ← heq]
        simp
    · next ha =>
      obtain ⟨hlines, t, ht, heq⟩ := ih (cur ++ [a])
        (by simpa [hcur] using fun h => ha (Eq.symm h))
      exact ⟨hlines, t, ht, by rw [← heq]; simp⟩

theorem lines_spec (data : List α) :
    (∀ l ∈ lines nl data, IsLine nl l) ∧
      ∃ t, nl ∉ t ∧ data = (lines nl data).flatten ++ t := by
  exact split_spec nl data [] (by simp)

/-- The place looked at, the end of the last line and the number of lines, up to `limit`; a limit of
zero is none. -/
def scan (limit : Nat) : List α → (pos last count : Nat) → Nat × Nat
  | [], _, last, count => (last, count)
  | a :: rest, pos, last, count =>
    if a = nl then
      if count + 1 = limit then (pos + 1, count + 1)
      else scan limit rest (pos + 1) (pos + 1) (count + 1)
    else scan limit rest (pos + 1) last count

theorem scan_append (ht : nl ∉ t) (limit : Nat) (rest : List α) (pos last count : Nat) :
    scan nl limit (t ++ rest) pos last count =
      scan nl limit rest (pos + t.length) last count := by
  induction t generalizing pos with
  | nil => rfl
  | cons a t ih =>
    have ha : a ≠ nl := fun h => ht (by simp [h])
    rw [cons_append, scan, if_neg ha, ih (fun h => ht (by simp [h])), length_cons]
    congr 1
    omega

/-- Without a limit, the loop may stop anywhere and go on from there. -/
theorem scan_zero_append (a b : List α) (pos last count : Nat) :
    scan nl 0 (a ++ b) pos last count =
      scan nl 0 b (pos + a.length) (scan nl 0 a pos last count).1
        (scan nl 0 a pos last count).2 := by
  induction a generalizing pos last count with
  | nil => rfl
  | cons x a ih =>
    have hpos : pos + (x :: a).length = pos + 1 + a.length := by
      rw [length_cons]
      omega
    rw [hpos, cons_append, scan, scan]
    by_cases hx : x = nl
    · simp only [hx, if_true, Nat.succ_ne_zero, if_false, ih]
    · simp only [hx, if_false, ih]

theorem scan_lines (hls : ∀ l ∈ ls, IsLine nl l) (ht : nl ∉ t) {limit count : Nat}
    (hlimit : limit = 0 ∨ count < limit) (pos : Nat) :
    ∃ k ≤ ls.length, (k = ls.length ∨ limit ≠ 0 ∧ count + k = limit) ∧
      (limit = 0 ∨ count + k ≤ limit) ∧
      scan nl limit (ls.flatten ++ t) pos pos count =
        (pos + (ls.take k).flatten.length, count + k) := by
  induction ls generalizing pos count with
  | nil =>
    refine ⟨0, Nat.le_refl 0, .inl rfl, by omega, ?_⟩
    have := scan_append nl ht limit [] pos pos count
    simpa [scan] using this
  | cons l ls ih =>
    obtain ⟨u, hu, rfl⟩ := hls l (by simp)
    have hstep : scan nl limit (((u ++ [nl]) :: ls).flatten ++ t) pos pos count =
        if count + 1 = limit then (pos + u.length + 1, count + 1)
        else scan nl limit (ls.flatten ++ t) (pos + u.length + 1) (pos + u.length + 1)
          (count + 1) := by
      rw [flatten_cons, append_assoc, append_assoc, scan_append nl hu]
      simp [scan]
    rw [hstep]
    split
    · next hstop =>
      exact ⟨1, by simp, .inr ⟨by omega, hstop⟩, by omega, by simp; omega⟩
    · next hgo =>
      obtain ⟨k, hk, hdone, hbound, heq⟩ :=
        ih (fun l hl => hls l (by simp [hl])) (show limit = 0 ∨ count + 1 < limit by omega)
          (pos + u.length + 1)
      refine ⟨k + 1, by simpa using hk, ?_, by omega, ?_⟩
      · rw [length_cons]
        omega
      · rw [heq]
        simp only [take_succ_cons, flatten_cons, length_append, length_singleton, Prod.mk.injEq]
        omega

/-- On the front of some lines the loop takes the first of them, as many as the
limit allows or as are there in full. -/
theorem scan_front (hls : ∀ l ∈ ls, IsLine nl l) (hdata : data ++ rest = ls.flatten) (limit : Nat) :
    ∃ k ≤ ls.length, scan nl limit data 0 0 0 = ((ls.take k).flatten.length, k) ∧
      data.take (ls.take k).flatten.length = (ls.take k).flatten ∧
      (limit ≠ 0 ∧ k = limit ∨ (limit = 0 ∨ k ≤ limit) ∧
        ∀ l, ls[k]? = some l → data.length < ((ls.take k).flatten ++ l).length) := by
  obtain ⟨done, todo, w, rfl, rfl, hinc, hw⟩ := FrameStream.exists_progress hdata
  have hdone : ∀ l ∈ done, IsLine nl l := fun l hl => hls l (by simp [hl])
  have hnl : nl ∉ w := by
    cases todo with
    | nil => rw [show w = [] from hinc]; simp
    | cons l todo =>
      obtain ⟨q, hq, hlen⟩ : ∃ q, l = w ++ q ∧ q ≠ [] := by
        rcases append_eq_append_iff.mp hw with ⟨q, hq, _⟩ | ⟨q, hq, _⟩
        · refine ⟨q, hq, fun hnil => ?_⟩
          rw [hq, hnil, append_nil] at hinc
          exact Nat.lt_irrefl _ hinc
        · have h1 : w.length < l.length := hinc
          have h2 := congrArg length hq
          rw [length_append] at h2
          omega
      exact not_mem_of_front nl (hls l (by simp)) hq hlen
  obtain ⟨k, hk, hall, hbound, heq⟩ := scan_lines nl hdone hnl (Nat.eq_zero_or_pos limit) 0
  have htake : (done ++ todo).take k = done.take k := take_append_of_le_length hk
  refine ⟨k, by rw [length_append]; omega, ?_, ?_, ?_⟩
  · rw [heq, htake, Nat.zero_add, Nat.zero_add]
  · rw [htake, ← take_append_drop k done, flatten_append, append_assoc]
    simp
  · rw [Nat.zero_add] at hall hbound
    by_cases hlim : limit ≠ 0 ∧ k = limit
    · exact .inl hlim
    · refine .inr ⟨hbound, fun l hl => ?_⟩
      have hkd : k = done.length := by omega
      subst hkd
      rw [htake, take_length, length_append, length_append]
      cases todo with
      | nil => simp at hl
      | cons l' todo =>
        have hll : l' = l := by simpa using hl
        have h1 : w.length < l'.length := hinc
        rw [← hll]
        omega

/-! ## `getline` -/

/-- What `getline` gives when `cur` has come before: lines without ends, and a last one if not
empty. -/
def getlines (cur : List α) : List α → List (List α)
  | [] => if cur = [] then [] else [cur]
  | a :: rest => if a = nl then cur :: getlines [] rest else getlines (cur ++ [a]) rest

theorem not_mem_getlines : ∀ {cur : List α}, nl ∉ cur →
    ∀ l ∈ getlines nl cur data, nl ∉ l := by
  induction data with
  | nil =>
    intro cur hcur l hl
    rw [getlines] at hl
    split at hl
    · cases hl
    · rwa [mem_singleton.mp hl]
  | cons a rest ih =>
    intro cur hcur l hl
    rw [getlines] at hl
    split at hl
    · rcases mem_cons.mp hl with rfl | hl
      · exact hcur
      · exact ih not_mem_nil l hl
    · next ha => exact ih (by simpa [hcur] using Ne.symm ha) l hl

theorem getlines_append (hl : nl ∉ l) (cur rest : List α) :
    getlines nl cur (l ++ nl :: rest) = (cur ++ l) :: getlines nl [] rest := by
  induction l generalizing cur with
  | nil => simp [getlines]
  | cons a l ih =>
    rw [mem_cons, not_or] at hl
    rw [cons_append, getlines, if_neg (Ne.symm hl.1), ih hl.2]
    simp

theorem getlines_of_not_mem (hrest : nl ∉ rest) (cur : List α) :
    getlines nl cur rest = if cur ++ rest = [] then [] else [cur ++ rest] := by
  induction rest generalizing cur with
  | nil => rw [getlines, append_nil]
  | cons a rest ih =>
    rw [mem_cons, not_or] at hrest
    rw [getlines, if_neg (Ne.symm hrest.1), ih hrest.2, append_assoc]
    rfl

theorem getlines_cases (rest : List α) :
    rest = [] ∨ (rest ≠ [] ∧ nl ∉ rest ∧ getlines nl [] rest = [rest]) ∨
      ∃ line tail, rest = line ++ nl :: tail ∧ nl ∉ line ∧
        getlines nl [] rest = line :: getlines nl [] tail := by
  by_cases hmem : nl ∈ rest
  · obtain ⟨line, tail, rfl, hline⟩ := eq_append_cons_of_mem hmem
    exact .inr (.inr ⟨line, tail, rfl, hline, getlines_append nl hline [] tail⟩)
  · by_cases hnil : rest = []
    · exact .inl hnil
    · refine .inr (.inl ⟨hnil, hmem, ?_⟩)
      rw [getlines_of_not_mem nl hmem, nil_append, if_neg hnil]

theorem getlines_flatMap (hls : ∀ l ∈ ls, nl ∉ l) :
    getlines nl [] (ls.flatMap (· ++ [nl])) = ls := by
  induction ls with
  | nil => rfl
  | cons l ls ih =>
    rw [flatMap_cons, append_assoc, singleton_append,
      getlines_append nl (hls l (by simp)), ih fun l' hl' => hls l' (by simp [hl']),
      nil_append]

end Split

end Lines
