import Mathlib

/-! # Paths in the data directory of the game

`iorewrite0`, `iorewrite1` and `iorewrite2` put the directory of the launcher in the place of the
game's data directory. `iorewrite2` rewrites its first path until the rule does not apply, and
`iorewrite0` makes a string of a null pointer. -/
namespace LibcShim
open List

/-- A string of C, without the zero at its end. -/
structure PathText where
  text : List Char
  noNul : '\x00' ∉ text
  deriving DecidableEq

structure DataDirs where
  fromAndroidDataDir : PathText
  toAndroidDataDir : PathText

def memcmp (s t : List Char) (n : Nat) : Bool := s.take n != t.take n

/-- `std::string::rfind` with the position 0, which only looks at the start. -/
def rfindStart (s t : List Char) : Option Nat := if t.isPrefixOf s then some 0 else none

/-- A null pointer was made into a `std::string`. -/
inductive StringError where
  | null
  deriving DecidableEq

def stringOf : Option PathText → Except StringError PathText
  | none => .error .null
  | some path => .ok path

variable {path : PathText} {R : Type}

namespace DataDirs
variable (dirs : DataDirs)

def applies : Option PathText → Bool
  | none => false
  | some path =>
    !memcmp (path.text ++ ['\x00']) dirs.fromAndroidDataDir.text
        dirs.fromAndroidDataDir.text.length &&
      rfindStart dirs.toAndroidDataDir.text dirs.fromAndroidDataDir.text != some 0

/-- The directory of the launcher and the rest of the path. -/
def redirect (path : PathText) : PathText where
  text := dirs.toAndroidDataDir.text ++ path.text.drop dirs.fromAndroidDataDir.text.length
  noNul h := (List.mem_append.mp h).elim dirs.toAndroidDataDir.noNul
    fun hrest => path.noNul (List.mem_of_mem_drop hrest)

theorem text_redirect (path : PathText) : (dirs.redirect path).text =
    dirs.toAndroidDataDir.text ++ path.text.drop dirs.fromAndroidDataDir.text.length := rfl

def rw (path : Option PathText) : Option PathText :=
  if dirs.applies path then path.map dirs.redirect else path

theorem applies_some_iff :
    dirs.applies (some path) = true ↔
      dirs.fromAndroidDataDir.text <+: path.text ∧
        ¬ dirs.fromAndroidDataDir.text <+: dirs.toAndroidDataDir.text := by
  have hstart : dirs.fromAndroidDataDir.text <+: path.text ++ ['\x00'] ↔
      dirs.fromAndroidDataDir.text <+: path.text := by
    rw [prefix_concat_iff]
    refine or_iff_right fun h => dirs.fromAndroidDataDir.noNul ?_
    rw [h]
    exact mem_concat_self
  rw [← hstart, prefix_iff_eq_take, eq_comm (a := dirs.fromAndroidDataDir.text)]
  simp [applies, memcmp, rfindStart]

/-- A path to which the rule applies again has become shorter. -/
theorem length_redirect_lt (h : dirs.applies (some path) = true)
    (hagain : dirs.applies (some (dirs.redirect path)) = true) :
    (dirs.redirect path).text.length < path.text.length := by
  obtain ⟨hstart, hguard⟩ := dirs.applies_some_iff.mp h
  obtain ⟨hnext, -⟩ := dirs.applies_some_iff.mp hagain
  have hshort : dirs.toAndroidDataDir.text.length < dirs.fromAndroidDataDir.text.length := by
    by_contra hlong
    exact hguard (prefix_of_prefix_length_le hnext (prefix_append _ _) (not_lt.mp hlong))
  have hle := hstart.length_le
  rw [text_redirect, length_append, length_drop]
  omega

/-- The rounds that `iorewrite2` may make for its first path. -/
def rounds (path : Option PathText) : Nat :=
  if dirs.applies path then (path.elim 0 (·.text.length)) + 1 else 0

theorem rounds_redirect_lt {path : Option PathText} (h : dirs.applies path = true) :
    dirs.rounds (path.map dirs.redirect) < dirs.rounds path := by
  cases path with
  | none => cases h
  | some path =>
    by_cases hagain : dirs.applies (some (dirs.redirect path)) = true
    · have hlt := dirs.length_redirect_lt h hagain
      simpa [rounds, h, hagain] using hlt
    · simp [rounds, h, hagain]

end DataDirs

def iorewrite0 (dirs : DataDirs) (path : Option PathText) : Except StringError PathText :=
  if dirs.applies path then stringOf (path.map dirs.redirect) else stringOf path

def iorewrite1 {R : Type} (dirs : DataDirs) (org : Option PathText → R)
    (path1 : Option PathText) : R :=
  if dirs.applies path1 then org (path1.map dirs.redirect) else org path1

def iorewrite2 {R : Type} (dirs : DataDirs) (org : Option PathText → Option PathText → R)
    (path1 path2 : Option PathText) : R :=
  if dirs.applies path1 then iorewrite2 dirs org (path1.map dirs.redirect) path2
  else if dirs.applies path2 then org path1 (path2.map dirs.redirect)
  else org path1 path2
termination_by dirs.rounds path1
decreasing_by exact dirs.rounds_redirect_lt ‹_›

theorem iorewrite1_eq (dirs : DataDirs) (org : Option PathText → R) (path : Option PathText) :
    iorewrite1 dirs org path = org (dirs.rw path) := by
  rw [iorewrite1, DataDirs.rw, apply_ite org]

/-- The path is the directory or lies below it, with this rest. -/
def PathText.AtOrBelow (dir path : PathText) (rest : List Char) : Prop :=
  path.text = dir.text ++ rest ∧
    (rest = [] ∨ rest.head? = some '/' ∨ dir.text.getLast? = some '/')

instance (dir path : PathText) (rest : List Char) : Decidable (dir.AtOrBelow path rest) :=
  inferInstanceAs (Decidable (_ ∧ _))

namespace DataDirs
variable {dirs : DataDirs} {path : PathText}

theorem rw_of_not_prefix (h : ¬ dirs.fromAndroidDataDir.text <+: path.text) :
    dirs.rw (some path) = some path :=
  if_neg fun ha => h (dirs.applies_some_iff.mp ha).1

theorem rw_of_guard (h : dirs.fromAndroidDataDir.text <+: dirs.toAndroidDataDir.text) :
    dirs.rw (some path) = some path :=
  if_neg fun ha => (dirs.applies_some_iff.mp ha).2 h

/-- Where the rule applies, the rest of the path follows the directory of the launcher, and the
path is another one. -/
theorem rw_of_append {rest : List Char}
    (hguard : ¬ dirs.fromAndroidDataDir.text <+: dirs.toAndroidDataDir.text)
    (hpath : path.text = dirs.fromAndroidDataDir.text ++ rest) :
    ∃ path', dirs.rw (some path) = some path' ∧
      path'.text = dirs.toAndroidDataDir.text ++ rest ∧ path' ≠ path := by
  have happlies : dirs.applies (some path) = true :=
    dirs.applies_some_iff.mpr ⟨⟨rest, hpath.symm⟩, hguard⟩
  have htext : (dirs.redirect path).text = dirs.toAndroidDataDir.text ++ rest := by
    rw [text_redirect, hpath, drop_left]
  refine ⟨dirs.redirect path, if_pos happlies, htext, fun heq => hguard ?_⟩
  rw [heq, hpath, append_cancel_right_eq] at htext
  exact ⟨[], by rw [append_nil, htext]⟩

end DataDirs

open DataDirs

/-- **Nothing is rewritten if the directory of the launcher starts with that of the game. Otherwise
every path at or below this directory is rewritten, and no path that does not start with it.** -/
theorem iorewrite_directory {R : Type} (dirs : DataDirs) (org : Option PathText → R)
    (path : PathText) :
    (dirs.fromAndroidDataDir.text <+: dirs.toAndroidDataDir.text →
      iorewrite1 dirs org (some path) = org (some path)) ∧
    (¬ dirs.fromAndroidDataDir.text <+: dirs.toAndroidDataDir.text →
      (∀ rest, dirs.fromAndroidDataDir.AtOrBelow path rest →
        ∃ path', iorewrite1 dirs org (some path) = org (some path') ∧
          path'.text = dirs.toAndroidDataDir.text ++ rest ∧ path' ≠ path) ∧
      (¬ dirs.fromAndroidDataDir.text <+: path.text →
        iorewrite1 dirs org (some path) = org (some path))) := by
  refine ⟨fun hguard => ?_, fun hguard => ⟨fun rest hbelow => ?_, fun hother => ?_⟩⟩
  · rw [iorewrite1_eq, rw_of_guard hguard]
  · obtain ⟨path', hrw, htext, hne⟩ := rw_of_append hguard hbelow.1
    exact ⟨path', by rw [iorewrite1_eq, hrw], htext, hne⟩
  · rw [iorewrite1_eq, rw_of_not_prefix hother]

/-- A directory of the launcher within the data directory, and a path whose name only goes on like
the directory's. -/
theorem iorewrite_within_and_neighbour :
    let inside : DataDirs := ⟨⟨"/data/data".toList, by decide⟩, ⟨"/data/data/pe".toList, by decide⟩⟩
    let home : DataDirs := ⟨⟨"/data/data".toList, by decide⟩, ⟨"/home".toList, by decide⟩⟩
    let path : PathText := ⟨"/data/data/f".toList, by decide⟩
    let neighbour : PathText := ⟨"/data/database".toList, by decide⟩
    inside.fromAndroidDataDir.AtOrBelow path "/f".toList ∧
      iorewrite1 inside id (some path) = some path ∧
      ¬ home.fromAndroidDataDir.AtOrBelow neighbour "base".toList ∧
      iorewrite1 home id (some neighbour) = some ⟨"/homebase".toList, by decide⟩ := by
  decide +kernel

/-! ## The helpers together -/

/-- `iorewrite0` returns `s` for the path, and `iorewrite1` passes `s` on. -/
def MapsTo (dirs : DataDirs) (path : Option PathText) (s : PathText) : Prop :=
  iorewrite0 dirs path = .ok s ∧
    ∀ (R : Type) (org : Option PathText → R), iorewrite1 dirs org path = org (some s)

/-- The function of two paths is called with what the other two helpers make of them, and its result
returned. -/
def RewritesAgree (dirs : DataDirs) (p q : Option PathText) : Prop :=
  ∃ s t, MapsTo dirs p s ∧ MapsTo dirs q t ∧
    ∀ (R : Type) (org : Option PathText → Option PathText → R),
      iorewrite2 dirs org p q = org (some s) (some t)

/-- The launcher's directory is above the data directory, by a text that follows the latter in the
path once more. -/
def DataDirs.Repeats (dirs : DataDirs) (path : PathText) : Prop :=
  ∃ k ≠ [], dirs.fromAndroidDataDir.text = dirs.toAndroidDataDir.text ++ k ∧
    dirs.fromAndroidDataDir.text ++ k <+: path.text

section Together
variable {dirs : DataDirs} {q : Option PathText} {s : PathText}

theorem applies_twice_iff :
    dirs.applies (some path) = true ∧ dirs.applies (some (dirs.redirect path)) = true ↔
      dirs.Repeats path := by
  rw [dirs.applies_some_iff, dirs.applies_some_iff, dirs.text_redirect]
  constructor
  · rintro ⟨⟨⟨rest, hrest⟩, hguard⟩, hagain, -⟩
    rw [← hrest, drop_left] at hagain
    rcases prefix_or_prefix_of_prefix hagain (prefix_append _ rest) with h | ⟨k, hk⟩
    · exact absurd h hguard
    · rw [← hk, prefix_append_right_inj] at hagain
      refine ⟨k, ?_, hk.symm, ?_⟩
      · rintro rfl
        exact hguard ⟨[], by rw [← hk, append_nil, append_nil]⟩
      · rw [← hrest]
        exact (prefix_append_right_inj _).mpr hagain
  · rintro ⟨k, hk, hfrom, r, hr⟩
    have hguard : ¬ dirs.fromAndroidDataDir.text <+: dirs.toAndroidDataDir.text := by
      intro h
      have hle := h.length_le
      rw [hfrom, length_append] at hle
      have hpos := length_pos_of_ne_nil hk
      omega
    refine ⟨⟨⟨k ++ r, by rw [← hr, append_assoc]⟩, hguard⟩, ⟨r, ?_⟩, hguard⟩
    rw [← hr, append_assoc, drop_left, hfrom, append_assoc]

variable {org : Option PathText → Option PathText → R}

theorem iorewrite2_of_not_applies {p : Option PathText} (h : ¬ dirs.applies p = true) :
    iorewrite2 dirs org p q = org p (dirs.rw q) := by
  rw [iorewrite2, if_neg h, rw]
  exact (apply_ite (org p) _ _ _).symm

theorem iorewrite2_first (dirs : DataDirs) (p q : Option PathText) :
    ¬ dirs.applies (iorewrite2 dirs (fun p' _ => p') p q) = true := by
  fun_induction iorewrite2 dirs (fun p' (_ : Option PathText) => p') p q with
  | case1 _ _ ih => exact ih
  | case2 _ h _ => exact h
  | case3 _ h _ => exact h

theorem mapsTo_iff {path : Option PathText} : MapsTo dirs path s ↔ dirs.rw path = some s := by
  constructor
  · rintro ⟨-, hone⟩
    exact (iorewrite1_eq dirs id path).symm.trans (hone _ id)
  · intro h
    refine ⟨?_, fun R org => by rw [iorewrite1_eq, h]⟩
    calc iorewrite0 dirs path = stringOf (dirs.rw path) := (apply_ite stringOf _ _ _).symm
      _ = .ok s := by rw [h, stringOf]

theorem exists_of_rw {path : Option PathText} (h : dirs.rw path = some s) :
    ∃ path', path = some path' := by
  cases path with
  | none => cases h
  | some path' => exact ⟨path', rfl⟩

theorem rw_some (dirs : DataDirs) (path : PathText) : ∃ s, dirs.rw (some path) = some s := by
  unfold rw
  split
  · exact ⟨_, rfl⟩
  · exact ⟨_, rfl⟩

theorem iorewrite2_of_not_repeats (h : ¬ dirs.Repeats path) :
    iorewrite2 dirs org (some path) q = org (dirs.rw (some path)) (dirs.rw q) := by
  by_cases happlies : dirs.applies (some path) = true
  · have hagain : ¬ dirs.applies (some (dirs.redirect path)) = true :=
      fun ha => h (applies_twice_iff.mp ⟨happlies, ha⟩)
    have hrw : dirs.rw (some path) = some (dirs.redirect path) := if_pos happlies
    rw [iorewrite2, if_pos happlies, Option.map_some, iorewrite2_of_not_applies hagain, hrw]
  · have hrw : dirs.rw (some path) = some path := if_neg happlies
    rw [iorewrite2_of_not_applies happlies, hrw]

end Together

/-- **The helpers agree exactly if neither path is a null pointer, and the rule does not apply to
the first path a second time.** They always return. -/
theorem rewrites_agree_iff (dirs : DataDirs) (p q : Option PathText) :
    RewritesAgree dirs p q ↔ ∃ path1 path2, p = some path1 ∧ q = some path2 ∧
      ¬ dirs.Repeats path1 := by
  constructor
  · rintro ⟨s, t, hs, ht, hboth⟩
    rw [mapsTo_iff] at hs ht
    obtain ⟨path1, rfl⟩ := exists_of_rw hs
    obtain ⟨path2, rfl⟩ := exists_of_rw ht
    refine ⟨path1, path2, rfl, rfl, fun hrepeats => ?_⟩
    obtain ⟨happlies, hagain⟩ := applies_twice_iff.mpr hrepeats
    -- The path that is passed on is one to which the rule still applies.
    have hfirst := iorewrite2_first dirs (some path1) (some path2)
    rw [hboth, ← hs, rw, if_pos happlies] at hfirst
    exact hfirst hagain
  · rintro ⟨path1, path2, rfl, rfl, hrepeats⟩
    obtain ⟨s, hs⟩ := rw_some dirs path1
    obtain ⟨t, ht⟩ := rw_some dirs path2
    refine ⟨s, t, mapsTo_iff.mpr hs, mapsTo_iff.mpr ht, fun R org => ?_⟩
    rw [iorewrite2_of_not_repeats hrepeats, hs, ht]

/-- With `/data` in the place of `/data/data`, a path of two more directories of that name loses
both of them in `iorewrite2`. -/
theorem iorewrite2_twice :
    let dirs : DataDirs := ⟨⟨"/data/data".toList, by decide⟩, ⟨"/data".toList, by decide⟩⟩
    let path : PathText := ⟨"/data/data/data/f".toList, by decide⟩
    iorewrite1 dirs id (some path) = some ⟨"/data/data/f".toList, by decide⟩ ∧
      iorewrite2 dirs (fun p _ => p) (some path) (some path) =
        some ⟨"/data/f".toList, by decide⟩ ∧
      ¬ RewritesAgree dirs (some path) (some path) ∧ ¬ RewritesAgree dirs none none := by
  intro dirs path
  have hone : iorewrite1 dirs id (some path) = some ⟨"/data/data/f".toList, by decide⟩ := by
    decide +kernel
  have htwo : iorewrite2 dirs (fun p _ => p) (some path) (some path) =
      some ⟨"/data/f".toList, by decide⟩ := by
    decide +kernel
  refine ⟨hone, htwo, ?_, ?_⟩
  · rintro ⟨s, t, ⟨-, hs⟩, -, hboth⟩
    have hsame := (hboth _ fun p _ => p).symm.trans htwo
    have hpassed := (hs _ id).symm.trans hone
    have htexts := hsame.symm.trans hpassed
    revert htexts
    decide +kernel
  · rintro ⟨s, t, ⟨hnull, -⟩, -, -⟩
    cases hnull

end LibcShim
