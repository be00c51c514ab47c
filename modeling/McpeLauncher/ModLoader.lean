import Mathlib
import McpeLauncher.PostOrder

/-! # Loading mods

`ModLoader::loadModsFromDirectory` loads the first mod of a set until the set is empty, and before a
mod those of its dependencies that are still in the set. -/
namespace McpeLauncherCore
open List PostOrder

/-- What the linker does with a library: `dlopen`, and whether `dlsym` finds
`mod_init`. -/
structure Linker (H : Type) where
  dlopen : String → Option H
  hasInit : H → Bool

/-- The paths given to `loadMod`, the libraries added to the `HookManager`, and those whose
`mod_init` was called. -/
structure ModLoader (H : Type) where
  mods : List H
  opened : List String
  libraries : List H
  initialized : List H

def isMod (fileName : String) : Bool :=
  let name := fileName.toList
  name.head? != some '.' && decide (4 ≤ fileName.utf8ByteSize) && ['.', 's', 'o'].isSuffixOf name

def insertName (x : String) : List String → List String
  | [] => [x]
  | y :: ys => if x < y then x :: y :: ys else if x = y then y :: ys else y :: insertName x ys

def modsToLoad (entries : List String) : List String :=
  entries.foldl (fun set fileName => if isMod fileName then insertName fileName set else set) []

variable {ys : List String}

theorem mem_insertName {x z : String} : z ∈ insertName x ys ↔ z = x ∨ z ∈ ys := by
  induction ys with
  | nil => simp [insertName]
  | cons y ys ih =>
    rw [insertName]
    split
    · simp
    · split
      · next heq => simp [heq]
      · rw [mem_cons, ih, mem_cons]
        exact or_left_comm

theorem insertName_pairwise {x : String} (h : ys.Pairwise (· < ·)) :
    (insertName x ys).Pairwise (· < ·) := by
  induction ys with
  | nil => simp [insertName]
  | cons y ys ih =>
    obtain ⟨hy, hys⟩ := pairwise_cons.mp h
    rw [insertName]
    split
    · next hlt =>
      refine pairwise_cons.mpr ⟨fun z hz => ?_, h⟩
      rcases mem_cons.mp hz with rfl | hz
      · exact hlt
      · exact lt_trans hlt (hy z hz)
    · split
      · exact h
      · next hnot hne =>
        refine pairwise_cons.mpr ⟨fun z hz => ?_, ih hys⟩
        rcases mem_insertName.mp hz with rfl | hz
        · exact lt_of_le_of_ne (not_lt.mp hnot) (Ne.symm hne)
        · exact hy z hz

theorem modsToLoad_spec (entries : List String) :
    (modsToLoad entries).Nodup ∧
      ∀ f, f ∈ modsToLoad entries ↔ f ∈ entries ∧ isMod f = true := by
  -- on the entries read so far, with the set in order
  suffices hloop : ∀ set : List String, set.Pairwise (· < ·) →
      (entries.foldl (fun set f => if isMod f then insertName f set else set) set).Pairwise
        (· < ·) ∧
      ∀ f, f ∈ entries.foldl (fun set f => if isMod f then insertName f set else set) set ↔
        f ∈ set ∨ f ∈ entries ∧ isMod f = true by
    obtain ⟨hsorted, hmem⟩ := hloop [] List.Pairwise.nil
    refine ⟨hsorted.imp fun hlt => ne_of_lt hlt, fun f => ?_⟩
    rw [modsToLoad, hmem]
    simp
  induction entries with
  | nil => exact fun set hset => ⟨hset, fun f => by simp⟩
  | cons e entries ih =>
    intro set hset
    rw [foldl_cons]
    split
    · next hmod =>
      obtain ⟨hsorted, hmem⟩ := ih _ (insertName_pairwise hset)
      refine ⟨hsorted, fun f => ?_⟩
      rw [hmem, mem_insertName, mem_cons]
      by_cases hf : f = e
      · simp [hf, hmod]
      · simp [hf]
    · next hmod =>
      obtain ⟨hsorted, hmem⟩ := ih _ hset
      refine ⟨hsorted, fun f => ?_⟩
      rw [hmem, mem_cons]
      by_cases hf : f = e
      · simp [hf, hmod]
      · simp [hf]

namespace ModLoader
variable {H : Type} (linker : Linker H) {s : List String × ModLoader H}

def loadMod (path : String) (l : ModLoader H) : Option H × ModLoader H :=
  let l := { l with opened := l.opened ++ [path] }
  match linker.dlopen path with
  | none => (none, l)
  | some handle =>
    let l := { l with libraries := l.libraries ++ [handle] }
    if linker.hasInit handle then
      (some handle, { l with initialized := l.initialized ++ [handle] })
    else (some handle, l)

/-- `loadMod`, and the handle kept in `mods`. -/
def loadAndKeep (path : String) (l : ModLoader H) : ModLoader H :=
  match l.loadMod linker path with
  | (none, l) => l
  | (some mod, l) => { l with mods := l.mods ++ [mod] }

variable (getModDependencies : String → List String) (path : String)

/-- The body of the loop over the dependencies; `load` is the recursive call. -/
def loadDep (load : String → List String × ModLoader H → Option (List String × ModLoader H))
    (s : List String × ModLoader H) (dep : String) : Option (List String × ModLoader H) :=
  if dep ∈ s.1 then do
    let (otherMods, l) ← load dep (s.1.erase dep, s.2)
    some (otherMods.erase dep, l)
  else some s

/-- `loadModMulti`, on the set `otherMods` and the loader. -/
def loadModMulti : Nat → String → List String × ModLoader H → Option (List String × ModLoader H)
  | 0, _, _ => none
  | fuel + 1, fileName, s => do
    let (otherMods, l) ←
      (getModDependencies (path ++ fileName)).foldlM (loadDep (loadModMulti fuel)) s
    some (otherMods, l.loadAndKeep linker (path ++ fileName))

def loadLoop (fuel : Nat) : Nat → List String × ModLoader H → Option (ModLoader H)
  | _, ([], l) => some l
  | 0, (_ :: _, _) => none
  | rounds + 1, (fileName :: otherMods, l) => do
    let s ← loadModMulti linker getModDependencies path fuel fileName (otherMods, l)
    loadLoop fuel rounds s

/-- `loadModsFromDirectory`, on the entries of the directory, if it can be opened. -/
def loadModsFromDirectory (fuel : Nat) (entries : Option (List String)) (l : ModLoader H) :
    Option (ModLoader H) :=
  match entries with
  | none => some l
  | some entries => loadLoop linker getModDependencies path fuel fuel (modsToLoad entries, l)

/-! ## Every mod once -/

theorem opened_loadAndKeep (path : String) (l : ModLoader H) :
    (l.loadAndKeep linker path).opened = l.opened ++ [path] := by
  have hload : (l.loadMod linker path).2.opened = l.opened ++ [path] := by
    rw [loadMod]
    split
    · rfl
    · split
      · rfl
      · rfl
  rw [loadAndKeep]
  split
  · next hnone =>
    rw [← hload, hnone]
  · next hsome =>
    rw [← hload, hsome]

def dependencies (fileName : String) : List String := getModDependencies (path ++ fileName)

variable {linker getModDependencies path}

theorem loadDeps_visited {deps : String → List String}
    {load : String → List String × ModLoader H → Option (List String × ModLoader H)} {fuel : Nat}
    (hload : ∀ fileName s, s.1.length < fuel → s.1.Nodup → ∃ order s', load fileName s = some s' ∧
      Visited deps (deps fileName) s.1 order s'.1 ∧
      s'.2.opened = s.2.opened ++ (order ++ [fileName]).map (path ++ ·)) (ds : List String)
    (hfuel : s.1.length ≤ fuel) (hnodup : s.1.Nodup) :
    ∃ order s', ds.foldlM (loadDep load) s = some s' ∧
      Visited deps ds s.1 order s'.1 ∧
      s'.2.opened = s.2.opened ++ order.map (path ++ ·) := by
  induction ds generalizing s with
  | nil => exact ⟨[], s, rfl, .nil, by simp⟩
  | cons dep ds ih =>
    rw [foldlM_cons, loadDep]
    by_cases hdep : dep ∈ s.1
    · have hlength := length_erase_of_mem hdep
      have hpos := length_pos_of_mem hdep
      obtain ⟨order₁, s₁, hcall, hvisited, hopened⟩ :=
        hload dep (s.1.erase dep, s.2) (by simp only; omega) (hnodup.erase dep)
      -- the dependency was taken out before the call
      have hgone : s₁.1.erase dep = s₁.1 :=
        erase_of_not_mem fun hmem => hnodup.not_mem_erase (hvisited.subset hmem)
      have hfuel₁ : s₁.1.length ≤ (s.1.erase dep).length := hvisited.length_le
      obtain ⟨order₂, s₂, hrest, hvisited₂, hopened₂⟩ :=
        ih (s := s₁) (by omega) (hvisited.nodup_rest (hnodup.erase dep))
      refine ⟨order₁ ++ dep :: order₂, s₂, ?_, .visit hdep hvisited hvisited₂, ?_⟩
      · rw [if_pos hdep, hcall]
        change ds.foldlM (loadDep load) (s₁.1.erase dep, s₁.2) = some s₂
        rw [hgone]
        exact hrest
      · rw [hopened₂, hopened]
        simp
    · obtain ⟨order, s', hrest, hvisited, hopened⟩ := ih hfuel hnodup
      refine ⟨order, s', ?_, .skip hdep hvisited, hopened⟩
      rw [if_neg hdep]
      exact hrest

variable (linker getModDependencies path) in
theorem loadModMulti_visited (fuel : Nat) (fileName : String) (hfuel : s.1.length < fuel)
    (hnodup : s.1.Nodup) :
    ∃ order s', loadModMulti linker getModDependencies path fuel fileName s = some s' ∧
      Visited (dependencies getModDependencies path)
        (dependencies getModDependencies path fileName) s.1 order s'.1 ∧
      s'.2.opened = s.2.opened ++ (order ++ [fileName]).map (path ++ ·) := by
  induction fuel generalizing fileName s with
  | zero => exact absurd hfuel (Nat.not_lt_zero _)
  | succ fuel ih =>
    obtain ⟨order, s', hdeps, hvisited, hopened⟩ :=
      loadDeps_visited (fun fileName s => ih fileName)
        (dependencies getModDependencies path fileName) (Nat.lt_succ_iff.mp hfuel) hnodup
    refine ⟨order, (s'.1, s'.2.loadAndKeep linker (path ++ fileName)), ?_, hvisited, ?_⟩
    · rw [dependencies] at hdeps
      rw [loadModMulti, hdeps]
      rfl
    · rw [opened_loadAndKeep, hopened]
      simp

variable (linker getModDependencies path) in
theorem loadLoop_drained (fuel rounds : Nat) (hfuel : s.1.length ≤ fuel)
    (hrounds : s.1.length ≤ rounds) (hnodup : s.1.Nodup) :
    ∃ order l', loadLoop linker getModDependencies path fuel rounds s = some l' ∧
      Drained (dependencies getModDependencies path) s.1 order ∧
      l'.opened = s.2.opened ++ order.map (path ++ ·) := by
  induction rounds generalizing s with
  | zero =>
    obtain ⟨set, l⟩ := s
    obtain rfl : set = [] := eq_nil_of_length_eq_zero (Nat.le_zero.mp hrounds)
    exact ⟨[], l, rfl, .nil, by simp⟩
  | succ rounds ih =>
    obtain ⟨_ | ⟨fileName, otherMods⟩, l⟩ := s
    · exact ⟨[], l, rfl, .nil, by simp⟩
    · simp only [length_cons, Nat.add_le_add_iff_right] at hfuel hrounds
      obtain ⟨order₁, s₁, hcall, hvisited, hopened⟩ := loadModMulti_visited
        linker getModDependencies path fuel fileName (s := (otherMods, l)) hfuel hnodup.of_cons
      have hlength : s₁.1.length ≤ otherMods.length := hvisited.length_le
      obtain ⟨order₂, l', hrest, hdrained, hopened₂⟩ :=
        ih (s := s₁) (by omega) (by omega) (hvisited.nodup_rest hnodup.of_cons)
      refine ⟨(order₁ ++ [fileName]) ++ order₂, l', ?_, .cons ?_ hdrained, ?_⟩
      · rw [loadLoop, hcall]
        exact hrest
      · refine .visit mem_cons_self ?_ .nil
        rw [erase_cons_head]
        exact hvisited
      · rw [hopened₂, hopened]
        simp

end ModLoader

/-- A mod that needs another one, and a library that is not in the directory. -/
def dependenciesOfTwo (path : String) : List String :=
  if path = "mods/a.so" then ["libc.so", "b.so"] else []

end McpeLauncherCore
