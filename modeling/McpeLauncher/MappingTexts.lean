import McpeLauncher.MappingParser

/-! # Loading texts of mappings

The mappings of a file are registered without empty lines, comments and lines that are not valid.
`loadMappings` of a text calls `substr` with the place where a line ends instead of its length,
skips no line, and is ended by an exception. -/
namespace Gamepad
open Lines TextSearch List

section Load
variable (word : WordSize)

/-- The mapping that is registered, or the exception; `parse` returns (`parse_returns`). -/
def addMapping (mapping : List Char) : Except ParseError GamepadMapping :=
  match ({} : GamepadMapping).parse word mapping (mapping.length + 1) with
  | some (m, none) => .ok m
  | some (_, some e) => .error e
  | none => .error .outside

/-- From a place on, at most so many rounds: what has been registered, and the exception that ended
it. -/
def loadLoop (content : List Char) :
    Nat → Nat → List GamepadMapping → Option (List GamepadMapping × Option ParseError)
  | 0, _, _ => none
  | rounds + 1, i, registered =>
    if i < content.length then
      match findChar content '\n' i with
      | none =>
        -- the last line; `npos` as a length is the rest
        match addMapping word (content.drop i) with
        | .error e => some (registered, some e)
        | .ok m => some (registered ++ [m], none)
      | some j =>
        match addMapping word ((content.drop i).take j) with
        | .error e => some (registered, some e)
        | .ok m => loadLoop content rounds (j + 1) (registered ++ [m])
    else some (registered, none)

def loadMappings (content : List Char) (rounds : Nat) :
    Option (List GamepadMapping × Option ParseError) :=
  loadLoop word content rounds 0 []

def lineMapping (line : List Char) : Option GamepadMapping :=
  if line ≠ [] ∧ line.head? ≠ some '#' then (addMapping word line).toOption else none

/-- `loadMappingsFromFile`, for a file that can be opened. -/
def loadMappingsFromFile (content : List Char) : List GamepadMapping :=
  (getlines '\n' [] content).filterMap (lineMapping word)

/-! ## The pieces of a text -/

/-- The lines, each with what is taken for it from its place `i` on. -/
def pieces : Nat → List Char → List (List Char) → List (List Char × List Char)
  | _, _, [] => []
  | i, rest, line :: lines =>
    (line, rest.take (i + line.length)) ::
      pieces (i + line.length + 1) (rest.drop (line.length + 1)) lines

/-- Text after text is registered, up to an exception. -/
def addAll : List (List Char) → List GamepadMapping → List GamepadMapping × Option ParseError
  | [], registered => (registered, none)
  | text :: texts, registered =>
    match addMapping word text with
    | .error e => (registered, some e)
    | .ok m => addAll texts (registered ++ [m])

end Load

section Pieces
variable {word : WordSize} {content : List Char}

theorem loadLoop_eq {i rounds : Nat} {rest : List Char} (h : At content i rest)
    (hrounds : rest.length < rounds) (registered : List GamepadMapping) :
    loadLoop word content rounds i registered =
      some (addAll word ((pieces i rest (getlines '\n' [] rest)).map Prod.snd) registered) := by
  induction rounds generalizing i rest registered with
  | zero => exact absurd hrounds (Nat.not_lt_zero _)
  | succ rounds ih =>
    have hlength := h.length_eq
    rw [loadLoop]
    rcases getlines_cases '\n' rest with
      rfl | ⟨hne, hnone, hlines⟩ | ⟨line, tail, rfl, hline, hlines⟩
    · have hend : ¬ i < content.length := by
        rw [length_nil] at hlength
        omega
      rw [if_neg hend]
      rfl
    · have hpos := length_pos_iff.mpr hne
      rw [if_pos (by omega), h.findChar_none hnone, hlines, h.drop]
      simp only [pieces, map_cons, map_nil, addAll]
      rw [take_of_length_le (Nat.le_add_left _ _)]
      rcases addMapping word rest with e | m
      · rfl
      · rfl
    · rw [length_append, length_cons] at hlength hrounds
      rw [if_pos (by omega), h.findChar hline, hlines, h.drop]
      simp only [pieces, map_cons, addAll]
      rcases addMapping word ((line ++ '\n' :: tail).take (i + line.length)) with e | m
      · rfl
      · dsimp only
        have htail : (line ++ '\n' :: tail).drop (line.length + 1) = tail := by
          rw [← drop_drop, drop_left]
          rfl
        rw [ih (h.append line).succ (by omega), htail]

theorem addAll_eq_iff {texts : List (List Char)} {registered registered' : List GamepadMapping} :
    addAll word texts registered = (registered', none) ↔
      ∃ ms, texts.map (addMapping word) = ms.map .ok ∧ registered' = registered ++ ms := by
  induction texts generalizing registered with
  | nil =>
    constructor
    · intro h
      exact ⟨[], rfl, by rw [append_nil]; exact (congrArg Prod.fst h).symm⟩
    · rintro ⟨ms, hms, rfl⟩
      obtain rfl := map_eq_nil_iff.mp hms.symm
      rw [addAll, append_nil]
  | cons text texts ih =>
    rw [addAll, map_cons]
    rcases addMapping word text with e | m
    · refine iff_of_false (fun h => by cases congrArg Prod.snd h) ?_
      rintro ⟨ms, hms, -⟩
      cases ms with
      | nil => cases hms
      | cons m ms => cases (cons.inj hms).1
    · rw [ih]
      constructor
      · rintro ⟨ms, hms, rfl⟩
        exact ⟨m :: ms, by rw [map_cons, hms], by rw [append_assoc]; rfl⟩
      · rintro ⟨ms, hms, rfl⟩
        cases ms with
        | nil => cases hms
        | cons m' ms =>
          obtain ⟨hm, hrest⟩ := cons.inj hms
          obtain rfl := Except.ok.inj hm
          exact ⟨ms, hrest, by rw [append_assoc]; rfl⟩

theorem map_fst_pieces (i : Nat) (rest : List Char) (lines : List (List Char)) :
    (pieces i rest lines).map Prod.fst = lines := by
  induction lines generalizing i rest with
  | nil => rfl
  | cons line lines ih => rw [pieces, map_cons, ih]

theorem map_addMapping_iff (pairs : List (List Char × List Char)) :
    (pairs.map Prod.snd).map (addMapping word) =
        ((pairs.map Prod.fst).filterMap (lineMapping word)).map .ok ↔
      ∀ p ∈ pairs, ∃ m, lineMapping word p.1 = some m ∧ addMapping word p.2 = .ok m := by
  induction pairs with
  | nil => simp
  | cons p pairs ih =>
    rw [forall_mem_cons, ← ih]
    simp only [map_cons, filterMap_cons]
    rcases hline : lineMapping word p.1 with _ | m
    · -- fewer lines than texts
      refine iff_of_false (fun h => ?_) (by simp)
      have hlength := congrArg length h
      have hle := length_filterMap_le (lineMapping word) (pairs.map Prod.fst)
      simp only [length_cons, length_map] at hlength hle
      omega
    · simp only [map_cons, cons.injEq, Option.some.injEq]
      exact and_congr_left fun _ => ⟨fun h => ⟨m, rfl, h⟩, fun ⟨m', hm, h⟩ => hm ▸ h⟩

end Pieces

/-! ## When the two agree -/

/-- A line that is a valid mapping, and so is what is taken for it. -/
structure ReadAlone (word : WordSize) (p : List Char × List Char) : Prop where
  nonempty : p.1 ≠ []
  noComment : p.1.head? ≠ some '#'
  same : ∃ m, addMapping word p.1 = .ok m ∧ addMapping word p.2 = .ok m

theorem readAlone_iff {word : WordSize} {p : List Char × List Char} :
    (∃ m, lineMapping word p.1 = some m ∧ addMapping word p.2 = .ok m) ↔ ReadAlone word p := by
  constructor
  · rintro ⟨m, hline, hpiece⟩
    rw [lineMapping] at hline
    by_cases hkept : p.1 ≠ [] ∧ p.1.head? ≠ some '#'
    · rw [if_pos hkept] at hline
      refine ⟨hkept.1, hkept.2, m, ?_, hpiece⟩
      rcases hadd : addMapping word p.1 with e | m'
      · rw [hadd] at hline
        cases hline
      · rw [hadd] at hline
        rw [Option.some.inj hline]
    · rw [if_neg hkept] at hline
      cases hline
  · rintro ⟨hne, hcomment, m, hline, hpiece⟩
    refine ⟨m, ?_, hpiece⟩
    rw [lineMapping, if_pos ⟨hne, hcomment⟩, hline]
    rfl

/-- **Loading a text registers what loading a file does** exactly if every line is a valid mapping,
no comment, and reads the same with what is taken after it. -/
theorem load_mappings_iff (word : WordSize) (content : List Char) :
    loadMappings word content (content.length + 1) =
        some (loadMappingsFromFile word content, none) ↔
      ∀ p ∈ pieces 0 content (getlines '\n' [] content), ReadAlone word p := by
  have hstart : At content 0 content := ⟨Nat.zero_le _, rfl⟩
  rw [loadMappings, loadLoop_eq hstart (Nat.lt_succ_self _), Option.some_inj, addAll_eq_iff]
  simp only [nil_append, exists_eq_right', loadMappingsFromFile]
  have hlines := map_fst_pieces 0 content (getlines '\n' [] content)
  nth_rewrite 2 [← hlines]
  rw [map_addMapping_iff]
  exact forall₂_congr fun p _ => readAlone_iff

def threeLines : List Char := "g,n,a:b0\nh,n,b:b1\ni,n,x:b2\n".toList

/-- **Three lines**: the second is taken with the third, whose entry it gets. -/
theorem load_mappings_three :
    (loadMappings .w64 threeLines (threeLines.length + 1)).map
        (fun r => r.1.map (·.mappings.length)) = some [1, 2, 1] ∧
      (loadMappingsFromFile .w64 threeLines).map (·.mappings.length) = [1, 1, 1] ∧
      loadMappings .w64 threeLines (threeLines.length + 1) ≠
        some (loadMappingsFromFile .w64 threeLines, none) := by
  have htext : (loadMappings .w64 threeLines (threeLines.length + 1)).map
      (fun r => r.1.map (·.mappings.length)) = some [1, 2, 1] := by decide +kernel
  have hfile : (loadMappingsFromFile .w64 threeLines).map (·.mappings.length) = [1, 1, 1] := by
    decide +kernel
  refine ⟨htext, hfile, fun heq => ?_⟩
  rw [heq, Option.map_some, hfile] at htext
  exact absurd htext (by decide)

/-- **A file is loaded as its lines say**, with comments and empty lines between them. -/
theorem loadMappingsFromFile_text (word : WordSize) (file : List (Line ⊕ List Char))
    (hlines : ∀ line, .inl line ∈ file → '\n' ∉ line.text ∧ line.text.head? ≠ some '#')
    (hskipped : ∀ text, .inr text ∈ file → '\n' ∉ text ∧ (text.head? ≠ some '#' → text = [])) :
    loadMappingsFromFile word ((file.map (Sum.elim Line.text id)).flatMap (· ++ ['\n'])) =
      (file.filterMap Sum.getLeft?).map fun line =>
        ⟨line.guid, line.name, line.entries.filterMap Entry.mapping⟩ := by
  have hends : ∀ l ∈ file.map (Sum.elim Line.text id), '\n' ∉ l := by
    intro l hl
    obtain ⟨line | text, hmem, rfl⟩ := mem_map.mp hl
    · exact (hlines line hmem).1
    · exact (hskipped text hmem).1
  rw [loadMappingsFromFile, getlines_flatMap '\n' hends, filterMap_map, map_filterMap]
  refine filterMap_congr fun l hl => ?_
  rcases l with line | text
  · have hne : line.text ≠ [] := by simp [Line.text]
    show lineMapping word line.text = some _
    rw [lineMapping, if_pos ⟨hne, (hlines line hl).2⟩, addMapping, parse_text]
    rfl
  · exact if_neg fun h => h.1 ((hskipped text hl).2 h.2)

theorem loadMappingsFromFile_comment :
    loadMappingsFromFile .w64 "#g\n\ng,n,a:b0\n".toList =
      [⟨['g'], ['n'], [⟨.button 0, .button .a⟩]⟩] :=
  loadMappingsFromFile_text .w64
    [.inr ['#', 'g'], .inr [],
      .inl ⟨['g'], ['n'], [.known none (.button .a) (.button 0)], false, by decide, by decide⟩]
    (by simp [Line.text, body, Entry.text, signText, Target.name, GamepadButton.name, Source.text,
      show Cll.decimal 0 = ['0'] from rfl]) (by simp)

end Gamepad
