import McpeLauncher.GamepadMapping
import McpeLauncher.Strtol
import McpeLauncher.TextSearch
import McpeLauncher.WordSize

/-! # Reading a line of mappings

`GamepadMapping::parse` reads `guid,name,target:source,...` with an index. A round of its loop
starts at a comma, and the next one at a later comma (`parseLoop_returns`). -/
namespace Gamepad
open Strtol TextSearch List

def knownButtons : List (String × GamepadButton) :=
  [("a", .a), ("b", .b), ("x", .x), ("y", .y), ("leftshoulder", .lb), ("rightshoulder", .rb),
    ("back", .back), ("start", .start), ("guide", .guide), ("leftstick", .leftStick),
    ("rightstick", .rightStick), ("dpup", .dpadUp), ("dpright", .dpadRight),
    ("dpdown", .dpadDown), ("dpleft", .dpadLeft)]

def knownAxis : List (String × GamepadAxis) :=
  [("leftx", .leftX), ("lefty", .leftY), ("rightx", .rightX), ("righty", .rightY),
    ("lefttrigger", .leftTrigger), ("righttrigger", .rightTrigger)]

/-- The exceptions, and a read behind the end of the string. -/
inductive ParseError where
  | invalidMapping
  | invalidInteger
  | expectedDot
  | invalidMapTo
  | outside
  deriving DecidableEq

def ParseError.what : ParseError → String
  | .invalidMapping => "Invalid mapping"
  | .invalidInteger => "Invalid integer"
  | .expectedDot => "Invalid mapping: expected . after hat id"
  | .invalidMapTo => "Invalid mapping: invalid map-to"
  | .outside => ""

section Parser
variable (word : WordSize) (mapping : List Char)

/-- `mapping[i]`; behind the last character there is a NUL. -/
def charAt (i : Nat) : Except ParseError Char :=
  if mapping.length < i then .error .outside else .ok (mapping.getD i '\x00')

def findChar (c : Char) (a : Nat) : Option Nat := ((mapping.drop a).idxOf? c).map (a + ·)

def findE (c : Char) (a : Nat) : Except ParseError Nat :=
  match findChar mapping c a with
  | none => .error .invalidMapping
  | some p => .ok p

def parseInt (o : Nat) : Except ParseError (Int32 × Nat) :=
  if mapping.length < o then .error .outside
  else
    match strtol word.bits (mapping.drop o) with
    | none => .error .invalidInteger
    | some (ret, n) => .ok (Int32.ofInt ret, o + n)

/-- A sign, if there is one, and the index behind it. -/
def readSign (iof : Nat) : Except ParseError (Option Char × Nat) := do
  let c ← charAt mapping iof
  return if c = '-' ∨ c = '+' then (some c, iof + 1) else (none, iof)

def readTilde (iof : Nat) : Except ParseError (Bool × Nat) := do
  let c ← charAt mapping iof
  return if c = '~' then (true, iof + 1) else (false, iof)

/-- `c.to` for the text before the colon. -/
def parseTarget (toMod : Option Char) (target : List Char) : Option MapTo :=
  match knownButtons.lookup (String.ofList target) with
  | some button => some (.button button)
  | none =>
    match knownAxis.lookup (String.ofList target) with
    | none => none
    | some axis => some <| .axis <|
      if axis = .leftTrigger ∨ axis = .rightTrigger then ⟨axis, 0, 1⟩
      else match toMod with
        | none => ⟨axis, -1, 1⟩
        | some c => ⟨axis, 0, if c = '+' then 1 else -1⟩

/-- The range of an axis of the joystick. -/
def sourceAxis (fromMod : Option Char) (id : Int32) : AxisFrom :=
  match fromMod with
  | none => ⟨id.toInt, -1, 1⟩
  | some c => ⟨id.toInt, 0, if c = '+' then 1 else -1⟩

/-- `std::swap` of the ends of the target's range; a button has none. -/
def MapTo.swap : MapTo → MapTo
  | .button id => .button id
  | .axis d => .axis ⟨d.id, d.max, d.min⟩

/-- What follows the colon, with the index behind it. -/
def parseSource (mapTo : MapTo) (iof : Nat) : Except ParseError (Mapping × Nat) := do
  let (fromMod, iof) ← readSign mapping iof
  let (inv, iof) ← readTilde mapping iof
  let c ← charAt mapping iof
  if c = 'b' then
    let (id, iof) ← parseInt word mapping (iof + 1)
    return (⟨.button id.toInt, mapTo⟩, iof)
  else if c = 'a' then
    let (id, iof) ← parseInt word mapping (iof + 1)
    return (⟨.axis (sourceAxis fromMod id), if inv then mapTo.swap else mapTo⟩, iof)
  else if c = 'h' then
    let (id, iof) ← parseInt word mapping (iof + 1)
    let dot ← charAt mapping iof
    if dot ≠ '.' then .error .expectedDot
    else
      let (mask, iof) ← parseInt word mapping (iof + 1)
      return (⟨.hat id.toInt mask.toBitVec, mapTo⟩, iof)
  else .error .invalidMapTo

/-- A round of the loop from a comma on: the entry, if its target is known, and where the
next comma is looked for. -/
def parseEntry (iof : Nat) : Except ParseError (Option Mapping × Nat) := do
  let (toMod, iof) ← readSign mapping (iof + 1)
  let iof2 ← findE mapping ':' iof
  match parseTarget toMod ((mapping.drop iof).take (iof2 - iof)) with
  | none => return (none, iof + 1)
  | some mapTo =>
    let (c, iof) ← parseSource word mapping mapTo (iof2 + 1)
    return (some c, iof)

/-- At most so many rounds of the loop, with the entries so far; `none` as an index is
`npos`. -/
def parseLoop : Nat → Option Nat → List Mapping → Option (List Mapping × Option ParseError)
  | 0, _, _ => none
  | _ + 1, none, mappings => some (mappings, none)
  | rounds + 1, some iof, mappings =>
    if iof + 1 < mapping.length then
      match parseEntry word mapping iof with
      | .error e => some (mappings, some e)
      | .ok (c, iof) => parseLoop rounds (findChar mapping ',' iof) (mappings ++ c.toList)
    else some (mappings, none)

end Parser

structure GamepadMapping where
  guid : List Char := []
  name : List Char := []
  mappings : List Mapping := []

/-- With at most so many rounds: the mapping afterwards, and the exception thrown, if any. -/
def GamepadMapping.parse (word : WordSize) (g : GamepadMapping) (mapping : List Char)
    (rounds : Nat) : Option (GamepadMapping × Option ParseError) :=
  match findE mapping ',' 0 with
  | .error e => some (g, some e)
  | .ok iof =>
    let g := { g with guid := mapping.take iof }
    match findE mapping ',' (iof + 1) with
    | .error e => some (g, some e)
    | .ok iof2 =>
      let g := { g with name := (mapping.drop (iof + 1)).take (iof2 - (iof + 1)) }
      (parseLoop word mapping rounds (some iof2) g.mappings).map fun (mappings, e) =>
        ({ g with mappings }, e)

/-! ## Every string is read to an end -/

variable {c : Char} {i : Nat}

section Reads
variable {word : WordSize} {mapping : List Char} {iof' : Nat}

theorem charAt_of_le (h : i ≤ mapping.length) : charAt mapping i = .ok (mapping.getD i '\x00') := by
  rw [charAt, if_neg (Nat.not_lt.mpr h)]

theorem lt_length_of_getD (h : mapping.getD i '\x00' ≠ '\x00') : i < mapping.length := by
  by_contra hge
  apply h
  rw [getD_eq_getElem?_getD, getElem?_eq_none (Nat.le_of_not_lt hge), Option.getD_none]

theorem findChar_bounds {a p : Nat} (h : findChar mapping c a = some p) :
    a ≤ p ∧ p < mapping.length := by
  obtain ⟨i, hi, rfl⟩ := Option.map_eq_some_iff.mp h
  obtain ⟨hlt, -⟩ := idxOf?_eq_some_iff.mp hi
  rw [length_drop] at hlt
  omega

/-- A reader does not read behind the end, and leads to an index that is no smaller. -/
def Stays {α : Type} (mapping : List Char) (iof : Nat) (r : Except ParseError (α × Nat)) : Prop :=
  r ≠ .error .outside ∧ ∀ a iof', r = .ok (a, iof') → iof ≤ iof' ∧ iof' ≤ mapping.length

variable {α β : Type} {iof : Nat} {r : Except ParseError (α × Nat)}

theorem Stays.ok {a : α} (h : iof ≤ iof') (h' : iof' ≤ mapping.length) :
    Stays mapping iof (.ok (a, iof')) := by
  refine ⟨by simp, fun b i heq => ?_⟩
  cases heq
  exact ⟨h, h'⟩

theorem Stays.error {e : ParseError} (h : e ≠ .outside) :
    Stays mapping iof (.error e : Except ParseError (α × Nat)) := by
  refine ⟨fun heq => h (Except.error.inj heq), fun a i heq => ?_⟩
  cases heq

theorem Stays.bind {f : α × Nat → Except ParseError (β × Nat)} (hr : Stays mapping iof r)
    (hf : ∀ a iof', iof' ≤ mapping.length → Stays mapping iof' (f (a, iof'))) :
    Stays mapping iof (r >>= f) := by
  rcases hcase : r with e | ⟨a, iof'⟩
  · exact Stays.error fun heq => hr.1 (by rw [hcase, heq])
  · obtain ⟨hle, hlen⟩ := hr.2 a iof' hcase
    obtain ⟨hsafe, hnext⟩ := hf a iof' hlen
    refine ⟨hsafe, fun b i heq => ?_⟩
    obtain ⟨hle', hlen'⟩ := hnext b i heq
    exact ⟨le_trans hle hle', hlen'⟩

/-- A character is looked at; only behind the last one it is a NUL. -/
theorem stays_charAt {f : Char → Except ParseError (α × Nat)} (h : iof ≤ mapping.length)
    (hf : ∀ c, (c ≠ '\x00' → iof + 1 ≤ mapping.length) → Stays mapping iof (f c)) :
    Stays mapping iof (charAt mapping iof >>= f) := by
  rw [charAt_of_le h]
  exact hf _ lt_length_of_getD

/-- A character is taken if it is one of those looked for; NUL is none of them. -/
theorem stays_optional {p : Char → Prop} [DecidablePred p] {f : Char → α} {a : α}
    (hp : ¬ p '\x00') (h : iof ≤ mapping.length) :
    Stays mapping iof (do
      let c ← charAt mapping iof
      return if p c then (f c, iof + 1) else (a, iof)) := by
  refine stays_charAt h fun c hc => ?_
  split
  · next htaken =>
    refine Stays.ok (Nat.le_succ iof) (hc ?_)
    rintro rfl
    exact hp htaken
  · exact Stays.ok (le_refl iof) h

theorem stays_readSign (h : iof ≤ mapping.length) : Stays mapping iof (readSign mapping iof) :=
  stays_optional (by decide) h

theorem stays_readTilde (h : iof ≤ mapping.length) : Stays mapping iof (readTilde mapping iof) :=
  stays_optional (by decide) h

theorem stays_parseInt {o : Nat} (h : iof ≤ o) (ho : o ≤ mapping.length) :
    Stays mapping iof (parseInt word mapping o) := by
  rw [parseInt, if_neg (Nat.not_lt.mpr ho)]
  rcases hread : strtol word.bits (mapping.drop o) with _ | ⟨ret, n⟩
  · exact Stays.error (by decide)
  · have hlength := (strtol_length hread).2
    rw [length_drop] at hlength
    exact Stays.ok (by omega) (by omega)

theorem stays_parseSource (mapTo : MapTo) (h : iof ≤ mapping.length) :
    Stays mapping iof (parseSource word mapping mapTo iof) := by
  refine (stays_readSign h).bind fun fromMod i hi => ?_
  refine (stays_readTilde hi).bind fun inv i hi => ?_
  refine stays_charAt hi fun c hc => ?_
  have hnumber {d : Char} (hd : d ≠ '\x00') (heq : c = d) :
      Stays mapping i (parseInt word mapping (i + 1)) :=
    stays_parseInt (Nat.le_succ i) (hc (heq ▸ hd))
  split
  · next hb => exact (hnumber (by decide) hb).bind fun _ i hi => Stays.ok (le_refl i) hi
  split
  · next ha => exact (hnumber (by decide) ha).bind fun _ i hi => Stays.ok (le_refl i) hi
  split
  · next hh =>
    refine (hnumber (by decide) hh).bind fun id i hi => ?_
    refine stays_charAt hi fun dot hdot => ?_
    split
    · exact Stays.error (by decide)
    · next hpoint =>
      have hlt : i + 1 ≤ mapping.length := hdot (by rw [not_not.mp hpoint]; decide)
      exact (stays_parseInt (Nat.le_succ i) hlt).bind fun _ i hi => Stays.ok (le_refl i) hi
  · exact Stays.error (by decide)

theorem stays_findE {f : Nat → Except ParseError (α × Nat)}
    (hf : ∀ p, iof ≤ p → p < mapping.length → Stays mapping iof (f p)) :
    Stays mapping iof (findE mapping c iof >>= f) := by
  rw [findE]
  rcases hfind : findChar mapping c iof with _ | p
  · exact Stays.error (by decide)
  · obtain ⟨hle, hlt⟩ := findChar_bounds hfind
    exact hf p hle hlt

theorem Stays.mono (h : Stays mapping iof' r) (hle : iof ≤ iof') : Stays mapping iof r :=
  ⟨h.1, fun a i heq => ⟨le_trans hle (h.2 a i heq).1, (h.2 a i heq).2⟩⟩

/-- **A round of the loop** reads inside of the string. -/
theorem stays_parseEntry (word : WordSize) (h : iof + 1 < mapping.length) :
    Stays mapping (iof + 1) (parseEntry word mapping iof) := by
  refine (stays_readSign (le_of_lt h)).bind fun toMod i hi => ?_
  refine stays_findE fun p hp hlt => ?_
  rcases parseTarget toMod ((mapping.drop i).take (p - i)) with _ | mapTo
  · exact Stays.ok (Nat.le_succ i) (by omega)
  · refine Stays.mono ((stays_parseSource mapTo hlt).bind fun c i hi => ?_)
      (Nat.le_succ_of_le hp)
    exact Stays.ok (le_refl i) hi

/-- **The loop ends**, since every round starts at a later comma, and never reads behind the
end of the string. -/
theorem parseLoop_returns (word : WordSize) (mapping : List Char) (rounds : Nat)
    (next : Option Nat) (mappings : List Mapping)
    (h : ∀ iof, next = some iof → mapping.length - iof < rounds) (hpos : 0 < rounds) :
    ∃ mappings' e, parseLoop word mapping rounds next mappings = some (mappings', e) ∧
      e ≠ some .outside := by
  induction rounds generalizing next mappings with
  | zero => exact absurd hpos (lt_irrefl 0)
  | succ rounds ih =>
    rcases next with _ | iof
    · exact ⟨mappings, none, rfl, by simp⟩
    · have hrounds := h iof rfl
      rw [parseLoop]
      by_cases hlt : iof + 1 < mapping.length
      · rw [if_pos hlt]
        obtain ⟨hsafe, hnext⟩ := stays_parseEntry word hlt
        rcases hentry : parseEntry word mapping iof with e | ⟨c, i⟩
        · refine ⟨mappings, some e, rfl, fun heq => hsafe ?_⟩
          rw [hentry, Option.some.inj heq]
        · obtain ⟨hle, -⟩ := hnext c i hentry
          refine ih _ _ (fun p hp => ?_) (by omega)
          obtain ⟨hp, -⟩ := findChar_bounds hp
          omega
      · rw [if_neg hlt]
        exact ⟨mappings, none, rfl, by simp⟩

theorem parse_returns (word : WordSize) (g : GamepadMapping) (mapping : List Char) :
    ∃ g' e, g.parse word mapping (mapping.length + 1) = some (g', e) ∧ e ≠ some .outside := by
  have hfail {c : Char} {a : Nat} {e : ParseError} (h : findE mapping c a = .error e) :
      e ≠ .outside := by
    rw [findE] at h
    split at h
    · cases h
      decide
    · cases h
  rw [GamepadMapping.parse]
  rcases hfirst : findE mapping ',' 0 with e | iof
  · exact ⟨g, some e, rfl, fun heq => hfail hfirst (Option.some.inj heq)⟩
  · dsimp only
    rcases hsecond : findE mapping ',' (iof + 1) with e | iof2
    · exact ⟨_, some e, rfl, fun heq => hfail hsecond (Option.some.inj heq)⟩
    · dsimp only
      obtain ⟨mappings, e, hloop, he⟩ := parseLoop_returns word mapping
        (mapping.length + 1) (some iof2) g.mappings (fun _ _ => by omega) (by omega)
      exact ⟨_, e, by rw [hloop]; rfl, he⟩

end Reads

/-! ## Printed lines -/

inductive Sign where
  | minus
  | plus

def Sign.char : Sign → Char
  | .minus => '-'
  | .plus => '+'

def signText (sign : Option Sign) : List Char := (sign.map Sign.char).toList

/-- A target that is known. -/
inductive Target where
  | button (id : GamepadButton)
  | axis (id : GamepadAxis)

def GamepadButton.name : GamepadButton → String
  | .a => "a" | .b => "b" | .x => "x" | .y => "y"
  | .lb => "leftshoulder" | .rb => "rightshoulder"
  | .back => "back" | .start => "start" | .guide => "guide"
  | .leftStick => "leftstick" | .rightStick => "rightstick"
  | .dpadUp => "dpup" | .dpadRight => "dpright" | .dpadDown => "dpdown" | .dpadLeft => "dpleft"

def GamepadAxis.name : GamepadAxis → String
  | .leftX => "leftx" | .leftY => "lefty" | .rightX => "rightx" | .rightY => "righty"
  | .leftTrigger => "lefttrigger" | .rightTrigger => "righttrigger"

def Target.name : Target → String
  | .button id => id.name
  | .axis id => id.name

/-- The whole range of an axis, or the half that a sign says; a trigger has one half only. -/
def Target.mapTo (sign : Option Sign) : Target → MapTo
  | .button id => .button id
  | .axis .leftTrigger => .axis ⟨.leftTrigger, 0, 1⟩
  | .axis .rightTrigger => .axis ⟨.rightTrigger, 0, 1⟩
  | .axis id =>
    match sign with
    | none => .axis ⟨id, -1, 1⟩
    | some .plus => .axis ⟨id, 0, 1⟩
    | some .minus => .axis ⟨id, 0, -1⟩

inductive Source where
  | button (id : Int32)
  | axis (half : Option Sign) (inverted : Bool) (id : Int32)
  | hat (id mask : Int32)

namespace Source

def text : Source → List Char
  | .button id => 'b' :: Cll.decimal id.toInt
  | .axis half inverted id =>
    signText half ++ (if inverted then ['~'] else []) ++ 'a' :: Cll.decimal id.toInt
  | .hat id mask => 'h' :: Cll.decimal id.toInt ++ '.' :: Cll.decimal mask.toInt

def inverted : Source → Bool
  | .axis _ inverted _ => inverted
  | _ => false

def mapFrom : Source → MapFrom
  | .button id => .button id.toInt
  | .axis none _ id => .axis ⟨id.toInt, -1, 1⟩
  | .axis (some .plus) _ id => .axis ⟨id.toInt, 0, 1⟩
  | .axis (some .minus) _ id => .axis ⟨id.toInt, 0, -1⟩
  | .hat id mask => .hat id.toInt mask.toBitVec

end Source

/-- A text without the sign at its front. -/
def unsigned : List Char → List Char
  | '-' :: text => text
  | '+' :: text => text
  | text => text

theorem unsigned_suffix (text : List Char) : unsigned text <:+ text := by
  unfold unsigned
  split
  · exact suffix_cons _ _
  · exact suffix_cons _ _
  · exact suffix_rfl

/-- The text of a target that is not known, with or without a sign. -/
structure UnknownTarget where
  text : List Char
  nonempty : text ≠ []
  noComma : ',' ∉ text
  noColon : ':' ∉ text
  unknown : ∀ target : Target, unsigned text ≠ target.name.toList

/-- An entry of a line; what stands behind an unknown target is any text without a comma. -/
inductive Entry where
  | known (sign : Option Sign) (target : Target) (source : Source)
  | unknown (target : UnknownTarget) (source : List Char) (noComma : ',' ∉ source)

namespace Entry

def text : Entry → List Char
  | .known sign target source => signText sign ++ target.name.toList ++ ':' :: source.text
  | .unknown target source _ => target.text ++ ':' :: source

/-- What an entry says; an inverted axis swaps the ends of the target's range. -/
def mapping : Entry → Option Mapping
  | .known sign target source =>
    some ⟨source.mapFrom,
      if source.inverted then (target.mapTo sign).swap else target.mapTo sign⟩
  | .unknown _ _ _ => none

end Entry

/-- The entries with commas between them, and one behind the last if there is to be one. -/
def body (trailing : Bool) : List Entry → List Char
  | [] => []
  | [entry] => entry.text ++ if trailing then [','] else []
  | entry :: entries => entry.text ++ ',' :: body trailing entries

structure Line where
  guid : List Char
  name : List Char
  entries : List Entry
  trailing : Bool
  guid_noComma : ',' ∉ guid
  name_noComma : ',' ∉ name

def Line.text (line : Line) : List Char :=
  line.guid ++ ',' :: (line.name ++ ',' :: body line.trailing line.entries)

/-! ## They are read back -/

/-- The rest of the string from an index on. -/
structure At (mapping : List Char) (i : Nat) (rest : List Char) : Prop where
  le : i ≤ mapping.length
  drop : mapping.drop i = rest

namespace At
variable {word : WordSize} {mapping rest : List Char} {i : Nat}

theorem append (front : List Char) (h : At mapping i (front ++ rest)) :
    At mapping (i + front.length) rest := by
  have hlength := congrArg length h.drop
  rw [length_drop, length_append] at hlength
  refine ⟨?_, ?_⟩
  · have := h.le
    omega
  · rw [← drop_drop, h.drop, drop_left]

theorem length_eq (h : At mapping i rest) : i + rest.length = mapping.length := by
  have := h.le
  rw [← h.drop, length_drop]
  omega

theorem succ (h : At mapping i (c :: rest)) : At mapping (i + 1) rest := append [c] h

theorem charAt (h : At mapping i (c :: rest)) : Gamepad.charAt mapping i = .ok c := by
  have hget : mapping[i]? = some c := by
    rw [← head?_drop, h.drop]
    rfl
  rw [charAt_of_le h.le, getD_eq_getElem?_getD, hget]
  rfl

theorem findChar {front : List Char} (h : At mapping i (front ++ c :: rest)) (hc : c ∉ front) :
    Gamepad.findChar mapping c i = some (i + front.length) := by
  rw [Gamepad.findChar, h.drop, idxOf?_append hc]
  rfl

theorem findChar_none (h : At mapping i rest) (hc : c ∉ rest) :
    Gamepad.findChar mapping c i = none := by
  rw [Gamepad.findChar, h.drop, idxOf?_eq_none_iff.mpr hc]
  rfl

theorem parseInt {id : Int32} (h : At mapping i (Cll.decimal id.toInt ++ rest))
    (hrest : ∀ c, rest.head? = some c → c.isDigit = false) :
    Gamepad.parseInt word mapping i = .ok (id, i + (Cll.decimal id.toInt).length) := by
  have hlo := id.le_toInt
  have hhi := id.toInt_lt
  have hrange : -2 ^ (word.bits - 1) ≤ id.toInt ∧ id.toInt < 2 ^ (word.bits - 1) := by
    cases word with
    | w32 => exact ⟨hlo, hhi⟩
    | w64 =>
      have hbits : WordSize.w64.bits - 1 = 63 := rfl
      rw [hbits]
      omega
  rw [Gamepad.parseInt, if_neg (Nat.not_lt.mpr h.le), h.drop,
    strtol_decimal hrange.1 hrange.2 hrest]
  show Except.ok (Int32.ofInt id.toInt, _) = _
  rw [Int32.ofInt_toInt]

theorem readSign_some (sign : Sign) (h : At mapping i (sign.char :: rest)) :
    readSign mapping i = .ok (some sign.char, i + 1) := by
  rw [readSign, h.charAt]
  cases sign with
  | minus => rfl
  | plus => rfl

theorem readSign_none (h : At mapping i (c :: rest)) (hminus : c ≠ '-') (hplus : c ≠ '+') :
    readSign mapping i = .ok (none, i) := by
  have hsign : ¬ (c = '-' ∨ c = '+') := not_or.mpr ⟨hminus, hplus⟩
  rw [readSign, h.charAt]
  show Except.ok (if c = '-' ∨ c = '+' then _ else _) = _
  rw [if_neg hsign]

theorem readSign {sign : Option Sign} (h : At mapping i (signText sign ++ c :: rest))
    (hminus : c ≠ '-') (hplus : c ≠ '+') :
    Gamepad.readSign mapping i = .ok (sign.map Sign.char, i + (signText sign).length) := by
  cases sign with
  | none => exact h.readSign_none hminus hplus
  | some sign => exact h.readSign_some sign

theorem readTilde_false (h : At mapping i (c :: rest)) (hc : c ≠ '~') :
    readTilde mapping i = .ok (false, i) := by
  rw [readTilde, h.charAt]
  show Except.ok (if c = '~' then _ else _) = _
  rw [if_neg hc]

theorem readTilde {inverted : Bool}
    (h : At mapping i ((if inverted then ['~'] else []) ++ c :: rest)) (hc : c ≠ '~') :
    Gamepad.readTilde mapping i =
      .ok (inverted, i + (if inverted then ['~'] else [] : List Char).length) := by
  cases inverted with
  | true =>
    have htilde : At mapping i ('~' :: c :: rest) := h
    rw [Gamepad.readTilde, htilde.charAt]
    rfl
  | false => exact readTilde_false h hc

theorem sourceAxis_eq (half : Option Sign) (inverted : Bool) (id : Int32) :
    .axis (sourceAxis (half.map Sign.char) id) = (Source.axis half inverted id).mapFrom := by
  rcases half with _ | sign
  · rfl
  · cases sign with
    | minus => rfl
    | plus => rfl

/-- **A printed source is read back.** -/
theorem parseSource (source : Source) (mapTo : MapTo) (h : At mapping i (source.text ++ rest))
    (hrest : ∀ c, rest.head? = some c → c.isDigit = false) :
    Gamepad.parseSource word mapping mapTo i =
      .ok (⟨source.mapFrom, if source.inverted then mapTo.swap else mapTo⟩,
        i + source.text.length) := by
  cases source with
  | button id =>
    have hb : At mapping i ('b' :: (Cll.decimal id.toInt ++ rest)) := h
    simp only [Gamepad.parseSource, hb.readSign_none (by decide) (by decide),
      hb.readTilde_false (by decide), hb.charAt, hb.succ.parseInt hrest, bind, Except.bind, if_true,
      Source.text, length_cons, add_assoc, add_comm 1]
    rfl
  | axis half inverted id =>
    rw [Source.text, append_assoc, append_assoc] at h
    have hsign : Gamepad.readSign mapping i =
        .ok (half.map Sign.char, i + (signText half).length) := by
      cases inverted with
      | true => exact h.readSign (by decide) (by decide)
      | false => exact h.readSign (by decide) (by decide)
    have htilde := h.append (signText half)
    have ha := htilde.append (if inverted then ['~'] else [])
    have hlength : i + (Source.axis half inverted id).text.length =
        i + (signText half).length + (if inverted then ['~'] else [] : List Char).length + 1 +
          (Cll.decimal id.toInt).length := by
      rw [Source.text, length_append, length_append, length_cons]
      omega
    simp only [Gamepad.parseSource, hsign, htilde.readTilde (by decide), ha.charAt,
      ha.succ.parseInt hrest, bind, Except.bind]
    rw [if_neg (by decide), if_pos trivial, hlength, sourceAxis_eq half inverted]
    rfl
  | hat id mask =>
    have hh : At mapping i
        ('h' :: (Cll.decimal id.toInt ++ '.' :: (Cll.decimal mask.toInt ++ rest))) := by
      rw [Source.text, append_assoc] at h
      exact h
    have hdot := hh.succ.append (Cll.decimal id.toInt)
    have hid : Gamepad.parseInt word mapping (i + 1) =
        .ok (id, i + 1 + (Cll.decimal id.toInt).length) := hh.succ.parseInt (by simp)
    have hlength : i + (Source.hat id mask).text.length =
        i + 1 + (Cll.decimal id.toInt).length + 1 + (Cll.decimal mask.toInt).length := by
      rw [Source.text, length_append, length_cons, length_cons]
      omega
    simp only [Gamepad.parseSource, hh.readSign_none (by decide) (by decide),
      hh.readTilde_false (by decide), hh.charAt, hid, hdot.charAt, hdot.succ.parseInt hrest, bind,
      Except.bind]
    rw [if_neg (by decide), if_neg (by decide), if_pos trivial, if_neg (by decide), hlength]
    rfl

end At

theorem name_cons (target : Target) :
    ∃ c name, target.name.toList = c :: name ∧ c ≠ '-' ∧ c ≠ '+' ∧ ':' ∉ c :: name := by
  rcases target with id | id
  · cases id <;> exact ⟨_, _, rfl, by decide, by decide, by decide⟩
  · cases id <;> exact ⟨_, _, rfl, by decide, by decide, by decide⟩

theorem parseTarget_name (sign : Option Sign) (target : Target) :
    parseTarget (sign.map Sign.char) target.name.toList = some (target.mapTo sign) := by
  rcases target with id | id
  · cases id <;> rfl
  · rcases sign with _ | sign
    · cases id <;> rfl
    · cases sign <;> cases id <;> rfl

theorem lookup_eq_none {α : Type} {table : List (String × α)} {text : List Char}
    (h : ∀ p ∈ table, text ≠ p.1.toList) : table.lookup (String.ofList text) = none := by
  rw [lookup_eq_none_iff]
  intro p hp
  simp only [bne_iff_ne, ne_eq]
  intro heq
  apply h p hp
  rw [← heq, String.toList_ofList]

theorem parseTarget_unknown {text : List Char} (h : ∀ target : Target, text ≠ target.name.toList)
    (toMod : Option Char) : parseTarget toMod text = none := by
  have hbuttons : ∀ p ∈ knownButtons, p.1 = p.2.name := by decide
  have haxis : ∀ p ∈ knownAxis, p.1 = p.2.name := by decide
  have hbutton : knownButtons.lookup (String.ofList text) = none :=
    lookup_eq_none fun p hp => hbuttons p hp ▸ h (.button p.2)
  have hnone : knownAxis.lookup (String.ofList text) = none :=
    lookup_eq_none fun p hp => haxis p hp ▸ h (.axis p.2)
  rw [parseTarget, hbutton, hnone]

namespace At
variable {word : WordSize} {mapping rest : List Char} {i : Nat}

theorem readSign_unsigned {text : List Char} (hne : text ≠ []) (h : At mapping i (text ++ rest)) :
    ∃ toMod iof, Gamepad.readSign mapping i = .ok (toMod, iof) ∧
      At mapping iof (unsigned text ++ rest) := by
  unfold unsigned
  split
  · exact ⟨_, _, h.readSign_some .minus, h.succ⟩
  · exact ⟨_, _, h.readSign_some .plus, h.succ⟩
  · next hminus hplus =>
    obtain ⟨c, text, rfl⟩ := exists_cons_of_ne_nil hne
    exact ⟨none, i, h.readSign_none (by rintro rfl; exact hminus _ rfl)
      (by rintro rfl; exact hplus _ rfl), h⟩

def Separated (rest : List Char) : Prop := rest = [] ∨ ∃ tail, rest = ',' :: tail

theorem findChar_separated (front : List Char) (h : At mapping i (front ++ rest))
    (hfront : ',' ∉ front) (hrest : Separated rest) :
    Gamepad.findChar mapping ',' i = if rest = [] then none else some (i + front.length) := by
  rcases hrest with rfl | ⟨tail, rfl⟩
  · rw [append_nil] at h
    exact h.findChar_none hfront
  · exact h.findChar hfront

theorem not_isDigit_of_separated (hrest : Separated rest) (c : Char)
    (hc : rest.head? = some c) : c.isDigit = false := by
  rcases hrest with rfl | ⟨tail, rfl⟩
  · cases hc
  · cases hc
    decide

theorem parseEntry_eq {toMod : Option Char} {iof : Nat} {name tail : List Char}
    (hsign : Gamepad.readSign mapping (i + 1) = .ok (toMod, iof))
    (h : At mapping iof (name ++ ':' :: tail)) (hcolon : ':' ∉ name) :
    Gamepad.parseEntry word mapping i = match parseTarget toMod name with
      | none => .ok (none, iof + 1)
      | some mapTo =>
        (Gamepad.parseSource word mapping mapTo (iof + name.length + 1)).map
          fun (c, iof) => (some c, iof) := by
  have hname : (mapping.drop iof).take (iof + name.length - iof) = name := by
    rw [h.drop, Nat.add_sub_cancel_left, take_left]
  simp only [Gamepad.parseEntry, hsign, findE, h.findChar hcolon, hname, bind, Except.bind]
  rcases parseTarget toMod name with _ | mapTo
  · rfl
  · rcases Gamepad.parseSource word mapping mapTo (iof + name.length + 1) with e | r
    · rfl
    · rfl

/-- The entry is read, and the next comma is the one behind it. -/
def ReadsEntry (word : WordSize) (mapping : List Char) (i : Nat) (entry : Entry)
    (rest : List Char) : Prop :=
  ∃ iof, Gamepad.parseEntry word mapping i = .ok (entry.mapping, iof) ∧
    Gamepad.findChar mapping ',' iof =
      if rest = [] then none else some (i + 1 + entry.text.length)

theorem parseEntry_known (word : WordSize) (sign : Option Sign) (target : Target)
    (source : Source) (h : At mapping (i + 1) ((Entry.known sign target source).text ++ rest))
    (hrest : Separated rest) : ReadsEntry word mapping i (.known sign target source) rest := by
  obtain ⟨c, name, hname, hminus, hplus, hcolon⟩ := name_cons target
  have hsign : At mapping (i + 1)
      (signText sign ++ c :: (name ++ ':' :: (source.text ++ rest))) := by
    rw [Entry.text, hname, append_assoc, append_assoc] at h
    exact h
  have hnameAt : At mapping (i + 1 + (signText sign).length)
      (target.name.toList ++ ':' :: (source.text ++ rest)) := by
    rw [hname]
    exact hsign.append (signText sign)
  have hsource := (hnameAt.append target.name.toList).succ
  have hend := hsource.append source.text
  have hlength : i + 1 + (Entry.known sign target source).text.length =
      i + 1 + (signText sign).length + target.name.toList.length + 1 + source.text.length := by
    rw [Entry.text, length_append, length_append, length_cons]
    omega
  refine ⟨i + 1 + (Entry.known sign target source).text.length, ?_, ?_⟩
  · rw [parseEntry_eq (hsign.readSign hminus hplus) hnameAt (hname ▸ hcolon), parseTarget_name,
      hlength]
    dsimp only
    rw [hsource.parseSource source _ (not_isDigit_of_separated hrest)]
    rfl
  · rw [← hlength] at hend
    exact findChar_separated [] hend (by simp) hrest

theorem parseEntry_unknown (word : WordSize) (target : UnknownTarget) (source : List Char)
    (hcomma : ',' ∉ source)
    (h : At mapping (i + 1) ((Entry.unknown target source hcomma).text ++ rest))
    (hrest : Separated rest) :
    ReadsEntry word mapping i (.unknown target source hcomma) rest := by
  rw [Entry.text, append_assoc] at h
  obtain ⟨toMod, iof, hsign, hname⟩ := h.readSign_unsigned target.nonempty
  have hsub := (unsigned_suffix target.text).subset
  refine ⟨iof + 1, ?_, ?_⟩
  · rw [parseEntry_eq hsign hname fun hc => target.noColon (hsub hc),
      parseTarget_unknown target.unknown]
    rfl
  · -- the comma is looked for from the second character on; the first is none
    have hfront : ',' ∉ unsigned target.text ++ ':' :: source := by
      rw [mem_append, mem_cons, not_or, not_or]
      exact ⟨fun hc => target.noComma (hsub hc), by decide, hcomma⟩
    obtain ⟨d, front, hcons⟩ := exists_cons_of_ne_nil
      (show unsigned target.text ++ ':' :: source ≠ [] by simp)
    have hrestAt : At mapping iof (d :: front ++ rest) := by
      rw [← hcons, append_assoc]
      exact hname
    have hsame : iof + 1 + front.length =
        i + 1 + (Entry.unknown target source hcomma).text.length := by
      have hfrom := h.length_eq
      have hlater := hrestAt.length_eq
      simp only [Entry.text, length_append, length_cons] at hfrom hlater ⊢
      omega
    rw [hcons, mem_cons, not_or] at hfront
    rw [hrestAt.succ.findChar_separated front hfront.2 hrest, hsame]

/-- **A printed entry is read back**, and the next comma is the one behind it. -/
theorem parseEntry (word : WordSize) (entry : Entry) (h : At mapping (i + 1) (entry.text ++ rest))
    (hrest : Separated rest) : ReadsEntry word mapping i entry rest := by
  cases entry with
  | known sign target source => exact h.parseEntry_known word sign target source hrest
  | unknown target source hcomma => exact h.parseEntry_unknown word target source hcomma hrest

end At

theorem body_cons (trailing : Bool) (entry : Entry) (entries : List Entry) :
    body trailing (entry :: entries) = entry.text ++ ',' :: body trailing entries ∨
      body trailing (entry :: entries) = entry.text ∧ entries = [] := by
  cases entries with
  | nil =>
    cases trailing with
    | true => exact .inl rfl
    | false => exact .inr ⟨append_nil _, rfl⟩
  | cons entry' entries => exact .inl rfl

theorem length_text_pos (entry : Entry) : 0 < entry.text.length := by
  cases entry with
  | known sign target source =>
    rw [Entry.text, length_append, length_cons]
    omega
  | unknown target source _ =>
    rw [Entry.text, length_append, length_cons]
    omega

/-- **The entries of a line are read back** from the comma before them on. -/
theorem parseLoop_body {word : WordSize} {mapping : List Char} {trailing : Bool}
    {entries : List Entry} {rounds : Nat} (h : At mapping (i + 1) (body trailing entries))
    (hrounds : entries.length < rounds) (mappings : List Mapping) :
    parseLoop word mapping rounds (some i) mappings =
      some (mappings ++ entries.filterMap Entry.mapping, none) := by
  induction entries generalizing i rounds mappings with
  | nil =>
    obtain ⟨rounds, rfl⟩ := Nat.exists_eq_succ_of_ne_zero (ne_of_gt hrounds)
    have hend : ¬ i + 1 < mapping.length := by
      have : i + 1 + 0 = mapping.length := h.length_eq
      omega
    rw [parseLoop, if_neg hend, filterMap_nil, append_nil]
  | cons entry entries ih =>
    rw [length_cons] at hrounds
    obtain ⟨rounds, rfl⟩ : ∃ n, rounds = n + 2 := ⟨rounds - 2, by omega⟩
    have hpos := length_text_pos entry
    have hmapping : mappings ++ (entry :: entries).filterMap Entry.mapping =
        mappings ++ entry.mapping.toList ++ entries.filterMap Entry.mapping := by
      rw [filterMap_cons, append_assoc]
      cases entry.mapping with
      | none => rfl
      | some c => rfl
    rcases body_cons trailing entry entries with hbody | ⟨hbody, rfl⟩
    · rw [hbody] at h
      have hlength := h.length_eq
      rw [length_append] at hlength
      obtain ⟨iof, hentry, hnext⟩ := h.parseEntry word entry (.inr ⟨_, rfl⟩)
      rw [if_neg (cons_ne_nil _ _)] at hnext
      rw [parseLoop, if_pos (by omega), hentry]
      dsimp only
      rw [hnext, ih (h.append entry.text).succ (by omega), hmapping]
    · rw [hbody] at h
      have hlength := h.length_eq
      rw [← append_nil entry.text] at h
      obtain ⟨iof, hentry, hnext⟩ := h.parseEntry word entry (.inl rfl)
      rw [if_pos rfl] at hnext
      rw [parseLoop, if_pos (by omega), hentry]
      dsimp only
      rw [hnext, parseLoop, hmapping, filterMap_nil, append_nil]

theorem length_body_le (trailing : Bool) (entries : List Entry) :
    entries.length ≤ (body trailing entries).length := by
  induction entries with
  | nil => exact le_refl 0
  | cons entry entries ih =>
    have hpos := length_text_pos entry
    rcases body_cons trailing entry entries with hbody | ⟨hbody, rfl⟩
    · rw [hbody, length_append, length_cons, length_cons]
      omega
    · rw [hbody]
      exact hpos

theorem parse_text (word : WordSize) (g : GamepadMapping) (line : Line) :
    g.parse word line.text (line.text.length + 1) =
      some (⟨line.guid, line.name, g.mappings ++ line.entries.filterMap Entry.mapping⟩, none) := by
  have hguid : At line.text 0
      (line.guid ++ ',' :: (line.name ++ ',' :: body line.trailing line.entries)) :=
    ⟨Nat.zero_le _, rfl⟩
  have hname := (hguid.append line.guid).succ
  have hbody := (hname.append line.name).succ
  have hfirst := hguid.findChar line.guid_noComma
  have hsecond := hname.findChar line.name_noComma
  have hlength := hbody.length_eq
  have hle := length_body_le line.trailing line.entries
  have hguidText : line.text.take (0 + line.guid.length) = line.guid := by
    rw [zero_add, Line.text, take_left]
  have hnameText : (line.text.drop (0 + line.guid.length + 1)).take
      (0 + line.guid.length + 1 + line.name.length - (0 + line.guid.length + 1)) = line.name := by
    rw [hname.drop, Nat.add_sub_cancel_left, take_left]
  simp only [GamepadMapping.parse, findE, hfirst, hsecond, hguidText, hnameText,
    parseLoop_body hbody (show line.entries.length < line.text.length + 1 by omega)]
  rfl

/-- **Lines of mappings.** No string is read beyond its end, and a printed line is read back: guid,
name, and entries with known targets. -/
theorem parse_mapping (word : WordSize) :
    (∀ (g : GamepadMapping) (mapping : List Char), ∃ g' e,
      g.parse word mapping (mapping.length + 1) = some (g', e) ∧ e ≠ some .outside) ∧
    ∀ line : Line, ({} : GamepadMapping).parse word line.text (line.text.length + 1) =
      some (⟨line.guid, line.name, line.entries.filterMap Entry.mapping⟩, none) :=
  ⟨parse_returns word, parse_text word {}⟩

end Gamepad
