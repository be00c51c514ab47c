import McpeLauncher.Numerals
import McpeLauncher.TextSearch

/-! # Property files

`load` of a `property_list` reads lines `name=value`, also for unknown names; `save` writes one line
for each registered property, without escapes. Printing and reading a `float` is the library's
(`FloatLibrary`). -/
namespace Properties
open List Function
open Cll (decimal mem_decimal stoi stoi_decimal)

/-- The `float`s, with `std::to_string` and `std::stof`; the latter is none where it
throws. -/
structure FloatLibrary (φ : Type) where
  toString : φ → List Char
  stof : List Char → Option φ
  oneLine : ∀ x, '\n' ∉ toString x
  nontrivial : Nontrivial φ

inductive PropertyType where
  | string
  | int
  | float
  | bool
  deriving DecidableEq

inductive Value (φ : Type) where
  | string (s : List Char)
  | int (i : Int32)
  | float (x : φ)
  | bool (b : Bool)

namespace Value
variable {φ : Type}

def type : Value φ → PropertyType
  | .string _ => .string
  | .int _ => .int
  | .float _ => .float
  | .bool _ => .bool

end Value

def sameNoCase (a b : List Char) : Bool := a.map Char.toLower == b.map Char.toLower

/-- `property<bool>::parse_value`, on the text up to a NUL. -/
def parseBool (value : List Char) : Option Bool :=
  let v := value.takeWhile (· ≠ '\x00')
  if v = "1".toList || sameNoCase v "true".toList || sameNoCase v "on".toList ||
      sameNoCase v "yes".toList then some true
  else if v = "0".toList || sameNoCase v "false".toList || sameNoCase v "off".toList ||
      sameNoCase v "no".toList then some false
  else none

section Library
variable {φ : Type} (lib : FloatLibrary φ)

/-- `property<T>::parse_value`: the new value, with none where it throws. -/
def parseValue (type : PropertyType) (text : List Char) : Option (Value φ) :=
  match type with
  | .string => some (.string text)
  | .int => (stoi (String.ofList text)).map .int
  | .float => (lib.stof text).map .float
  | .bool => (parseBool text).map .bool

def serializeValue : Value φ → List Char
  | .string s => s
  | .int i => decimal i.toInt
  | .float x => lib.toString x
  | .bool b => if b then "true".toList else "false".toList

/-- A text without a line end, a number that its six decimals determine. -/
def Kept : Value φ → Prop
  | .string s => '\n' ∉ s
  | .int _ => True
  | .float x => lib.stof (lib.toString x) = some x
  | .bool _ => True

variable {lib}

theorem newline_not_mem_decimal (i : Int) : '\n' ∉ decimal i := by
  intro h
  rcases mem_decimal h with h | h
  · exact absurd h (by decide)
  · exact absurd h (by decide)

theorem newline_not_mem_bool (b : Bool) : '\n' ∉ serializeValue lib (.bool b) := by
  cases b with
  | false => simp [serializeValue]
  | true => simp [serializeValue]

theorem parseValue_serializeValue_iff (v : Value φ) :
    parseValue lib v.type (serializeValue lib v) = some v ↔
      ∀ x, v = .float x → lib.stof (lib.toString x) = some x := by
  cases v with
  | string s => exact iff_of_true rfl (by simp)
  | int i =>
    refine iff_of_true ?_ (by simp)
    rw [Value.type, serializeValue, parseValue, stoi_decimal, Option.map_some]
  | float x => simp [Value.type, serializeValue, parseValue]
  | bool b =>
    refine iff_of_true ?_ (by simp)
    cases b with
    | false => rfl
    | true => rfl

theorem kept_iff (v : Value φ) :
    Kept lib v ↔ '\n' ∉ serializeValue lib v ∧
      parseValue lib v.type (serializeValue lib v) = some v := by
  rw [parseValue_serializeValue_iff]
  cases v with
  | string s => simp [Kept, serializeValue]
  | int i => simp [Kept, serializeValue, newline_not_mem_decimal]
  | float x => simp [Kept, serializeValue, lib.oneLine]
  | bool b => simp [Kept, newline_not_mem_bool]

section
variable {type : PropertyType} {text : List Char} {v : Value φ}
  (h : parseValue lib type text = some v)
include h

theorem type_of_parseValue : v.type = type := by
  cases type with
  | string =>
    obtain rfl := Option.some.inj h
    rfl
  | int =>
    obtain ⟨i, -, rfl⟩ := Option.map_eq_some_iff.mp h
    rfl
  | float =>
    obtain ⟨x, -, rfl⟩ := Option.map_eq_some_iff.mp h
    rfl
  | bool =>
    obtain ⟨b, -, rfl⟩ := Option.map_eq_some_iff.mp h
    rfl

theorem serializeValue_oneLine (htext : '\n' ∉ text) : '\n' ∉ serializeValue lib v := by
  cases type with
  | string =>
    obtain rfl := Option.some.inj h
    exact htext
  | int =>
    obtain ⟨i, -, rfl⟩ := Option.map_eq_some_iff.mp h
    exact newline_not_mem_decimal i.toInt
  | float =>
    obtain ⟨x, -, rfl⟩ := Option.map_eq_some_iff.mp h
    exact lib.oneLine x
  | bool =>
    obtain ⟨b, -, rfl⟩ := Option.map_eq_some_iff.mp h
    exact newline_not_mem_bool b

end

theorem exists_other (lib : FloatLibrary φ) (v : Value φ) : ∃ w, w.type = v.type ∧ w ≠ v := by
  cases v with
  | string s => exact ⟨.string ('a' :: s), rfl, by simp⟩
  | int i => exact ⟨.int (i + 1), rfl, by simp⟩
  | float x =>
    have := lib.nontrivial
    obtain ⟨y, hy⟩ := exists_ne x
    exact ⟨.float y, rfl, by simpa using hy⟩
  | bool b => exact ⟨.bool (!b), rfl, by simp⟩

end Library

/-- The names in the order of the map, the properties behind them, and the values without a
property. -/
structure PropertyList (φ : Type) where
  names : List (List Char)
  nodup : names.Nodup
  value : List Char → Value φ
  unknownProps : List Char → Option (List Char)

variable {ps : List (List Char × List Char)} {name n text stream : List Char}

namespace PropertyList
variable {φ : Type}

/-- `register_property`; a name that is there keeps its property. -/
def registerProperty (p : PropertyList φ) (name : List Char) (value : Value φ) :
    PropertyList φ :=
  if h : name ∈ p.names then p
  else
    { p with
      names := p.names ++ [name]
      nodup := by
        rw [List.nodup_append]
        exact ⟨p.nodup, List.nodup_singleton name, fun a ha b hb => by
          rw [List.mem_singleton.mp hb]
          exact fun heq => h (heq ▸ ha)⟩
      value := Function.update p.value name value }

def putUnknown (p : PropertyList φ) (name value : List Char) : PropertyList φ :=
  { p with unknownProps := Function.update p.unknownProps name (some value) }

def putValue (p : PropertyList φ) (name : List Char) (v : Value φ) : PropertyList φ :=
  { p with value := Function.update p.value name v }

theorem putUnknown_self (p : PropertyList φ) (name value : List Char) :
    (p.putUnknown name value).unknownProps name = some value :=
  update_self ..

theorem putUnknown_of_ne (h : n ≠ name) (p : PropertyList φ) (value : List Char) :
    (p.putUnknown name value).unknownProps n = p.unknownProps n :=
  update_of_ne h ..

theorem putValue_self (p : PropertyList φ) (name : List Char) (v : Value φ) :
    (p.putValue name v).value name = v :=
  update_self ..

theorem putValue_of_ne (h : n ≠ name) (p : PropertyList φ) (v : Value φ) :
    (p.putValue name v).value n = p.value n :=
  update_of_ne h ..

section Load
variable (lib : FloatLibrary φ)

/-- `set_property`; where the property throws, nothing has changed. -/
def setProperty (p : PropertyList φ) (name value : List Char) :
    Except (PropertyList φ) (PropertyList φ) :=
  if name ∈ p.names then
    match parseValue lib (p.value name).type value with
    | none => .error p
    | some v => .ok (p.putValue name v)
  else .ok (p.putUnknown name value)

/-- The loop of `load`; an exception leaves the list as it is by then. -/
def loadLines : List (List Char) → PropertyList φ → Except (PropertyList φ) (PropertyList φ)
  | [], p => .ok p
  | line :: rest, p =>
    if line.head? = some '#' then loadLines rest p
    else match line.idxOf? '=' with
      | none => loadLines rest p
      | some i => (p.setProperty lib (line.take i) (line.drop (i + 1))).bind (loadLines rest)

def load (p : PropertyList φ) (stream : List Char) :
    Except (PropertyList φ) (PropertyList φ) :=
  loadLines lib (Lines.getlines '\n' [] stream) p

def save (p : PropertyList φ) : List Char :=
  p.names.flatMap fun name => name ++ '=' :: serializeValue lib (p.value name) ++ ['\n']

end Load

/-- What is known of a name: the value of its property, or the text kept for it. -/
def get (p : PropertyList φ) (name : List Char) : Option (Value φ ⊕ List Char) :=
  if name ∈ p.names then some (.inl (p.value name)) else (p.unknownProps name).map .inr

/-- The same properties are registered, whatever their values. -/
structure SameProperties (p q : PropertyList φ) : Prop where
  names : ∀ name, name ∈ p.names ↔ name ∈ q.names
  types : ∀ name ∈ p.names, (q.value name).type = (p.value name).type

end PropertyList

/-! ## The pairs of a file -/

def lineEntry (line : List Char) : Option (List Char × List Char) :=
  if line.head? = some '#' then none
  else (line.idxOf? '=').map fun i => (line.take i, line.drop (i + 1))

def pairs (stream : List Char) : List (List Char × List Char) :=
  (Lines.getlines '\n' [] stream).filterMap lineEntry

def lastText : List (List Char × List Char) → List Char → Option (List Char)
  | [], _ => none
  | (n, text) :: rest, name => (lastText rest name).or (if n = name then some text else none)

/-- A name that a line can give. -/
structure PlainName (name : List Char) : Prop where
  noEquals : '=' ∉ name
  noNewline : '\n' ∉ name
  noHash : name.head? ≠ some '#'

theorem lineEntry_line (hname : PlainName name) (text : List Char) :
    lineEntry (name ++ '=' :: text) = some (name, text) := by
  have hhead : (name ++ '=' :: text).head? ≠ some '#' := by
    cases name with
    | nil => simp
    | cons c name => exact hname.noHash
  rw [lineEntry, if_neg hhead, TextSearch.idxOf?_append hname.noEquals]
  simp

theorem lineEntry_plain {line : List Char} (hline : '\n' ∉ line)
    (h : lineEntry line = some (name, text)) : PlainName name ∧ '\n' ∉ text := by
  rw [lineEntry] at h
  split at h
  · cases h
  · next hhash =>
    obtain ⟨i, hi, hpair⟩ := Option.map_eq_some_iff.mp h
    obtain ⟨rfl, rfl⟩ := Prod.mk.inj hpair
    refine ⟨⟨TextSearch.not_mem_take_of_idxOf? hi, fun h => hline (mem_of_mem_take h), ?_⟩,
      fun h => hline (mem_of_mem_drop h)⟩
    intro hhead
    cases i with
    | zero => simp at hhead
    | succ i =>
      cases line with
      | nil => simp at hhead
      | cons c line => exact hhash hhead

theorem pairs_plain (h : (name, text) ∈ pairs stream) : PlainName name ∧ '\n' ∉ text := by
  obtain ⟨line, hline, hentry⟩ := mem_filterMap.mp h
  exact lineEntry_plain (Lines.not_mem_getlines '\n' not_mem_nil line hline) hentry

theorem mem_of_lastText (h : lastText ps name = some text) : (name, text) ∈ ps := by
  induction ps with
  | nil => cases h
  | cons x ps ih =>
    obtain ⟨n, t⟩ := x
    rw [lastText, Option.or_eq_some_iff] at h
    rcases h with h | ⟨-, h⟩
    · exact mem_cons_of_mem _ (ih h)
    · split at h
      · next hn =>
        obtain rfl := Option.some.inj h
        simp [hn]
      · cases h

theorem lastText_eq_none_iff : lastText ps name = none ↔ name ∉ ps.map Prod.fst := by
  induction ps with
  | nil => simp [lastText]
  | cons x ps ih =>
    rw [lastText, Option.or_eq_none_iff, ih]
    simp [eq_comm, and_comm]

theorem lastText_cons_ne (h : n ≠ name) (text : List Char) (ps : List (List Char × List Char)) :
    lastText ((n, text) :: ps) name = lastText ps name := by
  rw [lastText, if_neg h, Option.or_none]

theorem lastText_cons_self (name text : List Char) (ps : List (List Char × List Char)) :
    lastText ((name, text) :: ps) name = (lastText ps name).or (some text) := by
  rw [lastText, if_pos rfl]

theorem lastText_map {names : List (List Char)} (text : List Char → List Char) (h : name ∈ names) :
    lastText (names.map fun n => (n, text n)) name = some (text name) := by
  cases hlast : lastText (names.map fun n => (n, text n)) name with
  | none =>
    refine absurd ?_ (lastText_eq_none_iff.mp hlast)
    simpa using h
  | some t =>
    obtain ⟨n, -, hpair⟩ := mem_map.mp (mem_of_lastText hlast)
    obtain ⟨rfl, rfl⟩ := Prod.mk.inj hpair
    rfl

namespace PropertyList
variable {φ : Type} {lib : FloatLibrary φ} {q p : PropertyList φ}

section Load
variable (lib)

def setAll : List (List Char × List Char) → PropertyList φ →
    Except (PropertyList φ) (PropertyList φ)
  | [], p => .ok p
  | (name, text) :: rest, p => (p.setProperty lib name text).bind (setAll rest)

theorem loadLines_eq (lines : List (List Char)) (p : PropertyList φ) :
    loadLines lib lines p = setAll lib (lines.filterMap lineEntry) p := by
  induction lines generalizing p with
  | nil => rfl
  | cons line lines ih =>
    rw [loadLines, filterMap_cons, lineEntry]
    by_cases hhash : line.head? = some '#'
    · rw [if_pos hhash, if_pos hhash, ih]
    · rw [if_neg hhash, if_neg hhash]
      cases line.idxOf? '=' with
      | none => exact ih p
      | some i =>
        show (p.setProperty lib _ _).bind (loadLines lib lines) =
          (p.setProperty lib _ _).bind (setAll lib (lines.filterMap lineEntry))
        rw [funext ih]

theorem load_eq (p : PropertyList φ) (stream : List Char) :
    p.load lib stream = setAll lib (pairs stream) p :=
  loadLines_eq lib _ p

end Load

/-- The list is `r` after the pairs have been set in `p`. -/
structure Assigned (lib : FloatLibrary φ) (p : PropertyList φ)
    (ps : List (List Char × List Char)) (r : PropertyList φ) : Prop where
  names : r.names = p.names
  set : ∀ name ∈ p.names, ∀ text, lastText ps name = some text →
    parseValue lib (p.value name).type text = some (r.value name)
  unset : ∀ name ∈ p.names, lastText ps name = none → r.value name = p.value name
  unknown : ∀ name ∉ p.names, r.unknownProps name = (lastText ps name).or (p.unknownProps name)

/-- Every text for a property is one of its type. -/
def Readable (lib : FloatLibrary φ) (p : PropertyList φ) (ps : List (List Char × List Char)) :
    Prop :=
  ∀ x ∈ ps, x.1 ∈ p.names → (parseValue lib (p.value x.1).type x.2).isSome

theorem setProperty_cases (lib : FloatLibrary φ) (p : PropertyList φ) (name text : List Char) :
    (name ∉ p.names ∧ p.setProperty lib name text = .ok (p.putUnknown name text)) ∨
    (name ∈ p.names ∧ parseValue lib (p.value name).type text = none ∧
      p.setProperty lib name text = .error p) ∨
    ∃ v, name ∈ p.names ∧ parseValue lib (p.value name).type text = some v ∧
      p.setProperty lib name text = .ok (p.putValue name v) := by
  by_cases hmem : name ∈ p.names
  · rw [setProperty, if_pos hmem]
    cases hparse : parseValue lib (p.value name).type text with
    | none => exact .inr (.inl ⟨hmem, rfl, rfl⟩)
    | some v => exact .inr (.inr ⟨v, hmem, rfl, rfl⟩)
  · exact .inl ⟨hmem, if_neg hmem⟩

theorem SameProperties.readable (h : SameProperties p q) (ps : List (List Char × List Char)) :
    Readable lib p ps ↔ Readable lib q ps := by
  refine forall₂_congr fun x _ => ?_
  rw [h.names x.1]
  refine forall_congr' fun hx => ?_
  rw [h.types x.1 ((h.names x.1).mpr hx)]

section Step
variable {p r : PropertyList φ} {name text : List Char} {ps : List (List Char × List Char)}
  {v : Value φ}

theorem Assigned.cons_unknown (hname : name ∉ p.names)
    (h : Assigned lib (p.putUnknown name text) ps r) :
    Assigned lib p ((name, text) :: ps) r := by
  have hne {n : List Char} (hn : n ∈ p.names) : name ≠ n := fun heq => hname (heq ▸ hn)
  refine ⟨h.names, fun n hn t ht => ?_, fun n hn ht => ?_, fun n hn => ?_⟩
  · rw [lastText_cons_ne (hne hn)] at ht
    exact h.set n hn t ht
  · rw [lastText_cons_ne (hne hn)] at ht
    exact h.unset n hn ht
  · rw [h.unknown n hn]
    by_cases heq : name = n
    · subst heq
      rw [lastText_cons_self, putUnknown_self, Option.or_assoc, Option.some_or]
    · rw [lastText_cons_ne heq, putUnknown_of_ne (Ne.symm heq)]

theorem sameProperties_putValue (hv : v.type = (p.value name).type) :
    SameProperties p (p.putValue name v) := by
  refine ⟨fun n => Iff.rfl, fun n _ => ?_⟩
  by_cases heq : n = name
  · rw [heq, putValue_self, hv]
  · rw [putValue_of_ne heq]

theorem Assigned.cons_value (hname : name ∈ p.names)
    (hv : parseValue lib (p.value name).type text = some v)
    (h : Assigned lib (p.putValue name v) ps r) : Assigned lib p ((name, text) :: ps) r := by
  have hsame := sameProperties_putValue (type_of_parseValue hv)
  refine ⟨h.names, fun n hn t ht => ?_, fun n hn ht => ?_, fun n hn => ?_⟩
  · rw [← hsame.types n hn]
    by_cases heq : name = n
    · subst heq
      rw [lastText_cons_self, Option.or_eq_some_iff] at ht
      rcases ht with ht | ⟨hnone, ht⟩
      · exact h.set name hn t ht
      · -- The value set here is the last one.
        obtain rfl := Option.some.inj ht
        rw [h.unset name hn hnone, hsame.types name hn, hv, putValue_self]
    · rw [lastText_cons_ne heq] at ht
      exact h.set n hn t ht
  · have heq : name ≠ n := by
      rintro rfl
      rw [lastText_cons_self, Option.or_eq_none_iff] at ht
      cases ht.2
    rw [lastText_cons_ne heq] at ht
    rw [h.unset n hn ht, putValue_of_ne (Ne.symm heq)]
  · have heq : name ≠ n := fun heq => hn (heq ▸ hname)
    rw [lastText_cons_ne heq]
    exact h.unknown n hn

end Step

/-- **Setting pairs** succeeds exactly if all can be read, and the last text counts. -/
theorem setAll_spec (lib : FloatLibrary φ) (ps : List (List Char × List Char))
    (p : PropertyList φ) :
    (Readable lib p ps ∧ ∃ r, setAll lib ps p = .ok r ∧ Assigned lib p ps r) ∨
      ¬ Readable lib p ps ∧ ∃ r, setAll lib ps p = .error r := by
  induction ps generalizing p with
  | nil =>
    refine .inl ⟨nofun, p, rfl, rfl, ?_, ?_, ?_⟩
    · intro name _ text htext
      cases htext
    · exact fun name _ _ => rfl
    · exact fun name _ => rfl
  | cons x ps ih =>
    obtain ⟨name, text⟩ := x
    have hcons : Readable lib p ((name, text) :: ps) ↔
        (name ∈ p.names → (parseValue lib (p.value name).type text).isSome) ∧
          Readable lib p ps := forall_mem_cons
    rw [setAll, hcons]
    obtain ⟨hname, hset⟩ | ⟨hname, hnone, hset⟩ | ⟨v, hname, hv, hset⟩ :=
      setProperty_cases lib p name text
    · rw [hset, and_iff_right fun h => absurd h hname]
      obtain ⟨h, r, hr, hassigned⟩ | ⟨h, r, hr⟩ := ih (p.putUnknown name text)
      · exact .inl ⟨h, r, hr, hassigned.cons_unknown hname⟩
      · exact .inr ⟨h, r, hr⟩
    · rw [hset]
      refine .inr ⟨fun h => ?_, p, rfl⟩
      have := h.1 hname
      rw [hnone] at this
      cases this
    · rw [hset]
      have hsame := sameProperties_putValue (type_of_parseValue hv)
      rw [hsame.readable, and_iff_right fun _ => by rw [hv]; rfl]
      obtain ⟨h, r, hr, hassigned⟩ | ⟨h, r, hr⟩ := ih (p.putValue name v)
      · exact .inl ⟨h, r, hr, hassigned.cons_value hname hv⟩
      · exact .inr ⟨h, r, hr⟩

theorem load_of_readable (h : Readable lib p (pairs stream)) :
    ∃ r, p.load lib stream = .ok r ∧ Assigned lib p (pairs stream) r := by
  rw [load_eq]
  obtain ⟨-, hr⟩ | ⟨hnot, -⟩ := setAll_spec lib (pairs stream) p
  · exact hr
  · exact absurd h hnot

theorem of_load_eq_ok {r : PropertyList φ} (h : p.load lib stream = .ok r) :
    Readable lib p (pairs stream) ∧ Assigned lib p (pairs stream) r := by
  rw [load_eq] at h
  obtain ⟨hread, r', hr', hassigned⟩ | ⟨-, r', hr'⟩ := setAll_spec lib (pairs stream) p
  · rw [h] at hr'
    obtain rfl := Except.ok.inj hr'
    exact ⟨hread, hassigned⟩
  · rw [h] at hr'
    cases hr'

/-- The names and values keep to their lines. -/
def OneLined (lib : FloatLibrary φ) (p : PropertyList φ) : Prop :=
  ∀ name ∈ p.names, PlainName name ∧ '\n' ∉ serializeValue lib (p.value name)

theorem pairs_save (h : OneLined lib p) :
    pairs (p.save lib) = p.names.map fun name => (name, serializeValue lib (p.value name)) := by
  have hsave : p.save lib =
      (p.names.map fun name => name ++ '=' :: serializeValue lib (p.value name)).flatMap
        (· ++ ['\n']) := by
    rw [flatMap_map]
    rfl
  have hlines : ∀ line ∈ p.names.map fun name => name ++ '=' :: serializeValue lib (p.value name),
      '\n' ∉ line := by
    intro line hline
    obtain ⟨name, hname, rfl⟩ := mem_map.mp hline
    obtain ⟨hplain, htext⟩ := h name hname
    simp [hplain.noNewline, htext]
  rw [pairs, hsave, Lines.getlines_flatMap '\n' hlines, filterMap_map]
  refine filterMap_eq_map_iff_forall_eq_some.mpr fun name hname => ?_
  exact lineEntry_line (h name hname).1 _

theorem Assigned.of_save {r : PropertyList φ} (h : OneLined lib p) (hsame : SameProperties p q)
    (hassigned : Assigned lib q (pairs (p.save lib)) r) (hname : name ∈ p.names) :
    parseValue lib (p.value name).type (serializeValue lib (p.value name)) =
      some (r.value name) := by
  rw [pairs_save h] at hassigned
  have hset := hassigned.set name ((hsame.names name).mp hname) _
    (lastText_map (fun n => serializeValue lib (p.value n)) hname)
  rwa [hsame.types name hname] at hset

theorem readable_save (h : OneLined lib p) (hsame : SameProperties p q)
    (hread : ∀ name ∈ p.names, parseValue lib (p.value name).type
      (serializeValue lib (p.value name)) = some (p.value name)) :
    Readable lib q (pairs (p.save lib)) := by
  rw [pairs_save h, ← hsame.readable]
  intro x hx _
  obtain ⟨name, hname, rfl⟩ := mem_map.mp hx
  rw [hread name hname]
  rfl

/-- The list can be saved and loaded. -/
def Storable (lib : FloatLibrary φ) (p : PropertyList φ) : Prop :=
  ∀ name ∈ p.names, PlainName name ∧ Kept lib (p.value name)

theorem Storable.oneLined (h : Storable lib p) : OneLined lib p :=
  fun name hname => ⟨(h name hname).1, ((kept_iff _).mp (h name hname).2).1⟩

/-- Loading what has been saved restores every registered value, wherever it is loaded. -/
def Restores (lib : FloatLibrary φ) (p : PropertyList φ) : Prop :=
  ∀ q, SameProperties p q →
    ∃ r, q.load lib (p.save lib) = .ok r ∧ ∀ name ∈ p.names, r.value name = p.value name

theorem Storable.restores (h : Storable lib p) : Restores lib p := by
  intro q hsame
  have hread : ∀ name ∈ p.names, parseValue lib (p.value name).type
      (serializeValue lib (p.value name)) = some (p.value name) :=
    fun name hname => ((kept_iff _).mp (h name hname).2).2
  obtain ⟨r, hload, hassigned⟩ := load_of_readable (readable_save h.oneLined hsame hread)
  refine ⟨r, hload, fun name hname => ?_⟩
  have hset := hassigned.of_save h.oneLined hsame hname
  rw [hread name hname] at hset
  exact (Option.some.inj hset).symm

theorem exists_others (lib : FloatLibrary φ) (p : PropertyList φ) :
    ∃ q, SameProperties p q ∧ ∀ name, q.value name ≠ p.value name := by
  choose other htype hne using fun name => exists_other lib (p.value name)
  exact ⟨{ p with value := other }, ⟨fun _ => Iff.rfl, fun name _ => htype name⟩, hne⟩

theorem Restores.storable (h : Restores lib p) : Storable lib p := by
  obtain ⟨q, hsame, hne⟩ := exists_others lib p
  obtain ⟨r, hload, hvalue⟩ := h q hsame
  obtain ⟨-, hassigned⟩ := of_load_eq_ok hload
  -- Every value of `q` has been replaced, so every name is one of the file's.
  have hlined : OneLined lib p := by
    intro name hname
    have hq := (hsame.names name).mp hname
    cases htext : lastText (pairs (p.save lib)) name with
    | none =>
      have hkept := hassigned.unset name hq htext
      rw [hvalue name hname] at hkept
      exact absurd hkept.symm (hne name)
    | some text =>
      obtain ⟨hplain, hline⟩ := pairs_plain (mem_of_lastText htext)
      have hset := hassigned.set name hq text htext
      rw [hvalue name hname] at hset
      exact ⟨hplain, serializeValue_oneLine hset hline⟩
  intro name hname
  have hset := hassigned.of_save hlined hsame hname
  rw [hvalue name hname] at hset
  exact ⟨(hlined name hname).1, (kept_iff _).mpr ⟨(hlined name hname).2, hset⟩⟩

/-- Loaded, saved and loaded again with the same properties, the file gives every name its value. -/
def Preserves (lib : FloatLibrary φ) (p : PropertyList φ) (file : List Char) : Prop :=
  ∃ p₁, p.load lib file = .ok p₁ ∧
    ∀ q, SameProperties p q → (∀ name, q.unknownProps name = none) →
      ∃ p₂, q.load lib (p₁.save lib) = .ok p₂ ∧
        ∀ name ∈ (pairs file).map Prod.fst, p₂.get name = p₁.get name

/-- The file names only properties, with texts of their types and values that can be stored. -/
structure Covered (lib : FloatLibrary φ) (p : PropertyList φ) (file : List Char) : Prop where
  registered : ∀ x ∈ pairs file, x.1 ∈ p.names
  readable : ∀ x ∈ pairs file, (parseValue lib (p.value x.1).type x.2).isSome
  kept : ∀ name text v, lastText (pairs file) name = some text →
    parseValue lib (p.value name).type text = some v → Kept lib v

section Cycle
variable {p p₁ : PropertyList φ} {file : List Char}

theorem Assigned.type_eq (h : Assigned lib p ps p₁) (hname : name ∈ p.names) :
    (p₁.value name).type = (p.value name).type := by
  cases htext : lastText ps name with
  | none => rw [h.unset name hname htext]
  | some text => exact type_of_parseValue (h.set name hname text htext)

theorem Assigned.sameProperties (h : Assigned lib p ps p₁) (hsame : SameProperties p q) :
    SameProperties p₁ q := by
  refine ⟨fun name => ?_, fun name hname => ?_⟩
  · rw [h.names, hsame.names]
  · rw [h.names] at hname
    rw [hsame.types name hname, h.type_eq hname]

theorem Storable.oneLined_loaded (h : Storable lib p)
    (hassigned : Assigned lib p (pairs file) p₁) : OneLined lib p₁ := by
  intro name hname
  rw [hassigned.names] at hname
  obtain ⟨hplain, hline⟩ := h.oneLined name hname
  refine ⟨hplain, ?_⟩
  cases htext : lastText (pairs file) name with
  | none => rwa [hassigned.unset name hname htext]
  | some text =>
    exact serializeValue_oneLine (hassigned.set name hname text htext)
      (pairs_plain (mem_of_lastText htext)).2

theorem Covered.storable_loaded (h : Storable lib p) (hfile : Covered lib p file)
    (hassigned : Assigned lib p (pairs file) p₁) : Storable lib p₁ := by
  intro name hname
  rw [hassigned.names] at hname
  refine ⟨(h name hname).1, ?_⟩
  cases htext : lastText (pairs file) name with
  | none =>
    rw [hassigned.unset name hname htext]
    exact (h name hname).2
  | some text => exact hfile.kept name text _ htext (hassigned.set name hname text htext)

theorem Covered.preserves (h : Storable lib p) (hfile : Covered lib p file) :
    Preserves lib p file := by
  obtain ⟨p₁, hload, hassigned⟩ := load_of_readable fun x hx _ => hfile.readable x hx
  refine ⟨p₁, hload, fun q hsame _ => ?_⟩
  have hsame₁ := hassigned.sameProperties hsame
  obtain ⟨p₂, hload₂, hvalue⟩ := (Covered.storable_loaded h hfile hassigned).restores q hsame₁
  refine ⟨p₂, hload₂, fun name hname => ?_⟩
  obtain ⟨x, hx, rfl⟩ := mem_map.mp hname
  have hmem : x.1 ∈ p₁.names := by
    rw [hassigned.names]
    exact hfile.registered x hx
  have hmem₂ : x.1 ∈ p₂.names := by
    rw [(of_load_eq_ok hload₂).2.names]
    exact (hsame₁.names _).mp hmem
  rw [get, if_pos hmem₂, get, if_pos hmem, hvalue x.1 hmem]

theorem Preserves.covered (h : Storable lib p) (hfile : Preserves lib p file) :
    Covered lib p file := by
  obtain ⟨p₁, hload, hcycle⟩ := hfile
  obtain ⟨hread, hassigned⟩ := of_load_eq_ok hload
  have hlined := h.oneLined_loaded hassigned
  -- The next run begins with the values `p` has and nothing unknown.
  have hsame : SameProperties p { p with unknownProps := fun _ => none } :=
    ⟨fun _ => Iff.rfl, fun _ _ => rfl⟩
  obtain ⟨p₂, hload₂, hget⟩ := hcycle _ hsame fun _ => rfl
  obtain ⟨-, hassigned₂⟩ := of_load_eq_ok hload₂
  have hregistered : ∀ x ∈ pairs file, x.1 ∈ p.names := by
    intro x hx
    by_contra hnot
    have hlost : p₂.get x.1 = none := by
      rw [get, if_neg (by rwa [hassigned₂.names]), hassigned₂.unknown x.1 hnot, pairs_save hlined,
        lastText_eq_none_iff.mpr (by simpa [hassigned.names] using hnot)]
      rfl
    have hkept : p₁.get x.1 ≠ none := by
      rw [get, if_neg (by rwa [hassigned.names]), hassigned.unknown x.1 hnot]
      cases htext : lastText (pairs file) x.1 with
      | none => exact absurd (mem_map_of_mem hx) (lastText_eq_none_iff.mp htext)
      | some text => simp
    exact hkept (hget x.1 (mem_map_of_mem hx) ▸ hlost)
  refine ⟨hregistered, fun x hx => hread x hx (hregistered x hx), ?_⟩
  intro name text v htext hv
  have hx := mem_of_lastText htext
  have hname : name ∈ p.names := hregistered _ hx
  have hname₁ : name ∈ p₁.names := by rwa [hassigned.names]
  have heq := hget name (mem_map.mpr ⟨_, hx, rfl⟩)
  rw [get, if_pos (by rwa [hassigned₂.names]), get, if_pos hname₁] at heq
  have hback := hassigned₂.of_save hlined (hassigned.sameProperties hsame) hname₁
  rw [Sum.inl.inj (Option.some.inj heq)] at hback
  have hset := hassigned.set name hname text htext
  rw [hv] at hset
  rw [Option.some.inj hset]
  exact (kept_iff _).mpr ⟨(hlined name hname₁).2, hback⟩

end Cycle

/-- **A list survives saving and a file loading and saving** exactly if names and values keep to one
line and are read back, and every name in the file is registered. -/
theorem load_save_iff (lib : FloatLibrary φ) (p : PropertyList φ) (file : List Char) :
    Restores lib p ∧ Preserves lib p file ↔ Storable lib p ∧ Covered lib p file := by
  constructor
  · rintro ⟨hrestores, hfile⟩
    exact ⟨hrestores.storable, hfile.covered hrestores.storable⟩
  · rintro ⟨h, hfile⟩
    exact ⟨h.restores, hfile.preserves h⟩

def noProperties : PropertyList φ := ⟨[], List.nodup_nil, fun _ => .bool false, fun _ => none⟩

def twoLines : PropertyList φ := noProperties.registerProperty ['s'] (.string ['a', '\n', 'b'])

def twoFloats : FloatLibrary Bool where
  toString b := if b then "1.000000".toList else "0.000000".toList
  stof text :=
    if text = "1.000000".toList then some true
    else if text = "0.000000".toList then some false
    else none
  oneLine b := by
    cases b with
    | false => decide
    | true => decide
  nontrivial := inferInstance

/-- A pair without a property is kept in memory and not saved, and of a value of two lines
the first comes back. -/
theorem load_save_loses :
    (∃ p₁, noProperties.load twoFloats "x=1\n".toList = .ok p₁ ∧
      p₁.get ['x'] = some (.inr ['1']) ∧ p₁.save twoFloats = []) ∧
    ¬ Preserves twoFloats noProperties "x=1\n".toList ∧
    (∃ r, twoLines.load twoFloats (twoLines.save twoFloats) = .ok r ∧
      r.value ['s'] = .string ['a']) ∧
    ¬ Restores twoFloats twoLines := by
  refine ⟨⟨noProperties.putUnknown ['x'] ['1'], rfl, rfl, rfl⟩, fun h => ?_,
    ⟨twoLines.putValue ['s'] (.string ['a']), rfl, rfl⟩, fun h => ?_⟩
  · have hstorable : Storable twoFloats noProperties := nofun
    have hmem : (['x'], ['1']) ∈ pairs "x=1\n".toList := by decide
    exact absurd ((h.covered hstorable).registered _ hmem) not_mem_nil
  · have hkept : '\n' ∉ ['a', '\n', 'b'] := (h.storable ['s'] (mem_singleton_self _)).2
    exact absurd hkept (by decide)

end PropertyList

end Properties
