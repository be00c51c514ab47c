import McpeLauncher.Configuration
import McpeLauncher.Runs

/-! # The configuration cache in a file

A `FileConfigurationCache` keeps a JSON value, which it reads from its file and writes back after
every change. Whatever stands in the file is taken, where an object of objects is expected.
`cache_right_iff` says what the value, the file and the JSON library must be like for every call to
do what it should. -/
namespace Cll
open SimpleIpc Runs Json

/-- What `fs >> data` leaves in `data`, what `fs << data` has written, and whether these throw. -/
structure JsonFiles where
  read : List UInt8 → Json
  write : Json → List UInt8
  writeThrows : Json → Bool

namespace FileConfigurationCache

/-- The members of what `operator[]` takes for an object. -/
def members : Json → Option (List (String × Json))
  | .object ms => some ms
  | .null => some []
  | _ => none

def assign (key : String) (v j : Json) : Except ReadError Json :=
  match members j with
  | some ms => .ok (.object (Json.setMember key v ms))
  | none => .error .json

def value (key : String) (fallback : Json) : Json → Except ReadError Json
  | .object ms => .ok ((ms.lookup key).getD fallback)
  | _ => .error .json

/-- The entry of a URL.  Times are in nanoseconds, and in milliseconds in the file. -/
def readEntry (en : Json) : Except ReadError CachedConfiguration := do
  let refreshInterval ← (← value "refreshInterval" (.integer 0) en).getInt64
  let expires ← (← value "expires" (.integer 0) en).getInt64
  let etag ← (← value "etag" (.string "") en).getString
  let data ← value "data" (.object []) en
  return ⟨1000000 * expires.toInt, refreshInterval.toInt, etag, data⟩

def readFromCache (url : String) (data : Json) : Except ReadError (Option CachedConfiguration) :=
  match data.find url with
  | none => .ok none
  | some en => some <$> readEntry en

/-- A configuration, with times of 64 bits. -/
structure NewConfiguration where
  expires : Int64
  refreshInterval : Int64
  etag : String
  data : Json

/-- `data` after `writeConfigToCache`, up to the call of `store`. -/
def writeEntry (url : String) (config : NewConfiguration) (data : Json) :
    Except ReadError Json := do
  -- a missing entry is made, as null
  let en ← data.key url
  let en ← assign "expires" (.integer (config.expires / 1000000).toInt) en
  let en ← assign "refreshInterval" (.integer config.refreshInterval.toInt) en
  let en ← assign "etag" (.string config.etag) en
  let en ← assign "data" config.data en
  assign url en data

/-- A cache object and its file, if there is one. -/
structure Cache where
  data : Json
  file : Option (List UInt8)

inductive CacheCall where
  | readFromCache (url : String)
  /-- `opened` says whether the file can be opened then. -/
  | writeConfigToCache (url : String) (config : NewConfiguration) (opened : Bool)
  /-- a new cache object on the file -/
  | reopen

variable (files : JsonFiles)

/-- A new cache object: the constructor, which calls `load`. -/
def load (file : Option (List UInt8)) : Cache := ⟨file.elim (.object []) files.read, file⟩

def store (opened : Bool) (s : Cache) : Except ReadError Unit × Cache :=
  if opened then
    (if files.writeThrows s.data then .error .json else .ok (),
      { s with file := some (files.write s.data) })
  else (.ok (), s)

/-- What a call answers, with nothing for a write, and what it leaves behind. -/
def step (s : Cache) : CacheCall → Except ReadError (Option CachedConfiguration) × Cache
  | .readFromCache url => (readFromCache url s.data, s)
  | .writeConfigToCache url config opened => match writeEntry url config s.data with
    | .error e => (.error e, s)
    | .ok data => (store files opened { s with data := data }).map (·.map fun _ => none) id
  | .reopen => (.ok none, load files s.file)

/-- The expiry is rounded towards zero to milliseconds. -/
def NewConfiguration.rounded (config : NewConfiguration) : CachedConfiguration :=
  ⟨1000000 * config.expires.toInt.tdiv 1000000, config.refreshInterval.toInt, config.etag,
    config.data⟩

/-- A call does not throw; after a write that URL is read as written and the others as before, also
from a new object. -/
def Right (s : Cache) (call : CacheCall) : Prop :=
  (step files s call).1.isOk ∧ match call with
    | .writeConfigToCache url config _ => ∀ u,
      let wanted := if u = url then .ok (some config.rounded) else readFromCache u s.data
      readFromCache u (step files s call).2.data = wanted ∧
        readFromCache u (load files (step files s call).2.file).data = wanted
    | _ => True

def Legible (en : Json) : Prop :=
  ∃ ms, en = .object ms ∧ ((ms.lookup "refreshInterval").getD (.integer 0)).getArithmetic.isOk ∧
    ((ms.lookup "expires").getD (.integer 0)).getArithmetic.isOk ∧
    ((ms.lookup "etag").getD (.string "")).getString.isOk

/-- The value, and the entry of the URL if there is one, are null or objects. -/
def Takes (url : String) (data : Json) : Prop :=
  ∃ ms es, members data = some ms ∧ members ((ms.lookup url).getD .null) = some es

/-- The value with the entry that is to be written: the other members of the value and of the entry
stay. -/
def entered (url : String) (config : NewConfiguration) (data : Json) : Json :=
  let ms := (members data).getD []
  let es := (members ((ms.lookup url).getD .null)).getD []
  .object (setMember url (.object (setMember "data" config.data
    (setMember "etag" (.string config.etag) (setMember "refreshInterval"
      (.integer config.refreshInterval.toInt) (setMember "expires"
        (.integer (config.expires / 1000000).toInt) es))))) ms)

/-- A legible entry; or a value that takes a new one. Its text can then be written, and is read with
the same entries; a file that cannot be opened must have had them. -/
def Careful (s : Cache) : CacheCall → Prop
  | .readFromCache url => ∀ en, s.data.find url = some en → Legible en
  | .writeConfigToCache url config opened => Takes url s.data ∧
    (opened = true → files.writeThrows (entered url config s.data) = false) ∧
    ∀ u, readFromCache u
        (if opened then files.read (files.write (entered url config s.data))
          else s.file.elim (.object []) files.read) =
      readFromCache u (entered url config s.data)
  | .reopen => True

variable {files} {url u : String} {config : NewConfiguration} {data : Json}

theorem isOk_readEntry_iff (en : Json) : (readEntry en).isOk ↔ Legible en := by
  cases en with
  | object ms =>
    simp only [readEntry, value, Legible, getInt64, bind, Except.bind, object.injEq,
      exists_eq_left']
    rcases ((ms.lookup "refreshInterval").getD (.integer 0)).getArithmetic with _ | refresh <;>
    rcases ((ms.lookup "expires").getD (.integer 0)).getArithmetic with _ | expires <;>
    rcases ((ms.lookup "etag").getD (.string "")).getString with _ | etag <;>
    simp [Except.isOk, Except.toBool, Functor.map, Except.map, pure, Except.pure]
  | _ => exact iff_of_false nofun (by rintro ⟨ms, h, -⟩; cases h)

theorem key_eq (url : String) (data : Json) :
    data.key url = (members data).elim (.error .json) fun ms =>
      .ok ((ms.lookup url).getD .null) := by
  cases data <;> rfl

theorem writeEntry_of_takes (config : NewConfiguration) (h : Takes url data) :
    writeEntry url config data = .ok (entered url config data) := by
  obtain ⟨ms, es, hms, hes⟩ := h
  have hobject (ms : List (String × Json)) : members (.object ms) = some ms := rfl
  simp only [writeEntry, key_eq, assign, hms, hes, hobject, bind, Except.bind, Option.elim, entered,
    Option.getD_some]

/-- **What a write makes of the value**: only the entry of the URL is another one, and that is read
as it was written. -/
theorem readFromCache_entered (config : NewConfiguration) (h : Takes url data) (u : String) :
    readFromCache u (entered url config data) =
      if u = url then .ok (some config.rounded) else readFromCache u data := by
  obtain ⟨ms, es, hms, hes⟩ := h
  rw [entered, hms, Option.getD_some]
  split
  · next heq =>
    subst heq
    have hround : config.expires.toInt.tdiv 1000000 = (config.expires / 1000000).toInt :=
      (Int64.toInt_div_of_ne_right config.expires 1000000 (by decide)).symm
    rw [NewConfiguration.rounded, hround]
    generalize config.expires / 1000000 = expires
    simp [readFromCache, find, lookup_setMember_self, lookup_setMember_ne, readEntry,
      value, getInt64, getArithmetic, getString, bind, Except.bind, Functor.map,
      Except.map, pure, Except.pure]
  · next hne =>
    simp only [readFromCache, find, lookup_setMember_ne hne]
    cases data <;> cases hms <;> rfl

theorem takes_of_writeEntry {data' : Json} (h : writeEntry url config data = .ok data') :
    Takes url data := by
  cases hms : members data with
  | none => simp [writeEntry, key_eq, hms, bind, Except.bind] at h
  | some ms => cases hes : members ((ms.lookup url).getD .null) with
    | none => simp [writeEntry, key_eq, hms, assign, hes, bind, Except.bind] at h
    | some es => exact ⟨ms, es, hms, hes⟩

theorem right_iff (s : Cache) (call : CacheCall) : Right files s call ↔ Careful files s call := by
  cases call with
  | readFromCache url =>
    simp only [Right, Careful, step, readFromCache, and_true]
    cases s.data.find url with
    | none => exact iff_of_true rfl nofun
    | some en =>
      have hmap : (some <$> readEntry en).isOk = (readEntry en).isOk := by
        cases readEntry en <;> rfl
      simp [hmap, isOk_readEntry_iff]
  | reopen => exact iff_of_true ⟨rfl, trivial⟩ trivial
  | writeConfigToCache url config opened =>
    by_cases htakes : Takes url s.data
    · rw [Right, Careful, step, writeEntry_of_takes config htakes]
      simp only [← readFromCache_entered config htakes, htakes, true_and]
      cases opened with
      | false => simp [store, load, Except.map, Except.isOk, Except.toBool]
      | true => cases hthrows : files.writeThrows (entered url config s.data) <;>
          simp [store, load, hthrows, Except.map, Except.isOk, Except.toBool]
    · refine iff_of_false (fun h => ?_) fun h => htakes h.1
      cases hdata : writeEntry url config s.data with
      | ok data => exact htakes (takes_of_writeEntry hdata)
      | error e =>
        have hok := h.1
        rw [step, hdata] at hok
        exact absurd hok nofun

/-- **The cache is right along a run, from any file, exactly if every call is careful.** -/
theorem cache_right_iff (files : JsonFiles) (file : Option (List UInt8)) (calls : List CacheCall) :
    Along (fun s call => (step files s call).2) (Right files) (load files file) calls ↔
      Along (fun s call => (step files s call).2) (Careful files) (load files file) calls := by
  have heq : Right files = Careful files := by
    funext s call
    exact propext (right_iff s call)
  rw [heq]

/-- With a file that holds `7` a write throws; with one that holds `{"u": 7}` the entry can be
neither read nor written. -/
theorem cache_throws :
    let files (j : Json) : JsonFiles := ⟨fun _ => j, fun _ => [], fun _ => false⟩
    let answer (j : Json) (call : CacheCall) := (step (files j) (load (files j) (some [])) call).1
    let write : CacheCall := .writeConfigToCache "u" ⟨0, 0, "", .null⟩ true
    answer (.integer 7) write = .error .json ∧
      answer (.object [("u", .integer 7)]) (.readFromCache "u") = .error .json ∧
      answer (.object [("u", .integer 7)]) write = .error .json := by
  refine ⟨rfl, rfl, rfl⟩

end FileConfigurationCache
end Cll
