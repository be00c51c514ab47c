import McpeLauncher.EventUploader
import McpeLauncher.IpcMessage

/-! # Downloading the configuration

`Configuration::download` asks for a configuration unless it is too early or the cache has one, and
takes the settings from the answer or, after a 304, from the cache. An exception leaves it wherever
a number is missing (`download_returns_iff`). -/
namespace Cll
open SimpleIpc (Json JsonLibrary ReadError)

def stoi (text : String) : Option Int32 := do
  let text := text.toList.dropWhile isSpace
  let (negative, text) := match text with
    | '-' :: rest => (true, rest)
    | '+' :: rest => (false, rest)
    | _ => (false, text)
  let n ← leadingDigits text
  let value : Int := if negative then -n else n
  if -2 ^ 31 ≤ value ∧ value < 2 ^ 31 then some (Int32.ofInt value) else none

def asInt (val : Json) : Except ReadError Int32 :=
  if val.isNumber then val.getInt32
  else val.getString.bind fun text => (stoi text).elim (.error .std) .ok

/-- The value is a number or a text that begins with one. -/
def IsInt (val : Json) : Prop :=
  val.isNumber = true ∨ ∃ text, val = .string text ∧ (stoi text).isSome = true

theorem asInt_ok_iff (val : Json) : (∃ n, asInt val = .ok n) ↔ IsInt val := by
  rw [asInt, IsInt]
  cases val with
  | integer i => exact iff_of_true ⟨_, rfl⟩ (.inl rfl)
  | float bits => exact iff_of_true ⟨_, rfl⟩ (.inl rfl)
  | string text =>
    simp only [Json.isNumber, Bool.false_eq_true, if_false, Json.getString, Except.bind,
      Json.string.injEq, exists_eq_left', false_or]
    rcases stoi text with _ | n
    · simp
    · simp
  | null => simp [Json.isNumber, Json.getString, Except.bind]
  | boolean b => simp [Json.isNumber, Json.getString, Except.bind]
  | array items => simp [Json.isNumber, Json.getString, Except.bind]
  | object members => simp [Json.isNumber, Json.getString, Except.bind]

structure ConfigurationProperty where
  value : Int32
  valueSet : Bool
  deriving DecidableEq

namespace ConfigurationProperty

def reset : ConfigurationProperty := ⟨0, false⟩

def set (value : Int32) : ConfigurationProperty := ⟨value, true⟩

def setFromJson (json : Json) (name : String) : Except ReadError ConfigurationProperty :=
  match json.find name with
  | none => .ok reset
  | some f => (asInt f).map set

theorem setFromJson_ok_iff (json : Json) (name : String) :
    (∃ p, setFromJson json name = .ok p) ↔ ∀ f, json.find name = some f → IsInt f := by
  rw [setFromJson]
  rcases json.find name with _ | f
  · simp
  · simp only [Option.some.injEq, forall_eq', ← asInt_ok_iff]
    rcases asInt f with e | n
    · simp [Except.map]
    · simp [Except.map]

end ConfigurationProperty

/-- `Configuration`, with its times in nanoseconds. -/
structure Configuration where
  downloadMinRetryTime : Int
  downloadAttempt : Int32
  url : String
  downloaded : Bool
  expires : Int
  maxEventSizeInBytes : ConfigurationProperty
  maxEventsPerPost : ConfigurationProperty
  queueDrainInterval : ConfigurationProperty
  deriving DecidableEq

/-- `CachedConfiguration`, with the interval in seconds. -/
structure CachedConfiguration where
  expires : Int
  refreshInterval : Int
  etag : String
  data : Json

/-- `ConfigurationCache`, with states `γ`; reading or writing it may throw. -/
structure ConfigurationCache (γ : Type) where
  readFromCache : String → γ → Except ReadError (Option CachedConfiguration)
  writeConfigToCache : String → CachedConfiguration → γ → Except ReadError Unit × γ

structure ConfigurationResponse extends HttpResponse where
  body : List UInt8

/-- Two readings of the clock, the answer, with none for an `HttpError`, and what `status` and
`refreshInterval` hold uninitialised. -/
structure DownloadContext where
  requestStart : Int
  now : Int
  send : HttpRequest → Option ConfigurationResponse
  status : Int
  refreshInterval : Int

def DownloadContext.response (i : DownloadContext) (request : HttpRequest) :
    ConfigurationResponse :=
  (i.send request).getD ⟨⟨i.status, []⟩, []⟩

def DownloadContext.blank (i : DownloadContext) : CachedConfiguration :=
  ⟨0, i.refreshInterval, "", .null⟩

def addSeconds (time seconds : Int) : Int := time + 1000000000 * seconds

namespace Configuration

def construct (url : String) : Configuration := ⟨0, 0, url, false, 0, .reset, .reset, .reset⟩

/-- With the configuration it leaves behind also where it throws. -/
def applyFromJson (json : Json) (c : Configuration) : Except ReadError Unit × Configuration :=
  match ConfigurationProperty.setFromJson json "MAXEVENTSIZEINBYTES" with
  | .error e => (.error e, c)
  | .ok p =>
    let c := { c with maxEventSizeInBytes := p }
    match ConfigurationProperty.setFromJson json "MAXEVENTSPERPOST" with
    | .error e => (.error e, c)
    | .ok p =>
      let c := { c with maxEventsPerPost := p }
      match ConfigurationProperty.setFromJson json "QUEUEDRAININTERVAL" with
      | .error e => (.error e, c)
      | .ok p => (.ok (), { c with queueDrainInterval := p })

def importCached (cached : CachedConfiguration) (c : Configuration) :
    Except ReadError Unit × Configuration :=
  applyFromJson cached.data { c with expires := cached.expires, downloaded := true }

/-- `safeParseJson`.  Only a `parse_error` is caught. -/
def safeParseJson (lib : JsonLibrary) (body : List UInt8) : Except ReadError Json :=
  match lib.parse body with
  | .error .parse => .ok (.object [])
  | result => result

/-- The settings in a body, and its `refreshInterval`; what is missing is null. -/
def readBody (lib : JsonLibrary) (body : List UInt8) : Except ReadError (Json × Int32) :=
  (safeParseJson lib body).bind fun val =>
    (val.key "settings").bind fun settings =>
      ((val.key "refreshInterval").bind asInt).map fun minutes => (settings, minutes)

section Download
variable {γ : Type} (lib : JsonLibrary) (cache : Option (ConfigurationCache γ))

def readCache (url : String) (g : γ) : Except ReadError (Option CachedConfiguration) :=
  cache.elim (.ok none) fun cache => cache.readFromCache url g

def writeCache (url : String) (cached : CachedConfiguration) (g : γ) : Except ReadError Unit × γ :=
  cache.elim (.ok (), g) fun cache => cache.writeConfigToCache url cached g

def request (c : Configuration) (entry : Option CachedConfiguration) : HttpRequest :=
  ⟨c.url, .GET, entry.elim [] fun cached => [("If-None-Match", "\"" ++ cached.etag ++ "\"")], []⟩

/-- The rest of a call with new settings: `attempt` is the counter it leaves. -/
def finish (attempt : Int32) (cached : CachedConfiguration) (c : Configuration) (g : γ) :
    Except ReadError Bool × Configuration × γ :=
  match writeCache cache c.url cached g with
  | (.error e, g) => (.error e, c, g)
  | (.ok _, g) => (.ok true, { c with downloadAttempt := attempt }, g)

/-- The cache has an entry that has not expired. -/
def useCached (cached : CachedConfiguration) (c : Configuration) (g : γ) :
    Except ReadError Bool × Configuration × γ :=
  match c.importCached cached with
  | (.error e, c) => (.error e, c, g)
  | (.ok _, c) => (.ok true, { c with downloadAttempt := 0 }, g)

def newEntry (i : DownloadContext) (response : ConfigurationResponse) (minutes : Int32)
    (settings : Json) : CachedConfiguration :=
  let refreshInterval := 60 * minutes.toInt
  ⟨addSeconds i.requestStart refreshInterval, refreshInterval, response.findHeader "ETag", settings⟩

def onOk (i : DownloadContext) (response : ConfigurationResponse) (c : Configuration) (g : γ) :
    Except ReadError Bool × Configuration × γ :=
  match readBody lib response.body with
  | .error e => (.error e, c, g)
  | .ok (settings, minutes) =>
    let cached := newEntry i response minutes settings
    match c.applyFromJson settings with
    | (.error e, c) => (.error e, c, g)
    | (.ok _, c) => finish cache 0 cached { c with expires := cached.expires, downloaded := true } g

def onNotModified (i : DownloadContext) (cached : CachedConfiguration) (c : Configuration) (g : γ) :
    Except ReadError Bool × Configuration × γ :=
  let cached := { cached with expires := addSeconds i.requestStart cached.refreshInterval }
  match c.importCached cached with
  | (.error e, c) => (.error e, c, g)
  -- the counter is left as it is
  | (.ok _, c) => finish cache c.downloadAttempt cached c g

/-- The seconds to wait after so many attempts. -/
def retryDelay (downloadAttempt : Int32) : Int := 2 ^ (min (downloadAttempt + 1).toInt 8).toNat

def onFailure (i : DownloadContext) (c : Configuration) : Configuration :=
  let downloadAttempt := c.downloadAttempt + 1
  { c with downloadAttempt := downloadAttempt
           downloadMinRetryTime := addSeconds i.requestStart (retryDelay downloadAttempt) }

/-- The request of a call and what its answer leads to, with what is cached. -/
def refresh (i : DownloadContext) (entry : Option CachedConfiguration) (c : Configuration) (g : γ) :
    Except ReadError Bool × Configuration × γ :=
  let response := i.response (c.request entry)
  if response.status = 200 then onOk lib cache i response c g
  else if response.status = 304 then onNotModified cache i (entry.getD i.blank) c g
  else (.ok false, c.onFailure i, g)

def download (i : DownloadContext) (c : Configuration) (g : γ) :
    Except ReadError Bool × Configuration × γ :=
  if i.requestStart < c.downloadMinRetryTime then (.ok false, c, g)
  else
    match readCache cache c.url g with
    | .error e => (.error e, c, g)
    | .ok entry =>
      match entry.filter fun cached => i.now < cached.expires with
      | some cached => useCached cached c g
      | none => refresh lib cache i entry c g

end Download

/-! ## What can be taken for settings -/

/-- Each of the settings is missing or a number. -/
def Convertible (json : Json) : Prop :=
  ∀ name ∈ ["MAXEVENTSIZEINBYTES", "MAXEVENTSPERPOST", "QUEUEDRAININTERVAL"],
    ∀ f, json.find name = some f → IsInt f

/-- The members that the retries are made of. -/
def SameRetry (c c' : Configuration) : Prop :=
  c'.downloadAttempt = c.downloadAttempt ∧ c'.downloadMinRetryTime = c.downloadMinRetryTime ∧
    c'.url = c.url

theorem applyFromJson_spec (json : Json) (c : Configuration) :
    SameRetry c (c.applyFromJson json).2 ∧
      (Convertible json ∧ (c.applyFromJson json).1 = .ok () ∨
        ¬ Convertible json ∧ ∃ e, (c.applyFromJson json).1 = .error e) := by
  have hsize := ConfigurationProperty.setFromJson_ok_iff json "MAXEVENTSIZEINBYTES"
  have hevents := ConfigurationProperty.setFromJson_ok_iff json "MAXEVENTSPERPOST"
  have hdrain := ConfigurationProperty.setFromJson_ok_iff json "QUEUEDRAININTERVAL"
  simp only [Convertible, List.forall_mem_cons, List.not_mem_nil, false_implies, implies_true,
    and_true, ← hsize, ← hevents, ← hdrain, applyFromJson]
  split
  · next e he => exact ⟨⟨rfl, rfl, rfl⟩, .inr ⟨by simp [he], e, rfl⟩⟩
  · next p hp =>
    split
    · next e he => exact ⟨⟨rfl, rfl, rfl⟩, .inr ⟨by simp [he], e, rfl⟩⟩
    · next p' hp' =>
      split
      · next e he => exact ⟨⟨rfl, rfl, rfl⟩, .inr ⟨by simp [he], e, rfl⟩⟩
      · next p'' hp'' =>
        exact ⟨⟨rfl, rfl, rfl⟩, .inl ⟨⟨⟨p, hp⟩, ⟨p', hp'⟩, p'', hp''⟩, rfl⟩⟩

theorem readBody_ok_iff {lib : JsonLibrary} {body : List UInt8} {settings : Json}
    {minutes : Int32} :
    readBody lib body = .ok (settings, minutes) ↔
      ∃ ms interval, lib.parse body = .ok (.object ms) ∧
        ms.lookup "refreshInterval" = some interval ∧ asInt interval = .ok minutes ∧
        settings = (ms.lookup "settings").getD .null := by
  have hnull : asInt .null = .error .json := rfl
  rw [readBody, safeParseJson]
  rcases lib.parse body with e | val
  · -- an empty object in place of the body has no interval
    cases e <;> simp [Except.bind, Except.map, Json.key, hnull]
  · cases val with
    | object ms =>
      simp only [Except.bind, Except.map, Json.key, Except.ok.injEq, Json.object.injEq,
        exists_and_left, exists_eq_left']
      rcases ms.lookup "refreshInterval" with _ | interval
      · simp [hnull]
      · simp only [Option.getD_some, Option.some.injEq, exists_eq_left']
        rcases asInt interval with e | n
        · simp
        · simp [eq_comm, and_comm]
    | null => simp [Except.bind, Except.map, Json.key, hnull]
    | boolean b => simp [Except.bind, Json.key]
    | integer n => simp [Except.bind, Json.key]
    | float bits => simp [Except.bind, Json.key]
    | string text => simp [Except.bind, Json.key]
    | array items => simp [Except.bind, Json.key]

/-- Where `cond` holds a call returns true and leaves this counter, and else an exception leaves it.
-/
def Ends {γ : Type} (cond : Prop) (attempt : Int32) (c : Configuration)
    (r : Except ReadError Bool × Configuration × γ) : Prop :=
  r.2.1.downloadMinRetryTime = c.downloadMinRetryTime ∧
    (cond ∧ r.1 = .ok true ∧ r.2.1.downloadAttempt = attempt ∨
      ¬ cond ∧ (∃ e, r.1 = .error e) ∧ r.2.1.downloadAttempt = c.downloadAttempt)

variable {attempt : Int32} {cond : Prop}

section Ends
variable {γ : Type} (lib : JsonLibrary) (cache : Option (ConfigurationCache γ))
  (i : DownloadContext) (c : Configuration) (g : γ)

theorem finish_ends (attempt : Int32) (cached : CachedConfiguration) :
    Ends ((writeCache cache c.url cached g).1 = .ok ()) attempt c
      (finish cache attempt cached c g) := by
  rw [finish]
  rcases writeCache cache c.url cached g with ⟨e | ⟨⟩, g'⟩
  · exact ⟨rfl, .inr ⟨by simp, ⟨e, rfl⟩, rfl⟩⟩
  · exact ⟨rfl, .inl ⟨rfl, rfl, rfl⟩⟩

theorem Ends.of_sameRetry {c' : Configuration} {r : Except ReadError Bool × Configuration × γ}
    (h : Ends cond attempt c' r) (hsame : SameRetry c c') : Ends cond attempt c r := by
  obtain ⟨hattempt, htime, _⟩ := hsame
  rw [Ends, ← hattempt, ← htime]
  exact h

omit c in
theorem Ends.of_iff {c : Configuration} {cond' : Prop}
    {r : Except ReadError Bool × Configuration × γ} (h : Ends cond attempt c r)
    (hiff : cond ↔ cond') : Ends cond' attempt c r :=
  propext hiff ▸ h

theorem importCached_spec (cached : CachedConfiguration) :
    SameRetry c (c.importCached cached).2 ∧
      (Convertible cached.data ∧ (c.importCached cached).1 = .ok () ∨
        ¬ Convertible cached.data ∧ ∃ e, (c.importCached cached).1 = .error e) :=
  applyFromJson_spec cached.data { c with expires := cached.expires, downloaded := true }

theorem useCached_ends (cached : CachedConfiguration) :
    Ends (Convertible cached.data) 0 c (useCached cached c g) := by
  obtain ⟨⟨hattempt, htime, _⟩, hcases⟩ := c.importCached_spec cached
  rw [useCached]
  rcases himport : c.importCached cached with ⟨result, c'⟩
  rw [himport] at hattempt htime hcases
  rcases hcases with ⟨hconv, rfl⟩ | ⟨hconv, e, rfl⟩
  · exact ⟨htime, .inl ⟨hconv, rfl, rfl⟩⟩
  · exact ⟨htime, .inr ⟨hconv, ⟨e, rfl⟩, hattempt⟩⟩

theorem onNotModified_ends (cached : CachedConfiguration) :
    Ends (Convertible cached.data ∧ (writeCache cache c.url
        { cached with expires := addSeconds i.requestStart cached.refreshInterval } g).1 = .ok ())
      c.downloadAttempt c (onNotModified cache i cached c g) := by
  set entry := { cached with expires := addSeconds i.requestStart cached.refreshInterval }
  obtain ⟨hsame, hcases⟩ := c.importCached_spec entry
  simp only [onNotModified]
  rcases himport : c.importCached entry with ⟨result, c'⟩
  rw [himport] at hsame hcases
  rcases hcases with ⟨hconv, rfl⟩ | ⟨hconv, e, rfl⟩
  · have hends := (finish_ends cache c' g c'.downloadAttempt entry).of_sameRetry c hsame
    rw [hsame.2.2] at hends
    rw [← hsame.1]
    exact hends.of_iff (and_iff_right hconv).symm
  · exact ⟨hsame.2.1, .inr ⟨fun h => hconv h.1, ⟨e, rfl⟩, hsame.1⟩⟩

theorem onOk_ends (response : ConfigurationResponse) :
    Ends (∃ settings minutes, readBody lib response.body = .ok (settings, minutes) ∧
        Convertible settings ∧
        (writeCache cache c.url (newEntry i response minutes settings) g).1 = .ok ())
      0 c (onOk lib cache i response c g) := by
  rw [onOk]
  rcases hbody : readBody lib response.body with e | ⟨settings, minutes⟩
  · exact ⟨rfl, .inr ⟨by simp, ⟨e, rfl⟩, rfl⟩⟩
  · obtain ⟨hsame, hcases⟩ := applyFromJson_spec settings c
    dsimp only
    rcases happly : c.applyFromJson settings with ⟨result, c'⟩
    rw [happly] at hsame hcases
    simp only [Except.ok.injEq, Prod.mk.injEq]
    rcases hcases with ⟨hconv, rfl⟩ | ⟨hconv, e, rfl⟩
    · set cached := newEntry i response minutes settings
      have hends := (finish_ends cache { c' with expires := cached.expires, downloaded := true } g 0
        cached).of_sameRetry c hsame
      refine hends.of_iff ⟨fun h => ?_, ?_⟩
      · exact ⟨settings, minutes, ⟨rfl, rfl⟩, hconv, hsame.2.2 ▸ h⟩
      · rintro ⟨_, _, ⟨rfl, rfl⟩, _, h⟩
        exact hsame.2.2 ▸ h
    · refine ⟨hsame.2.1, .inr ⟨?_, ⟨e, rfl⟩, hsame.1⟩⟩
      rintro ⟨_, _, ⟨rfl, rfl⟩, hconv', _⟩
      exact hconv hconv'

end Ends

/-! ## Every way a call ends -/

section Cases
variable {γ : Type} (lib : JsonLibrary) (cache : Option (ConfigurationCache γ))
  (i : DownloadContext) (c : Configuration) (g : γ)

/-- The entry of the cache that is used without asking. -/
def unexpired (entry : Option CachedConfiguration) : Option CachedConfiguration :=
  entry.filter fun cached => i.now < cached.expires

/-- **How a call goes**: it is too early, the cache cannot be read, its entry is used,
or a request is made. -/
theorem download_cases :
    (i.requestStart < c.downloadMinRetryTime ∧ download lib cache i c g = (.ok false, c, g)) ∨
    c.downloadMinRetryTime ≤ i.requestStart ∧
      ((∃ e, readCache cache c.url g = .error e ∧ download lib cache i c g = (.error e, c, g)) ∨
      (∃ entry cached, readCache cache c.url g = .ok entry ∧ unexpired i entry = some cached ∧
        download lib cache i c g = useCached cached c g) ∨
      ∃ entry, readCache cache c.url g = .ok entry ∧ unexpired i entry = none ∧
        download lib cache i c g = refresh lib cache i entry c g) := by
  rw [download]
  by_cases hearly : i.requestStart < c.downloadMinRetryTime
  · exact .inl ⟨hearly, if_pos hearly⟩
  · rw [if_neg hearly]
    refine .inr ⟨Int.not_lt.mp hearly, ?_⟩
    rcases readCache cache c.url g with e | entry
    · exact .inl ⟨e, rfl, rfl⟩
    · rcases hentry : unexpired i entry with _ | cached
      · refine .inr (.inr ⟨entry, rfl, hentry, ?_⟩)
        rw [unexpired] at hentry
        simp only [hentry]
      · refine .inr (.inl ⟨entry, cached, rfl, hentry, ?_⟩)
        rw [unexpired] at hentry
        simp only [hentry]

/-- An object with a number as `refreshInterval` and, if it has any, with settings that are numbers.
-/
def IsConfiguration (body : List UInt8) (settings : Json) (minutes : Int32) : Prop :=
  (∃ ms interval, lib.parse body = .ok (.object ms) ∧
    ms.lookup "refreshInterval" = some interval ∧ asInt interval = .ok minutes ∧
    settings = (ms.lookup "settings").getD .null) ∧ Convertible settings

/-- A 200 with a body that is a configuration, or a 304 with cached settings that can be read; and
the cache takes the new entry. -/
def Acceptable (entry : Option CachedConfiguration) (response : ConfigurationResponse) : Prop :=
  (response.status = 200 → ∃ settings minutes, IsConfiguration lib response.body settings minutes ∧
    (writeCache cache c.url (newEntry i response minutes settings) g).1 = .ok ()) ∧
  (response.status = 304 → Convertible (entry.getD i.blank).data ∧
    (writeCache cache c.url { entry.getD i.blank with
      expires := addSeconds i.requestStart (entry.getD i.blank).refreshInterval } g).1 = .ok ())

/-- It is too early for a request; or the cache can be read, and so can its settings if they are
used, or the answer is acceptable. -/
def Readable : Prop :=
  i.requestStart < c.downloadMinRetryTime ∨
    ∃ entry, readCache cache c.url g = .ok entry ∧
      (∀ cached, unexpired i entry = some cached → Convertible cached.data) ∧
      (unexpired i entry = none →
        Acceptable lib cache i c g entry (i.response (c.request entry)))

variable {c} in
theorem Ends.returns_iff {r : Except ReadError Bool × Configuration × γ}
    (h : Ends cond attempt c r) :
    ((∃ b, r.1 = .ok b) ↔ cond) ∧ r.1 ≠ .ok false := by
  rcases h.2 with ⟨hcond, hr, _⟩ | ⟨hcond, ⟨e, hr⟩, _⟩
  · rw [hr]
    exact ⟨iff_of_true ⟨true, rfl⟩ hcond, by simp⟩
  · rw [hr]
    exact ⟨iff_of_false (by simp) hcond, by simp⟩

/-- **What an answer leads to**: a success, an exception, or a failure that changes no
settings. -/
theorem refresh_cases (entry : Option CachedConfiguration) :
    let response := i.response (c.request entry)
    (response.status = 200 ∧ Ends (Acceptable lib cache i c g entry response) 0 c
        (refresh lib cache i entry c g)) ∨
    (response.status = 304 ∧ Ends (Acceptable lib cache i c g entry response) c.downloadAttempt c
        (refresh lib cache i entry c g)) ∨
    response.status ≠ 200 ∧ response.status ≠ 304 ∧
      refresh lib cache i entry c g = (.ok false, c.onFailure i, g) := by
  intro response
  simp only [refresh]
  by_cases hok : response.status = 200
  · rw [if_pos hok]
    refine .inl ⟨hok, (onOk_ends lib cache i c g response).of_iff ?_⟩
    simp only [Acceptable, hok, forall_const, readBody_ok_iff, IsConfiguration, and_assoc]
    simp
  · rw [if_neg hok]
    by_cases hcached : response.status = 304
    · rw [if_pos hcached]
      refine .inr (.inl ⟨hcached, (onNotModified_ends cache i c g _).of_iff ?_⟩)
      simp [Acceptable, hcached]
    · rw [if_neg hcached]
      exact .inr (.inr ⟨hok, hcached, rfl⟩)

def SameSettings (c c' : Configuration) : Prop :=
  c'.maxEventSizeInBytes = c.maxEventSizeInBytes ∧ c'.maxEventsPerPost = c.maxEventsPerPost ∧
    c'.queueDrainInterval = c.queueDrainInterval ∧ c'.expires = c.expires ∧
    c'.downloaded = c.downloaded

/-- **A download returns**, and without success changes neither settings nor cache,
exactly if what it reads can be read. -/
theorem download_returns_iff :
    ((∃ b, (download lib cache i c g).1 = .ok b) ∧
        ((download lib cache i c g).1 = .ok false →
          SameSettings c (download lib cache i c g).2.1 ∧ (download lib cache i c g).2.2 = g)) ↔
      Readable lib cache i c g := by
  rcases download_cases lib cache i c g with
    ⟨hearly, hr⟩ | ⟨hdue, ⟨e, hread, hr⟩ | ⟨entry, cached, hread, hentry, hr⟩ |
      ⟨entry, hread, hentry, hr⟩⟩
  · rw [hr]
    exact iff_of_true ⟨⟨false, rfl⟩, fun _ => ⟨⟨rfl, rfl, rfl, rfl, rfl⟩, rfl⟩⟩ (.inl hearly)
  · rw [hr]
    refine iff_of_false (by simp) ?_
    rintro (hearly | ⟨entry, hok, _⟩)
    · exact absurd hearly (Int.not_lt.mpr hdue)
    · rw [hread] at hok
      cases hok
  · obtain ⟨hreturns, hfalse⟩ := (useCached_ends c g cached).returns_iff
    rw [hr, and_iff_left fun h => absurd h hfalse, hreturns, Readable, hread,
      or_iff_right (Int.not_lt.mpr hdue)]
    simp [hentry]
  · have hreadable : Readable lib cache i c g ↔
        Acceptable lib cache i c g entry (i.response (c.request entry)) := by
      rw [Readable, hread, or_iff_right (Int.not_lt.mpr hdue)]
      simp [hentry]
    rw [hr, hreadable]
    rcases refresh_cases lib cache i c g entry with
      ⟨_, hends⟩ | ⟨_, hends⟩ | ⟨hok, hcached, hfailed⟩
    · obtain ⟨hreturns, hfalse⟩ := hends.returns_iff
      rw [and_iff_left fun h => absurd h hfalse, hreturns]
    · obtain ⟨hreturns, hfalse⟩ := hends.returns_iff
      rw [and_iff_left fun h => absurd h hfalse, hreturns]
    · rw [hfailed]
      refine iff_of_true ⟨⟨false, rfl⟩, fun _ => ⟨⟨rfl, rfl, rfl, rfl, rfl⟩, rfl⟩⟩ ?_
      exact ⟨fun h => absurd h hok, fun h => absurd h hcached⟩

end Cases

def answering (status : Int) (body : List UInt8) : DownloadContext :=
  ⟨0, 0, fun _ => some ⟨⟨status, []⟩, body⟩, 0, 0⟩

/-- A library that reads the text `1` as an object with this interval. -/
def intervalLibrary (interval : Json) : JsonLibrary :=
  .fixed [49] [0] (.object [("refreshInterval", interval)]) .null
    (SimpleIpc.clean_of_all (by decide)) (by decide) (by decide) (by norm_num)

/-- **Exceptions leave `download`**: after a 200 with a body that is not JSON, and with
one whose interval is of the wrong type. -/
theorem download_throws :
    (download (γ := Unit) (intervalLibrary (.integer 60)) none (answering 200 [60]) (construct "")
        ()).1 = .error .json ∧
      (download (γ := Unit) (intervalLibrary (.boolean true)) none (answering 200 [49])
        (construct "") ()).1 = .error .json ∧
      (download (γ := Unit) (intervalLibrary (.string "soon")) none (answering 200 [49])
        (construct "") ()).1 = .error .std ∧
      (download (γ := Unit) (intervalLibrary (.integer 60)) none (answering 200 [49]) (construct "")
        ()).1 = .ok true :=
  ⟨rfl, rfl, rfl, rfl⟩

end Configuration

end Cll
