import McpeLauncher.HttpHeaders
import McpeLauncher.Numerals
import McpeLauncher.Utf8Text

/-! # The result of the sign-in window

`XalWebViewQt::show` takes the URL from what a helper prints. It looks for the expected front of the
URL and for the first character behind that which no URL has, and takes as many characters as the
second place says. -/
namespace XalWebView
open HttpHeaders TextSearch List

/-- Whether there is a process, what it prints, how much of that the one `read` of each pipe gives,
and its exit status. -/
structure Execution where
  forked : Bool
  stdout : List UInt8
  stderr : List UInt8
  stdoutRead : Nat
  stderrRead : Nat
  status : UInt8

/-- The helper that is found, if any, and what comes of a command line. -/
structure System where
  findWebView : List UInt8
  execv : List (List UInt8) → Execution

def read (text : List UInt8) (count : Nat) : List UInt8 := text.take (min count 1024)

def buildCommandLine (path title description : List UInt8) : List (List UInt8) :=
  [path, title, description]

/-- What comes of the call of `show`. -/
def System.execution (system : System) (starturl endurl : List UInt8) : Execution :=
  system.execv (buildCommandLine system.findWebView starturl endurl)

def toString_ (n : UInt8) : List UInt8 := (Cll.decimal n.toNat).map fun c => UInt8.ofNat c.toNat

def execGetStdout (system : System) (path title description : List UInt8) :
    Except (List UInt8) (List UInt8) :=
  let e := system.execv (buildCommandLine path title description)
  if e.forked = false then .error (ascii "Fork failed")
  else
    let outputStdOut := read e.stdout e.stdoutRead
    let outputStdErr := read e.stderr e.stderrRead
    if e.status = 0 then .ok outputStdOut
    else .error (ascii "Process exited with status=" ++ toString_ e.status ++ ascii " stdout:`" ++
      outputStdOut ++ ascii "` stderr:`" ++ outputStdErr ++ ascii "`")

/-! ## Taking the URL -/

def validUrlChars : List UInt8 :=
  ascii ("abcdefghijklmnopqrstuvwxyzABCDEFGHIJKLMNOPQRSTUVWXYZ0123456789-_.~!*'();:@&=+$,/?%#[]")

def isUrlChar (c : UInt8) : Bool := c ∈ validUrlChars

def npos : Nat := 2 ^ 64 - 1

def findFirstNotOf (s : List UInt8) (pos : Nat) : Option Nat :=
  ((s.drop pos).findIdx? fun c => !isUrlChar c).map (· + pos)

def tryMessage (result endurl url : List UInt8) : List UInt8 :=
  ascii "The Launcher might failed to open the Xboxlive login Window successfully, please " ++
  ascii "report if Minecraft tells you that sign in failed. Please look into the gamelog for " ++
  ascii "more Information: Process returned stdout:`" ++ result ++
  ascii "`, but expected an url starting with:`" ++ endurl ++ ascii "`. Try returning `" ++ url ++
  ascii "` as endurl. We track this issue here " ++
  ascii "https://github.com/minecraft-linux/mcpelauncher-manifest/issues/444"

/-- What is taken from the trimmed output, with a message if there is one. -/
def takeUrl (result endurl : List UInt8) : Except (List UInt8) (List UInt8 × Option (List UInt8)) :=
  if (¬ endurl <+: result ∨ findFirstNotOf result 0 ≠ none) ∧ result ≠ [] then
    match find endurl result with
    | some iurl =>
      let eurl := (findFirstNotOf result iurl).getD npos
      let url := (result.drop iurl).take eurl
      .ok (url, some (tryMessage result endurl url))
    | none =>
      .error (ascii "Process returned stdout:`" ++ result ++
        ascii "`, but expected an url starting with:`" ++ endurl ++ ascii "`")
  else .ok (result, none)

def tryShow (system : System) (starturl endurl : List UInt8) :
    Except (List UInt8) (List UInt8 × Option (List UInt8)) :=
  if system.findWebView = [] then .error (ascii "mcpelauncher-webview not found")
  else do
    let result ← execGetStdout system system.findWebView starturl endurl
    takeUrl (trim result) endurl

/-- `XalWebViewQt::show`: the result, and what the error handler is told. -/
def show_ (system : System) (starturl endurl : List UInt8) : List UInt8 × Option (List UInt8) :=
  match tryShow system starturl endurl with
  | .ok shown => shown
  | .error what => ([], some (ascii ("Failed to open Xboxlive login Window. Please look into " ++
      "the gamelog for more Information: ") ++ what))

/-! ## What is taken -/

/-- The text is there, and no URL character follows it. -/
def Delimited (output text : List UInt8) : Prop :=
  ∃ front back, output = front ++ text ++ back ∧ ∀ c, back.head? = some c → isUrlChar c = false

/-- The expected front, then URL characters, up to where the URL ends in the output. -/
def IsEndUrl (output endurl result : List UInt8) : Prop :=
  (∃ rest, result = endurl ++ rest ∧ ∀ c ∈ rest, isUrlChar c = true) ∧ Delimited output result

def Execution.text (e : Execution) : List UInt8 := trim (read e.stdout e.stdoutRead)

/-- The text from a place on, up to the end that is used. -/
def cut (text : List UInt8) (i : Nat) : List UInt8 :=
  (text.drop i).take ((findFirstNotOf text i).getD npos)

/-- The URL characters from a place on. -/
def urlAt (text : List UInt8) (i : Nat) : List UInt8 := (text.drop i).takeWhile isUrlChar

def Succeeds (system : System) (e : Execution) : Prop :=
  system.findWebView ≠ [] ∧ e.forked = true ∧ e.status = 0

instance (system : System) (e : Execution) : Decidable (Succeeds system e) :=
  inferInstanceAs (Decidable (_ ∧ _))

theorem length_text_le (e : Execution) : e.text.length ≤ 1024 := by
  obtain ⟨front, back, htext, -, -⟩ := exists_strip isSpace (read e.stdout e.stdoutRead)
  have hlength := congrArg length htext
  have hread : (read e.stdout e.stdoutRead).length ≤ 1024 := by
    rw [read, length_take]
    omega
  rw [length_append, length_append] at hlength
  show (strip isSpace (read e.stdout e.stdoutRead)).length ≤ 1024
  omega

theorem findFirstNotOf_eq_none_iff (text : List UInt8) (i : Nat) :
    findFirstNotOf text i = none ↔ ∀ c ∈ text.drop i, isUrlChar c = true := by
  rw [findFirstNotOf, Option.map_eq_none_iff, findIdx?_eq_none_iff]
  simp

variable {e : Execution} {text endurl : List UInt8} {i : Nat}

theorem findFirstNotOf_of_mem (h : ¬ ∀ c ∈ text.drop i, isUrlChar c = true) :
    findFirstNotOf text i = some (i + (urlAt text i).length) := by
  rw [findFirstNotOf, urlAt, add_comm]
  generalize text.drop i = t at h ⊢
  induction t with
  | nil => exact absurd (by simp) h
  | cons c t ih =>
    by_cases hc : isUrlChar c = true
    · have hrest : ¬ ∀ d ∈ t, isUrlChar d = true := fun hall => h (forall_mem_cons.mpr ⟨hc, hall⟩)
      have := ih hrest
      rw [findIdx?_cons, hc, takeWhile_cons_of_pos hc, length_cons]
      obtain ⟨k, hk, hlength⟩ := Option.map_eq_some_iff.mp this
      simp only [Bool.not_true, Bool.false_eq_true, if_false, hk, Option.map_some,
        Option.some.injEq]
      omega
    · rw [findIdx?_cons, takeWhile_cons_of_neg hc]
      simp [hc]

theorem cut_of_all (hlength : text.length ≤ 1024) (h : ∀ c ∈ text.drop i, isUrlChar c = true) :
    cut text i = text.drop i := by
  rw [cut, (findFirstNotOf_eq_none_iff text i).mpr h, Option.getD_none, take_of_length_le]
  rw [length_drop, npos]
  omega

theorem cut_of_mem (h : ¬ ∀ c ∈ text.drop i, isUrlChar c = true) :
    cut text i = (text.drop i).take (i + (urlAt text i).length) := by
  rw [cut, findFirstNotOf_of_mem h, Option.getD_some]

theorem takeUrl_cases (hlength : text.length ≤ 1024) (endurl : List UInt8) :
    (∃ message, takeUrl text endurl =
        .ok (((find endurl text).map (cut text)).getD [], message)) ∨
      find endurl text = none ∧ ∃ what, takeUrl text endurl = .error what := by
  rw [takeUrl]
  by_cases hsearch : (¬ endurl <+: text ∨ findFirstNotOf text 0 ≠ none) ∧ text ≠ []
  · rw [if_pos hsearch]
    rcases find endurl text with _ | i
    · exact .inr ⟨rfl, _, rfl⟩
    · exact .inl ⟨_, rfl⟩
  · rw [if_neg hsearch]
    refine .inl ⟨none, ?_⟩
    rw [not_and_or, not_or, not_not, not_not, not_not] at hsearch
    rcases hsearch with ⟨hfront, hall⟩ | rfl
    · rw [find_eq_zero_iff.mpr hfront, Option.map_some, Option.getD_some,
        cut_of_all hlength ((findFirstNotOf_eq_none_iff _ 0).mp hall), drop_zero]
    · rcases find endurl [] with _ | i
      · rfl
      · simp [cut]

theorem show_eq (system : System) (starturl endurl : List UInt8)
    (he : system.execution starturl endurl = e) :
    (show_ system starturl endurl).1 =
      if Succeeds system e then ((find endurl e.text).map (cut e.text)).getD [] else [] := by
  rw [System.execution] at he
  rw [show_, tryShow, execGetStdout, he]
  by_cases hfound : system.findWebView = []
  · rw [if_pos hfound, if_neg fun hs : Succeeds system e => hs.1 hfound]
  rw [if_neg hfound]
  by_cases hforked : e.forked = true
  swap
  · rw [if_neg fun hs : Succeeds system e => hforked hs.2.1,
      if_pos (Bool.eq_false_iff.mpr hforked)]
    rfl
  rw [if_neg (by simp [hforked])]
  by_cases hstatus : e.status = 0
  · have hs : Succeeds system e := ⟨hfound, hforked, hstatus⟩
    rw [if_pos hstatus, if_pos hs]
    rcases takeUrl_cases (length_text_le e) endurl with ⟨message, hok⟩ | ⟨hnone, what, herror⟩
    · show (match takeUrl e.text endurl with | .ok shown => shown | .error what => _).1 = _
      rw [hok]
    · show (match takeUrl e.text endurl with | .ok shown => shown | .error what => _).1 = _
      rw [herror, hnone]
      rfl
  · rw [if_neg hstatus, if_neg fun hs : Succeeds system e => hstatus hs.2.2]
    rfl

/-! ## When it is the URL -/

theorem take_eq_append_iff (h : endurl <+: text) (n : Nat) :
    (∃ rest, text.take n = endurl ++ rest ∧ ∀ c ∈ rest, isUrlChar c = true) ↔
      endurl.length ≤ n ∧
        ∀ c ∈ (text.drop endurl.length).take (n - endurl.length), isUrlChar c = true := by
  obtain ⟨tail, rfl⟩ := h
  rw [drop_left]
  constructor
  · rintro ⟨rest, htake, hrest⟩
    have hle : endurl.length ≤ n := by
      have := congrArg length htake
      rw [length_take, length_append, length_append] at this
      omega
    rw [take_append, take_of_length_le hle, append_cancel_left_eq] at htake
    refine ⟨hle, ?_⟩
    rw [htake]
    exact hrest
  · rintro ⟨hle, hrest⟩
    refine ⟨tail.take (n - endurl.length), ?_, hrest⟩
    rw [take_append, take_of_length_le hle]

/-- **When the URL is found right**: an expected front of URL characters stands at the start or only
such characters follow, and all was read. With another character first at `k`, nothing is taken, or
the first `i + k` characters from its place `i` on are a URL by chance. -/
def FindsUrl (e : Execution) (endurl : List UInt8) : Prop :=
  ∀ i, find endurl e.text = some i → e.text ≠ [] →
    if endurl.all isUrlChar then
      (i = 0 ∨ ∀ c ∈ e.text.drop i, isUrlChar c = true) ∧ Delimited e.stdout (urlAt e.text i)
    else
      let k := (endurl.takeWhile isUrlChar).length
      i + k = 0 ∨ endurl.length ≤ i + k ∧
        (∀ c ∈ (e.text.drop (i + endurl.length)).take (i + k - endurl.length),
          isUrlChar c = true) ∧
        Delimited e.stdout ((e.text.drop i).take (i + k))

theorem delimited_nil (output : List UInt8) : Delimited output [] := ⟨output, [], by simp, by simp⟩

section Cut
variable {text endurl : List UInt8} {i : Nat} {output : List UInt8}

theorem urlAt_eq (hfront : endurl <+: text.drop i) (hall : ∀ c ∈ endurl, isUrlChar c = true) :
    urlAt text i = endurl ++ ((text.drop i).drop endurl.length).takeWhile isUrlChar := by
  obtain ⟨tail, htail⟩ := hfront
  rw [urlAt, ← htail, takeWhile_append_of_pos hall, drop_left]

theorem isEndUrl_urlAt (hfront : endurl <+: text.drop i) (hall : ∀ c ∈ endurl, isUrlChar c = true) :
    IsEndUrl output endurl (urlAt text i) ↔ Delimited output (urlAt text i) := by
  refine and_iff_right ⟨_, urlAt_eq hfront hall, fun c hc => mem_takeWhile_imp hc⟩

theorem cut_eq_urlAt (hlength : text.length ≤ 1024)
    (h : i = 0 ∨ ∀ c ∈ text.drop i, isUrlChar c = true) : cut text i = urlAt text i := by
  by_cases hall : ∀ c ∈ text.drop i, isUrlChar c = true
  · rw [cut_of_all hlength hall, urlAt, takeWhile_eq_self_iff.mpr hall]
  · obtain rfl : i = 0 := h.resolve_right hall
    rw [cut_of_mem hall, urlAt, drop_zero, zero_add]
    exact (prefix_iff_eq_take.mp ( takeWhile_prefix _)).symm

theorem exists_drop_eq (hmem : ¬ ∀ c ∈ text.drop i, isUrlChar c = true) :
    ∃ c tail, text.drop i = urlAt text i ++ c :: tail ∧ isUrlChar c = false := by
  rcases hdrop : (text.drop i).dropWhile isUrlChar with _ | ⟨c, tail⟩
  · exact absurd (dropWhile_eq_nil_iff.mp hdrop) hmem
  · refine ⟨c, tail, ?_, ?_⟩
    · rw [urlAt, ← hdrop, takeWhile_append_dropWhile]
    · have := head?_dropWhile_not isUrlChar (text.drop i)
      rw [hdrop] at this
      simpa using this

theorem not_isEndUrl_cut (hall : ∀ c ∈ endurl, isUrlChar c = true) (hi : i ≠ 0)
    (hmem : ¬ ∀ c ∈ text.drop i, isUrlChar c = true) :
    ¬ (cut text i = [] ∨ IsEndUrl output endurl (cut text i)) := by
  obtain ⟨c, tail, hdrop, hc⟩ := exists_drop_eq hmem
  have htaken : c ∈ cut text i := by
    rw [cut_of_mem hmem, hdrop, take_append, Nat.add_sub_cancel]
    obtain ⟨n, rfl⟩ := Nat.exists_eq_succ_of_ne_zero hi
    simp
  rintro (hempty | ⟨⟨rest, hcut, hrest⟩, -⟩)
  · rw [hempty] at htaken
    cases htaken
  · rw [hcut, mem_append] at htaken
    have hvalid : isUrlChar c = true := htaken.elim (hall c) (hrest c)
    rw [hc] at hvalid
    cases hvalid

theorem urlAt_of_not_all (hfront : endurl <+: text.drop i)
    (hall : ¬ ∀ c ∈ endurl, isUrlChar c = true) :
    urlAt text i = endurl.takeWhile isUrlChar := by
  obtain ⟨tail, htail⟩ := hfront
  rw [urlAt, ← htail, takeWhile_append, if_neg]
  intro hlength
  apply hall
  rw [← takeWhile_eq_self_iff]
  exact ( takeWhile_prefix _).eq_of_length hlength

theorem isEndUrl_cut_iff (hfront : endurl <+: text.drop i)
    (hall : ¬ ∀ c ∈ endurl, isUrlChar c = true) :
    cut text i = [] ∨ IsEndUrl output endurl (cut text i) ↔
      i + (endurl.takeWhile isUrlChar).length = 0 ∨
        endurl.length ≤ i + (endurl.takeWhile isUrlChar).length ∧
        (∀ c ∈ (text.drop (i + endurl.length)).take
          (i + (endurl.takeWhile isUrlChar).length - endurl.length), isUrlChar c = true) ∧
        Delimited output ((text.drop i).take (i + (endurl.takeWhile isUrlChar).length)) := by
  have hmem : ¬ ∀ c ∈ text.drop i, isUrlChar c = true := fun h =>
    hall fun c hc => h c (hfront.subset hc)
  have hne : text.drop i ≠ [] := fun hnil => hmem (by simp [hnil])
  rw [cut_of_mem hmem, urlAt_of_not_all hfront hall, IsEndUrl, take_eq_append_iff hfront,
    drop_drop, take_eq_nil_iff, or_iff_left hne, and_assoc]

end Cut

/-- **The result of the sign-in window** is empty, or the URL that the helper prints, exactly if the
helper fails or the URL is found right. -/
theorem show_url_iff (system : System) (starturl endurl : List UInt8) :
    (show_ system starturl endurl).1 = [] ∨
        IsEndUrl (system.execution starturl endurl).stdout endurl
          (show_ system starturl endurl).1 ↔
      ¬ Succeeds system (system.execution starturl endurl) ∨
        FindsUrl (system.execution starturl endurl) endurl := by
  rw [show_eq system starturl endurl rfl]
  generalize system.execution starturl endurl = e
  by_cases hs : Succeeds system e
  swap
  · rw [if_neg hs]
    exact iff_of_true (.inl rfl) (.inl hs)
  rw [if_pos hs, or_iff_right (not_not_intro hs), FindsUrl]
  rcases hfind : find endurl e.text with _ | i
  · exact iff_of_true (.inl rfl) (by simp)
  rw [Option.map_some, Option.getD_some]
  by_cases hempty : e.text = []
  · refine iff_of_true (.inl ?_) fun i _ hne => absurd hempty hne
    rw [hempty]
    simp [cut]
  have hfront := isPrefix_drop_of_find hfind
  have hone : ∀ P : Nat → Prop, (∀ j, some i = some j → e.text ≠ [] → P j) ↔ P i := fun P =>
    ⟨fun h => h i rfl hempty, fun h j hj _ => Option.some.inj hj ▸ h⟩
  rw [hone]
  by_cases hall : ∀ c ∈ endurl, isUrlChar c = true
  · rw [if_pos (all_eq_true.mpr hall)]
    by_cases hplace : i = 0 ∨ ∀ c ∈ e.text.drop i, isUrlChar c = true
    · rw [cut_eq_urlAt (length_text_le e) hplace, isEndUrl_urlAt hfront hall,
        and_iff_right hplace, or_iff_right_iff_imp]
      intro hnil
      rw [hnil]
      exact delimited_nil _
    · refine iff_of_false ?_ fun h => hplace h.1
      obtain ⟨hi, hmem⟩ := not_or.mp hplace
      exact not_isEndUrl_cut hall hi hmem
  · rw [if_neg fun h => hall (all_eq_true.mp h)]
    exact isEndUrl_cut_iff hfront hall

def printing (text : List UInt8) : System where
  findWebView := ascii "/usr/bin/mcpelauncher-webview"
  execv _ := ⟨true, text, [], text.length, 0, 0⟩

/-- **With something before the URL, what follows the URL is returned, too.** -/
theorem show_url_too_long :
    (show_ (printing (ascii "x https://a b")) [] (ascii "https://a")).1 = ascii "https://a b" ∧
      ¬ ((show_ (printing (ascii "x https://a b")) [] (ascii "https://a")).1 = [] ∨
        IsEndUrl (ascii "x https://a b") (ascii "https://a")
          (show_ (printing (ascii "x https://a b")) [] (ascii "https://a")).1) := by
  have hshown : (show_ (printing (ascii "x https://a b")) [] (ascii "https://a")).1 =
      ascii "https://a" ++ ascii " b" := by decide +kernel
  refine ⟨hshown, ?_⟩
  rw [hshown]
  rintro (hempty | ⟨⟨rest, hrest, hvalid⟩, -⟩)
  · exact absurd hempty (by decide)
  · rw [← append_cancel_left hrest] at hvalid
    exact absurd hvalid (by decide +kernel)

end XalWebView
