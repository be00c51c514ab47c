import Mathlib.Algebra.Group.Int.Defs
import Mathlib.Algebra.Group.Nat.Defs
import McpeLauncher.TextSearch

/-! # HTTP header lines

`curlHeaderHandler` of the telemetry client and `header_callback` of the HTTP client of the game
read a name, a colon, blanks, a value, blanks and CRLF (`HeaderLine`). -/
namespace HttpHeaders
open TextSearch List

def ascii (text : String) : List UInt8 := text.toList.map fun c => UInt8.ofNat c.toNat

abbrev Header := List UInt8 × List UInt8

/-- What leaves the constructors of `std::string`. -/
inductive StringError where
  | lengthError
  | outOfRange
  deriving DecidableEq

def maxSize : Nat := 2 ^ 63 - 1

def memchr (buffer : List UInt8) (c : UInt8) (n : Nat) : Option Nat := (buffer.take n).idxOf? c

/-- The length the handler computes for the value, before it is a `size_t`. -/
def valueLength (total iof : Nat) : Int := (total : Int) - iof - 2 - 2

def stringFrom (buffer : List UInt8) (offset n : Nat) : Except StringError (List UInt8) :=
  if maxSize < n then .error .lengthError else .ok ((buffer.drop offset).take n)

/-- `CurlHttpRequest::curlHeaderHandler`: the headers of the response after it, and what
it returns. -/
def curlHeaderHandler (buffer : List UInt8) (size nitems : Nat) (headers : List Header) :
    Except StringError (List Header × Nat) :=
  match memchr buffer 58 (size * nitems) with
  | none => .ok (headers, nitems * size)
  | some iof => do
    let name ← stringFrom buffer 0 iof
    let value ← stringFrom buffer (iof + 2) (valueLength (size * nitems) iof % 2 ^ 64).toNat
    return (headers ++ [(name, value)], nitems * size)

def isSpace (c : UInt8) : Bool := c == 32 || (9 ≤ c && c ≤ 13)

def ltrim (s : List UInt8) : List UInt8 := s.dropWhile isSpace

def rtrim (s : List UInt8) : List UInt8 := s.rdropWhile isSpace

def trim (s : List UInt8) : List UInt8 := rtrim (ltrim s)

def substr (s : List UInt8) (pos n : Nat) : Except StringError (List UInt8) :=
  if s.length < pos then .error .outOfRange else .ok ((s.drop pos).take n)

def headerCallback (buffer : List UInt8) (size nitems : Nat) (headers : List Header) :
    Except StringError (List Header × Nat) :=
  let string := buffer.take nitems
  match find [58, 32] string with
  | none => .ok (headers, size * nitems)
  | some location => do
    let name ← substr string 0 location
    let value ← substr string (location + 1) string.length
    return (headers ++ [(trim name, trim value)], size * nitems)

def isBlank (c : UInt8) : Bool := c == 32 || c == 9

/-- A name, a colon, blanks, a value, blanks and CRLF; it fits into a string. -/
structure HeaderLine where
  name : List UInt8
  lead : List UInt8
  value : List UInt8
  trail : List UInt8
  no_colon : 58 ∉ name
  lead_blank : ∀ c ∈ lead, isBlank c = true
  trail_blank : ∀ c ∈ trail, isBlank c = true
  first_not_blank : ∀ c, value.head? = some c → isBlank c = false
  last_not_blank : ∀ c, value.getLast? = some c → isBlank c = false
  fits : (name ++ 58 :: (lead ++ value ++ trail ++ [13, 10])).length ≤ maxSize

namespace HeaderLine

/-- What stands between the colon and the line end. -/
def content (h : HeaderLine) : List UInt8 := h.lead ++ h.value ++ h.trail

def bytes (h : HeaderLine) : List UInt8 := h.name ++ 58 :: (h.content ++ [13, 10])

end HeaderLine

/-- Neither end is white space. -/
def Trimmed (s : List UInt8) : Prop :=
  (∀ c, s.head? = some c → isSpace c = false) ∧ ∀ c, s.getLast? = some c → isSpace c = false

theorem trim_eq_self_iff (s : List UInt8) : trim s = s ↔ Trimmed s := strip_eq_self_iff isSpace s

theorem isSpace_of_isBlank {c : UInt8} (h : isBlank c = true) : isSpace c = true := by
  rw [isBlank, Bool.or_eq_true, beq_iff_eq, beq_iff_eq] at h
  rcases h with rfl | rfl
  · decide
  · decide

theorem memchr_eq (line : List UInt8) :
    memchr line 58 line.length =
      if 58 ∈ line then some (line.takeWhile (· ≠ 58)).length else none := by
  rw [memchr, take_length]
  induction line with
  | nil => rfl
  | cons c line ih =>
    rw [idxOf?_cons]
    by_cases hc : c = 58
    · simp [hc]
    · rw [if_neg (by simpa using hc), ih]
      by_cases hmem : 58 ∈ line
      · rw [if_pos hmem, if_pos (mem_cons_of_mem c hmem), takeWhile_cons_of_pos (by simpa using hc)]
        rfl
      · have hnot : 58 ∉ c :: line := by
          rw [mem_cons, not_or]
          exact ⟨Ne.symm hc, hmem⟩
        rw [if_neg hmem, if_neg hnot]
        rfl

/-! ## What each records -/

section Lines
variable (h : HeaderLine) (headers : List Header)

open HeaderLine

theorem memchr_bytes : memchr h.bytes 58 h.bytes.length = some h.name.length := by
  rw [memchr, take_length, bytes]
  exact idxOf?_append h.no_colon _

theorem curlHeaderHandler_bytes :
    curlHeaderHandler h.bytes 1 h.bytes.length headers =
      if h.content = [] then .error .lengthError
      else .ok (headers ++ [(h.name, h.content.drop 1)], h.bytes.length) := by
  have hbytes : h.bytes.length = h.name.length + (h.content.length + 3) := by
    simp [bytes]
  have hfits : h.bytes.length ≤ maxSize := h.fits
  have hname : h.name.length ≤ maxSize := by omega
  have hfirst : stringFrom h.bytes 0 h.name.length = .ok h.name := by
    rw [stringFrom, if_neg (Nat.not_lt.mpr hname)]
    simp [bytes]
  rw [curlHeaderHandler, one_mul, memchr_bytes]
  simp only [hfirst]
  by_cases hnil : h.content = []
  · have hneg : (valueLength h.bytes.length h.name.length % 2 ^ 64).toNat = 2 ^ 64 - 1 := by
      rw [valueLength, hbytes, hnil]
      simp only [length_nil]
      omega
    have hthrow : stringFrom h.bytes (h.name.length + 2) (2 ^ 64 - 1) = .error .lengthError := by
      rw [stringFrom, if_pos (by decide)]
    rw [hneg, if_pos hnil, hthrow]
    rfl
  · have hpos : 0 < h.content.length := length_pos_iff.mpr hnil
    have hlen : (valueLength h.bytes.length h.name.length % 2 ^ 64).toNat =
        h.content.length - 1 := by
      rw [valueLength, hbytes]
      rw [maxSize] at hfits
      omega
    have hvalue : stringFrom h.bytes (h.name.length + 2) (h.content.length - 1) =
        .ok (h.content.drop 1) := by
      obtain ⟨c, content, hcontent⟩ := exists_cons_of_ne_nil hnil
      rw [stringFrom, if_neg (by omega), bytes, hcontent]
      simp
    rw [hlen, if_neg hnil, hvalue, mul_one]
    rfl

theorem substr_front (s : List UInt8) (n : Nat) : substr s 0 n = .ok (s.take n) := by
  rw [substr, if_neg (Nat.not_lt_zero _), drop_zero]

theorem substr_back {s : List UInt8} {pos : Nat} (hpos : pos ≤ s.length) :
    substr s pos s.length = .ok (s.drop pos) := by
  rw [substr, if_neg (Nat.not_lt.mpr hpos), take_of_length_le (by simp)]

/-- `header_callback` never computes a length that is negative. -/
theorem headerCallback_eq (line : List UInt8) :
    headerCallback line 1 line.length headers =
      .ok (headers ++ ((find [58, 32] line).map fun location =>
        (trim (line.take location), trim (line.drop (location + 1)))).toList, line.length) := by
  rw [headerCallback, take_length, one_mul]
  rcases hfind : find [58, 32] line with _ | location
  · simp
  · have hle := find_le hfind
    simp only [length_cons, length_nil] at hle
    simp only [substr_front, substr_back (show location + 1 ≤ line.length by omega)]
    rfl

theorem trim_content : trim (h.content ++ [13, 10]) = trim h.value := by
  rw [content, append_assoc (h.lead ++ h.value)]
  refine strip_append isSpace (fun c hc => isSpace_of_isBlank (h.lead_blank c hc)) h.value ?_
  intro c hc
  rcases mem_append.mp hc with hc | hc
  · exact isSpace_of_isBlank (h.trail_blank c hc)
  · simp only [mem_cons, not_mem_nil, or_false] at hc
    rcases hc with rfl | rfl
    · decide
    · decide

theorem headerCallback_bytes :
    headerCallback h.bytes 1 h.bytes.length headers =
        .ok (headers ++ [(h.name, h.value)], h.bytes.length) ↔
      h.content.head? = some 32 ∧ Trimmed h.name ∧ Trimmed h.value := by
  have hhead : (h.content ++ [13, 10]).head? = some 32 ↔ h.content.head? = some 32 := by
    cases h.content with
    | nil => simp
    | cons c content => simp
  rw [headerCallback_eq, ← trim_eq_self_iff, ← trim_eq_self_iff]
  by_cases hspace : h.content.head? = some 32
  · have hfind : find [58, 32] h.bytes = some h.name.length := by
      rw [bytes, find_pair h.no_colon, if_pos (hhead.mpr hspace)]
    have htake : h.bytes.take h.name.length = h.name := by simp [bytes]
    have hdrop : h.bytes.drop (h.name.length + 1) = h.content ++ [13, 10] := by
      simp [bytes]
    rw [hfind, Option.map_some, Option.toList_some, htake, hdrop, trim_content]
    simp [hspace]
  · -- another colon is found, or none
    refine iff_of_false (fun heq => ?_) fun hall => hspace hall.1
    have hfind : find [58, 32] h.bytes =
        (find [58, 32] (h.content ++ [13, 10])).map (· + (h.name.length + 1)) := by
      rw [bytes, find_pair h.no_colon, if_neg fun hh => hspace (hhead.mp hh)]
    rw [hfind] at heq
    rcases hrest : find [58, 32] (h.content ++ [13, 10]) with _ | k
    · simp [hrest] at heq
    · rw [hrest] at heq
      simp only [Option.map_some, Option.toList_some, Except.ok.injEq, Prod.mk.injEq,
        append_cancel_left_eq, cons.injEq, and_true] at heq
      have hcolon : 58 ∈ h.bytes.take (k + (h.name.length + 1)) := by
        refine mem_take_iff_getElem.mpr ⟨h.name.length, ?_, ?_⟩
        · simp only [bytes, length_append, length_cons]
          omega
        · simp [bytes]
      have hmem := mem_strip isSpace hcolon (by decide)
      exact h.no_colon (heq.1 ▸ hmem)

end Lines

/-- **Where the two clients record the same**: one space before the value and no white space behind.
The telemetry client computes no negative length exactly if three bytes follow the first colon. -/
theorem header_parsers_iff (h : HeaderLine) (line : List UInt8) (headers : List Header) :
    ((curlHeaderHandler h.bytes 1 h.bytes.length headers =
          .ok (headers ++ [(h.name, h.value)], h.bytes.length) ∧
        headerCallback h.bytes 1 h.bytes.length headers =
          .ok (headers ++ [(h.name, h.value)], h.bytes.length)) ↔
      h.content = 32 :: h.value ∧ Trimmed h.name ∧ Trimmed h.value) ∧
    (((∀ iof, memchr line 58 line.length = some iof → 0 ≤ valueLength line.length iof) ∧
        ∃ r, headerCallback line 1 line.length headers = .ok r) ↔
      (58 ∈ line → 4 ≤ (line.dropWhile (· ≠ 58)).length)) := by
  refine ⟨?_, ?_⟩
  · rw [curlHeaderHandler_bytes, headerCallback_bytes]
    constructor
    · rintro ⟨hcurl, hspace, hname, hvalue⟩
      refine ⟨?_, hname, hvalue⟩
      obtain ⟨content, hcontent⟩ := head?_eq_some_iff.mp hspace
      rw [hcontent] at hcurl ⊢
      simpa using hcurl
    · rintro ⟨hcontent, hname, hvalue⟩
      rw [hcontent]
      exact ⟨by simp, rfl, hname, hvalue⟩
  · have hlen : line.length =
        (line.takeWhile (· ≠ 58)).length + (line.dropWhile (· ≠ 58)).length := by
      rw [← length_append, takeWhile_append_dropWhile]
    rw [headerCallback_eq, memchr_eq]
    by_cases hmem : 58 ∈ line
    · simp only [hmem, if_true, Option.some.injEq, forall_eq', valueLength, forall_const]
      refine ⟨fun hnonneg => ?_, fun hfour => ⟨?_, _, rfl⟩⟩
      · omega
      · omega
    · simp [hmem]

/-- A line without a blank, one without a value, and one with a blank behind the value. -/
theorem header_parsers_differ :
    (curlHeaderHandler (ascii "a:bc\r\n") 1 6 [] = .ok ([(ascii "a", ascii "c")], 6) ∧
      headerCallback (ascii "a:bc\r\n") 1 6 [] = .ok ([], 6)) ∧
    (curlHeaderHandler (ascii "a:\r\n") 1 4 [] = .error .lengthError ∧
      valueLength 4 1 = -1) ∧
    curlHeaderHandler (ascii "a: b \r\n") 1 7 [] = .ok ([(ascii "a", ascii "b ")], 7) ∧
      headerCallback (ascii "a: b \r\n") 1 7 [] = .ok ([(ascii "a", ascii "b")], 7) :=
  ⟨⟨rfl, rfl⟩, ⟨rfl, rfl⟩, rfl, rfl⟩

end HttpHeaders
