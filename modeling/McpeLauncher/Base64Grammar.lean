import McpeLauncher.Base64

/-! # Which texts the decoder takes

What `Base64::decode` makes of a text depends only on the kinds of its characters: `Phase` is the
place in a group, `Phase.next` what may stand there (`decode_verdict`). -/
namespace Base64
open List

/-! ## Kinds of characters -/

inductive Symbol where
  | data
  | pad
  | skipped
  | invalid
  | foreign
  deriving DecidableEq

/-- The kind of a character; `foreign` has no entry in the table. -/
def symbol (charSigned : Bool) (skip : List UInt8) (c : UInt8) : Symbol :=
  match reverseEntry charSigned c with
  | none => .foreign
  | some v =>
    if v = 255 then if strchr skip c then .skipped else .invalid
    else if v = 64 then .pad else .data

/-- How many characters of a group have been read; `padded` is the last place, after `'='`. -/
inductive Phase where
  | start
  | one
  | two
  | three
  | padded
  deriving DecidableEq

namespace Phase

/-- The place after a character, if it may stand here. -/
def next : Phase → Symbol → Option Phase
  | ph, .skipped => some ph
  | .start, .data => some .one
  | .one, .data => some .two
  | .two, .data => some .three
  | .two, .pad => some .padded
  | .three, .data | .three, .pad | .padded, .pad => some .start
  | _, _ => none

/-- The place after some characters, if each may stand where it does. -/
def run : Phase → List Symbol → Option Phase
  | ph, [] => some ph
  | ph, s :: rest => (ph.next s).bind fun ph => ph.run rest

inductive Verdict where
  | accepted
  | rejected
  | outside
  deriving DecidableEq

/-- A text that ends inside a group is read beyond its end; one that ends with a skipped character
is rejected. -/
def verdict : Phase → List Symbol → Verdict
  | ph, [] => if ph = .start then .accepted else .outside
  | ph, s :: rest =>
    if s = .foreign then .outside
    else if s = .skipped then if rest = [] then .rejected else ph.verdict rest
    else match ph.next s with
      | none => .rejected
      | some ph => ph.verdict rest

/-- Some character may not stand where it does, or the last one is skipped. -/
def Rejects (ph : Phase) (text : List Symbol) : Prop :=
  ∃ front s rest ph', text = front ++ s :: rest ∧ ph.run front = some ph' ∧ s ≠ .foreign ∧
    (ph'.next s = none ∨ s = .skipped ∧ rest = [])

@[simp] theorem next_skipped (ph : Phase) : ph.next .skipped = some ph := by cases ph <;> rfl

@[simp] theorem next_foreign (ph : Phase) : ph.next .foreign = none := by cases ph <;> rfl

variable {ph : Phase}

/-- Before the first character that is read: the rest decides. -/
theorem rejects_cons {ph' : Phase} {s : Symbol} (h : ph.next s = some ph') (text : List Symbol)
    (hmore : s = .skipped → text ≠ []) : ph.Rejects (s :: text) ↔ ph'.Rejects text := by
  constructor
  · rintro ⟨front, s', rest, ph'', heq, hrun, hs', hstop⟩
    cases front with
    | nil =>
      obtain ⟨rfl, rfl⟩ := cons.inj heq
      cases hrun
      rcases hstop with hnone | ⟨hskip, hnil⟩
      · rw [h] at hnone
        cases hnone
      · exact absurd hnil (hmore hskip)
    | cons a front =>
      obtain ⟨rfl, rfl⟩ := cons.inj heq
      rw [run, h] at hrun
      exact ⟨front, s', rest, ph'', rfl, hrun, hs', hstop⟩
  · rintro ⟨front, s', rest, ph'', rfl, hrun, hs', hstop⟩
    refine ⟨s :: front, s', rest, ph'', rfl, ?_, hs', hstop⟩
    rw [run, h]
    exact hrun

theorem verdict_rejected_iff (ph : Phase) (text : List Symbol) :
    ph.verdict text = .rejected ↔ ph.Rejects text := by
  have hnil : ∀ ph : Phase, ¬ ph.Rejects [] := by
    rintro ph ⟨front, s, rest, ph', heq, -⟩
    simp at heq
  fun_induction verdict ph text with
  | case1 => exact iff_of_false (by decide) (hnil _)
  | case2 => exact iff_of_false (by decide) (hnil _)
  | case3 ph rest =>
    refine iff_of_false (by decide) ?_
    rintro ⟨front, s, rest', ph', heq, hrun, hs, -⟩
    cases front with
    | nil => exact hs (cons.inj heq).1.symm
    | cons a front =>
      rw [← (cons.inj heq).1, run, next_foreign] at hrun
      cases hrun
  | case4 ph hforeign =>
    exact iff_of_true rfl ⟨[], .skipped, [], ph, rfl, rfl, hforeign, .inr ⟨rfl, rfl⟩⟩
  | case5 ph rest hmore _ ih =>
    exact ih.trans (rejects_cons (next_skipped ph) rest fun _ => hmore).symm
  | case6 ph s rest hforeign _ hnext =>
    exact iff_of_true rfl ⟨[], s, rest, ph, rfl, rfl, hforeign, .inl hnext⟩
  | case7 ph s rest _ hskip ph' hnext ih =>
    rw [rejects_cons hnext rest fun h => absurd h hskip]
    exact ih

theorem run_of_accepted {text : List Symbol} (h : ph.verdict text = .accepted) :
    ph.run text = some .start ∧ text.getLast? ≠ some .skipped := by
  fun_induction verdict ph text with
  | case1 => exact ⟨rfl, by simp⟩
  | case2 | case3 | case4 | case6 => cases h
  | case5 ph rest hmore _ ih =>
    rw [run, next_skipped, getLast?_cons_of_ne_nil hmore]
    exact ih h
  | case7 ph s rest _ hskip ph' hnext ih =>
    obtain ⟨hrun, hend⟩ := ih h
    rw [run, hnext]
    refine ⟨hrun, ?_⟩
    by_cases hnil : rest = []
    · simpa [hnil] using hskip
    · rw [getLast?_cons_of_ne_nil hnil]
      exact hend

/-- Whole groups are never read beyond their end. -/
theorem verdict_of_run {text : List Symbol} (h : ph.run text = some .start) :
    ph.verdict text ≠ .outside := by
  fun_induction verdict ph text with
  | case1 | case4 | case6 => decide
  | case2 ph hph => exact absurd (Option.some.inj h) hph
  | case3 ph rest => cases h
  | case5 ph rest _ _ ih => exact ih h
  | case7 ph s rest _ _ ph' hnext ih =>
    rw [run, hnext] at h
    exact ih h

theorem no_foreign_of_run {ph' : Phase} {text : List Symbol} (h : ph.run text = some ph') :
    Symbol.foreign ∉ text := by
  induction text generalizing ph with
  | nil => exact not_mem_nil
  | cons s rest ih =>
    obtain ⟨ph'', hnext, hrest⟩ := Option.bind_eq_some_iff.mp h
    rw [mem_cons, not_or]
    refine ⟨?_, ih hrest⟩
    rintro rfl
    cases hnext

end Phase

/-! ## The decoder follows the phases -/

/-- The phase in which the values of the group that has been begun leave the decoder. -/
def phaseOf : List UInt8 → Phase
  | [_] => .one
  | [_, _] => .two
  | [_, _, v] => if v = 64 then .padded else .three
  | _ => .start

def verdictOf {α : Type} : Except Stop α → Phase.Verdict
  | .ok _ => .accepted
  | .error (.threw _) => .rejected
  | .error .outside => .outside

variable {vals : List UInt8} {c : UInt8}

section Decoder
variable {charSigned : Bool} {skip input : List UInt8} {v : UInt8}

def kindOf (v : UInt8) : Symbol := if v = 64 then .pad else .data

theorem symbol_of_value (h : reverseEntry charSigned c = some v) (hv : v ≠ 255) :
    symbol charSigned skip c = kindOf v := by
  simp [symbol, h, hv, kindOf]

theorem kindOf_ne : kindOf v ≠ .foreign ∧ kindOf v ≠ .skipped := by
  by_cases hv : v = 64
  · simp [kindOf, hv]
  · simp [kindOf, hv]

@[elab_as_elim]
theorem group_cases {motive : List UInt8 → Prop} (hlen : vals.length ≤ 3) (none : motive [])
    (one : ∀ a, motive [a]) (two : ∀ a b, motive [a, b]) (three : ∀ a b c, motive [a, b, c]) :
    motive vals := by
  rcases vals with _ | ⟨a, _ | ⟨b, _ | ⟨c, _ | ⟨d, vals⟩⟩⟩⟩
  · exact none
  · exact one a
  · exact two a b
  · exact three a b c
  · simp only [length_cons] at hlen
    omega

open Phase

theorem next_kindOf (hlen : vals.length ≤ 3) (v : UInt8) :
    (phaseOf vals).next (kindOf v) =
      if misplaced vals.length (vals.getLast?.getD 0) v then none
      else some (phaseOf (vals ++ [v])) := by
  by_cases hv : v = 64
  all_goals
    refine group_cases hlen ?_ (fun a => ?_) (fun a b => ?_) (fun a b c => ?_)
    iterate 3 simp [kindOf, phaseOf, misplaced, Phase.next, hv]
    by_cases hc : c = 64
    all_goals simp [kindOf, phaseOf, misplaced, Phase.next, hv, hc]

theorem put_concat (hlen : vals.length ≤ 3) (v : UInt8) :
    ∃ emitted vals' : List UInt8, vals'.length ≤ 3 ∧ phaseOf vals' = phaseOf (vals ++ [v]) ∧
      ∀ next, put (vals ++ [v]) next = (emitted ++ ·) <$> next vals' := by
  have hid : ∀ r : Except Stop (List UInt8), r = ([] ++ ·) <$> r := fun r => (id_map r).symm
  refine group_cases hlen ?_ (fun a => ?_) (fun a b => ?_) (fun a b c => ?_)
  · exact ⟨[], [v], by simp, rfl, fun next => hid _⟩
  · exact ⟨[], [a, v], by simp, rfl, fun next => hid _⟩
  · exact ⟨[], [a, b, v], le_refl 3, rfl, fun next => hid _⟩
  · exact ⟨groupBytes a b c v, [], Nat.zero_le 3, rfl, fun next => rfl⟩

theorem verdictOf_map {α β : Type} (f : α → β) (r : Except Stop α) :
    verdictOf (f <$> r) = verdictOf r := by
  rcases r with (e | _) | a
  · rfl
  · rfl
  · rfl

theorem phaseOf_eq_start (hlen : vals.length ≤ 3) : phaseOf vals = .start ↔ vals = [] := by
  refine group_cases hlen ?_ (fun a => ?_) (fun a b => ?_) (fun a b c => ?_)
  · simp [phaseOf]
  · simp [phaseOf]
  · simp [phaseOf]
  · by_cases hc : c = 64
    · simp [phaseOf, hc]
    · simp [phaseOf, hc]

theorem scan_verdict (hlen : vals.length ≤ 3) (p : Nat) (input : List UInt8) :
    verdictOf (scan charSigned skip vals p input) =
      (phaseOf vals).verdict (input.map (symbol charSigned skip)) := by
  induction input generalizing vals p with
  | nil =>
    simp only [scan, map_nil, verdict, phaseOf_eq_start hlen]
    by_cases hvals : vals = []
    · rw [if_pos hvals, if_pos hvals]
      rfl
    · rw [if_neg hvals, if_neg hvals]
      rfl
  | cons c rest ih =>
    rw [scan, map_cons, verdict]
    rcases hentry : reverseEntry charSigned c with _ | v
    · simp [examine, symbol, hentry, verdictOf]
    by_cases h255 : v = 255
    · by_cases hskip : strchr skip c = true
      · have hkind : symbol charSigned skip c = .skipped := by simp [symbol, hentry, h255, hskip]
        have hexamine : ∀ n prev, examine charSigned skip n prev p c = .ok none := by
          simp [examine, hentry, h255, hskip]
        by_cases hnil : rest = []
        · simp [hexamine, hkind, hnil, verdictOf]
        · simp only [hexamine, hkind, map_eq_nil_iff, hnil]
          exact ih hlen (p + 1)
      · have hkind : symbol charSigned skip c = .invalid := by simp [symbol, hentry, h255, hskip]
        have hnone : (phaseOf vals).next .invalid = none := by cases phaseOf vals <;> rfl
        simp [examine, hentry, h255, hskip, hkind, hnone, verdictOf]
    · obtain ⟨hforeign, hskipped⟩ := kindOf_ne (v := v)
      rw [symbol_of_value hentry h255, if_neg hforeign, if_neg hskipped,
        next_kindOf hlen]
      by_cases hplace : misplaced vals.length (vals.getLast?.getD 0) v = true
      · simp [examine, hentry, h255, hplace, verdictOf]
      · obtain ⟨emitted, vals', hlen', hphase, hput⟩ := put_concat hlen v
        have hexamine : examine charSigned skip vals.length (vals.getLast?.getD 0) p c =
            .ok (some v) := by simp [examine, hentry, h255, hplace]
        rw [hexamine, if_neg hplace]
        show verdictOf (put (vals ++ [v]) _) = _
        rw [hput, verdictOf_map, ih hlen' (p + 1), hphase]

/-- **The decoder ends as the phases say.** -/
theorem decode_verdict (input : List UInt8) :
    verdictOf (decode charSigned skip input) =
      Phase.start.verdict (input.map (symbol charSigned skip)) := by
  rw [decode_eq_scan]
  have hlen : ([] : List UInt8).length ≤ 3 := Nat.zero_le 3
  exact scan_verdict hlen 0 input

theorem decode_ok_iff (input : List UInt8) :
    (∃ out, decode charSigned skip input = .ok out) ↔
      Phase.start.verdict (input.map (symbol charSigned skip)) = .accepted := by
  rw [← decode_verdict]
  rcases decode charSigned skip input with (e | _) | out
  · simp [verdictOf]
  · simp [verdictOf]
  · simp [verdictOf]

theorem decode_threw_iff (input : List UInt8) :
    (∃ e, decode charSigned skip input = .error (.threw e)) ↔
      Phase.start.Rejects (input.map (symbol charSigned skip)) := by
  rw [← verdict_rejected_iff, ← decode_verdict]
  rcases decode charSigned skip input with (e | _) | out
  · simp [verdictOf]
  · simp [verdictOf]
  · simp [verdictOf]

/-! ## Whole groups -/

theorem symbol_foreign_iff (c : UInt8) :
    symbol charSigned skip c = .foreign ↔ charSigned = true ∧ 128 ≤ c := by
  rw [← reverseEntry_eq_none_iff]
  rcases hentry : reverseEntry charSigned c with _ | v
  · simp [symbol, hentry]
  · by_cases hv : v = 255
    · by_cases hskip : strchr skip c = true
      · simp [symbol, hentry, hv, hskip]
      · simp [symbol, hentry, hv, hskip]
    · simp [symbol_of_value hentry hv, kindOf_ne.1]

theorem mem_of_value (h : reverseEntry charSigned c = some v) (hv : v ≠ 255) :
    c ∈ table ++ [61] := by
  have hall : ∀ n < 256, reverseTable[n]? = some 255 ∨ UInt8.ofNat n ∈ table ++ [61] := by
    decide +kernel
  rw [reverseEntry] at h
  split at h
  · cases h
  · rcases hall c.toNat c.toNat_lt with hnone | hmem
    · rw [hnone] at h
      exact absurd (Option.some.inj h).symm hv
    · rwa [UInt8.ofNat_toNat] at hmem

theorem exists_charOf (h : c ∈ table) : ∃ v < 64, charOf v = c := by
  obtain ⟨n, hn, hget⟩ := mem_iff_getElem.mp h
  have hlt : n < 64 := length_table ▸ hn
  have hnat : (UInt8.ofNat n).toNat = n := by exact Nat.mod_eq_of_lt (by omega)
  have hv : UInt8.ofNat n < 64 := by
    rw [UInt8.lt_iff_toNat_lt, hnat]
    exact hlt
  refine ⟨UInt8.ofNat n, hv, ?_⟩
  rw [charOf_of_lt hv, hnat, getD_eq_getElem?_getD, getElem?_eq_getElem hn, hget]
  rfl

theorem symbol_of_mem_table (h : c ∈ table) : symbol charSigned skip c = .data := by
  obtain ⟨v, hlt, rfl⟩ := exists_charOf h
  have h255 : v ≠ 255 := by
    rintro rfl
    exact absurd hlt (by decide)
  rw [symbol_of_value (reverseEntry_charOf (UInt8.le_of_lt hlt)) h255,
    kindOf, if_neg (ne_pad hlt)]

theorem symbol_pad : symbol charSigned skip 61 = .pad := by
  have hentry : reverseEntry charSigned 61 = some 64 := by
    rw [← charOf_pad]
    exact reverseEntry_charOf (by decide)
  simp [symbol, hentry]

section
variable (skip : List UInt8)

/-- A skip character; one that is in the alphabet is none. -/
def isSkip (c : UInt8) : Bool := skip.contains c && !(table ++ [61]).contains c

/-- The text without its skip characters. -/
def plain (input : List UInt8) : List UInt8 := input.filter fun c => !isSkip skip c

/-- Whole groups of four, and padding only at the end. -/
def WholeGroups (input : List UInt8) : Prop :=
  (plain skip input).length % 4 = 0 ∧
    (plain skip input).dropWhile table.contains ∈ ([[], [61], [61, 61]] : List (List UInt8))

instance (input : List UInt8) : Decidable (WholeGroups skip input) :=
  inferInstanceAs (Decidable (_ ∧ _))

end

theorem entry_of_not_mem (hmem : c ∉ table ++ [61]) (hascii : charSigned = true → c < 128) :
    reverseEntry charSigned c = some 255 := by
  rcases hentry : reverseEntry charSigned c with _ | v
  · obtain ⟨hsigned, hhigh⟩ := (reverseEntry_eq_none_iff charSigned c).mp hentry
    exact absurd hhigh (UInt8.not_le.mpr (hascii hsigned))
  · by_cases hv : v = 255
    · rw [hv]
    · exact absurd (mem_of_value hentry hv) hmem

theorem symbol_of_isSkip (h : isSkip skip c = true) (hascii : charSigned = true → c < 128) :
    symbol charSigned skip c = .skipped := by
  rw [isSkip, Bool.and_eq_true] at h
  obtain ⟨hskip, hout⟩ := h
  have hmem : c ∉ table ++ [61] := by
    intro hc
    rw [contains_eq_mem, decide_eq_true hc] at hout
    cases hout
  have hchr : strchr skip c = true := by rw [strchr, hskip, Bool.true_or]
  simp [symbol, entry_of_not_mem hmem hascii, hchr]

theorem Phase.run_filter (ph : Phase) (text : List Symbol) :
    ph.run (text.filter (· ≠ .skipped)) = ph.run text := by
  induction text generalizing ph with
  | nil => rfl
  | cons s rest ih =>
    by_cases hs : s = .skipped
    · rw [filter_cons_of_neg (by simpa using hs), ih, hs, run, next_skipped]
      rfl
    · rw [filter_cons_of_pos (by simpa using hs), run, run]
      congr 1
      funext ph
      exact ih ph

/-- The place after so many characters of the alphabet. -/
def Phase.after (n : Nat) : Phase :=
  match n % 4 with
  | 0 => .start
  | 1 => .one
  | 2 => .two
  | _ => .three

theorem Phase.next_after (n : Nat) : (after n).next .data = some (after (n + 1)) := by
  have hcases : n % 4 = 0 ∨ n % 4 = 1 ∨ n % 4 = 2 ∨ n % 4 = 3 := by omega
  rcases hcases with h | h | h | h
  · simp [after, h, next, show (n + 1) % 4 = 1 by omega]
  · simp [after, h, next, show (n + 1) % 4 = 2 by omega]
  · simp [after, h, next, show (n + 1) % 4 = 3 by omega]
  · simp [after, h, next, show (n + 1) % 4 = 0 by omega]

theorem Phase.run_data (n k : Nat) (rest : List Symbol) :
    (after n).run (replicate k .data ++ rest) = (after (n + k)).run rest := by
  induction k generalizing n with
  | zero => rfl
  | succ k ih =>
    rw [replicate_succ, cons_append, run, next_after]
    show (after (n + 1)).run _ = _
    rw [ih, add_assoc, add_comm 1 k]

theorem WholeGroups.parts (h : WholeGroups skip input) :
    ∃ data pad, plain skip input = data ++ pad ∧ (∀ c ∈ data, c ∈ table) ∧
      (pad = [] ∨ pad = [61] ∨ pad = [61, 61]) ∧ (data.length + pad.length) % 4 = 0 := by
  obtain ⟨hlen, htail⟩ := h
  refine ⟨(plain skip input).takeWhile table.contains,
    (plain skip input).dropWhile table.contains, takeWhile_append_dropWhile.symm, ?_, ?_, ?_⟩
  · intro c hc
    exact contains_iff_mem.mp (all_eq_true.mp all_takeWhile c hc)
  · simpa using htail
  · rw [← length_append, takeWhile_append_dropWhile]
    exact hlen

theorem filter_symbols {data pad : List UInt8} (hplain : plain skip input = data ++ pad)
    (hdata : ∀ c ∈ data, c ∈ table) (hpad : ∀ c ∈ pad, c = 61)
    (hascii : charSigned = true → ∀ c ∈ input, c < 128) :
    (input.map (symbol charSigned skip)).filter (· ≠ .skipped) =
      replicate data.length .data ++ replicate pad.length .pad := by
  have hkept : ∀ c ∈ input, decide (symbol charSigned skip c ≠ .skipped) = !isSkip skip c := by
    intro c hc
    cases hskip : isSkip skip c with
    | true =>
      have hs := symbol_of_isSkip hskip fun hsigned => hascii hsigned c hc
      simp [hs]
    | false =>
      have hmem : c ∈ data ++ pad := by
        rw [← hplain]
        exact mem_filter.mpr ⟨hc, by simp [hskip]⟩
      rcases mem_append.mp hmem with hmem | hmem
      · simp [symbol_of_mem_table (hdata c hmem)]
      · simp [hpad c hmem, symbol_pad]
  rw [filter_map]
  show (input.filter fun c => decide (symbol charSigned skip c ≠ .skipped)).map _ = _
  rw [filter_congr hkept]
  show (plain skip input).map _ = _
  rw [hplain, map_append]
  congr 1
  · exact map_eq_replicate_iff.mpr fun c hc => symbol_of_mem_table (hdata c hc)
  · refine map_eq_replicate_iff.mpr fun c hc => ?_
    rw [hpad c hc, symbol_pad]

theorem run_of_wholeGroups (h : WholeGroups skip input)
    (hascii : charSigned = true → ∀ c ∈ input, c < 128) :
    Phase.start.run (input.map (symbol charSigned skip)) = some .start := by
  obtain ⟨data, pad, hplain, hdata, hpad, hlen⟩ := h.parts
  have hpad' : ∀ c ∈ pad, c = 61 := by
    rcases hpad with rfl | rfl | rfl
    · simp
    · simp
    · simp
  rw [← Phase.run_filter, filter_symbols hplain hdata hpad' hascii]
  show (Phase.after 0).run _ = _
  rw [Phase.run_data, zero_add]
  rcases hpad with rfl | rfl | rfl
  · simp only [length_nil, add_zero] at hlen
    simp [Phase.after, hlen, Phase.run]
  · have hthree : data.length % 4 = 3 := by
      simp only [length_singleton] at hlen
      omega
    simp [Phase.after, hthree, Phase.run, Phase.next]
  · have htwo : data.length % 4 = 2 := by
      simp only [length_cons, length_nil] at hlen
      omega
    simp [Phase.after, htwo, Phase.run, Phase.next]

variable (charSigned skip) in
/-- **The decoder is safe and strict exactly for** texts of whole groups with entries in the table,
and those in which a misplaced or a last skipped character is met. -/
theorem decode_strict_iff (input : List UInt8) :
    ((∃ e, decode charSigned skip input = .error (.threw e)) ∨
      (∃ out, decode charSigned skip input = .ok out) ∧ WholeGroups skip input) ↔
    Phase.start.Rejects (input.map (symbol charSigned skip)) ∨
      WholeGroups skip input ∧ (charSigned = true → ∀ c ∈ input, c < 128) := by
  constructor
  · rintro (hthrew | ⟨hok, hgroups⟩)
    · exact .inl ((decode_threw_iff input).mp hthrew)
    · refine .inr ⟨hgroups, fun hsigned c hc => ?_⟩
      rw [decode_ok_iff] at hok
      have hforeign := no_foreign_of_run (run_of_accepted hok).1
      by_contra hhigh
      refine hforeign (mem_map.mpr ⟨c, hc, ?_⟩)
      exact (symbol_foreign_iff c).mpr ⟨hsigned, UInt8.not_lt.mp hhigh⟩
  · rintro (hrejects | ⟨hgroups, hascii⟩)
    · exact .inl ((decode_threw_iff input).mpr hrejects)
    · have hinside := verdict_of_run (run_of_wholeGroups hgroups hascii)
      rw [decode_threw_iff, decode_ok_iff, ← verdict_rejected_iff]
      cases hverdict : Phase.start.verdict (input.map (symbol charSigned skip)) with
      | accepted => exact .inr ⟨rfl, hgroups⟩
      | rejected => exact .inl rfl
      | outside => exact absurd hverdict hinside

end Decoder

def ascii (text : String) : List UInt8 := text.toList.map fun c => UInt8.ofNat c.toNat

/-- **A text that ends inside a group** is read beyond its end, **a byte from 128 on**
beyond the table; **a group after a padded one** and **a NUL** inside a group are
taken. -/
theorem decode_not_strict :
    decode true (ascii "\r\n") (ascii "TQ") = .error .outside ∧
    decode true (ascii "\r\n") [200] = .error .outside ∧
    (decode true (ascii "\r\n") (ascii "TQ==TQ==") = .ok (ascii "MM") ∧
      ¬ WholeGroups (ascii "\r\n") (ascii "TQ==TQ==")) ∧
    decode true (ascii "\r\n") (84 :: 0 :: ascii "Q==") = .ok (ascii "M") ∧
      ¬ WholeGroups (ascii "\r\n") (84 :: 0 :: ascii "Q==") := by
  decide +kernel

/-! ## Skip characters -/

/-- Skip characters outside the alphabet. -/
structure SkipChars where
  chars : List UInt8
  outside : ∀ c ∈ chars, c ∉ table ++ [61]

/-- The second text is the first with characters of `skip` inserted. -/
inductive Inserted (skip : List UInt8) : List UInt8 → List UInt8 → Prop
  | nil : Inserted skip [] []
  | keep (c : UInt8) {text longer} : Inserted skip text longer →
      Inserted skip (c :: text) (c :: longer)
  | insert {c : UInt8} {text longer} : c ∈ skip → Inserted skip text longer →
      Inserted skip text (c :: longer)

section Skip
variable {charSigned : Bool} {skip : SkipChars} {chars longer out : List UInt8} {p : Nat}

theorem Inserted.ne_nil {text : List UInt8} (h : Inserted chars text longer) (hne : text ≠ []) :
    longer ≠ [] := by
  cases h with
  | nil => exact hne
  | keep c h => exact cons_ne_nil _ _
  | insert hc h => exact cons_ne_nil _ _

theorem examine_of_skip (hc : c ∈ skip.chars) (hascii : charSigned = true → c < 128) (n : Nat)
    (prev : UInt8) (p : Nat) : examine charSigned skip.chars n prev p c = .ok none := by
  have hchr : strchr skip.chars c = true := by rw [strchr, contains_iff_mem.mpr hc, Bool.true_or]
  simp [examine, entry_of_not_mem (skip.outside c hc) hascii, hchr]

theorem examine_ok {n : Nat} {prev : UInt8} {r : Option UInt8}
    (h : examine charSigned chars n prev p c = .ok r) (p' : Nat) :
    examine charSigned chars n prev p' c = .ok r := by
  rw [examine] at h ⊢
  rcases hentry : reverseEntry charSigned c with _ | v
  · rw [hentry] at h
    cases h
  · rw [hentry] at h
    by_cases hv : v = 255
    · by_cases hchr : strchr chars c = true
      · simpa [hv, hchr] using h
      · simp [hv, hchr] at h
    · simpa [hv] using h

theorem scan_keep {text : List UInt8} (hne : text ≠ [] → longer ≠ [])
    (hrest : ∀ {vals : List UInt8} {p : Nat} {out : List UInt8}, vals.length ≤ 3 →
      scan charSigned chars vals p text = .ok out →
        ∀ p', scan charSigned chars vals p' longer = .ok out) (hlen : vals.length ≤ 3)
    (h : scan charSigned chars vals p (c :: text) = .ok out) (p' : Nat) :
    scan charSigned chars vals p' (c :: longer) = .ok out := by
  rw [scan] at h ⊢
  rcases hexamine : examine charSigned chars vals.length (vals.getLast?.getD 0) p c
    with e | _ | v
  · rw [hexamine] at h
    cases h
  · rw [hexamine] at h
    rw [examine_ok hexamine p']
    by_cases hnil : text = []
    · simp [hnil] at h
    · simp only [hnil, if_false, hne hnil] at h ⊢
      exact hrest hlen h (p' + 1)
  · rw [hexamine] at h
    rw [examine_ok hexamine p']
    obtain ⟨emitted, vals', hlen', -, hput⟩ := put_concat hlen v
    simp only [hput] at h ⊢
    rcases hwalk : scan charSigned chars vals' (p + 1) text with e | rest
    · rw [hwalk] at h
      cases h
    · rw [hwalk] at h
      rw [hrest hlen' hwalk (p' + 1)]
      exact h

theorem scan_inserted {text : List UInt8} (hins : Inserted skip.chars text longer)
    (hascii : charSigned = true → ∀ c ∈ longer, c < 128)
    (hend : ∀ c, longer.getLast? = some c → c ∉ skip.chars) (hlen : vals.length ≤ 3)
    (h : scan charSigned skip.chars vals p text = .ok out) (p' : Nat) :
    scan charSigned skip.chars vals p' longer = .ok out := by
  induction hins generalizing vals p p' out with
  | nil => exact h
  | @keep c text longer hins ih =>
    have hascii' : charSigned = true → ∀ c ∈ longer, c < 128 := fun hsigned a ha =>
      hascii hsigned a (mem_cons_of_mem c ha)
    have hend' : ∀ a, longer.getLast? = some a → a ∉ skip.chars := by
      intro a ha
      refine hend a ?_
      rw [getLast?_cons_of_ne_nil (fun hnil => by rw [hnil] at ha; cases ha)]
      exact ha
    exact scan_keep (fun hnil => hins.ne_nil hnil) (fun hlen h p' => ih hascii' hend' hlen h p')
      hlen h p'
  | @insert c text longer hc hins ih =>
    have hne : longer ≠ [] := by
      rintro rfl
      exact hend c rfl hc
    rw [getLast?_cons_of_ne_nil hne] at hend
    rw [scan, examine_of_skip hc fun hsigned => hascii hsigned c mem_cons_self]
    simp only [hne, if_false]
    exact ih (fun hsigned a ha => hascii hsigned a (mem_cons_of_mem c ha)) hend hlen h (p' + 1)

/-- **Skip characters change nothing exactly if** the longer text does not end with one
and they have entries in the table. -/
theorem decode_inserted_iff {text longer out : List UInt8}
    (h : decode charSigned skip.chars text = .ok out)
    (hins : Inserted skip.chars text longer) :
    decode charSigned skip.chars longer = .ok out ↔
      (charSigned = true → ∀ c ∈ longer, c < 128) ∧
        ∀ c, longer.getLast? = some c → c ∉ skip.chars := by
  constructor
  · intro hlonger
    have haccepted := (decode_ok_iff longer).mp ⟨out, hlonger⟩
    obtain ⟨hrun, hlast⟩ := Phase.run_of_accepted haccepted
    have hascii : charSigned = true → ∀ c ∈ longer, c < 128 := by
      intro hsigned c hc
      by_contra hhigh
      refine Phase.no_foreign_of_run hrun (mem_map.mpr ⟨c, hc, ?_⟩)
      exact (symbol_foreign_iff c).mpr ⟨hsigned, UInt8.not_lt.mp hhigh⟩
    refine ⟨hascii, fun c hc hskip => hlast ?_⟩
    have hmem := mem_of_getLast? hc
    rw [getLast?_map, hc, Option.map_some]
    refine congrArg some (symbol_of_isSkip ?_ fun hs => hascii hs c hmem)
    rw [isSkip, Bool.and_eq_true]
    exact ⟨contains_iff_mem.mpr hskip, by simpa using skip.outside c hskip⟩
  · rintro ⟨hascii, hend⟩
    rw [decode_eq_scan] at h ⊢
    have hlen : ([] : List UInt8).length ≤ 3 := Nat.zero_le 3
    exact scan_inserted hins hascii hend hlen h 0

/-- The skip characters the callers leave `decode` to use. -/
def lineEnds : SkipChars := ⟨ascii "\r\n", by decide +kernel⟩

theorem decode_inserted_lines :
    decode true lineEnds.chars (ascii "T\r\nQ=\n=") = .ok (ascii "M") := by
  have htext : decode true lineEnds.chars (ascii "TQ==") = .ok (ascii "M") := by decide +kernel
  have hcr : (13 : UInt8) ∈ lineEnds.chars := by decide
  have hlf : (10 : UInt8) ∈ lineEnds.chars := by decide
  have hins : Inserted lineEnds.chars (ascii "TQ==") (ascii "T\r\nQ=\n=") :=
    .keep _ (.insert hcr (.insert hlf (.keep _ (.keep _ (.insert hlf (.keep _ .nil))))))
  refine (decode_inserted_iff htext hins).mpr ⟨fun _ => by decide +kernel, ?_⟩
  decide +kernel

/-- **A line end after the text** is rejected. -/
theorem decode_trailing :
    decode true lineEnds.chars (ascii "TQ==") = .ok (ascii "M") ∧
      decode true lineEnds.chars (ascii "TQ==\n") = .error (.threw .unexpectedEnd) := by
  decide +kernel

end Skip

end Base64
