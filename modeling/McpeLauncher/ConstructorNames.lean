import McpeLauncher.Strtol
import McpeLauncher.Walks
import McpeLauncher.WordSize

/-! # Names of constructors

`HookManager::translateConstructorName` turns `_ZN3FooC2Ev` into `_ZN3FooC1Ev`. It walks over the
name: over an `N`, and over a length and as many characters as it says. Where the numbers of the
name lead (`Leads`) decides whether the walk ends, stays in the name and finds the right `C2`. -/
namespace ConstructorNames
open Relation Runs Strtol Walks List

structure CString where
  word : WordSize
  base : Nat
  name : List Char
  noNull : '\x00' ∉ name
  fits : base + name.length < 2 ^ word.bits
  small : name.length < 2 ^ (word.bits - 1)

namespace CString
variable (p : CString)

def stop : Nat := p.base + p.name.length

def text (s : Nat) : List Char := p.name.drop (s - p.base)

def add (s n : Nat) (len : Int) : Nat := ((s + n + len) % 2 ^ p.word.bits).toNat

/-- A round of the loop.  A place before the name is one that is read outside of it. -/
def step (s : Nat) : Next Nat :=
  if p.stop ≤ s then .done s
  else if s < p.base then .failed s
  else if (p.text s).head? = some 'N' then .again (s + 1)
  else
    match strtol p.word.bits (p.text s) with
    | none => .done s
    | some (len, n) => .again (p.add s n len)

/-- What is returned when the loop has ended at a place. -/
def resultAt (s : Nat) : List Char :=
  if p.stop ≤ s then []
  else if ['C', '2'] <+: p.text s then p.name.set (s - p.base + 1) '1'
  else []

end CString

inductive Outcome where
  | returned (result : List Char)
  | outside
  deriving DecidableEq

/-- With at most so many rounds of the loop; no translation is the empty string. -/
def translateConstructorName (p : CString) (rounds : Nat) : Option Outcome :=
  if ¬ ['_', 'Z'] <+: p.name then some (.returned [])
  else
    match (runLoop p.step rounds (p.base + 2)).1 with
    | .again _ => none
    | .failed _ => some .outside
    | .done s => some (.returned (p.resultAt s))

/-- A length and as many characters; the first of them is no digit. -/
structure Component where
  length : List Char
  identifier : List Char
  digits : ∀ c ∈ length, c.isDigit = true
  positive : ∃ c, length.head? = some c ∧ c ≠ '0'
  names : ∀ c, identifier.head? = some c → c.isDigit = false
  exact_ : identifier.length = value length

def Component.text (c : Component) : List Char := c.length ++ c.identifier

/-- The name of a constructor of a class with the components, and what follows. -/
def mangled (components : List Component) (ctor rest : List Char) : List Char :=
  ['_', 'Z', 'N'] ++ components.flatMap Component.text ++ ctor ++ rest

/-- The translation stays inside of the name, and turns the names of constructors, and no others,
into those of complete ones. -/
def Translates (p : CString) : Prop :=
  ∃ rounds result, translateConstructorName p rounds = some (.returned result) ∧
    (∀ components rest, components ≠ [] → p.name = mangled components ['C', '2'] rest →
      result = mangled components ['C', '1'] rest) ∧
    ((∀ components rest, components ≠ [] → p.name ≠ mangled components ['C', '2'] rest) →
      result = [])

/-- Where an `N` or a number of the name leads: a number over itself and as many characters as it
says, at most the largest `long`, in the arithmetic of addresses. -/
inductive Leads (p : CString) : Nat → Nat → Prop
  | letter {s : Nat} : p.base ≤ s → (p.text s).head? = some 'N' → Leads p s (s + 1)
  | number {s n : Nat} {i : Int} : p.base ≤ s → Numeral (p.text s) i n →
    Leads p s (p.add s n (saturate p.word.bits i))

/-- A length that starts with one of the digits 1 to 9. -/
def StartsLength (p : CString) (s : Nat) : Prop :=
  ∃ c, (p.text s).head? = some c ∧ c.isDigit = true ∧ c ≠ '0'

/-- From the third character on no number leads back to itself or before the name, and only an `N`
and lengths that start with 1 to 9 lead to a `C2`. -/
structure Regular (p : CString) : Prop where
  noReturn : NoReturn (Leads p) (p.base + 2)
  inside : ∀ s, ReflTransGen (Leads p) (p.base + 2) s → p.base ≤ s
  lengths : ∀ s, ReflTransGen (Leads p) (p.base + 2) s → ['C', '2'] <+: p.text s →
    (p.text (p.base + 2)).head? = some 'N' ∧
      TransGen (fun s t => StartsLength p s ∧ Leads p s t) (p.base + 3) s

/-! ## The walk over the name -/

namespace CString
variable {p : CString} {s t : Nat}

theorem length_text (h : p.base ≤ s) : (p.text s).length = p.stop - s := by
  rw [text, stop, length_drop]
  omega

theorem lt_stop_of_text (hs : p.base ≤ s) {c : Char} (h : (p.text s).head? = some c) :
    s < p.stop := by
  have := length_pos_iff.mpr (ne_nil_of_mem (mem_of_head? h))
  rw [length_text hs] at this
  omega

theorem text_add (h : p.base ≤ s) (n : Nat) : p.text (s + n) = (p.text s).drop n := by
  rw [text, text, drop_drop]
  congr 1
  omega

theorem text_base_add (p : CString) (n : Nat) : p.text (p.base + n) = p.name.drop n := by
  rw [text, Nat.add_sub_cancel_left]

theorem add_natCast (n v : Nat) : p.add s n v = (s + n + v) % 2 ^ p.word.bits := by
  have hcast : ((s : Int) + n + v) = ((s + n + v : Nat) : Int) := by push_cast; rfl
  have hpow : (2 : Int) ^ p.word.bits = ((2 ^ p.word.bits : Nat) : Int) := by push_cast; rfl
  rw [add, hcast, hpow, ← Int.natCast_emod, Int.toNat_natCast]

theorem step_eq (hs : p.base ≤ s) (ht : s < p.stop) (hN : (p.text s).head? ≠ some 'N') :
    p.step s = match strtol p.word.bits (p.text s) with
      | none => .done s
      | some (len, n) => .again (p.add s n len) := by
  rw [step, if_neg (Nat.not_le.mpr ht), if_neg (Nat.not_lt.mpr hs), if_neg hN]

/-- **A round of the loop goes where the name leads.** -/
theorem step_again_iff : p.step s = .again t ↔ Leads p s t := by
  constructor
  · intro h
    rw [step] at h
    split_ifs at h with hstop hbase hN
    · obtain rfl := Next.again.inj h
      exact .letter (Nat.not_lt.mp hbase) hN
    · split at h
      · cases h
      · next len n hread =>
        obtain ⟨i, hnumeral, rfl⟩ := strtol_iff.mp hread
        obtain rfl := Next.again.inj h
        exact .number (Nat.not_lt.mp hbase) hnumeral
  · rintro (⟨hs, hN⟩ | ⟨hs, hnumeral⟩)
    · have ht := lt_stop_of_text hs hN
      rw [step, if_neg (Nat.not_le.mpr ht), if_neg (Nat.not_lt.mpr hs), if_pos hN]
    · obtain ⟨c, hc, -⟩ := hnumeral.head?
      have hN := hnumeral.head?_ne (c := 'N') (by decide) (by decide) (by decide) (by decide)
      rw [step_eq hs (lt_stop_of_text hs hc) hN, strtol_iff.mpr ⟨_, hnumeral, rfl⟩]

theorem again_eq (p : CString) : Again p.step = Leads p := by
  funext s t
  exact propext step_again_iff

theorem leads_rightUnique (p : CString) : Relator.RightUnique (Leads p) := by
  rw [← again_eq]
  exact again_rightUnique p.step

theorem step_C2 (hs : p.base ≤ s) (hC2 : ['C', '2'] <+: p.text s) :
    s < p.stop ∧ p.step s = .done s := by
  obtain ⟨rest, hrest⟩ := hC2
  have hhead : (p.text s).head? = some 'C' := by rw [← hrest]; rfl
  have ht := lt_stop_of_text hs hhead
  refine ⟨ht, ?_⟩
  rw [step_eq hs ht (by rw [hhead]; decide)]
  split
  · rfl
  · next hread =>
    obtain ⟨i, hnumeral, -⟩ := strtol_iff.mp hread
    exact absurd hhead (hnumeral.head?_ne (by decide) (by decide) (by decide) (by decide))

theorem step_done (h : p.step s = .done t) : t = s := by
  rw [step] at h
  split_ifs at h with hstop hbase hN
  · exact (Next.done.inj h).symm
  · split at h
    · exact (Next.done.inj h).symm
    · cases h

theorem step_before (h : s < p.base) : p.step s = .failed s := by
  have hstop : ¬ p.stop ≤ s := by
    rw [stop]
    omega
  rw [step, if_neg hstop, if_pos h]

/-- The walk ends where nothing leads on, and it returns there unless it is before the name. -/
theorem step_of_end (hs : p.base ≤ s) (hend : ∀ t, ¬ Leads p s t) : p.step s = .done s := by
  rcases hstep : p.step s with t | t | t
  · exact absurd (step_again_iff.mp hstep) (hend t)
  · rw [step_done hstep]
  · rw [step] at hstep
    split_ifs at hstep
    · omega
    · split at hstep
      · cases hstep
      · cases hstep

end CString

open CString

variable {p : CString} {tail rest : List Char} {s t : Nat}

theorem Leads.bounds (h : Leads p s t) : p.base ≤ s ∧ s < p.stop := by
  rcases h with ⟨hs, hN⟩ | ⟨hs, hnumeral⟩
  · exact ⟨hs, lt_stop_of_text hs hN⟩
  · obtain ⟨c, hc, -⟩ := hnumeral.head?
    exact ⟨hs, lt_stop_of_text hs hc⟩

/-! ## Components -/

namespace Component
variable (c : Component)

theorem length_eq : ∃ d digits, c.length = d :: digits ∧ d.isDigit = true ∧ d ≠ '0' := by
  obtain ⟨d, hd, hzero⟩ := c.positive
  rcases hlength : c.length with _ | ⟨e, digits⟩
  · simp [hlength] at hd
  · obtain rfl : e = d := by simpa [hlength] using hd
    exact ⟨e, digits, rfl, c.digits e (by simp [hlength]), hzero⟩

theorem digits_append (tail : List Char) : Digits c.length (c.identifier ++ tail) := by
  obtain ⟨d, digits, hlength, hd, hzero⟩ := c.length_eq
  have hne : c.identifier ≠ [] := by
    rw [← length_pos_iff, c.exact_, hlength]
    exact value_pos hd hzero
  refine ⟨by simp [hlength], c.digits, fun e he => c.names e ?_⟩
  rwa [head?_append_of_ne_nil _ hne] at he

end Component

theorem leads_component (hs : p.base ≤ s) (c : Component) (htext : p.text s = c.text ++ tail) :
    (StartsLength p s ∧ Leads p s (s + c.text.length)) ∧ p.text (s + c.text.length) = tail := by
  obtain ⟨d, digits, hlength, hd, hzero⟩ := c.length_eq
  have hhead : (p.text s).head? = some d := by simp [htext, Component.text, hlength]
  have hsize : c.length.length + value c.length ≤ p.stop - s := by
    have := length_text hs
    rw [htext, Component.text, length_append, length_append, c.exact_] at this
    omega
  have ht := lt_stop_of_text hs hhead
  have hfits := p.fits
  have hsmall := p.small
  rw [stop] at ht hsize
  have hnumeral := (c.digits_append tail).numeral
  rw [← append_assoc, ← Component.text, ← htext] at hnumeral
  have hleads := Leads.number hs hnumeral
  have hrange : value c.length < 2 ^ (p.word.bits - 1) := by omega
  have hnonneg : -2 ^ (p.word.bits - 1) ≤ (value c.length : Int) := by
    have : (0 : Int) ≤ 2 ^ (p.word.bits - 1) := by positivity
    omega
  rw [saturate_of_range hnonneg (by exact_mod_cast hrange), add_natCast,
    Nat.mod_eq_of_lt (by omega), add_assoc, ← c.exact_, ← length_append] at hleads
  exact ⟨⟨⟨d, hhead, hd, hzero⟩, hleads⟩, by rw [text_add hs, htext, drop_left]⟩

/-- Nothing wraps around and the value is small, if the next place is one of the name. -/
theorem place_eq {n v : Nat} (hs : p.base ≤ s) (hlt : s + n ≤ p.stop)
    (ht : t = (s + n + min v (2 ^ (p.word.bits - 1) - 1)) % 2 ^ p.word.bits) (hpos : 0 < n)
    (hbase : p.base ≤ t) (hstop : t < p.stop) : t = s + (n + v) := by
  have hbits := p.word.two_pow_bits
  have hsmall := p.small
  rw [stop] at hlt hstop
  -- beyond the range of the addresses the next place is before the name
  have hrange : s + n + min v (2 ^ (p.word.bits - 1) - 1) < 2 ^ p.word.bits := by
    by_contra hge
    rw [Nat.mod_eq_sub_mod (by omega), Nat.mod_eq_of_lt (by omega)] at ht
    omega
  rw [Nat.mod_eq_of_lt hrange] at ht
  omega

/-- **A length leads over a component**, if the next place is one of the name. -/
theorem exists_component (hstart : StartsLength p s) (hleads : Leads p s t) (hbase : p.base ≤ t)
    (hstop : t < p.stop) : ∃ c : Component, p.text s = c.text ++ p.text t := by
  obtain ⟨d, hhead, hd, hzero⟩ := hstart
  rcases hleads with ⟨hs, hN⟩ | ⟨hs, hnumeral⟩
  · obtain rfl := Option.some.inj (hhead.symm.trans hN)
    exact absurd hd (by decide)
  · obtain ⟨digits, rest, htext, hdigits, rfl, rfl⟩ := hnumeral.of_isDigit hhead hd
    have hlength := length_text hs
    rw [htext, length_append] at hlength
    have hpos : 0 < digits.length := length_pos_iff.mpr hdigits.ne_nil
    rw [saturate_natCast, add_natCast] at hbase hstop ⊢
    have hvalue := place_eq hs (by omega) rfl hpos hbase hstop
    rw [hvalue] at hstop ⊢
    have hafter : p.text (s + (digits.length + value digits)) = rest.drop (value digits) := by
      rw [text_add hs, htext, drop_append, drop_eq_nil_of_le (by omega), Nat.add_sub_cancel_left]
      rfl
    have hfirst : digits.head? = some d := by
      rwa [htext, head?_append_of_ne_nil _ hdigits.ne_nil] at hhead
    refine ⟨⟨digits, rest.take (value digits), hdigits.isDigit, ⟨d, hfirst, hzero⟩,
      fun c hc => ?_, ?_⟩, ?_⟩
    · rw [head?_take] at hc
      exact hdigits.rest c (Option.ite_none_left_eq_some.mp hc).2
    · rw [length_take]
      omega
    · rw [Component.text, hafter, append_assoc, take_append_drop]
      exact htext

theorem lengths_of_components (hs : p.base ≤ s) {components : List Component}
    (hne : components ≠ []) (htext : p.text s = components.flatMap Component.text ++ tail) :
    TransGen (fun s t => StartsLength p s ∧ Leads p s t) s
        (s + (components.flatMap Component.text).length) ∧
      p.text (s + (components.flatMap Component.text).length) = tail := by
  induction components generalizing s with
  | nil => exact absurd rfl hne
  | cons c components ih =>
    rw [flatMap_cons, append_assoc] at htext
    obtain ⟨hleads, hrest⟩ := leads_component hs c htext
    rw [flatMap_cons, length_append, ← add_assoc]
    cases components with
    | nil => exact ⟨.single hleads, hrest⟩
    | cons d components =>
      obtain ⟨hlengths, hend⟩ := ih (le_trans hs (Nat.le_add_right _ _)) (by simp) hrest
      exact ⟨.head hleads hlengths, hend⟩

theorem components_of_lengths (h : TransGen (fun s t => StartsLength p s ∧ Leads p s t) s t)
    (hbase : p.base ≤ t) (hstop : t < p.stop) :
    ∃ components, components ≠ [] ∧ p.text s = components.flatMap Component.text ++ p.text t := by
  induction h using TransGen.head_induction_on with
  | single hfirst =>
    obtain ⟨c, hc⟩ := exists_component hfirst.1 hfirst.2 hbase hstop
    exact ⟨[c], by simp, by simpa using hc⟩
  | head hfirst hrest ih =>
    obtain ⟨components, -, htext⟩ := ih
    obtain ⟨u, ⟨-, hu⟩, -⟩ := TransGen.head'_iff.mp hrest
    obtain ⟨c, hc⟩ := exists_component hfirst.1 hfirst.2 hu.bounds.1 hu.bounds.2
    exact ⟨c :: components, by simp, by rw [hc, htext, flatMap_cons, append_assoc]⟩

/-! ## When the translation is right -/

theorem ends_of_done (h : p.step s = .done s) (t : Nat) : ¬ Leads p s t := fun ht =>
  absurd (h.symm.trans (step_again_iff.mpr ht)) nofun

theorem walk_mangled {components : List Component} (hne : components ≠ [])
    (hname : p.name = mangled components ['C', '2'] rest) :
    ∃ s, s = p.base + 3 + (components.flatMap Component.text).length ∧
      Ends (Leads p) (p.base + 2) s ∧ p.text s = ['C', '2'] ++ rest ∧
      (p.text (p.base + 2)).head? = some 'N' ∧
      TransGen (fun s t => StartsLength p s ∧ Leads p s t) (p.base + 3) s := by
  have hN : (p.text (p.base + 2)).head? = some 'N' := by
    rw [text_base_add, hname]
    rfl
  have htext : p.text (p.base + 3) =
      components.flatMap Component.text ++ (['C', '2'] ++ rest) := by
    rw [text_base_add, hname, mangled, append_assoc, append_assoc]
    rfl
  obtain ⟨hlengths, hend⟩ := lengths_of_components (by omega) hne htext
  have hleads := TransGen.mono (fun _ _ h => And.right h) _ _ hlengths
  have hdone := (step_C2 (by omega) (hend ▸ prefix_append _ _)).2
  exact ⟨_, rfl, ⟨.head (.letter (by omega) hN) hleads.to_reflTransGen, ends_of_done hdone⟩, hend,
    hN, hlengths⟩

theorem resultAt_mangled {components : List Component}
    (hname : p.name = mangled components ['C', '2'] rest)
    (hs : s = p.base + 3 + (components.flatMap Component.text).length)
    (htext : p.text s = ['C', '2'] ++ rest) :
    p.resultAt s = mangled components ['C', '1'] rest := by
  have hC2 : ['C', '2'] <+: p.text s := htext ▸ prefix_append _ _
  have hlt := (step_C2 (by omega) hC2).1
  have hplace : s - p.base + 1 =
      (['_', 'Z', 'N'] ++ components.flatMap Component.text).length + 1 := by
    rw [length_append, hs]
    simp only [length_cons, length_nil]
    omega
  rw [resultAt, if_neg (Nat.not_le.mpr hlt), if_pos hC2, hname, mangled, mangled, hplace,
    append_assoc _ ['C', '2'], append_assoc _ ['C', '1'],
    set_append_right _ _ (by omega), Nat.add_sub_cancel_left]
  rfl

theorem C2_of_resultAt (h : p.resultAt s ≠ []) : ['C', '2'] <+: p.text s := by
  by_contra hC2
  rw [resultAt, if_neg hC2, ite_self] at h
  exact h rfl

theorem returned_iff (hZ : ['_', 'Z'] <+: p.name) {result : List Char} :
    (∃ rounds, translateConstructorName p rounds = some (.returned result)) ↔
      ∃ s, ReflTransGen (Leads p) (p.base + 2) s ∧ p.step s = .done s ∧
        result = p.resultAt s := by
  have hreturned (rounds : Nat) :
      translateConstructorName p rounds = some (.returned result) ↔
        ∃ s, (runLoop p.step rounds (p.base + 2)).1 = .done s ∧ result = p.resultAt s := by
    rw [translateConstructorName, if_neg (not_not_intro hZ)]
    rcases (runLoop p.step rounds (p.base + 2)).1 with s | s | s
    · simp
    · simp [eq_comm]
    · simp
  rw [← again_eq]
  constructor
  · rintro ⟨rounds, h⟩
    obtain ⟨s, hrun, hresult⟩ := (hreturned rounds).mp h
    obtain ⟨t, hwalk, hdone⟩ := (runLoop_iff (by simp)).mp ⟨rounds, hrun⟩
    obtain rfl := step_done hdone
    exact ⟨s, hwalk, hdone, hresult⟩
  · rintro ⟨s, hwalk, hdone, hresult⟩
    obtain ⟨rounds, hrun⟩ := (runLoop_iff (by simp)).mpr ⟨s, hwalk, hdone⟩
    exact ⟨rounds, (hreturned rounds).mpr ⟨s, hrun, hresult⟩⟩

theorem ends_iff_noReturn (s : Nat) : (∃ t, Ends (Leads p) s t) ↔ NoReturn (Leads p) s :=
  ends_iff (leads_rightUnique p) (Set.Iio p.stop) fun _ _ h => h.bounds.2

theorem Regular.translates (hZ : ['_', 'Z'] <+: p.name) (hr : Regular p) : Translates p := by
  obtain ⟨s, hends⟩ := (ends_iff_noReturn _).mpr hr.noReturn
  have hbase := hr.inside s hends.1
  obtain ⟨rounds, hreturned⟩ :=
    (returned_iff hZ).mpr ⟨s, hends.1, step_of_end hbase hends.2, rfl⟩
  refine ⟨rounds, p.resultAt s, hreturned, ?_, ?_⟩
  · intro components rest hne hname
    obtain ⟨t, ht, hends', htext, -⟩ := walk_mangled hne hname
    obtain rfl := hends.unique (leads_rightUnique p) hends'
    exact resultAt_mangled hname ht htext
  · intro hnot
    by_contra hresult
    have hC2 := C2_of_resultAt hresult
    obtain ⟨hN, hlengths⟩ := hr.lengths s hends.1 hC2
    obtain ⟨components, hne, htext⟩ :=
      components_of_lengths hlengths hbase (step_C2 hbase hC2).1
    obtain ⟨rest, hrest⟩ := hC2
    refine hnot components rest hne ?_
    obtain ⟨tail, htail⟩ := hZ
    have htwo : p.text (p.base + 2) = tail := by
      rw [text_base_add, ← htail]
      rfl
    have hthree : p.text (p.base + 2) = 'N' :: p.text (p.base + 3) := by
      rw [text_add (by omega : p.base ≤ p.base + 2) 1, drop_one]
      exact eq_cons_of_mem_head? hN
    rw [← htail, ← htwo, hthree, htext, ← hrest, mangled, append_assoc, append_assoc]
    rfl

theorem Translates.regular (hZ : ['_', 'Z'] <+: p.name) (h : Translates p) : Regular p := by
  obtain ⟨rounds, result, hreturned, -, hother⟩ := h
  obtain ⟨s, hwalk, hdone, rfl⟩ := (returned_iff hZ).mp ⟨rounds, hreturned⟩
  have hends : Ends (Leads p) (p.base + 2) s := ⟨hwalk, ends_of_done hdone⟩
  have hinside : ∀ t, ReflTransGen (Leads p) (p.base + 2) t → p.base ≤ t := by
    intro t ht
    by_contra hbefore
    have hfailed := step_before (Nat.lt_of_not_le hbefore)
    obtain rfl := hends.unique (leads_rightUnique p)
      ⟨ht, fun u hu => hbefore hu.bounds.1⟩
    exact absurd (hdone.symm.trans hfailed) nofun
  refine ⟨(ends_iff_noReturn _).mp ⟨s, hends⟩, hinside, ?_⟩
  intro t ht hC2
  obtain rfl := hends.unique (leads_rightUnique p)
    ⟨ht, ends_of_done (step_C2 (hinside t ht) hC2).2⟩
  have hresult : p.resultAt s ≠ [] := by
    rw [resultAt, if_neg (Nat.not_le.mpr (step_C2 (hinside s ht) hC2).1), if_pos hC2]
    intro hnil
    obtain ⟨tail, htail⟩ := hZ
    rw [set_eq_nil_iff, ← htail] at hnil
    cases hnil
  by_contra hnot
  refine hresult (hother fun components rest hne hname => hnot ?_)
  obtain ⟨t, -, hends', -, hN, hlengths⟩ := walk_mangled hne hname
  obtain rfl := hends.unique (leads_rightUnique p) hends'
  exact ⟨hN, hlengths⟩

/-- **Names of constructors are translated right** exactly if the numbers of the name are regular;
other names do not start with `_Z`. -/
theorem translate_iff (p : CString) : Translates p ↔ (['_', 'Z'] <+: p.name → Regular p) := by
  by_cases hZ : ['_', 'Z'] <+: p.name
  · rw [imp_iff_right hZ]
    exact ⟨Translates.regular hZ, Regular.translates hZ⟩
  · refine iff_of_true ⟨0, [], ?_, ?_, fun _ => rfl⟩ fun h => absurd h hZ
    · rw [translateConstructorName, if_pos hZ]
    · intro components rest _ hname
      rw [hname, mangled, append_assoc, append_assoc] at hZ
      exact absurd (prefix_append ['_', 'Z'] _) hZ

def atPage (name : String) (noNull : '\x00' ∉ name.toList) (small : name.length < 100) :
    CString where
  word := .w64
  base := 4096
  name := name.toList
  noNull := noNull
  fits := by
    rw [String.length_toList]
    exact Nat.lt_trans (Nat.add_lt_add_left small 4096) (by decide)
  small := by
    rw [String.length_toList]
    exact Nat.lt_trans small (by decide)

def goesBack : CString := atPage "_Z-2" (by decide) (by decide)

/-- **The length -2 leads back to itself for ever**, -9 before the name, and a name without a
component is translated. -/
theorem translate_negative_length :
    (∀ rounds, translateConstructorName goesBack rounds = none) ∧
      translateConstructorName (atPage "_Z-9" (by decide) (by decide)) 2 = some .outside ∧
      translateConstructorName (atPage "_ZC2" (by decide) (by decide)) 2 =
        some (.returned "_ZC1".toList) ∧
      ¬ Translates goesBack := by
  have hback : goesBack.step (goesBack.base + 2) = .again (goesBack.base + 2) := rfl
  have hrun (rounds : Nat) : (runLoop goesBack.step rounds (goesBack.base + 2)).1 =
      .again (goesBack.base + 2) := by
    induction rounds with
    | zero => rfl
    | succ n ih =>
      rw [runLoop, hback]
      exact ih
  have hendless (rounds : Nat) : translateConstructorName goesBack rounds = none := by
    rw [translateConstructorName, if_neg (by decide +kernel), hrun]
  refine ⟨hendless, by decide +kernel, by decide +kernel, ?_⟩
  rintro ⟨rounds, result, hreturned, -⟩
  rw [hendless rounds] at hreturned
  cases hreturned

end ConstructorNames
