import McpeLauncher.JniCall

/-! # Where the scan of a signature ends

`JValuesfromValist` skips the type of the elements of an array; when the text ends before that type
does, the loop reads behind the terminator. -/
namespace Jnivm
open List

/-- The loop of `JValuesfromValist` reads behind the terminator, wherever its arguments
come from. -/
inductive ReadsBehind : List Char → Prop
  | behind : ReadsBehind []
  | skip {rest} : rest ≠ [] → skipJNIType rest = none → ReadsBehind ('[' :: rest)
  | next {c rest next} : c ≠ ')' → rest ≠ [] → nextType c rest = .ok next → ReadsBehind next →
      ReadsBehind (c :: rest)

/-- A text that `SkipJNIType` takes for a type. -/
inductive IsType : List Char → Prop
  | single {c} : c ≠ '[' → c ≠ '(' → c ≠ 'L' → IsType [c]
  | object (name : ClassName) : IsType (JType.object name).text
  | nested {c t} : c = '[' ∨ c = '(' → IsType t → IsType (c :: t)

/-- A text that ends before its first type does. -/
inductive CutOff : List Char → Prop
  | nil : CutOff []
  | object {name} : ';' ∉ name → CutOff ('L' :: name)
  | nested {c t} : c = '[' ∨ c = '(' → CutOff t → CutOff (c :: t)

/-- A text that is gone over in one round of the loop. -/
inductive IsParam : List Char → Prop
  | single {c} : c ≠ ')' → c ≠ '[' → c ≠ 'L' → IsParam [c]
  | object (name : ClassName) : IsParam (JType.object name).text
  | array {t} : IsType t → IsParam ('[' :: t)

/-- Parameters of any kind, and then an array whose elements have no type. -/
def EndsInArray (signature : List Char) : Prop :=
  ∃ (params : List (List Char)) (cut : List Char), signature = params.flatten ++ '[' :: cut ∧
    (∀ p ∈ params, IsParam p) ∧ CutOff cut

variable {s t p : List Char}

theorem IsType.skip (h : IsType t) (rest : List Char) : skipJNIType (t ++ rest) = some rest := by
  induction h with
  | single hbracket hparen hclass => simp [skipJNIType]
  | object name => exact skipJNIType_text (.object name) rest
  | nested hc _ ih => rcases hc with rfl | rfl <;> exact ih

theorem CutOff.skip (h : CutOff t) (ht : nul ∉ t) : skipJNIType (t ++ [nul]) = some [] := by
  induction h with
  | nil => rfl
  | object hname =>
    rw [cons_append, skipJNIType, ← cons_append, findSemicolon_append _ ht]
    · rfl
    · exact not_mem_cons_of_ne_of_not_mem (by decide) hname
  | nested hc _ ih =>
    have ih := ih fun hmem => ht (mem_cons_of_mem _ hmem)
    rcases hc with rfl | rfl <;> exact ih

theorem exists_object (hsemicolon : ';' ∈ t) (ht : nul ∉ t) :
    ∃ (name : ClassName) (rest : List Char), 'L' :: t = (JType.object name).text ++ rest := by
  obtain ⟨chars, rest, rfl, hchars⟩ := eq_append_cons_of_mem hsemicolon
  refine ⟨⟨chars, hchars, fun hmem => ht (mem_append_left _ hmem)⟩, rest, ?_⟩
  rw [JType.text, cons_append, append_assoc, singleton_append]

theorem type_or_cutOff (ht : nul ∉ t) : (∃ p rest, t = p ++ rest ∧ IsType p) ∨ CutOff t := by
  induction t with
  | nil => exact .inr .nil
  | cons c t ih =>
    have htail : nul ∉ t := fun hmem => ht (mem_cons_of_mem _ hmem)
    by_cases hnested : c = '[' ∨ c = '('
    · rcases ih htail with ⟨p, rest, rfl, hp⟩ | hcut
      · exact .inl ⟨c :: p, rest, rfl, .nested hnested hp⟩
      · exact .inr (.nested hnested hcut)
    obtain ⟨hbracket, hparen⟩ := not_or.mp hnested
    by_cases hclass : c = 'L'
    · subst hclass
      by_cases hsemicolon : ';' ∈ t
      · obtain ⟨name, rest, htext⟩ := exists_object hsemicolon htail
        exact .inl ⟨_, rest, htext, .object name⟩
      · exact .inr (.object hsemicolon)
    · exact .inl ⟨[c], t, rfl, .single hbracket hparen hclass⟩

/-- **`SkipJNIType` does not read behind the terminator**, wherever it starts. -/
theorem skipJNIType_isSome (ht : nul ∉ t) : (skipJNIType (t ++ [nul])).isSome := by
  rcases type_or_cutOff ht with ⟨p, rest, rfl, hp⟩ | hcut
  · rw [append_assoc, hp.skip]
    rfl
  · rw [hcut.skip ht]
    rfl

theorem IsParam.next (h : IsParam p) (rest : List Char) :
    ∃ c tail, p = c :: tail ∧ c ≠ ')' ∧ nextType c (tail ++ rest) = .ok rest := by
  cases h with
  | single hend hbracket hclass => exact ⟨_, [], rfl, hend, by simp [nextType]⟩
  | object name => exact nextType_text (.object name) rest
  | array ht => exact ⟨'[', _, rfl, by decide, by rw [nextType, ht.skip]⟩

theorem param_cases {c : Char} (hend : c ≠ ')') (ht : nul ∉ t) :
    (∃ p rest, c :: t = p ++ rest ∧ IsParam p) ∨ (c = '[' ∧ CutOff t) ∨ (c = 'L' ∧ ';' ∉ t) := by
  by_cases hbracket : c = '['
  · subst hbracket
    rcases type_or_cutOff ht with ⟨p, rest, rfl, hp⟩ | hcut
    · exact .inl ⟨'[' :: p, rest, rfl, .array hp⟩
    · exact .inr (.inl ⟨rfl, hcut⟩)
  by_cases hclass : c = 'L'
  · subst hclass
    by_cases hsemicolon : ';' ∈ t
    · obtain ⟨name, rest, htext⟩ := exists_object hsemicolon ht
      exact .inl ⟨_, rest, htext, .object name⟩
    · exact .inr (.inr ⟨rfl, hsemicolon⟩)
  · exact .inl ⟨[c], t, rfl, .single hend hbracket hclass⟩

theorem readsBehind_of_endsInArray (h : EndsInArray s) (hs : nul ∉ s) :
    ReadsBehind (s ++ [nul]) := by
  obtain ⟨params, cut, rfl, hparams, hcut⟩ := h
  have hnul : nul ∉ cut := fun hmem => hs (by simp [hmem])
  clear hs
  induction params with
  | nil =>
    rw [flatten_nil, nil_append, cons_append]
    refine .next (by decide) (by simp) ?_ .behind
    rw [nextType, hcut.skip hnul]
  | cons p params ih =>
    obtain ⟨hp, hparams⟩ := forall_mem_cons.mp hparams
    have hrest := ih hparams
    obtain ⟨c, tail, rfl, hend, hnext⟩ := hp.next (params.flatten ++ '[' :: cut ++ [nul])
    rw [flatten_cons, append_assoc, append_assoc, cons_append, ← append_assoc params.flatten]
    exact .next hend (by simp) hnext hrest

theorem endsInArray_of_readsBehind {signature : List Char} (h : ReadsBehind signature)
    (hs : nul ∉ s) (hsignature : signature = s ++ [nul]) : EndsInArray s := by
  induction h generalizing s with
  | behind => exact absurd hsignature (by simp)
  | skip hrest hnone =>
    rcases s with _ | ⟨c, s⟩
    · exact absurd (cons.inj hsignature).2 hrest
    · rw [cons_append] at hsignature
      obtain ⟨-, rfl⟩ := cons.inj hsignature
      have hsome := skipJNIType_isSome fun hmem => hs (mem_cons_of_mem c hmem)
      rw [hnone] at hsome
      contradiction
  | next hend hrest hnext _ ih =>
    rcases s with _ | ⟨c, s⟩
    · exact absurd (cons.inj hsignature).2 hrest
    rw [cons_append] at hsignature
    obtain ⟨rfl, rfl⟩ := cons.inj hsignature
    have htail : nul ∉ s := fun hmem => hs (mem_cons_of_mem _ hmem)
    rcases param_cases hend htail with ⟨p, rest, hp, hparam⟩ | ⟨rfl, hcut⟩ | ⟨rfl, hsemicolon⟩
    · obtain ⟨c', tail, rfl, -, hnext'⟩ := hparam.next (rest ++ [nul])
      rw [cons_append] at hp
      obtain ⟨rfl, rfl⟩ := cons.inj hp
      rw [append_assoc] at hnext
      obtain rfl := Except.ok.inj (hnext'.symm.trans hnext)
      obtain ⟨params, cut, rfl, hparams, hcut⟩ :=
        ih (fun hmem => htail (mem_append_right _ hmem)) rfl
      refine ⟨(_ :: tail) :: params, cut, ?_, forall_mem_cons.mpr ⟨hparam, hparams⟩, hcut⟩
      rw [flatten_cons, append_assoc, cons_append]
    · exact ⟨[], s, rfl, by simp, hcut⟩
    · rw [nextType, ← cons_append, findSemicolon_append _ hs] at hnext
      · cases hnext
      · exact not_mem_cons_of_ne_of_not_mem (by decide) hsemicolon

theorem nextValue_error {N : Floats} {O : Type} {c : Char} {list : List (VaArg N O)} {e : Fault}
    (h : nextValue c list = .error e) : e = .undefined := by
  unfold nextValue at h
  split at h <;> rcases list with _ | ⟨_ | _ | _ | _, list⟩ <;> cases h <;> rfl

theorem ReadsBehind.jValuesLoop {N : Floats} {O : Type} (h : ReadsBehind s)
    (list : List (VaArg N O)) (values : List (JValue N O)) :
    jValuesLoop list s values = .error .undefined := by
  induction h generalizing list values with
  | behind => rw [Jnivm.jValuesLoop]
  | skip hrest hnone =>
    rw [jValuesLoop_cons (by decide) hrest, nextType, hnone]
    rfl
  | next hend hrest hnext _ ih =>
    rw [jValuesLoop_cons hend hrest, hnext]
    simp only [Except.bind]
    split
    · next herror => rw [nextValue_error herror]
    · exact ih _ _

section
variable {N : Floats} {O : Type} [Inhabited N.Double] [Inhabited O]

/-- An argument of the type that starts with `c`, where one is taken. -/
def argumentFor (c : Char) : List (VaArg N O) :=
  match c with
  | 'Z' | 'B' | 'S' | 'I' => [.int 0]
  | 'J' => [.long 0]
  | 'F' | 'D' => [.double default]
  | '[' | 'L' => [.pointer default]
  | _ => []

theorem nextValue_argumentFor (c : Char) (list : List (VaArg N O)) :
    ∃ v, nextValue c (argumentFor c ++ list) = .ok (v, list) := by
  unfold argumentFor nextValue
  split <;> first | exact ⟨_, rfl⟩ | (split <;> first | exact ⟨_, rfl⟩ | contradiction)

theorem nextType_undefined {c : Char} {rest : List Char} (hrest : rest ≠ [])
    (h : nextType c rest = .error .undefined) : ReadsBehind (c :: rest) := by
  unfold nextType at h
  split at h
  · split at h
    · next hnone => exact .skip hrest hnone
    · cases h
  · split at h <;> cases h
  · cases h

/-- **Otherwise there are arguments with which the loop ends**, or throws. -/
theorem exists_jValuesLoop (h : ¬ ReadsBehind s) :
    ∃ list : List (VaArg N O), ∀ values, jValuesLoop list s values ≠ .error .undefined := by
  induction hn : s.length using Nat.strong_induction_on generalizing s with
  | _ n ih =>
    rcases s with _ | ⟨c, rest⟩
    · exact absurd .behind h
    by_cases hlast : c = ')' ∨ rest = []
    · exact ⟨[], fun values => by rw [Jnivm.jValuesLoop, if_pos hlast]; simp⟩
    obtain ⟨hend, hrest⟩ := not_or.mp hlast
    rcases hnext : nextType c rest with e | next
    · refine ⟨[], fun values => ?_⟩
      rw [jValuesLoop_cons hend hrest, hnext]
      rintro ⟨⟩
      exact h (nextType_undefined hrest hnext)
    · have hlength := nextType_length_le hnext
      have hreads : ¬ ReadsBehind next := fun hreads => h (.next hend hrest hnext hreads)
      rw [length_cons] at hn
      obtain ⟨list, hlist⟩ := ih next.length (by omega) hreads rfl
      obtain ⟨v, hv⟩ := nextValue_argumentFor c list
      refine ⟨argumentFor c ++ list, fun values => ?_⟩
      rw [jValuesLoop_cons hend hrest, hnext]
      simp only [Except.bind, hv]
      exact hlist _

end

/-- **Neither function reads behind the terminator exactly if the signature does not end inside
an array**; if it does, the call is undefined whatever the arguments are, and if not, it is defined
for some. -/
theorem signature_scan_iff (hs : nul ∉ s) :
    (∀ cur, cur <:+ s → (skipJNIType (cur ++ [nul])).isSome) ∧
    ((∀ rest, s ++ [nul] = '(' :: rest → ¬ ReadsBehind rest) ↔
      ∀ rest, s = '(' :: rest → ¬ EndsInArray rest) ∧
    ∀ rest, s = '(' :: rest → ∀ (N : Floats) (O : Type),
      (EndsInArray rest →
        ∀ list : List (VaArg N O), jValuesfromValist list s = .error .undefined) ∧
      (¬ EndsInArray rest → Nonempty N.Double → Nonempty O →
        ∃ list : List (VaArg N O), jValuesfromValist list s ≠ .error .undefined) := by
  have hiff : ∀ rest, s = '(' :: rest → (ReadsBehind (rest ++ [nul]) ↔ EndsInArray rest) := by
    rintro rest rfl
    have hrest : nul ∉ rest := fun hmem => hs (mem_cons_of_mem _ hmem)
    exact ⟨fun h => endsInArray_of_readsBehind h hrest rfl,
      fun h => readsBehind_of_endsInArray h hrest⟩
  refine ⟨fun cur hcur => skipJNIType_isSome fun hmem => hs (hcur.subset hmem), ?_, ?_⟩
  · constructor
    · rintro h rest rfl hends
      exact h _ rfl ((hiff rest rfl).mpr hends)
    · intro h rest hrest hreads
      rcases s with _ | ⟨c, s⟩
      · exact absurd (cons.inj hrest).1 (by decide)
      · obtain ⟨rfl, rfl⟩ := cons.inj hrest
        exact h s rfl ((hiff s rfl).mp hreads)
  · rintro rest rfl N O
    refine ⟨fun hends list => ((hiff rest rfl).mpr hends).jValuesLoop list [], ?_⟩
    rintro hends ⟨x⟩ ⟨o⟩
    have : Inhabited N.Double := ⟨x⟩
    have : Inhabited O := ⟨o⟩
    obtain ⟨list, hlist⟩ := exists_jValuesLoop (N := N) (O := O) ((hiff rest rfl).not.mpr hends)
    exact ⟨list, hlist []⟩

theorem endsInArray_int : EndsInArray "I[".toList :=
  ⟨[['I']], [], rfl, by simpa using .single (by decide) (by decide) (by decide), .nil⟩

/-- In `(I[` the type of the elements is missing. -/
theorem signature_scan_reads_behind :
    ReadsBehind ("I[".toList ++ [nul]) ∧ ∀ list : List (VaArg Floats.exact Nat),
      jValuesfromValist list "(I[".toList = .error .undefined := by
  have hreads := readsBehind_of_endsInArray endsInArray_int (by decide)
  exact ⟨hreads, fun list => hreads.jValuesLoop list []⟩

theorem signature_scan_int_array :
    (skipJNIType ("[".toList ++ [nul])).isSome ∧
      jValuesfromValist ([] : List (VaArg Floats.exact Nat)) "(I[".toList = .error .undefined := by
  have hscan := signature_scan_iff (s := "(I[".toList) (by decide)
  exact ⟨hscan.1 _ (by decide), (hscan.2.2 _ rfl _ _).1 endsInArray_int []⟩

end Jnivm
