import Mathlib

/-! # Pending continuations

A table maps keys to continuations that wait to be resumed. Every registration gets a token of its
own; registering a key that is in use forgets the older continuation. -/
namespace Pending
open List
variable {κ γ : Type} [DecidableEq κ] {β : Type} {k : κ}

theorem mem_of_lookup {l : List (κ × β)} {b : β} (h : l.lookup k = some b) : (k, b) ∈ l := by
  obtain ⟨l₁, l₂, rfl, _⟩ := lookup_eq_some_iff.mp h
  simp

theorem lookup_filter_ne (l : List (κ × β)) {k' : κ} (h : k ≠ k') :
    (l.filter fun p => p.1 ≠ k').lookup k = l.lookup k := by
  induction l with
  | nil => rfl
  | cons p l ih =>
    obtain ⟨key, b⟩ := p
    by_cases hkey : key = k'
    · subst hkey
      rw [filter_cons_of_neg (by simp), ih, lookup_cons, beq_false_of_ne h]
    · rw [filter_cons_of_pos (by simpa using hkey), lookup_cons, lookup_cons, ih]

structure Taken (κ γ : Type) where
  token : Nat
  key : κ
  cause : γ

/-- The continuations waiting, the key of each token, and the continuations taken. -/
structure Table (κ γ : Type) where
  waiting : List (κ × Nat)
  registered : List κ
  taken : List (Taken κ γ)

namespace Table

def empty : Table κ γ := ⟨[], [], []⟩

/-- The next continuation waits under `k`. -/
def register (s : Table κ γ) (k : κ) : Table κ γ where
  waiting := (k, s.registered.length) :: s.waiting.filter fun p => p.1 ≠ k
  registered := s.registered ++ [k]
  taken := s.taken

/-- The continuation under `k` is taken, if there is one. -/
def resolve (s : Table κ γ) (k : κ) (g : γ) : Table κ γ where
  waiting := s.waiting.filter fun p => p.1 ≠ k
  registered := s.registered
  taken := s.taken ++ ((s.waiting.lookup k).map fun t => ⟨t, k, g⟩).toList

def drain (s : Table κ γ) (g : γ) : Table κ γ where
  waiting := []
  registered := s.registered
  taken := s.taken ++ s.waiting.map fun p => ⟨p.2, p.1, g⟩

/-- No token is in the table twice, and every token is there under its key. -/
structure Valid (s : Table κ γ) : Prop where
  waiting_key : ∀ p ∈ s.waiting, s.registered[p.2]? = some p.1
  waiting_unique : (s.waiting.map Prod.snd).Nodup
  taken_key : ∀ r ∈ s.taken, s.registered[r.token]? = some r.key
  taken_unique : (s.taken.map Taken.token).Nodup
  disjoint : ∀ p ∈ s.waiting, ∀ r ∈ s.taken, p.2 ≠ r.token

omit [DecidableEq κ] in
theorem valid_empty : (empty : Table κ γ).Valid := by constructor <;> simp [empty]

variable {s : Table κ γ}

omit [DecidableEq κ] in
/-- Tokens given out are not given out again. -/
theorem Valid.token_lt {t : Nat} (h : s.registered[t]? = some k) :
    t < s.registered.length := (List.getElem?_eq_some_iff.mp h).1

theorem Valid.register (hs : s.Valid) (k : κ) : (s.register k).Valid := by
  have hkeep : ∀ {t : Nat} {k' : κ}, s.registered[t]? = some k' →
      (s.registered ++ [k])[t]? = some k' := by
    intro t k' h
    rw [getElem?_append_left (token_lt h), h]
  have hold : ∀ p ∈ s.waiting.filter (fun p => p.1 ≠ k), p ∈ s.waiting :=
    fun p hp => mem_of_mem_filter hp
  constructor
  · intro p hp
    rcases mem_cons.mp hp with rfl | hp
    · simp [Table.register]
    · exact hkeep (hs.waiting_key p (hold p hp))
  · refine nodup_cons.mpr ⟨?_, hs.waiting_unique.sublist (filter_sublist.map _)⟩
    intro hmem
    obtain ⟨p, hp, heq⟩ := mem_map.mp hmem
    have := token_lt (hs.waiting_key p (hold p hp))
    omega
  · intro r hr
    exact hkeep (hs.taken_key r hr)
  · exact hs.taken_unique
  · intro p hp r hr
    rcases mem_cons.mp hp with rfl | hp
    · have := token_lt (hs.taken_key r hr)
      intro heq
      omega
    · exact hs.disjoint p (hold p hp) r hr

omit [DecidableEq κ] in
theorem Valid.take (hs : s.Valid) {waiting : List (κ × Nat)} {new : List (Taken κ γ)}
    (hsub : waiting.Sublist s.waiting) (hnew : ∀ r ∈ new, (r.key, r.token) ∈ s.waiting)
    (hunique : (new.map Taken.token).Nodup) (hgone : ∀ r ∈ new, (r.key, r.token) ∉ waiting) :
    Valid ⟨waiting, s.registered, s.taken ++ new⟩ := by
  constructor
  · exact fun p hp => hs.waiting_key p (hsub.subset hp)
  · exact hs.waiting_unique.sublist (hsub.map _)
  · intro r hr
    rcases mem_append.mp hr with hr | hr
    · exact hs.taken_key r hr
    · exact hs.waiting_key _ (hnew r hr)
  · rw [map_append]
    refine List.Nodup.append hs.taken_unique hunique fun t ht ht' => ?_
    obtain ⟨r, hr, rfl⟩ := mem_map.mp ht
    obtain ⟨r', hr', heq⟩ := mem_map.mp ht'
    exact hs.disjoint _ (hnew r' hr') r hr heq
  · intro p hp r hr heq
    rcases mem_append.mp hr with hr | hr
    · exact hs.disjoint p (hsub.subset hp) r hr heq
    · -- two waiting continuations with one token are the same
      have := inj_on_of_nodup_map hs.waiting_unique (hsub.subset hp) (hnew r hr) heq
      rw [this] at hp
      exact hgone r hr hp

theorem Valid.resolve (hs : s.Valid) (k : κ) (g : γ) : (s.resolve k g).Valid := by
  have hone : ∀ r ∈ ((s.waiting.lookup k).map fun t => Taken.mk t k g).toList,
      r.key = k ∧ s.waiting.lookup k = some r.token := by
    intro r hr
    obtain ⟨t, ht, rfl⟩ := Option.map_eq_some_iff.mp (Option.mem_toList.mp hr)
    exact ⟨rfl, ht⟩
  refine hs.take filter_sublist ?_ ?_ ?_
  · intro r hr
    obtain ⟨rfl, hlookup⟩ := hone r hr
    exact mem_of_lookup hlookup
  · cases s.waiting.lookup k <;> simp
  · intro r hr hmem
    exact absurd (hone r hr).1 (by simpa using (mem_filter.mp hmem).2)

omit [DecidableEq κ] in
theorem Valid.drain (hs : s.Valid) (g : γ) : (s.drain g).Valid := by
  refine hs.take (nil_sublist _) ?_ ?_ ?_
  · intro r hr
    obtain ⟨p, hp, rfl⟩ := mem_map.mp hr
    exact hp
  · rw [map_map]
    exact hs.waiting_unique
  · intro r _
    exact not_mem_nil

theorem resolve_register (s : Table κ γ) (k : κ) (g : γ) :
    ((s.register k).resolve k g).taken = s.taken ++ [⟨s.registered.length, k, g⟩] := by
  simp [resolve, register]

section Waiting
variable {s : Table κ γ} {k k' : κ} {t : Nat}

theorem lookup_register_self (s : Table κ γ) (k : κ) :
    (s.register k).waiting.lookup k = some s.registered.length := lookup_cons_self

theorem lookup_register_ne (h : s.waiting.lookup k = some t) (hne : k ≠ k') :
    (s.register k').waiting.lookup k = some t := by
  rw [register, lookup_cons, beq_false_of_ne hne]
  exact (lookup_filter_ne _ hne).trans h

theorem lookup_resolve_ne (h : s.waiting.lookup k = some t) (hne : k ≠ k') (g : γ) :
    (s.resolve k' g).waiting.lookup k = some t := (lookup_filter_ne _ hne).trans h

theorem mem_taken_resolve (h : s.waiting.lookup k = some t) (g : γ) :
    ⟨t, k, g⟩ ∈ (s.resolve k g).taken := by
  rw [resolve, h]
  exact mem_append_right _ (mem_singleton_self _)

theorem mem_taken_drain (h : s.waiting.lookup k = some t) (g : γ) :
    ⟨t, k, g⟩ ∈ (s.drain g).taken :=
  mem_append_right _ (mem_map.mpr ⟨(k, t), mem_of_lookup h, rfl⟩)

omit [DecidableEq κ] in
theorem Valid.waiting_lt (hs : s.Valid) {p : κ × Nat} (hp : p ∈ s.waiting) :
    p.2 < s.registered.length := Valid.token_lt (hs.waiting_key p hp)

end Waiting

end Table

end Pending
