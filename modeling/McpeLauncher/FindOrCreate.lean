import Mathlib.Data.List.Find
import Mathlib.Logic.Function.Basic
import Mathlib.Order.Basic

/-! # Trees that grow by lookups

Nodes stand in a heap, with a name and a list of children in each field. Nothing is ever removed, so
an address found once along a path is found along it forever (`walk_extends`), and what follows from
parents' texts follows from the path (`Labelled`). -/
namespace FindOrCreate
open List Function
variable {κ ρ δ τ : Type}

structure Node (κ ρ δ : Type) where
  name : κ
  data : δ
  kids : ρ → List Nat

structure Heap (κ ρ δ : Type) where
  size : Nat
  node : Nat → Node κ ρ δ

def Heap.find [DecidableEq κ] (h : Heap κ ρ δ) (a : Nat) (p : ρ) (k : κ) : Option Nat :=
  ((h.node a).kids p).find? fun b => (h.node b).name = k

def Heap.create [DecidableEq ρ] (h : Heap κ ρ δ) (a : Nat) (p : ρ) (k : κ) (d : δ) :
    Heap κ ρ δ where
  size := h.size + 1
  node := fun b =>
    if b = h.size then ⟨k, d, fun _ => []⟩
    else if b = a then
      { h.node a with kids := Function.update (h.node a).kids p ((h.node a).kids p ++ [h.size]) }
    else h.node b

/-- A new node that is no child. -/
def Heap.alloc (h : Heap κ ρ δ) (k : κ) (d : δ) : Heap κ ρ δ where
  size := h.size + 1
  node := Function.update h.node h.size ⟨k, d, fun _ => []⟩

def Heap.findOrCreate [DecidableEq κ] [DecidableEq ρ] (h : Heap κ ρ δ) (a : Nat) (p : ρ) (k : κ)
    (d : δ) : Nat × Heap κ ρ δ :=
  match h.find a p k with
  | some b => (b, h)
  | none => (h.size, h.create a p k d)

def Heap.walk [DecidableEq κ] (h : Heap κ ρ δ) : Nat → List (ρ × κ) → Option Nat
  | a, [] => some a
  | a, (p, k) :: path => match h.find a p k with
    | some b => h.walk b path
    | none => none

/-- The lookup; `t` is the text of the node at `a`. -/
def Heap.enter [DecidableEq κ] [DecidableEq ρ] (join : τ → ρ → κ → τ) (new : ρ → τ → δ) :
    Heap κ ρ δ → τ → Nat → List (ρ × κ) → Nat × Heap κ ρ δ
  | h, _, a, [] => (a, h)
  | h, t, a, (p, k) :: path =>
    (h.findOrCreate a p k (new p (join t p k))).2.enter join new (join t p k)
      (h.findOrCreate a p k (new p (join t p k))).1 path

/-! ## Heaps that grow -/

def Heap.Closed (h : Heap κ ρ δ) : Prop := ∀ a < h.size, ∀ p, ∀ b ∈ (h.node a).kids p, b < h.size

structure Heap.Extends (h h' : Heap κ ρ δ) : Prop where
  size_le : h.size ≤ h'.size
  name_eq : ∀ a < h.size, (h'.node a).name = (h.node a).name
  data_eq : ∀ a < h.size, (h'.node a).data = (h.node a).data
  kids_grow : ∀ a < h.size, ∀ p, (h.node a).kids p <+: (h'.node a).kids p

variable {h h' h'' : Heap κ ρ δ} {a b : Nat} {p : ρ} {k : κ} {path : List (ρ × κ)}

theorem Heap.Extends.refl (h : Heap κ ρ δ) : h.Extends h :=
  ⟨le_rfl, fun _ _ => rfl, fun _ _ => rfl, fun _ _ _ => prefix_rfl⟩

theorem Heap.Extends.trans (h₁ : h.Extends h') (h₂ : h'.Extends h'') : h.Extends h'' where
  size_le := h₁.size_le.trans h₂.size_le
  name_eq := fun a ha => (h₂.name_eq a (ha.trans_le h₁.size_le)).trans (h₁.name_eq a ha)
  data_eq := fun a ha => (h₂.data_eq a (ha.trans_le h₁.size_le)).trans (h₁.data_eq a ha)
  kids_grow := fun a ha p => (h₁.kids_grow a ha p).trans (h₂.kids_grow a (ha.trans_le h₁.size_le) p)

section Find
variable [DecidableEq κ]

theorem Heap.find_mem (hf : h.find a p k = some b) :
    b ∈ (h.node a).kids p ∧ (h.node b).name = k := by
  exact ⟨mem_of_find?_eq_some hf, by simpa using find?_some hf⟩

theorem Heap.find_extends (hc : h.Closed) (he : h.Extends h') (ha : a < h.size)
    (hf : h.find a p k = some b) : h'.find a p k = some b := by
  obtain ⟨more, hmore⟩ := he.kids_grow a ha p
  have hold : ((h.node a).kids p).find? (fun b => (h'.node b).name = k) = some b := by
    rw [← hf]
    refine find?_congr fun c hcmem => ?_
    rw [he.name_eq c (hc a ha p c hcmem)]
  rw [Heap.find, ← hmore, find?_append, hold]
  rfl

theorem Heap.walk_extends (hc : h.Closed) (he : h.Extends h') (ha : a < h.size)
    (hw : h.walk a path = some b) : h'.walk a path = some b := by
  induction path generalizing a with
  | nil => exact hw
  | cons step path ih =>
    obtain ⟨p, k⟩ := step
    rw [Heap.walk] at hw ⊢
    split at hw
    · next c hfound =>
      rw [Heap.find_extends hc he ha hfound]
      exact ih (hc a ha p c (Heap.find_mem hfound).1) hw
    · contradiction

end Find

/-! ## A new node -/

section Create
variable [DecidableEq ρ] {d : δ}

theorem Heap.create_node_new (h : Heap κ ρ δ) (a : Nat) (p : ρ) (k : κ) (d : δ) :
    (h.create a p k d).node h.size = ⟨k, d, fun _ => []⟩ := if_pos rfl

theorem Heap.create_kids (ha : a < h.size) :
    ((h.create a p k d).node a).kids p = (h.node a).kids p ++ [h.size] := by
  have hne : a ≠ h.size := by omega
  simp only [Heap.create, if_neg hne, if_true, update_self]

theorem Heap.create_node_old {b : Nat} (hb : b < h.size) :
    ((h.create a p k d).node b).name = (h.node b).name ∧
      ((h.create a p k d).node b).data = (h.node b).data := by
  have hne : b ≠ h.size := by omega
  by_cases hba : b = a
  · subst hba
    simp only [Heap.create, if_neg hne, if_true, and_self]
  · simp only [Heap.create, if_neg hne, if_neg hba, and_self]

theorem Heap.create_extends : h.Extends (h.create a p k d) where
  size_le := Nat.le_succ _
  name_eq := fun _ hb => (Heap.create_node_old hb).1
  data_eq := fun _ hb => (Heap.create_node_old hb).2
  kids_grow := by
    intro b hb q
    have hne : b ≠ h.size := by omega
    by_cases hba : b = a
    · simp only [Heap.create, if_neg hne, if_pos hba]
      rw [hba]
      by_cases hqp : q = p
      · rw [hqp, update_self]
        exact prefix_append _ _
      · simp only [update_of_ne hqp]
        exact prefix_rfl
    · simp only [Heap.create, if_neg hne, if_neg hba]
      exact prefix_rfl

theorem Heap.mem_create_kids {q : ρ} {b c : Nat} (hb : b < (h.create a p k d).size)
    (hc : c ∈ ((h.create a p k d).node b).kids q) :
    b < h.size ∧ (c ∈ (h.node b).kids q ∨ c = h.size ∧ b = a ∧ q = p) := by
  by_cases hnew : b = h.size
  · rw [hnew, Heap.create_node_new] at hc
    contradiction
  · have hlt : b < h.size := Nat.lt_of_le_of_ne (Nat.le_of_lt_succ hb) hnew
    refine ⟨hlt, ?_⟩
    by_cases hba : b = a
    · simp only [Heap.create, if_neg hnew, if_pos hba] at hc
      by_cases hqp : q = p
      · rw [hqp, update_self, mem_append, mem_singleton] at hc
        rw [hba, hqp]
        exact hc.imp_right fun hc => ⟨hc, rfl, rfl⟩
      · rw [update_of_ne hqp] at hc
        rw [hba]
        exact .inl hc
    · simp only [Heap.create, if_neg hnew, if_neg hba] at hc
      exact .inl hc

theorem Heap.Closed.create (hc : h.Closed) : (h.create a p k d).Closed := by
  intro b hb q c hcmem
  obtain ⟨hlt, hold | ⟨rfl, _⟩⟩ := Heap.mem_create_kids hb hcmem
  · exact Nat.lt_succ_of_lt (hc b hlt q c hold)
  · exact Nat.lt_succ_self _

theorem Heap.find_create [DecidableEq κ] (hc : h.Closed) (ha : a < h.size)
    (hf : h.find a p k = none) : (h.create a p k d).find a p k = some h.size := by
  have hold : ((h.node a).kids p).find? (fun b => ((h.create a p k d).node b).name = k) =
      none := by
    rw [← hf]
    refine find?_congr fun c hcmem => ?_
    rw [Heap.create_extends.name_eq c (hc a ha p c hcmem)]
  rw [Heap.find, Heap.create_kids ha, find?_append, hold]
  simp [Heap.create_node_new]

end Create

/-- `text` follows the tree from parent to child, and the data follow it. -/
def Labelled (join : τ → ρ → κ → τ) (new : ρ → τ → δ) (h : Heap κ ρ δ) (text : Nat → τ) : Prop :=
  ∀ a < h.size, ∀ p, ∀ b ∈ (h.node a).kids p,
    text b = join (text a) p (h.node b).name ∧ (h.node b).data = new p (text b)

variable {join : τ → ρ → κ → τ} {new : ρ → τ → δ} {text : Nat → τ}

section
variable (hl : Labelled join new h text) (hc : h.Closed) (ha : a < h.size)
include hl hc ha

theorem Labelled.walk_text [DecidableEq κ] (hw : h.walk a path = some b) :
    text b = path.foldl (fun t step => join t step.1 step.2) (text a) := by
  induction path generalizing a with
  | nil =>
    obtain rfl := Option.some.inj hw
    rfl
  | cons step path ih =>
    obtain ⟨p, k⟩ := step
    rw [Heap.walk] at hw
    split at hw
    · next c hfound =>
      obtain ⟨hmem, hname⟩ := Heap.find_mem hfound
      rw [ih (hc a ha p c hmem) hw, (hl a ha p c hmem).1, hname]
      rfl
    · contradiction

theorem Labelled.walk_data [DecidableEq κ] (hw : h.walk a (path ++ [(p, k)]) = some b) :
    (h.node b).data = new p (text b) := by
  induction path generalizing a with
  | nil =>
    rw [nil_append, Heap.walk] at hw
    split at hw
    · next c hfound =>
      obtain rfl := Option.some.inj hw
      exact (hl a ha p c (Heap.find_mem hfound).1).2
    · contradiction
  | cons step path ih =>
    obtain ⟨q, l⟩ := step
    rw [cons_append, Heap.walk] at hw
    split at hw
    · next c hfound => exact ih (hc a ha q c (Heap.find_mem hfound).1) hw
    · contradiction

theorem Labelled.create [DecidableEq ρ] :
    Labelled join new (h.create a p k (new p (join (text a) p k)))
      (update text h.size (join (text a) p k)) := by
  have hold : ∀ b < h.size, update text h.size (join (text a) p k) b = text b :=
    fun b hb => update_of_ne (ne_of_lt hb) _ _
  intro b hb q c hcmem
  obtain ⟨hlt, hkid | ⟨rfl, rfl, rfl⟩⟩ := Heap.mem_create_kids hb hcmem
  · have hclt := hc b hlt q c hkid
    rw [hold b hlt, hold c hclt, Heap.create_extends.name_eq c hclt,
      Heap.create_extends.data_eq c hclt]
    exact hl b hlt q c hkid
  · rw [hold b hlt, update_self, Heap.create_node_new]
    exact ⟨rfl, rfl⟩

end

section Alloc
variable {d : δ}

theorem Heap.alloc_node_new (h : Heap κ ρ δ) (k : κ) (d : δ) :
    (h.alloc k d).node h.size = ⟨k, d, fun _ => []⟩ := update_self _ _ _

theorem Heap.alloc_node (ha : a < h.size) : (h.alloc k d).node a = h.node a :=
  update_of_ne (ne_of_lt ha) _ _

theorem Heap.alloc_extends : h.Extends (h.alloc k d) where
  size_le := Nat.le_succ _
  name_eq := fun _ ha => congrArg Node.name (Heap.alloc_node ha)
  data_eq := fun _ ha => congrArg Node.data (Heap.alloc_node ha)
  kids_grow := by
    intro b hb q
    simp only [Heap.alloc_node hb]
    exact prefix_rfl

theorem Heap.mem_alloc_kids (hb : b < (h.alloc k d).size) {c : Nat}
    (hc : c ∈ ((h.alloc k d).node b).kids p) : b < h.size ∧ c ∈ (h.node b).kids p := by
  by_cases hnew : b = h.size
  · rw [hnew, Heap.alloc_node_new] at hc
    contradiction
  · have hlt : b < h.size := Nat.lt_of_le_of_ne (Nat.le_of_lt_succ hb) hnew
    rw [Heap.alloc_node hlt] at hc
    exact ⟨hlt, hc⟩

theorem Heap.Closed.alloc (hc : h.Closed) : (h.alloc k d).Closed := by
  intro b hb q c hcmem
  obtain ⟨hlt, hkid⟩ := Heap.mem_alloc_kids hb hcmem
  exact Nat.lt_succ_of_lt (hc b hlt q c hkid)

theorem Labelled.alloc (hl : Labelled join new h text) (hc : h.Closed) :
    Labelled join new (h.alloc k d) text := by
  intro b hb q c hcmem
  obtain ⟨hlt, hkid⟩ := Heap.mem_alloc_kids hb hcmem
  rw [Heap.alloc_node (hc b hlt q c hkid)]
  exact hl b hlt q c hkid

end Alloc

/-- A lookup leaves the old heap, the answer along the path, and a text that agrees. -/
structure Looked [DecidableEq κ] (join : τ → ρ → κ → τ) (new : ρ → τ → δ) (h : Heap κ ρ δ)
    (text : Nat → τ) (a : Nat) (path : List (ρ × κ)) (r : Nat × Heap κ ρ δ) : Prop where
  closed : r.2.Closed
  extended : h.Extends r.2
  lt : r.1 < r.2.size
  walk : r.2.walk a path = some r.1
  labelled : ∃ text', Labelled join new r.2 text' ∧ ∀ b < h.size, text' b = text b

variable [DecidableEq κ]

theorem findOrCreate_spec [DecidableEq ρ] (hl : Labelled join new h text) (hc : h.Closed)
    (ha : a < h.size) :
    Looked join new h text a [(p, k)] (h.findOrCreate a p k (new p (join (text a) p k))) := by
  unfold Heap.findOrCreate
  split
  · next b hfound =>
    refine ⟨hc, .refl h, hc a ha p b (Heap.find_mem hfound).1, ?_, text, hl, fun _ _ => rfl⟩
    simp only [Heap.walk, hfound]
  · next hmissing =>
    refine ⟨hc.create, Heap.create_extends, Nat.lt_succ_self _, ?_, _, hl.create hc ha, ?_⟩
    · simp only [Heap.walk, Heap.find_create hc ha hmissing]
    · exact fun b hb => update_of_ne (ne_of_lt hb) _ _

theorem Heap.walk_cons {step : ρ × κ} (h₁ : h.walk a [step] = some b)
    (h₂ : h.walk b path = h'.walk b path) : h.walk a (step :: path) = h'.walk b path := by
  rw [Heap.walk] at h₁ ⊢
  split at h₁
  · next c hfound =>
    obtain rfl := Option.some.inj h₁
    exact h₂
  · contradiction

/-- **A lookup finds its node again**, and the text of the node is that of the path. -/
theorem enter_spec [DecidableEq ρ] (hl : Labelled join new h text) (hc : h.Closed)
    (ha : a < h.size) (path : List (ρ × κ)) :
    Looked join new h text a path (h.enter join new (text a) a path) := by
  induction path generalizing h text a with
  | nil => exact ⟨hc, .refl h, ha, rfl, text, hl, fun _ _ => rfl⟩
  | cons step path ih =>
    obtain ⟨p, k⟩ := step
    have hfirst := findOrCreate_spec (p := p) (k := k) hl hc ha
    obtain ⟨text₁, hl₁, hagree₁⟩ := hfirst.labelled
    have ha₁ : a < (h.findOrCreate a p k (new p (join (text a) p k))).2.size :=
      ha.trans_le hfirst.extended.size_le
    have htext : text₁ (h.findOrCreate a p k (new p (join (text a) p k))).1 =
        join (text a) p k := by
      rw [hl₁.walk_text hfirst.closed ha₁ hfirst.walk, ← hagree₁ a ha]
      rfl
    have hrest := ih hl₁ hfirst.closed hfirst.lt
    rw [htext] at hrest
    obtain ⟨text₂, hl₂, hagree₂⟩ := hrest.labelled
    refine ⟨hrest.closed, hfirst.extended.trans hrest.extended, hrest.lt, ?_, text₂, hl₂, ?_⟩
    · have hstep := Heap.walk_extends hfirst.closed hrest.extended ha₁ hfirst.walk
      exact (Heap.walk_cons hstep rfl).trans hrest.walk
    · intro b hb
      rw [hagree₂ b (hb.trans_le hfirst.extended.size_le), hagree₁ b hb]

end FindOrCreate
