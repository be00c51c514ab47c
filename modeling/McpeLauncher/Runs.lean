import Mathlib.Data.List.Basic
import Mathlib.Data.List.Induction

/-! # Runs of a machine

A machine is `step : σ → α → σ`, and a run ends in `List.foldl step s as`. `Along` says that every
input was admissible, `invariant` is the rule of all safety results, and `lockstep_iff` compares two
machines. A loop is a step that says whether to go on; `Endless` is a run that never ends. -/
namespace Runs
open List
variable {σ α : Type} {as : List α} {n : Nat} {s : σ} {ok : σ → α → Prop}

/-- Every input of the run from `s` satisfies `ok` in the state it is taken in. -/
def Along (step : σ → α → σ) (ok : σ → α → Prop) : σ → List α → Prop
  | _, [] => True
  | s, a :: as => ok s a ∧ Along step ok (step s a) as

instance Along.decidable (step : σ → α → σ) (ok : σ → α → Prop) [∀ s a, Decidable (ok s a)] :
    ∀ s as, Decidable (Along step ok s as)
  | _, [] => isTrue trivial
  | s, a :: as =>
    have := Along.decidable step ok (step s a) as
    inferInstanceAs (Decidable (ok s a ∧ Along step ok (step s a) as))

section
variable {step : σ → α → σ}

theorem along_of_forall {ok : α → Prop} (h : ∀ a ∈ as, ok a) (s : σ) :
    Along step (fun _ => ok) s as := by
  induction as generalizing s with
  | nil => trivial
  | cons a as ih => exact ⟨h a (by simp), ih (fun b hb => h b (by simp [hb])) _⟩

theorem along_const_iff {ok : α → Prop} (s : σ) :
    Along step (fun _ => ok) s as ↔ ∀ a ∈ as, ok a := by
  refine ⟨fun h => ?_, fun h => along_of_forall h s⟩
  induction as generalizing s with
  | nil => simp
  | cons a as ih =>
    rw [forall_mem_cons]
    exact ⟨h.1, ih _ h.2⟩

/-- **The invariant rule.** -/
theorem invariant (Inv : σ → Prop) (hstep : ∀ s a, Inv s → ok s a → Inv (step s a)) (hs : Inv s)
    (has : Along step ok s as) : Inv (as.foldl step s) := by
  induction as generalizing s with
  | nil => exact hs
  | cons a as ih =>
    obtain ⟨ha, hrest⟩ := has
    exact ih (hstep s a hs ha) hrest

/-- The invariant rule for machines whose every input is admissible. -/
theorem invariant_all (Inv : σ → Prop) (hstep : ∀ s a, Inv s → Inv (step s a)) (hs : Inv s)
    (as : List α) : Inv (as.foldl step s) := by
  induction as generalizing s with
  | nil => exact hs
  | cons a as ih => exact ih (hstep s a hs)

theorem along_append {bs : List α} :
    Along step ok s (as ++ bs) ↔
      Along step ok s as ∧ Along step ok (as.foldl step s) bs := by
  induction as generalizing s with
  | nil => simp [Along]
  | cons a as ih => simp only [cons_append, Along, ih, foldl_cons, and_assoc]

/-- **A property that is lost with the first inadmissible input** holds after every front of
a run exactly if the run is admissible. -/
theorem forall_front_iff (Inv Good : σ → Prop) (hgood : ∀ s, Inv s → Good s)
    (hstep : ∀ s a, Inv s → ok s a → Inv (step s a))
    (hlost : ∀ s a, Inv s → Good (step s a) → ok s a) (hs : Inv s) (as : List α) :
    (∀ bs, bs <+: as → Good (bs.foldl step s)) ↔ Along step ok s as := by
  constructor
  · intro h
    induction as generalizing s with
    | nil => trivial
    | cons a as ih =>
      have ha := hlost s a hs (h [a] (by simp))
      refine ⟨ha, ih (hstep s a hs ha) fun bs hbs => ?_⟩
      exact h (a :: bs) (cons_prefix_cons.mpr ⟨rfl, hbs⟩)
  · rintro h bs ⟨cs, rfl⟩
    exact hgood _ (invariant Inv hstep hs (along_append.mp h).1)

/-- A condition that follows from another one wherever an invariant holds. -/
theorem Along.imp {ok' : σ → α → Prop} (Inv : σ → Prop)
    (hstep : ∀ s a, Inv s → ok s a → Inv (step s a)) (himp : ∀ s a, Inv s → ok s a → ok' s a)
    (hs : Inv s) (has : Along step ok s as) : Along step ok' s as := by
  induction as generalizing s with
  | nil => trivial
  | cons a as ih =>
    obtain ⟨ha, hrest⟩ := has
    exact ⟨himp s a hs ha, ih (hstep s a hs ha) hrest⟩

/-- **Two machines along one run.** While every input is admissible for the first, its condition can
be read off the second, as long as a relation between them is kept. -/
theorem along_iff {τ : Type} {step' : τ → α → τ} {env : σ → α → Prop} {ok' : τ → α → Prop}
    (R : σ → τ → Prop) (hok : ∀ s t a, R s t → env s a → (ok s a ↔ ok' t a))
    (hstep : ∀ s t a, R s t → env s a → ok s a → R (step s a) (step' t a)) {t : τ} (hR : R s t)
    (henv : Along step env s as) : Along step ok s as ↔ Along step' ok' t as := by
  induction as generalizing s t with
  | nil => exact Iff.rfl
  | cons a as ih =>
    obtain ⟨ha, hrest⟩ := henv
    rw [Along, Along, hok s t a hR ha]
    refine and_congr_right fun hok' => ?_
    exact ih (hstep s t a hR ha ((hok s t a hR ha).mpr hok')) hrest

/-- **The last report is up to date.**  A report of an input gives the value of `view` after
it, and an input without a report leaves that value as it is. -/
theorem last_report {β : Type} {report : α → Option β} {view : σ → β}
    (hsome : ∀ s, ∀ a ∈ as, ∀ v, report a = some v → view (step s a) = v)
    (hnone : ∀ s, ∀ a ∈ as, report a = none → view (step s a) = view s) (s : σ) {v : β}
    (hlast : (as.filterMap report).getLast? = some v) : view (as.foldl step s) = v := by
  induction as using reverseRecOn generalizing v with
  | nil => exact absurd hlast (by simp)
  | append_singleton as a ih =>
    rw [foldl_append, foldl_cons, foldl_nil]
    rcases hreport : report a with _ | w
    · rw [hnone _ a (by simp) hreport]
      apply ih (fun s b hb => hsome s b (by simp [hb])) (fun s b hb => hnone s b (by simp [hb]))
      simpa [hreport] using hlast
    · rw [hsome _ a (by simp) w hreport]
      simpa [hreport] using hlast

end

section Lockstep
variable {τ β : Type}

/-- What a machine with outputs answers to its inputs. -/
def outputs (step : σ → α → β × σ) : σ → List α → List β
  | _, [] => []
  | s, a :: as => (step s a).1 :: outputs step (step s a).2 as

def final (step : σ → α → β × σ) (s : σ) (as : List α) : σ := as.foldl (fun s a => (step s a).2) s

/-- **The rule of lockstep.**  Two machines give the same answers and stay related along a
run exactly if every input is one that both treat alike. -/
theorem lockstep_iff {left : σ → α → β × σ} {right : τ → α → β × τ} {R : σ → τ → Prop}
    (hstep : ∀ s t a, R s t →
      ((left s a).1 = (right t a).1 ∧ R (left s a).2 (right t a).2 ↔ ok s a)) {t : τ} (hR : R s t)
    (as : List α) :
    (∀ bs, bs <+: as → outputs left s bs = outputs right t bs ∧
        R (final left s bs) (final right t bs)) ↔
      Along (fun s a => (left s a).2) ok s as := by
  induction as generalizing s t with
  | nil =>
    refine iff_of_true (fun bs hbs => ?_) trivial
    obtain rfl := prefix_nil.mp hbs
    exact ⟨rfl, hR⟩
  | cons a as ih =>
    constructor
    · intro h
      obtain ⟨hout, hrel⟩ := h [a] (by simp)
      have hfirst : (left s a).1 = (right t a).1 := head_eq_of_cons_eq hout
      refine ⟨(hstep s t a hR).mp ⟨hfirst, hrel⟩, (ih hrel).mp fun bs hbs => ?_⟩
      obtain ⟨hrest, hend⟩ := h (a :: bs) (cons_prefix_cons.mpr ⟨rfl, hbs⟩)
      exact ⟨tail_eq_of_cons_eq hrest, hend⟩
    · rintro ⟨ha, hrest⟩ bs hbs
      obtain ⟨hfirst, hrel⟩ := (hstep s t a hR).mpr ha
      cases bs with
      | nil => exact ⟨rfl, hR⟩
      | cons b bs =>
        obtain ⟨rfl, hfront⟩ := cons_prefix_cons.mp hbs
        obtain ⟨hout, hend⟩ := (ih hrel).mpr hrest bs hfront
        exact ⟨cons_eq_cons.mpr ⟨hfirst, hout⟩, hend⟩

end Lockstep

/-- Another round, the end of the loop, or a failure inside of it. -/
inductive Next (σ : Type) where
  | again (s : σ)
  | done (s : σ)
  | failed (s : σ)

/-- At most so many rounds of a loop, with the number of those that were gone
through. -/
def runLoop (step : σ → Next σ) : Nat → σ → Next σ × Nat
  | 0, s => (.again s, 0)
  | n + 1, s => match step s with
    | .again s =>
      let (end_, rounds) := runLoop step n s
      (end_, rounds + 1)
    | end_ => (end_, 0)

/-- **Bounded loops end.**  `Inv s k` says that the loop stands at `s` with `k` left
to do. -/
theorem runLoop_finishes {step : σ → Next σ} (Inv : σ → Nat → Prop) (hstep : ∀ s k, Inv s k →
      (∃ s', step s = .done s') ∨ ∃ s' k', step s = .again s' ∧ k' < k ∧ Inv s' k') {k : Nat}
    (hs : Inv s k) (hn : k < n) :
    ∃ s' rounds, runLoop step n s = (.done s', rounds) ∧ rounds ≤ k := by
  induction n generalizing s k with
  | zero => exact absurd hn (Nat.not_lt_zero k)
  | succ n ih =>
    rcases hstep s k hs with ⟨s', hdone⟩ | ⟨s', k', hagain, hlt, hs'⟩
    · refine ⟨s', 0, ?_, Nat.zero_le k⟩
      simp only [runLoop, hdone]
    · obtain ⟨s'', rounds, hrun, hle⟩ := ih hs' (Nat.lt_of_lt_of_le hlt (Nat.lt_succ_iff.mp hn))
      refine ⟨s'', rounds + 1, ?_, Nat.lt_of_le_of_lt hle hlt⟩
      simp only [runLoop, hagain, hrun]

/-! ## Steps that may be refused -/

/-- The invariant rule for finite runs. -/
theorem invariant_some {step : σ → α → Option σ} (Inv : σ → Prop)
    (hstep : ∀ s a s', Inv s → step s a = some s' → Inv s') {s' : σ} (hs : Inv s)
    (hrun : as.foldlM step s = some s') : Inv s' := by
  induction as generalizing s with
  | nil =>
    cases hrun
    exact hs
  | cons a as ih =>
    obtain ⟨s₁, hfirst, hrest⟩ := Option.bind_eq_some_iff.mp hrun
    exact ih (hstep s a s₁ hs hfirst) hrest

/-- A run that never ends; with no action it stands still. -/
structure Endless (step : σ → α → Option σ) where
  state : Nat → σ
  action : Nat → Option α
  stays : ∀ n, action n = none → state (n + 1) = state n
  moves : ∀ n a, action n = some a → step (state n) a = some (state (n + 1))

namespace Endless
variable {step : σ → α → Option σ} (r : Endless step)

/-- Weak fairness: where one of the actions is enabled, one is taken in the end, or none
is enabled any more. -/
def Fair (enabled : σ → Prop) (acts : α → Prop) : Prop :=
  ∀ n, enabled (r.state n) →
    ∃ m ≥ n, (∃ a, r.action m = some a ∧ acts a) ∨ ¬ enabled (r.state m)

variable {r}

theorem invariant (Inv : σ → Prop) (hstep : ∀ s a s', Inv s → step s a = some s' → Inv s')
    (hstart : Inv (r.state 0)) (n : Nat) : Inv (r.state n) := by
  induction n with
  | zero => exact hstart
  | succ n ih =>
    rcases haction : r.action n with _ | a
    · rw [r.stays n haction]
      exact ih
    · exact hstep _ a _ ih (r.moves n a haction)

/-- What holds until something happens still holds later, if it has not happened. -/
theorem until_later {P Q : σ → Prop} (hstep : ∀ s a s', P s → step s a = some s' → P s' ∨ Q s')
    (h : P (r.state n)) (k : Nat) : P (r.state (n + k)) ∨ ∃ m ≥ n, Q (r.state m) := by
  induction k with
  | zero => exact .inl h
  | succ k ih =>
    rcases ih with hP | hQ
    · rcases haction : r.action (n + k) with _ | a
      · refine .inl ?_
        rw [← Nat.add_assoc, r.stays _ haction]
        exact hP
      · rcases hstep _ a _ hP (r.moves _ a haction) with hP | hQ
        · exact .inl hP
        · exact .inr ⟨n + k + 1, by omega, hQ⟩
    · exact .inr hQ

/-- **The rule of weak fairness.**  What enables an action, lasts until `Q` holds, and
is turned into `Q` by the action, leads to `Q`. -/
theorem eventually {enabled : σ → Prop} {acts : α → Prop} (hfair : r.Fair enabled acts)
    {P Q : σ → Prop} (henabled : ∀ s, P s → enabled s)
    (hstep : ∀ s a s', P s → step s a = some s' → P s' ∨ Q s')
    (hact : ∀ s a s', P s → acts a → step s a = some s' → Q s') (h : P (r.state n)) :
    ∃ m ≥ n, Q (r.state m) := by
  obtain ⟨m, hm, hdone⟩ := hfair n (henabled _ h)
  obtain ⟨k, rfl⟩ := Nat.exists_eq_add_of_le hm
  rcases until_later hstep h k with hP | hQ
  · rcases hdone with ⟨a, haction, ha⟩ | hdisabled
    · exact ⟨n + k + 1, by omega, hact _ a _ hP ha (r.moves _ a haction)⟩
    · exact absurd (henabled _ hP) hdisabled
  · exact hQ

/-- A finite run, which then stands still. -/
def ofRun {s : σ} {as : List α} (h : as.foldlM step s ≠ none) : Endless step where
  state n := ((as.take n).foldlM step s).getD s
  action n := as[n]?
  stays n hnone := by
    have hle := List.getElem?_eq_none_iff.mp hnone
    rw [List.take_of_length_le hle, List.take_of_length_le (Nat.le_succ_of_le hle)]
  moves n a ha := by
    have hall : as.foldlM step s = ((as.take n).foldlM step s).bind fun s₁ =>
        (as.drop n).foldlM step s₁ := by
      nth_rewrite 1 [← List.take_append_drop n as]
      exact List.foldlM_append
    obtain ⟨hlt, hget⟩ := List.getElem?_eq_some_iff.mp ha
    rcases hbefore : (as.take n).foldlM step s with _ | s₁
    · rw [hbefore] at hall
      exact absurd hall h
    · rw [hbefore, Option.bind_some, List.drop_eq_getElem_cons hlt, hget, List.foldlM_cons] at hall
      have hnext : (as.take (n + 1)).foldlM step s = step s₁ a := by
        rw [List.take_succ_eq_append_getElem hlt, hget, List.foldlM_append, hbefore]
        exact (Option.bind_some _ _).trans (Option.bind_fun_some _)
      rw [hnext]
      rcases hstep : step s₁ a with _ | s₂
      · rw [hstep] at hall
        exact absurd hall h
      · exact hstep

end Endless

end Runs
