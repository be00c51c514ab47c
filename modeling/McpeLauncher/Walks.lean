import Mathlib
import McpeLauncher.Runs

/-! # Walks

A walk follows a relation in which at most one place follows a place. Over finitely many places it
ends exactly if it comes to no place from which it returns to it. The rounds of a loop are a walk
(`runLoop_iff`), so that the end of the loop is a matter of what its steps lead to. -/
namespace Walks
open Relation Runs
variable {σ : Type} {R : σ → σ → Prop} {s t u : σ}

/-- Nothing follows the last place. -/
def Ends (R : σ → σ → Prop) (s t : σ) : Prop := ReflTransGen R s t ∧ ∀ u, ¬ R t u

/-- The walk comes to no place to which it returns. -/
def NoReturn (R : σ → σ → Prop) (s : σ) : Prop := ∀ t, ReflTransGen R s t → ¬ TransGen R t t

section Unique
variable (hR : Relator.RightUnique R)
include hR

theorem Ends.unique (h : Ends R s t) (h' : Ends R s u) : t = u := by
  rcases h.1.total_of_right_unique hR h'.1 with htu | hut
  · rcases htu.cases_head with heq | ⟨v, hv, -⟩
    · exact heq
    · exact absurd hv (h.2 v)
  · rcases hut.cases_head with heq | ⟨v, hv, -⟩
    · exact heq.symm
    · exact absurd hv (h'.2 v)

/-- A walk stays on a cycle. -/
theorem transGen_self (hcycle : TransGen R s s) (h : ReflTransGen R s t) : TransGen R t t := by
  induction h with
  | refl => exact hcycle
  | @tail u v _ huv ih =>
    obtain ⟨w, huw, hwu⟩ := TransGen.head'_iff.mp ih
    obtain rfl := hR huv huw
    exact TransGen.tail' hwu huv

/-- **A walk over finitely many places ends exactly if it never returns.** -/
theorem ends_iff (places : Set σ) [Finite places] (hplaces : ∀ s t, R s t → s ∈ places) :
    (∃ t, Ends R s t) ↔ NoReturn R s := by
  constructor
  · rintro ⟨u, hsu, hend⟩ t hst hcycle
    have hut : ReflTransGen R t u := by
      rcases hst.total_of_right_unique hR hsu with htu | hut
      · exact htu
      · rcases hut.cases_head with rfl | ⟨v, hv, -⟩
        · exact .refl
        · exact absurd hv (hend v)
    obtain ⟨v, hv, -⟩ := TransGen.head'_iff.mp (transGen_self hR hcycle hut)
    exact hend v hv
  · intro hapart
    by_contra hnever
    have hgoes : ∀ t, ReflTransGen R s t → ∃ u, R t u := by
      intro t hst
      by_contra hend
      exact hnever ⟨t, hst, fun u hu => hend ⟨u, hu⟩⟩
    -- the walk comes to places only, and on these what is farther along is well-founded
    let Reached := {t // ReflTransGen R s t}
    have : Finite Reached := by
      refine Finite.of_injective (fun t : Reached => (⟨t.1, ?_⟩ : places)) ?_
      · obtain ⟨u, hu⟩ := hgoes t.1 t.2
        exact hplaces _ _ hu
      · exact fun t t' heq => Subtype.ext (Subtype.mk.inj heq)
    let farther : Reached → Reached → Prop := fun t u => TransGen R u.1 t.1
    have : IsTrans Reached farther := ⟨fun _ _ _ htu huv => huv.trans htu⟩
    have : Std.Irrefl farther := ⟨fun t hcycle => hapart t.1 t.2 hcycle⟩
    obtain ⟨t, -, hmin⟩ := (Finite.wellFounded_of_trans_of_irrefl farther).has_min Set.univ
      ⟨⟨s, .refl⟩, trivial⟩
    obtain ⟨u, hu⟩ := hgoes t.1 t.2
    exact hmin ⟨u, t.2.tail hu⟩ trivial (.single hu)

end Unique

def Again (step : σ → Next σ) (s t : σ) : Prop := step s = .again t

theorem again_rightUnique (step : σ → Next σ) : Relator.RightUnique (Again step) :=
  fun _ _ _ ht hu => Next.again.inj (ht.symm.trans hu)

theorem runLoop_iff {step : σ → Next σ} {e : Next σ} (he : ∀ t, e ≠ .again t) :
    (∃ n, (runLoop step n s).1 = e) ↔ ∃ t, ReflTransGen (Again step) s t ∧ step t = e := by
  constructor
  · rintro ⟨n, hn⟩
    induction n generalizing s with
    | zero => exact absurd hn.symm (he s)
    | succ n ih =>
      rw [runLoop] at hn
      rcases hstep : step s with t | t | t
      · rw [hstep] at hn
        obtain ⟨u, hu, hend⟩ := ih hn
        exact ⟨u, .head hstep hu, hend⟩
      · rw [hstep] at hn
        exact ⟨s, .refl, hstep.trans hn⟩
      · rw [hstep] at hn
        exact ⟨s, .refl, hstep.trans hn⟩
  · rintro ⟨t, hst, hend⟩
    induction hst using ReflTransGen.head_induction_on with
    | refl =>
      refine ⟨1, ?_⟩
      rw [runLoop, hend]
      rcases e with u | u | u
      · exact absurd rfl (he u)
      · rfl
      · rfl
    | head hstep _ ih =>
      obtain ⟨n, hn⟩ := ih
      refine ⟨n + 1, ?_⟩
      rw [runLoop, hstep]
      exact hn

end Walks
