import Mathlib.Data.Finset.Card
import Mathlib.Data.Fintype.Card
import Mathlib.Order.WellFounded

/-!
Voting in ballots. Acceptors accept votes, and a vote is chosen when a quorum accepted
it. The votes of a coordinator come at the higher ballots, one at each; the others are
fast, and no acceptor accepts two of those.
-/

namespace Voting

universe u v w x

structure Election (A : Type u) (V : Type v) (B : Type w) (C : Type x) [LinearOrder B] where
  accepted : A → V → Prop
  ballot : V → B
  content : V → C
  fast : V → Prop
  fast_below : ∀ v w, fast v → ¬ fast w → ballot v < ballot w
  one_fast : ∀ a v w, accepted a v → accepted a w → fast v → fast w → v = w
  one_vote : ∀ v w, ¬ fast v → ¬ fast w → ballot v = ballot w → v = w

namespace Election

variable {A : Type u} {V : Type v} {B : Type w} {C : Type x} [LinearOrder B]
  (E : Election A V B C)

/-- `q` acceptors accepted the vote. -/
def Chosen (q : Nat) (v : V) : Prop := ∃ Q : Finset A, q ≤ Q.card ∧ ∀ a ∈ Q, E.accepted a v

/-- The vote `w` has the content of `u`, the highest vote below it that the acceptor accepts. -/
structure Follows (w : V) (a : A) (u : V) : Prop where
  accepted : E.accepted a u
  content_eq : E.content w = E.content u
  below : E.ballot u < E.ballot w
  highest : ∀ v, E.accepted a v → E.ballot v < E.ballot w → E.ballot v ≤ E.ballot u

variable {E}

/-- When every vote of the coordinator follows one, those above a vote that all acceptors
accepted have its content. -/
theorem content_of_unanimous [WellFoundedLT B]
    (follows : ∀ w, ¬ E.fast w → ∃ a u, E.Follows w a u) {v : V} (all : ∀ a, E.accepted a v)
    (w : V) (coordinated : ¬ E.fast w) (above : E.ballot v ≤ E.ballot w) :
    E.content v = E.content w := by
  -- the induction is on the ballot of `w`
  induction hb : E.ballot w using WellFoundedLT.induction generalizing w with
  | ind b ih =>
      subst hb
      cases lt_or_eq_of_le above with
      | inl hlt =>
          obtain ⟨a, u, hu⟩ := follows w coordinated
          have hvu := hu.highest v (all a) hlt
          rw [hu.content_eq]
          by_cases hfast : E.fast u
          · have hv : E.fast v := by
              by_contra hv
              exact absurd hvu (not_le_of_gt (E.fast_below u v hfast hv))
            rw [E.one_fast a v u (all a) hu.accepted hv hfast]
          · exact ih (E.ballot u) hu.below u hfast hvu rfl
      | inr heq =>
          have hv : ¬ E.fast v := by
            intro hv
            exact absurd heq (ne_of_lt (E.fast_below v w hv coordinated))
          rw [E.one_vote v w hv coordinated heq]

/-- Two quorums have an acceptor in common. -/
theorem Chosen.meet [Fintype A] {q : Nat} (majority : Fintype.card A < 2 * q) {v w : V}
    (hv : E.Chosen q v) (hw : E.Chosen q w) : ∃ a, E.accepted a v ∧ E.accepted a w := by
  classical
  obtain ⟨Q, hQ, hall⟩ := hv
  obtain ⟨Q', hQ', hall'⟩ := hw
  have hcard : (Finset.univ : Finset A).card < Q.card + Q'.card := by
    rw [Finset.card_univ]
    omega
  obtain ⟨a, ha⟩ := Finset.inter_nonempty_of_card_lt_card_add_card (Finset.subset_univ Q)
    (Finset.subset_univ Q') hcard
  obtain ⟨hmem, hmem'⟩ := Finset.mem_inter.mp ha
  exact ⟨a, hall a hmem, hall' a hmem'⟩

/-- Chosen votes agree when the coordinator votes for what is chosen below its ballot. -/
theorem agreement [Fintype A] {q : Nat} (majority : Fintype.card A < 2 * q)
    (safe : ∀ v w, E.Chosen q v → ¬ E.fast w → E.ballot v < E.ballot w →
      E.content v = E.content w) {v w : V} (hv : E.Chosen q v) (hw : E.Chosen q w) :
    E.content v = E.content w := by
  by_cases fast : E.fast v
  · by_cases fast' : E.fast w
    · obtain ⟨a, ha, ha'⟩ := hv.meet majority hw
      rw [E.one_fast a v w ha ha' fast fast']
    · exact safe v w hv fast' (E.fast_below v w fast fast')
  · by_cases fast' : E.fast w
    · exact (safe w v hw fast (E.fast_below w v fast' fast)).symm
    · cases lt_trichotomy (E.ballot v) (E.ballot w) with
      | inl hlt => exact safe v w hv fast' hlt
      | inr hge =>
          cases hge with
          | inl heq => rw [E.one_vote v w fast fast' heq]
          | inr hgt => exact (safe w v hw fast hgt).symm

end Election
end Voting
