import LibFastPaxos.Lib.Transition
import Mathlib.Logic.Relation

/-!
Refinement between two labelled transition systems, by a map from the states of the
one to the states of the other, both with their guards; runs of which an observer sees a
part only, and loops that two representations go through side by side.
-/

namespace Transition

universe u v w x y z
variable {σ : Type u} {α : Type v} {τ : Type w} {β : Type x} {υ : Type y} {γ : Type z}
  {M : System σ α} {guard : σ → α → Prop} {N : System τ β} {allowed : τ → β → Prop}
  {P : System υ γ} {permitted : υ → γ → Prop} {f : σ → τ} {g : τ → υ}

/-- Some step of the system that meets the guard. -/
def System.Moves (N : System τ β) (allowed : τ → β → Prop) (s t : τ) : Prop :=
  ∃ b, allowed s b ∧ N.step s b t

/-- Seen through the map, a step of `M` under its guard is steps of `N` under its own. -/
structure RefinementMap (M : System σ α) (guard : σ → α → Prop) (N : System τ β)
    (allowed : τ → β → Prop) (f : σ → τ) : Prop where
  start : ∀ s, M.init s → N.init (f s)
  step : ∀ s a t, Reachable M guard s → guard s a → M.step s a t →
    Relation.ReflTransGen (N.Moves allowed) (f s) (f t)

theorem Reachable.moves {s t : τ} (before : Reachable N allowed s)
    (moves : Relation.ReflTransGen (N.Moves allowed) s t) : Reachable N allowed t := by
  induction moves with
  | refl => exact before
  | tail _ move ih =>
      obtain ⟨b, ok, hb⟩ := move
      exact .step ih ok hb

theorem RefinementMap.reachable (h : RefinementMap M guard N allowed f) {s : σ}
    (reach : Reachable M guard s) : Reachable N allowed (f s) := by
  induction reach with
  | init start => exact .init (h.start _ start)
  | step before ok move ih => exact ih.moves (h.step _ _ _ before ok move)

theorem RefinementMap.moves (h : RefinementMap N allowed P permitted g) {s t : τ}
    (before : Reachable N allowed s) (moves : Relation.ReflTransGen (N.Moves allowed) s t) :
    Relation.ReflTransGen (P.Moves permitted) (g s) (g t) := by
  induction moves with
  | refl => exact .refl
  | tail earlier move ih =>
      obtain ⟨b, ok, hb⟩ := move
      exact ih.trans (h.step _ b _ (before.moves earlier) ok hb)

/-- Refinements compose. -/
theorem RefinementMap.trans (h : RefinementMap M guard N allowed f)
    (h' : RefinementMap N allowed P permitted g) :
    RefinementMap M guard P permitted (g ∘ f) where
  start := fun s hs => h'.start (f s) (h.start s hs)
  step := fun s a t reach ok move => h'.moves (h.reachable reach) (h.step s a t reach ok move)

/-- An invariant of `M` under which each of its steps is one of `N`, or none. -/
theorem RefinementMap.of_invariant (Inv : σ → Prop) (start : ∀ s, M.init s → Inv s ∧ N.init (f s))
    (step : ∀ s a t, Inv s → guard s a → M.step s a t →
      Inv t ∧ (f t = f s ∨ N.Moves allowed (f s) (f t))) :
    RefinementMap M guard N allowed f where
  start := fun s hs => (start s hs).2
  step := by
    intro s a t reach ok move
    have hinv : Inv s := reach.invariant (fun s hs => (start s hs).1)
      fun s a t _ inv ok move => (step s a t inv ok move).1
    cases (step s a t hinv ok move).2 with
    | inl same => rw [same]
    | inr moves => exact .single moves

/-- An invariant of `M` under which its steps can follow every step of `N`. -/
theorem reachable_of_realised (Inv : σ → Prop)
    (start : ∀ s, N.init s → ∃ r, M.init r ∧ Inv r ∧ f r = s)
    (step : ∀ r b t, Inv r → allowed (f r) b → N.step (f r) b t →
      ∃ r', Inv r' ∧ f r' = t ∧ Relation.ReflTransGen (M.Moves guard) r r')
    {s : τ} (reach : Reachable N allowed s) : ∃ r, Reachable M guard r ∧ Inv r ∧ f r = s := by
  induction reach with
  | init hs =>
      obtain ⟨r, hr, inv, rfl⟩ := start _ hs
      exact ⟨r, .init hr, inv, rfl⟩
  | step before ok move ih =>
      obtain ⟨r, hr, inv, rfl⟩ := ih
      obtain ⟨r', inv', hview, hmoves⟩ := step r _ _ inv ok move
      exact ⟨r', hr.moves hmoves, inv', hview⟩

/-! ### Projection -/

section Projection

variable {ι : Type v} {ω : Type w} {step : σ → ι → σ} {part : ω → ι → ω} {view : σ → ω}
  {Inv : σ → Prop} {P : ι → Prop} {own : ι → Bool}

/-- The view moves with its own inputs only, and by itself. -/
structure Projects (step : σ → ι → σ) (part : ω → ι → ω) (view : σ → ω) (Inv : σ → Prop)
    (P : ι → Prop) (own : ι → Bool) : Prop where
  kept : ∀ s i, P i → Inv s → Inv (step s i)
  moves : ∀ s i, P i → Inv s → own i = true → view (step s i) = part (view s) i
  stays : ∀ s i, P i → Inv s → own i = false → view (step s i) = view s

/-- The view of a run is a run of its own inputs. -/
theorem Projects.run (h : Projects step part view Inv P own) {is : List ι}
    (inputs : ∀ i ∈ is, P i) {s : σ} (inv : Inv s) :
    Inv (is.foldl step s) ∧ view (is.foldl step s) = (is.filter own).foldl part (view s) := by
  induction is generalizing s with
  | nil => exact ⟨inv, rfl⟩
  | cons i is ih =>
      have hi := inputs i List.mem_cons_self
      obtain ⟨hinv, hview⟩ := ih (fun j hj => inputs j (List.mem_cons_of_mem i hj))
        (h.kept s i hi inv)
      refine ⟨hinv, ?_⟩
      rw [List.foldl_cons, hview]
      cases howned : own i with
      | true => rw [List.filter_cons_of_pos howned, List.foldl_cons, h.moves s i hi inv howned]
      | false => rw [List.filter_cons_of_neg (by simp [howned]), h.stays s i hi inv howned]

end Projection

/-! ### Loops side by side -/

section Loops

variable {ι : Type v} {β : Type w} {f : σ → ι → σ} {g : σ → β → ι → β}

/-- The second part follows the first, in the state that it finds. -/
def sideBySide (f : σ → ι → σ) (g : σ → β → ι → β) (p : σ × β) (i : ι) : σ × β :=
  (f p.1 i, g p.1 p.2 i)

theorem sideBySide_fst (is : List ι) (p : σ × β) :
    (is.foldl (sideBySide f g) p).1 = is.foldl f p.1 := by
  induction is generalizing p with
  | nil => rfl
  | cons i is ih => exact ih (sideBySide f g p i)

/-- What relates the parts is kept through the loop. -/
theorem foldl_sideBySide (R : σ → β → Prop) {is : List ι}
    (step : ∀ s b, ∀ i ∈ is, R s b → R (f s i) (g s b i)) {s : σ} {b : β} (rel : R s b) :
    R (is.foldl f s) (is.foldl (sideBySide f g) (s, b)).2 := by
  induction is generalizing s b with
  | nil => exact rel
  | cons i is ih =>
      have hnext := step s b i List.mem_cons_self rel
      exact ih (fun s b j hj => step s b j (List.mem_cons_of_mem i hj)) hnext

/-- What is seen of a loop that can fail is a loop of its own. -/
theorem foldlM_view {f : σ → ι → Option σ} {g : β → ι → Option β} {view : σ → β}
    (step : ∀ s i, (f s i).map view = g (view s) i) (is : List ι) (s : σ) :
    (is.foldlM f s).map view = is.foldlM g (view s) := by
  induction is generalizing s with
  | nil => rfl
  | cons i is ih =>
      rw [List.foldlM_cons, List.foldlM_cons, ← step]
      cases f s i with
      | none => rfl
      | some t => exact ih t

end Loops
end Transition
