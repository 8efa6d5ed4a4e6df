import LibFastPaxos.Lib.Transition
import Mathlib.Order.Filter.AtTopBot.Basic

/-!
Infinite runs, for what happens sooner or later. A link may lose, repeat and reorder what
is sent over it, but of messages of a kind that is sent again and again some arrive again
and again.
-/

namespace Transition

open Filter

universe u v w
variable {σ : Type u} {α : Type v} {μ : Type w} {M : System σ α} {guard : σ → α → Prop}

/-- An infinite run. Nothing happens in a step without a label. -/
structure Execution (M : System σ α) (guard : σ → α → Prop) where
  state : Nat → σ
  label : Nat → Option α
  start : M.init (state 0)
  idle : ∀ n, label n = none → state (n + 1) = state n
  moves : ∀ n a, label n = some a → guard (state n) a ∧ M.step (state n) a (state (n + 1))

namespace Execution

variable (E : Execution M guard)

theorem reachable (n : Nat) : Reachable M guard (E.state n) := by
  induction n with
  | zero => exact .init E.start
  | succ n ih =>
      cases h : E.label n with
      | none => rwa [E.idle n h]
      | some a => exact .step ih (E.moves n a h).1 (E.moves n a h).2

/-- What every step keeps stays true from then on. -/
theorem persists {P : σ → Prop}
    (step : ∀ s a t, Reachable M guard s → guard s a → M.step s a t → P s → P t) {n m : Nat}
    (le : n ≤ m) (holds : P (E.state n)) : P (E.state m) := by
  induction le with
  | refl => exact holds
  | @step m _ ih =>
      cases h : E.label m with
      | none => rwa [E.idle m h]
      | some a => exact step _ a _ (E.reachable m) (E.moves m a h).1 (E.moves m a h).2 ih

theorem eventually {P : σ → Prop}
    (step : ∀ s a t, Reachable M guard s → guard s a → M.step s a t → P s → P t) {n : Nat}
    (holds : P (E.state n)) : ∀ᶠ m in atTop, P (E.state m) :=
  eventually_atTop.mpr ⟨n, fun _ le => E.persists step le holds⟩

end Execution

/-- The step at which something becomes true. -/
theorem exists_step {P : Nat → Prop} {n m : Nat} (le : n ≤ m) (before : ¬ P n) (after : P m) :
    ∃ k, n ≤ k ∧ ¬ P k ∧ P (k + 1) := by
  induction le with
  | refl => exact absurd after before
  | @step m le ih =>
      by_cases h : P m
      · exact ih h
      · exact ⟨m, le, h, after⟩

/-- Of messages of any kind that are sent infinitely often, some are received infinitely often. -/
def FairLink (sent received : Nat → Set μ) : Prop :=
  ∀ kind : Set μ, (∃ᶠ n in atTop, (sent n ∩ kind).Nonempty) →
    ∃ᶠ n in atTop, (received n ∩ kind).Nonempty

/-- Nothing is asked of a link over which nothing is sent after some time. -/
theorem FairLink.of_quiet {sent received : Nat → Set μ} {n : Nat}
    (quiet : ∀ m, n ≤ m → sent m = ∅) : FairLink sent received := by
  intro kind often
  obtain ⟨m, le, x, hx, -⟩ := frequently_atTop.mp often n
  rw [quiet m le] at hx
  cases hx

/-! ### A run that ends in a loop -/

section Loop

variable {f : σ → α → Option σ} {is : List α} {s t : σ} {last : α}

theorem foldlM_take_succ {n : Nat} (run : is.foldlM f s = some t) (lt : n < is.length) :
    ∃ u v, (is.take n).foldlM f s = some u ∧ f u is[n] = some v ∧
      (is.take (n + 1)).foldlM f s = some v := by
  induction is generalizing s n with
  | nil => cases lt
  | cons i is ih =>
      rw [List.foldlM_cons] at run
      obtain ⟨u, hu, rest⟩ := Option.bind_eq_some_iff.mp run
      cases n with
      | zero => exact ⟨s, u, rfl, hu, by simpa using hu⟩
      | succ n =>
          obtain ⟨v, w, hv, hw, hnext⟩ := ih rest (Nat.lt_of_succ_lt_succ lt)
          refine ⟨v, w, ?_, hw, ?_⟩
          · rw [List.take_succ_cons, List.foldlM_cons, hu]
            exact hv
          · rw [List.take_succ_cons, List.foldlM_cons, hu]
            exact hnext

/-- The guard holds in the state that a label of the run finds. -/
theorem Meets.get {n : Nat} {u : σ} (meets : Meets f guard s is) (lt : n < is.length)
    (run : (is.take n).foldlM f s = some u) : guard u is[n] := by
  induction is generalizing s n with
  | nil => cases lt
  | cons i is ih =>
      cases n with
      | zero =>
          obtain rfl := Option.some.inj run
          exact meets.1
      | succ n =>
          rw [List.take_succ_cons, List.foldlM_cons] at run
          obtain ⟨v, hv, rest⟩ := Option.bind_eq_some_iff.mp run
          exact ih (meets.2 v hv) (Nat.lt_of_succ_lt_succ lt) rest

/-- The states of a run that stays where it ends. -/
def stateAt (f : σ → α → Option σ) (is : List α) (s t : σ) (n : Nat) : σ :=
  ((is.take n).foldlM f s).getD t

theorem stateAt_end (run : is.foldlM f s = some t) {n : Nat} (le : is.length ≤ n) :
    stateAt f is s t n = t := by
  rw [stateAt, List.take_of_length_le le, run]
  rfl

/-- A run to a state in which one label can be taken for ever. -/
def Execution.looping (moves : ∀ s i t, f s i = some t → M.step s i t) (init : M.init s)
    (meets : Meets f guard s is) (run : is.foldlM f s = some t) (ok : guard t last)
    (loop : f t last = some t) : Execution M guard where
  state := stateAt f is s t
  label := fun n => some (is[n]?.getD last)
  start := init
  idle := nofun
  moves := by
    intro n a hlabel
    obtain rfl := Option.some.inj hlabel
    by_cases lt : n < is.length
    · obtain ⟨u, v, hu, hv, hnext⟩ := foldlM_take_succ run lt
      have hstate : stateAt f is s t n = u := by rw [stateAt, hu, Option.getD_some]
      have hstate' : stateAt f is s t (n + 1) = v := by rw [stateAt, hnext, Option.getD_some]
      rw [hstate, hstate', List.getElem?_eq_getElem lt, Option.getD_some]
      exact ⟨meets.get lt hu, moves u _ v hv⟩
    · rw [stateAt_end run (Nat.le_of_not_lt lt), stateAt_end run (by omega),
        List.getElem?_eq_none (Nat.le_of_not_lt lt), Option.getD_none]
      exact ⟨ok, moves t last t loop⟩

theorem exists_looping (moves : ∀ s i t, f s i = some t → M.step s i t) (init : M.init s)
    (meets : Meets f guard s is) (run : is.foldlM f s = some t) (ok : guard t last)
    (loop : f t last = some t) :
    ∃ E : Execution M guard, (∀ n u, (is.take n).foldlM f s = some u → E.state n = u) ∧
      ∀ n, is.length ≤ n → E.state n = t ∧ E.label n = some last := by
  refine ⟨Execution.looping moves init meets run ok loop, ?_, fun n le => ⟨stateAt_end run le, ?_⟩⟩
  · intro n u hu
    simp only [Execution.looping, stateAt, hu, Option.getD_some]
  · simp only [Execution.looping]
    rw [List.getElem?_eq_none le, Option.getD_none]

end Loop
end Transition
