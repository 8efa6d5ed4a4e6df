/-!
Labelled transition systems whose steps are restricted by a guard. A guard is
a condition on the state before the step and on its label, so a theorem about
`Reachable guard` is about the runs all of whose steps meet the condition.
-/

namespace Transition

universe u v

structure System (σ : Type u) (α : Type v) where
  init : σ → Prop
  step : σ → α → σ → Prop

variable {σ : Type u} {α : Type v}

inductive Reachable (M : System σ α) (guard : σ → α → Prop) : σ → Prop where
  | init {s : σ} (start : M.init s) : Reachable M guard s
  | step {s t : σ} {a : α} (before : Reachable M guard s) (ok : guard s a)
      (move : M.step s a t) : Reachable M guard t

/-- Every step is allowed. -/
def anyStep : σ → α → Prop := fun _ _ => True

theorem Reachable.invariant {M : System σ α} {guard : σ → α → Prop} {Inv : σ → Prop}
    (start : ∀ s, M.init s → Inv s)
    (preserved : ∀ s a t, Reachable M guard s → Inv s → guard s a → M.step s a t → Inv t)
    {s : σ} (h : Reachable M guard s) : Inv s := by
  induction h with
  | init hs => exact start _ hs
  | step before ok move ih => exact preserved _ _ _ before ih ok move

theorem Reachable.mono {M : System σ α} {guard guard' : σ → α → Prop}
    (weaker : ∀ s a, guard s a → guard' s a) {s : σ} (h : Reachable M guard s) :
    Reachable M guard' s := by
  induction h with
  | init hs => exact .init hs
  | step before ok move ih => exact .step ih (weaker _ _ ok) move

/-! ### Runs that remember their steps -/

/-- A state and the steps that led to it, newest first, each with the state it was taken in. -/
structure WithPast (σ : Type u) (α : Type v) where
  state : σ
  past : List (σ × α)

def System.withPast (M : System σ α) : System (WithPast σ α) α where
  init := fun r => M.init r.state ∧ r.past = []
  step := fun r a r' => M.step r.state a r'.state ∧ r'.past = (r.state, a) :: r.past

theorem Reachable.state {M : System σ α} {guard : WithPast σ α → α → Prop}
    {guard' : σ → α → Prop} (weaker : ∀ r a, guard r a → guard' r.state a) {r : WithPast σ α}
    (h : Reachable M.withPast guard r) : Reachable M guard' r.state := by
  induction h with
  | init hs => exact .init hs.1
  | step before ok move ih => exact .step ih (weaker _ _ ok) move.1

/-! ### Runs of a partial step function over a list of inputs -/

section Runs

universe w
variable {ι : Type w} {f : σ → ι → Option σ} {guard : σ → ι → Prop} {P : ι → Prop}

/-- Every input of a run meets the guard in the state that it finds. -/
def Meets (f : σ → ι → Option σ) (guard : σ → ι → Prop) : σ → List ι → Prop
  | _, [] => True
  | s, i :: is => guard s i ∧ ∀ t, f s i = some t → Meets f guard t is

theorem Meets.invariant (Inv : σ → Prop)
    (step : ∀ s i t, P i → Inv s → guard s i → f s i = some t → Inv t)
    {is : List ι} {s t : σ} (inputs : ∀ i ∈ is, P i) (inv : Inv s) (meets : Meets f guard s is)
    (run : is.foldlM f s = some t) : Inv t := by
  induction is generalizing s with
  | nil =>
      obtain rfl := Option.some.inj run
      exact inv
  | cons i is ih =>
      rw [List.foldlM_cons] at run
      obtain ⟨u, hu, rest⟩ := Option.bind_eq_some_iff.mp run
      have hinv := step s i u (inputs i List.mem_cons_self) inv meets.1 hu
      exact ih (fun j hj => inputs j (List.mem_cons_of_mem _ hj)) hinv (meets.2 u hu) rest

/-- The property holds in every state that the run passes through. -/
def Throughout (f : σ → ι → Option σ) (Q : σ → Prop) : σ → List ι → Prop
  | s, [] => Q s
  | s, i :: is => Q s ∧ ∀ t, f s i = some t → Throughout f Q t is

/-- The guard is exactly what keeps the property throughout a run, when it is what keeps
an invariant that has the property and a step that misses it loses the property. -/
theorem throughout_iff_meets {Q : σ → Prop} (Inv : σ → Prop) (holds : ∀ s, Inv s → Q s)
    (step : ∀ s i t, Inv s → f s i = some t → guard s i → Inv t)
    (needed : ∀ s i t, Inv s → f s i = some t → Q t → guard s i)
    {is : List ι} {s t : σ} (inv : Inv s) (run : is.foldlM f s = some t) :
    Throughout f Q s is ↔ Meets f guard s is := by
  induction is generalizing s with
  | nil => exact ⟨fun _ => trivial, fun _ => holds s inv⟩
  | cons i is ih =>
      rw [List.foldlM_cons] at run
      obtain ⟨u, hu, rest⟩ := Option.bind_eq_some_iff.mp run
      constructor
      · intro ⟨_, after⟩
        have hu' := after u hu
        have hQ : Q u := by
          cases is with
          | nil => exact hu'
          | cons j is => exact hu'.1
        have hguard := needed s i u inv hu hQ
        refine ⟨hguard, fun v hv => ?_⟩
        obtain rfl := Option.some.inj (hu.symm.trans hv)
        exact (ih (step s i u inv hu hguard) rest).mp hu'
      · intro ⟨hguard, after⟩
        refine ⟨holds s inv, fun v hv => ?_⟩
        obtain rfl := Option.some.inj (hu.symm.trans hv)
        exact (ih (step s i u inv hu hguard) rest).mpr (after u hu)

instance Meets.decidable [∀ s i, Decidable (guard s i)] :
    ∀ (is : List ι) (s : σ), Decidable (Meets f guard s is)
  | [], _ => isTrue trivial
  | i :: is, s =>
      have : ∀ t, Decidable (Meets f guard t is) := Meets.decidable is
      inferInstanceAs (Decidable (guard s i ∧ ∀ t, f s i = some t → Meets f guard t is))

/-- A list of labels taken one after the other. -/
theorem Reachable.run {M : System σ ι} (moves : ∀ s i t, f s i = some t → M.step s i t)
    {is : List ι} {s t : σ} (before : Reachable M guard s) (meets : Meets f guard s is)
    (run : is.foldlM f s = some t) : Reachable M guard t := by
  refine Meets.invariant (P := fun _ => True) (Reachable M guard) ?_ (fun _ _ => trivial) before
    meets run
  intro s i t _ h ok move
  exact .step h ok (moves s i t move)

theorem Meets.mono {guard' : σ → ι → Prop} (weaker : ∀ s i, guard s i → guard' s i)
    {is : List ι} {s : σ} (meets : Meets f guard s is) : Meets f guard' s is := by
  induction is generalizing s with
  | nil => trivial
  | cons i is ih => exact ⟨weaker s i meets.1, fun t ht => ih (meets.2 t ht)⟩

theorem Meets.congr {guard' : σ → ι → Prop} {is : List ι}
    (same : ∀ s, ∀ i ∈ is, guard s i ↔ guard' s i) (s : σ) :
    Meets f guard s is ↔ Meets f guard' s is := by
  induction is generalizing s with
  | nil => exact Iff.rfl
  | cons i is ih =>
      have htail := ih fun s j hj => same s j (List.mem_cons_of_mem i hj)
      simp only [Meets]
      rw [same s i List.mem_cons_self]
      exact and_congr_right fun _ => forall_congr' fun t => imp_congr_right fun _ => htail t

/-- A run whose steps all succeed where the guard holds comes to its end. -/
theorem Meets.completes (succeeds : ∀ s i, guard s i → ∃ t, f s i = some t) {is : List ι} {s : σ}
    (meets : Meets f guard s is) : ∃ t, is.foldlM f s = some t := by
  induction is generalizing s with
  | nil => exact ⟨s, rfl⟩
  | cons i is ih =>
      obtain ⟨u, hu⟩ := succeeds s i meets.1
      obtain ⟨t, ht⟩ := ih (meets.2 u hu)
      refine ⟨t, ?_⟩
      rw [List.foldlM_cons, hu]
      exact ht

theorem Meets.of_forall (always : ∀ s i, guard s i) (is : List ι) (s : σ) :
    Meets f guard s is := by
  induction is generalizing s with
  | nil => trivial
  | cons i is ih => exact ⟨always s i, fun t _ => ih t⟩

/-- A simulation by a total step function carries over to runs. -/
theorem Meets.simulates {ρ : Type u} {g : ρ → ι → ρ} (R : σ → ρ → Prop)
    (step : ∀ s r i, P i → R s r → guard s i → ∃ t, f s i = some t ∧ R t (g r i))
    {is : List ι} {s : σ} {r : ρ} (inputs : ∀ i ∈ is, P i) (rel : R s r)
    (meets : Meets f guard s is) :
    ∃ t, is.foldlM f s = some t ∧ R t (is.foldl g r) := by
  induction is generalizing s r with
  | nil => exact ⟨s, rfl, rel⟩
  | cons i is ih =>
      obtain ⟨u, hu, hrel⟩ := step s r i (inputs i List.mem_cons_self) rel meets.1
      obtain ⟨t, ht, hrel'⟩ :=
        ih (fun j hj => inputs j (List.mem_cons_of_mem _ hj)) hrel (meets.2 u hu)
      refine ⟨t, ?_, hrel'⟩
      rw [List.foldlM_cons, hu]
      exact ht

/-! ### What can be reached by steps of some kind only -/

/-- Some inputs of this kind lead from one state to the other. -/
def Reaches (f : σ → ι → Option σ) (P : ι → Prop) (s t : σ) : Prop :=
  ∃ is : List ι, (∀ i ∈ is, P i) ∧ is.foldlM f s = some t

theorem Reaches.refl (s : σ) : Reaches f P s s := ⟨[], nofun, rfl⟩

theorem Reaches.one {i : ι} {s t : σ} (kind : P i) (move : f s i = some t) :
    Reaches f P s t := by
  refine ⟨[i], fun j hj => ?_, ?_⟩
  · obtain rfl := List.mem_singleton.mp hj
    exact kind
  · rw [List.foldlM_cons, move]
    rfl

theorem Reaches.trans {s t u : σ} (h : Reaches f P s t) (h' : Reaches f P t u) :
    Reaches f P s u := by
  obtain ⟨is, kinds, run⟩ := h
  obtain ⟨js, kinds', run'⟩ := h'
  refine ⟨is ++ js, fun i hi => (List.mem_append.mp hi).elim (kinds i) (kinds' i), ?_⟩
  rw [List.foldlM_append, run]
  exact run'

/-- One after the other: the invariant tells for which of them it is done. -/
theorem Reaches.each {β : Type w} {xs : List β} (distinct : xs.Nodup) (Inv : List β → σ → Prop)
    (step : ∀ done x s, x ∈ xs → x ∉ done → done.length < xs.length → Inv done s →
      ∃ t, Reaches f P s t ∧ Inv (done ++ [x]) t)
    {s : σ} (start : Inv [] s) : ∃ t, Reaches f P s t ∧ Inv xs t := by
  suffices ∀ rest done, xs = done ++ rest → ∀ s, Inv done s →
      ∃ t, Reaches f P s t ∧ Inv xs t from this xs [] rfl s start
  intro rest
  induction rest with
  | nil =>
      intro done split s inv
      rw [List.append_nil] at split
      exact ⟨s, .refl s, split ▸ inv⟩
  | cons x rest ih =>
      intro done split s inv
      have hfresh : x ∉ done := by
        rw [split] at distinct
        exact fun hold => (List.nodup_append.mp distinct).2.2 x hold x List.mem_cons_self rfl
      obtain ⟨t, first, inv'⟩ := step done x s (by simp [split]) hfresh (by simp [split]) inv
      obtain ⟨u, later, last⟩ := ih (done ++ [x]) (by simpa using split) t inv'
      exact ⟨u, first.trans later, last⟩

end Runs
end Transition
