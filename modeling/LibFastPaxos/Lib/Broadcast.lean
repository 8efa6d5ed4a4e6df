import LibFastPaxos.Lib.Refinement
import Mathlib.Data.Set.Insert
import Mathlib.Logic.Function.Basic

/-!
Total order broadcast. Items that were submitted are put into one sequence, which only
grows at its end, and each reader takes the sequence item by item. A system refines it
as soon as what its readers have taken only grows, is comparable and was submitted.
-/

namespace Broadcast

open Transition Relation

universe u v
variable {ι : Type u} {α : Type v}

structure State (ι : Type u) (α : Type v) where
  submitted : Set α
  sequence : List α
  taken : ι → Nat

/-- What the reader has taken. -/
def State.output (b : State ι α) (i : ι) : List α := b.sequence.take (b.taken i)

inductive Move (ι : Type u) (α : Type v) where
  | submit (x : α)
  | order (x : α)
  | take (i : ι)

inductive Step [DecidableEq ι] : State ι α → Move ι α → State ι α → Prop where
  | submit {b : State ι α} (x : α) :
      Step b (.submit x) { b with submitted := insert x b.submitted }
  | order {b : State ι α} {x : α} (known : x ∈ b.submitted) :
      Step b (.order x) { b with sequence := b.sequence ++ [x] }
  | take {b : State ι α} {i : ι} (more : b.taken i < b.sequence.length) :
      Step b (.take i) { b with taken := Function.update b.taken i (b.taken i + 1) }

def broadcast (ι : Type u) (α : Type v) [DecidableEq ι] : System (State ι α) (Move ι α) where
  init := fun b => b.submitted = ∅ ∧ b.sequence = [] ∧ ∀ i, b.taken i = 0
  step := Step

/-! ### The longest of comparable lists -/

def longest : List (List α) → List α
  | [] => []
  | xs :: rest => if (longest rest).length ≤ xs.length then xs else longest rest

theorem longest_cases (lists : List (List α)) : longest lists = [] ∨ longest lists ∈ lists := by
  induction lists with
  | nil => exact .inl rfl
  | cons xs rest ih =>
      simp only [longest]
      split
      · exact .inr List.mem_cons_self
      · exact ih.imp_right (List.mem_cons_of_mem xs)

theorem length_le_longest {lists : List (List α)} {xs : List α} (mem : xs ∈ lists) :
    xs.length ≤ (longest lists).length := by
  induction lists with
  | nil => cases mem
  | cons ys rest ih =>
      simp only [longest]
      cases List.mem_cons.mp mem with
      | inl heq =>
          subst heq
          split
          · exact Nat.le_refl _
          · omega
      | inr hrest =>
          have := ih hrest
          split
          · omega
          · exact this

theorem prefix_longest {lists : List (List α)}
    (comparable : ∀ xs ∈ lists, ∀ ys ∈ lists, xs <+: ys ∨ ys <+: xs) {xs : List α}
    (mem : xs ∈ lists) : xs <+: longest lists := by
  have hle := length_le_longest mem
  cases longest_cases lists with
  | inl hnil =>
      rw [hnil] at hle ⊢
      obtain rfl := List.eq_nil_of_length_eq_zero (Nat.le_zero.mp hle)
      exact List.prefix_refl _
  | inr hmem =>
      cases comparable xs mem _ hmem with
      | inl hpre => exact hpre
      | inr hpre => exact hpre.eq_of_length_le hle ▸ List.prefix_refl _

/-! ### A system with readers -/

/-- The broadcast that the readers of the list have seen so far. -/
def seenBy (readers : List ι) (submitted : Set α) (outs : ι → List α) : State ι α where
  submitted := submitted
  sequence := longest (readers.map outs)
  taken := fun i => (outs i).length

/-- What the readers have taken so far fits together. -/
structure Coherent (submitted : Set α) (outs : ι → List α) : Prop where
  comparable : ∀ i j, outs i <+: outs j ∨ outs j <+: outs i
  submitted : ∀ i, ∀ x ∈ outs i, x ∈ submitted

section Seen

variable {readers : List ι} {submitted submitted' : Set α} {outs outs' : ι → List α}

theorem Coherent.prefix_sequence (h : Coherent submitted outs) (all : ∀ i, i ∈ readers) (i : ι) :
    outs i <+: (seenBy readers submitted outs).sequence := by
  refine prefix_longest ?_ (List.mem_map_of_mem (all i))
  intro xs hxs ys hys
  obtain ⟨i, -, rfl⟩ := List.mem_map.mp hxs
  obtain ⟨j, -, rfl⟩ := List.mem_map.mp hys
  exact h.comparable i j

theorem Coherent.output (h : Coherent submitted outs) (all : ∀ i, i ∈ readers) (i : ι) :
    (seenBy readers submitted outs).output i = outs i :=
  (List.prefix_iff_eq_take.mp (h.prefix_sequence all i)).symm

theorem sequence_grows (h' : Coherent submitted' outs') (all : ∀ i, i ∈ readers)
    (grows : ∀ i, outs i <+: outs' i) :
    (seenBy readers submitted outs).sequence <+: (seenBy readers submitted' outs').sequence := by
  cases longest_cases (readers.map outs) with
  | inl hnil =>
      simp only [seenBy]
      rw [hnil]
      exact List.nil_prefix
  | inr hmem =>
      obtain ⟨i, -, hi⟩ := List.mem_map.mp hmem
      simp only [seenBy]
      rw [← hi]
      exact (grows i).trans (h'.prefix_sequence all i)

theorem Coherent.sequence_submitted (h : Coherent submitted outs) {x : α}
    (mem : x ∈ (seenBy readers submitted outs).sequence) : x ∈ submitted := by
  cases longest_cases (readers.map outs) with
  | inl hnil =>
      simp only [seenBy] at mem
      rw [hnil] at mem
      cases mem
  | inr hlist =>
      obtain ⟨i, -, hi⟩ := List.mem_map.mp hlist
      simp only [seenBy] at mem
      rw [← hi] at mem
      exact h.submitted i x mem

end Seen

section Moves

variable [DecidableEq ι] {b : State ι α}

theorem moves_order (more : List α) (known : ∀ x ∈ more, x ∈ b.submitted) :
    ReflTransGen ((broadcast ι α).Moves anyStep) b { b with sequence := b.sequence ++ more } := by
  induction more generalizing b with
  | nil =>
      rw [List.append_nil]
  | cons x more ih =>
      have hstep : (broadcast ι α).Moves anyStep b { b with sequence := b.sequence ++ [x] } :=
        ⟨.order x, trivial, .order (known x List.mem_cons_self)⟩
      have hrest := ih (b := { b with sequence := b.sequence ++ [x] }) fun y hy =>
        known y (List.mem_cons_of_mem x hy)
      simp only [List.append_assoc, List.singleton_append] at hrest
      exact .head hstep hrest

/-- One reader takes all up to the position. -/
theorem moves_take (i : ι) (n : Nat) (room : b.taken i + n ≤ b.sequence.length) :
    ReflTransGen ((broadcast ι α).Moves anyStep) b
      { b with taken := Function.update b.taken i (b.taken i + n) } := by
  induction n with
  | zero =>
      rw [Nat.add_zero, Function.update_eq_self]
  | succ n ih =>
      have hmore : (Function.update b.taken i (b.taken i + n)) i < b.sequence.length := by
        rw [Function.update_self]
        omega
      have hstep := Step.take (b := { b with taken := Function.update b.taken i (b.taken i + n) })
        hmore
      simp only [Function.update_self, Function.update_idem] at hstep
      exact .tail (ih (by omega)) ⟨.take i, trivial, hstep⟩

/-- The readers of the list take what the others have already. -/
theorem moves_takes (readers : List ι) {taken' : ι → Nat}
    (grows : ∀ i, b.taken i ≤ taken' i) (room : ∀ i, taken' i ≤ b.sequence.length)
    (rest : ∀ i, i ∉ readers → b.taken i = taken' i) :
    ReflTransGen ((broadcast ι α).Moves anyStep) b { b with taken := taken' } := by
  induction readers generalizing b with
  | nil =>
      obtain rfl : b.taken = taken' := funext fun i => rest i List.not_mem_nil
      exact .refl
  | cons i readers ih =>
      have hi : b.taken i + (taken' i - b.taken i) = taken' i := Nat.add_sub_cancel' (grows i)
      have htake := moves_take (b := b) i (taken' i - b.taken i) (by rw [hi]; exact room i)
      rw [hi] at htake
      refine htake.trans (ih (b := { b with taken := Function.update b.taken i (taken' i) })
        ?_ room ?_)
      · intro j
        by_cases hj : j = i
        · subst hj
          exact Nat.le_of_eq (Function.update_self _ _ _)
        · refine Nat.le_trans (Nat.le_of_eq ?_) (grows j)
          exact Function.update_of_ne hj _ _
      · intro j hj
        by_cases hji : j = i
        · subst hji
          exact Function.update_self _ _ _
        · refine (Function.update_of_ne hji _ _).trans (rest j fun hmem => ?_)
          cases List.mem_cons.mp hmem with
          | inl heq => exact hji heq
          | inr hrest => exact hj hrest

end Moves

/-- What the readers see next is reached by putting what is new into the sequence, from
which each reader then takes its part. -/
theorem moves_seenBy [DecidableEq ι] {readers : List ι} {submitted : Set α}
    {outs outs' : ι → List α} (all : ∀ i, i ∈ readers) (h' : Coherent submitted outs')
    (grows : ∀ i, outs i <+: outs' i) :
    ReflTransGen ((broadcast ι α).Moves anyStep) (seenBy readers submitted outs)
      (seenBy readers submitted outs') := by
  obtain ⟨more, hmore⟩ :=
    sequence_grows h' all grows
  have horder := moves_order (b := seenBy readers submitted outs) more fun x hx =>
    h'.sequence_submitted (hmore ▸ List.mem_append_right _ hx)
  rw [hmore] at horder
  refine horder.trans (moves_takes (b := { seenBy readers submitted outs with
    sequence := (seenBy readers submitted outs').sequence }) readers ?_ ?_ ?_)
  · exact fun i => (grows i).length_le
  · exact fun i => (h'.prefix_sequence all i).length_le
  · exact fun i hi => absurd (all i) hi

/-- The same when an item may have been submitted before. -/
theorem moves_submit_seenBy [DecidableEq ι] {readers : List ι} {submitted submitted' : Set α}
    {outs outs' : ι → List α} (all : ∀ i, i ∈ readers) (h' : Coherent submitted' outs')
    (submits : submitted' = submitted ∨ ∃ x, submitted' = insert x submitted)
    (grows : ∀ i, outs i <+: outs' i) :
    ReflTransGen ((broadcast ι α).Moves anyStep) (seenBy readers submitted outs)
      (seenBy readers submitted' outs') := by
  have hmoves := moves_seenBy all h' grows
  cases submits with
  | inl same =>
      rw [← same]
      exact hmoves
  | inr new =>
      obtain ⟨x, rfl⟩ := new
      exact .head ⟨.submit x, trivial, .submit x⟩ hmoves

/-- What is known of each submitter grows by what the label of the step says. -/
theorem submitted_cases {β : Type v} {act : β} {label : ι → α → β}
    (same : ∀ i j x y, label i x = label j y → x = y) {known known' : ι → α → Prop}
    (step : ∀ i x, known' i x ↔ known i x ∨ act = label i x) :
    { x | ∃ i, known' i x } = { x | ∃ i, known i x } ∨
      ∃ x, { x | ∃ i, known' i x } = insert x { x | ∃ i, known i x } := by
  by_cases hlabel : ∃ i x, act = label i x
  · obtain ⟨i, x, rfl⟩ := hlabel
    refine .inr ⟨x, Set.ext fun y => ?_⟩
    constructor
    · intro ⟨j, hj⟩
      cases (step j y).mp hj with
      | inl hold => exact .inr ⟨j, hold⟩
      | inr hnew => exact .inl (same i j x y hnew).symm
    · intro hy
      cases hy with
      | inl heq => exact ⟨i, (step i y).mpr (.inr (by rw [heq]))⟩
      | inr hold =>
          obtain ⟨j, hj⟩ := hold
          exact ⟨j, (step j y).mpr (.inl hj)⟩
  · refine .inl (Set.ext fun y => exists_congr fun j => (step j y).trans (or_iff_left ?_))
    exact fun heq => hlabel ⟨j, y, heq⟩

/-- The readers have seen nothing yet. -/
theorem init_seenBy [DecidableEq ι] {readers : List ι} {outs : ι → List α}
    (nothing : ∀ i, outs i = []) : (broadcast ι α).init (seenBy readers ∅ outs) := by
  refine ⟨rfl, ?_, fun i => congrArg List.length (nothing i)⟩
  cases longest_cases (readers.map outs) with
  | inl hnil => exact hnil
  | inr hmem =>
      obtain ⟨i, -, hi⟩ := List.mem_map.mp hmem
      exact hi.symm.trans (nothing i)

/-- Readers that have taken less. -/
theorem Coherent.of_prefix {submitted : Set α} {outs outs' : ι → List α}
    (h : Coherent submitted outs') (less : ∀ i, outs i <+: outs' i) : Coherent submitted outs where
  comparable := by
    intro i j
    cases h.comparable i j with
    | inl hpre => exact List.prefix_or_prefix_of_prefix ((less i).trans hpre) (less j)
    | inr hpre => exact List.prefix_or_prefix_of_prefix (less i) ((less j).trans hpre)
  submitted := fun i x hx => h.submitted i x ((less i).subset hx)

end Broadcast
