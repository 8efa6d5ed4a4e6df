/-!
Histories kept newest first. `Along P` says that every entry stands in the
relation `P` to the entries before it.
-/

namespace History

universe u
variable {α : Type u}

def Along (P : α → List α → Prop) : List α → Prop
  | [] => True
  | e :: older => P e older ∧ Along P older

theorem along_iff_split {P : α → List α → Prop} {h : List α} :
    Along P h ↔ ∀ newer e older, h = newer ++ e :: older → P e older := by
  constructor
  · induction h with
    | nil => intro _ newer e older eq; simp at eq
    | cons x xs ih =>
        intro along newer e older eq
        cases newer with
        | nil =>
            obtain ⟨rfl, rfl⟩ := List.cons.inj eq
            exact along.1
        | cons y ys => exact ih along.2 ys e older (List.cons.inj eq).2
  · induction h with
    | nil => intro _; trivial
    | cons x xs ih =>
        intro split
        exact ⟨split [] x xs rfl,
          ih fun newer e older eq => split (x :: newer) e older (by rw [eq]; rfl)⟩

end History
