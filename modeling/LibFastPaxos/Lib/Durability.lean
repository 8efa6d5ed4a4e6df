/-!
Logs of writes and syncs, newest first. What was written is durable from the first
sync on that succeeds after the write.
-/

namespace Durability

universe u v

/-- How the entries of a log are read: the writes and the syncs that succeeded. -/
structure Journal (ε : Type u) (α : Type v) where
  wrote : ε → Option α
  synced : ε → Bool
  apart : ∀ e, synced e = true → wrote e = none

variable {ε : Type u} {α : Type v} (J : Journal ε α)

namespace Journal

def Written (log : List ε) (x : α) : Prop := ∃ e ∈ log, J.wrote e = some x

def Durable : List ε → α → Prop
  | [], _ => False
  | e :: older, x => (J.synced e = true ∧ J.Written older x) ∨ Durable older x

/-- None of these writes is newer than the last sync. -/
def settled (p : α → Bool) : List ε → Bool
  | [] => true
  | e :: older => J.synced e || ((J.wrote e).all (fun x => !p x) && settled p older)

/-- The last of these writes. -/
def last (p : α → Bool) (log : List ε) : Option α :=
  log.findSome? fun e => (J.wrote e).filter p

end Journal

variable {J} {log newer : List ε} {x : α} {p : α → Bool}

theorem Journal.Written.cons (h : J.Written log x) (e : ε) : J.Written (e :: log) x := by
  obtain ⟨e', he', hx⟩ := h
  exact ⟨e', List.mem_cons_of_mem e he', hx⟩

theorem Journal.Durable.cons (h : J.Durable log x) (e : ε) : J.Durable (e :: log) x :=
  .inr h

theorem Journal.Written.append (h : J.Written log x) (newer : List ε) :
    J.Written (newer ++ log) x := by
  obtain ⟨e, he, hx⟩ := h
  exact ⟨e, List.mem_append_right newer he, hx⟩

theorem Journal.Durable.append (h : J.Durable log x) (newer : List ε) :
    J.Durable (newer ++ log) x := by
  induction newer with
  | nil => exact h
  | cons e newer ih => exact .inr ih

theorem Journal.Durable.written (h : J.Durable log x) : J.Written log x := by
  induction log with
  | nil => exact h.elim
  | cons e log ih =>
      cases h with
      | inl hsync => exact hsync.2.cons e
      | inr hold => exact (ih hold).cons e

/-- What is settled and was written is durable. -/
theorem Journal.Written.durable (h : J.Written log x) (px : p x = true)
    (clean : J.settled p log = true) : J.Durable log x := by
  induction log with
  | nil =>
      obtain ⟨e, he, -⟩ := h
      cases he
  | cons e log ih =>
      obtain ⟨e', he', hx⟩ := h
      have hold : J.synced e = true ∨ J.settled p log = true → e' ∈ log →
          J.Durable (e :: log) x := by
        intro hclean hmem
        cases hclean with
        | inl hsync => exact .inl ⟨hsync, e', hmem, hx⟩
        | inr hrest => exact .inr (ih ⟨e', hmem, hx⟩ hrest)
      rw [Journal.settled, Bool.or_eq_true, Bool.and_eq_true] at clean
      cases List.mem_cons.mp he' with
      | inr hmem => exact hold (clean.imp_right And.right) hmem
      | inl heq =>
          subst heq
          cases clean with
          | inl hsync =>
              rw [J.apart e' hsync] at hx
              cases hx
          | inr hrest =>
              rw [hx] at hrest
              simp [px] at hrest

/-- The last write was a write. -/
theorem Journal.written_of_last (h : J.last p log = some x) : J.Written log x ∧ p x = true := by
  obtain ⟨e, he, hx⟩ := List.exists_of_findSome?_eq_some h
  obtain ⟨hwrote, hp⟩ := Option.filter_eq_some_iff.mp hx
  exact ⟨⟨e, he, hwrote⟩, hp⟩

end Durability
