import ApiTypings.Proofs.Reference.Completeness
import ApiTypings.Proofs.Reference.WellFormed

/-!
# The reader accepts the grammar

Completeness and soundness together: a text is read as a reference exactly when it derives that
reference as a whole, so the grammar is unambiguous. A text that derives nothing is refused, with
a fault that carries the text.
-/

namespace ApiTypings.Reference

open Grammar

/-- A text is parsed exactly as the reference that it is as a whole. -/
theorem parse_eq_ok_iff {text : String} {r : Reference} :
    parse text = .ok r ↔ Whole text.toList r :=
  ⟨whole_of_parse, parse_of_whole⟩

/-- A fault carries the text that could not be read. -/
theorem text_of_parse_error {text : String} {fault : ReferenceFault}
    (h : parse text = .error fault) : fault.text = text := by
  rw [parse] at h
  split at h
  · cases h
    rfl
  · split at h
    · cases h
    · cases h
      rfl

/-- Reading accepts exactly the grammar. A text is read as `r` when it derives `r` as a whole; then
every named type in `r` has as many arguments as its arity says. A text that derives no reference
is a fault. -/
theorem parse_accepts_grammar :
    (∀ text r, parse text = .ok r ↔ Whole text.toList r) ∧
    (∀ text r, parse text = .ok r → r.WellFormed) ∧
    (∀ text, (∀ r, ¬ Whole text.toList r) →
      ∃ fault, parse text = .error fault ∧ fault.text = text) := by
  refine ⟨fun text r => parse_eq_ok_iff, fun text r => wellFormed_of_parse, ?_⟩
  intro text hnone
  cases h : parse text with
  | ok r => exact absurd (parse_eq_ok_iff.mp h) (hnone r)
  | error fault => exact ⟨fault, rfl, text_of_parse_error h⟩

end ApiTypings.Reference
