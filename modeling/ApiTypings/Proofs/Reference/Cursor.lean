import ApiTypings.Proofs.Reference.Acceptance
import ApiTypings.Proofs.Reference.Tracking

/-!
# Reading a reference stays inside the text and stops

What a run of the cursor keeps, and that it stops with what the reader makes of the text. A fault
of the reader is where the cursor gave up, so its offset is a position of the cursor.
-/

namespace ApiTypings.Reference.Cursor

open StateTransition
open String (Pos)

variable {text : String} {s : State} {fault : ReferenceFault}

/-- The cursor of a safe state is between two characters. -/
theorem Safe.isValid (h : Safe text s) : (⟨s.pos⟩ : Pos.Raw).IsValid text := by
  obtain ⟨rest, hrest⟩ := h.boundary
  exact hrest.isValid

/-- A fault is reported where the cursor has stopped. -/
theorem offset_of_outcome? (h : s.outcome? text = some (.error fault)) : fault.offset = s.pos := by
  obtain ⟨pos, control, pending⟩ := s
  cases control <;> cases h
  rfl

/-- Errors are reported between two characters. -/
theorem isValid_of_parse_error (h : parse text = .error fault) :
    (⟨fault.offset⟩ : Pos.Raw).IsValid text := by
  obtain ⟨t, ht, houtcome⟩ := exists_mem_eval text
  have hsafe := safe_of_reaches (safe_start text) (mem_eval.mp ht).1
  rw [h] at houtcome
  rw [offset_of_outcome? houtcome]
  exact hsafe.isValid

/-- Reading a reference never slices outside the text and always stops. In every run of the cursor
no slice is missing, its position is a character boundary of the text and never goes back. It has
strictly moved on whenever a run comes again to where a loop over segments, arguments or suffixes
begins an iteration, and whenever another reference begins, be it an argument of one that is still
being read. The run stops with what the reader makes of the text, and the offset of a fault is a
character boundary. -/
theorem cursor_safe (text : String) :
    (∀ s, Reaches (step text) .start s →
      s.control ≠ .crashed ∧ s.pos ≤ text.utf8ByteSize ∧ (⟨s.pos⟩ : Pos.Raw).IsValid text) ∧
    (∀ s t, Reaches (step text) .start s → Reaches (step text) s t → s.pos ≤ t.pos) ∧
    (∀ s t site, Reaches (step text) .start s → Reaches₁ (step text) s t →
      s.control.site? = some site → t.control.site? = some site → s.pos < t.pos) ∧
    (∃ t ∈ eval (step text) .start, t.outcome? text = some (parse text)) ∧
    (∀ fault, parse text = .error fault →
      fault.text = text ∧ (⟨fault.offset⟩ : Pos.Raw).IsValid text) := by
  have hsafe : ∀ {s}, Reaches (step text) .start s → Safe text s :=
    fun hs => safe_of_reaches (safe_start text) hs
  refine ⟨?_, ?_, ?_, exists_mem_eval text, ?_⟩
  · intro s hs
    have hvalid := (hsafe hs).isValid
    exact ⟨(hsafe hs).control, hvalid.le_utf8ByteSize, hvalid⟩
  · intro s t hs ht
    exact pos_le_of_reaches (hsafe hs) ht
  · intro s t site hs ht hsite hsite'
    exact pos_lt_of_reaches₁ (hsafe hs) ht hsite hsite'
  · intro fault h
    exact ⟨text_of_parse_error h, isValid_of_parse_error h⟩

end ApiTypings.Reference.Cursor
