import Perenne.Polls

namespace Perenne

section Remembers

variable {disk : Nat → Block} {page : Block} {v : Volume} {es : List Tandem.Event} {s : Tandem}

end Remembers

instance (f : Kb.Field) (block : Text) (pos : Nat) : Decidable (f.Stands block pos) :=
  inferInstanceAs (Decidable ((slice block pos f.key.length = f.key ∧
    ∀ i < pos, slice block i f.key.length ≠ f.key) ∧
    pos + f.key.length + f.width ≤ block.length ∧
      (slice block (pos + f.key.length) f.width).all isDigit = true))

theorem carries_mintedDoc {cause : Cause} {token : Text} (htoken : Heal.causeToken cause = some token)
    (num : Nat) : Kb.Carries (mintedDoc num token) := by
  have hblur : blurred (mintedDoc num token) = blurred (mintedDoc 0 token) := by
    have hid : blurred (mintId num) = blurred (mintId 0) := by
      have happ (s t : Text) : blurred (s ++ t) = blurred s ++ blurred t := List.map_append
      rw [mintId, mintId, happ, happ, blurred_digits (toDigits_isDigit ..),
        blurred_digits (toDigits_isDigit ..), length_toDigits, length_toDigits]
    simp only [mintedDoc, Kb.document, blurred, List.flatten_cons, List.map_append] at hid ⊢
    rw [hid]
  refine Kb.Carries.rewritten hblur ?_
  obtain rfl | rfl := causeToken_cases htoken
  · exact ⟨⟨92, by decide +kernel⟩, ⟨104, by decide +kernel⟩, by decide +kernel,
      by decide +kernel⟩
  · exact ⟨⟨110, by decide +kernel⟩, ⟨122, by decide +kernel⟩, by decide +kernel,
      by decide +kernel⟩

namespace Writer

/-- Whether the writer is between two polls. -/
def isIdle : Writer → Bool
  | .idle => true
  | _ => false

end Writer

namespace Tandem

end Tandem

theorem blankWorld_apart : Volume.Apart
    ⟨⟨fsMagic, fsVersion, 512, dirBlockNumber, 0, dataStartBlock⟩, []⟩ := List.Pairwise.nil

end Perenne
