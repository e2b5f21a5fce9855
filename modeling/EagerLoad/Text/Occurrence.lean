/-! # Occurrences in a text

Whether one text occurs in another, character by character. -/
namespace EagerLoad.Text

/-- Whether a list occurs in another without a gap. -/
def occursIn (part : List Char) : List Char → Bool
  | [] => part.isEmpty
  | c :: rest => part.isPrefixOf (c :: rest) || occursIn part rest

theorem occursIn_iff (part whole : List Char) : occursIn part whole = true ↔ part <:+: whole := by
  induction whole with
  | nil => simp [occursIn]
  | cons c rest ih => simp [occursIn, ih, List.infix_cons_iff]

def occurs (part whole : String) : Bool := occursIn part.toList whole.toList

end EagerLoad.Text
