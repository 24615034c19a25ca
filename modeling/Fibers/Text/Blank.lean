/-!
# Blank characters

The white space of Unicode, which surrounds numbers and names that people write.
-/

namespace Fibers.Text

/-- Whether a character is white space. -/
def isBlank (c : Char) : Bool :=
  let n := c.toNat
  (9 ≤ n && n ≤ 13) || n == 32 || n == 0x85 || n == 0xA0 || n == 0x1680 ||
    (0x2000 ≤ n && n ≤ 0x200A) || n == 0x2028 || n == 0x2029 || n == 0x202F || n == 0x205F ||
    n == 0x3000

/-- The characters of a text without the blank ones at either end. -/
def trim (chars : List Char) : List Char :=
  (((chars.dropWhile isBlank).reverse).dropWhile isBlank).reverse

/-- Whether every character of a text is blank. -/
def allBlank (text : String) : Bool := text.toList.all isBlank

theorem isBlank_of_isWhitespace (c : Char) (h : c.isWhitespace = true) : isBlank c = true := by
  simp only [Char.isWhitespace, Bool.or_eq_true, decide_eq_true_eq] at h
  rcases h with ((rfl | rfl) | rfl) | rfl <;> rfl

theorem trim_eq_nil_iff (chars : List Char) : trim chars = [] ↔ chars.all isBlank = true := by
  have drops : ∀ cs : List Char, cs.dropWhile isBlank = [] ↔ cs.all isBlank = true := by
    intro cs
    induction cs with
    | nil => simp
    | cons c cs ih => by_cases h : isBlank c <;> simp_all [List.dropWhile]
  unfold trim
  rw [List.reverse_eq_nil_iff, drops, List.all_reverse]
  constructor
  · intro h
    rw [← drops]
    cases rest : chars.dropWhile isBlank with
    | nil => rfl
    | cons c cs =>
      have head := List.head?_dropWhile_not isBlank chars
      rw [rest] at h head
      simp at h head
      simp [h.1] at head
  · intro h
    rw [(drops chars).mpr h]
    rfl

end Fibers.Text
