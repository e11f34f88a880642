import Deferred.Text.Classes

/-! How the classes of characters lie to each other. White space, letters and numbers, and the marks of operators and
parentheses are pairwise disjoint; the ASCII digits count as letters or numbers, and as no letters. That is all that is
assumed of the classes anywhere, and the tables have it. -/

namespace Deferred.Text

variable {c : Char}

def marks : List Char := ['+', '-', '*', '^', '(', ')']

class Separate [Classes] : Prop where
  white : ∀ c : Char, isWhite c = true → isAlphanumeric c = false
  mark : ∀ c ∈ marks, isWhite c = false ∧ isAlphanumeric c = false
  digit : ∀ c : Char, c.isDigit = true → isAlphanumeric c = true ∧ isLetter c = false

/-- No range of the one table overlaps one of the other. -/
def apart (left right : List (Nat × Nat)) : Bool :=
  left.all fun range => right.all fun other => range.2 < other.1 || other.2 < range.1

theorem not_inRanges_of_apart {left right : List (Nat × Nat)} (apart : apart left right = true)
    {point : Nat} (found : inRanges left point = true) : inRanges right point = false := by
  rw [← Bool.not_eq_true]
  intro found'
  obtain ⟨range, member, low, high⟩ := exists_range_of_inRanges found
  obtain ⟨other, member', low', high'⟩ := exists_range_of_inRanges found'
  simp only [Text.apart, List.all_eq_true, Bool.or_eq_true, decide_eq_true_eq] at apart
  have overlap := apart range member other member'
  omega

theorem white_apart_letters : apart whiteRanges letterRanges = true := by decide +kernel

theorem white_apart_numbers : apart whiteRanges numberRanges = true := by decide +kernel

theorem bounds_of_isDigit (digit : c.isDigit = true) : 0x30 ≤ c.toNat ∧ c.toNat ≤ 0x39 := by
  simp only [Char.isDigit, Bool.and_eq_true, decide_eq_true_eq] at digit
  exact ⟨digit.1, digit.2⟩

instance : Separate where
  white c white := by
    have letter : isLetter c = false := not_inRanges_of_apart white_apart_letters white
    have number : isNumber c = false := not_inRanges_of_apart white_apart_numbers white
    rw [isAlphanumeric, letter, number, Bool.or_false]
  mark c mark := by
    have every : marks.all (fun d => !isWhite d && !isAlphanumeric d) = true := by decide +kernel
    simpa using List.all_eq_true.mp every c mark
  digit c digit := by
    have bounds := bounds_of_isDigit digit
    have number : isNumber c = true := inRanges_cons_of_mem bounds.1 bounds.2
    have below : c.toNat < 0x41 := Nat.lt_of_le_of_lt bounds.2 (by decide)
    have letter : isLetter c = false := if_pos below
    exact ⟨by rw [isAlphanumeric, number, Bool.or_true], letter⟩

section Separate

variable [Classes]

theorem isAlphanumeric_of_isLetter (letter : isLetter c = true) : isAlphanumeric c = true := by
  rw [isAlphanumeric, letter, Bool.true_or]

theorem not_isAlphanumeric_of_isWhite [Separate] (white : isWhite c = true) : isAlphanumeric c = false :=
  Separate.white c white

theorem not_isWhite_of_isAlphanumeric [Separate] (alphanumeric : isAlphanumeric c = true) : isWhite c = false := by
  rw [← Bool.not_eq_true]
  exact fun white => absurd alphanumeric (by simp [not_isAlphanumeric_of_isWhite white])

theorem not_isWhite_of_mem_marks [Separate] (mark : c ∈ marks) : isWhite c = false :=
  (Separate.mark c mark).1

theorem not_isAlphanumeric_of_mem_marks [Separate] (mark : c ∈ marks) : isAlphanumeric c = false :=
  (Separate.mark c mark).2

theorem not_isLetter_of_mem_marks [Separate] (mark : c ∈ marks) : isLetter c = false := by
  rw [← Bool.not_eq_true]
  exact fun letter => absurd (isAlphanumeric_of_isLetter letter) (by simp [not_isAlphanumeric_of_mem_marks mark])

theorem isAlphanumeric_of_isDigit [Separate] (digit : c.isDigit = true) : isAlphanumeric c = true :=
  (Separate.digit c digit).1

theorem not_isLetter_of_isDigit [Separate] (digit : c.isDigit = true) : isLetter c = false :=
  (Separate.digit c digit).2

end Separate

end Deferred.Text
