/-! A character class is a table of closed code point ranges in increasing order. A search stops at
the first range that starts above the character, so the common characters are settled early. -/

namespace Deferred.Text

def inRanges : List (Nat × Nat) → Nat → Bool
  | [], _ => false
  | (low, high) :: rest, point =>
    if point < low then false
    else if point ≤ high then true
    else inRanges rest point

theorem inRanges_cons_of_mem {low high point : Nat} {rest : List (Nat × Nat)}
    (above : low ≤ point) (below : point ≤ high) :
    inRanges ((low, high) :: rest) point = true := by
  simp [inRanges, below, Nat.not_lt.mpr above]

theorem exists_range_of_inRanges {ranges : List (Nat × Nat)} {point : Nat}
    (found : inRanges ranges point = true) :
    ∃ range ∈ ranges, range.1 ≤ point ∧ point ≤ range.2 := by
  induction ranges with
  | nil => simp [inRanges] at found
  | cons range rest ih =>
    obtain ⟨low, high⟩ := range
    simp only [inRanges] at found
    split at found
    next => simp at found
    next above =>
      split at found
      next below => exact ⟨(low, high), by simp, Nat.not_lt.mp above, below⟩
      next =>
        obtain ⟨range, member, bounds⟩ := ih found
        exact ⟨range, List.mem_cons_of_mem _ member, bounds⟩

end Deferred.Text
