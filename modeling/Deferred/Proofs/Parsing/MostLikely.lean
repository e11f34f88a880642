import Deferred.Proofs.Parsing.Alternatives

/-! The error that is reported. It is chosen by going over the leaves of an error from left to right, while the
position of an error is read off the tree. Both agree: the choice is the leftmost of the leaves that are as far
into the text as the whole error. -/

namespace Deferred.ParseError

variable {error first second leaf : ParseError}

theorem leaves_of_mem_leaves (member : leaf ∈ error.leaves) : leaf.leaves = [leaf] := by
  induction error with
  | mismatch | undefined =>
    obtain rfl := List.mem_singleton.mp member
    rfl
  | alternatives first second ih ih' =>
    rcases List.mem_append.mp member with left | right
    · exact ih left
    · exact ih' right

/-- Going over more leaves only matters if the furthest of them is further than what was found before. -/
theorem furthest_cons (likely leaf : ParseError) (rest : List ParseError) :
    furthest likely (leaf :: rest) =
      if likely.position < (furthest leaf rest).position then furthest leaf rest else likely := by
  induction rest generalizing likely leaf with
  | nil => rfl
  | cons next rest ih => grind [furthest]

/-- Of two alternatives, what the second one reports is only reported if it is further into the text. -/
theorem mostLikely_alternatives (first second : ParseError) :
    (alternatives first second).mostLikely =
      if first.mostLikely.position < second.mostLikely.position then second.mostLikely
      else first.mostLikely := by
  obtain ⟨head, rest, found⟩ := List.exists_cons_of_ne_nil first.leaves_ne_nil
  obtain ⟨head', rest', found'⟩ := List.exists_cons_of_ne_nil second.leaves_ne_nil
  have both : (alternatives first second).leaves = head :: (rest ++ head' :: rest') := by
    rw [leaves, found, found', List.cons_append]
  rw [mostLikely_eq_of_leaves both, mostLikely_eq_of_leaves found, mostLikely_eq_of_leaves found',
    furthest_append, furthest_cons]

theorem position_mostLikely (error : ParseError) : error.mostLikely.position = error.position := by
  induction error with
  | mismatch | undefined => rfl
  | alternatives first second ih ih' =>
    rw [mostLikely_alternatives, position, ← ih, ← ih']
    split
    next further => exact (Nat.max_eq_right (Nat.le_of_lt further)).symm
    next other => exact (Nat.max_eq_left (Nat.not_lt.mp other)).symm

theorem position_le_of_mem_leaves (member : leaf ∈ error.leaves) : leaf.position ≤ error.position := by
  induction error with
  | mismatch | undefined => exact Nat.le_of_eq (congrArg position (List.mem_singleton.mp member))
  | alternatives first second ih ih' =>
    rcases List.mem_append.mp member with left | right
    · exact Nat.le_trans (ih left) (Nat.le_max_left ..)
    · exact Nat.le_trans (ih' right) (Nat.le_max_right ..)

/-- What is reported stands among the leaves, and all leaves to its left are nearer to the start. -/
theorem leaves_eq_append (error : ParseError) : ∃ before after,
    error.leaves = before ++ error.mostLikely :: after ∧
      ∀ leaf ∈ before, leaf.position < error.position := by
  induction error with
  | mismatch | undefined => exact ⟨[], [], rfl, by simp⟩
  | alternatives first second ih ih' =>
    obtain ⟨before, after, split, nearer⟩ := ih
    obtain ⟨before', after', split', nearer'⟩ := ih'
    rw [mostLikely_alternatives, position_mostLikely, position_mostLikely, position]
    by_cases further : first.position < second.position
    · rw [if_pos further, Nat.max_eq_right (Nat.le_of_lt further)]
      refine ⟨first.leaves ++ before', after', by rw [leaves, split', List.append_assoc], ?_⟩
      intro leaf member
      rcases List.mem_append.mp member with left | right
      · exact Nat.lt_of_le_of_lt (position_le_of_mem_leaves left) further
      · exact nearer' leaf right
    · rw [if_neg further, Nat.max_eq_left (Nat.not_lt.mp further)]
      refine ⟨before, after ++ second.leaves, by rw [leaves, split, List.append_assoc, List.cons_append], ?_⟩
      exact nearer

/-- A report is about the leftmost of the leaves that are furthest into the text. It stands as far into the text
as the whole error says, and the report has the words of this leaf, with the line and the offset of that position
and the lines around it. -/
theorem mostLikely_leftmost_furthest (error : ParseError) (source : List Char) :
    (∃ before after, error.leaves = before ++ error.mostLikely :: after ∧
      ∀ leaf ∈ before, leaf.position < error.mostLikely.position) ∧
    error.mostLikely.position = error.position ∧
    (∀ leaf ∈ error.leaves, leaf.leaves = [leaf] ∧ leaf.position ≤ error.mostLikely.position) ∧
    error.render source =
      let location : Location := ⟨source, error.position⟩
      "Syntax error at line " ++ toString location.linePosition.line ++ ", offset " ++
        toString location.linePosition.offset ++ ": " ++ error.mostLikely.message ++ "\n\n" ++
        String.join (location.excerpt.map fun line => String.ofList line ++ "\n") := by
  have same := error.position_mostLikely
  obtain ⟨before, after, split, nearer⟩ := error.leaves_eq_append
  refine ⟨⟨before, after, split, fun leaf member => ?_⟩, same, fun leaf member => ⟨?_, ?_⟩, ?_⟩
  · exact same ▸ nearer leaf member
  · exact leaves_of_mem_leaves member
  · exact same ▸ position_le_of_mem_leaves member
  · unfold render
    dsimp only
    rw [same]

/-- Of two leaves at the same place the left one is reported. -/
example : (alternatives (.undefined 1) (.alternatives (.mismatch "a" "'x'" 2) (.undefined 2))).mostLikely =
    .mismatch "a" "'x'" 2 := rfl

end Deferred.ParseError
