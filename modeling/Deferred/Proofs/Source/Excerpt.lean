import Deferred.Source.Input
import Deferred.Source.Location
import Mathlib.Algebra.BigOperators.Group.List.Basic
import Mathlib.Algebra.Ring.Nat

/-! A report points at the right character. The line and the offset of a place come from going over the
characters before it, and the lines around it from splitting the text; both number the lines alike. So above the
caret stands the character that the place is at. -/

namespace Deferred.Location

section Lines

variable {c : Char}

theorem lines_newline (rest : List Char) : lines ('\n' :: rest) = [] :: lines rest := by
  rw [lines, if_pos rfl]

theorem exists_lines_eq (text : List Char) : ∃ line others, lines text = line :: others := by
  induction text with
  | nil => exact ⟨[], [], rfl⟩
  | cons c rest ih =>
    obtain ⟨line, others, split⟩ := ih
    rw [lines, split]
    split
    next => exact ⟨_, _, rfl⟩
    next => exact ⟨_, _, rfl⟩

theorem lines_cons (inner : c ≠ '\n') {rest line : List Char} {others : List (List Char)}
    (split : lines rest = line :: others) : lines (c :: rest) = (c :: line) :: others := by
  rw [lines, if_neg inner, split]

theorem lines_eq_splitOn (text : List Char) : lines text = text.splitOn '\n' := by
  induction text with
  | nil => rfl
  | cons c rest ih =>
    rw [List.splitOn, List.splitOnP_cons_eq_if_modifyHead, ← List.splitOn, ← ih]
    by_cases newline : c = '\n'
    · rw [newline, lines_newline, if_pos (beq_self_eq_true _)]
    · obtain ⟨line, others, split⟩ := exists_lines_eq rest
      rw [if_neg (by simpa using newline), lines_cons newline split, split, List.modifyHead_cons]

end Lines

section Scan

variable {c : Char} {rest : List Char} {position : Nat}

theorem le_line_scan (place : LinePosition) (text : List Char) : place.line ≤ (scan place text).line := by
  induction text generalizing place with
  | nil => exact Nat.le_refl _
  | cons c rest ih =>
    rw [scan]
    split
    next => exact Nat.le_trans (Nat.le_succ _) (ih ⟨place.line + 1, 0⟩)
    next => exact ih ⟨place.line, place.offset + 1⟩

theorem scan_succ_line (line offset : Nat) (text : List Char) :
    scan ⟨line + 1, offset⟩ text = ⟨(scan ⟨line, offset⟩ text).line + 1, (scan ⟨line, offset⟩ text).offset⟩ := by
  induction text generalizing line offset with
  | nil => rfl
  | cons c rest ih =>
    simp only [scan]
    split
    next => exact ih (line + 1) 0
    next => exact ih line (offset + 1)

theorem scan_succ_offset (line offset : Nat) (text : List Char) :
    scan ⟨line, offset + 1⟩ text = ⟨(scan ⟨line, offset⟩ text).line,
      if (scan ⟨line, offset⟩ text).line = line then (scan ⟨line, offset⟩ text).offset + 1
      else (scan ⟨line, offset⟩ text).offset⟩ := by
  induction text generalizing offset with
  | nil => simp [scan]
  | cons c rest ih =>
    simp only [scan]
    split
    next =>
      have further : line < (scan ⟨line + 1, 0⟩ rest).line := le_line_scan ⟨line + 1, 0⟩ rest
      rw [if_neg (Nat.ne_of_gt further)]
    next => exact ih (offset + 1)

theorem linePosition_nil (position : Nat) : linePosition ⟨[], position⟩ = ⟨1, position⟩ := by
  simp [linePosition, scan]

theorem linePosition_zero (text : List Char) : linePosition ⟨text, 0⟩ = ⟨1, 0⟩ := by
  simp [linePosition, scan]

theorem linePosition_newline : linePosition ⟨'\n' :: rest, position + 1⟩ =
    ⟨(linePosition ⟨rest, position⟩).line + 1, (linePosition ⟨rest, position⟩).offset⟩ := by
  simp [linePosition, scan, scan_succ_line 1 0]

theorem linePosition_cons (inner : c ≠ '\n') : linePosition ⟨c :: rest, position + 1⟩ =
    ⟨(linePosition ⟨rest, position⟩).line, if (linePosition ⟨rest, position⟩).line = 1
      then (linePosition ⟨rest, position⟩).offset + 1 else (linePosition ⟨rest, position⟩).offset⟩ := by
  simp only [linePosition, List.take_succ_cons, scan, if_neg inner, scan_succ_offset 1 0, List.length_cons,
    Nat.add_sub_add_right]
  by_cases first : (scan ⟨1, 0⟩ (rest.take position)).line = 1
  · simp [first, Nat.add_right_comm]
  · simp [first]

end Scan

structure StandsIn (source : List Char) (position : Nat) (before : List (List Char)) (text : List Char)
    (after : List (List Char)) : Prop where
  split : lines source = before ++ text :: after
  number : (linePosition ⟨source, position⟩).line = before.length + 1
  newlines : (source.take position).count '\n' = before.length
  total : (before.map fun line => line.length + 1).sum + (linePosition ⟨source, position⟩).offset = position
  /-- The line ends where its newline or the end of the text is. -/
  char : text[(linePosition ⟨source, position⟩).offset]? = source[position]?.filter (· ≠ '\n')

namespace StandsIn

variable {c : Char} {source : List Char} {position : Nat} {before : List (List Char)} {line : List Char}
  {after : List (List Char)}

theorem nil (position : Nat) : StandsIn [] position [] [] [] where
  split := rfl
  number := by rw [linePosition_nil]; rfl
  newlines := by simp
  total := by simp [linePosition_nil]
  char := by simp

theorem zero (split : lines source = line :: after) : StandsIn source 0 [] line after where
  split := split
  number := by rw [linePosition_zero]; rfl
  newlines := rfl
  total := by rw [linePosition_zero]; rfl
  char := by
    rw [linePosition_zero]
    cases source with
    | nil =>
      obtain ⟨rfl, rfl⟩ := List.cons.inj split
      rfl
    | cons c rest =>
      by_cases newline : c = '\n'
      · subst newline
        obtain ⟨rfl, rfl⟩ := List.cons.inj ((lines_newline rest).symm.trans split)
        rfl
      · obtain ⟨first, others, splits⟩ := exists_lines_eq rest
        obtain ⟨rfl, rfl⟩ := List.cons.inj ((lines_cons newline splits).symm.trans split)
        simp [Option.filter, newline]

theorem newline (stands : StandsIn source position before line after) :
    StandsIn ('\n' :: source) (position + 1) ([] :: before) line after where
  split := by rw [lines_newline, stands.split, List.cons_append]
  number := by rw [linePosition_newline, stands.number, List.length_cons]
  newlines := by simp [stands.newlines]
  total := by
    have total := stands.total
    simp only [linePosition_newline, List.map_cons, List.sum_cons, List.length_nil]
    omega
  char := by simpa [linePosition_newline] using stands.char

theorem first (stands : StandsIn source position [] line after) (inner : c ≠ '\n') :
    StandsIn (c :: source) (position + 1) [] (c :: line) after := by
  have number : (linePosition ⟨source, position⟩).line = 1 := stands.number
  refine ⟨lines_cons inner stands.split, ?_, ?_, ?_, ?_⟩
  · rw [linePosition_cons inner, number]
    rfl
  · simpa [inner] using stands.newlines
  · simpa [linePosition_cons inner, number] using stands.total
  · simpa [linePosition_cons inner, number] using stands.char

theorem later {head : List Char} (stands : StandsIn source position (head :: before) line after)
    (inner : c ≠ '\n') : StandsIn (c :: source) (position + 1) ((c :: head) :: before) line after := by
  have number : (linePosition ⟨source, position⟩).line ≠ 1 := by simp [stands.number]
  refine ⟨lines_cons inner stands.split, ?_, ?_, ?_, ?_⟩
  · rw [linePosition_cons inner, stands.number]
    rfl
  · simpa [inner] using stands.newlines
  · have total := stands.total
    simp only [linePosition_cons inner, if_neg number, List.map_cons, List.sum_cons,
      List.length_cons] at total ⊢
    omega
  · simpa [linePosition_cons inner, number] using stands.char

end StandsIn

theorem exists_standsIn (source : List Char) (position : Nat) :
    ∃ before line after, StandsIn source position before line after := by
  induction source generalizing position with
  | nil => exact ⟨[], [], [], .nil position⟩
  | cons c rest ih =>
    cases position with
    | zero =>
      obtain ⟨line, others, split⟩ := exists_lines_eq (c :: rest)
      exact ⟨[], line, others, .zero split⟩
    | succ position =>
      obtain ⟨before, line, after, stands⟩ := ih position
      by_cases newline : c = '\n'
      · exact ⟨_, _, _, newline ▸ stands.newline⟩
      · cases before with
        | nil => exact ⟨_, _, _, stands.first newline⟩
        | cons head before => exact ⟨_, _, _, stands.later newline⟩

def lineStart : (index start : Nat) → List Char → Nat
  | _, start, [] => start
  | index, start, c :: rest =>
    if c = '\n' then lineStart (index + 1) (index + 1) rest else lineStart (index + 1) start rest

theorem lineStart_add_offset {place : LinePosition} {index start : Nat} (text : List Char)
    (counted : start + place.offset = index) :
    lineStart index start text + (scan place text).offset = index + text.length := by
  induction text generalizing place index start with
  | nil => exact counted
  | cons c rest ih =>
    rw [lineStart, scan, List.length_cons]
    split
    next =>
      rw [@ih ⟨place.line + 1, 0⟩ (index + 1) (index + 1) rfl]
      omega
    next =>
      rw [@ih ⟨place.line, place.offset + 1⟩ (index + 1) start (by simp only; omega)]
      omega

theorem lineStart_add_linePosition (location : Location) :
    lineStart 0 0 (location.source.take location.position) + location.linePosition.offset =
      location.position := by
  have counted := @lineStart_add_offset ⟨1, 0⟩ 0 0 (location.source.take location.position) rfl
  simp only [List.length_take] at counted
  simp only [linePosition]
  omega

section Report

def numberedLines (text : List Char) (first last : Nat) : List (List Char × Nat) :=
  ((lines text).zipIdx 1).filter fun line => first ≤ line.2 ∧ line.2 ≤ last

def plain (line : List Char × Nat) : List Char :=
  margin false line.2 ++ line.1

def shownLine (place : LinePosition) (line : List Char × Nat) : List (List Char) :=
  if line.2 = place.line then [margin true line.2 ++ line.1, pointer line.2 place.offset] else [plain line]

theorem reportLines_eq (place : LinePosition) (number : Nat) (text : List (List Char)) :
    reportLines place number text =
      ((text.zipIdx number).filter fun line => place.line ≤ line.2 + 2 ∧ line.2 ≤ place.line + 2).flatMap
        (shownLine place) := by
  induction text generalizing number with
  | nil => rfl
  | cons line rest ih =>
    rw [reportLines, List.zipIdx_cons, ih]
    by_cases far : number + 2 < place.line ∨ place.line + 2 < number
    · rw [if_pos far, List.filter_cons_of_neg]
      simp only [decide_eq_true_eq]
      omega
    · rw [if_neg far, List.filter_cons_of_pos, List.flatMap_cons, shownLine]
      · split
        next => rfl
        next => rfl
      · simp only [decide_eq_true_eq]
        omega

theorem flatMap_shownLine {place : LinePosition} {numbered : List (List Char × Nat)}
    (other : ∀ line ∈ numbered, line.2 ≠ place.line) : numbered.flatMap (shownLine place) = numbered.map plain := by
  induction numbered with
  | nil => rfl
  | cons line rest ih =>
    rw [List.flatMap_cons, shownLine, if_neg (other line List.mem_cons_self),
      ih fun line member => other line (List.mem_cons_of_mem _ member)]
    rfl

theorem margin_eq (marked : Bool) (number : Nat) : margin marked number =
    (if marked then [' ', ' ', '>', ' '] else [' ', ' ', ' ', ' ']) ++ Nat.toDigits 10 number ++ [' ', '|', ' '] := by
  have digits : (toString number).toList = Nat.toDigits 10 number := by simp
  rw [margin, digits]
  cases marked with
  | false => rfl
  | true => rfl

theorem utf8Length_digits (number : Nat) :
    utf8Length (Nat.toDigits 10 number) = (Nat.toDigits 10 number).length := by
  have each : ∀ c ∈ Nat.toDigits 10 number, c.utf8Size = 1 := by
    intro c member
    have digit : c.isDigit = true := Nat.isDigit_of_mem_toDigits (by decide) (by decide) member
    have last : c.val ≤ '9'.val := by simpa using (Bool.and_eq_true_iff.mp digit).2
    exact Char.utf8Size_eq_one_iff.mpr (UInt32.le_trans last (by decide))
  generalize Nat.toDigits 10 number = text at each
  induction text with
  | nil => rfl
  | cons c rest ih =>
    rw [utf8Length_cons, each c List.mem_cons_self, ih fun c member => each c (List.mem_cons_of_mem _ member),
      List.length_cons, Nat.add_comm]

theorem utf8Length_margin (marked : Bool) (number : Nat) :
    utf8Length (margin marked number) = (margin marked number).length := by
  rw [margin_eq, utf8Length_append, utf8Length_append, utf8Length_digits, List.length_append, List.length_append]
  cases marked with
  | false => rfl
  | true => rfl

theorem pointer_eq (number offset : Nat) : ∃ words, pointer number offset =
    List.replicate ((margin true number).length + offset) ' ' ++ '^' :: words :=
  ⟨"--- here".toList, rfl⟩

end Report

namespace StandsIn

variable {source : List Char} {position : Nat} {before : List (List Char)} {line : List Char}
  {after : List (List Char)}

theorem total_take (stands : StandsIn source position before line after) :
    (((lines source).take ((linePosition ⟨source, position⟩).line - 1)).map fun line => line.length + 1).sum +
      (linePosition ⟨source, position⟩).offset = position := by
  have taken : (lines source).take ((linePosition ⟨source, position⟩).line - 1) = before := by
    rw [stands.split, stands.number, Nat.add_sub_cancel, List.take_left]
  rw [taken]
  exact stands.total

theorem excerpt_eq (stands : StandsIn source position before line after) :
    excerpt ⟨source, position⟩ = (numberedLines source (max 1 ((linePosition ⟨source, position⟩).line - 2))
      (min ((linePosition ⟨source, position⟩).line + 2) (lines source).length)).flatMap
        (shownLine (linePosition ⟨source, position⟩)) := by
  have number := stands.number
  rw [excerpt, reportLines_eq, numberedLines]
  refine congrArg (List.flatMap _) (List.filter_congr fun numbered member => ?_)
  have least := List.le_snd_of_mem_zipIdx member
  have most : numbered.2 < (lines source).length + 1 := List.snd_lt_of_mem_zipIdx member
  simp only [decide_eq_decide]
  omega

/-- The line that the place is in is one of the numbered lines, and no other one has its number. -/
theorem exists_numberedLines_eq (stands : StandsIn source position before line after) {first last : Nat}
    (above : first ≤ (linePosition ⟨source, position⟩).line)
    (below : (linePosition ⟨source, position⟩).line ≤ last) :
    ∃ earlier later, numberedLines source first last =
        earlier ++ (line, (linePosition ⟨source, position⟩).line) :: later ∧
      (∀ other ∈ earlier, other.2 < (linePosition ⟨source, position⟩).line) ∧
      ∀ other ∈ later, (linePosition ⟨source, position⟩).line < other.2 := by
  have number := stands.number
  have numbered : (lines source).zipIdx 1 = before.zipIdx 1 ++
      (line, (linePosition ⟨source, position⟩).line) :: after.zipIdx ((linePosition ⟨source, position⟩).line + 1) := by
    rw [stands.split, List.zipIdx_append, List.zipIdx_cons, number, Nat.add_comm 1]
  rw [numberedLines, numbered, List.filter_append, List.filter_cons, if_pos (decide_eq_true ⟨above, below⟩)]
  refine ⟨_, _, rfl, fun other member => ?_, fun other member => ?_⟩
  · have most := List.snd_lt_of_mem_zipIdx (List.mem_filter.mp member).1
    omega
  · exact List.le_snd_of_mem_zipIdx (List.mem_filter.mp member).1

end StandsIn

theorem position_eq_of_linePosition_eq {source : List Char} {position other : Nat}
    (same : linePosition ⟨source, other⟩ = linePosition ⟨source, position⟩) : other = position := by
  obtain ⟨_, _, _, stands⟩ := exists_standsIn source position
  obtain ⟨_, _, _, stands'⟩ := exists_standsIn source other
  rw [← stands.total_take, ← stands'.total_take, same]

/-- A report points at the right character. The line of a place counts the newlines before it. Its offset is what
the place is behind the start of the line, so the line and the offset determine the place. The report has the lines
from two before that one to two behind it, as far as there are any, in order and each behind its number. Only this
one is marked, and it is followed by the pointer. Above the caret stands the character at the place, or nothing if the
line ends there. -/
theorem excerpt_points_at_place (source : List Char) (position : Nat) :
    let location : Location := ⟨source, position⟩
    let place := location.linePosition
    let all := lines source
    (1 ≤ place.line ∧ place.line - 1 = (source.take position).count '\n') ∧
    (lineStart 0 0 (source.take position) ≤ position ∧
      place.offset = position - lineStart 0 0 (source.take position)) ∧
    ((all.take (place.line - 1)).map fun line => line.length + 1).sum + place.offset = position ∧
    (∀ other, (⟨source, other⟩ : Location).linePosition = place → other = position) ∧
    all = source.splitOn '\n' ∧
    ∃ before text after,
      numberedLines source (max 1 (place.line - 2)) (min (place.line + 2) all.length) =
        before ++ (text, place.line) :: after ∧
      (∀ line ∈ before, line.2 < place.line) ∧ (∀ line ∈ after, place.line < line.2) ∧
      location.excerpt = before.map plain ++
        (margin true place.line ++ text) :: pointer place.line place.offset :: after.map plain ∧
      (∀ marked number, margin marked number =
        (if marked then [' ', ' ', '>', ' '] else [' ', ' ', ' ', ' ']) ++ Nat.toDigits 10 number ++ [' ', '|', ' ']) ∧
      utf8Length (margin true place.line) = (margin true place.line).length ∧
      (∃ words, pointer place.line place.offset =
        List.replicate ((margin true place.line).length + place.offset) ' ' ++ '^' :: words) ∧
      (margin true place.line ++ text)[(margin true place.line).length + place.offset]? =
        text[place.offset]? ∧
      text[place.offset]? = source[position]?.filter (· ≠ '\n') := by
  intro location place all
  obtain ⟨before, line, after, stands⟩ := exists_standsIn source position
  have number : place.line = before.length + 1 := stands.number
  have total : lineStart 0 0 (source.take position) + place.offset = position :=
    location.lineStart_add_linePosition
  refine ⟨⟨by omega, ?_⟩, ⟨by omega, by omega⟩, stands.total_take, fun other => position_eq_of_linePosition_eq,
    lines_eq_splitOn source, ?_⟩
  · rw [number, Nat.add_sub_cancel]
    exact stands.newlines.symm
  have length : all.length = before.length + (after.length + 1) := by
    rw [← List.length_cons, ← List.length_append, ← stands.split]
  have above : max 1 (place.line - 2) ≤ place.line := by omega
  have below : place.line ≤ min (place.line + 2) all.length := by omega
  obtain ⟨earlier, later, window, lower, higher⟩ := stands.exists_numberedLines_eq above below
  refine ⟨earlier, line, later, window, lower, higher, ?_, margin_eq, utf8Length_margin .., pointer_eq .., ?_,
    stands.char⟩
  · rw [stands.excerpt_eq, window, List.flatMap_append, List.flatMap_cons,
      flatMap_shownLine fun other member => Nat.ne_of_lt (lower other member),
      flatMap_shownLine fun other member => Nat.ne_of_gt (higher other member), shownLine, if_pos rfl]
    rfl
  · rw [List.getElem?_append_right (Nat.le_add_right ..), Nat.add_sub_cancel_left]

/-- The last line has no newline, and no lines are missing at the start. -/
example : excerpt ⟨"a\nbcd\ne".toList, 4⟩ =
    ["    1 | a".toList, "  > 2 | bcd".toList, "          ^--- here".toList, "    3 | e".toList] := by decide

end Deferred.Location
