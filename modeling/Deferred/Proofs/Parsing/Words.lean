import Deferred.Proofs.Parsing.Outcomes
import Deferred.Proofs.Parsing.Takes
import Deferred.Proofs.Text.Classes

/-! Names. What is tested against the reserved words is the whole run of letters and digits behind the white space, so
a name may begin with a reserved word. All that can go wrong is reported where that run starts. -/

namespace Deferred

namespace Input

variable {input : Input} {accepts : Char → Bool} {c : Char}

theorem takeWhile_rest_of_head (stands : input.head = some c) (accepted : accepts c = true) :
    input.rest.takeWhile accepts = c :: input.tail.rest.takeWhile accepts := by
  rw [rest_eq_of_head stands, List.takeWhile_cons_of_pos accepted]

theorem skipWhile_of_head (stands : input.head = some c) (accepted : accepts c = true) :
    input.skipWhile accepts = input.tail.skipWhile accepts := by
  rw [skipWhile, takeWhile_rest_of_head stands accepted, List.length_cons, skip]
  rfl

end Input

namespace Grammar

variable {ρ : Type} {Value : ρ → Type} {rules : Rules Value} {σ α : Type} {input : Input}

section Outcomes

theorem Reads.token [Text.Classes] {grammar : Grammar Value α} {inner : Except ParseError (Parsed α)}
    (reads : Reads rules grammar input.skipWhite inner) :
    Reads rules grammar.token input
      (inner.map fun parsed => ⟨parsed.value, input, parsed.next.skipWhite⟩) := by
  have leading : Takes rules spaces input _ input.skipWhite := takes_spaces.mpr ⟨rfl, rfl⟩
  cases inner with
  | error error =>
    have failed : Reads rules (grammar.seqLeft spaces) input.skipWhite (.error error) :=
      reads_bind.mpr (.inl ⟨error, reads, rfl⟩)
    exact reads_bind.mpr (.inr ⟨_, _, leading, failed, rfl⟩)
  | ok parsed => exact takes_token.mpr ⟨parsed.next, reads.takes, rfl⟩

theorem Reads.guard [Shown α] {grammar : Grammar Value α} {inner : Except ParseError (Parsed α)}
    (reads : Reads rules grammar input inner) (accepts : α → Bool) (expected : String) :
    Reads rules (grammar.guard accepts expected) input
      (inner.bind fun parsed =>
        if accepts parsed.value then .ok parsed
        else .error (.mismatch expected (shown parsed.value) parsed.pos)) := by
  refine reads_refine.mpr ⟨inner, reads, ?_⟩
  cases inner with
  | error error => rfl
  | ok parsed =>
    simp only [Except.bind, Parsed.judged]
    cases accepts parsed.value with
    | true => rfl
    | false => rfl

end Outcomes

section Words

variable [Text.Classes]

theorem reads_word_of_letter {c : Char} (stands : input.head = some c) (letter : Text.isLetter c = true) :
    Reads rules word input (.ok ⟨String.ofList (input.rest.takeWhile Text.isAlphanumeric), input,
      input.skipWhile Text.isAlphanumeric⟩) := by
  have accepted := Text.isAlphanumeric_of_isLetter letter
  rw [Input.takeWhile_rest_of_head stands accepted, Input.skipWhile_of_head stands accepted]
  exact takes_word.mpr ⟨c, stands, letter, rfl, rfl⟩

theorem reads_word_of_other (other : ∀ c, input.head = some c → Text.isLetter c = false) :
    Reads rules word input (.error (input.mismatch "letter")) := by
  have first : Reads rules letter input (.error (input.mismatch "letter")) := by
    rw [letter, reads_sat, Input.readSat, Input.advance_eq]
    cases stands : input.head with
    | none => rfl
    | some c => simp only [Option.map_some, other c stands, Bool.false_eq_true, if_false]
  have failed : Reads rules (letter.seq alphanumeric.many) input (.error (input.mismatch "letter")) :=
    reads_bind.mpr (.inl ⟨_, first, rfl⟩)
  exact reads_refine.mpr ⟨_, failed, rfl⟩

/-- What comes of a name at a place. Only the whole run of letters and digits is compared with the reserved words. -/
def nameAt (reserved : List String) (place : Input) : Except ParseError (Parsed String) :=
  let text := place.rest.takeWhile Text.isAlphanumeric
  if text.head?.any Text.isLetter then
    if String.ofList text ∈ reserved then
      .error (.mismatch "non-reserved word" (shown (String.ofList text)) place.pos)
    else .ok ⟨String.ofList text, place, place.skipWhile Text.isAlphanumeric⟩
  else .error (place.mismatch "letter")

theorem head?_run_any (place : Input) :
    (place.rest.takeWhile Text.isAlphanumeric).head?.any Text.isLetter = place.head.any Text.isLetter := by
  have both : (fun c => Text.isAlphanumeric c && Text.isLetter c) = Text.isLetter := by
    funext c
    cases letter : Text.isLetter c with
    | true => rw [Text.isAlphanumeric_of_isLetter letter, Bool.true_and]
    | false => exact Bool.and_false _
  rw [List.head?_takeWhile, Option.any_filter, both, Input.head]

theorem reads_unreserved_word (reserved : List String) (place : Input) :
    Reads rules (word.guard (fun candidate => !reserved.contains candidate) "non-reserved word") place
      (nameAt reserved place) := by
  simp only [nameAt, head?_run_any]
  split
  next begins =>
    obtain ⟨c, stands, letter⟩ := (Option.any_eq_true _ _).mp begins
    have read : Reads rules word place _ := reads_word_of_letter stands letter
    have judged := read.guard (fun candidate => !reserved.contains candidate) "non-reserved word"
    simpa [Except.bind, Parsed.pos] using judged
  next none =>
    have other := (Option.any_eq_false _ _).mp (Bool.eq_false_iff.mpr none)
    exact (reads_word_of_other other).guard _ _

/-- A name is what stands behind the white space, and the white space behind it is skipped, too. -/
theorem reads_identifier (reserved : List String) (input : Input) :
    Reads rules (identifier reserved) input
      ((nameAt reserved input.skipWhite).map fun parsed => ⟨parsed.value, input, parsed.next.skipWhite⟩) :=
  (reads_unreserved_word reserved input.skipWhite).token

theorem nameAt_insert {front behind : List String} {reservedWord : String} {place : Input}
    (other : reservedWord.toList ≠ place.rest.takeWhile Text.isAlphanumeric) :
    nameAt (front ++ reservedWord :: behind) place = nameAt (front ++ behind) place := by
  have different : String.ofList (place.rest.takeWhile Text.isAlphanumeric) ≠ reservedWord :=
    fun same => other (same ▸ String.toList_ofList)
  simp only [nameAt, List.mem_append, List.mem_cons, different, false_or]

/-- Names are read exactly. What counts is the whole run of letters and digits behind the white space. If it is empty or
does not begin with a letter, a letter is missing where it starts; if it is reserved, it is refused there and shown; and
otherwise it is the name, and the white space behind it is skipped. So a reserved word that is only the beginning of the
run changes nothing, wherever it stands among the reserved words. -/
theorem identifier_reads_words [Storable (Except ParseError (Parsed String)) σ] (rules : Rules Value)
    (reserved : List String) (input : Input) :
    let place := input.skipWhite
    let text := place.rest.takeWhile Text.isAlphanumeric
    let name := String.ofList text
    ((text = [] ∨ ∃ c rest, text = c :: rest ∧ Text.isLetter c = false) →
      Gives σ rules (identifier reserved) input (.error (.mismatch "letter" place.found place.pos))) ∧
    (∀ c rest, text = c :: rest → Text.isLetter c = true →
      (name ∈ reserved → Gives σ rules (identifier reserved) input
        (.error (.mismatch "non-reserved word" (shown name) place.pos))) ∧
      (name ∉ reserved → Gives σ rules (identifier reserved) input
        (.ok ⟨name, input, (place.skipWhile Text.isAlphanumeric).skipWhite⟩))) ∧
    ∀ front shorter behind, reserved = front ++ shorter :: behind → shorter.toList <+: text → shorter.toList ≠ text →
      ∀ answer, Gives σ rules (identifier reserved) input answer ↔
        Gives σ rules (identifier (front ++ behind)) input answer := by
  intro place text name
  have gives : ∀ reserved, Gives σ rules (identifier reserved) input
      ((nameAt reserved place).map fun parsed => ⟨parsed.value, input, parsed.next.skipWhite⟩) :=
    fun reserved => (reads_identifier reserved input).gives
  refine ⟨fun other => ?_, fun c rest run letter => ?_, ?_⟩
  · have begins : ¬text.head?.any Text.isLetter = true := by
      rcases other with none | ⟨c, rest, run, other⟩
      · simp [none]
      · simp [run, other]
    have outcome := gives reserved
    rw [nameAt, if_neg begins] at outcome
    exact outcome
  · have begins : text.head?.any Text.isLetter = true := by simp [run, letter]
    have outcome := gives reserved
    rw [nameAt, if_pos begins] at outcome
    constructor
    · intro member
      rw [if_pos member] at outcome
      exact outcome
    · intro new
      rw [if_neg new] at outcome
      exact outcome
  · rintro front shorter behind rfl - different answer
    have gives' := gives (front ++ shorter :: behind)
    rw [nameAt_insert different] at gives'
    exact ⟨fun given => given.unique gives' ▸ gives (front ++ behind),
      fun given => given.unique (gives (front ++ behind)) ▸ gives'⟩

end Words

/-- A name that begins with a reserved word, the reserved word itself, and a superscript digit where a name has to
start. -/
theorem identifier_reads_words_prefixed :
    let rules : Rules fun _ : Unit => Unit := Rules.empty
    let σ := Except ParseError (Parsed String)
    let longer := Input.ofString " letter ="
    let same := Input.ofString " let x"
    let digit := Input.ofString "\t²x"
    (∃ next, Gives σ rules (identifier ["let", "in"]) longer (.ok ⟨"letter", longer, next⟩) ∧ next.rest = ['=']) ∧
    (∀ answer, Gives σ rules (identifier ["let", "in"]) longer answer ↔
      Gives σ rules (identifier ["in"]) longer answer) ∧
    Gives σ rules (identifier ["let", "in"]) same (.error (.mismatch "non-reserved word" "\"let\"" 1)) ∧
    Gives σ rules (identifier ["let", "in"]) digit (.error (.mismatch "letter" "'²'" 1)) := by
  intro rules σ longer same digit
  have shownWord : shown "let" = "\"let\"" := by decide
  have shownDigit : shown '²' = "'²'" := by decide
  obtain ⟨-, named, prefixed⟩ := identifier_reads_words (σ := σ) rules ["let", "in"] longer
  obtain ⟨-, reserved, -⟩ := identifier_reads_words (σ := σ) rules ["let", "in"] same
  obtain ⟨missing, -, -⟩ := identifier_reads_words (σ := σ) rules ["let", "in"] digit
  refine ⟨⟨_, (named 'l' "etter".toList rfl (by decide)).2 (by decide), rfl⟩, ?_, ?_, ?_⟩
  · exact prefixed [] "let" ["in"] rfl (by decide) (by decide)
  · exact shownWord ▸ (reserved 'l' "et".toList rfl (by decide)).1 (by decide)
  · exact shownDigit ▸ missing (.inr ⟨'²', ['x'], rfl, by decide⟩)

end Grammar

end Deferred
