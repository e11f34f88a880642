import Deferred.Proofs.Arithmetic.Derives
import Deferred.Proofs.Parsing.Takes
import Deferred.Proofs.Text.Classes

/-! Reading numerals and names. Digits are taken one by one, and a numeral is refused at the first of them
that leads out of the range; as the values of longer and longer prefixes only move away from zero, that
is the case just when the value of all of them is out of range. -/

namespace Deferred.Arithmetic

open Grammar

variable {ρ : Type} {Value : ρ → Type} {rules : Rules Value} {input next : Input}

section Number

def limit (negative : Bool) : Nat :=
  if negative then 9223372036854775808 else 9223372036854775807

def withSign (negative : Bool) (value : Nat) : Int :=
  if negative then -value else value

def extend (value : Nat) (digits : List Char) : Nat :=
  digits.foldl (fun value c => value * 10 + (c.toNat - '0'.toNat)) value

theorem le_extend (value : Nat) (digits : List Char) : value ≤ extend value digits := by
  induction digits generalizing value with
  | nil => exact Nat.le_refl value
  | cons c rest ih =>
    have step := ih (value * 10 + (c.toNat - '0'.toNat))
    simp only [extend, List.foldl_cons] at step ⊢
    omega

theorem withSign_mem_iff (negative : Bool) (value : Nat) :
    (-9223372036854775808 ≤ withSign negative value ∧ withSign negative value ≤ 9223372036854775807) ↔
      value ≤ limit negative := by
  cases negative with
  | true =>
    simp only [withSign, limit, if_true]
    omega
  | false =>
    simp only [withSign, limit, Bool.false_eq_true, if_false]
    omega

theorem word?_withSign (negative : Bool) (value : Nat) : word? (withSign negative value) =
    if value ≤ limit negative then some (withSign negative value) else none := by
  simp only [word?, withSign_mem_iff]

/-- The range is left either by the shift or by the digit, but not entered again. -/
theorem shiftIn_withSign (negative : Bool) (value : Nat) {c : Char} (digit : c.isDigit = true) :
    shiftIn negative (withSign negative value) c =
      if value * 10 + (c.toNat - '0'.toNat) ≤ limit negative then
        some (withSign negative (value * 10 + (c.toNat - '0'.toNat))) else none := by
  have shifted : withSign negative value * 10 = withSign negative (value * 10) := by
    cases negative with
    | true =>
      simp only [withSign, if_true]
      omega
    | false =>
      simp only [withSign, Bool.false_eq_true, if_false]
      omega
  have added : ∀ digit : Nat, (if negative = true then withSign negative (value * 10) - (digit : Int)
      else withSign negative (value * 10) + digit) = withSign negative (value * 10 + digit) := by
    intro digit
    cases negative with
    | true =>
      simp only [withSign, if_true]
      omega
    | false =>
      simp only [withSign, Bool.false_eq_true, if_false]
      omega
  simp only [shiftIn, Text.digitValue?, if_pos digit, Option.map_some, Option.bind_eq_bind,
    Option.bind_some, shifted, word?_withSign]
  split
  next => simp only [Option.bind_some, Int.ofNat_eq_natCast, added, word?_withSign]
  next large =>
    rw [Option.bind_none, if_neg]
    omega

theorem foldlM_shiftIn (negative : Bool) {value : Nat} (within : value ≤ limit negative)
    {digits : List Char} (each : ∀ c ∈ digits, c.isDigit = true) :
    digits.foldlM (shiftIn negative) (withSign negative value) =
      if extend value digits ≤ limit negative then some (withSign negative (extend value digits))
      else none := by
  induction digits generalizing value with
  | nil =>
    rw [List.foldlM_nil, extend, List.foldl_nil, if_pos within]
    rfl
  | cons c rest ih =>
    rw [List.foldlM_cons, shiftIn_withSign negative value (each c (List.mem_cons_self ..))]
    have whole : extend value (c :: rest) = extend (value * 10 + (c.toNat - '0'.toNat)) rest := rfl
    rw [whole]
    split
    next within' => exact ih within' fun d member => each d (List.mem_cons_of_mem _ member)
    next large =>
      have grows := le_extend (value * 10 + (c.toNat - '0'.toNat)) rest
      rw [if_neg (by omega)]
      rfl

theorem wordOfDigits?_eq_some_iff (negative : Bool) {digits : List Char}
    (each : ∀ c ∈ digits, c.isDigit = true) {number : Int64} :
    wordOfDigits? negative digits = some number ↔
      number.toInt = withSign negative (decimalValue digits) := by
  have zero : withSign negative 0 = 0 := by cases negative <;> rfl
  have folded := foldlM_shiftIn negative (Nat.zero_le (limit negative)) each
  rw [zero] at folded
  rw [wordOfDigits?, folded]
  have value : extend 0 digits = decimalValue digits := rfl
  rw [value]
  split
  next within =>
    obtain ⟨low, high⟩ := (withSign_mem_iff negative _).mpr within
    have stored := Int64.toInt_ofInt_of_le low (Int.lt_add_one_of_le high)
    simp only [Option.map_some, Option.some.injEq]
    constructor
    · intro same
      subst same
      exact stored
    · intro same
      rw [← same, Int64.ofInt_toInt]
  next large =>
    refine ⟨fun never => absurd never (by simp), fun same => absurd ?_ large⟩
    rw [← withSign_mem_iff, ← same]
    exact ⟨number.le_toInt, Int.le_of_lt_add_one number.toInt_lt⟩

end Number

section Signed

theorem takes_digits {digits : List Char} :
    Takes rules digit.many1 input digits next ↔ digits = input.rest.takeWhile Char.isDigit ∧
      next = input.skipWhile Char.isDigit ∧ digits ≠ [] := by
  simp only [many1, digit, takes_rep_sat, ← List.length_pos_iff, Nat.succ_le_iff]

theorem takes_sign {negative : Bool} :
    Takes rules (((char '-').giving true).or (pure false)) input negative next ↔
      input.head = some '-' ∧ next = input.tail ∧ negative = true ∨
        input.head ≠ some '-' ∧ next = input ∧ negative = false := by
  simp only [giving, takes_or, takes_map, fails_map, takes_pure, char, takes_sat, fails_sat, beq_iff_eq]
  constructor
  · intro given
    rcases given with ⟨c, ⟨minus, rfl, rfl⟩, rfl⟩ | ⟨plain, rfl, rfl⟩
    · exact .inl ⟨minus, rfl, rfl⟩
    · exact .inr ⟨fun minus => absurd (plain '-' minus) (by simp), rfl, rfl⟩
  · intro given
    rcases given with ⟨minus, rfl, rfl⟩ | ⟨plain, rfl, rfl⟩
    · exact .inl ⟨'-', ⟨minus, rfl, rfl⟩, rfl⟩
    · exact .inr ⟨fun c stands => beq_eq_false_iff_ne.mpr fun same => plain (same ▸ stands), rfl, rfl⟩

theorem takes_signed {number : Int64} : Takes rules signed input number next ↔
    ∃ negative middle digits, Takes rules (((char '-').giving true).or (pure false)) input negative middle ∧
      Takes rules digit.many1 middle digits next ∧ wordOfDigits? negative digits = some number := by
  simp only [signed, decimal, seq, takes_refine, takes_bind, takes_map]
  constructor
  · intro given
    obtain ⟨_, ⟨negative, middle, sign, digits, run, rfl⟩, judged⟩ := given
    refine ⟨negative, middle, digits, sign, run, ?_⟩
    split at judged
    next found => exact found.trans (congrArg some (Except.ok.inj judged))
    next => exact absurd judged (by simp)
  · intro given
    obtain ⟨negative, middle, digits, sign, run, value⟩ := given
    exact ⟨_, ⟨negative, middle, sign, digits, run, rfl⟩, by simp only [value]⟩

theorem Numeral.of_takes {number : Int64} (takes : Takes rules signed input number next) :
    ∃ core, input.rest = core ++ next.rest ∧ Numeral core number := by
  obtain ⟨negative, middle, digits, sign, run, value⟩ := takes_signed.mp takes
  obtain ⟨rfl, rfl, nonempty⟩ := takes_digits.mp run
  have each : ∀ c ∈ middle.rest.takeWhile Char.isDigit, c.isDigit = true :=
    List.all_eq_true.mp List.all_takeWhile
  rw [wordOfDigits?_eq_some_iff negative each] at value
  rw [Input.rest_skipWhile]
  rcases takes_sign.mp sign with ⟨minus, rfl, rfl⟩ | ⟨_, rfl, rfl⟩
  · refine ⟨_, ?_, .negative nonempty each value⟩
    rw [List.cons_append, List.takeWhile_append_dropWhile]
    exact Input.rest_eq_of_head minus
  · exact ⟨_, List.takeWhile_append_dropWhile.symm, .plain nonempty each value⟩

theorem Numeral.exists_takes {core rest : List Char} {number : Int64} (numeral : Numeral core number)
    (left : input.rest = core ++ rest) (stops : ∀ c, rest.head? = some c → c.isDigit = false) :
    ∃ next, Takes rules signed input number next ∧ next.rest = rest := by
  suffices read : ∀ (negative : Bool) (middle : Input) (digits : List Char), digits ≠ [] →
      (∀ c ∈ digits, c.isDigit = true) → number.toInt = withSign negative (decimalValue digits) →
      middle.rest = digits ++ rest →
      Takes rules (((char '-').giving true).or (pure false)) input negative middle →
      ∃ next, Takes rules signed input number next ∧ next.rest = rest by
    cases numeral with
    | @plain digits _ nonempty each value =>
      refine read false input _ nonempty each value left (takes_sign.mpr (.inr ⟨?_, rfl, rfl⟩))
      obtain ⟨c, digits, rfl⟩ := List.exists_cons_of_ne_nil nonempty
      rw [Input.head, left, List.cons_append, List.head?_cons]
      intro minus
      have digit := each c (List.mem_cons_self ..)
      rw [Option.some.inj minus] at digit
      exact absurd digit (by decide)
    | @negative digits _ nonempty each value =>
      have minus : input.head = some '-' := by simp [Input.head, left]
      refine read true input.tail _ nonempty each value ?_ (takes_sign.mpr (.inl ⟨minus, rfl, rfl⟩))
      rw [Input.rest_tail, left]
      rfl
  intro negative middle digits nonempty each value behind sign
  obtain ⟨run, after⟩ := takeWhile_append_of_stops each stops
  refine ⟨middle.skipWhile Char.isDigit, takes_signed.mpr ⟨negative, middle, digits, sign, ?_, ?_⟩, ?_⟩
  · exact takes_digits.mpr ⟨by rw [behind, run], rfl, nonempty⟩
  · exact (wordOfDigits?_eq_some_iff negative each).mpr value
  · rw [Input.rest_skipWhile, behind, after]

theorem fails_signed (other : ∀ c, input.head = some c → c ≠ '-' ∧ c.isDigit = false) :
    Fails rules signed input := by
  have sign : Takes rules (((char '-').giving true).or (pure false)) input false input :=
    takes_sign.mpr (.inr ⟨fun minus => absurd rfl (other '-' minus).1, rfl, rfl⟩)
  have short : (input.rest.takeWhile Char.isDigit).length < 1 := by
    rw [takeWhile_eq_nil_of_head fun c stands => (other c stands).2]
    exact Nat.zero_lt_one
  simp only [signed, decimal, seq, fails_refine, fails_bind, fails_map]
  exact .inl (.inr ⟨false, input, sign, fails_run short⟩)

end Signed

section Word

variable [Text.Classes]

theorem takes_unreserved {name : String} : Takes rules (word.guard (fun candidate =>
    !([] : List String).contains candidate) "non-reserved word") input name next ↔
      Takes rules word input name next := by
  simp only [Grammar.guard, takes_refine]
  constructor
  · intro given
    obtain ⟨text, takes, accepted⟩ := given
    exact Except.ok.inj accepted ▸ takes
  · exact fun takes => ⟨name, takes, rfl⟩

theorem Name.of_takes {name : String} (takes : Takes rules (word.guard (fun candidate =>
    !([] : List String).contains candidate) "non-reserved word") input name next) :
    ∃ core, input.rest = core ++ next.rest ∧ Name core name := by
  obtain ⟨c, stands, letter, rfl, rfl⟩ := takes_word.mp (takes_unreserved.mp takes)
  refine ⟨_, ?_, .mk letter (List.all_eq_true.mp List.all_takeWhile)⟩
  rw [Input.rest_skipWhile, List.cons_append, List.takeWhile_append_dropWhile]
  exact Input.rest_eq_of_head stands

theorem Name.exists_takes {core rest : List Char} {name : String} (is : Name core name)
    (left : input.rest = core ++ rest)
    (stops : ∀ c, rest.head? = some c → Text.isAlphanumeric c = false) :
    ∃ next, Takes rules (word.guard (fun candidate => !([] : List String).contains candidate)
      "non-reserved word") input name next ∧ next.rest = rest := by
  obtain @⟨c, letters, letter, each⟩ := is
  obtain ⟨run, after⟩ := takeWhile_append_of_stops each stops
  have stands : input.head = some c := by simp [Input.head, left]
  have behind : input.tail.rest = letters ++ rest := by rw [Input.rest_tail, left]; rfl
  refine ⟨_, takes_unreserved.mpr (takes_word.mpr ⟨c, stands, letter, rfl, by rw [behind, run]⟩), ?_⟩
  rw [Input.rest_skipWhile, behind, after]

end Word

end Deferred.Arithmetic
