import Deferred.Proofs.Arithmetic.Tokens
import Deferred.Proofs.Parsing.Ends
import Deferred.Proofs.Parsing.Literals

/-! Numerals are read exactly or rejected. Digits are added to a number one by one, downwards behind a minus
sign, and each step is checked twice; still the number that they denote in the end decides alone whether they
are accepted, for any number of digits and of zeros in front. A numeral takes all digits that stand there, and
the decimal text of every word is read back. -/

namespace Deferred.Arithmetic

open Grammar

variable {ρ : Type} {Value : ρ → Type} {rules : Rules Value} {σ : Type} {input next : Input}

section Value

structure Denotes (negative : Bool) (digits : List Char) (value : Int) : Prop where
  each : ∀ c ∈ digits, c.isDigit = true
  value : value = withSign negative (decimalValue digits)

def IsWord (value : Int) : Prop :=
  -2 ^ 63 ≤ value ∧ value ≤ 2 ^ 63 - 1

theorem isWord_toInt (number : Int64) : IsWord number.toInt := by
  have low := number.le_toInt
  have high := number.toInt_lt
  constructor <;> omega

theorem toInt_ofInt_of_isWord {value : Int} (word : IsWord value) : (Int64.ofInt value).toInt = value := by
  obtain ⟨low, high⟩ := word
  exact Int64.toInt_ofInt_of_le low (Int.lt_add_one_of_le high)

theorem foldlM_shiftIn_eq_none (negative : Bool) (value : Int) {digits : List Char}
    (other : ∃ c ∈ digits, c.isDigit = false) : digits.foldlM (shiftIn negative) value = none := by
  induction digits generalizing value with
  | nil => simp at other
  | cons c rest ih =>
    rw [List.foldlM_cons]
    cases digit : c.isDigit with
    | false => simp [shiftIn, Text.digitValue?, digit]
    | true =>
      have behind : ∃ d ∈ rest, d.isDigit = false := by simpa [digit] using other
      cases shiftIn negative value c with
      | none => rfl
      | some value' => exact ih value' behind

theorem wordOfDigits?_eq_some_iff_denotes {negative : Bool} {digits : List Char} {number : Int64} :
    wordOfDigits? negative digits = some number ↔ Denotes negative digits number.toInt := by
  by_cases each : ∀ c ∈ digits, c.isDigit = true
  case pos =>
    rw [wordOfDigits?_eq_some_iff negative each]
    exact ⟨fun value => ⟨each, value⟩, fun denotes => denotes.value⟩
  case neg =>
    have other : ∃ c ∈ digits, c.isDigit = false := by simpa using each
    rw [wordOfDigits?, foldlM_shiftIn_eq_none negative 0 other, Option.map_none]
    exact ⟨fun never => absurd never (by simp), fun denotes => absurd denotes.each each⟩

theorem wordOfDigits?_eq_none_iff {negative : Bool} {digits : List Char} :
    wordOfDigits? negative digits = none ↔ ¬∃ value, Denotes negative digits value ∧ IsWord value := by
  rw [← not_iff_not, not_not, ← ne_eq, Option.ne_none_iff_exists']
  constructor
  · intro found
    obtain ⟨number, found⟩ := found
    exact ⟨_, wordOfDigits?_eq_some_iff_denotes.mp found, isWord_toInt number⟩
  · intro given
    obtain ⟨value, denotes, word⟩ := given
    refine ⟨.ofInt value, wordOfDigits?_eq_some_iff_denotes.mpr ?_⟩
    rwa [toInt_ofInt_of_isWord word]

theorem decimalValue_toDigits (value : Nat) : decimalValue (Nat.toDigits 10 value) = value := by
  have digits := @Nat.ofDigitChars_ten_toDigits value
  rw [Nat.ofDigitChars_eq_foldl] at digits
  simpa only [decimalValue, Nat.mul_comm] using digits

end Value

section Decimal

variable {grammar : Grammar Value (Bool × List Char)} {negative : Bool} {digits : List Char}

def tooLarge (input : Input) (text : List Char) : ParseError :=
  .mismatch "a number that fits in 64 bits" (String.ofList text) input.pos

theorem takes_decimal {number : Int64} : Takes rules (decimal grammar) input number next ↔
    ∃ negative digits, Takes rules grammar input (negative, digits) next ∧
      Denotes negative digits number.toInt := by
  simp only [decimal, takes_refine, ← wordOfDigits?_eq_some_iff_denotes]
  constructor
  · intro given
    obtain ⟨⟨negative, digits⟩, takes, judged⟩ := given
    refine ⟨negative, digits, takes, ?_⟩
    split at judged
    next found => exact found.trans (congrArg some (Except.ok.inj judged))
    next => cases judged
  · intro given
    obtain ⟨negative, digits, takes, found⟩ := given
    exact ⟨_, takes, by simp only [found]⟩

theorem reads_tooLarge (takes : Takes rules grammar input (negative, digits) next)
    (none : ¬∃ value, Denotes negative digits value ∧ IsWord value) {text : List Char}
    (spans : input.Spans text next) :
    Reads rules (decimal grammar) input (.error (tooLarge input text)) := by
  refine reads_refine.mpr ⟨_, takes, ?_⟩
  have matched := Reads.matched_eq takes spans.spells
  simp only [Except.bind, Parsed.judged, wordOfDigits?_eq_none_iff.mpr none, matched]
  rfl

theorem takes_decimal_iff (takes : Takes rules grammar input (negative, digits) next) {number : Int64} :
    Takes rules (decimal grammar) input number next ↔ Denotes negative digits number.toInt := by
  rw [takes_decimal]
  constructor
  · intro given
    obtain ⟨negative', digits', takes', denotes⟩ := given
    obtain ⟨rfl, rfl⟩ := Prod.mk.inj (takes.unique takes').1
    exact denotes
  · exact fun denotes => ⟨negative, digits, takes, denotes⟩

end Decimal

section Stands

variable {signs negative : Bool} {digits : List Char}

def signText (negative : Bool) : List Char :=
  if negative then ['-'] else []

/-- A sign, if signs are allowed, and all digits that come behind it, of which there is one, stand between two
places. -/
structure Stands (signs : Bool) (input : Input) (negative : Bool) (digits : List Char) (next : Input) :
    Prop where
  allowed : negative = true → signs = true
  nonempty : digits ≠ []
  each : ∀ c ∈ digits, c.isDigit = true
  spans : input.Spans (signText negative ++ digits) next
  stops : ∀ c, next.head = some c → c.isDigit = false

def signOf : Bool → Grammar Value Bool
  | true => ((char '-').giving true).or (pure false)
  | false => pure false

theorem takes_digits_iff : Takes rules digit.many1 input digits next ↔ input.Spans digits next ∧
    digits ≠ [] ∧ (∀ c ∈ digits, c.isDigit = true) ∧ ∀ c, next.head = some c → c.isDigit = false := by
  rw [takes_digits]
  constructor
  · intro given
    obtain ⟨rfl, rfl, nonempty⟩ := given
    exact ⟨input.spans_skipWhile _, nonempty, List.all_eq_true.mp List.all_takeWhile,
      fun _ => Input.head_skipWhile⟩
  · intro given
    obtain ⟨spans, nonempty, each, stops⟩ := given
    refine ⟨?_, (spans.skipWhile_eq (List.all_eq_true.mpr each) stops).symm, nonempty⟩
    rw [spans.rest, (takeWhile_append_of_stops each stops).1]

theorem takes_signOf (front : signs = true → negative = false → input.head ≠ some '-') :
    Takes rules (signOf signs) input negative next ↔
      (negative = true → signs = true) ∧ input.Spans (signText negative) next := by
  cases signs with
  | false =>
    rw [signOf, takes_pure]
    cases negative with
    | true => simp
    | false => simp [signText, Input.spans_nil_iff]
  | true =>
    rw [signOf, takes_sign]
    cases negative with
    | true => simp [signText, Input.spans_cons_iff, Input.spans_nil_iff]
    | false => simp [signText, Input.spans_nil_iff, front rfl rfl]

theorem takes_signOf_seq : Takes rules ((signOf signs).seq digit.many1) input (negative, digits) next ↔
    Stands signs input negative digits next := by
  simp only [takes_seq, takes_digits_iff]
  constructor
  · intro given
    obtain ⟨middle, sign, spans, nonempty, each, stops⟩ := given
    have front : signs = true → negative = false → input.head ≠ some '-' := by
      rintro rfl rfl minus
      rcases takes_sign.mp sign with ⟨-, -, never⟩ | ⟨plain, -, -⟩
      · cases never
      · exact plain minus
    obtain ⟨allowed, spans'⟩ := (takes_signOf front).mp sign
    exact ⟨allowed, nonempty, each, Input.spans_append_iff.mpr ⟨middle, spans', spans⟩, stops⟩
  · intro stands
    obtain ⟨middle, spans', spans⟩ := Input.spans_append_iff.mp stands.spans
    have front : signs = true → negative = false → input.head ≠ some '-' := by
      rintro - rfl minus
      obtain rfl := Input.spans_nil_iff.mp spans'
      obtain ⟨c, rest, rfl⟩ := List.exists_cons_of_ne_nil stands.nonempty
      have digit := stands.each c (List.mem_cons_self ..)
      rw [Option.some.inj ((Input.spans_cons_iff.mp spans).1.symm.trans minus)] at digit
      exact absurd digit (by decide)
    exact ⟨middle, (takes_signOf front).mpr ⟨stands.allowed, spans'⟩, spans, stands.nonempty,
      stands.each, stands.stops⟩

theorem endsFrom_signOf (signs : Bool) : EndsFrom rules input (signOf signs) := by
  cases signs with
  | false => exact endsFrom_pure false
  | true => exact .or (.map _ (endsFrom_sat _ _)) (endsFrom_pure false)

/-- A grammar reads the numerals of words, and nothing else. Of a numeral it takes everything, and it rejects
one that is no word with its text. -/
def ReadsNumerals (σ : Type) [Storable (Except ParseError (Parsed Int64)) σ] (rules : Rules Value)
    (signs : Bool) (grammar : Grammar Value Int64) : Prop :=
  ∀ input, (∃ answer, Gives σ rules grammar input answer) ∧
    (∀ parsed, Gives σ rules grammar input (.ok parsed) ↔ parsed.start = input ∧
      ∃ negative digits, Stands signs input negative digits parsed.next ∧
        parsed.value.toInt = withSign negative (decimalValue digits)) ∧
    ∀ negative digits next, Stands signs input negative digits next →
      ¬IsWord (withSign negative (decimalValue digits)) →
        Gives σ rules grammar input (.error (tooLarge input (signText negative ++ digits)))

theorem readsNumerals [Storable (Except ParseError (Parsed Int64)) σ] (rules : Rules Value) (signs : Bool) :
    ReadsNumerals σ rules signs (decimal ((signOf signs).seq digit.many1)) := by
  intro input
  simp only [← reads_iff_gives]
  refine ⟨?_, fun parsed => ?_, fun negative digits next stands large => ?_⟩
  · have ends : EndsFrom rules input (decimal ((signOf signs).seq digit.many1)) :=
      .refine _ (.seq (endsFrom_signOf signs) (.rep 1 (endsFrom_sat _ _)))
    exact ends input (.refl input)
  · constructor
    · intro reads
      obtain ⟨negative, digits, takes, denotes⟩ := takes_decimal.mp reads.takes
      exact ⟨reads.from.start, negative, digits, takes_signOf_seq.mp takes, denotes.value⟩
    · intro given
      obtain ⟨value, _, next⟩ := parsed
      obtain ⟨rfl, negative, digits, stands, value⟩ := given
      exact takes_decimal.mpr ⟨negative, digits, takes_signOf_seq.mpr stands, stands.each, value⟩
  · refine reads_tooLarge (takes_signOf_seq.mpr stands) ?_ stands.spans
    rintro ⟨_, ⟨-, rfl⟩, word⟩
    exact large word

theorem stands_shown (number : Int64) (mark : Nat) :
    let input := Input.ofList (shown number).toList mark
    ∃ negative digits next, Stands true input negative digits next ∧ next.rest = [] ∧
      number.toInt = withSign negative (decimalValue digits) := by
  intro input
  let negative := decide (number.toInt < 0)
  let digits := Nat.toDigits 10 number.toInt.natAbs
  have text : (shown number).toList = signText negative ++ digits := by
    change (toString number.toInt).toList = _
    rw [Int.toString_eq_repr, Int.repr_eq_if]
    by_cases below : number.toInt < 0
    case pos =>
      have size : (-number.toInt).toNat = number.toInt.natAbs := by omega
      rw [if_neg (Int.not_le.mpr below), size]
      simp [negative, digits, signText, below]
    case neg =>
      have size : number.toInt.toNat = number.toInt.natAbs := by omega
      rw [if_pos (Int.not_lt.mp below), size]
      simp [negative, digits, signText, below]
  have left : input.rest = signText negative ++ digits ++ [] := by
    rw [List.append_nil, ← text]
    rfl
  obtain ⟨spans, ended⟩ := Input.spans_of_rest_eq left
  refine ⟨negative, digits, _, ⟨fun _ => rfl, Nat.toDigits_ne_nil, ?_, spans, ?_⟩, ended, ?_⟩
  · exact fun c member => Nat.isDigit_of_mem_toDigits (by decide) (by decide) member
  · rw [Input.head, ended]
    simp
  · rw [decimalValue_toDigits]
    by_cases below : number.toInt < 0
    case pos =>
      simp only [withSign, negative, below, decide_true, if_true]
      omega
    case neg =>
      simp only [withSign, negative, below, decide_false, Bool.false_eq_true, if_false]
      omega

end Stands

/-- Numerals are read exactly or rejected. Whatever sign and digits are handed to it, `decimal` comes to the number
they denote if that is a word, and else, or if not all of them are digits, it rejects their text where it starts.
So a signed numeral is read just where an optional minus sign and behind it digits stand that denote a word, and all
of these are taken; an unsigned one likewise, without the sign. Each word is read back from its decimal text. -/
theorem numerals_read_exactly [Storable (Except ParseError (Parsed (Bool × List Char))) σ]
    [Storable (Except ParseError (Parsed Int64)) σ] (rules : Rules Value) :
    (∀ (grammar : Grammar Value (Bool × List Char)) (input next : Input) (negative : Bool) (digits : List Char),
      Gives σ rules grammar input (.ok ⟨(negative, digits), input, next⟩) →
        (∀ number : Int64, Gives σ rules (decimal grammar) input (.ok ⟨number, input, next⟩) ↔
          Denotes negative digits number.toInt) ∧
        (∀ value, Denotes negative digits value →
          ((∃ parsed, Gives σ rules (decimal grammar) input (.ok parsed)) ↔ IsWord value)) ∧
        ((∃ value, Denotes negative digits value ∧ IsWord value) ∨
          ∃ text, input.Spans text next ∧
            Gives σ rules (decimal grammar) input (.error (tooLarge input text)))) ∧
    ReadsNumerals σ rules true signed ∧ ReadsNumerals σ rules false unsigned ∧
    ∀ (number : Int64) (mark : Nat), ∃ next : Input, next.rest = [] ∧
      Gives σ rules signed (.ofList (shown number).toList mark)
        (.ok ⟨number, .ofList (shown number).toList mark, next⟩) := by
  refine ⟨?_, readsNumerals rules true, readsNumerals rules false, fun number mark => ?_⟩
  · intro grammar input next negative digits gives
    simp only [← reads_iff_gives] at gives ⊢
    have takes : Takes rules grammar input (negative, digits) next := gives
    refine ⟨fun number => takes_decimal_iff takes, fun value denotes => ?_, ?_⟩
    · constructor
      · intro given
        obtain ⟨parsed, reads⟩ := given
        obtain ⟨negative', digits', takes', denotes'⟩ := takes_decimal.mp reads.takes
        obtain ⟨rfl, rfl⟩ := Prod.mk.inj (takes.unique takes').1
        exact denotes.value.trans denotes'.value.symm ▸ isWord_toInt parsed.value
      · intro word
        have denotes' : Denotes negative digits (Int64.ofInt value).toInt := by
          rwa [toInt_ofInt_of_isWord word]
        exact ⟨_, (takes_decimal_iff takes).mpr denotes'⟩
    · by_cases word : ∃ value, Denotes negative digits value ∧ IsWord value
      case pos => exact .inl word
      case neg =>
        obtain ⟨text, spans⟩ := takes.before.exists_spans
        exact .inr ⟨text, spans, reads_tooLarge takes word spans⟩
  · obtain ⟨negative, digits, next, stands, ended, value⟩ := stands_shown number mark
    exact ⟨next, ended, ((readsNumerals rules true _).2.1 _).mpr ⟨rfl, negative, digits, stands, value⟩⟩

/-- The same digits are the least word behind a minus sign, and one too many without it. -/
theorem numerals_read_exactly_least :
    let σ := Except ParseError (Parsed (Bool × List Char)) ⊕ Except ParseError (Parsed Int64)
    let rules : Rules fun _ : Unit => Unit := Rules.empty
    let digits := "9223372036854775808".toList
    let input := Input.ofString ""
    let source := Input.ofString "-9223372036854775808"
    Gives σ rules (.pure (true, digits)) input (.ok ⟨(true, digits), input, input⟩) ∧
      Gives σ rules (.pure (false, digits)) input (.ok ⟨(false, digits), input, input⟩) ∧
      Gives σ rules (decimal (.pure (true, digits))) input (.ok ⟨Int64.minValue, input, input⟩) ∧
      Gives σ rules (decimal (.pure (false, digits))) input (.error (tooLarge input [])) ∧
      ∃ next : Input, next.rest = [] ∧ Gives σ rules signed source (.ok ⟨Int64.minValue, source, next⟩) := by
  intro σ rules digits input source
  have given : ∀ negative : Bool, Gives σ rules (.pure (negative, digits)) input
      (.ok ⟨(negative, digits), input, input⟩) :=
    fun negative => reads_iff_gives.mp (reads_pure.mpr rfl)
  have each : ∀ c ∈ digits, c.isDigit = true := List.all_eq_true.mp rfl
  obtain ⟨handed, -, -, readBack⟩ := numerals_read_exactly (σ := σ) rules
  refine ⟨given true, given false, ?_, ?_, readBack Int64.minValue 0⟩
  · exact ((handed _ input input true digits (given true)).1 Int64.minValue).mpr ⟨each, by decide⟩
  · rcases (handed _ input input false digits (given false)).2.2 with ⟨_, ⟨-, rfl⟩, word⟩ | ⟨text, spans, gives⟩
    · exact absurd word.2 (by decide)
    · obtain rfl : text = [] := List.prefix_nil.mp spans.1
      exact gives

end Deferred.Arithmetic
