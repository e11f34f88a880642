import Deferred.Parsing.Characters
import Deferred.Parsing.Combinators
import Deferred.Proofs.Future.Adequacy
import Deferred.Proofs.Parsing.Ends

/-! Reading on a loop refines direct reading. Each step of a reading is a job, and at any time only one
of them is outstanding, so the loop cannot change their order: a reading as a future settles, at once as
far as the clock is concerned, with what direct reading returns. -/

namespace Deferred.Grammar

open Future

variable {ρ : Type} {Value : ρ → Type} {σ α β γ : Type} {least fuel : Nat}

/-- A reading as a future agrees with a direct one: it settles with its outcome, after as many jobs at
every depth that is not below `least`. -/
def Agrees (least : Nat) (read : Input → Answer α) (parse : Nat → Input → Reading σ α) : Prop :=
  ∀ ⦃input answer⦄, read input = some answer →
    ∃ jobs, ∀ depth ≥ least, Settles (parse depth input) answer 0 jobs

theorem settles_bindOutcome {ε ε' α β : Type} {first : Future σ ε α} {step : Except ε α → Future σ ε' β}
    {outcome : Except ε α} {outcome' : Except ε' β} {jobs jobs' : Nat}
    (settles : Settles first outcome 0 jobs) (follows : Settles (step outcome) outcome' 0 jobs') :
    Settles (first.bindOutcome step) outcome' 0 (1 + jobs + jobs') :=
  .bindOutcome settles follows

section Loops

/-- Both loops over items are this one: they differ in what they make of the items. -/
def gatherFrom (item : Input → Reading σ α) (finish : Items α → Except ParseError (Parsed γ)) :
    (left : Nat) → List α → Input → Reading σ γ
  | left, seen, current =>
    (item current).bindOutcome fun
      | .ok parsed =>
        match left with
        | 0 => .settled (finish ⟨(parsed.value :: seen).reverse, parsed.next, none⟩)
        | left + 1 =>
          if current.pos < parsed.next.pos then
            gatherFrom item finish left (parsed.value :: seen) parsed.next
          else .settled (finish ⟨(parsed.value :: seen).reverse, parsed.next, none⟩)
      | .error error => .settled (finish ⟨seen.reverse, current, some error⟩)

theorem repeatFrom_eq (item : Input → Reading σ α) (start : Input) (left : Nat) (seen : List α)
    (current : Input) : repeatFrom item least start left seen current =
      gatherFrom item (·.atLeast least start) left seen current := by
  have failed : ∀ (values : List α) (place : Input) (error : ParseError),
      (if least ≤ values.length then .succeed ⟨values.reverse, start, place⟩ else .fail error) =
        (.settled (Items.atLeast ⟨values.reverse, place, some error⟩ least start) : Reading σ _) := by
    intro values place error
    simp only [Items.atLeast, List.length_reverse]
    split <;> rfl
  induction left generalizing seen current with
  | zero =>
    unfold repeatFrom gatherFrom
    simp only [failed]
    rfl
  | succ left ih =>
    unfold repeatFrom gatherFrom
    simp only [failed, ih]
    rfl

theorem chainFrom_eq (more : Input → Reading σ β) (combine : List β → γ) (start : Input) (left : Nat)
    (seen : List β) (current : Input) : chainFrom more combine start left seen current =
      gatherFrom more (fun items => .ok ⟨combine items.values, start, items.next⟩) left seen current := by
  induction left generalizing seen current with
  | zero =>
    unfold chainFrom gatherFrom
    rfl
  | succ left ih =>
    unfold chainFrom gatherFrom
    simp only [ih]
    rfl

/-- The bound on a loop is never reached: an item that takes text away leaves less than the bound. -/
theorem settles_gatherFrom {item : Input → Answer α} {parseItem : Nat → Input → Reading σ α}
    (forward : Forward item) (agrees : Agrees least item parseItem)
    (finish : Items α → Except ParseError (Parsed γ)) {left : Nat} {seen : List α} {current : Input}
    {items : Items α} (found : readItems item fuel current = some items)
    (bounded : current.remaining ≤ left) :
    ∃ jobs, ∀ depth ≥ least, Settles (gatherFrom (parseItem depth) finish left seen current)
      (finish (items.after seen.reverse)) 0 jobs := by
  induction fuel generalizing left seen current items with
  | zero => exact absurd found (by simp [readItems])
  | succ fuel ih =>
    rw [readItems] at found
    split at found
    next => exact absurd found (by simp)
    next error failed =>
      obtain rfl := Option.some.inj found
      obtain ⟨jobs, settles⟩ := agrees failed
      refine ⟨1 + jobs + 1, fun depth enough => ?_⟩
      unfold gatherFrom
      apply settles_bindOutcome (settles depth enough)
      simp only [Items.after, List.append_nil]
      exact .settled _
    next parsed first =>
      obtain ⟨jobs, settles⟩ := agrees first
      split at found
      next further =>
        obtain ⟨rest, behind, rfl⟩ := Option.map_eq_some_iff.mp found
        have less := (forward current parsed first).next.remaining_lt further
        obtain ⟨left, rfl⟩ := Nat.exists_eq_succ_of_ne_zero (Nat.ne_zero_of_lt (less.trans_le bounded))
        have within : parsed.next.remaining ≤ left := Nat.le_of_lt_succ (less.trans_le bounded)
        have whole : ∃ jobs', ∀ depth ≥ least,
            Settles (gatherFrom (parseItem depth) finish left (parsed.value :: seen) parsed.next)
              (finish (rest.after (parsed.value :: seen).reverse)) 0 jobs' := ih behind within
        obtain ⟨jobs', follows⟩ := whole
        refine ⟨1 + jobs + jobs', fun depth enough => ?_⟩
        unfold gatherFrom
        apply settles_bindOutcome (settles depth enough)
        rw [Items.after_after, ← List.reverse_cons]
        simp only [if_pos further]
        exact follows depth enough
      next still =>
        obtain rfl := Option.some.inj found
        refine ⟨1 + jobs + 1, fun depth enough => ?_⟩
        unfold gatherFrom
        apply settles_bindOutcome (settles depth enough)
        simp only [Items.after, ← List.reverse_cons]
        cases left with
        | zero => exact .settled _
        | succ left =>
          simp only [if_neg still]
          exact .settled _

end Loops

section Rules

variable {rules : Rules Value}

theorem agrees_parseWith {read : (rule : ρ) → Input → Answer (Value rule)}
    {parseRule : Nat → (rule : ρ) → Input → Reading σ (Value rule)}
    (forward : ∀ rule, Forward (read rule))
    (agrees : ∀ rule, Agrees least (read rule) fun depth => parseRule depth rule)
    (grammar : Grammar Value α) :
    Agrees least (grammar.readWith read fuel) fun depth => grammar.parseWith (parseRule depth) := by
  induction grammar with
  | pure value =>
    intro input answer found
    exact ⟨1, fun _ _ => Option.some.inj found ▸ .succeed _⟩
  | fail expected =>
    intro input answer found
    exact ⟨1, fun _ _ => Option.some.inj found ▸ .fail _⟩
  | sat | literal | eof =>
    intro input answer found
    exact ⟨1, fun _ _ => Option.some.inj found ▸ .settled _⟩
  | bind first next ihFirst ihNext =>
    intro input answer found
    rw [readWith] at found
    split at found
    next => exact absurd found (by simp)
    next error failed =>
      obtain rfl := Option.some.inj found
      obtain ⟨jobs, settles⟩ := ihFirst failed
      exact ⟨_, fun depth enough => (settles depth enough).bind_error⟩
    next left head =>
      obtain ⟨inner, tail, rfl⟩ := Option.map_eq_some_iff.mp found
      obtain ⟨jobs, settles⟩ := ihFirst head
      obtain ⟨jobs', follows⟩ := ihNext left.value tail
      exact ⟨_, fun depth enough => settles_bindOutcome (settles depth enough) (follows depth enough).map⟩
  | map f grammar ih =>
    intro input answer found
    obtain ⟨inner, read, rfl⟩ := Option.map_eq_some_iff.mp found
    obtain ⟨jobs, settles⟩ := ih read
    exact ⟨_, fun depth enough => (settles depth enough).map⟩
  | or first second ihFirst ihSecond =>
    intro input answer found
    rw [readWith] at found
    split at found
    next => exact absurd found (by simp)
    next error failed =>
      obtain ⟨inner, tail, rfl⟩ := Option.map_eq_some_iff.mp found
      obtain ⟨jobs, settles⟩ := ihFirst failed
      obtain ⟨jobs', follows⟩ := ihSecond tail
      exact ⟨_, fun depth enough =>
        settles_bindOutcome (settles depth enough) (follows depth enough).mapError⟩
    next parsed head =>
      obtain rfl := Option.some.inj found
      obtain ⟨jobs, settles⟩ := ihFirst head
      exact ⟨_, fun depth enough => (settles depth enough).orElse_ok⟩
  | refine grammar judge ih =>
    intro input answer found
    obtain ⟨inner, read, rfl⟩ := Option.map_eq_some_iff.mp found
    obtain ⟨jobs, settles⟩ := ih read
    refine ⟨1 + jobs + 1, fun depth enough => settles_bindOutcome (settles depth enough) ?_⟩
    cases inner with
    | ok parsed => exact .settled _
    | error error => exact .fail error
  | rep item least' ih =>
    intro input answer found
    obtain ⟨items, collected, rfl⟩ := Option.map_eq_some_iff.mp found
    have gathers : ∃ jobs, ∀ depth ≥ least, Settles (gatherFrom (item.parseWith (parseRule depth))
        (·.atLeast least' input) input.remaining [] input) (items.atLeast least' input) 0 jobs :=
      settles_gatherFrom (forward_readWith forward item) ih _ collected (Nat.le_refl _)
    simpa only [parseWith, repeatFrom_eq] using gathers
  | chain first more combine fallback ihFirst ihMore =>
    intro input answer found
    rw [readWith] at found
    split at found
    next => exact absurd found (by simp)
    next error failed =>
      obtain ⟨jobs, settles⟩ := ihFirst failed
      refine ⟨1 + jobs + 1, fun depth enough => settles_bindOutcome (settles depth enough) ?_⟩
      cases fallback with
      | none => exact Option.some.inj found ▸ .fail error
      | some value => exact Option.some.inj found ▸ .succeed _
    next parsed head =>
      obtain ⟨items, collected, rfl⟩ := Option.map_eq_some_iff.mp found
      obtain ⟨jobs, settles⟩ := ihFirst head
      obtain ⟨jobs', follows⟩ := settles_gatherFrom (forward_readWith forward more) ihMore
        (fun items => .ok ⟨combine parsed.value items.values, input, items.next⟩) collected
        (Nat.le_refl _)
      refine ⟨1 + jobs + jobs', fun depth enough => settles_bindOutcome (settles depth enough) ?_⟩
      simp only [chainFrom_eq]
      exact follows depth enough
  | lazy make ih => exact ih ()
  | ref rule => exact agrees rule

def ruleAt (rules : Rules Value) : (depth : Nat) → (rule : ρ) → Input → Reading σ (Value rule)
  | 0, _, _ => .stuck
  | depth + 1, rule, input =>
    match rules rule with
    | some body => parseAt rules depth body input
    | none => .fail (.undefined input.pos)

theorem parseAt_eq (depth : Nat) (grammar : Grammar Value α) (input : Input) :
    (parseAt rules depth grammar input : Reading σ α) = grammar.parseWith (ruleAt rules depth) input := by
  cases depth with
  | zero => rfl
  | succ depth => rfl

theorem agrees_ruleAt (rule : ρ) :
    Agrees fuel (readRule rules fuel rule) fun depth => (ruleAt rules depth rule : Input → Reading σ _) := by
  induction fuel generalizing rule with
  | zero => exact fun input answer found => absurd found (by simp [readRule])
  | succ fuel ih =>
    intro input answer found
    have deeper : ∀ depth ≥ fuel + 1, ∃ depth' ≥ fuel, depth = depth' + 1 := fun depth enough =>
      ⟨depth - 1, by omega, by omega⟩
    rw [readRule] at found
    split at found
    next body defined =>
      obtain ⟨jobs, settles⟩ := agrees_parseWith (forward_readRule rules fuel) ih body found
      refine ⟨jobs, fun depth enough => ?_⟩
      obtain ⟨depth, within, rfl⟩ := deeper depth enough
      simp only [ruleAt, defined, parseAt_eq]
      exact settles depth within
    next undefined =>
      obtain rfl := Option.some.inj found
      refine ⟨1, fun depth enough => ?_⟩
      obtain ⟨depth, _, rfl⟩ := deeper depth enough
      simp only [ruleAt, undefined]
      exact .fail _

theorem agrees_parseAt (grammar : Grammar Value α) :
    Agrees fuel (read rules fuel grammar) fun depth =>
      (parseAt rules depth grammar : Input → Reading σ α) := by
  intro input answer found
  simp only [parseAt_eq]
  exact agrees_parseWith (forward_readRule rules fuel) agrees_ruleAt grammar found

theorem exists_waitFor_of_read [Storable (Except ParseError (Parsed α)) σ] {grammar : Grammar Value α}
    {input : Input} {answer : Except ParseError (Parsed α)}
    (found : read rules fuel grammar input = some answer) :
    ∃ ran, ∀ bound > fuel + 2 * ran, ∀ loop : Loop σ, loop.Vacant →
      ∃ after, loop.waitFor bound (parse rules grammar input) = some ⟨some answer, ran, after⟩ ∧
        after.clock = loop.clock ∧ after.Vacant := by
  have agrees : Agrees fuel (read rules fuel grammar) fun depth =>
      (parseAt rules depth grammar : Input → Reading σ α) := agrees_parseAt grammar
  obtain ⟨ran, settles⟩ := agrees found
  have delivers : (parse rules grammar input : Reading σ α).Delivers fuel answer 0 ran :=
    delivers_bounded fun depth enough => (settles depth enough).delivers fuel
  exact ⟨ran, fun bound enough loop vacant => delivers.waitFor enough vacant⟩

/-- Reading on a loop where nothing else is to be done gives the outcome of direct reading, whatever it is,
and leaves nothing to be done and the clock where it was. Neither the configuration of the loop nor its
count towards the next periodic yield makes a difference, not even to the number of jobs. Direct reading
has an outcome if no rule leads back to itself. -/
theorem parse_refines_read (rules : Rules Value) :
    (WellFounded (fun inner outer => Uses rules outer inner) →
      ∀ (grammar : Grammar Value α) (input : Input), ∃ fuel answer,
        read rules fuel grammar input = some answer) ∧
      ∀ [Storable (Except ParseError (Parsed α)) σ] (grammar : Grammar Value α) (input : Input) (fuel : Nat)
        (answer : Except ParseError (Parsed α)), read rules fuel grammar input = some answer →
        ∃ ran, ∀ bound > fuel + 2 * ran, ∀ loop : Loop σ, loop.Vacant →
          ∃ after, loop.waitFor bound (parse rules grammar input) = some ⟨some answer, ran, after⟩ ∧
            after.clock = loop.clock ∧ after.Vacant := by
  constructor
  · intro acyclic grammar input
    obtain ⟨answer, fuel, found⟩ := exists_reads acyclic grammar input
    exact ⟨fuel, answer, found⟩
  · intro _ grammar input fuel answer found
    exact exists_waitFor_of_read found

/-- A rule that leads back to itself, read on a loop that diverts every other job. -/
theorem parse_refines_read_nested :
    let nested : Grammar (fun _ : Unit => Nat) Nat :=
      (char '(').bind fun _ => (ref ()).bind fun depth => (char ')').giving (depth + 1)
    let rules : Rules (fun _ : Unit => Nat) := fun _ => some (nested.or (.pure 0))
    let loop : Loop (Except ParseError (Parsed Nat)) := { config := { maxStreak := 0 } }
    ∃ parsed ran, parsed.value = 2 ∧ ∀ bound > 4 + 2 * ran, ∃ after,
      loop.waitFor bound (parse rules (ref ()) (.ofList ['(', '(', ')', ')'] 0)) =
        some ⟨some (.ok parsed), ran, after⟩ ∧ after.clock = 0 ∧ after.Vacant := by
  intro nested rules loop
  have found : ∃ parsed, parsed.value = 2 ∧
      read rules 4 (ref ()) (.ofList ['(', '(', ')', ')'] 0) = some (.ok parsed) := ⟨_, rfl, rfl⟩
  obtain ⟨parsed, value, found⟩ := found
  have empty : loop.Vacant := ⟨rfl, rfl, rfl⟩
  obtain ⟨ran, waited⟩ := (@parse_refines_read _ _ (Except ParseError (Parsed Nat)) _ rules).2
    (ref ()) _ 4 (.ok parsed) found
  exact ⟨parsed, ran, value, fun bound enough => waited bound enough loop empty⟩

end Rules

end Deferred.Grammar
