import Deferred.Parsing.Characters
import Deferred.Parsing.Combinators
import Deferred.Proofs.Ambiguous.Readings
import Deferred.Proofs.Parsing.Ends
import Deferred.Proofs.Parsing.Outcomes

/-! Grammars that can be read both ways: by one reading, which commits itself to the first alternative that
matches and repeats as often as it can, and by all readings. What the one reading finds is among all of them,
and if there are neither alternatives nor repetitions then there is nothing else to be found. -/

namespace Deferred

variable {α β : Type}

/-- A grammar of the forms that both kinds of grammars have. -/
inductive Shared : Type → Type 1 where
  | result {α : Type} (value : α) : Shared α
  | zero {α : Type} (expected : String) : Shared α
  | item : Shared Char
  | sat (accepts : Char → Bool) (expected : String) : Shared Char
  | char (expected : Char) : Shared Char
  | seq {α β : Type} (first : Shared α) (second : Shared β) : Shared (α × β)
  | seqLeft {α β : Type} (first : Shared α) (second : Shared β) : Shared α
  | seqRight {α β : Type} (first : Shared α) (second : Shared β) : Shared β
  | map {α β : Type} (f : α → β) (grammar : Shared α) : Shared β
  | bind {α β : Type} (first : Shared α) (next : α → Shared β) : Shared β
  | or {α : Type} (first second : Shared α) : Shared α
  /-- As many items as there are, of which at least `least` are needed, or any number of them. -/
  | rep {α : Type} (repeated : Shared α) (least : Nat) : Shared (List α)

namespace Shared

def deterministic {ρ : Type} {Value : ρ → Type} : {α : Type} → Shared α → Grammar Value α
  | _, .result value => .pure value
  | _, .zero expected => .fail expected
  | _, .item => .item
  | _, .sat accepts expected => .sat accepts expected
  | _, .char expected => .char expected
  | _, .seq first second => first.deterministic.seq second.deterministic
  | _, .seqLeft first second => first.deterministic.seqLeft second.deterministic
  | _, .seqRight first second => first.deterministic.seqRight second.deterministic
  | _, .map f grammar => .map f grammar.deterministic
  | _, .bind first next => .bind first.deterministic fun value => (next value).deterministic
  | _, .or first second => .or first.deterministic second.deterministic
  | _, .rep repeated least => .rep repeated.deterministic least

def ambiguous : {α : Type} → Shared α → Ambiguous α
  | _, .result value => .pure value
  | _, .zero _ => .zero
  | _, .item => .item
  | _, .sat accepts _ => .sat accepts
  | _, .char expected => .char expected
  | _, .seq first second => first.ambiguous.seq second.ambiguous
  | _, .seqLeft first second => first.ambiguous.seqLeft second.ambiguous
  | _, .seqRight first second => first.ambiguous.seqRight second.ambiguous
  | _, .map f grammar => .map f grammar.ambiguous
  | _, .bind first next => .bind first.ambiguous fun value => (next value).ambiguous
  | _, .or first second => .plus first.ambiguous second.ambiguous
  | _, .rep repeated _ => .many repeated.ambiguous

def Single : {α : Type} → Shared α → Prop
  | _, .result _ | _, .zero _ | _, .item | _, .sat _ _ | _, .char _ => True
  | _, .seq first second | _, .seqLeft first second | _, .seqRight first second =>
    first.Single ∧ second.Single
  | _, .map _ grammar => grammar.Single
  | _, .bind first next => first.Single ∧ ∀ value, (next value).Single
  | _, .or _ _ | _, .rep _ _ => False

end Shared

namespace Grammar

variable {ρ : Type} {Value : ρ → Type} {rules : Rules Value} {γ : Type}

def Chooses (rules : Rules Value) (grammar : Grammar Value α) (ambiguous : Ambiguous α) : Prop :=
  ∀ input parsed, Reads rules grammar input (.ok parsed) →
    ∃ derivation, ambiguous.Derives input derivation parsed.value parsed.next

theorem reads_bind_ok {first : Grammar Value α} {next : α → Grammar Value β} {input : Input}
    {parsed : Parsed β} (reads : Reads rules (first.bind next) input (.ok parsed)) :
    ∃ left right, Reads rules first input (.ok left) ∧
      Reads rules (next left.value) left.next (.ok right) ∧
        parsed.value = right.value ∧ parsed.next = right.next := by
  rcases reads_bind.mp reads with ⟨error, -, same⟩ | ⟨left, inner, earlier, later, same⟩
  · exact absurd same (by simp)
  · cases inner with
    | error error => exact absurd same (by simp [Except.map])
    | ok right =>
      obtain rfl := Except.ok.inj same
      exact ⟨left, right, earlier, later, rfl, rfl⟩

theorem reads_map_ok {f : α → β} {grammar : Grammar Value α} {input : Input} {parsed : Parsed β}
    (reads : Reads rules (.map f grammar) input (.ok parsed)) :
    ∃ inner, Reads rules grammar input (.ok inner) ∧ parsed = inner.map f := by
  obtain ⟨inner, read, same⟩ := reads_map.mp reads
  cases inner with
  | error error => exact absurd same (by simp [Except.map])
  | ok inner => exact ⟨inner, read, Except.ok.inj same⟩

theorem chooses_pure (value : α) : Chooses rules (.pure value) (.pure value) := by
  intro input parsed reads
  obtain rfl := Except.ok.inj (reads_pure.mp reads)
  exact ⟨.leaf, rfl, rfl, rfl⟩

theorem chooses_fail (expected : String) (ambiguous : Ambiguous α) :
    Chooses rules (.fail expected) ambiguous :=
  fun _ _ reads => absurd (reads_fail.mp reads) (by simp)

theorem readSat_ok {accepts : Char → Bool} {expected : String} {input : Input} {parsed : Parsed Char}
    (found : input.readSat accepts expected = .ok parsed) :
    input.advance = some (parsed.value, parsed.next) ∧ accepts parsed.value = true := by
  unfold Input.readSat at found
  split at found
  next moved =>
    split at found
    next accepted =>
      obtain rfl := Except.ok.inj found
      exact ⟨moved, accepted⟩
    next => exact absurd found (by simp)
  next => exact absurd found (by simp)

theorem chooses_item : Chooses rules item .item := by
  intro input parsed reads
  obtain ⟨moved, -⟩ := readSat_ok (reads_sat.mp reads).symm
  obtain ⟨stands, source, pos, -⟩ := Input.advance_eq_some moved
  exact ⟨.leaf, rfl, stands, source, pos⟩

theorem chooses_sat (accepts : Char → Bool) (expected : String) :
    Chooses rules (.sat accepts expected) (.sat accepts) := by
  intro input parsed reads
  obtain ⟨moved, accepted⟩ := readSat_ok (reads_sat.mp reads).symm
  obtain ⟨stands, source, pos, -⟩ := Input.advance_eq_some moved
  refine ⟨.both .leaf .leaf, .leaf, .leaf, parsed.value, parsed.next, rfl, ⟨rfl, stands, source, pos⟩, ?_⟩
  simp only [accepted, if_true]
  exact ⟨rfl, rfl, rfl⟩

theorem Chooses.map {grammar : Grammar Value α} {ambiguous : Ambiguous α} (f : α → β)
    (chooses : Chooses rules grammar ambiguous) : Chooses rules (.map f grammar) (.map f ambiguous) := by
  intro input parsed reads
  obtain ⟨inner, read, rfl⟩ := reads_map_ok reads
  obtain ⟨derivation, derives⟩ := chooses input inner read
  exact ⟨derivation, inner.value, rfl, derives⟩

theorem Chooses.bind {first : Grammar Value α} {next : α → Grammar Value β} {ambiguous : Ambiguous α}
    {follow : α → Ambiguous β} (chooses : Chooses rules first ambiguous)
    (follows : ∀ input derivation value rest, ambiguous.Derives input derivation value rest →
      Chooses rules (next value) (follow value)) :
    Chooses rules (.bind first next) (.bind ambiguous follow) := by
  intro input parsed reads
  obtain ⟨left, right, earlier, later, value, rest⟩ := reads_bind_ok reads
  obtain ⟨chosen, derives⟩ := chooses input left earlier
  obtain ⟨chosen', derives'⟩ := follows _ _ _ _ derives left.next right later
  rw [value, rest]
  exact ⟨.both chosen chosen', chosen, chosen', left.value, left.next, rfl, derives, derives'⟩

theorem Chooses.or {first second : Grammar Value α} {ambiguous ambiguous' : Ambiguous α}
    (chooses : Chooses rules first ambiguous) (chooses' : Chooses rules second ambiguous') :
    Chooses rules (.or first second) (.plus ambiguous ambiguous') := by
  intro input parsed reads
  rcases reads_or.mp reads with ⟨found, read, same⟩ | ⟨error, inner, -, read, same⟩
  · obtain rfl := Except.ok.inj same
    obtain ⟨chosen, derives⟩ := chooses input parsed read
    exact ⟨.left chosen, .inl ⟨chosen, rfl, derives⟩⟩
  · cases inner with
    | error error => exact absurd same (by simp [Except.mapError])
    | ok found =>
      obtain rfl := Except.ok.inj same
      obtain ⟨chosen, derives⟩ := chooses' input parsed read
      exact ⟨.right chosen, .inr ⟨chosen, rfl, derives⟩⟩

/-- To repeat as often as one can is one way to repeat. An item that consumes something never matches the
empty text, so the repetition ends only where the item fails. -/
theorem Chooses.collects {repeated : Grammar Value α} {ambiguous : Ambiguous α}
    (chooses : Chooses rules repeated ambiguous) (consumes : ambiguous.Consumes) {input : Input}
    {items : Items α} (collects : Collects (Reads rules repeated) input items) :
    ∃ derivation, Ambiguous.Repeats ambiguous.Derives input derivation items.values items.next := by
  induction collects with
  | failed => exact ⟨.stop, .stop _⟩
  | @stopped input parsed reads still =>
    obtain ⟨derivation, derives⟩ := chooses input parsed reads
    have less := consumes _ _ _ _ derives
    have same := congrArg Source.size reads.from.next.source
    unfold Input.remaining at less
    omega
  | @more input parsed items reads _ _ ih =>
    obtain ⟨first, derives⟩ := chooses input parsed reads
    obtain ⟨others, repeats⟩ := ih
    exact ⟨.more first others, .more derives repeats⟩

theorem Chooses.rep {repeated : Grammar Value α} {ambiguous : Ambiguous α}
    (chooses : Chooses rules repeated ambiguous) (consumes : ambiguous.Consumes) (least : Nat) :
    Chooses rules (.rep repeated least) (.many ambiguous) := by
  intro input parsed reads
  obtain ⟨items, collects, same⟩ := reads_rep.mp reads
  obtain rfl := Items.atLeast_ok same.symm
  exact chooses.collects consumes collects

def readingsOf : Except ParseError (Parsed α) → List (α × Input)
  | .ok parsed => [(parsed.value, parsed.next)]
  | .error _ => []

def Exhausts (rules : Rules Value) (grammar : Grammar Value α) (ambiguous : Ambiguous α) : Prop :=
  ∀ input readings, ambiguous.Lists input readings →
    ∃ answer, Reads rules grammar input answer ∧ readings = readingsOf answer

theorem exhausts_pure (value : α) : Exhausts rules (.pure value) (.pure value) :=
  fun _ _ lists => ⟨_, reads_pure.mpr rfl, lists⟩

theorem exhausts_fail (expected : String) : Exhausts rules (.fail expected : Grammar Value α) .zero :=
  fun _ _ lists => ⟨_, reads_fail.mpr rfl, lists⟩

theorem exhausts_item : Exhausts rules item .item := by
  intro input readings lists
  refine ⟨_, reads_sat.mpr rfl, lists.trans ?_⟩
  unfold Input.readSat
  cases input.advance with
  | none => rfl
  | some reading => rfl

theorem exhausts_sat (accepts : Char → Bool) (expected : String) :
    Exhausts rules (.sat accepts expected) (.sat accepts) := by
  rintro input readings ⟨firsts, follow, rfl, lists, rfl⟩
  refine ⟨_, reads_sat.mpr rfl, ?_⟩
  unfold Input.readSat
  cases moved : input.advance with
  | none => rfl
  | some reading =>
    have listed := lists reading (by simp [moved])
    rw [Option.toList_some, List.flatMap_singleton]
    cases accepted : accepts reading.1 with
    | true =>
      simp only [accepted, if_true] at listed ⊢
      exact listed
    | false =>
      simp only [accepted, Bool.false_eq_true, if_false] at listed ⊢
      exact listed

theorem Exhausts.map {grammar : Grammar Value α} {ambiguous : Ambiguous α} (f : α → β)
    (exhausts : Exhausts rules grammar ambiguous) :
    Exhausts rules (.map f grammar) (.map f ambiguous) := by
  rintro input readings ⟨found, lists, rfl⟩
  obtain ⟨answer, reads, rfl⟩ := exhausts input found lists
  refine ⟨_, reads_map.mpr ⟨answer, reads, rfl⟩, ?_⟩
  cases answer with
  | error error => rfl
  | ok parsed => rfl

theorem Exhausts.bind {first : Grammar Value α} {next : α → Grammar Value β} {ambiguous : Ambiguous α}
    {follow : α → Ambiguous β} (exhausts : Exhausts rules first ambiguous)
    (follows : ∀ value, Exhausts rules (next value) (follow value)) :
    Exhausts rules (.bind first next) (.bind ambiguous follow) := by
  rintro input readings ⟨firsts, behind, lists, listed, rfl⟩
  obtain ⟨answer, reads, rfl⟩ := exhausts input firsts lists
  cases answer with
  | error error => exact ⟨_, reads_bind.mpr (.inl ⟨error, reads, rfl⟩), rfl⟩
  | ok left =>
    obtain ⟨inner, reads', same⟩ := follows left.value left.next _ (listed _ List.mem_cons_self)
    refine ⟨_, reads_bind.mpr (.inr ⟨left, inner, reads, reads', rfl⟩), ?_⟩
    rw [readingsOf, List.flatMap_singleton, same]
    cases inner with
    | error error => rfl
    | ok right => rfl

end Grammar

namespace Shared

open Grammar

variable {ρ : Type} {Value : ρ → Type} {rules : Rules Value}

theorem endsFrom (grammar : Shared α) (input : Input) :
    EndsFrom rules input grammar.deterministic := by
  induction grammar generalizing input with
  | result value => exact endsFrom_pure value
  | zero expected => exact endsFrom_fail expected
  | item | sat | char => exact endsFrom_sat _ _
  | seq first second ih ih' => exact (ih input).seq (ih' input)
  | seqLeft first second ih ih' => exact (ih input).seqLeft (ih' input)
  | seqRight first second ih ih' => exact (ih input).seqRight (ih' input)
  | map f grammar ih => exact (ih input).map f
  | bind first next ih ih' => exact (ih input).bind fun _ left _ _ => ih' left.value left.next
  | or first second ih ih' => exact (ih input).or (ih' input)
  | rep repeated least ih => exact (ih input).rep least

theorem chooses {grammar : Shared α} (proper : grammar.ambiguous.Proper) :
    Chooses rules grammar.deterministic grammar.ambiguous := by
  induction grammar with
  | result value => exact chooses_pure value
  | zero expected => exact chooses_fail expected _
  | item => exact chooses_item
  | sat accepts expected => exact chooses_sat accepts expected
  | char expected => exact chooses_sat _ _
  | seq first second ih ih' =>
    exact (ih proper.1).bind fun _ _ _ _ derives => (ih' (proper.2 _ _ _ _ derives)).map _
  | seqLeft first second ih ih' =>
    exact (ih proper.1).bind fun _ _ _ _ derives => (ih' (proper.2 _ _ _ _ derives)).map _
  | seqRight first second ih ih' =>
    exact (ih proper.1).bind fun _ _ _ _ derives => ih' (proper.2 _ _ _ _ derives)
  | map f grammar ih => exact (ih proper).map f
  | bind first next ih ih' =>
    exact (ih proper.1).bind fun _ _ value _ derives => ih' value (proper.2 _ _ _ _ derives)
  | or first second ih ih' => exact (ih proper.1).or (ih' proper.2)
  | rep repeated least ih => exact (ih proper.1).rep proper.2 least

theorem exhausts {grammar : Shared α} (single : grammar.Single) :
    Exhausts rules grammar.deterministic grammar.ambiguous := by
  induction grammar with
  | result value => exact exhausts_pure value
  | zero expected => exact exhausts_fail expected
  | item => exact exhausts_item
  | sat accepts expected => exact exhausts_sat accepts expected
  | char expected => exact exhausts_sat _ _
  | seq first second ih ih' => exact (ih single.1).bind fun _ => (ih' single.2).map _
  | seqLeft first second ih ih' => exact (ih single.1).bind fun _ => (ih' single.2).map _
  | seqRight first second ih ih' => exact (ih single.1).bind fun _ => ih' single.2
  | map f grammar ih => exact (ih single).map f
  | bind first next ih ih' => exact (ih single.1).bind fun value => ih' value (single.2 value)
  | or | rep => exact single.elim

end Shared

section

variable {ρ : Type} {Value : ρ → Type} {rules : Rules Value} {σ : Type}

namespace Shared

/-- A grammar of both kinds whose repeated items consume something has one reading and a list of all readings
of any input. If the one reading succeeds, then its value and the place behind it are in the list; so it fails if
the list is empty. If the grammar has neither alternatives nor repetitions, then the list has at most one member,
and it has one just when the one reading succeeds. -/
theorem one_among_all [Storable (Except ParseError (Parsed α)) σ]
    [Storable (Except Empty (List (α × Input))) σ] (rules : Rules Value) {grammar : Shared α}
    (proper : grammar.ambiguous.Proper) (input : Input) :
    ∃ answer readings, Grammar.Gives σ rules grammar.deterministic input answer ∧
      Ambiguous.Comes (grammar.ambiguous.parseAll input : Future σ Empty _) (.ok readings) ∧
      (∀ parsed, answer = .ok parsed → (parsed.value, parsed.next) ∈ readings) ∧
      (readings = [] → ∃ error, answer = .error error) ∧
      (grammar.Single →
        readings.length ≤ 1 ∧ (readings.length = 1 ↔ ∃ parsed, answer = .ok parsed)) := by
  have ends : Grammar.EndsFrom rules input grammar.deterministic := grammar.endsFrom input
  obtain ⟨answer, reads⟩ := ends input (.refl input)
  obtain ⟨readings, lists⟩ := Ambiguous.exists_lists proper input
  obtain ⟨found, enumerates, rfl⟩ := lists.enumerated
  have spelt : Ambiguous.SpeltBy (grammar.ambiguous.readings input : Readings σ α) (found.map Prod.snd) :=
    lists.spelt proper
  have among : ∀ parsed, answer = .ok parsed → (parsed.value, parsed.next) ∈ found.map Prod.snd := by
    rintro parsed rfl
    obtain ⟨derivation, derives⟩ := chooses proper input parsed reads
    exact List.mem_map_of_mem ((enumerates.mem_iff ..).mpr derives)
  refine ⟨answer, found.map Prod.snd, reads.gives, Ambiguous.SpeltBy.comes spelt, among, ?_, ?_⟩
  · intro none
    cases answer with
    | error error => exact ⟨error, rfl⟩
    | ok parsed => exact absurd (none ▸ among parsed rfl) List.not_mem_nil
  · intro single
    obtain ⟨answer', reads', same⟩ := exhausts single input _ lists
    obtain rfl := reads.unique reads'
    rw [same]
    cases answer with
    | error error => simp [Grammar.readingsOf]
    | ok parsed => simp [Grammar.readingsOf]

def eitherCase : Shared (List Char) :=
  .rep (.or .item (.map Char.toUpper .item)) 0

abbrev WordOutcome : Type :=
  Except ParseError (Parsed (List Char)) ⊕ Except Empty (List (List Char × Input))

theorem one_among_all_greedy : eitherCase.ambiguous.Proper ∧
    ∃ (parsed : Parsed (List Char)) (readings : List (List Char × Input)), parsed.value = ['a', 'b'] ∧
      Grammar.Gives WordOutcome (Rules.empty : Rules fun _ : Empty => Unit) eitherCase.deterministic
        (.ofString "ab") (.ok parsed) ∧
      Ambiguous.Comes (eitherCase.ambiguous.parseAll (.ofString "ab") : Future WordOutcome Empty _)
        (.ok readings) ∧
      (parsed.value, parsed.next) ∈ readings := by
  have consumes : (Ambiguous.plus .item (.map Char.toUpper .item)).Consumes := by
    rintro input derivation value rest (⟨chosen, -, derives⟩ | ⟨chosen, -, c, -, derives⟩)
    · exact Ambiguous.consumes_item _ _ _ _ derives
    · exact Ambiguous.consumes_item _ _ _ _ derives
  have proper : eitherCase.ambiguous.Proper := ⟨⟨trivial, trivial⟩, consumes⟩
  have read : ∃ parsed : Parsed (List Char), parsed.value = ['a', 'b'] ∧ Grammar.Reads
      (Rules.empty : Rules fun _ : Empty => Unit) eitherCase.deterministic (.ofString "ab") (.ok parsed) :=
    ⟨_, rfl, 3, rfl⟩
  obtain ⟨parsed, value, reads⟩ := read
  obtain ⟨answer, readings, gives, comes, among, -, -⟩ := one_among_all (σ := WordOutcome)
    (Rules.empty : Rules fun _ : Empty => Unit) proper (.ofString "ab")
  exact ⟨proper, parsed, readings, value, reads.gives, comes, among parsed (gives.unique reads.gives)⟩

end Shared

end

end Deferred
