import Deferred.Proofs.Parsing.Separated

/-! Chains of operators are folds of one and the same match, a first operand and pairs of an operator and an operand
behind it. To the left they can be folded as they are read. To the right the last operand has to be known first;
until then the others wait with their operators on a stack. In both cases what comes of it is the nested application
that the association says, whatever the operators are and wherever the match ends. -/

namespace Deferred

variable {α : Type}

/-- An operand, and pairs of an operator and an operand, make this value if they associate to the left: the last
operator is applied last. -/
inductive FoldsLeft (first : α) : List ((α → α → α) × α) → α → Prop
  | nil : FoldsLeft first [] first
  | snoc {pairs total operator last} (folds : FoldsLeft first pairs total) :
      FoldsLeft first (pairs ++ [(operator, last)]) (operator total last)

inductive FoldsRight : α → List ((α → α → α) × α) → α → Prop
  | nil {first} : FoldsRight first [] first
  | cons {first operator second rest total} (folds : FoldsRight second rest total) :
      FoldsRight first ((operator, second) :: rest) (operator first total)

def applyNext (total : α) (pair : (α → α → α) × α) : α :=
  pair.1 total pair.2

def unwind (total : α) (waiting : List (α × (α → α → α))) : α :=
  waiting.foldl (fun total pair => pair.2 pair.1 total) total

/-- Each operand waits with the operator behind it until the last operand is known. -/
def shelve : List (α × (α → α → α)) → α → List ((α → α → α) × α) → α
  | waiting, last, [] => unwind last waiting
  | waiting, first, (operator, second) :: rest => shelve ((first, operator) :: waiting) second rest

theorem foldsLeft_iff (first : α) (pairs : List ((α → α → α) × α)) (total : α) :
    FoldsLeft first pairs total ↔ total = pairs.foldl applyNext first := by
  constructor
  · intro folds
    induction folds with
    | nil => rfl
    | snoc _ ih =>
      rw [List.foldl_append, ← ih]
      rfl
  · intro given
    obtain rfl := given
    induction pairs using List.reverseRecOn with
    | nil => exact .nil
    | append_singleton pairs pair ih =>
      rw [List.foldl_append]
      exact .snoc ih

theorem foldsRight_iff (first : α) (pairs : List ((α → α → α) × α)) (total : α) :
    FoldsRight first pairs total ↔ total = foldPairsRight first pairs := by
  constructor
  · intro folds
    induction folds with
    | nil => rfl
    | cons _ ih => rw [foldPairsRight, ← ih]
  · intro given
    obtain rfl := given
    induction pairs generalizing first with
    | nil => exact .nil
    | cons pair rest ih => exact .cons (ih pair.2)

/-- What waits is applied to what the rest makes, so the stack holds the operators outside of it from the inside
outwards. -/
theorem shelve_eq (waiting : List (α × (α → α → α))) (first : α) (pairs : List ((α → α → α) × α)) :
    shelve waiting first pairs = unwind (foldPairsRight first pairs) waiting := by
  induction pairs generalizing waiting first with
  | nil => rfl
  | cons pair rest ih =>
    rw [shelve, ih]
    rfl

example : shelve [] 2 [((· - ·), 3), ((· * ·), 4)] = (2 - 3 * 4 : Int) := rfl

namespace Grammar

variable {ρ : Type} {Value : ρ → Type} {rules : Rules Value} {σ : Type} {input : Input}

section Loops

def foldFrom (pair : Input → Reading σ ((α → α → α) × α)) (start : Input) :
    (left : Nat) → α → Input → Reading σ α
  | left, total, current =>
    (pair current).bindOutcome fun
      | .ok parsed =>
        match left with
        | 0 => .succeed ⟨applyNext total parsed.value, start, parsed.next⟩
        | left + 1 =>
          if current.pos < parsed.next.pos then
            foldFrom pair start left (applyNext total parsed.value) parsed.next
          else .succeed ⟨applyNext total parsed.value, start, parsed.next⟩
      | .error _ => .succeed ⟨total, start, current⟩

/-- To fold the pairs at the end and to fold them as they are read are the same future: the value that is carried
along is what the pairs so far make. -/
theorem chainFrom_foldl_eq (pair : Input → Reading σ ((α → α → α) × α)) (first : α) (start : Input) (left : Nat)
    (seen : List ((α → α → α) × α)) (current : Input) :
    chainFrom pair (fun pairs => pairs.foldl applyNext first) start left seen current =
      foldFrom pair start left (seen.reverse.foldl applyNext first) current := by
  have next : ∀ (seen : List ((α → α → α) × α)) latest, (latest :: seen).reverse.foldl applyNext first =
      applyNext (seen.reverse.foldl applyNext first) latest := by
    intro seen latest
    rw [List.reverse_cons, List.foldl_append]
    rfl
  induction left generalizing seen current with
  | zero =>
    unfold chainFrom foldFrom
    refine congrArg (Future.bindOutcome _) (funext fun outcome => ?_)
    cases outcome with
    | error error => rfl
    | ok parsed => simp only [next]
  | succ left ih =>
    unfold chainFrom foldFrom
    refine congrArg (Future.bindOutcome _) (funext fun outcome => ?_)
    cases outcome with
    | error error => rfl
    | ok parsed => simp only [ih, next]

variable {operand : Grammar Value α} {operator : Grammar Value (α → α → α)}

theorem parseWith_chainLeft (readRule : (rule : ρ) → Input → Reading σ (Value rule)) :
    (operand.chainLeft operator).parseWith readRule input = (operand.parseWith readRule input).bind fun first =>
      foldFrom ((operator.seq operand).parseWith readRule) input first.next.remaining first.value first.next := by
  refine congrArg (Future.bindOutcome _) (funext fun outcome => ?_)
  cases outcome with
  | error error => rfl
  | ok first => exact chainFrom_foldl_eq _ first.value input _ [] first.next

theorem parseWith_chainRight (readRule : (rule : ρ) → Input → Reading σ (Value rule)) :
    (operand.chainRight operator).parseWith readRule input = (operand.parseWith readRule input).bind fun first =>
      chainFrom ((operator.seq operand).parseWith readRule) (shelve [] first.value) input first.next.remaining []
        first.next := by
  refine congrArg (Future.bindOutcome _) (funext fun outcome => ?_)
  cases outcome with
  | error error => rfl
  | ok first =>
    have same : foldPairsRight first.value = shelve [] first.value := funext fun pairs => (shelve_eq [] _ pairs).symm
    simp only [same]

end Loops

def operandThenPairs (operand : Grammar Value α) (operator : Grammar Value (α → α → α)) :
    Grammar Value (α × List ((α → α → α) × α)) :=
  operand.seq (operator.seq operand).many

section Outcomes

variable {operand : Grammar Value α} {operator : Grammar Value (α → α → α)}

theorem reads_map_error_iff {β γ : Type} {f : β → γ} {grammar : Grammar Value β} {error : ParseError} :
    Reads rules (grammar.map f) input (.error error) ↔ Reads rules grammar input (.error error) := by
  rw [reads_map]
  constructor
  · intro given
    obtain ⟨inner, reads, same⟩ := given
    cases inner with
    | error error' => exact Except.error.inj same ▸ reads
    | ok parsed => cases same
  · exact fun reads => ⟨_, reads, rfl⟩

theorem reads_map_ok_iff {β γ : Type} {f : β → γ} {grammar : Grammar Value β} {whole : Parsed γ} :
    Reads rules (grammar.map f) input (.ok whole) ↔
      ∃ found, Reads rules grammar input (.ok found) ∧ whole = found.map f := by
  rw [reads_map]
  constructor
  · intro given
    obtain ⟨inner, reads, same⟩ := given
    cases inner with
    | error error => cases same
    | ok found => exact ⟨found, reads, Except.ok.inj same⟩
  · intro given
    obtain ⟨found, reads, rfl⟩ := given
    exact ⟨_, reads, rfl⟩

theorem reads_fold_iff {combine : α → List ((α → α → α) × α) → α} {folds : α → List ((α → α → α) × α) → α → Prop}
    (makes : ∀ first pairs total, folds first pairs total ↔ total = combine first pairs) :
    (∀ error, Reads rules (.chain operand (operator.seq operand) combine none) input (.error error) ↔
      Reads rules (operandThenPairs operand operator) input (.error error)) ∧
    ∀ whole, Reads rules (.chain operand (operator.seq operand) combine none) input (.ok whole) ↔
      ∃ found, Reads rules (operandThenPairs operand operator) input (.ok found) ∧ whole.start = found.start ∧
        whole.next = found.next ∧ folds found.value.1 found.value.2 whole.value := by
  simp only [reads_chain_iff, makes]
  refine ⟨fun error => reads_map_error_iff, fun whole => ?_⟩
  rw [reads_map_ok_iff]
  refine exists_congr fun found => and_congr Iff.rfl ?_
  obtain ⟨value, start, next⟩ := whole
  simp only [Parsed.map, Parsed.mk.injEq]
  tauto

end Outcomes

/-- Chains of operators, whichever way they associate, are a first operand and the pairs behind it, folded: they
succeed where that match succeeds, between the same places, and fail where it fails, with the same error. The values
of the match are folded from the left or from the right, whatever operators were read and in whatever order they
stand; a pair that matches the empty text counts as the last one, and an operator without an operand behind it does
not count. The left chain is the same future as a loop that applies each operator as soon as its second operand has
been read, and the right chain as one that lets the operands wait on a stack, so neither fold takes any job. -/
theorem chains_fold_one_match [Storable (Except ParseError (Parsed α)) σ]
    [Storable (Except ParseError (Parsed (α × List ((α → α → α) × α)))) σ] (rules : Rules Value)
    (operand : Grammar Value α) (operator : Grammar Value (α → α → α)) (input : Input) :
    (∀ error,
      (Gives σ rules (operand.chainLeft operator) input (.error error) ↔
        Gives σ rules (operandThenPairs operand operator) input (.error error)) ∧
      (Gives σ rules (operand.chainRight operator) input (.error error) ↔
        Gives σ rules (operandThenPairs operand operator) input (.error error))) ∧
    (∀ whole,
      (Gives σ rules (operand.chainLeft operator) input (.ok whole) ↔
        ∃ found, Gives σ rules (operandThenPairs operand operator) input (.ok found) ∧
          whole.start = found.start ∧ whole.next = found.next ∧
            FoldsLeft found.value.1 found.value.2 whole.value) ∧
      (Gives σ rules (operand.chainRight operator) input (.ok whole) ↔
        ∃ found, Gives σ rules (operandThenPairs operand operator) input (.ok found) ∧
          whole.start = found.start ∧ whole.next = found.next ∧
            FoldsRight found.value.1 found.value.2 whole.value)) ∧
    ∀ readRule : (rule : ρ) → Input → Reading σ (Value rule),
      ((operand.chainLeft operator).parseWith readRule input =
        (operand.parseWith readRule input).bind fun first =>
          foldFrom ((operator.seq operand).parseWith readRule) input first.next.remaining first.value first.next) ∧
      (operand.chainRight operator).parseWith readRule input =
        (operand.parseWith readRule input).bind fun first =>
          chainFrom ((operator.seq operand).parseWith readRule) (shelve [] first.value) input first.next.remaining []
            first.next := by
  simp only [← reads_iff_gives]
  exact ⟨fun error => ⟨(reads_fold_iff foldsLeft_iff).1 error, (reads_fold_iff foldsRight_iff).1 error⟩,
    fun whole => ⟨(reads_fold_iff foldsLeft_iff).2 whole, (reads_fold_iff foldsRight_iff).2 whole⟩,
    fun readRule => ⟨parseWith_chainLeft readRule, parseWith_chainRight readRule⟩⟩

end Grammar

end Deferred
