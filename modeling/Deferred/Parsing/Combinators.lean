import Deferred.Parsing.Grammar
import Deferred.Parsing.Joinable
import Deferred.Parsing.Leaves

/-! Grammars made of others: sequences, choices, repetitions with separators, chains of operators,
and values reduced from their leaves. -/

namespace Deferred

def foldPairsRight {α : Type} : α → List ((α → α → α) × α) → α
  | first, [] => first
  | first, (operator, second) :: rest => operator first (foldPairsRight second rest)

namespace Grammar

variable {ρ : Type} {Value : ρ → Type} {α β γ ι : Type}

def seq (first : Grammar Value α) (second : Grammar Value β) : Grammar Value (α × β) :=
  first.bind fun left => second.map fun right => (left, right)

def seqLeft (first : Grammar Value α) (second : Grammar Value β) : Grammar Value α :=
  first.bind fun left => second.map fun _ => left

def seqRight (first : Grammar Value α) (second : Grammar Value β) : Grammar Value β :=
  first.bind fun _ => second

def between (opening : Grammar Value α) (content : Grammar Value β) (closing : Grammar Value γ) :
    Grammar Value β :=
  (opening.seqRight content).seqLeft closing

def complete (grammar : Grammar Value α) : Grammar Value α :=
  grammar.seqLeft eof

def giving (grammar : Grammar Value α) (value : β) : Grammar Value β :=
  grammar.map fun _ => value

def mapLeaves [Leaves α ι] (grammar : Grammar Value α) (f : List ι → β) : Grammar Value β :=
  grammar.map fun value => f (leaves value)

def choice : List (Grammar Value α) → String → Grammar Value α
  | [], expected => fail expected
  | [last], _ => last
  | first :: second :: rest, expected => first.or (choice (second :: rest) expected)

def guard [Shown α] (grammar : Grammar Value α) (accepts : α → Bool) (expected : String) :
    Grammar Value α :=
  grammar.refine fun value _ =>
    if accepts value then .ok value else .error ⟨expected, shown value⟩

def foldLeaves [Leaves α ι] (grammar : Grammar Value α) (f : ι → ι → ι) : Grammar Value ι :=
  grammar.refine fun value _ =>
    match leaves value with
    | first :: rest => .ok (rest.foldl f first)
    | [] => .error ⟨"a non-empty sequence", "an empty sequence"⟩

def joined [Leaves α ι] [Joinable ι] (grammar : Grammar Value α) : Grammar Value ι :=
  grammar.foldLeaves Joinable.join

def many (item : Grammar Value α) : Grammar Value (List α) :=
  item.rep 0

def many1 (item : Grammar Value α) : Grammar Value (List α) :=
  item.rep 1

/-- Items with separators between them. Only none or at least one can be asked for: a larger minimum
counts as one. -/
def sepByMin (item : Grammar Value α) (separator : Grammar Value β) (least : Nat) :
    Grammar Value (List α) :=
  chain item (separator.seqRight item) (fun first rest => first :: rest)
    (if least = 0 then some [] else none)

def sepBy (item : Grammar Value α) (separator : Grammar Value β) : Grammar Value (List α) :=
  item.sepByMin separator 0

def sepBy1 (item : Grammar Value α) (separator : Grammar Value β) : Grammar Value (List α) :=
  item.sepByMin separator 1

def chainLeft (item : Grammar Value α) (operator : Grammar Value (α → α → α)) : Grammar Value α :=
  chain item (operator.seq item)
    (fun first pairs => pairs.foldl (fun left pair => pair.1 left pair.2) first) none

def chainRight (item : Grammar Value α) (operator : Grammar Value (α → α → α)) : Grammar Value α :=
  chain item (operator.seq item) foldPairsRight none

end Grammar

end Deferred
