import Deferred.Parsing.Error
import Deferred.Source.Input

/-! Grammars as data. A grammar says what text it matches and what value the text has; it may mention
rules by name, which get their bodies elsewhere, so grammars can be recursive although each of them is
a finite tree. -/

namespace Deferred

structure Parsed (α : Type) where
  value : α
  start : Input
  next : Input

namespace Parsed

variable {α β : Type}

def empty (value : α) (input : Input) : Parsed α :=
  ⟨value, input, input⟩

def matched (parsed : Parsed α) : String :=
  String.ofList (parsed.start.textTo parsed.next)

def pos (parsed : Parsed α) : Nat :=
  parsed.start.pos

def map (f : α → β) (parsed : Parsed α) : Parsed β :=
  { parsed with value := f parsed.value }

instance [Shown α] : Shown (Parsed α) :=
  ⟨fun parsed =>
    "ParserResult \x7b value: " ++ shown parsed.value ++ ", start: " ++ shown parsed.start ++
      ", next: " ++ shown parsed.next ++ " \x7d"⟩

end Parsed

structure Rejection where
  expected : String
  found : String
deriving DecidableEq, Repr

/-- A grammar for values of a type. The rules it may mention are of type `ρ`, and `Value` gives the
type of the values of each rule. -/
inductive Grammar {ρ : Type} (Value : ρ → Type) : Type → Type 1 where
  /-- Matches the empty text. -/
  | pure {α : Type} (value : α) : Grammar Value α
  /-- Matches nothing. -/
  | fail {α : Type} (expected : String) : Grammar Value α
  /-- Matches one character of a class. -/
  | sat (accepts : Char → Bool) (expected : String) : Grammar Value Char
  /-- Matches a given text. -/
  | literal (text : List Char) : Grammar Value String
  /-- Matches the end of the source. -/
  | eof : Grammar Value Unit
  /-- Matches one text, and behind it what follows from its value. -/
  | bind {α β : Type} (first : Grammar Value α) (next : α → Grammar Value β) : Grammar Value β
  /-- Changes the value. -/
  | map {α β : Type} (f : α → β) (grammar : Grammar Value α) : Grammar Value β
  /-- Matches what the first grammar matches, or else what the second one does. -/
  | or {α : Type} (first second : Grammar Value α) : Grammar Value α
  /-- Accepts or rejects what was matched, by its value and its text. -/
  | refine {α β : Type} (grammar : Grammar Value α) (judge : α → String → Except Rejection β) :
      Grammar Value β
  /-- Matches as many items as there are, one behind the other, at least `least`. -/
  | rep {α : Type} (item : Grammar Value α) (least : Nat) : Grammar Value (List α)
  /-- Matches a first item and behind it as many others as there are. Without a first item there may
  be a value to fall back on. -/
  | chain {α β γ : Type} (first : Grammar Value α) (more : Grammar Value β)
      (combine : α → List β → γ) (fallback : Option γ) : Grammar Value γ
  /-- A grammar that is made when it is used. -/
  | lazy {α : Type} (make : Unit → Grammar Value α) : Grammar Value α
  /-- Matches what a rule matches. -/
  | ref (rule : ρ) : Grammar Value (Value rule)

def Rules {ρ : Type} (Value : ρ → Type) : Type 1 :=
  (rule : ρ) → Option (Grammar Value (Value rule))

namespace Rules

variable {ρ : Type} {Value : ρ → Type}

def empty : Rules Value := fun _ => none

def defines (rules : Rules Value) (rule : ρ) : Bool :=
  (rules rule).isSome

def set [DecidableEq ρ] (rules : Rules Value) (rule : ρ) (body : Grammar Value (Value rule)) :
    Rules Value :=
  fun other => if same : rule = other then some (same ▸ body) else rules other

def define [DecidableEq ρ] (rules : Rules Value) (rule : ρ) (body : Grammar Value (Value rule)) :
    Except RuleError (Rules Value) :=
  if rules.defines rule then .error .defined else .ok (rules.set rule body)

end Rules

end Deferred
