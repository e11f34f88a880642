import Deferred.Future.Basic
import Deferred.Parsing.Grammar

/-! Reading a source by a grammar, as a future: each step of the reading is a job of its own, so a
long or deeply nested source needs no stack, and other jobs of the loop have their turns in
between. -/

namespace Deferred

abbrev Reading (σ α : Type) : Type :=
  Future σ ParseError (Parsed α)

namespace Input

def mismatch (input : Input) (expected : String) : ParseError :=
  .mismatch expected input.found input.pos

def readSat (input : Input) (accepts : Char → Bool) (expected : String) :
    Except ParseError (Parsed Char) :=
  match input.advance with
  | some (c, next) =>
    if accepts c then .ok ⟨c, input, next⟩ else .error (input.mismatch expected)
  | none => .error (input.mismatch expected)

def readChars (input : Input) : List Char → Except ParseError Input
  | [] => .ok input
  | expected :: rest =>
    match input.advance with
    | some (c, next) =>
      if c = expected then next.readChars rest else .error (input.mismatch (shown expected))
    | none => .error (input.mismatch (shown expected))

def readLiteral (input : Input) (text : List Char) : Except ParseError (Parsed String) :=
  (input.readChars text).map fun next => ⟨String.ofList text, input, next⟩

def readEof (input : Input) : Except ParseError (Parsed Unit) :=
  if input.atEnd then .ok (.empty () input) else .error (input.mismatch endOfInput)

end Input

namespace Parsed

variable {α β : Type}

/-- Accepts or rejects what was read. A rejection stands where the text starts. -/
def judged (parsed : Parsed α) (judge : α → String → Except Rejection β) :
    Except ParseError (Parsed β) :=
  match judge parsed.value parsed.matched with
  | .ok value => .ok ⟨value, parsed.start, parsed.next⟩
  | .error rejection => .error (.mismatch rejection.expected rejection.found parsed.pos)

end Parsed

namespace Grammar

variable {ρ : Type} {Value : ρ → Type} {σ α β γ : Type}

def followedBy (first : Reading σ α) (next : α → Input → Reading σ β) : Reading σ β :=
  first.bind fun left =>
    (next left.value left.next).map fun right => ⟨right.value, left.start, right.next⟩

/-- Reads items from a place on until one fails or matches the empty text. The item that matches the
empty text is kept. Of the items seen so far the latest is in front; `left` bounds those to come. -/
def repeatFrom (item : Input → Reading σ α) (least : Nat) (start : Input) :
    (left : Nat) → List α → Input → Reading σ (List α)
  | left, seen, current =>
    (item current).bindOutcome fun
      | .ok parsed =>
        match left with
        | 0 => .succeed ⟨(parsed.value :: seen).reverse, start, parsed.next⟩
        | left + 1 =>
          if current.pos < parsed.next.pos then
            repeatFrom item least start left (parsed.value :: seen) parsed.next
          else .succeed ⟨(parsed.value :: seen).reverse, start, parsed.next⟩
      | .error error =>
        if least ≤ seen.length then .succeed ⟨seen.reverse, start, current⟩ else .fail error

def chainFrom (more : Input → Reading σ β) (combine : List β → γ) (start : Input) :
    (left : Nat) → List β → Input → Reading σ γ
  | left, seen, current =>
    (more current).bindOutcome fun
      | .ok parsed =>
        match left with
        | 0 => .succeed ⟨combine (parsed.value :: seen).reverse, start, parsed.next⟩
        | left + 1 =>
          if current.pos < parsed.next.pos then
            chainFrom more combine start left (parsed.value :: seen) parsed.next
          else .succeed ⟨combine (parsed.value :: seen).reverse, start, parsed.next⟩
      | .error _ => .succeed ⟨combine seen.reverse, start, current⟩

def parseWith (readRule : (rule : ρ) → Input → Reading σ (Value rule)) {α : Type} :
    Grammar Value α → Input → Reading σ α
  | .pure value, input => .succeed (.empty value input)
  | .fail expected, input => .fail (input.mismatch expected)
  | .sat accepts expected, input => .settled (input.readSat accepts expected)
  | .literal text, input => .settled (input.readLiteral text)
  | .eof, input => .settled input.readEof
  | .bind first next, input =>
    followedBy (first.parseWith readRule input) fun value rest =>
      (next value).parseWith readRule rest
  | .map f grammar, input => (grammar.parseWith readRule input).map (Parsed.map f)
  | .or first second, input =>
    (first.parseWith readRule input).orElse fun error =>
      (second.parseWith readRule input).mapError (.alternatives error)
  | .refine grammar judge, input =>
    (grammar.parseWith readRule input).bind fun parsed => .settled (parsed.judged judge)
  | .rep item least, input =>
    repeatFrom (item.parseWith readRule) least input input.remaining [] input
  | .chain first more combine fallback, input =>
    (first.parseWith readRule input).bindOutcome fun
      | .ok parsed =>
        chainFrom (more.parseWith readRule) (combine parsed.value) input parsed.next.remaining []
          parsed.next
      | .error error =>
        match fallback with
        | some value => .succeed (.empty value input)
        | none => .fail error
  | .lazy make, input => (make ()).parseWith readRule input
  | .ref rule, input => readRule rule input

def parseAt (rules : Rules Value) :
    (depth : Nat) → {α : Type} → Grammar Value α → Input → Reading σ α
  | 0, _, grammar, input => grammar.parseWith (fun _ _ => .stuck) input
  | depth + 1, _, grammar, input =>
    grammar.parseWith (fun rule input =>
      match rules rule with
      | some body => parseAt rules depth body input
      | none => .fail (.undefined input.pos)) input

/-- Reads by a grammar whose rules have the given bodies. Rules may be used as deep within each other
as the host's bound says. -/
def parse (rules : Rules Value) (grammar : Grammar Value α) (input : Input) : Reading σ α :=
  .bounded fun depth => parseAt rules depth grammar input

end Grammar

end Deferred
