import Deferred.Proofs.Parsing.Literals

/-! Grammars that keep all the text they match. Made of characters and texts by sequences, choices and repetitions, a
grammar puts whatever it matches into its value, and as the value is built along the text, its leaves are the text piece
by piece. What an alternative or an item that failed had matched is given back and is in neither of the two. So to join
the leaves gives the matched text, if there is a leaf at all. -/

namespace Deferred.Grammar

variable {ρ : Type} {Value : ρ → Type} {rules : Rules Value} {α β σ τ : Type} {input next : Input}

section Joined

variable [Leaves α String]

theorem reads_joined_of_ok {grammar : Grammar Value α} {parsed : Parsed α}
    (reads : Reads rules grammar input (.ok parsed)) :
    Reads rules grammar.joined input
      (if leaves parsed.value = [] then .error (.mismatch "a non-empty sequence" "an empty sequence" parsed.pos)
        else .ok ⟨String.join (leaves parsed.value), parsed.start, parsed.next⟩) := by
  refine reads_refine.mpr ⟨.ok parsed, reads, ?_⟩
  simp only [Except.bind, Parsed.judged]
  cases leaves parsed.value with
  | nil => rfl
  | cons first rest => simp only [foldl_join_eq, reduceCtorEq, if_false]

end Joined

section Echoes

variable [Leaves α String] [Leaves β String] {read : (rule : ρ) → Input → Answer (Value rule)} {fuel : Nat}

def LeafSpells (input next : Input) (value : α) : Prop :=
  Spells input next (String.join (leaves value))

def Echoes (read : Input → Answer α) : Prop :=
  ∀ input parsed, read input = some (.ok parsed) → LeafSpells input parsed.next parsed.value

theorem LeafSpells.pair {middle : Input} {left : α} {right : β} (spells : LeafSpells input middle left)
    (spells' : LeafSpells middle next right) : LeafSpells input next (left, right) := by
  have whole := Spells.append spells spells'
  rwa [← String.join_append] at whole

theorem LeafSpells.cons {middle : Input} {first : α} {rest : List α} (spells : LeafSpells input middle first)
    (spells' : LeafSpells middle next rest) : LeafSpells input next (first :: rest) := by
  have whole := Spells.append spells spells'
  rwa [← String.join_append] at whole

theorem leafSpells_nil (input : Input) : LeafSpells input input ([] : List α) :=
  spells_nil input

theorem echoes_sat (accepts : Char → Bool) (expected : String) :
    Echoes ((Grammar.sat accepts expected : Grammar Value Char).readWith read fuel) := by
  intro input parsed found
  have reads : Reads (Rules.empty : Rules Value) (.sat accepts expected) input (.ok parsed) :=
    reads_sat.mpr (Option.some.inj found).symm
  obtain ⟨stands, -, next⟩ := takes_sat.mp reads.takes
  have spans : input.Spans [parsed.value] parsed.next :=
    Input.spans_cons_iff.mpr ⟨stands, Input.spans_nil_iff.mpr next⟩
  have leaf : String.join (leaves parsed.value) = String.ofList [parsed.value] :=
    (join_singleton _).trans String.singleton_eq_ofList
  rw [LeafSpells, leaf]
  exact spans.spells

theorem echoes_literal (text : List Char) :
    Echoes ((Grammar.literal text : Grammar Value String).readWith read fuel) := by
  intro input parsed found
  have reads : Reads (Rules.empty : Rules Value) (.literal text) input (.ok parsed) :=
    reads_literal.mpr (Option.some.inj found).symm
  obtain ⟨stands, next, value⟩ := takes_literal.mp reads.takes
  have spans : input.Spans text parsed.next := ⟨stands, next⟩
  have leaf : String.join (leaves parsed.value) = String.ofList text := (join_singleton _).trans value
  rw [LeafSpells, leaf]
  exact spans.spells

theorem Echoes.readItems {item : Input → Answer α} (echoes : Echoes item) {items : Items α}
    (found : readItems item fuel input = some items) : LeafSpells input items.next items.values := by
  induction fuel generalizing input items with
  | zero => exact absurd found (by simp [Grammar.readItems])
  | succ fuel ih =>
    rw [Grammar.readItems] at found
    split at found
    next => exact absurd found (by simp)
    next => exact Option.some.inj found ▸ leafSpells_nil input
    next parsed first =>
      have spells := echoes input parsed first
      split at found
      next =>
        obtain ⟨rest, behind, rfl⟩ := Option.map_eq_some_iff.mp found
        exact spells.cons (ih behind)
      next => exact Option.some.inj found ▸ spells.cons (leafSpells_nil parsed.next)

theorem Echoes.rep {item : Grammar Value α} (echoes : Echoes (item.readWith read fuel)) (least : Nat) :
    Echoes ((item.rep least).readWith read fuel) := by
  intro input parsed found
  obtain ⟨items, collected, same⟩ := Option.map_eq_some_iff.mp found
  obtain rfl := Items.atLeast_ok same
  exact echoes.readItems collected

theorem Echoes.seq {first : Grammar Value α} {second : Grammar Value β} (echoes : Echoes (first.readWith read fuel))
    (echoes' : Echoes (second.readWith read fuel)) : Echoes ((first.seq second).readWith read fuel) := by
  intro input parsed found
  rw [Grammar.seq, readWith] at found
  split at found
  next => exact absurd found (by simp)
  next => exact absurd found (by simp)
  next left head =>
    simp only [readWith, Option.map_map] at found
    obtain ⟨outcome, tail, same⟩ := Option.map_eq_some_iff.mp found
    cases outcome with
    | error => exact absurd same (by simp [Except.map])
    | ok right =>
      obtain rfl := Except.ok.inj same
      exact (echoes input left head).pair (echoes' left.next right tail)

theorem Echoes.or {first second : Grammar Value α} (echoes : Echoes (first.readWith read fuel))
    (echoes' : Echoes (second.readWith read fuel)) : Echoes ((first.or second).readWith read fuel) := by
  intro input parsed found
  rw [readWith] at found
  split at found
  next => exact absurd found (by simp)
  next =>
    obtain ⟨outcome, tail, same⟩ := Option.map_eq_some_iff.mp found
    cases outcome with
    | error => cases same
    | ok parsed => exact Except.ok.inj same ▸ echoes' input _ tail
  next head => exact Except.ok.inj (Option.some.inj found) ▸ echoes input _ head

end Echoes

section Verbatim

variable [∀ rule, Leaves (Value rule) String] [Leaves α String] {kept : ρ → Prop}

/-- Grammars whose values keep all the text that is matched. They may mention the rules that are `kept`. Every grammar
of single characters is of the first form, and a choice of several grammars is made of these forms. -/
inductive Verbatim (kept : ρ → Prop) : {α : Type} → [Leaves α String] → Grammar Value α → Prop
  | sat (accepts expected) : Verbatim kept (.sat accepts expected)
  | literal (text) : Verbatim kept (.literal text)
  | fail {α : Type} [Leaves α String] (expected) : Verbatim kept (.fail expected : Grammar Value α)
  | seq {α β : Type} [Leaves α String] [Leaves β String] {first : Grammar Value α} {second : Grammar Value β}
      (verbatim : Verbatim kept first) (verbatim' : Verbatim kept second) : Verbatim kept (first.seq second)
  | or {α : Type} [Leaves α String] {first second : Grammar Value α} (verbatim : Verbatim kept first)
      (verbatim' : Verbatim kept second) : Verbatim kept (first.or second)
  | rep {α : Type} [Leaves α String] {item : Grammar Value α} (verbatim : Verbatim kept item) (least) :
      Verbatim kept (item.rep least)
  | lazy {α : Type} [Leaves α String] {make : Unit → Grammar Value α} (verbatim : Verbatim kept (make ())) :
      Verbatim kept (.lazy make)
  | ref {rule} (known : kept rule) : Verbatim kept (.ref rule)

def VerbatimRules (rules : Rules Value) (kept : ρ → Prop) : Prop :=
  ∀ rule, kept rule → ∀ body, rules rule = some body → Verbatim kept body

theorem Verbatim.choice {grammars : List (Grammar Value α)}
    (each : ∀ grammar ∈ grammars, Verbatim kept grammar) (expected : String) :
    Verbatim kept (choice grammars expected) := by
  induction grammars with
  | nil => exact .fail expected
  | cons first rest ih =>
    have others := ih fun grammar member => each grammar (List.mem_cons_of_mem _ member)
    cases rest with
    | nil => exact each first List.mem_cons_self
    | cons second rest => exact .or (each first List.mem_cons_self) others

theorem Verbatim.echoes {grammar : Grammar Value α} (verbatim : Verbatim kept grammar)
    {read : (rule : ρ) → Input → Answer (Value rule)} (echoes : ∀ rule, kept rule → Echoes (read rule)) (fuel : Nat) :
    Echoes (grammar.readWith read fuel) := by
  induction verbatim with
  | sat accepts expected => exact echoes_sat accepts expected
  | literal text => exact echoes_literal text
  | fail expected => exact fun input parsed found => absurd found (by simp [readWith])
  | seq _ _ ih ih' => exact ih.seq ih'
  | or _ _ ih ih' => exact ih.or ih'
  | rep _ least ih => exact ih.rep least
  | lazy _ ih => exact ih
  | ref known => exact echoes _ known

theorem echoes_readRule (bodies : VerbatimRules rules kept) (fuel : Nat) (rule : ρ) (known : kept rule) :
    Echoes (readRule rules fuel rule) := by
  induction fuel generalizing rule with
  | zero => exact fun input parsed found => absurd found (by simp [readRule])
  | succ fuel ih =>
    intro input parsed found
    rw [readRule] at found
    split at found
    next body defined => exact (bodies rule known body defined).echoes ih fuel input parsed found
    next => exact absurd found (by simp)

theorem Verbatim.join_leaves (bodies : VerbatimRules rules kept) {grammar : Grammar Value α}
    (verbatim : Verbatim kept grammar) {parsed : Parsed α} (reads : Reads rules grammar input (.ok parsed)) :
    String.join (leaves parsed.value) = parsed.matched := by
  refine (reads.matched_eq ?_).symm
  obtain ⟨fuel, found⟩ := reads
  exact verbatim.echoes (echoes_readRule bodies fuel) fuel input parsed found

/-- To join what a grammar reads gives back the text, if the grammar keeps all it matches. The rules that it uses have
to keep it as well. Wherever it succeeds, the leaves of the value make up the matched text, from left to right. So
joining them succeeds at the same place with that text and ends where the grammar does; only if there is no leaf, it
fails where the text starts. -/
theorem joined_gives_back_text (bodies : VerbatimRules rules kept) {grammar : Grammar Value α}
    (verbatim : Verbatim kept grammar) [Storable (Except ParseError (Parsed α)) σ]
    [Storable (Except ParseError (Parsed String)) τ] {parsed : Parsed α}
    (gives : Gives σ rules grammar input (.ok parsed)) :
    parsed.start = input ∧ String.join (leaves parsed.value) = parsed.matched ∧
      (leaves parsed.value ≠ [] →
        Gives τ rules grammar.joined input (.ok ⟨parsed.matched, parsed.start, parsed.next⟩)) ∧
      (leaves parsed.value = [] → Gives τ rules grammar.joined input
        (.error (.mismatch "a non-empty sequence" "an empty sequence" input.pos))) := by
  have reads := reads_iff_gives.mpr gives
  have start := reads.from.start
  have text := verbatim.join_leaves bodies reads
  have joined := reads_joined_of_ok reads
  refine ⟨start, text, fun some => ?_, fun none => ?_⟩
  · rw [if_neg some, text] at joined
    exact joined.gives
  · rw [if_pos none, Parsed.pos, start] at joined
    exact joined.gives

end Verbatim

/-- Syllables by a rule, read behind the start of the source. For the third of them a longer one is tried first, which
gives back what it has matched. The other grammar has no match, so there is no leaf. -/
theorem joined_gives_back_text_accents :
    let syllable : Grammar (fun _ : Unit => String) String :=
      choice [literal ['n', 'é'], literal ['n'], .lazy fun _ => literal ['–']] "syllable"
    let rules : Rules (fun _ : Unit => String) := fun _ => some syllable
    let phrase : Grammar (fun _ : Unit => String) (List String × Char) := (Grammar.many (.ref ())).seq (char '!')
    let input := (Input.ofString "xné–nn!n").tail
    let σ := Except ParseError (Parsed (List String × Char))
    let τ := Except ParseError (Parsed String)
    ∃ parsed parsed', Gives σ rules phrase input (.ok parsed) ∧
      parsed.value = (["né", "–", "n", "n"], '!') ∧ parsed.matched = "né–nn!" ∧ parsed.next.rest = ['n'] ∧
        Gives τ rules phrase.joined input (.ok ⟨"né–nn!", input, parsed.next⟩) ∧
        Gives (Except ParseError (Parsed (List Char))) rules (char 'z').many input (.ok parsed') ∧ parsed'.value = [] ∧
        Gives τ rules (char 'z').many.joined input
          (.error (.mismatch "a non-empty sequence" "an empty sequence" 1)) := by
  intro syllable rules phrase input σ τ
  have syllables : Verbatim (fun _ => True) syllable :=
    .choice (List.forall_mem_cons.mpr ⟨.literal _, List.forall_mem_cons.mpr ⟨.literal _,
      List.forall_mem_singleton.mpr (.lazy (.literal _))⟩⟩) _
  have bodies : VerbatimRules rules fun _ => True := by
    rintro rule - body defined
    exact Option.some.inj defined ▸ syllables
  have found : ∃ parsed, Reads rules phrase input (.ok parsed) ∧ parsed.value = (["né", "–", "n", "n"], '!') ∧
      parsed.matched = "né–nn!" ∧ parsed.start = input ∧ parsed.next.rest = ['n'] :=
    ⟨_, ⟨9, rfl⟩, rfl, rfl, rfl, rfl⟩
  obtain ⟨parsed, reads, value, text, start, next⟩ := found
  have found' : ∃ parsed, Reads rules (char 'z').many input (.ok parsed) ∧ parsed.value = [] := ⟨_, ⟨9, rfl⟩, rfl⟩
  obtain ⟨parsed', reads', value'⟩ := found'
  have phrases : Verbatim (fun _ => True) phrase := .seq (.rep (.ref trivial) 0) (.sat _ _)
  have letters : Verbatim (fun _ => True) (char 'z' : Grammar (fun _ : Unit => String) Char).many := .rep (.sat _ _) 0
  obtain ⟨-, -, joined, -⟩ := joined_gives_back_text (σ := σ) (τ := τ) bodies phrases reads.gives
  obtain ⟨-, -, -, missing⟩ := joined_gives_back_text (σ := Except ParseError (Parsed (List Char))) (τ := τ)
    bodies letters reads'.gives
  rw [text, start, value] at joined
  rw [value'] at missing
  exact ⟨parsed, parsed', reads.gives, value, text, next, joined (by decide), reads'.gives, value', missing rfl⟩

end Deferred.Grammar
