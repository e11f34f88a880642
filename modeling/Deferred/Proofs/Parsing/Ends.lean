import Deferred.Parsing.Token
import Deferred.Proofs.Parsing.Reads

/-! Readings that end. Each item of a repetition but the last one takes text away, so only rules can go
on for ever; and they do not if none of them leads back to itself. -/

namespace Deferred.Grammar

variable {ρ : Type} {Value : ρ → Type} {rules : Rules Value} {α β γ : Type} {input : Input}

def EndsFrom (rules : Rules Value) (input : Input) (grammar : Grammar Value α) : Prop :=
  ∀ later, input.Before later → ∃ answer, Reads rules grammar later answer

theorem EndsFrom.later {grammar : Grammar Value α} {later : Input}
    (ends : EndsFrom rules input grammar) (before : input.Before later) :
    EndsFrom rules later grammar :=
  fun last before' => ends last (before.trans before')

theorem endsFrom_pure (value : α) : EndsFrom rules input (.pure value) :=
  fun _ _ => ⟨_, reads_pure.mpr rfl⟩

theorem endsFrom_fail (expected : String) : EndsFrom rules input (.fail expected : Grammar Value α) :=
  fun _ _ => ⟨_, reads_fail.mpr rfl⟩

theorem endsFrom_sat (accepts : Char → Bool) (expected : String) :
    EndsFrom rules input (.sat accepts expected) :=
  fun _ _ => ⟨_, reads_sat.mpr rfl⟩

theorem endsFrom_literal (text : List Char) : EndsFrom rules input (.literal text) :=
  fun _ _ => ⟨_, reads_literal.mpr rfl⟩

theorem endsFrom_eof : EndsFrom rules input .eof :=
  fun _ _ => ⟨_, reads_eof.mpr rfl⟩

theorem EndsFrom.map {grammar : Grammar Value α} (f : α → β) (ends : EndsFrom rules input grammar) :
    EndsFrom rules input (.map f grammar) := by
  intro later before
  obtain ⟨answer, reads⟩ := ends later before
  exact ⟨_, reads_map.mpr ⟨answer, reads, rfl⟩⟩

theorem EndsFrom.refine {grammar : Grammar Value α} (judge : α → String → Except Rejection β)
    (ends : EndsFrom rules input grammar) : EndsFrom rules input (.refine grammar judge) := by
  intro later before
  obtain ⟨answer, reads⟩ := ends later before
  exact ⟨_, reads_refine.mpr ⟨answer, reads, rfl⟩⟩

theorem EndsFrom.bind {first : Grammar Value α} {next : α → Grammar Value β}
    (ends : EndsFrom rules input first)
    (follows : ∀ later left, input.Before later → Reads rules first later (.ok left) →
      EndsFrom rules left.next (next left.value)) : EndsFrom rules input (.bind first next) := by
  intro later before
  obtain ⟨answer, reads⟩ := ends later before
  cases answer with
  | error error => exact ⟨_, reads_bind.mpr (.inl ⟨error, reads, rfl⟩)⟩
  | ok left =>
    obtain ⟨inner, reads'⟩ := follows later left before reads left.next (.refl _)
    exact ⟨_, reads_bind.mpr (.inr ⟨left, inner, reads, reads', rfl⟩)⟩

theorem EndsFrom.or {first second : Grammar Value α} (ends : EndsFrom rules input first)
    (ends' : EndsFrom rules input second) : EndsFrom rules input (.or first second) := by
  intro later before
  obtain ⟨answer, reads⟩ := ends later before
  cases answer with
  | ok parsed => exact ⟨_, reads_or.mpr (.inl ⟨parsed, reads, rfl⟩)⟩
  | error error =>
    obtain ⟨inner, reads'⟩ := ends' later before
    exact ⟨_, reads_or.mpr (.inr ⟨error, inner, reads, reads', rfl⟩)⟩

theorem EndsFrom.collects {item : Grammar Value α} (ends : EndsFrom rules input item) {later : Input}
    (before : input.Before later) : ∃ items, Collects (Reads rules item) later items := by
  induction remaining : later.remaining using Nat.strongRecOn generalizing later with
  | _ remaining ih =>
    obtain ⟨answer, reads⟩ := ends later before
    cases answer with
    | error error => exact ⟨_, .failed reads⟩
    | ok parsed =>
      by_cases further : later.pos < parsed.next.pos
      case pos =>
        have less := reads.from.next.remaining_lt further
        obtain ⟨items, collects⟩ :=
          ih _ (remaining ▸ less) (before.trans reads.from.next) rfl
        exact ⟨_, .more reads further collects⟩
      case neg => exact ⟨_, .stopped reads further⟩

theorem EndsFrom.rep {item : Grammar Value α} (least : Nat) (ends : EndsFrom rules input item) :
    EndsFrom rules input (.rep item least) := by
  intro later before
  obtain ⟨items, collects⟩ := ends.collects before
  exact ⟨_, reads_rep.mpr ⟨items, collects, rfl⟩⟩

theorem EndsFrom.chain {first : Grammar Value α} {more : Grammar Value β} (combine : α → List β → γ)
    (fallback : Option γ) (ends : EndsFrom rules input first) (ends' : EndsFrom rules input more) :
    EndsFrom rules input (.chain first more combine fallback) := by
  intro later before
  obtain ⟨answer, reads⟩ := ends later before
  cases answer with
  | error error => exact ⟨_, reads_chain.mpr (.inl ⟨error, reads, rfl⟩)⟩
  | ok parsed =>
    obtain ⟨items, collects⟩ := ends'.collects (before.trans reads.from.next)
    exact ⟨_, reads_chain.mpr (.inr ⟨parsed, items, reads, collects, rfl⟩)⟩

theorem EndsFrom.seq {first : Grammar Value α} {second : Grammar Value β}
    (ends : EndsFrom rules input first) (ends' : EndsFrom rules input second) :
    EndsFrom rules input (first.seq second) :=
  ends.bind fun _ _ before reads => .map _ (ends'.later (before.trans reads.from.next))

theorem EndsFrom.seqRight {first : Grammar Value α} {second : Grammar Value β}
    (ends : EndsFrom rules input first) (ends' : EndsFrom rules input second) :
    EndsFrom rules input (first.seqRight second) :=
  ends.bind fun _ _ before reads => ends'.later (before.trans reads.from.next)

theorem EndsFrom.seqLeft {first : Grammar Value α} {second : Grammar Value β}
    (ends : EndsFrom rules input first) (ends' : EndsFrom rules input second) :
    EndsFrom rules input (first.seqLeft second) :=
  ends.bind fun _ _ before reads => .map _ (ends'.later (before.trans reads.from.next))

theorem EndsFrom.token [Text.Classes] {grammar : Grammar Value α} (ends : EndsFrom rules input grammar) :
    EndsFrom rules input grammar.token :=
  have spaces : EndsFrom rules input spaces := (endsFrom_sat _ _).rep 0
  spaces.seqRight (ends.seqLeft spaces)

theorem endsFrom_symbol [Text.Classes] (text : String) : EndsFrom rules input (symbol text) :=
  (endsFrom_literal text.toList).token

inductive Mentions (rule : ρ) : ∀ {α : Type}, Grammar Value α → Prop
  | first {α β : Type} {first : Grammar Value α} {next : α → Grammar Value β}
      (mentions : Mentions rule first) : Mentions rule (.bind first next)
  | next {α β : Type} {first : Grammar Value α} {next : α → Grammar Value β} {value : α}
      (mentions : Mentions rule (next value)) : Mentions rule (.bind first next)
  | map {α β : Type} {f : α → β} {grammar : Grammar Value α} (mentions : Mentions rule grammar) :
      Mentions rule (.map f grammar)
  | left {α : Type} {first second : Grammar Value α} (mentions : Mentions rule first) :
      Mentions rule (.or first second)
  | right {α : Type} {first second : Grammar Value α} (mentions : Mentions rule second) :
      Mentions rule (.or first second)
  | refine {α β : Type} {grammar : Grammar Value α} {judge : α → String → Except Rejection β}
      (mentions : Mentions rule grammar) : Mentions rule (.refine grammar judge)
  | item {α : Type} {item : Grammar Value α} {least : Nat} (mentions : Mentions rule item) :
      Mentions rule (.rep item least)
  | head {α β γ : Type} {first : Grammar Value α} {more : Grammar Value β} {combine : α → List β → γ}
      {fallback : Option γ} (mentions : Mentions rule first) :
      Mentions rule (.chain first more combine fallback)
  | more {α β γ : Type} {first : Grammar Value α} {more : Grammar Value β} {combine : α → List β → γ}
      {fallback : Option γ} (mentions : Mentions rule more) :
      Mentions rule (.chain first more combine fallback)
  | lazy {α : Type} {make : Unit → Grammar Value α} (mentions : Mentions rule (make ())) :
      Mentions rule (.lazy make)
  | ref : Mentions rule (.ref rule)

def Uses (rules : Rules Value) (outer inner : ρ) : Prop :=
  ∃ body, rules outer = some body ∧ Mentions inner body

theorem endsFrom_of_mentions {grammar : Grammar Value α}
    (ends : ∀ rule, Mentions rule grammar → EndsFrom rules input (.ref rule)) :
    EndsFrom rules input grammar := by
  induction grammar generalizing input with
  | pure value => exact endsFrom_pure value
  | fail expected => exact endsFrom_fail expected
  | sat accepts expected => exact endsFrom_sat accepts expected
  | literal text => exact endsFrom_literal text
  | eof => exact endsFrom_eof
  | bind first next ihFirst ihNext =>
    refine .bind (ihFirst fun rule mentions => ends rule (.first mentions)) fun later left before reads => ?_
    apply ihNext left.value
    intro rule mentions
    exact (ends rule (.next mentions)).later (before.trans reads.from.next)
  | map f grammar ih => exact .map f (ih fun rule mentions => ends rule (.map mentions))
  | or first second ihFirst ihSecond =>
    exact .or (ihFirst fun rule mentions => ends rule (.left mentions))
      (ihSecond fun rule mentions => ends rule (.right mentions))
  | refine grammar judge ih => exact .refine judge (ih fun rule mentions => ends rule (.refine mentions))
  | rep item least ih => exact .rep least (ih fun rule mentions => ends rule (.item mentions))
  | chain first more combine fallback ihFirst ihMore =>
    exact .chain combine fallback (ihFirst fun rule mentions => ends rule (.head mentions))
      (ihMore fun rule mentions => ends rule (.more mentions))
  | lazy make ih => exact ih () fun rule mentions => ends rule (.lazy mentions)
  | ref rule => exact ends rule .ref

/-- Without recursion every reading ends. -/
theorem exists_reads (acyclic : WellFounded fun inner outer => Uses rules outer inner)
    (grammar : Grammar Value α) (input : Input) : ∃ answer, Reads rules grammar input answer := by
  have ends : ∀ rule, EndsFrom rules input (.ref rule) := by
    intro rule
    induction rule using acyclic.induction with
    | _ rule ih =>
      intro later before
      cases body : rules rule with
      | none => exact ⟨_, reads_ref.mpr (.inr ⟨body, rfl⟩)⟩
      | some grammar =>
        obtain ⟨answer, reads⟩ := endsFrom_of_mentions (fun inner mentions =>
          ih inner ⟨grammar, body, mentions⟩) later before
        exact ⟨answer, reads_ref.mpr (.inl ⟨grammar, body, reads⟩)⟩
  exact endsFrom_of_mentions (fun rule _ => ends rule) input (.refl input)

end Deferred.Grammar
