import Deferred.Parsing.Characters
import Deferred.Proofs.Parsing.Outcomes

/-! The monad laws. One text behind another is read alike however the sequence is grouped: the start of the whole is
that of its first text, its end that of the last one, and the first failure is the failure of the whole. Equal
outcomes may replace each other anywhere, so sequences may be regrouped within repetitions and choices, in what
follows from a value, and in the bodies of rules that lead back to themselves. -/

namespace Deferred.Grammar

variable {ρ : Type} {Value : ρ → Type} {rules rules' : Rules Value} {σ α β γ : Type} {input : Input}

section Laws

theorem Reads.map_start {grammar : Grammar Value α} {answer : Except ParseError (Parsed α)}
    (reads : Reads rules grammar input answer) :
    answer.map (fun parsed => (⟨parsed.value, input, parsed.next⟩ : Parsed α)) = answer := by
  cases answer with
  | error error => rfl
  | ok parsed =>
    obtain rfl := reads.from.start
    rfl

theorem reads_pure_bind {value : α} {follow : α → Grammar Value β} {answer : Except ParseError (Parsed β)} :
    Reads rules ((Grammar.pure value).bind follow) input answer ↔ Reads rules (follow value) input answer := by
  simp only [reads_bind, reads_pure]
  constructor
  · intro given
    rcases given with ⟨_, never, -⟩ | ⟨_, inner, ⟨⟩, tail, rfl⟩
    · cases never
    · exact tail.map_start.symm ▸ tail
  · exact fun tail => .inr ⟨_, answer, rfl, tail, tail.map_start.symm⟩

theorem reads_bind_pure {grammar : Grammar Value α} {answer : Except ParseError (Parsed α)} :
    Reads rules (grammar.bind .pure) input answer ↔ Reads rules grammar input answer := by
  simp only [reads_bind, reads_pure]
  constructor
  · intro given
    rcases given with ⟨error, failed, rfl⟩ | ⟨left, _, head, rfl, rfl⟩
    · exact failed
    · exact head
  · intro reads
    cases answer with
    | error error => exact .inl ⟨error, reads, rfl⟩
    | ok left => exact .inr ⟨left, _, reads, rfl, rfl⟩

theorem reads_bind_assoc {grammar : Grammar Value α} {follow : α → Grammar Value β} {last : β → Grammar Value γ}
    {answer : Except ParseError (Parsed γ)} :
    Reads rules ((grammar.bind follow).bind last) input answer ↔
      Reads rules (grammar.bind fun value => (follow value).bind last) input answer := by
  simp only [reads_bind]
  constructor
  · intro given
    rcases given with ⟨error, ⟨_, failed, ⟨⟩⟩ | ⟨left, inner, head, tail, same⟩, rfl⟩ |
      ⟨_, end_, ⟨_, _, never⟩ | ⟨left, inner, head, middle, same⟩, tail, rfl⟩
    · exact .inl ⟨error, failed, rfl⟩
    · cases inner with
      | ok right => cases same
      | error error' =>
        obtain rfl := Except.error.inj same
        exact .inr ⟨left, .error error, head, .inl ⟨error, tail, rfl⟩, rfl⟩
    · cases never
    · cases inner with
      | error error => cases same
      | ok right =>
        obtain rfl := Except.ok.inj same
        exact .inr ⟨left, _, head, .inr ⟨right, end_, middle, tail, rfl⟩, by cases end_ <;> rfl⟩
  · intro given
    rcases given with ⟨error, failed, rfl⟩ |
      ⟨left, _, head, ⟨error, failed, rfl⟩ | ⟨right, end_, middle, tail, rfl⟩, rfl⟩
    · exact .inl ⟨error, .inl ⟨error, failed, rfl⟩, rfl⟩
    · exact .inl ⟨error, .inr ⟨left, .error error, head, failed, rfl⟩, rfl⟩
    · exact .inr ⟨_, end_, .inr ⟨left, .ok right, head, middle, rfl⟩, tail, by cases end_ <;> rfl⟩

end Laws

section Regrouping

/-- Grammars that differ only in the grouping of sequences, anywhere within them. -/
inductive Regrouped {ρ : Type} {Value : ρ → Type} : ∀ {α : Type}, Grammar Value α → Grammar Value α → Prop
  | refl {α : Type} (grammar : Grammar Value α) : Regrouped grammar grammar
  | symm {α : Type} {first second : Grammar Value α} (same : Regrouped first second) : Regrouped second first
  | trans {α : Type} {first second third : Grammar Value α} (same : Regrouped first second)
      (same' : Regrouped second third) : Regrouped first third
  | pure_bind {α β : Type} (value : α) (follow : α → Grammar Value β) :
      Regrouped ((Grammar.pure value).bind follow) (follow value)
  | bind_pure {α : Type} (grammar : Grammar Value α) : Regrouped (grammar.bind .pure) grammar
  | bind_assoc {α β γ : Type} (grammar : Grammar Value α) (follow : α → Grammar Value β)
      (last : β → Grammar Value γ) :
      Regrouped ((grammar.bind follow).bind last) (grammar.bind fun value => (follow value).bind last)
  | bind {α β : Type} {first first' : Grammar Value α} {follow follow' : α → Grammar Value β}
      (same : Regrouped first first') (follows : ∀ value, Regrouped (follow value) (follow' value)) :
      Regrouped (first.bind follow) (first'.bind follow')
  | map {α β : Type} (f : α → β) {grammar grammar' : Grammar Value α} (same : Regrouped grammar grammar') :
      Regrouped (grammar.map f) (grammar'.map f)
  | or {α : Type} {first first' second second' : Grammar Value α} (same : Regrouped first first')
      (same' : Regrouped second second') : Regrouped (first.or second) (first'.or second')
  | refine {α β : Type} {grammar grammar' : Grammar Value α} (judge : α → String → Except Rejection β)
      (same : Regrouped grammar grammar') : Regrouped (grammar.refine judge) (grammar'.refine judge)
  | rep {α : Type} {item item' : Grammar Value α} (least : Nat) (same : Regrouped item item') :
      Regrouped (item.rep least) (item'.rep least)
  | chain {α β γ : Type} {first first' : Grammar Value α} {more more' : Grammar Value β}
      (combine : α → List β → γ) (fallback : Option γ) (same : Regrouped first first')
      (same' : Regrouped more more') :
      Regrouped (.chain first more combine fallback) (.chain first' more' combine fallback)
  | lazy {α : Type} {make make' : Unit → Grammar Value α} (same : Regrouped (make ()) (make' ())) :
      Regrouped (.lazy make) (.lazy make')

theorem Regrouped.reads_eq {grammar grammar' : Grammar Value α} (same : Regrouped grammar grammar') :
    Reads rules grammar = Reads rules grammar' := by
  induction same with
  | refl => rfl
  | symm _ ih => exact ih.symm
  | trans _ _ ih ih' => exact ih.trans ih'
  | pure_bind => exact funext₂ fun _ _ => propext reads_pure_bind
  | bind_pure => exact funext₂ fun _ _ => propext reads_bind_pure
  | bind_assoc => exact funext₂ fun _ _ => propext reads_bind_assoc
  | bind _ _ ih ih' => exact funext₂ fun _ _ => propext (by simp only [reads_bind, ih, ih'])
  | map _ _ ih => exact funext₂ fun _ _ => propext (by simp only [reads_map, ih])
  | or _ _ ih ih' => exact funext₂ fun _ _ => propext (by simp only [reads_or, ih, ih'])
  | refine _ _ ih => exact funext₂ fun _ _ => propext (by simp only [reads_refine, ih])
  | rep _ _ ih => exact funext₂ fun _ _ => propext (by simp only [reads_rep, ih])
  | chain _ _ _ _ ih ih' => exact funext₂ fun _ _ => propext (by simp only [reads_chain, ih, ih'])
  | lazy _ ih => exact ih

theorem reads_of_readWith {readRule : (rule : ρ) → Input → Answer (Value rule)}
    (sound : ∀ rule input answer, readRule rule input = some answer → Reads rules (.ref rule) input answer)
    {fuel : Nat} {grammar : Grammar Value α} {answer : Except ParseError (Parsed α)}
    (found : grammar.readWith readRule fuel input = some answer) : Reads rules grammar input answer := by
  induction grammar generalizing input with
  | pure value => exact reads_pure.mpr (Option.some.inj found).symm
  | fail expected => exact reads_fail.mpr (Option.some.inj found).symm
  | sat accepts expected => exact reads_sat.mpr (Option.some.inj found).symm
  | literal text => exact reads_literal.mpr (Option.some.inj found).symm
  | eof => exact reads_eof.mpr (Option.some.inj found).symm
  | bind first next ihFirst ihNext =>
    rw [readWith] at found
    split at found
    next => exact absurd found (by simp)
    next error failed => exact reads_bind.mpr (.inl ⟨error, ihFirst failed, (Option.some.inj found).symm⟩)
    next left head =>
      obtain ⟨inner, tail, rfl⟩ := Option.map_eq_some_iff.mp found
      exact reads_bind.mpr (.inr ⟨left, inner, ihFirst head, ihNext left.value tail, rfl⟩)
  | map f grammar ih =>
    obtain ⟨inner, read, rfl⟩ := Option.map_eq_some_iff.mp found
    exact reads_map.mpr ⟨inner, ih read, rfl⟩
  | or first second ihFirst ihSecond =>
    rw [readWith] at found
    split at found
    next => exact absurd found (by simp)
    next error failed =>
      obtain ⟨inner, tail, rfl⟩ := Option.map_eq_some_iff.mp found
      exact reads_or.mpr (.inr ⟨error, inner, ihFirst failed, ihSecond tail, rfl⟩)
    next parsed head => exact reads_or.mpr (.inl ⟨parsed, ihFirst head, (Option.some.inj found).symm⟩)
  | refine grammar judge ih =>
    obtain ⟨inner, read, rfl⟩ := Option.map_eq_some_iff.mp found
    exact reads_refine.mpr ⟨inner, ih read, rfl⟩
  | rep item least ih =>
    obtain ⟨items, collected, rfl⟩ := Option.map_eq_some_iff.mp found
    exact reads_rep.mpr ⟨items, .of_readItems (fun _ _ => ih) collected, rfl⟩
  | chain first more combine fallback ihFirst ihMore =>
    rw [readWith] at found
    split at found
    next => exact absurd found (by simp)
    next error failed =>
      refine reads_chain.mpr (.inl ⟨error, ihFirst failed, ?_⟩)
      cases fallback with
      | none => exact (Option.some.inj found).symm
      | some value => exact (Option.some.inj found).symm
    next parsed head =>
      obtain ⟨items, collected, rfl⟩ := Option.map_eq_some_iff.mp found
      exact reads_chain.mpr (.inr ⟨parsed, items, ihFirst head, .of_readItems (fun _ _ => ihMore) collected, rfl⟩)
  | lazy make ih => exact ih () found
  | ref rule => exact sound rule input answer found

def RegroupedRules (rules rules' : Rules Value) : Prop :=
  ∀ rule, (rules rule).Rel Regrouped (rules' rule)

theorem RegroupedRules.symm (same : RegroupedRules rules rules') : RegroupedRules rules' rules := by
  intro rule
  have related := same rule
  generalize rules rule = body, rules' rule = body' at related ⊢
  cases related with
  | none => exact .none
  | some bodies => exact .some bodies.symm

theorem RegroupedRules.reads_of_readRule (same : RegroupedRules rules rules') {fuel : Nat} {rule : ρ}
    {answer : Except ParseError (Parsed (Value rule))} (found : readRule rules fuel rule input = some answer) :
    Reads rules' (.ref rule) input answer := by
  induction fuel generalizing rule input with
  | zero => exact absurd found (by simp [readRule])
  | succ fuel ih =>
    rw [readRule] at found
    have related := same rule
    split at found
    next body defined =>
      rw [defined] at related
      cases defined' : rules' rule with
      | none =>
        rw [defined'] at related
        cases related
      | some body' =>
        rw [defined'] at related
        cases related with
        | some regrouped =>
          have reads : Reads rules' body input answer := reads_of_readWith (fun _ _ _ => ih) found
          exact reads_ref.mpr (.inl ⟨body', defined', regrouped.reads_eq ▸ reads⟩)
    next undefined =>
      rw [undefined] at related
      cases defined' : rules' rule with
      | none => exact reads_ref.mpr (.inr ⟨defined', (Option.some.inj found).symm⟩)
      | some body' =>
        rw [defined'] at related
        cases related

theorem Regrouped.reads_iff (same : RegroupedRules rules rules') {grammar grammar' : Grammar Value α}
    (regrouped : Regrouped grammar grammar') {answer : Except ParseError (Parsed α)} :
    Reads rules grammar input answer ↔ Reads rules' grammar' input answer := by
  have moved : ∀ {rules rules' : Rules Value}, RegroupedRules rules rules' → ∀ grammar : Grammar Value α,
      Reads rules grammar input answer → Reads rules' grammar input answer :=
    fun same _ ⟨_, found⟩ => reads_of_readWith (fun _ _ _ => same.reads_of_readRule) found
  rw [regrouped.reads_eq]
  exact ⟨moved same grammar', moved same.symm grammar'⟩

end Regrouping

/-- Grammars form a monad, as far as what is read by them is concerned: the value, the places where the text starts
and ends, and the whole error. A value put in front of what follows from it, and a value passed on as it is, make no
difference; and of three texts one behind the other it makes no difference whether the last two or the first two are
taken together. So sequences may be regrouped anywhere within a grammar and within the bodies of its rules. -/
theorem bind_obeys_monad_laws (rules : Rules Value) :
    (∀ {α β σ : Type} [Storable (Except ParseError (Parsed β)) σ] (value : α) (follow : α → Grammar Value β)
      (input : Input) (answer : Except ParseError (Parsed β)),
        Gives σ rules ((Grammar.pure value).bind follow) input answer ↔ Gives σ rules (follow value) input answer) ∧
    (∀ {α σ : Type} [Storable (Except ParseError (Parsed α)) σ] (grammar : Grammar Value α) (input : Input)
      (answer : Except ParseError (Parsed α)),
        Gives σ rules (grammar.bind .pure) input answer ↔ Gives σ rules grammar input answer) ∧
    (∀ {α β γ σ : Type} [Storable (Except ParseError (Parsed γ)) σ] (grammar : Grammar Value α)
      (follow : α → Grammar Value β) (last : β → Grammar Value γ) (input : Input)
      (answer : Except ParseError (Parsed γ)),
        Gives σ rules ((grammar.bind follow).bind last) input answer ↔
          Gives σ rules (grammar.bind fun value => (follow value).bind last) input answer) ∧
    ∀ {α σ : Type} [Storable (Except ParseError (Parsed α)) σ] (rules' : Rules Value)
      (grammar grammar' : Grammar Value α) (input : Input) (answer : Except ParseError (Parsed α)),
        RegroupedRules rules rules' → Regrouped grammar grammar' →
          (Gives σ rules grammar input answer ↔ Gives σ rules' grammar' input answer) := by
  simp only [← reads_iff_gives]
  exact ⟨fun _ _ _ _ => reads_pure_bind, fun _ _ _ => reads_bind_pure, fun _ _ _ _ _ => reads_bind_assoc,
    fun _ _ _ _ _ same regrouped => regrouped.reads_iff same⟩

def nesting (closed : Grammar (fun _ : Unit => Nat) Char → Grammar (fun _ : Unit => Nat) Nat) :
    Rules fun _ : Unit => Nat :=
  fun _ => some ((closed (char '(')).or (.pure 0))

theorem bind_obeys_monad_laws_nested :
    let inner : Grammar (fun _ : Unit => Nat) Nat := .ref ()
    let close (depth : Nat) : Grammar (fun _ : Unit => Nat) Nat := (char ')').bind fun _ => .pure (depth + 1)
    let left := nesting fun opening => (opening.bind fun _ => inner).bind close
    let right := nesting fun opening => opening.bind fun _ => inner.bind close
    let source := Input.ofString "(())"
    RegroupedRules left right ∧
      Gives (Except ParseError (Parsed Nat)) left inner source (.ok ⟨2, source, source.skip 4⟩) ∧
      Gives (Except ParseError (Parsed Nat)) right (inner.bind .pure) source (.ok ⟨2, source, source.skip 4⟩) := by
  intro inner close left right source
  have same : RegroupedRules left right := fun _ => .some (.or (.bind_assoc _ _ _) (.refl _))
  have reads : Reads left inner source (.ok ⟨2, source, source.skip 4⟩) := ⟨9, rfl⟩
  obtain ⟨-, -, -, anywhere⟩ := bind_obeys_monad_laws left
  exact ⟨same, reads.gives, (anywhere right inner _ _ _ same (.symm (.bind_pure inner))).mp reads.gives⟩

end Deferred.Grammar
