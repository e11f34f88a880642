import Deferred.Proofs.Parsing.Outcomes

/-! Rules that get their bodies one by one, maybe more than one each. A body may mention rules that have none yet.
What counts in the end is an environment: each rule has the first body that it was given, and a rule without one
fails where it is used, like anything else that fails. -/

namespace Deferred

variable {ρ : Type} {Value : ρ → Type}

structure Definition {ρ : Type} (Value : ρ → Type) where
  rule : ρ
  body : Grammar Value (Value rule)

namespace Rules

variable [DecidableEq ρ] {rules : Rules Value} {rule : ρ}

def answer (rules : Rules Value) (definition : Definition Value) : Except RuleError Unit × Rules Value :=
  match rules.define definition.rule definition.body with
  | .ok defined => (.ok (), defined)
  | .error error => (.error error, rules)

def defineAll (rules : Rules Value) : List (Definition Value) → List (Except RuleError Unit) × Rules Value
  | [] => ([], rules)
  | definition :: rest =>
    let answered := rules.answer definition
    let result := answered.2.defineAll rest
    (answered.1 :: result.1, result.2)

def firstBody (rule : ρ) : List (Definition Value) → Option (Grammar Value (Value rule))
  | [] => none
  | definition :: rest =>
    if same : definition.rule = rule then some (same ▸ definition.body) else firstBody rule rest

def environment (definitions : List (Definition Value)) : Rules Value :=
  fun rule => firstBody rule definitions

theorem answer_of_none (undefined : rules rule = none) (body : Grammar Value (Value rule)) :
    rules.answer ⟨rule, body⟩ = (.ok (), rules.set rule body) := by
  simp [answer, define, defines, undefined]

theorem answer_of_some (defined : rules rule ≠ none) (body : Grammar Value (Value rule)) :
    rules.answer ⟨rule, body⟩ = (.error .defined, rules) := by
  simp [answer, define, defines, Option.isSome_iff_ne_none, defined]

@[simp] theorem set_self (rules : Rules Value) (rule : ρ) (body : Grammar Value (Value rule)) :
    rules.set rule body rule = some body := by
  simp [set]

theorem set_of_ne {other : ρ} (body : Grammar Value (Value rule)) (different : rule ≠ other) :
    rules.set rule body other = rules other := by
  simp [set, different]

theorem answer_rule (rules : Rules Value) (definition : Definition Value) (rule : ρ) :
    (rules.answer definition).2 rule = (rules rule).or (firstBody rule [definition]) := by
  obtain ⟨given, body⟩ := definition
  cases before : rules given with
  | none =>
    have after : (rules.answer ⟨given, body⟩).2 = rules.set given body := by rw [answer_of_none before]
    rw [after]
    by_cases same : given = rule
    · subst same
      simp [before, firstBody]
    · simp [set_of_ne body same, firstBody, same]
  | some first =>
    have after : (rules.answer ⟨given, body⟩).2 = rules := by rw [answer_of_some (by simp [before])]
    rw [after]
    by_cases same : given = rule
    · subst same
      simp [before]
    · simp [firstBody, same]

theorem firstBody_append (rule : ρ) (first second : List (Definition Value)) :
    firstBody rule (first ++ second) = (firstBody rule first).or (firstBody rule second) := by
  induction first with
  | nil => rfl
  | cons definition rest ih =>
    rw [List.cons_append, firstBody, firstBody]
    split
    next => rfl
    next => exact ih

theorem defineAll_rule (rules : Rules Value) (definitions : List (Definition Value)) (rule : ρ) :
    (rules.defineAll definitions).2 rule = (rules rule).or (firstBody rule definitions) := by
  induction definitions generalizing rules with
  | nil => simp [defineAll, firstBody]
  | cons definition rest ih =>
    rw [defineAll, ih, answer_rule, Option.or_assoc, ← firstBody_append]
    rfl

theorem defineAll_empty (definitions : List (Definition Value)) :
    (empty.defineAll definitions).2 = environment definitions := by
  funext rule
  rw [defineAll_rule]
  rfl

theorem firstBody_eq_none_iff {definitions : List (Definition Value)} :
    firstBody rule definitions = none ↔ rule ∉ definitions.map Definition.rule := by
  induction definitions with
  | nil => simp [firstBody]
  | cons definition rest ih =>
    rw [firstBody]
    split
    next same => simp [same]
    next different => simp [ih, Ne.symm different]

theorem defineAll_append (rules : Rules Value) (first second : List (Definition Value)) :
    rules.defineAll (first ++ second) =
      ((rules.defineAll first).1 ++ ((rules.defineAll first).2.defineAll second).1,
        ((rules.defineAll first).2.defineAll second).2) := by
  induction first generalizing rules with
  | nil => rfl
  | cons definition rest ih => simp only [List.cons_append, defineAll, ih]

theorem answer_environment (earlier : List (Definition Value)) (definition : Definition Value) :
    ((environment earlier).answer definition).1 =
      if definition.rule ∈ earlier.map Definition.rule then .error .defined else .ok () := by
  by_cases given : definition.rule ∈ earlier.map Definition.rule
  · rw [if_pos given, answer_of_some]
    exact fun none => firstBody_eq_none_iff.mp none given
  · rw [if_neg given, answer_of_none (firstBody_eq_none_iff.mpr given)]

theorem defineAll_answer (earlier later : List (Definition Value)) (definition : Definition Value) :
    (empty.defineAll (earlier ++ definition :: later)).1[earlier.length]? =
      some (if definition.rule ∈ earlier.map Definition.rule then .error .defined else .ok ()) := by
  have length : ∀ rules : Rules Value, (rules.defineAll earlier).1.length = earlier.length := by
    induction earlier with
    | nil => exact fun _ => rfl
    | cons first rest ih => exact fun rules => congrArg (· + 1) (ih _)
  rw [defineAll_append, defineAll_empty, List.getElem?_append_right (by rw [length]), length, Nat.sub_self,
    defineAll, List.getElem?_cons_zero, answer_environment]

theorem firstBody_filter (rule : ρ) (definitions : List (Definition Value)) :
    firstBody rule (definitions.filter fun definition => definition.rule = rule) =
      firstBody rule definitions := by
  induction definitions with
  | nil => rfl
  | cons definition rest ih =>
    by_cases same : definition.rule = rule
    · rw [List.filter_cons_of_pos (by simpa using same), firstBody, firstBody, dif_pos same, dif_pos same]
    · rw [List.filter_cons_of_neg (by simpa using same), ih, firstBody, dif_neg same]

theorem environment_eq_of_filter {definitions reordered : List (Definition Value)}
    (same : ∀ rule, reordered.filter (fun definition => definition.rule = rule) =
      definitions.filter fun definition => definition.rule = rule) :
    environment reordered = environment definitions := by
  funext rule
  rw [environment, environment, ← firstBody_filter, same, firstBody_filter]

def tie (rules : Rules Value) (rule : ρ) (build : Grammar Value (Value rule) → Grammar Value (Value rule)) :
    Rules Value :=
  rules.set rule (build (.ref rule))

end Rules

namespace Grammar

variable {rules : Rules Value} {rule : ρ} {α β : Type} {input place : Input} {error : ParseError}

theorem reads_ref_of_some {body : Grammar Value (Value rule)} {answer : Except ParseError (Parsed (Value rule))}
    (defined : rules rule = some body) :
    Reads rules (.ref rule) input answer ↔ Reads rules body input answer := by
  rw [reads_ref, defined]
  simp

theorem reads_ref_of_none {answer : Except ParseError (Parsed (Value rule))} (undefined : rules rule = none) :
    Reads rules (.ref rule) input answer ↔ answer = .error (.undefined input.pos) := by
  rw [reads_ref, undefined]
  simp

theorem reads_or_of_error {failing other : Grammar Value α} {answer : Except ParseError (Parsed α)}
    (failed : Reads rules failing input (.error error)) :
    Reads rules (failing.or other) input answer ↔
      ∃ inner, Reads rules other input inner ∧ answer = inner.mapError (.alternatives error) := by
  rw [reads_or]
  constructor
  · rintro (⟨parsed, read, -⟩ | ⟨error', inner, failed', follows, same⟩)
    · cases failed.unique read
    · obtain rfl := Except.error.inj (failed.unique failed')
      exact ⟨inner, follows, same⟩
  · rintro ⟨inner, follows, same⟩
    exact .inr ⟨error, inner, failed, follows, same⟩

theorem reads_rep_of_error {item : Grammar Value α} {least : Nat} {values : List α}
    (collects : Collects (Reads rules item) input ⟨values, place, some error⟩) :
    Reads rules (item.rep least) input
      (if least ≤ values.length then .ok ⟨values, input, place⟩ else .error error) :=
  reads_rep.mpr ⟨_, collects, rfl⟩

theorem reads_sepByMin_of_error {item : Grammar Value α} {separator : Grammar Value β} {least : Nat}
    (failed : Reads rules item input (.error error)) :
    Reads rules (item.sepByMin separator least) input
      (if least = 0 then .ok (.empty [] input) else .error error) := by
  refine reads_chain.mpr (.inl ⟨error, failed, ?_⟩)
  split <;> rfl

theorem reads_sepByMin_of_ok {item : Grammar Value α} {separator : Grammar Value β} {least : Nat}
    {first : Parsed α} {values : List α} (read : Reads rules item input (.ok first))
    (collects : Collects (Reads rules (separator.seqRight item)) first.next ⟨values, place, some error⟩) :
    Reads rules (item.sepByMin separator least) input (.ok ⟨first.value :: values, input, place⟩) :=
  reads_chain.mpr (.inr ⟨first, _, read, collects, rfl⟩)

variable [DecidableEq ρ]

open Rules

/-- Rules that get their bodies one by one form an environment, in which each of them has the first body that it was
given. What a grammar reads on a loop is what it reads in that environment, wherever this comes to an
outcome. A second definition of a rule is refused and changes nothing, and the order of definitions matters only
among those of one rule. A rule without a body fails where it is used, and this failure is treated as any other by
choices and repetitions. A rule whose body was built from the rule reads like its body. -/
theorem definitions_form_environment (definitions : List (Definition Value)) :
    (Rules.empty.defineAll definitions).2 = environment definitions ∧
    (∀ {α σ : Type} [Storable (Except ParseError (Parsed α)) σ] (grammar : Grammar Value α) (input : Input)
      (answer : Except ParseError (Parsed α)) (loop : Loop σ), loop.Vacant →
        (Reads (environment definitions) grammar input answer → ∃ least, ∀ bound ≥ least, ∃ ran after,
          loop.waitFor bound (parse (Rules.empty.defineAll definitions).2 grammar input) =
            some ⟨some answer, ran, after⟩) ∧
        ∀ bound ran after, loop.waitFor bound (parse (Rules.empty.defineAll definitions).2 grammar input) =
          some ⟨some answer, ran, after⟩ → Reads (environment definitions) grammar input answer) ∧
    (∀ rule body, firstBody rule definitions = some body → ∀ input answer,
      Reads (environment definitions) (.ref rule) input answer ↔
        Reads (environment definitions) body input answer) ∧
    (∀ earlier definition later, definitions = earlier ++ definition :: later →
      (Rules.empty.defineAll definitions).1[earlier.length]? =
        some (if definition.rule ∈ earlier.map Definition.rule then .error .defined else .ok ())) ∧
    (∀ again : Definition Value, again.rule ∈ definitions.map Definition.rule →
      Rules.empty.defineAll (definitions ++ [again]) =
        ((Rules.empty.defineAll definitions).1 ++ [.error .defined], (Rules.empty.defineAll definitions).2)) ∧
    (∀ reordered : List (Definition Value),
      (∀ rule, reordered.filter (fun definition => definition.rule = rule) =
        definitions.filter fun definition => definition.rule = rule) →
      (Rules.empty.defineAll reordered).2 = (Rules.empty.defineAll definitions).2) ∧
    (∀ rule, rule ∉ definitions.map Definition.rule → ∀ input answer,
      Reads (environment definitions) (.ref rule) input answer ↔ answer = .error (.undefined input.pos)) ∧
    (∀ {α β : Type} (failing other : Grammar Value α) (separator : Grammar Value β) (input : Input)
      (error : ParseError) (least : Nat),
      (Reads (environment definitions) failing input (.error error) →
        (∀ answer, Reads (environment definitions) (failing.or other) input answer ↔
          ∃ inner, Reads (environment definitions) other input inner ∧
            answer = inner.mapError (.alternatives error)) ∧
        Reads (environment definitions) (failing.sepByMin separator least) input
          (if least = 0 then .ok (.empty [] input) else .error error)) ∧
      ∀ values place,
        (Collects (Reads (environment definitions) failing) input ⟨values, place, some error⟩ →
          Reads (environment definitions) (failing.rep least) input
            (if least ≤ values.length then .ok ⟨values, input, place⟩ else .error error)) ∧
        ∀ first, Reads (environment definitions) failing input (.ok first) →
          Collects (Reads (environment definitions) (separator.seqRight failing)) first.next
            ⟨values, place, some error⟩ →
          Reads (environment definitions) (failing.sepByMin separator least) input
            (.ok ⟨first.value :: values, input, place⟩)) ∧
    ∀ {rule : ρ} {σ : Type} [Storable (Except ParseError (Parsed (Value rule))) σ]
      (build : Grammar Value (Value rule) → Grammar Value (Value rule)) (input : Input)
      (answer : Except ParseError (Parsed (Value rule))) (loop : Loop σ), loop.Vacant →
        ((∃ bound ran after, loop.waitFor bound
            (parse ((environment definitions).tie rule build) (.ref rule) input) =
              some ⟨some answer, ran, after⟩) ↔
          ∃ bound ran after, loop.waitFor bound
            (parse ((environment definitions).tie rule build) (build (.ref rule)) input) =
              some ⟨some answer, ran, after⟩) := by
  refine ⟨defineAll_empty definitions, ?_, fun rule body first input answer => reads_ref_of_some first, ?_, ?_, ?_,
    ?_, ?_, ?_⟩
  · intro α σ _ grammar input answer loop vacant
    rw [defineAll_empty]
    refine ⟨fun ⟨fuel, found⟩ => ?_, fun bound ran after waited => ?_⟩
    · obtain ⟨ran, waited⟩ := exists_waitFor_of_read (σ := σ) found
      refine ⟨fuel + 2 * ran + 1, fun bound enough => ?_⟩
      obtain ⟨after, waited, _⟩ := waited bound enough loop vacant
      exact ⟨ran, after, waited⟩
    · exact (only_parse grammar input).waitFor vacant waited
  · rintro earlier definition later rfl
    exact defineAll_answer earlier later definition
  · intro again given
    have refused : (environment definitions).answer again = (.error .defined, environment definitions) :=
      answer_of_some (fun none => firstBody_eq_none_iff.mp none given) again.body
    rw [defineAll_append, defineAll_empty, defineAll, refused]
    rfl
  · intro reordered same
    rw [defineAll_empty, defineAll_empty, environment_eq_of_filter same]
  · exact fun rule absent input answer => reads_ref_of_none (firstBody_eq_none_iff.mpr absent)
  · intro α β failing other separator input error least
    exact ⟨fun failed => ⟨fun answer => reads_or_of_error failed, reads_sepByMin_of_error failed⟩,
      fun values place => ⟨reads_rep_of_error, fun first => reads_sepByMin_of_ok⟩⟩
  · intro rule σ _ build input answer loop vacant
    rw [← reads_iff_waitFor vacant, ← reads_iff_waitFor vacant]
    exact reads_ref_of_some (set_self ..)

def parity : List (Definition fun _ : Fin 3 => Nat) :=
  [⟨0, (((sat (· == 'a') "a").seqRight (.ref 1)).map (· + 1)).or (.pure 0)⟩,
    ⟨1, ((sat (· == 'a') "a").seqRight (.ref 0)).map (· + 1)⟩, ⟨1, .pure 7⟩]

theorem definitions_form_environment_parity :
    let input : Input := .ofList ['a', 'a', 'a', 'a'] 0
    let loop : Loop (Except ParseError (Parsed Nat)) := { config := { maxStreak := 0 } }
    let rules := (Rules.empty.defineAll parity).2
    (∃ parsed, parsed.value = 4 ∧ ∃ least, ∀ bound ≥ least, ∃ ran after,
      loop.waitFor bound (parse rules (.ref 0) input) = some ⟨some (.ok parsed), ran, after⟩) ∧
    (Rules.empty.defineAll parity).1 = [.ok (), .ok (), .error .defined] ∧
    (Rules.empty.defineAll (parity ++ [⟨0, .pure 5⟩])).2 = rules ∧
    (Rules.empty.defineAll [parity[1], parity[2], parity[0]]).2 = rules ∧
    Reads rules (.ref 2) input (.error (.undefined 0)) ∧
    Reads rules ((Grammar.ref (2 : Fin 3)).rep 0) input (.ok (.empty [] input)) := by
  intro input loop rules
  have found : ∃ parsed, parsed.value = 4 ∧ Reads (environment parity) (.ref 0) input (.ok parsed) :=
    ⟨_, rfl, 9, rfl⟩
  obtain ⟨parsed, value, reads⟩ := found
  have vacant : loop.Vacant := ⟨rfl, rfl, rfl⟩
  obtain ⟨same, waits, -, -, refused, reorders, fails, recovers, -⟩ :=
    definitions_form_environment parity
  have rules_eq : rules = environment parity := same
  have missing : Reads (environment parity) (.ref 2) input (.error (.undefined 0)) :=
    (fails 2 (by decide) input _).mpr rfl
  have moved : ∀ rule, [parity[1], parity[2], parity[0]].filter (fun definition => definition.rule = rule) =
      parity.filter fun definition => definition.rule = rule
    | 0 => rfl
    | 1 => rfl
    | 2 => rfl
  refine ⟨⟨parsed, value, (waits _ _ _ loop vacant).1 reads⟩, rfl, ?_, reorders _ moved, ?_, ?_⟩
  · rw [refused ⟨0, .pure 5⟩ (by decide)]
  · rwa [rules_eq]
  · rw [rules_eq]
    exact ((recovers _ (.pure 0) (.pure 0) input _ 0).2 [] input).1 (.failed missing)

end Grammar

end Deferred
