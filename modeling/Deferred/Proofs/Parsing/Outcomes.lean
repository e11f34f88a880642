import Deferred.Proofs.Future.Forced
import Deferred.Proofs.Parsing.Refinement

/-! What a reading on a loop can come to is what direct reading comes to. A reading that needs more than its
host gives never ends, so no outcome is made up where direct reading has none. -/

namespace Deferred

variable {σ ε α β γ : Type}

theorem Loop.Awaits.scheduled {cell bound fuel count : Nat} {loop : Loop σ} (here : Loop.Awaits cell loop)
    {job : Unit → Script σ} {result : Nat × Loop σ}
    (pursued : loop.pursue bound cell fuel count (.submit .scheduled job .done) = some result) :
    ∃ later fuel' count', Loop.Awaits cell later ∧
      later.pursue bound cell fuel' count' (job ()) = some result := by
  cases fuel with
  | zero => simp [Loop.pursue, Script.run, Loop.driveWith] at pursued
  | succ fuel =>
    obtain ⟨later, there, taken⟩ := here.pursue_submit
    exact ⟨later, fuel, count + 1, there, (taken bound job fuel count).symm.trans pursued⟩

namespace Future

open Loop (Awaits)

/-- If running a future where nothing else is to be done comes to anything, then by a call of its continuation
with one of these outcomes, and again nothing else is to be done then. -/
def Only (future : Future σ ε α) (possible : Except ε α → Prop) : Prop :=
  ∀ ⦃cell : Nat⦄ ⦃loop : Loop σ⦄, Awaits cell loop → ∀ ⦃bound fuel count next result⦄,
    loop.pursue bound cell fuel count (future.run next) = some result →
      ∃ outcome later fuel' count', possible outcome ∧ Awaits cell later ∧
        later.pursue bound cell fuel' count' (next outcome) = some result

theorem Only.mono {future : Future σ ε α} {possible possible' : Except ε α → Prop}
    (only : future.Only possible) (more : ∀ outcome, possible outcome → possible' outcome) :
    future.Only possible' := by
  intro cell loop here bound fuel count next result pursued
  obtain ⟨outcome, later, fuel', count', holds, there, reached⟩ := only here pursued
  exact ⟨outcome, later, fuel', count', more outcome holds, there, reached⟩

theorem only_stuck {possible : Except ε α → Prop} : (stuck : Future σ ε α).Only possible :=
  fun _ _ _ _ _ _ _ _ pursued => absurd pursued (by simp [stuck, Loop.pursue, Script.run])

theorem only_settled (outcome : Except ε α) : (settled outcome : Future σ ε α).Only (· = outcome) := by
  intro cell loop here bound fuel count next result pursued
  obtain ⟨later, fuel', count', there, reached⟩ := here.scheduled pursued
  exact ⟨outcome, later, fuel', count', rfl, there, reached⟩

theorem Only.bindOutcome {ε' : Type} {first : Future σ ε α} {step : Except ε α → Future σ ε' β}
    {possible : Except ε α → Prop} {possible' : Except ε' β → Prop} (only : first.Only possible)
    (follows : ∀ outcome, possible outcome → (step outcome).Only possible') :
    (first.bindOutcome step).Only possible' := by
  intro cell loop here bound fuel count next result pursued
  obtain ⟨begun, _, _, there, reached⟩ := here.scheduled pursued
  obtain ⟨outcome, middle, _, _, holds, there, reached⟩ := only there reached
  exact follows outcome holds there reached

theorem Only.bounded {future : Nat → Future σ ε α} {possible : Except ε α → Prop}
    (only : ∀ bound, (future bound).Only possible) : (Future.bounded future).Only possible := by
  intro cell loop here bound fuel count next result pursued
  refine only bound here (?_ : loop.pursue bound cell fuel count ((future bound).run next) = some result)
  rw [← pursued]
  unfold Future.bounded Loop.pursue
  rw [Script.run, Loop.hostAt_bound]

theorem Only.waitFor [Storable (Except ε α) σ] {future : Future σ ε α} {possible : Except ε α → Prop}
    (only : future.Only possible) {loop : Loop σ} (vacant : loop.Vacant) {bound ran : Nat} {after : Loop σ}
    {outcome : Except ε α} (waited : loop.waitFor bound future = some ⟨some outcome, ran, after⟩) :
    possible outcome := by
  rw [waitFor_eq_pursue] at waited
  obtain ⟨⟨ran', middle⟩, pursued, same⟩ := Option.map_eq_some_iff.mp waited
  obtain ⟨delivered, later, fuel, count, holds, there, reached⟩ := only vacant.awaits pursued
  have held : (middle.group loop.groups.size).values.head?.bind load? = some delivered := by
    cases fuel with
    | zero => simp [Loop.pursue, Loop.deliver, Script.run, Loop.driveWith] at reached
    | succ fuel =>
      obtain ⟨filled, reached', held⟩ := pursue_deliver bound fuel count there.inside there.empty delivered
      obtain ⟨-, rfl⟩ := Prod.mk.inj (Option.some.inj (reached.symm.trans reached'))
      exact held
  have outcome_eq := congrArg Waited.outcome same
  simp only [held, Option.some.injEq] at outcome_eq
  exact outcome_eq ▸ holds

end Future

namespace Grammar

variable {ρ : Type} {Value : ρ → Type} {rules : Rules Value}

theorem only_gatherFrom {item : Input → Reading σ α} {reads : Input → Except ParseError (Parsed α) → Prop}
    (forward : ∀ input parsed, reads input (.ok parsed) → parsed.From input)
    (only : ∀ input, (item input).Only (reads input))
    (finish : Items α → Except ParseError (Parsed γ)) {left : Nat} {seen : List α} {current : Input}
    (bounded : current.remaining ≤ left) :
    (gatherFrom item finish left seen current).Only fun outcome =>
      ∃ items, Collects reads current items ∧ outcome = finish (items.after seen.reverse) := by
  induction left generalizing seen current with
  | zero =>
    unfold gatherFrom
    refine (only current).bindOutcome fun outcome found => ?_
    cases outcome with
    | error error =>
      refine (Future.only_settled _).mono fun outcome same => ⟨_, .failed found, ?_⟩
      simpa [Items.after] using same
    | ok parsed =>
      have still : ¬current.pos < parsed.next.pos := fun further => by
        have := (forward current parsed found).next.remaining_lt further
        omega
      refine (Future.only_settled _).mono fun outcome same => ⟨_, .stopped found still, ?_⟩
      simpa [Items.after] using same
  | succ left ih =>
    unfold gatherFrom
    refine (only current).bindOutcome fun outcome found => ?_
    cases outcome with
    | error error =>
      refine (Future.only_settled _).mono fun outcome same => ⟨_, .failed found, ?_⟩
      simpa [Items.after] using same
    | ok parsed =>
      simp only
      split
      next further =>
        have less := (forward current parsed found).next.remaining_lt further
        have within : parsed.next.remaining ≤ left := by omega
        refine Future.Only.mono (ih within) ?_
        rintro outcome ⟨items, collects, same⟩
        exact ⟨_, .more found further collects, by simpa [Items.after] using same⟩
      next still =>
        refine (Future.only_settled _).mono fun outcome same => ⟨_, .stopped found still, ?_⟩
        simpa [Items.after] using same

theorem only_parseWith {readRule : (rule : ρ) → Input → Reading σ (Value rule)}
    (only : ∀ rule input, (readRule rule input).Only (Reads rules (.ref rule) input))
    (grammar : Grammar Value α) (input : Input) :
    (grammar.parseWith readRule input).Only (Reads rules grammar input) := by
  induction grammar generalizing input with
  | pure value => exact (Future.only_settled _).mono fun _ => reads_pure.mpr
  | fail expected => exact (Future.only_settled _).mono fun _ => reads_fail.mpr
  | sat accepts expected => exact (Future.only_settled _).mono fun _ => reads_sat.mpr
  | literal text => exact (Future.only_settled _).mono fun _ => reads_literal.mpr
  | eof => exact (Future.only_settled _).mono fun _ => reads_eof.mpr
  | bind first next ihFirst ihNext =>
    refine (ihFirst input).bindOutcome fun outcome found => ?_
    cases outcome with
    | error error =>
      exact (Future.only_settled _).mono fun _ same => reads_bind.mpr (.inl ⟨error, found, same⟩)
    | ok left =>
      refine (ihNext left.value left.next).bindOutcome fun inner behind => ?_
      cases inner with
      | error error =>
        exact (Future.only_settled _).mono fun _ same =>
          reads_bind.mpr (.inr ⟨left, .error error, found, behind, same⟩)
      | ok right =>
        exact (Future.only_settled _).mono fun _ same =>
          reads_bind.mpr (.inr ⟨left, .ok right, found, behind, same⟩)
  | map f grammar ih =>
    refine (ih input).bindOutcome fun outcome found => ?_
    cases outcome with
    | error error =>
      exact (Future.only_settled _).mono fun _ same => reads_map.mpr ⟨.error error, found, same⟩
    | ok parsed =>
      exact (Future.only_settled _).mono fun _ same => reads_map.mpr ⟨.ok parsed, found, same⟩
  | or first second ihFirst ihSecond =>
    refine (ihFirst input).bindOutcome fun outcome found => ?_
    cases outcome with
    | ok parsed => exact (Future.only_settled _).mono fun _ same => reads_or.mpr (.inl ⟨parsed, found, same⟩)
    | error error =>
      refine (ihSecond input).bindOutcome fun inner behind => ?_
      cases inner with
      | error error' =>
        exact (Future.only_settled _).mono fun _ same =>
          reads_or.mpr (.inr ⟨error, .error error', found, behind, same⟩)
      | ok parsed =>
        exact (Future.only_settled _).mono fun _ same =>
          reads_or.mpr (.inr ⟨error, .ok parsed, found, behind, same⟩)
  | refine grammar judge ih =>
    refine (ih input).bindOutcome fun outcome found => ?_
    cases outcome with
    | error error =>
      exact (Future.only_settled _).mono fun _ same => reads_refine.mpr ⟨.error error, found, same⟩
    | ok parsed =>
      exact (Future.only_settled _).mono fun _ same => reads_refine.mpr ⟨.ok parsed, found, same⟩
  | rep item least ih =>
    rw [parseWith, repeatFrom_eq]
    refine (only_gatherFrom (fun _ _ => Reads.from) ih _ (Nat.le_refl _)).mono ?_
    rintro _ ⟨items, collects, same⟩
    exact reads_rep.mpr ⟨items, collects, same⟩
  | chain first more combine fallback ihFirst ihMore =>
    refine (ihFirst input).bindOutcome fun outcome found => ?_
    cases outcome with
    | error error =>
      cases fallback with
      | none =>
        exact (Future.only_settled _).mono fun _ same => reads_chain.mpr (.inl ⟨error, found, same⟩)
      | some value =>
        exact (Future.only_settled _).mono fun _ same => reads_chain.mpr (.inl ⟨error, found, same⟩)
    | ok parsed =>
      simp only [chainFrom_eq]
      refine (only_gatherFrom (fun _ _ => Reads.from) ihMore _ (Nat.le_refl _)).mono ?_
      rintro _ ⟨items, collects, same⟩
      exact reads_chain.mpr (.inr ⟨parsed, items, found, collects, same⟩)
  | lazy make ih => exact ih () input
  | ref rule => exact only rule input

theorem only_ruleAt (depth : Nat) (rule : ρ) (input : Input) :
    (ruleAt rules depth rule input : Reading σ _).Only (Reads rules (.ref rule) input) := by
  induction depth generalizing rule input with
  | zero => exact Future.only_stuck
  | succ depth ih =>
    rw [ruleAt]
    split
    next body defined =>
      rw [parseAt_eq]
      exact (only_parseWith ih body input).mono fun _ found => reads_ref.mpr (.inl ⟨body, defined, found⟩)
    next undefined =>
      exact (Future.only_settled _).mono fun _ same => reads_ref.mpr (.inr ⟨undefined, same⟩)

theorem only_parse (grammar : Grammar Value α) (input : Input) :
    (parse rules grammar input : Reading σ α).Only (Reads rules grammar input) :=
  Future.Only.bounded fun depth => by
    rw [parseAt_eq]
    exact only_parseWith (only_ruleAt depth) grammar input

/-- Reading on a loop where nothing else is to be done and direct reading have the same outcomes. -/
theorem reads_iff_waitFor [Storable (Except ParseError (Parsed α)) σ] {grammar : Grammar Value α}
    {input : Input} {answer : Except ParseError (Parsed α)} {loop : Loop σ} (vacant : loop.Vacant) :
    Reads rules grammar input answer ↔ ∃ bound ran after,
      loop.waitFor bound (parse rules grammar input) = some ⟨some answer, ran, after⟩ := by
  constructor
  · rintro ⟨fuel, found⟩
    obtain ⟨ran, waited⟩ := exists_waitFor_of_read (σ := σ) found
    obtain ⟨after, waited, _⟩ := waited (fuel + 2 * ran + 1) (Nat.lt_succ_self _) loop vacant
    exact ⟨_, ran, after, waited⟩
  · rintro ⟨bound, ran, after, waited⟩
    exact (only_parse grammar input).waitFor vacant waited

/-- On a loop where nothing else is to be done, waiting for a reading gives this outcome, once the bound on
searches is large enough. -/
def Gives (σ : Type) [Storable (Except ParseError (Parsed α)) σ] (rules : Rules Value)
    (grammar : Grammar Value α) (input : Input) (answer : Except ParseError (Parsed α)) : Prop :=
  ∃ least, ∀ bound, least < bound → ∀ loop : Loop σ, loop.Vacant →
    ∃ ran after, loop.waitFor bound (grammar.parse rules input) = some ⟨some answer, ran, after⟩ ∧
      after.Vacant

theorem Reads.gives [Storable (Except ParseError (Parsed α)) σ] {grammar : Grammar Value α}
    {input : Input} {answer : Except ParseError (Parsed α)} (reads : Reads rules grammar input answer) :
    Gives σ rules grammar input answer := by
  obtain ⟨fuel, found⟩ := reads
  obtain ⟨ran, waited⟩ := exists_waitFor_of_read (σ := σ) found
  refine ⟨fuel + 2 * ran, fun bound enough loop vacant => ?_⟩
  obtain ⟨after, gives, -, empty⟩ := waited bound enough loop vacant
  exact ⟨ran, after, gives, empty⟩

theorem reads_iff_gives [Storable (Except ParseError (Parsed α)) σ] {grammar : Grammar Value α}
    {input : Input} {answer : Except ParseError (Parsed α)} :
    Reads rules grammar input answer ↔ Gives σ rules grammar input answer := by
  refine ⟨Reads.gives, fun ⟨least, waited⟩ => ?_⟩
  have vacant : ({} : Loop σ).Vacant := ⟨rfl, rfl, rfl⟩
  obtain ⟨ran, after, found, -⟩ := waited (least + 1) (Nat.lt_succ_self least) {} vacant
  exact (only_parse grammar input).waitFor vacant found

theorem gives_eq_reads [Storable (Except ParseError (Parsed α)) σ] (rules : Rules Value) (grammar : Grammar Value α)
    (input : Input) : Gives σ rules grammar input = Reads rules grammar input :=
  funext fun _ => propext reads_iff_gives.symm

theorem Gives.unique [Storable (Except ParseError (Parsed α)) σ] {grammar : Grammar Value α}
    {input : Input} {answer answer' : Except ParseError (Parsed α)}
    (gives : Gives σ rules grammar input answer) (gives' : Gives σ rules grammar input answer') :
    answer = answer' :=
  (reads_iff_gives.mpr gives).unique (reads_iff_gives.mpr gives')

end Grammar

end Deferred
