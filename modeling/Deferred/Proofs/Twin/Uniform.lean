import Deferred.Proofs.Twin.Gate
import Deferred.Proofs.Future.Built

/-! Futures that know nothing of their continuation but how to call it, and call it once at most. Given two
continuations with twin scripts they are run by twin scripts. All constructors and combinators make such
futures. Where several futures share one continuation, their group holds its tokens until one of them has
called it. -/

namespace Deferred

variable {σ ε ε' α β γ : Type}

/-- A future that does the same with all continuations, which are called at most once, with one of the
`possible` outcomes. -/
def Future.Uniform (possible : Except ε α → Prop) (future : Future σ ε α) : Prop :=
  ∀ (rules : List (Rule σ)) (share : Multiset Token) (next next' : Except ε α → Script σ),
    (∀ later, rules <+: later → ∀ outcome, possible outcome →
      Twin later share (next outcome) (next' outcome)) →
    Twin rules share (future.run next) (future.run next')

theorem Twin.hand {rules : List (Rule σ)} {share : Multiset Token} {lane : Lane} {job job' : Unit → Script σ}
    (twin : Twin rules share (job ()) (job' ())) :
    Twin rules share (.submit lane job .done) (.submit lane job' .done) := by
  have submitted : Twin rules (share + 0) (.submit lane job .done) (.submit lane job' .done) :=
    .submit twin .done
  rwa [add_zero] at submitted

namespace Parallel

variable {rules : List (Rule σ)} {size : Nat} {deposit : Multiset Token}

theorem twin_startAll {futures : List (Future σ ε α)} {each : Except ε α → Prop}
    (uniform : ∀ future ∈ futures, future.Uniform each) {arrive arrive' : Nat → Except ε α → Script σ}
    {group start members : Nat} (within : start + futures.length ≤ members)
    (twin : ∀ later, rules <+: later → ∀ index < members, ∀ outcome, each outcome →
      Twin later {(group, index)} (arrive index outcome) (arrive' index outcome)) :
    Twin rules (Token.among group start futures.length) (startAll arrive start futures)
      (startAll arrive' start futures) := by
  induction futures generalizing start with
  | nil => exact .done
  | cons future futures ih =>
    rw [List.length_cons] at within
    have first := uniform future List.mem_cons_self rules {(group, start)} (arrive start) (arrive' start)
      fun later extended => twin later extended start (by omega)
    have rest : Twin rules (Token.among group (start + 1) futures.length) (startAll arrive (start + 1) futures)
        (startAll arrive' (start + 1) futures) :=
      ih (fun other member => uniform other (List.mem_cons_of_mem _ member)) (by omega)
    rw [List.length_cons, Token.among_succ]
    exact first.andThen rest

theorem twin_gather (fits : Nat → σ → Prop) {next next' : Nat → Script σ} (members : Nat)
    (twin : ∀ later, rules <+: later → Twin (later ++ [.gate fits size deposit])
      (Token.among later.length 0 members) (next later.length) (next' later.length)) :
    Twin rules deposit (.gather (.ofSize size) next) (.gather (.ofSize size) next') := by
  have fresh : ∀ number, Rule.gate fits size deposit number deposit (.ofSize size) (.ofSize size) := fun number =>
    .inr ⟨rfl, rfl, 0, (add_zero deposit).symm, Group.paid_ofSize fits number size⟩
  have gathered : Twin rules (deposit + 0) (.gather (.ofSize size) next) (.gather (.ofSize size) next') := by
    refine .gather _ members fresh fun later extended => ?_
    rw [add_zero]
    exact twin later extended
  rwa [add_zero] at gathered

/-- Futures that are started in a group of their own. It is enough that what their outcomes do there are
twins. -/
theorem twin_members (fits : Nat → σ → Prop) {futures : List (Future σ ε α)} {each : Except ε α → Prop}
    (uniform : ∀ future ∈ futures, future.Uniform each)
    {arrival arrival' : Nat → Nat → Except ε α → Script σ}
    (twin : ∀ later group, rules <+: later → later[group]? = some (.gate fits size deposit) →
      ∀ index < futures.length, ∀ outcome, each outcome →
        Twin later {(group, index)} (arrival group index outcome) (arrival' group index outcome)) :
    Twin rules deposit (.gather (.ofSize size) fun group => startAll (arrival group) 0 futures)
      (.gather (.ofSize size) fun group => startAll (arrival' group) 0 futures) := by
  refine twin_gather fits futures.length fun later extended => ?_
  refine twin_startAll uniform (Nat.le_of_eq (Nat.zero_add _)) fun further extended' => ?_
  exact twin further later.length (extended.trans ((List.prefix_append ..).trans extended'))
    (Twin.getElem?_extend extended' List.getElem?_concat_length)

theorem twin_arrivalBy [Storable β σ] {sort : Except ε α → β ⊕ Except ε' γ} {finish : List β → Except ε' γ}
    {after : Nat → Bool → Script σ} {each : Except ε α → Prop} {kept : β → Prop}
    {possible : Except ε' γ → Prop} {next next' : Except ε' γ → Script σ} {group index : Nat}
    {outcome : Except ε α} (known : rules[group]? = some (.gate (StoredAs kept) size deposit))
    (inside : index < size) (idle : ∀ index won, (after index won).Tells)
    (keeps : ∀ outcome value, each outcome → sort outcome = .inl value → kept value)
    (ends : ∀ outcome result, each outcome → sort outcome = .inr result → possible result)
    (finishes : ∀ values : List β, values.length = size → (∀ value ∈ values, kept value) →
      possible (finish values))
    (may : each outcome) (twin : ∀ result, possible result → Twin rules deposit (next result) (next' result)) :
    Twin rules {(group, index)} (arrivalBy sort finish after next group index outcome)
      (arrivalBy sort finish after next' group index outcome) := by
  unfold arrivalBy
  cases sorted : sort outcome with
  | inl value =>
    refine Twin.fills known inside ⟨value, keeps _ _ may sorted, rfl⟩ (fills_fillSlot ..) (fills_fillSlot ..) ?_
    intro content paid slots last
    obtain ⟨values, same, length, valid⟩ := slots.exists_values last
    rw [same]
    exact twin _ (finishes values length valid)
  | inr result =>
    exact Twin.handOnce known (idle index) (idle index) (twin result (ends outcome result may sorted))

theorem twin_pairArrival [Storable α σ] [Storable β σ] [Storable γ σ] {first : α → Prop} {second : β → Prop}
    {each : Except ε γ → Prop} {possible : Except ε (α × β) → Prop} {next next' : Except ε (α × β) → Script σ}
    {group index : Nat} (known : rules[group]? = some (.gate (StoredPair first second) 2 deposit))
    (inside : index < 2) (fit : ∀ value, each (.ok value) → StoredPair first second index (store value : σ))
    (succeeds : ∀ value other, first value → second other → possible (.ok (value, other)))
    (fails : ∀ error, each (.error error) → possible (.error error))
    (twin : ∀ outcome, possible outcome → Twin rules deposit (next outcome) (next' outcome))
    (outcome : Except ε γ) (may : each outcome) :
    Twin rules {(group, index)} (pairArrival next group index outcome) (pairArrival next' group index outcome) := by
  cases outcome with
  | ok value =>
    refine Twin.fills known inside (fit value may) (fills_settlePair ..) (fills_settlePair ..) ?_
    intro content paid slots last
    obtain ⟨one, two, valid, valid', -, both⟩ := slots.exists_both last
    rw [both]
    exact twin _ (succeeds one two valid valid')
  | error error =>
    simp only [pairArrival]
    exact Twin.handOnce known (fun _ => .done) (fun _ => .done) (twin _ (fails error may))

end Parallel

namespace Future

namespace Uniform

variable {possible : Except ε α → Prop} {future : Future σ ε α}

theorem settled {outcome : Except ε α} (may : possible outcome) :
    (settled outcome : Future σ ε α).Uniform possible :=
  fun rules _ _ _ twin => .hand (twin rules (List.prefix_refl _) outcome may)

theorem settledAfter {outcome : Except ε α} (delay : Nat) (may : possible outcome) :
    (settledAfter outcome delay : Future σ ε α).Uniform possible :=
  fun rules _ _ _ twin => .hand (twin rules (List.prefix_refl _) outcome may)

theorem later {thunk : Unit → Future σ ε α} (uniform : (thunk ()).Uniform possible) :
    (later thunk).Uniform possible :=
  fun rules share next next' twin => .hand (uniform rules share next next' twin)

theorem bindOutcome {step : Except ε α → Future σ ε' β} {possible' : Except ε' β → Prop}
    (uniform : future.Uniform possible)
    (follows : ∀ outcome, possible outcome → (step outcome).Uniform possible') :
    (future.bindOutcome step).Uniform possible' := by
  intro rules share next next' twin
  refine .hand (uniform rules share _ _ fun later extended outcome may => ?_)
  exact follows outcome may later share next next' fun further extended' =>
    twin further (extended.trans extended')

theorem watched [Shown ε] [Shown α] (name : String) (uniform : future.Uniform possible) :
    (future.watched name).Uniform possible := by
  intro rules share next next' twin
  refine .now fun started => uniform rules share _ _ fun later extended outcome may => ?_
  exact .now fun ended => .record (twin later extended outcome may)

theorem joint [Storable β σ] {sort : Except ε α → β ⊕ Except ε' γ} {finish : List β → Except ε' γ}
    {after : Nat → Bool → Script σ} {futures : List (Future σ ε α)} {each : Except ε α → Prop}
    {kept : β → Prop} {possible : Except ε' γ → Prop} (uniform : ∀ future ∈ futures, future.Uniform each)
    (idle : ∀ index won, (after index won).Tells)
    (keeps : ∀ outcome value, each outcome → sort outcome = .inl value → kept value)
    (ends : ∀ outcome result, each outcome → sort outcome = .inr result → possible result)
    (finishes : ∀ values : List β, values.length = futures.length → (∀ value ∈ values, kept value) →
      possible (finish values)) :
    (Parallel.sideBySide (.ofSize futures.length) (Parallel.arrivalBy sort finish after) futures).Uniform
      possible := by
  intro rules share next next' twin
  refine Parallel.twin_members (StoredAs kept) uniform
    fun later group extended known index inside outcome may => ?_
  exact Parallel.twin_arrivalBy known inside idle keeps ends finishes may (twin later extended)

theorem allSettled [Storable (Except ε α) σ] {futures : List (Future σ ε α)} {each : Except ε α → Prop}
    {possible : Except ε (List (Except ε α)) → Prop} (uniform : ∀ future ∈ futures, future.Uniform each)
    (may : ∀ outcomes : List (Except ε α), outcomes.length = futures.length →
      (∀ outcome ∈ outcomes, each outcome) → possible (.ok outcomes)) :
    (Parallel.allSettled futures).Uniform possible := by
  rcases eq_or_ne futures [] with rfl | nonempty
  · exact settled (may [] rfl (by simp))
  · rw [Parallel.allSettled_eq nonempty]
    have keeps : ∀ outcome value : Except ε α, each outcome →
        (.inl outcome : Except ε α ⊕ Except ε (List (Except ε α))) = .inl value → each value :=
      fun outcome value may sorted => Sum.inl.inj sorted ▸ may
    exact joint uniform (fun _ _ => .done) keeps (fun _ _ _ never => absurd never (by simp)) may

theorem all [Storable α σ] {futures : List (Future σ ε α)} {each : Except ε α → Prop}
    {possible : Except ε (List α) → Prop} (uniform : ∀ future ∈ futures, future.Uniform each)
    (succeeds : ∀ values : List α, values.length = futures.length → (∀ value ∈ values, each (.ok value)) →
      possible (.ok values))
    (fails : ∀ error, each (.error error) → possible (.error error)) :
    (Parallel.all futures).Uniform possible := by
  rcases eq_or_ne futures [] with rfl | nonempty
  · exact settled (succeeds [] rfl (by simp))
  · rw [Parallel.all_eq nonempty]
    refine joint uniform (fun _ won => Script.Tells.record_if rfl won) (fun outcome value may sorted => ?_)
      (fun outcome result may sorted => ?_) succeeds
    · exact Parallel.valueOrEnd_eq_inl.mp sorted ▸ may
    · obtain ⟨error, rfl, rfl⟩ := Parallel.valueOrEnd_eq_inr.mp sorted
      exact fails error may

theorem any [Storable ε σ] {futures : List (Future σ ε α)} {each : Except ε α → Prop}
    {possible : Except (NoWinner ε) α → Prop} (uniform : ∀ future ∈ futures, future.Uniform each)
    (succeeds : ∀ value, each (.ok value) → possible (.ok value))
    (fails : ∀ errors : List ε, errors.length = futures.length → (∀ error ∈ errors, each (.error error)) →
      possible (.error (.allFailed errors)))
    (none : futures = [] → possible (.error .empty)) : (Parallel.any futures).Uniform possible := by
  rcases eq_or_ne futures [] with rfl | nonempty
  · exact settled (none rfl)
  · rw [Parallel.any_eq nonempty]
    refine joint uniform (fun _ won => Script.Tells.record_if rfl won) (fun outcome error may sorted => ?_)
      (fun outcome result may sorted => ?_) fails
    · exact Parallel.endOrError_eq_inl.mp sorted ▸ may
    · obtain ⟨value, rfl, rfl⟩ := Parallel.endOrError_eq_inr.mp sorted
      exact succeeds value may

theorem race {futures : List (Future σ ε α)} (uniform : ∀ future ∈ futures, future.Uniform possible) :
    (Parallel.race futures).Uniform possible := by
  intro rules share next next' twin
  refine Parallel.twin_members (fun _ _ => True) uniform fun later group extended known index _ outcome may => ?_
  have idle : ∀ won : Bool,
      (.record (if won then .raceSettled index else .lateDiscarded index) .done : Script σ).Tells := by
    intro won
    cases won with
    | false => exact .record rfl
    | true => exact .record rfl
  exact Twin.handOnce known idle idle (twin later extended outcome may)

theorem zip [Storable α σ] [Storable β σ] {left : Future σ ε α} {right : Future σ ε β}
    {first : Except ε α → Prop} {second : Except ε β → Prop} {possible : Except ε (α × β) → Prop}
    (uniform : left.Uniform first) (uniform' : right.Uniform second)
    (succeeds : ∀ value other, first (.ok value) → second (.ok other) → possible (.ok (value, other)))
    (fails : ∀ error, first (.error error) ∨ second (.error error) → possible (.error error)) :
    (Parallel.zip left right).Uniform possible := by
  intro rules share next next' twin
  let fits : Nat → σ → Prop := StoredPair (fun value => first (.ok value)) fun value => second (.ok value)
  let gate : Rule σ := .gate fits 2 share
  have arrives : ∀ {later further : List (Rule σ)}, rules <+: later → later ++ [gate] <+: further →
      further[later.length]? = some gate ∧ ∀ outcome, possible outcome →
        Twin further share (next outcome) (next' outcome) := fun extended extended' =>
    ⟨Twin.getElem?_extend extended' List.getElem?_concat_length,
      twin _ (extended.trans ((List.prefix_append ..).trans extended'))⟩
  refine Parallel.twin_gather fits 2 fun later extended => ?_
  simp only [Parallel.leftArrival_eq, Parallel.rightArrival_eq]
  have arrivesLeft := uniform (later ++ [gate]) {(later.length, 0)} (Parallel.pairArrival next later.length 0)
    (Parallel.pairArrival next' later.length 0) fun further extended' =>
      Parallel.twin_pairArrival (arrives extended extended').1 Nat.zero_lt_two (fun value may => ⟨value, may, rfl⟩)
        succeeds (fun error may => fails error (.inl may)) (arrives extended extended').2
  have arrivesRight := uniform' (later ++ [gate]) {(later.length, 1)} (Parallel.pairArrival next later.length 1)
    (Parallel.pairArrival next' later.length 1) fun further extended' =>
      Parallel.twin_pairArrival (arrives extended extended').1 Nat.one_lt_two (fun value may => ⟨value, may, rfl⟩)
        succeeds (fun error may => fails error (.inr may)) (arrives extended extended').2
  exact arrivesLeft.andThen arrivesRight

end Uniform

/-- All futures that are built by the constructors and combinators are uniform, if those are that come from
elsewhere. -/
theorem Built.uniform {leaves : Leaves σ} {races : Prop}
    (sources : ∀ (ε α : Type) (future : Future σ ε α) (possible : Except ε α → Prop),
      leaves ε α future possible → future.Uniform possible)
    {future : Future σ ε α} {possible : Except ε α → Prop} (built : Built leaves races future possible) :
    future.Uniform possible := by
  induction built with
  | leaf leaf => exact sources _ _ _ _ leaf
  | settled may => exact .settled may
  | settledAfter delay may => exact .settledAfter delay may
  | later _ ih => exact ih.later
  | bindOutcome _ _ ih ihStep => exact ih.bindOutcome ihStep
  | watched name _ ih => exact ih.watched name
  | allSettled _ may ih => exact .allSettled ih may
  | all _ _ succeeds fails ih => exact .all ih succeeds fails
  | any _ _ succeeds fails none ih => exact .any ih succeeds fails none
  | race _ _ _ ih => exact .race ih
  | zip _ _ _ succeeds fails ih ih' => exact .zip ih ih' succeeds fails

end Future

end Deferred
