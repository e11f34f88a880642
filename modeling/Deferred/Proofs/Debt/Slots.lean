import Deferred.Proofs.Debt.Joint

/-! Groups that wait for values. An outcome either fills a slot or settles the group at once, and the
last one to fill a slot settles it too. The combinators that wait for all outcomes, for all successes
and for one success differ only in which outcomes do which. -/

namespace Deferred.Parallel

variable {σ ε ε' α β γ : Type} {setting : Setting}

section Fill

variable [Storable β σ] {group index : Nat} {content : Group σ} {value : β}
  {handOn : List β → Script σ}

theorem changes_fill (more : (content.fill index (store value)).remaining ≠ 0) :
    (fillSlot group index value handOn).Changes group content (content.fill index (store value))
      .done :=
  (alters_fill more).changes

theorem changes_fill_last (last : (content.fill index (store value)).remaining = 0)
    (unsettled : content.settled = false) :
    (fillSlot group index value handOn).Changes group content
      (content.fill index (store value)).emptied.settle
      ((handOn ((content.fill index (store value)).values.filterMap load?)).andThen .done) :=
  (alters_fill_last last unsettled).changes

theorem changes_fill_late (settled : content.settled = true) :
    ∃ after : Group σ, after.settled = true ∧
      (fillSlot group index value handOn).Changes group content after .done := by
  obtain ⟨after, still, alters⟩ := late_fillSlot group index value handOn content settled
  exact ⟨after, still, alters.changes⟩

end Fill

/-- An outcome arrives at a group where `sort` tells whether it fills a slot or settles the group at
once. -/
def arrivalBy [Storable β σ] (sort : Except ε α → β ⊕ Except ε' γ) (finish : List β → Except ε' γ)
    (after : Nat → Bool → Script σ) (next : Except ε' γ → Script σ) (group index : Nat)
    (outcome : Except ε α) : Script σ :=
  match sort outcome with
  | .inl value => fillSlot group index value fun values => next (finish values)
  | .inr result => handOnce group (fun _ => next result) (after index)

structure Joins (sort : Except ε α → β ⊕ Except ε' γ) (finish : List β → Except ε' γ) (size : Nat)
    (promises : Nat → Promise ε α) (whole : Promise ε' γ) : Prop where
  /-- One of the members to come comes in time, as long as the others have only filled slots. -/
  critical : ∀ pending : Finset Nat, pending.Nonempty → (∀ index ∈ pending, index < size) →
    (∀ index < size, index ∉ pending → ∃ outcome delay value, (promises index).may outcome delay ∧
      sort outcome = .inl value) → ∃ index ∈ pending, (promises index).latest ≤ whole.latest
  /-- A member may settle the group if the others come later or fill their slots. -/
  ends : ∀ index < size, ∀ outcome delay result, (promises index).may outcome delay →
    sort outcome = .inr result →
    (∀ other < size, delay ≤ (promises other).latest ∨ ∃ outcome delay' value,
      (promises other).may outcome delay' ∧ sort outcome = .inl value ∧ delay' ≤ delay) →
    whole.may result delay
  /-- The last member may settle the group if all fill their slots. -/
  fills : ∀ (values : List β) (delays : Nat → Nat) (delay : Nat), values.length = size →
    (∀ index < size, ∃ value, values[index]? = some value ∧ (∃ outcome,
      (promises index).may outcome (delays index) ∧ sort outcome = .inl value) ∧
        delays index ≤ delay) →
    (∃ index < size, ∃ outcome, (promises index).may outcome delay) → whole.may (finish values) delay

def Slots [Storable β σ] (sort : Except ε α → β ⊕ Except ε' γ) (promises : Nat → Promise ε α)
    (size start now : Nat) (content : Group σ) (pending : Finset Nat) : Prop :=
  content.Filling size start (fun index stored delay => ∃ value, (∃ outcome,
    (promises index).may outcome delay ∧ sort outcome = .inl value) ∧ stored = store value) now pending

def joint [Storable β σ] {sort : Except ε α → β ⊕ Except ε' γ} {finish : List β → Except ε' γ}
    {size : Nat} {promises : Nat → Promise ε α} {whole : Promise ε' γ}
    (joins : Joins sort finish size promises whole) (setting : Setting) (debt : Debt) (jobs : ℕ∞)
    (start : Nat) : Protocol σ :=
  .joint (Finset.range size) debt jobs (start + whole.latest) (fun index => start + (promises index).latest)
    setting.patient
    (fun now content pending => (pending.Nonempty ∧ pending ⊆ Finset.range size) ∧
      Slots sort promises size start now content pending)
    (fun before waiting => ⟨waiting.1, waiting.2.later before⟩)
    (by
      intro now content pending ⟨⟨nonempty, within⟩, filling⟩
      obtain ⟨index, waiting, early⟩ := joins.critical pending nonempty
        (fun index member => Finset.mem_range.mp (within member)) fun index inside came => by
          obtain ⟨_, delay, ⟨value, ⟨outcome, may, fills⟩, _⟩, _⟩ := filling.filled index inside came
          exact ⟨outcome, delay, value, may, fills⟩
      exact ⟨index, waiting, add_le_add_right early _⟩)

theorem pays_arrivalBy [Storable β σ] {sort : Except ε α → β ⊕ Except ε' γ}
    {finish : List β → Except ε' γ} {size : Nat} {promises : Nat → Promise ε α}
    {whole : Promise ε' γ} (joins : Joins sort finish size promises whole) {debt : Debt} {jobs : ℕ∞}
    {start : Nat} {world : World σ} {number index delay : Nat} {outcome : Except ε α}
    {after : Nat → Bool → Script σ} {next : Except ε' γ → Script σ}
    (known : world[number]? = some (joint joins setting debt jobs start))
    (idle : ∀ index won, Idle setting (after index won))
    (pays : ∀ result delay, whole.may result delay →
      Pays setting world {debt} (start + delay) jobs (next result))
    (patient : setting.patient → ∀ index outcome delay result, (promises index).may outcome delay →
      sort outcome ≠ .inr result)
    (inside : index < size) (may : (promises index).may outcome delay) :
    Pays setting world {⟨number, index⟩} (start + delay) 0
      (arrivalBy sort finish after next number index outcome) := by
  rw [← zero_add ({⟨number, index⟩} : Multiset Debt)]
  refine Arrives.pays known ?_ (by simp) fun content pending expects => ?_
  · rw [Nat.cast_add]
    exact add_le_add_right ((promises index).le_latest may) _
  · have shape : ∀ content pending, (joint joins setting debt jobs start : Protocol σ).valid
        (start + delay) content pending ↔ _ := fun _ _ => Iff.rfl
    cases settled : content.settled with
    | true =>
      unfold arrivalBy
      cases sort outcome with
      | inl value =>
        obtain ⟨_, still, changes⟩ := @changes_fill_late _ _ _ number index content value
          (fun values => next (finish values)) settled
        exact arrives_late shape expects settled still changes .done
      | inr result =>
        exact arrives_late shape expects settled settled (changes_settled settled) (idle index false)
    | false =>
      obtain ⟨⟨nonempty, within⟩, filling⟩ := expects.valid.2 settled
      unfold arrivalBy
      cases sorted : sort outcome with
      | inl value =>
        have filled : Slots sort promises size start (start + delay) (content.fill index (store value))
            (pending.erase index) :=
          filling.fill expects.awaited ⟨value, ⟨outcome, may, sorted⟩, rfl⟩
        by_cases last : (content.fill index (store value)).remaining = 0
        · have nobody : pending.erase index = ∅ := by
            rw [filled.remaining] at last
            exact Finset.card_eq_zero.mp last
          rw [nobody] at filled
          obtain ⟨values, delays, same, length, fits⟩ := filled.values_eq
          refine arrives_settling shape settled rfl (fun _ => nobody) (changes_fill_last last settled)
            (Idle.done.andThen (pays _ delay ?_))
          rw [same]
          refine joins.fills values delays delay length (fun other inside => ?_)
            ⟨index, inside, outcome, may⟩
          obtain ⟨value, found, fills, past⟩ := fits other inside
          exact ⟨value, found, fills, by omega⟩
        · have still : (content.fill index (store value)).settled = false := settled
          refine arrives_waiting shape settled still ?_ (changes_fill last) .done
          rw [filled.remaining] at last
          exact ⟨⟨Finset.card_pos.mp (Nat.pos_of_ne_zero last),
            (Finset.erase_subset ..).trans within⟩, filled⟩
      | inr result =>
        refine arrives_settling shape settled rfl
          (fun impatient => absurd sorted (patient impatient index outcome delay result may))
          (changes_unsettled settled) ((idle index true).andThen (pays result delay ?_))
        apply joins.ends index inside outcome delay result may sorted
        intro other inside
        by_cases waiting : other ∈ pending
        · have late := expects.timely other waiting
          rw [Nat.cast_add] at late
          exact .inl ((ENat.add_le_add_iff_left (ENat.natCast_ne_top start)).mp late)
        · obtain ⟨_, delay', ⟨value, ⟨outcome', may', fills⟩, _⟩, past, _⟩ :=
            filling.filled other inside waiting
          exact .inr ⟨outcome', delay', value, may', fills, by omega⟩

section List

variable {futures : List (Future σ ε α)} {promises : Nat → Promise ε α} {whole : Promise ε' γ}

theorem keeps_joint [Storable β σ] {sort : Except ε α → β ⊕ Except ε' γ}
    {finish : List β → Except ε' γ} (joins : Joins sort finish futures.length promises whole)
    (after : Nat → Bool → Script σ) (idle : ∀ index won, Idle setting (after index won))
    (nonempty : futures ≠ [])
    (keeps : ∀ (index : Nat) (future : Future σ ε α), futures[index]? = some future →
      future.Keeps setting (promises index))
    (timeless : setting.nested → ∀ index, Timeless (promises index))
    (patient : setting.patient → ∀ index outcome delay result, (promises index).may outcome delay →
      sort outcome ≠ .inr result)
    (count : whole.jobs = jobsOf promises futures.length) :
    (sideBySide (.ofSize futures.length) (arrivalBy sort finish after) futures : Future σ ε' γ).Keeps
      setting whole := by
  intro world debt now jobs next timely pays
  have valid : (joint joins setting debt jobs now : Protocol σ).valid now (.ofSize futures.length)
      (Finset.range futures.length) := by
    refine ⟨fun settled => absurd settled (by simp [Group.ofSize]), fun _ => ⟨⟨?_, subset_rfl⟩, .ofSize ..⟩⟩
    exact Finset.nonempty_range_iff.mpr fun none => nonempty (List.eq_nil_of_length_eq_zero none)
  refine pays_gather (joint joins setting debt jobs now) rfl rfl rfl
    (fun impatient _ _ _ valid settled => valid.1 settled impatient) (fun nested index => ?_) valid timely
    fun later extended => ?_
  · show (now : ℕ∞) + (promises index).latest = ⊤
    rw [(timeless nested index).1, add_top]
  · have known : (later ++ [joint joins setting debt jobs now])[later.length]? = _ :=
      List.getElem?_concat_length ..
    rw [debts_range _ _ _ rfl, count]
    refine pays_startAll known (fun _ => rfl) timeless ?_ futures 0 (Nat.le_of_eq (Nat.zero_add _))
      (fun offset future found => by rw [zero_add]; exact keeps offset future found) (le_refl now)
      (.inr rfl) (List.prefix_refl _)
    intro further extended' index inside outcome delay may
    refine pays_arrivalBy joins (World.getElem?_extend extended' known) idle ?_ patient inside may
    exact fun result delay may =>
      (pays result delay may).extend ((extended.trans (List.prefix_append ..)).trans extended')

end List

theorem allSettled_eq [Storable (Except ε α) σ] {futures : List (Future σ ε α)} (nonempty : futures ≠ []) :
    allSettled futures =
      sideBySide (.ofSize futures.length) (arrivalBy .inl .ok fun _ _ => .done) futures :=
  together_of_ne_nil nonempty

def valueOrEnd : Except ε α → α ⊕ Except ε (List α)
  | .ok value => .inl value
  | .error error => .inr (.error error)

theorem valueOrEnd_eq_inl {outcome : Except ε α} {value : α} :
    valueOrEnd outcome = .inl value ↔ outcome = .ok value := by
  cases outcome with
  | ok other => simp [valueOrEnd]
  | error error => simp [valueOrEnd]

theorem valueOrEnd_eq_inr {outcome : Except ε α} {result : Except ε (List α)} :
    valueOrEnd outcome = .inr result ↔ ∃ error, outcome = .error error ∧ result = .error error := by
  cases outcome with
  | ok value => simp [valueOrEnd]
  | error error => simp [valueOrEnd, eq_comm]

theorem allArrival_eq [Storable α σ] :
    (allArrival : (Except ε (List α) → Script σ) → Nat → Nat → Except ε α → Script σ) =
      arrivalBy valueOrEnd .ok fun index won => if won then .record (.allFailed index) .done else .done := by
  funext next group index outcome
  cases outcome with
  | ok value => rfl
  | error error => rfl

theorem all_eq [Storable α σ] {futures : List (Future σ ε α)} (nonempty : futures ≠ []) :
    all futures = sideBySide (.ofSize futures.length) (arrivalBy valueOrEnd .ok
      fun index won => if won then .record (.allFailed index) .done else .done) futures := by
  rw [all, together_of_ne_nil nonempty, allArrival_eq]

def endOrError : Except ε α → ε ⊕ Except (NoWinner ε) α
  | .ok value => .inr (.ok value)
  | .error error => .inl error

theorem endOrError_eq_inl {outcome : Except ε α} {error : ε} :
    endOrError outcome = .inl error ↔ outcome = .error error := by
  cases outcome with
  | ok value => simp [endOrError]
  | error other => simp [endOrError]

theorem endOrError_eq_inr {outcome : Except ε α} {result : Except (NoWinner ε) α} :
    endOrError outcome = .inr result ↔ ∃ value, outcome = .ok value ∧ result = .ok value := by
  cases outcome with
  | ok value => simp [endOrError, eq_comm]
  | error error => simp [endOrError]

theorem anyArrival_eq [Storable ε σ] :
    (anyArrival : (Except (NoWinner ε) α → Script σ) → Nat → Nat → Except ε α → Script σ) =
      arrivalBy endOrError (fun errors => .error (.allFailed errors))
        fun index won => if won then .record (.anySucceeded index) .done else .done := by
  funext next group index outcome
  cases outcome with
  | ok value => rfl
  | error error => rfl

theorem any_eq [Storable ε σ] {futures : List (Future σ ε α)} (nonempty : futures ≠ []) :
    any futures = sideBySide (.ofSize futures.length)
      (arrivalBy endOrError (fun errors => .error (.allFailed errors))
        fun index won => if won then .record (.anySucceeded index) .done else .done) futures := by
  rw [any, together_of_ne_nil nonempty, anyArrival_eq]

theorem Idle.record_if (event : Event) (won : Bool) :
    Idle setting (if won then .record event .done else .done : Script σ) := by
  cases won with
  | false => exact .done
  | true => exact .record event

end Deferred.Parallel
