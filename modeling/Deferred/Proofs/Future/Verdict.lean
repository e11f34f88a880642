import Deferred.Proofs.Debt.Race
import Deferred.Proofs.Debt.Zip
import Deferred.Proofs.Future.Adequacy

/-! Who decides what futures come to together. The first arrival of the kind that settles their group at
once does, and if several come at that moment, they must agree: otherwise it is the order of the queues
that decides, and with it whatever else the loop has counted. Some may never come at all. -/

namespace Deferred.Future

variable {σ ε ε' α β γ : Type}

structure Course (σ ε α : Type) where
  future : Future σ ε α
  arrival : Arrival ε α
  jobs : Nat

def Course.promise (course : Course σ ε α) : Promise ε α :=
  .arriving course.arrival course.jobs

def Timed.course (member : Timed σ ε α) : Course σ ε α :=
  ⟨member.future, some (member.outcome, member.duration), member.jobs⟩

theorem promiseAmong_course (members : List (Timed σ ε α)) :
    promiseAmong Course.promise (members.map Timed.course) = memberPromise members := by
  funext index
  simp only [promiseAmong, memberPromise, List.getElem?_map]
  cases members[index]? with
  | none => rfl
  | some member => rfl

def Succeeds (outcome : Except ε α) : Prop :=
  ∃ value, outcome = .ok value

def Fails (outcome : Except ε α) : Prop :=
  ∃ error, outcome = .error error

theorem exists_valueOrEnd_eq_inr (outcome : Except ε α) :
    (∃ result, Parallel.valueOrEnd outcome = .inr result) ↔ Fails outcome := by
  simp only [Parallel.valueOrEnd_eq_inr]
  exact ⟨fun ⟨_, error, same, _⟩ => ⟨error, same⟩, fun ⟨error, same⟩ => ⟨_, error, same, rfl⟩⟩

theorem exists_endOrError_eq_inr (outcome : Except ε α) :
    (∃ result, Parallel.endOrError outcome = .inr result) ↔ Succeeds outcome := by
  simp only [Parallel.endOrError_eq_inr]
  exact ⟨fun ⟨_, value, same, _⟩ => ⟨value, same⟩, fun ⟨value, same⟩ => ⟨_, value, same, rfl⟩⟩

/-- Of the arrivals with an outcome of some kind, the earliest have the same outcome. -/
structure Verdict (kind : Except ε α → Prop) (arrivals : List (Arrival ε α))
    (outcome : Except ε α) (time : Nat) : Prop where
  arrives : some (outcome, time) ∈ arrivals
  fits : kind outcome
  first : ∀ other later, some (other, later) ∈ arrivals → kind other →
    time < later ∨ later = time ∧ other = outcome

def Tie (kind : Except ε α → Prop) (arrivals : List (Arrival ε α)) : Prop :=
  ∃ outcome rival time, some (outcome, time) ∈ arrivals ∧ some (rival, time) ∈ arrivals ∧
    kind outcome ∧ kind rival ∧ outcome ≠ rival ∧
    ∀ other later, some (other, later) ∈ arrivals → kind other → time ≤ later

structure Stalled (kind : Except ε α → Prop) (arrivals : List (Arrival ε α)) : Prop where
  never : none ∈ arrivals
  misfit : ∀ outcome time, some (outcome, time) ∈ arrivals → ¬kind outcome

section Kind

variable {kind kind' : Except ε α → Prop} {arrivals : List (Arrival ε α)}

theorem Verdict.congr {outcome : Except ε α} {time : Nat}
    (verdict : Verdict kind arrivals outcome time) (same : ∀ outcome, kind' outcome ↔ kind outcome) :
    Verdict kind' arrivals outcome time :=
  ⟨verdict.arrives, (same _).mpr verdict.fits, fun other later came fits =>
    verdict.first other later came ((same _).mp fits)⟩

theorem Stalled.congr (stalled : Stalled kind arrivals) (same : ∀ outcome, kind' outcome ↔ kind outcome) :
    Stalled kind' arrivals :=
  ⟨stalled.never, fun outcome time came fits => stalled.misfit outcome time came ((same _).mp fits)⟩

theorem Verdict.map {outcome : Except ε α} {time : Nat}
    (verdict : Verdict (fun _ => True) arrivals outcome time) (f : Except ε α → Except ε' β) :
    Verdict (fun _ => True) (arrivals.map (Option.map (Prod.map f id))) (f outcome) time := by
  refine ⟨List.mem_map_of_mem (f := Option.map (Prod.map f id)) verdict.arrives, trivial,
    fun other later listed _ => ?_⟩
  obtain ⟨arrival, came, changed⟩ := List.mem_map.mp listed
  obtain ⟨⟨plain, at'⟩, rfl, same⟩ := Option.map_eq_some_iff.mp changed
  obtain ⟨rfl, rfl⟩ := Prod.mk.inj same
  exact (verdict.first plain at' came trivial).imp_right fun ⟨now, agrees⟩ => ⟨now, congrArg f agrees⟩

/-- Nothing but a tie stands in the way of a verdict. -/
theorem verdict_or_tie (someone : ∃ outcome time, some (outcome, time) ∈ arrivals ∧ kind outcome) :
    (∃ outcome time, Verdict kind arrivals outcome time) ∨ Tie kind arrivals := by
  classical
  have arrived : ∃ time outcome, some (outcome, time) ∈ arrivals ∧ kind outcome := by
    obtain ⟨outcome, time, came⟩ := someone
    exact ⟨time, outcome, came⟩
  obtain ⟨outcome, came, fits⟩ := Nat.find_spec arrived
  have earliest : ∀ other later, some (other, later) ∈ arrivals → kind other →
      Nat.find arrived ≤ later :=
    fun other later came fits => Nat.find_min' arrived ⟨other, came, fits⟩
  by_cases agree : ∀ other, some (other, Nat.find arrived) ∈ arrivals → kind other → other = outcome
  · refine .inl ⟨outcome, Nat.find arrived, came, fits, fun other later came' fits' => ?_⟩
    rcases Nat.lt_or_eq_of_le (earliest other later came' fits') with after | same
    · exact .inl after
    · exact .inr ⟨same.symm, agree other (same ▸ came') fits'⟩
  · push Not at agree
    obtain ⟨rival, came', fits', different⟩ := agree
    exact .inr ⟨outcome, rival, _, came, came', fits, fits', different.symm, earliest⟩

end Kind

section Courses

variable {courses : List (Course σ ε α)} {kind : Except ε α → Prop} {outcome : Except ε α} {time : Nat}

theorem mem_arrivals_of_may {index : Nat} {found : Except ε α} {delay : Nat}
    (inside : index < courses.length)
    (may : (promiseAmong Course.promise courses index).may found delay) :
    some (found, delay) ∈ courses.map Course.arrival := by
  rw [promiseAmong_eq _ inside] at may
  exact Promise.arriving_may.mp may ▸ List.mem_map_of_mem (List.getElem_mem inside)

theorem Verdict.exists_index (verdict : Verdict kind (courses.map Course.arrival) outcome time) :
    ∃ index < courses.length, (promiseAmong Course.promise courses index).latest = time ∧
      ∀ found delay, (promiseAmong Course.promise courses index).may found delay → found = outcome := by
  obtain ⟨course, listed, same⟩ := List.mem_map.mp verdict.arrives
  obtain ⟨index, inside, rfl⟩ := List.mem_iff_getElem.mp listed
  have promised : promiseAmong Course.promise courses index =
      .exactly outcome time courses[index].jobs := by
    rw [promiseAmong_eq _ inside, Course.promise, same]
    rfl
  refine ⟨index, inside, ?_⟩
  rw [promised]
  exact ⟨rfl, fun found delay may => may.1⟩

/-- Nobody else of the kind comes by the time of the verdict, unless with the same outcome. -/
theorem Verdict.eq_of_le (verdict : Verdict kind (courses.map Course.arrival) outcome time) {index : Nat}
    {found : Except ε α} {delay : Nat} (inside : index < courses.length)
    (may : (promiseAmong Course.promise courses index).may found delay) (fits : kind found)
    (early : delay ≤ time) : found = outcome ∧ delay = time := by
  have same := (verdict.first _ _ (mem_arrivals_of_may inside may) fits).resolve_left (Nat.not_lt.mpr early)
  exact ⟨same.2, same.1⟩

theorem Verdict.competes (verdict : Verdict (fun _ => True) (courses.map Course.arrival) outcome time)
    (jobs : Nat) :
    Parallel.Competes courses.length (promiseAmong Course.promise courses)
      (.exactly outcome time jobs) := by
  obtain ⟨index, inside, latest, _⟩ := verdict.exists_index
  constructor
  case critical => exact ⟨index, inside, le_of_eq latest⟩
  case wins =>
    intro other within found delay may first
    have early := first index inside
    rw [latest] at early
    exact verdict.eq_of_le within may trivial (Nat.cast_le.mp early)

theorem Verdict.joins {sort : Except ε α → β ⊕ Except ε' γ} {finish : List β → Except ε' γ}
    {result : Except ε' γ} (verdict : Verdict (fun outcome => ∃ result, sort outcome = .inr result)
      (courses.map Course.arrival) outcome time)
    (ends : sort outcome = .inr result) (jobs : Nat) :
    Parallel.Joins sort finish courses.length (promiseAmong Course.promise courses)
      (.exactly result time jobs) := by
  obtain ⟨index, inside, latest, only⟩ := verdict.exists_index
  -- The outcome that decides goes into no slot.
  have unslotted : ∀ found delay value, (promiseAmong Course.promise courses index).may found delay →
      sort found ≠ .inl value := by
    intro found delay value may slotted
    rw [only found delay may, ends] at slotted
    exact absurd slotted (by simp)
  constructor
  case critical =>
    intro pending _ _ slotted
    refine ⟨index, ?_, le_of_eq latest⟩
    by_contra came
    obtain ⟨found, delay, value, may, into⟩ := slotted index inside came
    exact unslotted found delay value may into
  case ends =>
    intro other within found delay result' may sorted others
    rcases others index inside with early | ⟨found, delay, value, may, into, _⟩
    · rw [latest] at early
      have won := verdict.eq_of_le within may ⟨result', sorted⟩ (Nat.cast_le.mp early)
      rw [won.1, ends] at sorted
      exact ⟨(Sum.inr.inj sorted).symm, won.2⟩
    · exact absurd into (unslotted found delay value may)
  case fills =>
    intro values delays delay _ each _
    obtain ⟨value, _, ⟨found, may, into⟩, _⟩ := each index inside
    exact absurd into (unslotted found _ value may)

theorem Stalled.exists_index (stalled : Stalled kind (courses.map Course.arrival)) :
    ∃ index < courses.length,
      ∀ found delay, ¬(promiseAmong Course.promise courses index).may found delay := by
  obtain ⟨course, listed, same⟩ := List.mem_map.mp stalled.never
  obtain ⟨index, inside, rfl⟩ := List.mem_iff_getElem.mp listed
  refine ⟨index, inside, fun found delay may => ?_⟩
  rw [promiseAmong_eq _ inside, Course.promise, same] at may
  exact may

theorem Stalled.competes (stalled : Stalled (fun _ => True) (courses.map Course.arrival)) (jobs : Nat) :
    Parallel.Competes courses.length (promiseAmong Course.promise courses) (.never jobs) := by
  obtain ⟨index, inside, _⟩ := stalled.exists_index
  exact ⟨⟨index, inside, le_top⟩, fun other within found delay may _ =>
    stalled.misfit found delay (mem_arrivals_of_may within may) trivial⟩

theorem Stalled.joins {sort : Except ε α → β ⊕ Except ε' γ} {finish : List β → Except ε' γ}
    (stalled : Stalled (fun outcome => ∃ result, sort outcome = .inr result)
      (courses.map Course.arrival)) (jobs : Nat) :
    Parallel.Joins sort finish courses.length (promiseAmong Course.promise courses) (.never jobs) := by
  obtain ⟨index, inside, never⟩ := stalled.exists_index
  constructor
  case critical => exact fun pending ⟨other, waiting⟩ _ _ => ⟨other, waiting, le_top⟩
  case ends =>
    intro other within found delay result may sorted _
    exact stalled.misfit found delay (mem_arrivals_of_may within may) ⟨result, sorted⟩
  case fills =>
    intro values delays delay _ each _
    obtain ⟨_, _, ⟨found, may, _⟩, _⟩ := each index inside
    exact never found _ may

end Courses

section Pair

variable {delay delay' : Nat}

theorem halves_both (first : α) (second : β) (jobs jobs' total : Nat) :
    Parallel.Halves (.exactly (.ok first : Except ε α) delay jobs)
      (.exactly (.ok second : Except ε β) delay' jobs')
      (.exactly (.ok (first, second)) (max delay delay') total) where
  critical := .inl (Nat.cast_le.mpr (Nat.le_max_left ..))
  left_critical _ _ _ := Nat.cast_le.mpr (Nat.le_max_left ..)
  right_critical _ _ _ := Nat.cast_le.mpr (Nat.le_max_right ..)
  both := by
    rintro _ _ _ _ time ⟨⟨⟩, rfl⟩ ⟨⟨⟩, rfl⟩ past past' last
    refine ⟨rfl, le_antisymm ?_ (Nat.max_le.mpr ⟨past, past'⟩)⟩
    rcases last with ⟨_, may⟩ | ⟨_, may⟩
    · exact may.2 ▸ Nat.le_max_left ..
    · exact may.2 ▸ Nat.le_max_right ..
  left_fails _ _ may := absurd may.1 (by simp)
  right_fails _ _ may := absurd may.1 (by simp)

def unvalued (arrival : Arrival ε α) : Arrival ε Unit :=
  arrival.map (Prod.map (Except.map fun _ => ()) id)

theorem unvalued_eq_error {arrival : Arrival ε α} {error : ε} {time : Nat} :
    unvalued arrival = some (.error error, time) ↔ arrival = some (.error error, time) := by
  rcases arrival with _ | ⟨_ | _, _⟩ <;> simp [unvalued, Except.map]

variable {left : Arrival ε α} {right : Arrival ε β}

theorem Verdict.failed {error : ε} {time : Nat}
    (verdict : Verdict Fails [unvalued left, unvalued right] (.error error) time) :
    left = some (.error error, time) ∨ right = some (.error error, time) := by
  rcases List.mem_cons.mp verdict.arrives with listed | listed
  · exact .inl (unvalued_eq_error.mp listed.symm)
  · exact .inr (unvalued_eq_error.mp (List.mem_singleton.mp listed).symm)

theorem Verdict.halves {error : ε} {time : Nat}
    (verdict : Verdict Fails [unvalued left, unvalued right] (.error error) time)
    (jobs jobs' total : Nat) :
    Parallel.Halves (.arriving left jobs) (.arriving right jobs')
      (.exactly (.error error) time total) := by
  have decisive := verdict.failed
  have settles : ∀ other at', some (.error other, at') ∈ [unvalued left, unvalued right] →
      at' ≤ time → (.error other : Except ε (α × β)) = .error error ∧ at' = time := by
    intro other at' listed early
    have same := (verdict.first _ _ listed ⟨other, rfl⟩).resolve_left (Nat.not_lt.mpr early)
    rw [Except.error.inj same.2]
    exact ⟨rfl, same.1⟩
  constructor
  case critical =>
    rcases decisive with rfl | rfl
    · exact .inl (le_refl _)
    · exact .inr (le_refl _)
  case left_critical =>
    intro value delay may
    obtain rfl := Promise.arriving_may.mp may
    obtain rfl := decisive.resolve_right (by simp)
    exact le_refl _
  case right_critical =>
    intro value delay may
    obtain rfl := Promise.arriving_may.mp may
    obtain rfl := decisive.resolve_left (by simp)
    exact le_refl _
  case both =>
    intro first second delay delay' at' may may' _ _ _
    obtain rfl := Promise.arriving_may.mp may
    obtain rfl := Promise.arriving_may.mp may'
    exact absurd decisive (by simp)
  case left_fails =>
    intro other delay may concedes
    obtain rfl := Promise.arriving_may.mp may
    refine settles other delay (List.mem_cons_self ..) ?_
    rcases decisive with same | rfl
    · exact le_of_eq (Prod.mk.inj (Option.some.inj same)).2
    · rcases concedes with early | ⟨_, _, may, _⟩
      · exact Nat.cast_le.mp early
      · exact absurd may.1 (by simp)
  case right_fails =>
    intro other delay may concedes
    obtain rfl := Promise.arriving_may.mp may
    refine settles other delay (List.mem_cons_of_mem _ (List.mem_singleton_self _)) ?_
    rcases decisive with rfl | same
    · rcases concedes with early | ⟨_, _, may, _⟩
      · exact Nat.cast_le.mp early
      · exact absurd may.1 (by simp)
    · exact le_of_eq (Prod.mk.inj (Option.some.inj same)).2

theorem Stalled.halves (stalled : Stalled Fails [unvalued left, unvalued right])
    (jobs jobs' total : Nat) :
    Parallel.Halves (.arriving left jobs) (.arriving right jobs') (.never total) where
  critical := .inl le_top
  left_critical _ _ _ := le_top
  right_critical _ _ _ := le_top
  both := by
    intro first second delay delay' at' may may' _ _ _
    obtain rfl := Promise.arriving_may.mp may
    obtain rfl := Promise.arriving_may.mp may'
    exact absurd stalled.never (by simp [unvalued])
  left_fails := by
    intro error delay may _
    obtain rfl := Promise.arriving_may.mp may
    exact stalled.misfit _ _ (List.mem_cons_self ..) ⟨error, rfl⟩
  right_fails := by
    intro error delay may _
    obtain rfl := Promise.arriving_may.mp may
    exact stalled.misfit _ _ (List.mem_cons_of_mem _ (List.mem_singleton_self _)) ⟨error, rfl⟩

end Pair

end Deferred.Future
