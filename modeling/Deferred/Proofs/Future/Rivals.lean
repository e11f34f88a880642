import Deferred.Proofs.Future.Entrance
import Deferred.Proofs.Future.Verdict

/-! Futures that race each other, none of which races within. The one that settles first on the clock of
the loop decides, however the others are queued or diverted, and none is ever stopped: draining the loop
afterwards runs all that the others still have to do. -/

namespace Deferred.Future

variable {σ ε ε' δ α β γ : Type}

/-- Run alone on a new loop, a future comes to an outcome after some time and some jobs, unless the
host's bound is too low. -/
def SettlesAlone [Storable (Except ε α) σ] (future : Future σ ε α) (outcome : Except ε α)
    (duration jobs : Nat) : Prop :=
  ∃ least, ∀ bound > least, ∃ after, Loop.waitFor bound future {} = some ⟨some outcome, jobs, after⟩ ∧
    after.clock = duration

structure Timed.Leads (kind : Except ε α → Prop) (members : List (Timed σ ε α)) (index : Nat)
    (leader : Timed σ ε α) : Prop where
  found : members[index]? = some leader
  fits : kind leader.outcome
  earlier : ∀ (other : Nat) (rival : Timed σ ε α), members[other]? = some rival → other ≠ index →
    kind rival.outcome → leader.duration < rival.duration

theorem Built.settles_of_alone [Storable (Except ε α) σ] {future : Future σ ε α}
    {possible : Except ε α → Prop} (built : Built Leaves.none False future possible)
    {outcome : Except ε α} {duration jobs : Nat} (alone : future.SettlesAlone outcome duration jobs) :
    Settles future outcome duration jobs := by
  obtain ⟨outcome', duration', jobs', _, settles⟩ := built.settles
  obtain ⟨least, runs⟩ := alone
  let bound := least + 2 * jobs' + 1
  have vacant : ({} : Loop σ).Vacant := ⟨rfl, rfl, rfl⟩
  have enough : 0 + 2 * jobs' < bound := by omega
  obtain ⟨after, waited, clock⟩ := runs bound (by omega)
  obtain ⟨after', waited', clock', _⟩ := (settles.delivers 0).waitFor enough vacant
  obtain ⟨same, rfl, rfl⟩ := Waited.mk.inj (Option.some.inj (waited.symm.trans waited'))
  obtain rfl := Option.some.inj same
  have instant : duration = duration' := clock.symm.trans (clock'.trans (Nat.zero_add duration'))
  rwa [instant]

theorem Settles.alone [Storable (Except ε α) σ] {future : Future σ ε α} {outcome : Except ε α}
    {duration jobs : Nat} (settles : Settles future outcome duration jobs) :
    future.SettlesAlone outcome duration jobs := by
  refine ⟨2 * jobs, fun bound enough => ?_⟩
  have vacant : ({} : Loop σ).Vacant := ⟨rfl, rfl, rfl⟩
  have enough' : 0 + 2 * jobs < bound := by omega
  obtain ⟨after, waited, clock, _⟩ := (settles.delivers 0).waitFor enough' vacant
  exact ⟨after, waited, clock.trans (Nat.zero_add duration)⟩

section Leads

variable {members : List (Timed σ ε α)} {index : Nat} {leader : Timed σ ε α}

theorem Timed.Leads.verdict {kind : Except ε α → Prop} (leads : Timed.Leads kind members index leader) :
    Verdict kind ((members.map Timed.course).map Course.arrival) leader.outcome leader.duration := by
  rw [List.map_map]
  refine ⟨List.mem_map_of_mem (f := Course.arrival ∘ Timed.course) (List.mem_of_getElem? leads.found),
    leads.fits, fun other later listed fits => ?_⟩
  obtain ⟨member, inside, same⟩ := List.mem_map.mp listed
  obtain ⟨rfl, rfl⟩ := Prod.mk.inj (Option.some.inj same)
  obtain ⟨place, found⟩ := List.mem_iff_getElem?.mp inside
  rcases eq_or_ne place index with rfl | different
  · obtain rfl := Option.some.inj (found.symm.trans leads.found)
    exact .inr ⟨rfl, rfl⟩
  · exact .inl (leads.earlier place member found different fits)

theorem Timed.Leads.competes (leads : Timed.Leads (fun _ => True) members index leader) (jobs : Nat) :
    Parallel.Competes members.length (memberPromise members)
      (.exactly leader.outcome leader.duration jobs) := by
  have competes := leads.verdict.competes jobs
  rwa [promiseAmong_course, List.length_map] at competes

theorem Timed.Leads.joins {sort : Except ε α → β ⊕ Except ε' γ} {finish : List β → Except ε' γ}
    {result : Except ε' γ}
    (leads : Timed.Leads (fun outcome => ∃ result, sort outcome = .inr result) members index leader)
    (ends : sort leader.outcome = .inr result) (jobs : Nat) :
    Parallel.Joins sort finish members.length (memberPromise members)
      (.exactly result leader.duration jobs) := by
  have joins : Parallel.Joins sort finish _ _ _ := leads.verdict.joins ends jobs
  rwa [promiseAmong_course, List.length_map] at joins

theorem Timed.Leads.congr {kind kind' : Except ε α → Prop}
    (leads : Timed.Leads kind members index leader) (same : ∀ outcome, kind outcome ↔ kind' outcome) :
    Timed.Leads kind' members index leader :=
  ⟨leads.found, (same _).mp leads.fits, fun other rival found different fits =>
    leads.earlier other rival found different ((same _).mpr fits)⟩

theorem Timed.Leads.mapError (leads : Timed.Leads (fun _ => True) members index leader) (f : ε → ε') :
    Timed.Leads (fun _ => True) (members.map (Timed.mapError f)) index (leader.mapError f) := by
  refine ⟨by simp [leads.found], trivial, fun other rival found different _ => ?_⟩
  rw [List.getElem?_map, Option.map_eq_some_iff] at found
  obtain ⟨member, found, rfl⟩ := found
  exact leads.earlier other member found different trivial

theorem Timed.leads_left {first second : Timed σ ε α} (early : first.duration < second.duration) :
    Timed.Leads (fun _ => True) [first, second] 0 first := by
  refine ⟨rfl, trivial, fun other rival found different _ => ?_⟩
  match other, found, different with
  | 0, _, same => exact absurd rfl same
  | 1, found, _ => exact Option.some.inj found ▸ early

theorem Timed.leads_right {first second : Timed σ ε α} (early : second.duration < first.duration) :
    Timed.Leads (fun _ => True) [first, second] 1 second := by
  refine ⟨rfl, trivial, fun other rival found different _ => ?_⟩
  match other, found, different with
  | 0, found, _ => exact Option.some.inj found ▸ early
  | 1, _, same => exact absurd rfl same

end Leads

section Combined

variable {members : List (Timed σ ε α)} {index : Nat} [Storable (Except ε α × Nat) σ]

theorem Entrance.race [Storable (Except δ γ) σ] {rivals : List (Timed σ δ γ)} {leader : Timed σ δ γ}
    {enter : List (Future σ ε α) → List (Future σ δ γ)} (entrance : Entrance enter members rivals)
    {combine : List (Future σ ε α) → Future σ δ γ}
    (form : ∀ futures, futures.length = members.length → combine futures = Parallel.race (enter futures))
    (settles : ∀ member ∈ members,
      Settles member.future member.outcome member.duration member.jobs) (nonempty : members ≠ [])
    (leads : Timed.Leads (fun _ => True) rivals index leader) :
    SettlesAmid combine members leader.outcome leader.duration (rivals.map Timed.jobs).sum
      (longest (rivals.map Timed.duration)) := by
  refine entrance.settlesAmid Parallel.passing_raceArrival form settles nonempty
    fun {setting futures} simple impatient stand => ?_
  refine Parallel.keeps_race (stand.1 ▸ leads.competes _) stand.2 (fun nested => absurd nested simple)
    impatient ?_
  rw [stand.1, jobsOf_memberPromise]
  rfl

theorem Timed.Leads.joint [Storable β σ] [Storable (Except ε' γ) σ] {leader : Timed σ ε α}
    {sort : Except ε α → β ⊕ Except ε' γ} {finish : List β → Except ε' γ} {result : Except ε' γ}
    {after : Nat → Bool → Script σ}
    (idle : ∀ {setting : Setting} (index : Nat) (won : Bool), Parallel.Idle setting (after index won))
    {combine : List (Future σ ε α) → Future σ ε' γ}
    (form : ∀ futures, futures ≠ [] → combine futures =
      Parallel.sideBySide (.ofSize futures.length) (Parallel.arrivalBy sort finish after) futures)
    (settles : ∀ member ∈ members,
      Settles member.future member.outcome member.duration member.jobs)
    (leads : Timed.Leads (fun outcome => ∃ result, sort outcome = .inr result) members index leader)
    (ends : sort leader.outcome = .inr result) :
    SettlesAmid combine members result leader.duration (members.map Timed.jobs).sum
      (longest (members.map Timed.duration)) := by
  have nonempty := List.ne_nil_of_mem (List.mem_of_getElem? leads.found)
  have someone : ∀ futures : List (Future σ ε α), futures.length = members.length → futures ≠ [] := by
    rintro _ size rfl
    exact nonempty (List.eq_nil_of_length_eq_zero size.symm)
  refine (entrance_id members).settlesAmid (Parallel.passing_arrivalBy idle)
    (fun futures size => (form futures (someone futures size)).trans (by rw [size, id])) settles nonempty
    fun {setting futures} simple impatient stand => ?_
  rw [← stand.1]
  refine Parallel.keeps_joint (stand.1 ▸ leads.joins ends _) after idle (someone futures stand.1) stand.2
    (fun nested => absurd nested simple) (fun patient => absurd patient impatient) ?_
  rw [stand.1, jobsOf_memberPromise]
  rfl

theorem Timed.Leads.firstSettled [Storable (Except (NoWinner ε) α) σ] {leader : Timed σ ε α}
    (settles : ∀ member ∈ members,
      Settles member.future member.outcome member.duration member.jobs)
    (leads : Timed.Leads (fun _ => True) members index leader) :
    SettlesAmid Parallel.firstSettled members (leader.outcome.mapError NoWinner.failed) leader.duration
      (members.map fun member => 1 + member.jobs + 1).sum (longest (members.map Timed.duration)) := by
  have nonempty := List.ne_nil_of_mem (List.mem_of_getElem? leads.found)
  have form : ∀ futures : List (Future σ ε α), futures.length = members.length →
      Parallel.firstSettled futures = Parallel.race (futures.map (Future.mapError · NoWinner.failed)) := by
    intro futures size
    refine Parallel.firstSettled_of_ne_nil ?_
    rintro rfl
    exact nonempty (List.eq_nil_of_length_eq_zero size.symm)
  have whole := (entrance_mapError members NoWinner.failed).race form settles nonempty
    (leads.mapError NoWinner.failed)
  rw [List.map_map, List.map_map] at whole
  exact whole

theorem Timed.Leads.any [Storable ε σ] [Storable (Except (NoWinner ε) α) σ] {leader : Timed σ ε α}
    {value : α}
    (settles : ∀ member ∈ members,
      Settles member.future member.outcome member.duration member.jobs)
    (leads : Timed.Leads (fun outcome => ∃ value, outcome = .ok value) members index leader)
    (succeeds : leader.outcome = .ok value) :
    SettlesAmid Parallel.any members (.ok value) leader.duration (members.map Timed.jobs).sum
      (longest (members.map Timed.duration)) := by
  refine Timed.Leads.joint (fun _ won => Parallel.Idle.record_if _ won)
    (fun _ nonempty => Parallel.any_eq nonempty) settles
    (leads.congr fun outcome => (exists_endOrError_eq_inr outcome).symm) ?_
  rw [succeeds]
  rfl

theorem Timed.Leads.all [Storable α σ] [Storable (Except ε (List α)) σ] {leader : Timed σ ε α} {error : ε}
    (settles : ∀ member ∈ members,
      Settles member.future member.outcome member.duration member.jobs)
    (leads : Timed.Leads (fun outcome => ∃ error, outcome = .error error) members index leader)
    (fails : leader.outcome = .error error) :
    SettlesAmid Parallel.all members (.error error) leader.duration (members.map Timed.jobs).sum
      (longest (members.map Timed.duration)) := by
  refine Timed.Leads.joint (fun _ won => Parallel.Idle.record_if _ won)
    (fun _ nonempty => Parallel.all_eq nonempty) settles
    (leads.congr fun outcome => (exists_valueOrEnd_eq_inr outcome).symm) ?_
  rw [fails]
  rfl

def timeoutOnly (delay : Nat) (error : ε) (futures : List (Future σ ε α)) : Future σ ε α :=
  (futures.headD .never).timeout delay error

theorem Timed.Leads.timeout [Storable (Except ε α) σ] {member leader : Timed σ ε α} {delay : Nat}
    {error : ε} (settles : Settles member.future member.outcome member.duration member.jobs)
    (leads : Timed.Leads (fun _ => True)
      [member, ⟨.settledAfter (.error error) delay, .error error, delay, 1⟩] index leader) :
    SettlesAmid (timeoutOnly delay error) [member] leader.outcome leader.duration (member.jobs + 1)
      (max member.duration delay) := by
  have form : ∀ futures : List (Future σ ε α), futures.length = [member].length →
      timeoutOnly delay error futures =
        Parallel.race (futures ++ [.settledAfter (.error error) delay]) := by
    intro futures size
    obtain ⟨future, rfl⟩ := List.length_eq_one_iff.mp size
    rfl
  have entrance := entrance_concat ⟨.settledAfter (.error error) delay, .error error, delay, 1⟩
    (.settledAfter (.error error) delay) (fun impatient => reports_submit impatient _ _) [member]
  have whole := entrance.race form
    (fun other listed => (List.mem_singleton.mp listed) ▸ settles) (List.cons_ne_nil _ _) leads
  simpa only [List.singleton_append, List.map_cons, List.map_nil, List.sum_cons, List.sum_nil,
    Nat.add_zero, longest, List.foldr_cons, List.foldr_nil, Nat.max_zero] using whole

end Combined

/-- Of futures that do not race within, it is the clock that decides. Whoever settles first alone also
wins the race, the first success wins where one success is needed, the first failure where every success
is needed, and a timeout is won by the future or by the delay, whichever is shorter. The others are not
stopped: when the loop has been drained, all the jobs have been run that the futures take alone, with two
for each that enters the race for the first outcome and one for the delay of a timeout, the time is that
of the last to settle, and every future has come to what it comes to alone, at its own time. -/
theorem races_decided_by_time [Storable (Except ε α) σ] [Storable ε σ] [Storable α σ]
    [Storable (Except (NoWinner ε) α) σ] [Storable (Except ε (List α)) σ]
    [Storable (Except ε α × Nat) σ] {members : List (Timed σ ε α)}
    (built : ∀ member ∈ members, ∃ possible, Built Leaves.none False member.future possible)
    (alone : ∀ member ∈ members,
      member.future.SettlesAlone member.outcome member.duration member.jobs) :
    let jobs := (members.map Timed.jobs).sum
    let span := longest (members.map Timed.duration)
    (∀ index winner, Timed.Leads (fun _ => True) members index winner →
      SettlesAmid Parallel.firstSettled members (winner.outcome.mapError .failed) winner.duration
        (jobs + 2 * members.length) span) ∧
    (∀ index winner value, winner.outcome = .ok value →
      Timed.Leads (fun outcome => ∃ value, outcome = .ok value) members index winner →
        SettlesAmid Parallel.any members (.ok value) winner.duration jobs span) ∧
    (∀ index winner error, winner.outcome = .error error →
      Timed.Leads (fun outcome => ∃ error, outcome = .error error) members index winner →
        SettlesAmid Parallel.all members (.error error) winner.duration jobs span) ∧
    ∀ member ∈ members, ∀ delay error,
      (member.duration < delay → SettlesAmid (timeoutOnly delay error) [member] member.outcome
        member.duration (member.jobs + 1) (max member.duration delay)) ∧
      (delay < member.duration → SettlesAmid (timeoutOnly delay error) [member] (.error error) delay
        (member.jobs + 1) (max member.duration delay)) := by
  have settles : ∀ member ∈ members,
      Settles member.future member.outcome member.duration member.jobs := by
    intro member listed
    obtain ⟨possible, built⟩ := built member listed
    exact built.settles_of_alone (alone member listed)
  intro jobs span
  refine ⟨fun index winner leads => ?_, fun index winner value succeeds leads => ?_,
    fun index winner error fails leads => ?_,
    fun member listed delay error => ⟨fun early => ?_, fun early => ?_⟩⟩
  · have count : (members.map fun member => 1 + member.jobs + 1).sum = jobs + 2 * members.length := by
      simp only [jobs, List.sum_map_add, List.map_const', List.sum_replicate_nat]
      omega
    rw [← count]
    exact leads.firstSettled settles
  · exact leads.any settles succeeds
  · exact leads.all settles fails
  · exact (Timed.leads_left early).timeout (settles member listed)
  · exact (Timed.leads_right early).timeout (settles member listed)

abbrev Kept (ε α : Type) : Type :=
  Except ε α ⊕ ε ⊕ α ⊕ Except (NoWinner ε) α ⊕ Except ε (List α) ⊕ Except ε α × Nat

/-- A success is overtaken by a failure and by the second half of a sequence. -/
theorem races_decided_by_time_overtaken :
    let slow : Timed (Kept String Nat) String Nat := ⟨.succeedAfter 7 30, .ok 7, 30, 1⟩
    let failing : Timed (Kept String Nat) String Nat :=
      ⟨.settledAfter (.error "x") 10, .error "x", 10, 1⟩
    let chained : Timed (Kept String Nat) String Nat :=
      ⟨(Future.succeedAfter 1 15).bind fun n => .succeedAfter (n + 1) 5, .ok 2, 20, 3⟩
    let members := [slow, failing, chained]
    SettlesAmid Parallel.firstSettled members (.error (.failed "x")) 10 11 30 ∧
      SettlesAmid Parallel.any members (.ok 2) 20 5 30 ∧
      SettlesAmid Parallel.all members (.error "x") 10 5 30 ∧
      SettlesAmid (timeoutOnly 25 "late") [chained] (.ok 2) 20 4 25 ∧
      SettlesAmid (timeoutOnly 12 "late") [chained] (.error "late") 12 4 20 := by
  intro slow failing chained members
  have each : ∀ member ∈ [slow, failing, chained],
      (∃ possible, Built Leaves.none False member.future possible) ∧
        Settles member.future member.outcome member.duration member.jobs := by
    intro member listed
    simp only [List.mem_cons, List.not_mem_nil, or_false] at listed
    rcases listed with rfl | rfl | rfl
    · exact ⟨⟨fun _ => True, .settledAfter 30 trivial⟩, .succeedAfter 7 30⟩
    · exact ⟨⟨fun _ => True, .settledAfter 10 trivial⟩, .settledAfter _ 10⟩
    · have first : Built Leaves.none False
          (Future.succeedAfter 1 15 : Future (Kept String Nat) String Nat) fun _ => True :=
        .settledAfter 15 trivial
      have whole : Settles chained.future (.ok 2) (15 + 5) (1 + 1 + 1) :=
        Settles.bind_ok (.succeedAfter 1 15) (.succeedAfter 2 5)
      exact ⟨⟨fun _ => True, first.bind (fun _ _ => .settledAfter 5 trivial) fun _ _ => trivial⟩, whole⟩
  obtain ⟨first, any, all, timeout⟩ := races_decided_by_time
    (fun member listed => (each member listed).1) fun member listed => (each member listed).2.alone
  have earliest : Timed.Leads (fun _ => True) [slow, failing, chained] 1 failing := by
    refine ⟨rfl, trivial, fun other rival found different _ => ?_⟩
    match other, found, different with
    | 0, found, _ | 2, found, _ => exact Option.some.inj found ▸ by decide
    | 1, _, same => exact absurd rfl same
  have succeeds : Timed.Leads (fun outcome => ∃ value, outcome = .ok value) [slow, failing, chained] 2
      chained := by
    refine ⟨rfl, ⟨2, rfl⟩, fun other rival found different fits => ?_⟩
    match other, found, different with
    | 0, found, _ => exact Option.some.inj found ▸ by decide
    | 1, found, _ =>
      obtain ⟨value, ok⟩ := fits
      obtain rfl := Option.some.inj found
      exact absurd ok (by simp [failing])
    | 2, _, same => exact absurd rfl same
  have fails : Timed.Leads (fun outcome => ∃ error, outcome = .error error) [slow, failing, chained] 1
      failing := by
    refine ⟨rfl, ⟨"x", rfl⟩, fun other rival found different fits => ?_⟩
    match other, found, different with
    | 0, found, _ | 2, found, _ =>
      obtain ⟨error, wrong⟩ := fits
      obtain rfl := Option.some.inj found
      exact absurd wrong (by simp [slow, chained])
    | 1, _, same => exact absurd rfl same
  have late := timeout chained (by simp)
  exact ⟨first 1 failing earliest, any 2 chained 2 rfl succeeds, all 1 failing "x" rfl fails,
    (late 25 "late").1 (by decide), (late 12 "late").2 (by decide)⟩

end Deferred.Future
