import Deferred.Proofs.Debt.Noted
import Deferred.Proofs.Future.Adequacy

/-! Futures that enter a group together, in which each goes its own way. What they settle on is up to the
group; that nobody is stopped is not. Once the loop has been drained, all of them have come to what they
come to alone, at their own time. -/

namespace Deferred.Future

variable {σ ε ε' δ α β γ : Type}

/-- Members that are put together settle on a common outcome after some time, on any loop where nothing
else is to be done, however it is configured and whatever it has counted towards the next periodic
yield. Nobody is stopped by that: to drain the loop afterwards takes all the jobs that are left, until
some later time. If each member notes what it comes to, and when, the notes are complete then. -/
def SettlesAmid [Storable (Except ε' β) σ] [Storable (Except ε α × Nat) σ]
    (combine : List (Future σ ε α) → Future σ ε' β) (members : List (Timed σ ε α))
    (outcome : Except ε' β) (duration jobs span : Nat) : Prop :=
  ∀ bound > 2 * jobs, ∀ loop : Loop σ, loop.Vacant →
    (∃ (ran rest : Nat) (after last : Loop σ),
      loop.waitFor bound (combine (members.map Timed.future)) = some ⟨some outcome, ran, after⟩ ∧
        after.clock = loop.clock + duration ∧ after.drain bound = some (rest, last) ∧
        ran + rest = jobs ∧ last.Vacant ∧ last.clock = loop.clock + span) ∧
    ∃ (ran rest : Nat) (after last : Loop σ),
      (loop.gather (.ofSize members.length)).waitFor bound
          (combine ((members.map Timed.future).mapIdx (noted loop.groups.size))) =
        some ⟨some outcome, ran, after⟩ ∧
        after.clock = loop.clock + duration ∧ after.drain bound = some (rest, last) ∧ last.Vacant ∧
        (last.group loop.groups.size).slots =
          members.map fun member => some (store (member.outcome, loop.clock + member.duration))

def Stand (setting : Setting) (members : List (Timed σ ε α)) (futures : List (Future σ ε α)) : Prop :=
  futures.length = members.length ∧ ∀ (index : Nat) (future : Future σ ε α),
    futures[index]? = some future → future.Keeps setting (memberPromise members index)

section Stand

variable {setting : Setting} {members : List (Timed σ ε α)}

theorem stand_members (simple : ¬setting.nested)
    (settles : ∀ member ∈ members,
      Settles member.future member.outcome member.duration member.jobs) :
    Stand setting members (members.map Timed.future) :=
  ⟨List.length_map _, keeps_among fun member inside =>
    (settles member inside).delivers 0 setting simple (Nat.zero_le _)⟩

theorem Stand.noted [Storable (Except ε α × Nat) σ] {futures : List (Future σ ε α)} {group : Nat}
    (stand : Stand setting members futures) (common : setting.common group) :
    Stand setting members (futures.mapIdx (Future.noted group)) := by
  refine ⟨List.length_mapIdx.trans stand.1, fun index future found => ?_⟩
  rw [List.getElem?_mapIdx, Option.map_eq_some_iff] at found
  obtain ⟨plain, found, rfl⟩ := found
  exact (stand.2 index plain found).noted common index

end Stand

/-- What becomes of members as they enter a race: each keeps a promise of its own there, and pays what
it pays on its way. Others may join them, who pay nothing. -/
structure Entrance (enter : List (Future σ ε α) → List (Future σ δ γ)) (members : List (Timed σ ε α))
    (rivals : List (Timed σ δ γ)) : Prop where
  all : members.length ≤ rivals.length
  stand : ∀ {setting : Setting} {futures}, ¬setting.nested → Stand setting members futures →
    Stand setting rivals (enter futures)
  reports : ∀ {setting : Setting} {world : World σ} {futures : List (Future σ ε α)} {now : Nat}
    {debts : Nat → Multiset Debt}, ¬setting.patient → futures.length = members.length →
      (∀ (index : Nat) (future : Future σ ε α), futures[index]? = some future →
        future.Reports setting world (debts index) now (memberPromise members index).jobs) →
      ∀ (index : Nat) (future : Future σ δ γ), (enter futures)[index]? = some future →
        future.Reports setting world (if index < members.length then debts index else 0) now
          (memberPromise rivals index).jobs

theorem entrance_id (members : List (Timed σ ε α)) : Entrance id members members where
  all := le_refl _
  stand _ stand := stand
  reports _ length reports index future found := by
    have inside := length ▸ (List.getElem?_eq_some_iff.mp found).1
    rw [if_pos inside]
    exact reports index future found

def Timed.mapError (f : ε → ε') (member : Timed σ ε α) : Timed σ ε' α :=
  ⟨member.future.mapError f, member.outcome.mapError f, member.duration, 1 + member.jobs + 1⟩

theorem Keeps.mapError {setting : Setting} {future : Future σ ε α} {outcome : Except ε α}
    {duration jobs : Nat} (keeps : future.Keeps setting (.exactly outcome duration jobs)) (f : ε → ε') :
    (future.mapError f).Keeps setting (.exactly (outcome.mapError f) duration (1 + jobs + 1)) := by
  cases outcome with
  | ok value =>
    have whole : (future.mapError f).Keeps setting
        (.exactly (.ok value) (duration + 0) (1 + jobs + 1)) :=
      keeps.bindOutcome_exactly (keeps_settled (.ok value))
    exact whole
  | error error =>
    have whole : (future.mapError f).Keeps setting
        (.exactly (.error (f error)) (duration + 0) (1 + jobs + 1)) :=
      keeps.bindOutcome_exactly (keeps_settled (.error (f error)))
    exact whole

theorem entrance_mapError (members : List (Timed σ ε α)) (f : ε → ε') :
    Entrance (List.map (Future.mapError · f)) members (members.map (Timed.mapError f)) where
  all := ge_of_eq (List.length_map _)
  stand := by
    intro setting futures _ stand
    refine ⟨by simp [stand.1], fun index future found => ?_⟩
    rw [List.getElem?_map, Option.map_eq_some_iff] at found
    obtain ⟨plain, found, rfl⟩ := found
    have inside := stand.1 ▸ (List.getElem?_eq_some_iff.mp found).1
    have keeps := stand.2 index plain found
    rw [memberPromise_eq inside] at keeps
    rw [memberPromise_eq (by simpa using inside), List.getElem_map]
    exact keeps.mapError f
  reports := by
    intro setting world futures now debts impatient length reports index future found
    rw [List.getElem?_map, Option.map_eq_some_iff] at found
    obtain ⟨plain, found, rfl⟩ := found
    have inside := length ▸ (List.getElem?_eq_some_iff.mp found).1
    have paid := (reports index plain found).mapError impatient f
    rw [memberPromise_eq inside] at paid
    rw [if_pos inside, memberPromise_eq (by simpa using inside), List.getElem_map]
    simpa [Timed.mapError, Promise.exactly] using paid

theorem entrance_concat (other : Timed σ ε α)
    (settles : Settles other.future other.outcome other.duration other.jobs)
    (reports : ∀ {setting : Setting} {world : World σ} {now : Nat}, ¬setting.patient →
      other.future.Reports setting world 0 now other.jobs) (members : List (Timed σ ε α)) :
    Entrance (· ++ [other.future]) members (members ++ [other]) where
  all := by simp
  stand := by
    intro setting futures simple stand
    refine ⟨by simp [stand.1], fun index future found => ?_⟩
    rcases Nat.lt_or_ge index futures.length with inside | outside
    · rw [List.getElem?_append_left inside] at found
      rw [memberPromise, promiseAmong, List.getElem?_append_left (stand.1 ▸ inside)]
      exact stand.2 index future found
    · rw [List.getElem?_append_right outside, List.getElem?_singleton] at found
      split at found
      next last =>
        obtain rfl := Option.some.inj found
        rw [memberPromise, promiseAmong, List.getElem?_append_right (stand.1 ▸ outside), ← stand.1, last]
        exact settles.delivers 0 setting simple (Nat.zero_le _)
      next => exact absurd found (by simp)
  reports := by
    intro setting world futures now debts impatient length each index future found
    rcases Nat.lt_or_ge index futures.length with inside | outside
    · rw [List.getElem?_append_left inside] at found
      rw [if_pos (length ▸ inside), memberPromise, promiseAmong, List.getElem?_append_left (length ▸ inside)]
      exact each index future found
    · rw [List.getElem?_append_right outside, List.getElem?_singleton] at found
      split at found
      next last =>
        obtain rfl := Option.some.inj found
        rw [if_neg (Nat.not_lt.mpr (length ▸ outside)), memberPromise, promiseAmong,
          List.getElem?_append_right (length ▸ outside), ← length, last]
        exact reports impatient
      next => exact absurd found (by simp)

theorem bind_debts (group : Nat) {size total : Nat} (all : size ≤ total) :
    Multiset.bind (List.range' 0 total) (fun index =>
      if index < size then ({⟨group, index⟩} : Multiset Debt) else 0) =
        Debt.among group (Finset.range size) := by
  obtain ⟨more, rfl⟩ := Nat.exists_eq_add_of_le all
  have first : ∀ index ∈ (List.range' 0 size : Multiset Nat),
      (if index < size then ({⟨group, index⟩} : Multiset Debt) else 0) = {⟨group, index⟩} := by
    intro index member
    exact if_pos (by simpa using member)
  have rest : ∀ index ∈ (List.range' size more : Multiset Nat),
      (if index < size then ({⟨group, index⟩} : Multiset Debt) else 0) = 0 := by
    intro index member
    refine if_neg ?_
    have bounds : size ≤ index ∧ index < size + more := by simpa using member
    omega
  rw [← List.range'_append_1, Nat.zero_add, ← Multiset.coe_add, Multiset.add_bind,
    Multiset.bind_congr first, Multiset.bind_congr rest, Multiset.bind_zero, add_zero,
    Multiset.bind_singleton, ← List.range_eq_range']
  rfl

theorem slots_of_filling [Storable (Except ε α × Nat) σ] {members : List (Timed σ ε α)}
    {content : Group σ} {start now : Nat}
    (filling : content.Filling members.length start (fun index value delay => ∃ outcome,
      (memberPromise members index).may outcome delay ∧ value = store (outcome, start + delay)) now ∅) :
    content.slots = members.map fun member => some (store (member.outcome, start + member.duration)) := by
  refine List.ext_getElem? fun index => ?_
  rcases Nat.lt_or_ge index members.length with inside | outside
  · obtain ⟨_, delay, ⟨outcome, may, rfl⟩, _, found⟩ :=
      filling.filled index inside (Finset.notMem_empty index)
    rw [memberPromise_eq inside] at may
    obtain ⟨rfl, rfl⟩ := may
    rw [found, List.getElem?_map, List.getElem?_eq_getElem inside, Option.map_some]
  · rw [List.getElem?_eq_none (filling.length ▸ outside), List.getElem?_eq_none (by simpa)]

section Settles

variable {members : List (Timed σ ε α)} {rivals : List (Timed σ δ γ)}
  {enter : List (Future σ ε α) → List (Future σ δ γ)} {content : Group σ}
  {arrive : (Except ε' β → Script σ) → Nat → Nat → Except δ γ → Script σ} {outcome : Except ε' β}
  {duration : Nat}

/-- What becomes of futures side by side, of which it is known what they settle on together. -/
theorem Stand.settles [Storable (Except ε' β) σ] {futures : List (Future σ δ γ)}
    (stand : ∀ {setting : Setting}, ¬setting.nested → Stand setting rivals futures)
    (passing : Parallel.Passing arrive) (nonempty : rivals ≠ []) {bound : Nat}
    (keeps : (Parallel.sideBySide content arrive futures).Keeps (.racing bound fun _ => False)
      (.exactly outcome duration (rivals.map Timed.jobs).sum))
    (enough : 2 * (rivals.map Timed.jobs).sum < bound) {loop : Loop σ} (vacant : loop.Vacant) :
    ∃ (ran rest : Nat) (after last : Loop σ),
      loop.waitFor bound (Parallel.sideBySide content arrive futures) =
        some ⟨some outcome, ran, after⟩ ∧
      after.clock = loop.clock + duration ∧ after.drain bound = some (rest, last) ∧
      ran + rest = (rivals.map Timed.jobs).sum ∧ last.Vacant ∧
      last.clock = loop.clock + longest (rivals.map Timed.duration) := by
  have size : futures.length = rivals.length := (@stand (.waiting bound 0) not_false).1
  -- One run, kept in two sets of books: of what is promised together, and of who attends.
  obtain ⟨done, _, settled, _, waited, clock, _⟩ :=
    keeps.driven not_false False.elim (fun _ => False.elim) vacant enough
  obtain ⟨_, ran, rest, after, last, total, waited', drained, empty, late, came⟩ :=
    @Parallel.waitFor_attended _ _ _ _ _ _ futures (memberPromise rivals) content arrive bound
      (rivals.map Timed.jobs).sum (longest (rivals.map Timed.duration)) loop passing
      (stand not_false).2
      (fun index inside => by
        rw [memberPromise_eq (size ▸ inside)]
        exact Nat.cast_le.mpr (le_longest (List.mem_map_of_mem (List.getElem_mem _))))
      (by rw [size]; exact jobsOf_memberPromise rivals) vacant enough
  obtain ⟨same, rfl, rfl⟩ := Waited.mk.inj (Option.some.inj (waited.symm.trans waited'))
  subst same
  -- The loop is not done before the last of them, and the books say that it is done by then.
  have each : ∀ rival ∈ rivals, loop.clock + rival.duration ≤ last.clock := by
    intro rival listed
    obtain ⟨index, inside, rfl⟩ := List.mem_iff_getElem.mp listed
    obtain ⟨outcome, delay, may, past⟩ := came index (size ▸ inside)
    rw [memberPromise_eq inside] at may
    exact may.2 ▸ past
  refine ⟨done, rest, _, last, waited, clock, drained, total, empty, le_antisymm late ?_⟩
  obtain ⟨first, listed⟩ := List.exists_mem_of_ne_nil rivals nonempty
  have start := each first listed
  have all : longest (rivals.map Timed.duration) ≤ last.clock - loop.clock := by
    refine longest_le fun duration taken => ?_
    obtain ⟨rival, within, rfl⟩ := List.mem_map.mp taken
    have past := each rival within
    omega
  omega

theorem Entrance.pays [Storable (Except ε α × Nat) σ] (entrance : Entrance enter members rivals)
    (passing : Parallel.Passing arrive)
    (settles : ∀ member ∈ members,
      Settles member.future member.outcome member.duration member.jobs)
    {world : World σ} {bound group start : Nat}
    (known : world[group]? = some (.noting (memberPromise members) members.length start))
    {next : Except ε' β → Script σ}
    (pays : ∀ further time outcome, world <+: further →
      Pays (.racing bound fun _ => False) further 0 time 0 (next outcome)) :
    Pays (.racing bound fun _ => False) world
      ((Protocol.noting (memberPromise members) members.length start : Protocol σ).debts group) start
      ((rivals.map Timed.jobs).sum : Nat)
      ((Parallel.sideBySide content arrive
        (enter ((members.map Timed.future).mapIdx (noted group)))).run next) := by
  have plain : Stand (.racing bound fun _ => False) members (members.map Timed.future) :=
    stand_members not_false settles
  have aware : Stand (.racing bound fun _ => True) members (members.map Timed.future) :=
    stand_members not_false settles
  have size : ((members.map Timed.future).mapIdx (noted group)).length = members.length :=
    List.length_mapIdx.trans plain.1
  have entered : (enter ((members.map Timed.future).mapIdx (noted group))).length = rivals.length :=
    (entrance.stand not_false (aware.noted trivial)).1
  have timely : ∀ index, ∀ debt ∈ (if index < members.length then ({⟨group, index⟩} : Multiset Debt)
      else 0), (start : ℕ∞) ≤ world.latest debt := by
    intro index debt owed
    split at owed
    next =>
      obtain rfl := Multiset.mem_singleton.mp owed
      rw [World.latest_eq known]
      exact le_self_add
    next => exact absurd owed (Multiset.notMem_zero debt)
  have reports : ∀ (index : Nat) (future : Future σ ε α),
      ((members.map Timed.future).mapIdx (noted group))[index]? = some future →
        future.Reports (.racing bound fun _ => False) world {⟨group, index⟩} start
          (memberPromise members index).jobs := by
    intro index future found
    rw [List.getElem?_mapIdx, Option.map_eq_some_iff] at found
    obtain ⟨unnoted, found, rfl⟩ := found
    exact reports_noted known (plain.2 index unnoted found)
  have paid := Parallel.pays_sideBySide content not_false not_false passing timely
    (entrance.reports not_false size reports) pays
  have count : ((List.range' 0 rivals.length).map fun index => (memberPromise rivals index).jobs).sum =
      ((rivals.map Timed.jobs).sum : Nat) := jobsOf_memberPromise rivals
  rw [entered, bind_debts group entrance.all, count] at paid
  exact paid

variable (content) in
/-- Notes that members make on their way into a race are complete once the loop has been drained. -/
theorem Entrance.notes [Storable (Except ε' β) σ] [Storable (Except ε α × Nat) σ]
    (entrance : Entrance enter members rivals) (passing : Parallel.Passing arrive)
    (settles : ∀ member ∈ members,
      Settles member.future member.outcome member.duration member.jobs) {bound : Nat}
    (enough : 2 * (rivals.map Timed.jobs).sum < bound) {loop : Loop σ} (vacant : loop.Vacant) :
    ∃ (waited : Waited σ ε' β) (rest : Nat) (last : Loop σ),
      (loop.gather (.ofSize members.length)).waitFor bound (Parallel.sideBySide content arrive
        (enter ((members.map Timed.future).mapIdx (noted loop.groups.size)))) = some waited ∧
      waited.loop.drain bound = some (rest, last) ∧ last.Vacant ∧
      (last.group loop.groups.size).slots =
        members.map fun member => some (store (member.outcome, loop.clock + member.duration)) := by
  obtain ⟨waited, rest, last, run, drained, empty, filling⟩ :=
    Parallel.waitFor_noted (fun _ known _ pays => entrance.pays passing settles known pays) vacant enough
  exact ⟨waited, rest, last, run, drained, empty, slots_of_filling filling⟩

/-- What members that enter a race settle on together, and that all of them come to an end. -/
theorem Entrance.settlesAmid [Storable (Except ε' β) σ] [Storable (Except ε α × Nat) σ]
    (entrance : Entrance enter members rivals) (passing : Parallel.Passing arrive)
    {combine : List (Future σ ε α) → Future σ ε' β}
    (form : ∀ futures, futures.length = members.length →
      combine futures = Parallel.sideBySide content arrive (enter futures))
    (settles : ∀ member ∈ members,
      Settles member.future member.outcome member.duration member.jobs) (nonempty : members ≠ [])
    (keeps : ∀ {setting : Setting} {futures}, ¬setting.nested → ¬setting.patient →
      Stand setting rivals futures → (Parallel.sideBySide content arrive futures).Keeps setting
        (.exactly outcome duration (rivals.map Timed.jobs).sum)) :
    SettlesAmid combine members outcome duration (rivals.map Timed.jobs).sum
      (longest (rivals.map Timed.duration)) := by
  intro bound enough loop vacant
  have plain : ∀ {setting : Setting}, ¬setting.nested →
      Stand setting members (members.map Timed.future) := fun simple => stand_members simple settles
  have someone : rivals ≠ [] := by
    have all := entrance.all
    have some := List.length_pos_of_ne_nil nonempty
    exact List.ne_nil_of_length_pos (by omega)
  constructor
  · rw [form _ (List.length_map _)]
    exact Stand.settles (fun simple => entrance.stand simple (plain simple)) passing someone
      (keeps not_false not_false (entrance.stand not_false (plain not_false))) enough vacant
  · have size : ((members.map Timed.future).mapIdx (noted loop.groups.size)).length = members.length :=
      List.length_mapIdx.trans (List.length_map _)
    have own : ∀ number, number = loop.groups.size →
        number < (loop.gather (.ofSize members.length)).groups.size := by
      rintro number rfl
      simp [Loop.gather]
    have empty : (loop.gather (.ofSize members.length)).Vacant := vacant.gather _
    have aware : Stand (.racing bound (· = loop.groups.size)) members (members.map Timed.future) :=
      plain not_false
    rw [form _ size]
    -- Where the notes are nobody's they do not disturb the promise; where they are owed they are made.
    obtain ⟨ran, _, _, _, run, clock, _⟩ := (keeps not_false not_false
      (entrance.stand not_false (aware.noted rfl))).driven not_false False.elim own empty enough
    obtain ⟨waited, rest, last, run', drained, vacant', notes⟩ :=
      entrance.notes content passing settles enough vacant
    obtain rfl := Option.some.inj (run.symm.trans run')
    exact ⟨ran, rest, _, last, run, clock, drained, vacant', notes⟩

end Settles

end Deferred.Future
