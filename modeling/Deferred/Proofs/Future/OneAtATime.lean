import Deferred.Proofs.Future.InTurn
import Deferred.Proofs.Future.Once
import Deferred.Proofs.Twin.Lockstep

/-! Futures that run one after another really do. Whatever else is done on the loop, at most one of them is started
and has not settled yet, and what is handed on is decided by the outcomes of those that have run. Each of them
notes in a diary what it does, which nobody else can tell: the run is compared with one without a diary. -/

namespace Deferred

variable {σ ε α β : Type}

open Stage (course)

namespace Sequential

def Undecided (verdict : Verdict ε α β) (outcomes : List (Except ε α)) : Prop :=
  ∀ earlier, earlier <+: outcomes → earlier ≠ outcomes → verdict earlier = none

/-- What a diary tells of futures that run one at a time: some have run, in their order, without deciding what is
handed on before the last of them. Then perhaps the next one has been started, if nothing is decided yet, or what is
decided has been handed on. -/
inductive OneAtATime (verdict : Verdict ε α β) : List (Stage ε α β) → Prop
  | between {outcomes : List (Except ε α)} (undecided : Undecided verdict outcomes) :
      OneAtATime verdict (course outcomes)
  | running {outcomes : List (Except ε α)} (undecided : Undecided verdict outcomes)
      (more : verdict outcomes = none) : OneAtATime verdict (course outcomes ++ [.started outcomes.length])
  | finished {outcomes : List (Except ε α)} {result : Except ε β} (undecided : Undecided verdict outcomes)
      (decided : verdict outcomes = some result) : OneAtATime verdict (course outcomes ++ [.handedOn result])

section Diary

variable {verdict : Verdict ε α β} {outcomes : List (Except ε α)} {entries earlier : List (Stage ε α β)}

theorem Undecided.nil : Undecided verdict [] :=
  fun _ within shorter => absurd (List.prefix_nil.mp within) shorter

theorem Undecided.concat (undecided : Undecided verdict outcomes) (more : verdict outcomes = none)
    (outcome : Except ε α) : Undecided verdict (outcomes ++ [outcome]) := by
  intro earlier within shorter
  have within' : earlier <+: outcomes := (List.prefix_concat_iff.mp within).resolve_left shorter
  by_cases same : earlier = outcomes
  · rw [same, more]
  · exact undecided earlier within' same

theorem Undecided.of_concat {outcome : Except ε α} (undecided : Undecided verdict (outcomes ++ [outcome])) :
    Undecided verdict outcomes ∧ verdict outcomes = none := by
  have longer : ∀ {earlier}, earlier <+: outcomes → earlier ≠ outcomes ++ [outcome] := by
    rintro earlier within rfl
    have := within.length_le
    rw [List.length_append, List.length_singleton] at this
    omega
  constructor
  · intro earlier within _
    exact undecided earlier (within.trans (List.prefix_append ..)) (longer within)
  · exact undecided outcomes (List.prefix_append ..) (longer (List.prefix_refl _))

namespace OneAtATime

theorem nil : OneAtATime verdict [] :=
  between Undecided.nil

theorem of_prefix_course (undecided : Undecided verdict outcomes) (within : earlier <+: course outcomes) :
    OneAtATime verdict earlier := by
  induction outcomes using List.reverseRecOn with
  | nil =>
    obtain rfl := List.prefix_nil.mp within
    exact nil
  | append_singleton outcomes outcome ih =>
    obtain ⟨before, more⟩ := undecided.of_concat
    rw [Stage.course_concat] at within
    rcases List.prefix_concat_iff.mp within with rfl | within
    · rw [← Stage.course_concat]
      exact between undecided
    · rcases List.prefix_concat_iff.mp within with rfl | within
      · exact running before more
      · exact ih before within

theorem of_prefix (told : OneAtATime verdict entries) (within : earlier <+: entries) :
    OneAtATime verdict earlier := by
  cases told with
  | between undecided => exact of_prefix_course undecided within
  | running undecided more =>
    rcases List.prefix_concat_iff.mp within with rfl | within
    · exact running undecided more
    · exact of_prefix_course undecided within
  | finished undecided decided =>
    rcases List.prefix_concat_iff.mp within with rfl | within
    · exact finished undecided decided
    · exact of_prefix_course undecided within

theorem countP_course (outcomes : List (Except ε α)) :
    (course outcomes : List (Stage ε α β)).countP Stage.isStart = outcomes.length ∧
      (course outcomes : List (Stage ε α β)).countP Stage.isEnd = outcomes.length := by
  induction outcomes using List.reverseRecOn with
  | nil => exact ⟨rfl, rfl⟩
  | append_singleton outcomes outcome ih =>
    rw [Stage.course_concat]
    simp only [List.countP_append, ih, List.length_append, List.length_singleton]
    exact ⟨rfl, rfl⟩

theorem one_running (told : OneAtATime verdict entries) :
    entries.countP Stage.isStart ≤ entries.countP Stage.isEnd + 1 := by
  cases told with
  | @between outcomes =>
    rw [(countP_course outcomes).1, (countP_course outcomes).2]
    exact Nat.le_succ _
  | @running outcomes =>
    rw [List.countP_append, List.countP_append, (countP_course outcomes).1, (countP_course outcomes).2]
    exact le_refl _
  | @finished outcomes =>
    rw [List.countP_append, List.countP_append, (countP_course outcomes).1, (countP_course outcomes).2]
    exact Nat.le_succ _

theorem settled_before (told : OneAtATime verdict entries) {before after : List (Stage ε α β)} {index : Nat}
    (same : entries = before ++ .started (index + 1) :: after) : ∃ outcome, .settled index outcome ∈ before := by
  have upTo : OneAtATime verdict (before ++ [.started (index + 1)]) := by
    apply told.of_prefix
    rw [same]
    exact ⟨after, by simp⟩
  generalize ends : before ++ [.started (index + 1)] = told' at upTo
  cases upTo with
  | @between outcomes =>
    rcases List.eq_nil_or_concat outcomes with rfl | ⟨earlier, outcome, rfl⟩
    · exact absurd ends (by simp [course])
    · rw [List.concat_eq_append, Stage.course_concat] at ends
      exact absurd (List.append_inj' ends rfl).2 (by simp)
  | @running outcomes =>
    obtain ⟨rfl, starts⟩ := List.append_inj' ends rfl
    have number : index + 1 = outcomes.length := Stage.started.inj (List.cons.inj starts).1
    have inside : index < outcomes.length := by omega
    exact ⟨outcomes[index], Stage.settled_mem_course (List.getElem?_eq_getElem inside)⟩
  | finished => exact absurd (List.append_inj' ends rfl).2 (by simp)

end OneAtATime

end Diary

section Observed

variable [Storable (Stage ε α β) σ] {futures : List (Future σ ε α)} {each : Except ε α → Prop}
  {verdict : Verdict ε α β} {seen : List (Except ε α)} {next : Except ε β → Script σ} {diary : Nat}

def observed (β : Type) [Storable (Stage ε α β) σ] (diary index : Nat) (future : Future σ ε α) : Future σ ε α :=
  ⟨fun next => note diary (.started index : Stage ε α β)
    (future.run fun outcome => note diary (.settled index outcome : Stage ε α β) (next outcome))⟩

def observedFrom (β : Type) [Storable (Stage ε α β) σ] (diary start : Nat) (futures : List (Future σ ε α)) :
    List (Future σ ε α) :=
  (futures.zipIdx start).map fun (future, index) => observed β diary index future

def concluded (α : Type) [Storable (Stage ε α β) σ] (diary : Nat) (next : Except ε β → Script σ)
    (result : Except ε β) : Script σ :=
  note diary (.handedOn result : Stage ε α β) (next result)

theorem length_observedFrom (diary start : Nat) (futures : List (Future σ ε α)) :
    (observedFrom β diary start futures).length = futures.length := by
  rw [observedFrom, List.length_map, List.length_zipIdx]

theorem observedFrom_cons (diary start : Nat) (future : Future σ ε α) (rest : List (Future σ ε α)) :
    observedFrom β diary start (future :: rest) =
      observed β diary start future :: observedFrom β diary (start + 1) rest :=
  rfl

variable {rules : List (Rule σ)} {book : List (Stage ε α β)}

theorem twin_concluded (known : rules[diary]? = some (.diary book (OneAtATime verdict) Stage.isResult))
    (undecided : Undecided verdict seen) {result : Except ε β} (decided : verdict seen = some result)
    (quiet : (next result).Uniform rules) :
    Twin rules {(diary, page book (course seen))} (concluded α diary next result)
      (Future.tallied diary next result) := by
  apply Twin.write known (.finished undecided decided) (fun content => .look (.put (.refl _)))
  · intro content
    rfl
  · have spared := quiet.spare {(diary, page book (course seen ++ [.handedOn result]))}
    rwa [zero_add] at spared

theorem twin_decided (known : rules[diary]? = some (.diary book (OneAtATime verdict) Stage.isResult))
    (undecided : Undecided verdict seen) {result : Except ε β} (decided : verdict seen = some result)
    (quiet : (next result).Uniform rules) {observed : List (Future σ ε α)} :
    Twin rules {(diary, page book (course seen))} ((inTurn verdict seen observed).run (concluded α diary next))
      ((inTurn verdict seen futures).run (Future.tallied diary next)) := by
  rw [inTurn_of_decided decided, inTurn_of_decided decided]
  exact .hand (twin_concluded known undecided decided quiet)

theorem twin_inTurn (uniform : ∀ future ∈ futures, future.Uniform each)
    (known : rules[diary]? = some (.diary book (OneAtATime verdict) Stage.isResult))
    (undecided : Undecided verdict seen)
    (quiet : ∀ later, rules <+: later → ∀ result, (next result).Uniform later) :
    Twin rules {(diary, page book (course seen))}
      ((inTurn verdict seen (observedFrom β diary seen.length futures)).run (concluded α diary next))
      ((inTurn verdict seen futures).run (Future.tallied diary next)) := by
  -- On the futures that have not been started; what has been noted so far are the outcomes seen by now.
  induction futures generalizing rules seen with
  | nil =>
    cases decided : verdict seen with
    | some result => exact twin_decided known undecided decided (quiet rules (List.prefix_refl _) result)
    | none =>
      simp only [observedFrom, List.zipIdx_nil, List.map_nil, inTurn, decided]
      exact .done
  | cons future rest ih =>
    cases decided : verdict seen with
    | some result => exact twin_decided known undecided decided (quiet rules (List.prefix_refl _) result)
    | none =>
      rw [observedFrom_cons, inTurn_of_undecided decided, inTurn_of_undecided decided]
      apply Twin.hand
      apply Twin.note known (.running undecided decided) rfl
      apply uniform future List.mem_cons_self
      intro later extended outcome _
      have known' := Twin.getElem?_extend extended known
      have undecided' := undecided.concat decided outcome
      apply Twin.note known' _ rfl
      · rw [← Stage.course_concat]
        have others := ih (fun other member => uniform other (List.mem_cons_of_mem _ member)) known' undecided'
          fun further extended' => quiet further (extended.trans extended')
        rwa [List.length_append, List.length_singleton] at others
      · rw [← Stage.course_concat]
        exact .between undecided'

end Observed

theorem exists_started (verdict : Verdict ε α β) (seen : List (Except ε α)) (futures : List (Future σ ε α))
    (next : Except ε β → Script σ) (host : Host σ) (loop : Loop σ) :
    ∃ started, ((inTurn verdict seen futures).run next).run host loop = some started := by
  cases decided : verdict seen with
  | some result =>
    rw [inTurn_of_decided decided]
    exact ⟨_, rfl⟩
  | none =>
    cases futures with
    | nil =>
      rw [inTurn, decided]
      exact ⟨_, rfl⟩
    | cons future rest =>
      rw [inTurn_of_undecided decided]
      exact ⟨_, rfl⟩

section Run

variable [Storable (Stage ε α β) σ] {futures : List (Future σ ε α)} {each : Except ε α → Prop}
  {verdict : Verdict ε α β} {loop : Loop σ}

structure Tells (verdict : Verdict ε α β) (entries : List (Stage ε α β)) : Prop where
  told : OneAtATime verdict entries
  one_running : entries.countP Stage.isStart ≤ entries.countP Stage.isEnd + 1
  settled_before : ∀ before index after, entries = before ++ .started (index + 1) :: after →
    ∃ outcome, .settled index outcome ∈ before

theorem OneAtATime.tells {entries : List (Stage ε α β)} (told : OneAtATime verdict entries) :
    Tells verdict entries :=
  ⟨told, told.one_running, fun _ _ _ => told.settled_before⟩

/-- Futures that are run with a diary, on a loop where other work waits, do so one at a time: whatever `next` does
with what is handed on, and whatever turns are made and other scripts run afterwards. Starting them is over at once.
A run without the diary, which only counts what is handed on, submits and starts the same jobs. If each of the
futures settles at some time, something has been handed on when nothing is left to be done. -/
def RunsOneAtATime (loop : Loop σ) (each : Except ε α → Prop) (futures : List (Future σ ε α))
    (whole : List (Future σ ε α) → Future σ ε β) (verdict : Verdict ε α β) : Prop :=
  ∀ next : Except ε β → Script σ, (∀ result, (next result).Discreet (· < loop.groups.size)) →
    ∀ bound depth : Nat, ∃ started : Loop σ,
      ((whole (observedFrom β loop.groups.size 0 futures)).run (concluded α loop.groups.size next)).run
        (Loop.hostAt bound depth) (loop.gather (.ofSize 0)) = some started ∧
      ∀ later, started.Attains bound loop.groups.size later →
        Tells verdict (later.diary loop.groups.size) ∧
        (∃ started' later', ((whole futures).run (Future.tallied loop.groups.size next)).run
            (Loop.hostAt bound depth) (loop.gather (.ofSize 0)) = some started' ∧
          started'.Attains bound loop.groups.size later' ∧ later.Alike later') ∧
        (loop.Punctual → (∀ future ∈ futures, Future.Built (.raw loop.groups.size) True future each) →
          later.next = .idle →
            ∃ result : Except ε β, Stage.handedOn result ∈ (later.diary loop.groups.size : List (Stage ε α β)))

/-- A run without a diary goes along with the one that has a diary. The book is chosen to be what that tells in the
end. -/
theorem exists_plain_run (uniform : ∀ future ∈ futures, future.Uniform each) (discreet : loop.Discreet)
    {next : Except ε β → Script σ} (quiet : ∀ result, (next result).Discreet (· < loop.groups.size))
    {bound depth : Nat} {started later : Loop σ}
    (ran : ((inTurn verdict [] (observedFrom β loop.groups.size 0 futures)).run
      (concluded α loop.groups.size next)).run (Loop.hostAt bound depth) (loop.gather (.ofSize 0)) = some started)
    (attained : started.Attains bound loop.groups.size later) :
    OneAtATime verdict (later.diary loop.groups.size) ∧
    ∃ started' later', ((inTurn verdict [] futures).run (Future.tallied loop.groups.size next)).run
        (Loop.hostAt bound depth) (loop.gather (.ofSize 0)) = some started' ∧
      started'.Attains bound loop.groups.size later' ∧ later.Alike later' ∧
      (later.next = .idle → later'.next = .idle) ∧
      Future.tally loop.groups.size later' =
        (later.diary loop.groups.size : List (Stage ε α β)).countP Stage.isResult := by
  obtain ⟨rules, known, shared, begun⟩ := discreet.keepDiary (later.diary loop.groups.size : List (Stage ε α β))
    (OneAtATime.nil : OneAtATime verdict []) Stage.isResult
  have twin := twin_inTurn uniform known Undecided.nil fun further extended result =>
    (quiet result).uniform fun number inside => Twin.getElem?_extend extended (shared number inside)
  have ends := twin.run (Loop.mirrors_hostAt bound depth) begun
  rw [List.length_nil, ran] at ends
  generalize ran' : ((inTurn verdict [] futures).run (Future.tallied loop.groups.size next)).run
    (Loop.hostAt bound depth) (loop.gather (.ofSize 0)) = result at ends
  cases ends with
  | some mirrorLater =>
    obtain ⟨middle, extended, mirror⟩ := mirrorLater
    obtain ⟨last, later', extended', attained', mirror⟩ := mirror.attains
      (fun number inside => Twin.getElem?_extend extended (shared number inside)) attained
    have known' := Twin.getElem?_extend (extended.trans extended') known
    obtain ⟨told, counted⟩ := mirror.diary_valid known'
    exact ⟨told, _, later', rfl, attained', mirror.alike, mirror.idle, counted⟩

theorem inTurn_runs_one_at_a_time (uniform : ∀ future ∈ futures, future.Uniform each) (discreet : loop.Discreet)
    (built : (∀ future ∈ futures, Future.Built (.raw loop.groups.size) True future each) →
      Future.Built (.raw loop.groups.size) True (inTurn verdict [] futures) fun _ => True) :
    RunsOneAtATime loop each futures (inTurn verdict []) verdict := by
  intro next quiet bound depth
  obtain ⟨started, ran⟩ := exists_started verdict [] (observedFrom β loop.groups.size 0 futures)
    (concluded α loop.groups.size next) (Loop.hostAt bound depth) (loop.gather (.ofSize 0))
  refine ⟨started, ran, fun later attained => ?_⟩
  obtain ⟨told, started', later', ran', attained', alike, idle', counted⟩ :=
    exists_plain_run uniform discreet quiet ran attained
  refine ⟨told.tells, ⟨started', later', ran', attained', alike⟩, fun punctual settle idle => ?_⟩
  rw [← Script.andThen_done (Future.run _ _)] at ran'
  have once := (built settle).counted (discreet.orderly punctual) (fun result => (quiet result).confined) .done ran'
  have reaches := attained'.mono fun _ => Script.Discreet.confined
  have called : Future.tally loop.groups.size later' = 1 := (once.2 later' reaches).2 (idle' idle)
  rw [counted] at called
  obtain ⟨entry, member, handed⟩ := List.countP_pos_iff.mp (called ▸ Nat.one_pos)
  cases entry with
  | handedOn result => exact ⟨result, member⟩
  | started | settled => cases handed

theorem RunsOneAtATime.of_eq {whole whole' : List (Future σ ε α) → Future σ ε β}
    (same : ∀ list : List (Future σ ε α), list.length = futures.length → whole list = whole' list)
    (runs : RunsOneAtATime loop each futures whole' verdict) : RunsOneAtATime loop each futures whole verdict := by
  intro next quiet bound depth
  rw [same (observedFrom β loop.groups.size 0 futures) (length_observedFrom ..), same futures rfl]
  exact runs next quiet bound depth

end Run

theorem everyOutcome_eq_some_iff {size : Nat} {outcomes : List (Except ε α)}
    {result : Except ε (List (Except ε α))} :
    everyOutcome size outcomes = some result ↔ outcomes.length = size ∧ result = .ok outcomes := by
  rw [everyOutcome]
  split
  next all => simp [all, eq_comm]
  next fewer => simp [fewer]

theorem eq_of_valuesOrFailure {size : Nat} {values : List α} {result : Except ε (List α)}
    (decided : valuesOrFailure size (values.map (.ok : α → Except ε α)) = some result) :
    values.length = size ∧ result = .ok values := by
  rw [valuesOrFailure_values] at decided
  split at decided
  next all => exact ⟨all, (Option.some.inj decided).symm⟩
  next => cases decided

/-- Values are handed on when all futures have run, and a failure as soon as there is one. -/
theorem Undecided.values_or_failure {size : Nat} {outcomes : List (Except ε α)} {result : Except ε (List α)}
    (undecided : Undecided (valuesOrFailure size) outcomes) (decided : valuesOrFailure size outcomes = some result) :
    (∃ values : List α, outcomes = values.map .ok ∧ values.length = size ∧ result = .ok values) ∨
      ∃ (values : List α) (error : ε), outcomes = values.map .ok ++ [.error error] ∧ result = .error error := by
  rcases List.eq_nil_or_concat outcomes with rfl | ⟨earlier, outcome, rfl⟩
  · exact .inl ⟨[], rfl, eq_of_valuesOrFailure decided⟩
  · rw [List.concat_eq_append] at undecided decided ⊢
    obtain ⟨values, rfl⟩ := exists_values_of_undecided undecided.of_concat.2
    cases outcome with
    | ok value =>
      have whole : values.map .ok ++ [(.ok value : Except ε α)] = (values ++ [value]).map .ok := by simp
      rw [whole] at decided ⊢
      exact .inl ⟨values ++ [value], rfl, eq_of_valuesOrFailure decided⟩
    | error error =>
      rw [valuesOrFailure_failure] at decided
      exact .inr ⟨values, error, rfl, (Option.some.inj decided).symm⟩

/-- Futures that are run in sequence run one at a time, whatever else is done on the loop: the next one is started
only when the one before it has called its continuation. If all outcomes are wanted, they are handed on in their
order when the last future has settled, and never a failure. If values are wanted, they are handed on when the last
future has settled, or else the first failure, and then no other future is started. -/
theorem sequences_run_one_at_a_time [Storable (Stage ε α (List (Except ε α))) σ]
    [Storable (Stage ε α (List α)) σ] {futures : List (Future σ ε α)} {each : Except ε α → Prop} {loop : Loop σ}
    (uniform : ∀ future ∈ futures, future.Uniform each) (discreet : loop.Discreet) :
    RunsOneAtATime loop each futures allSettled (everyOutcome futures.length) ∧
    (∀ outcomes result, everyOutcome (ε := ε) (α := α) futures.length outcomes = some result ↔
      outcomes.length = futures.length ∧ result = .ok outcomes) ∧
    RunsOneAtATime loop each futures all (valuesOrFailure futures.length) ∧
    ∀ outcomes result, Undecided (valuesOrFailure (ε := ε) (α := α) futures.length) outcomes →
      valuesOrFailure futures.length outcomes = some result →
        (∃ values : List α, outcomes = values.map .ok ∧ values.length = futures.length ∧ result = .ok values) ∨
          ∃ (values : List α) (error : ε), outcomes = values.map .ok ++ [.error error] ∧ result = .error error := by
  refine ⟨?_, fun _ _ => everyOutcome_eq_some_iff, ?_, fun _ _ => Undecided.values_or_failure⟩
  · have same : ∀ list : List (Future σ ε α), list.length = futures.length →
        allSettled list = inTurn (everyOutcome futures.length) [] list :=
      fun list length => length ▸ allSettled_eq_inTurn list
    apply RunsOneAtATime.of_eq same
    apply inTurn_runs_one_at_a_time uniform discreet
    intro built
    rw [← same futures rfl]
    exact .sequentialAllSettled built fun _ _ _ => trivial
  · have same : ∀ list : List (Future σ ε α), list.length = futures.length →
        all list = inTurn (valuesOrFailure futures.length) [] list :=
      fun list length => length ▸ all_eq_inTurn list
    apply RunsOneAtATime.of_eq same
    apply inTurn_runs_one_at_a_time uniform discreet
    intro built
    rw [← same futures rfl]
    exact .sequentialAll built (fun _ _ _ => trivial) fun _ _ => trivial

abbrev Diaries : Type :=
  Stage String Nat (List (Except String Nat)) ⊕ Stage String Nat (List Nat)

def threeFutures : List (Future Diaries String Nat) :=
  [Parallel.race [.succeedAfter 1 5, .succeedAfter 2 9], .fail "no", .succeed 3]

def busyLoop : Loop Diaries :=
  ({ config := ⟨0⟩ } : Loop Diaries).submit .yielded fun _ => .done

instance (duty : Duty σ) : Decidable (duty = .idle) :=
  match duty with
  | .idle => .isTrue rfl
  | .run _ _ => .isFalse nofun
  | .sleep _ => .isFalse nofun

theorem built_threeFutures {leaves : Future.Leaves Diaries} :
    ∀ future ∈ threeFutures, Future.Built leaves True future fun _ => True := by
  intro future member
  simp only [threeFutures, List.mem_cons, List.not_mem_nil, or_false] at member
  rcases member with rfl | rfl | rfl
  · apply Future.Built.race trivial (List.cons_ne_nil _ _)
    intro rival among
    rcases List.mem_pair.mp among with rfl | rfl
    · exact .settledAfter 5 trivial
    · exact .settledAfter 9 trivial
  · exact .settled trivial
  · exact .settled trivial

theorem uniform_threeFutures : ∀ future ∈ threeFutures, future.Uniform fun _ => True := by
  intro future member
  have noLeaves : Future.Built (fun _ _ _ _ => False) True future fun _ => True :=
    built_threeFutures future member
  exact noLeaves.uniform fun _ _ _ _ leaf => leaf.elim

def leftBehind [Storable (Stage String Nat β) Diaries]
    (whole : List (Future Diaries String Nat) → Future Diaries String β) :
    Option (Bool × Nat × List (Stage String Nat β)) :=
  (((whole (observedFrom β 0 0 threeFutures)).run (concluded Nat 0 fun _ => .done)).run
    (Loop.hostAt 20 20) (busyLoop.gather (.ofSize 0))).bind fun started =>
      (started.perform 20 (.drain fun _ => .done)).map fun later =>
        (decide (later.next = .idle), later.clock, later.diary 0)

def RanWith [Storable (Stage String Nat β) Diaries]
    (whole : List (Future Diaries String Nat) → Future Diaries String β) (verdict : Verdict String Nat β)
    (entries : List (Stage String Nat β)) : Prop :=
  ∃ started later : Loop Diaries,
    ((whole (observedFrom β 0 0 threeFutures)).run (concluded Nat 0 fun _ => .done)).run
      (Loop.hostAt 20 20) (busyLoop.gather (.ofSize 0)) = some started ∧
    started.perform 20 (.drain fun _ => .done) = some later ∧ later.clock = 9 ∧
    Tells verdict (later.diary 0) ∧
    (∃ result : Except String β, Stage.handedOn result ∈ (later.diary 0 : List (Stage String Nat β))) ∧
    (later.diary 0 : List (Stage String Nat β)) = entries

theorem discreet_busyLoop : busyLoop.Discreet :=
  (Loop.discreet_fresh _).submit .yielded .done

theorem RunsOneAtATime.ranWith [Storable (Stage String Nat β) Diaries]
    {whole : List (Future Diaries String Nat) → Future Diaries String β} {verdict : Verdict String Nat β}
    {entries : List (Stage String Nat β)}
    (runs : RunsOneAtATime busyLoop (fun _ => True) threeFutures whole verdict)
    (left : leftBehind whole = some (true, 9, entries)) : RanWith whole verdict entries := by
  have punctual : busyLoop.Punctual := ((Loop.orderly_fresh _).submit .yielded .done).punctual
  obtain ⟨started, ran, tells⟩ := runs (fun _ => .done) (fun _ => .done) 20 20
  obtain ⟨started', ran', drained⟩ := Option.bind_eq_some_iff.mp left
  obtain rfl : started = started' := Option.some.inj (ran.symm.trans ran')
  obtain ⟨later, performed, told⟩ := Option.map_eq_some_iff.mp drained
  obtain ⟨idle, clock, diary⟩ : decide (later.next = .idle) = true ∧ later.clock = 9 ∧ later.diary 0 = entries := by
    simpa only [Prod.mk.injEq] using told
  obtain ⟨tells, -, settles⟩ := tells later (.perform (.drain fun _ => .done) performed)
  exact ⟨started, later, ran, performed, clock, tells,
    settles punctual built_threeFutures (of_decide_eq_true idle), diary⟩

theorem leftBehind_all : leftBehind all = some (true, 9,
    [.started 0, .settled 0 (.ok 1), .started 1, .settled 1 (.error "no"), .handedOn (.error "no")]) := by
  rfl

theorem leftBehind_allSettled : leftBehind allSettled = some (true, 9,
    [.started 0, .settled 0 (.ok 1), .started 1, .settled 1 (.error "no"), .started 2, .settled 2 (.ok 3),
      .handedOn (.ok [.ok 1, .error "no", .ok 3])]) := by
  rfl

/-- Three futures of which the last one is not started if values are wanted. The loser of the race settles when all
is over. -/
theorem sequences_run_one_at_a_time_raced : busyLoop.Discreet ∧
    RanWith all (valuesOrFailure 3)
      [.started 0, .settled 0 (.ok 1), .started 1, .settled 1 (.error "no"), .handedOn (.error "no")] ∧
    RanWith allSettled (everyOutcome 3)
      [.started 0, .settled 0 (.ok 1), .started 1, .settled 1 (.error "no"), .started 2, .settled 2 (.ok 3),
        .handedOn (.ok [.ok 1, .error "no", .ok 3])] := by
  obtain ⟨outcomes, -, values, -⟩ := sequences_run_one_at_a_time uniform_threeFutures discreet_busyLoop
  exact ⟨discreet_busyLoop, values.ranWith leftBehind_all, outcomes.ranWith leftBehind_allSettled⟩

end Sequential

end Deferred
