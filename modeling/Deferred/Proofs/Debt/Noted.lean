import Deferred.Proofs.Debt.Attendance

/-! Notes of what futures come to. A future is noted by putting its outcome, and the time, into a slot of
a group before the outcome is handed on. Such a note is owed whatever becomes of the outcome, so once a
loop has been drained there is a note of every future that was started on it, also of those that lost. -/

namespace Deferred

variable {σ ε ε' α β : Type} {setting : Setting} {world : World σ}

def Future.noted [Storable (Except ε α × Nat) σ] (group index : Nat) (future : Future σ ε α) :
    Future σ ε α :=
  ⟨fun next => future.run fun outcome => .now fun time => .look group fun content =>
    .put group (content.fill index (store (outcome, time))) (next outcome)⟩

def Protocol.noting [Storable (Except ε α × Nat) σ] (promises : Nat → Promise ε α) (size start : Nat) :
    Protocol σ :=
  unawaited (Finset.range size) (fun index => start + (promises index).latest)
    (fun now content pending => content.Filling size start (fun index value delay => ∃ outcome,
      (promises index).may outcome delay ∧ value = store (outcome, start + delay)) now pending)
    fun before filling => filling.later before

def Setting.racing (bound : Nat) (common : Nat → Prop) : Setting where
  bound
  nested := False
  patient := False
  common
  root := 0

def Future.Reports (setting : Setting) (world : World σ) (debts : Multiset Debt) (now : Nat) (jobs : ℕ∞)
    (future : Future σ ε α) : Prop :=
  ∀ ⦃later : World σ⦄, world <+: later → ∀ ⦃more : ℕ∞⦄ ⦃next : Except ε α → Script σ⦄,
    (∀ further time outcome, later <+: further → Pays setting further 0 time more (next outcome)) →
      Pays setting later debts now (jobs + more) (future.run next)

namespace Future

variable {debts : Multiset Debt} {now : Nat} {jobs : ℕ∞}

theorem reports_submit (impatient : ¬setting.patient) (lane : Lane) (outcome : Except ε α) :
    (⟨fun next => .submit lane (fun _ => next outcome) .done⟩ : Future σ ε α).Reports setting world 0 now
      1 := by
  intro later _ more next pays
  have submitted : Pays setting later (0 + 0) now (more + 1 + 0)
      (.submit lane (fun _ => next outcome) .done) :=
    .submit (fun patient => absurd patient impatient) (pays later _ outcome (List.prefix_refl _)) .done
  rwa [zero_add, add_zero, add_comm] at submitted

theorem Reports.mapError {future : Future σ ε α} (impatient : ¬setting.patient)
    (reports : future.Reports setting world debts now jobs) (f : ε → ε') :
    (future.mapError f).Reports setting world debts now (1 + jobs + 1) := by
  intro later extended more next pays
  have mapped : Pays setting later (debts + 0) now (jobs + (1 + more) + 1 + 0)
      ((future.mapError f).run next) := by
    refine .submit (fun patient => absurd patient impatient)
      (reports extended fun further time outcome extended' => ?_) .done
    have handed : ∀ found : Except ε' α,
        Pays setting further 0 time (1 + more) (.submit .scheduled (fun _ => next found) .done) :=
      fun found => reports_submit impatient .scheduled found (List.prefix_refl _)
        fun last time' outcome extended'' => pays last time' outcome (extended'.trans extended'')
    cases outcome with
    | ok value => exact handed (.ok value)
    | error error => exact handed (.error (f error))
  have count : jobs + (1 + more) + 1 + 0 = 1 + jobs + 1 + more := by ring
  rwa [add_zero, count] at mapped

theorem Keeps.noted [Storable (Except ε α × Nat) σ] {future : Future σ ε α} {promise : Promise ε α}
    {group : Nat} (keeps : future.Keeps setting promise) (common : setting.common group) (index : Nat) :
    (future.noted group index).Keeps setting promise :=
  fun _ _ _ _ _ timely pays => keeps timely fun outcome delay may =>
    .now (.look fun _ => .put (.inl common) (pays outcome delay may))

theorem reports_noted [Storable (Except ε α × Nat) σ] {promises : Nat → Promise ε α}
    {size start group index : Nat} {future : Future σ ε α}
    (known : world[group]? = some (.noting promises size start))
    (keeps : future.Keeps setting (promises index)) :
    (future.noted group index).Reports setting world {⟨group, index⟩} start (promises index).jobs := by
  intro later extended more next pays
  have known' := World.getElem?_extend extended known
  refine keeps (ge_of_eq (World.latest_eq known' index)) fun outcome delay may => .now ?_
  rw [← zero_add ({⟨group, index⟩} : Multiset Debt)]
  refine Arrives.pays known' ?_ (by simp) fun content pending expects => ?_
  · show ((start + delay : Nat) : ℕ∞) ≤ start + (promises index).latest
    rw [Nat.cast_add]
    exact add_le_add_right ((promises index).le_latest may) _
  · have filling : content.Filling size start _ (start + delay) pending := expects.valid
    exact .waits _ (next outcome) (.look (.put (.refl _)))
      (filling.fill expects.awaited ⟨outcome, may, rfl⟩) rfl
      (pays later _ outcome (List.prefix_refl _))

end Future

namespace Parallel

variable {debts : Nat → Multiset Debt} {now : Nat} {jobs : Nat → ℕ∞}

theorem pays_startAll_of_reports {arrive : Nat → Except ε α → Script σ} (simple : ¬setting.nested)
    (timely : ∀ index, ∀ debt ∈ debts index, (now : ℕ∞) ≤ world.latest debt)
    (arrives : ∀ further time index outcome, world <+: further →
      Pays setting further 0 time 0 (arrive index outcome))
    (futures : List (Future σ ε α)) (index : Nat)
    (reports : ∀ (offset : Nat) (future : Future σ ε α), futures[offset]? = some future →
      future.Reports setting world (debts (index + offset)) now (jobs (index + offset)))
    {later : World σ} (extended : world <+: later) :
    Pays setting later (Multiset.bind (List.range' index futures.length) debts) now
      ((List.range' index futures.length).map jobs).sum (startAll arrive index futures) := by
  induction futures generalizing index later with
  | nil => exact .done
  | cons future futures ih =>
    have first : Pays setting later (debts index) now (jobs index + 0) (future.run (arrive index)) :=
      reports 0 future rfl extended fun further time outcome extended' =>
        arrives further time index outcome (extended.trans extended')
    have rest : ∀ further time, later <+: further → now ≤ time → (setting.nested ∨ time = now) →
        Pays setting further (Multiset.bind (List.range' (index + 1) futures.length) debts) time
          ((List.range' (index + 1) futures.length).map jobs).sum
          (startAll arrive (index + 1) futures) := by
      intro further time extended' _ same
      obtain rfl := same.resolve_left simple
      refine ih (index + 1) (fun offset other found => ?_) (extended.trans extended')
      rw [add_assoc, add_comm 1]
      exact reports (offset + 1) other found
    rw [add_zero] at first
    have paid := first.andThen (fun _ debt owed => ?_) rest
    · rw [List.length_cons, List.range'_succ, List.map_cons, List.sum_cons, ← Multiset.cons_coe,
        Multiset.cons_bind]
      exact paid
    · obtain ⟨other, _, owes⟩ := Multiset.mem_bind.mp owed
      exact (timely other debt owes).trans (World.latest_mono extended debt)

theorem pays_sideBySide {entrants : List (Future σ ε α)} (content : Group σ)
    {arrive : (Except ε' β → Script σ) → Nat → Nat → Except ε α → Script σ} (simple : ¬setting.nested)
    (impatient : ¬setting.patient) (passing : Passing arrive)
    (timely : ∀ index, ∀ debt ∈ debts index, (now : ℕ∞) ≤ world.latest debt)
    (reports : ∀ (index : Nat) (future : Future σ ε α), entrants[index]? = some future →
      future.Reports setting world (debts index) now (jobs index))
    {next : Except ε' β → Script σ}
    (pays : ∀ further time outcome, world <+: further → Pays setting further 0 time 0 (next outcome)) :
    Pays setting world (Multiset.bind (List.range' 0 entrants.length) debts) now
      ((List.range' 0 entrants.length).map jobs).sum
      ((sideBySide content arrive entrants).run next) := by
  refine pays_gather_free impatient fun later extended => ?_
  have extended' : world <+: later ++ [.free] := extended.trans (List.prefix_append ..)
  have free : (later ++ [.free])[later.length]? = some (.free : Protocol σ) :=
    List.getElem?_concat_length ..
  refine pays_startAll_of_reports simple (fun index debt owed => ?_)
    (fun further time index outcome extended'' => ?_) entrants 0 (fun index future found => ?_)
    (List.prefix_refl _)
  · exact (timely index debt owed).trans (World.latest_mono extended' debt)
  · refine (passing (fun outcome => ?_) _ index outcome (.ofSize 0)).pays_free
      (World.getElem?_extend extended'' free)
    exact pays further time outcome (extended'.trans extended'')
  · rw [zero_add]
    exact fun later extended'' => reports index future found (extended'.trans extended'')

/-- A future that pays for notes on its way leaves them all once the loop has been drained. -/
theorem waitFor_noted [Storable (Except ε α × Nat) σ] [Storable (Except ε' β) σ]
    {promises : Nat → Promise ε α} {size count bound : Nat} {whole : Future σ ε' β} {loop : Loop σ}
    (pays : ∀ world : World σ, world[loop.groups.size]? = some (.noting promises size loop.clock) →
      ∀ next : Except ε' β → Script σ,
        (∀ further time outcome, world <+: further →
          Pays (.racing bound fun _ => False) further 0 time 0 (next outcome)) →
        Pays (.racing bound fun _ => False) world
          ((Protocol.noting promises size loop.clock : Protocol σ).debts loop.groups.size) loop.clock
          count (whole.run next))
    (vacant : loop.Vacant) (enough : 2 * count < bound) :
    ∃ (waited : Waited σ ε' β) (rest : Nat) (last : Loop σ),
      (loop.gather (.ofSize size)).waitFor bound whole = some waited ∧
      waited.loop.drain bound = some (rest, last) ∧ last.Vacant ∧
      (Protocol.noting promises size loop.clock : Protocol σ).valid last.clock
        (last.group loop.groups.size) ∅ := by
  let noting := loop.gather (.ofSize size)
  let rules : Protocol σ := .noting promises size loop.clock
  let world : World σ := World.placed loop.groups.size rules ++ [.free]
  have placed : Sound (.racing bound fun _ => False) world (rules.debts loop.groups.size + 0) 0
      (noting.gather (.ofSize 1)) :=
    ((vacant.sound not_false False.elim fun _ => False.elim).placed rules rfl (.ofSize ..)
      (fun _ _ => le_self_add) False.elim False.elim).gather_free not_false (.ofSize 1)
  have length : (World.placed loop.groups.size rules).length = noting.groups.size := by
    simp [World.placed, noting, Loop.gather]
  have known : world[loop.groups.size]? = some rules :=
    World.getElem?_extend (List.prefix_append ..) (World.placed_getElem? ..)
  have free : world[noting.groups.size]? = some .free := by
    rw [← length]
    exact List.getElem?_concat_length ..
  obtain ⟨ends, follows⟩ := (pays world known (Loop.deliver noting.groups.size)
    fun further time outcome extended =>
      pays_deliver_free (World.getElem?_extend extended free) time outcome).run
    (keeps_hostAt (.racing bound fun _ => False) bound) (noting.gather (.ofSize 1)) rfl placed
  obtain ⟨started, begun⟩ := ends not_false
  obtain ⟨later, extended, sound, _⟩ := follows started begun
  rw [zero_add] at sound
  obtain ⟨ran, rest, after, last, _, driven, drained, empty, _, final, extended', ended⟩ :=
    sound.drained not_false not_false (fun _ _ _ _ _ _ => le_top) (World.getElem?_extend extended free)
      le_top enough
  have running : (noting.gather (.ofSize 1)).perform bound
      (whole.run (Loop.deliver noting.groups.size)) = some started := begun
  have driving : started.drive bound (Loop.hasDelivery noting.groups.size) = some (ran, after) := driven
  have waited : noting.waitFor bound whole =
      some ⟨(after.group noting.groups.size).values.head?.bind load?, ran,
        after.put noting.groups.size (.ofSize 0)⟩ := by
    simp only [Loop.waitFor, running, driving]
  obtain ⟨book, pending, ledger⟩ := ended
  have valid := ledger.valid loop.groups.size rules
    (World.getElem?_extend (extended.trans extended') known)
  have none : pending loop.groups.size = ∅ := Finset.eq_empty_of_forall_notMem fun member =>
    ledger.settled_of_pool_eq empty ⟨loop.groups.size, member⟩ False.elim
  rw [none] at valid
  exact ⟨_, rest, last, waited, drained, Loop.vacant_of_pool_eq empty, valid⟩

end Parallel

end Deferred
