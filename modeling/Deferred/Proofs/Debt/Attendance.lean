import Deferred.Proofs.Debt.Slots
import Deferred.Proofs.Debt.Wait

/-! Groups of which only matters that all members come, and when. This is the side of a race that its
outcome does not show: whoever settles the group, those that come later are started as the others are
and come in their own time, so draining the loop runs them all. -/

namespace Deferred

variable {σ ε ε' α β : Type} {setting : Setting} {world : World σ}

def Protocol.attended (promises : Nat → Promise ε α) (size start : Nat) : Protocol σ :=
  unawaited (Finset.range size) (fun index => start + (promises index).latest)
    (fun now _ pending => ∀ index < size, index ∉ pending → ∃ outcome delay,
      (promises index).may outcome delay ∧ start + delay ≤ now)
    fun before came index inside gone => by
      obtain ⟨outcome, delay, may, past⟩ := came index inside gone
      exact ⟨outcome, delay, may, past.trans before⟩

/-- A script that finds a group as some content, changes only that group, never takes back that it is
settled, and pays nothing afterwards. -/
inductive Script.Visits (setting : Setting) (world : World σ) (now group : Nat) :
    Group σ → Script σ → Prop
  | leave {content script} (pays : Pays setting world 0 now 0 script) :
      Visits setting world now group content script
  | look {content next} (visits : ∀ content, Visits setting world now group content (next content)) :
      Visits setting world now group content (.look group next)
  | put {content after next} (still : content.settled = true → after.settled = true)
      (visits : Visits setting world now group after next) :
      Visits setting world now group content (.put group after next)
  | record {content event next} (visits : Visits setting world now group content next) :
      Visits setting world now group content (.record event next)

namespace Script.Visits

variable {now group : Nat} {content : Group σ} {script : Script σ}

theorem exists_changes (visits : script.Visits setting world now group content) :
    ∃ (after : Group σ) (rest : Script σ), script.Changes group content after rest ∧
      (content.settled = true → after.settled = true) ∧ Pays setting world 0 now 0 rest := by
  induction visits with
  | leave pays => exact ⟨_, _, .refl _, id, pays⟩
  | look _ ih =>
    obtain ⟨after, rest, changes, still, pays⟩ := ih _
    exact ⟨after, rest, changes.look, still, pays⟩
  | put before _ ih =>
    obtain ⟨after, rest, changes, still, pays⟩ := ih
    exact ⟨after, rest, changes.put, fun settled => still (before settled), pays⟩
  | record _ ih =>
    obtain ⟨after, rest, changes, still, pays⟩ := ih
    exact ⟨after, rest, changes.record, still, pays⟩

theorem pays_free (visits : script.Visits setting world now group content)
    (free : world[group]? = some .free) : Pays setting world 0 now 0 script := by
  induction visits with
  | leave pays => exact pays
  | look _ ih => exact .look ih
  | put _ _ ih => exact .put (.inr free) ih
  | record _ ih => exact .record ih

theorem pays_attended {promises : Nat → Promise ε α} {size start index delay : Nat}
    {outcome : Except ε α} (visits : ∀ content, script.Visits setting world (start + delay) group content)
    (known : world[group]? = some (.attended promises size start)) (inside : index < size)
    (may : (promises index).may outcome delay) :
    Pays setting world {⟨group, index⟩} (start + delay) 0 script := by
  rw [← zero_add ({⟨group, index⟩} : Multiset Debt)]
  refine Arrives.pays known ?_ (by simp) fun content pending expects => ?_
  · show ((start + delay : Nat) : ℕ∞) ≤ start + (promises index).latest
    rw [Nat.cast_add]
    exact add_le_add_right ((promises index).le_latest may) _
  · obtain ⟨after, rest, changes, still, pays⟩ := (visits content).exists_changes
    have valid : (Protocol.attended promises size start : Protocol σ).valid (start + delay) after
        (pending.erase index) := by
      intro other within gone
      rcases eq_or_ne other index with rfl | different
      · exact ⟨outcome, delay, may, le_refl _⟩
      · exact expects.valid other within fun waiting => gone (Finset.mem_erase.mpr ⟨different, waiting⟩)
    by_cases same : after.settled = content.settled
    · exact .waits after rest changes valid same pays
    · have was : content.settled = false := by
        by_contra settled
        rw [Bool.not_eq_false] at settled
        exact same ((still settled).trans settled.symm)
      have is : after.settled = true := by
        rw [was] at same
        exact Bool.not_eq_false _ ▸ same
      refine .settles after rest changes valid was is ?_
      rw [Protocol.attended, Protocol.unawaited, add_zero, add_zero]
      exact pays

end Script.Visits

theorem pays_deliver_free [Storable (Except ε α) σ] {number : Nat} (free : world[number]? = some .free)
    (now : Nat) (outcome : Except ε α) : Pays setting world 0 now 0 (Loop.deliver number outcome) :=
  .look fun _ => .put (.inr free) .done

namespace Parallel

def Passing (arrive : (Except ε' β → Script σ) → Nat → Nat → Except ε α → Script σ) : Prop :=
  ∀ ⦃setting : Setting⦄ ⦃world : World σ⦄ ⦃now : Nat⦄ ⦃next : Except ε' β → Script σ⦄,
    (∀ outcome, Pays setting world 0 now 0 (next outcome)) → ∀ group index outcome content,
      (arrive next group index outcome).Visits setting world now group content

section Visits

variable {now group : Nat} {content : Group σ}

theorem visits_handOnce {handOn : Unit → Script σ} {after : Bool → Script σ}
    (pays : Pays setting world 0 now 0 (handOn ())) (idle : ∀ won, Idle setting (after won)) :
    (handOnce group handOn after).Visits setting world now group content := by
  refine .look fun content => ?_
  split
  next => exact .leave (idle false world now)
  next => exact .put (fun _ => rfl) (.leave ((idle true).andThen pays))

theorem visits_fillSlot [Storable β σ] {handOn : List β → Script σ} (index : Nat) (value : β)
    (pays : ∀ values, Pays setting world 0 now 0 (handOn values)) :
    (fillSlot group index value handOn).Visits setting world now group content := by
  refine .look fun content => .put (fun settled => settled) (.record ?_)
  split
  next => exact .put (fun settled => settled) (visits_handOnce (pays _) fun _ => .done)
  next => exact .leave .done

theorem passing_raceArrival : Passing (raceArrival : (Except ε α → Script σ) → Nat → Nat → _) :=
  fun _ _ _ _ pays _ _ outcome _ => visits_handOnce (pays outcome) fun _ => .record _

theorem passing_arrivalBy {γ : Type} [Storable β σ] {sort : Except ε α → β ⊕ Except ε' γ}
    {finish : List β → Except ε' γ} {after : Nat → Bool → Script σ}
    (idle : ∀ {setting : Setting} (index : Nat) (won : Bool), Idle setting (after index won)) :
    Passing (arrivalBy sort finish after) := by
  intro setting world now next pays group index outcome content
  unfold arrivalBy
  cases sort outcome with
  | inl value => exact visits_fillSlot index value fun values => pays (finish values)
  | inr result => exact visits_handOnce (pays result) (idle index)

end Visits

end Parallel

section Attended

variable {bound root size start : Nat} {promises : Nat → Promise ε α} {left : ℕ∞} {loop : Loop σ}

/-- As long as anything is to be done, one of the members is still to come, and the clock is not past
the time by which it comes. -/
theorem Sound.of_busy (sound : Sound (.waiting bound root) world 0 left loop)
    (extended : World.placed root (.attended promises size start) <+: world) (busy : loop.pool ≠ 0) :
    ∃ index < size, (loop.clock : ℕ∞) ≤ start + (promises index).latest := by
  obtain ⟨book, pending, ledger⟩ := sound
  have known := World.getElem?_extend extended (World.placed_getElem? root (.attended promises size start))
  obtain ⟨debt, live⟩ := ledger.exists_live trivial busy
  obtain ⟨⟨group, index⟩, early, waited⟩ := ledger.rooted trivial debt live
  rcases Nat.lt_or_eq_of_le early with older | rfl
  · have free := World.getElem?_extend extended
      (World.placed_getElem?_of_lt (.attended promises size start) older)
    exact absurd (ledger.members _ _ free waited) (Finset.notMem_empty _)
  · have timely := ledger.timely _ waited
    rw [World.latest_eq known] at timely
    exact ⟨index, Finset.mem_range.mp (ledger.members _ _ known waited), timely⟩

theorem Sound.attended (sound : Sound setting world 0 left loop) (strict : ¬setting.lenient)
    (known : world[root]? = some (.attended promises size start)) (empty : loop.pool = 0) :
    ∀ index < size, ∃ outcome delay, (promises index).may outcome delay ∧ start + delay ≤ loop.clock := by
  obtain ⟨book, pending, ledger⟩ := sound
  exact fun index inside => ledger.valid root _ known index inside
    (ledger.settled_of_pool_eq empty ⟨root, index⟩ fun lenient => absurd lenient strict)

end Attended

namespace Parallel

variable [Storable (Except ε' β) σ] {futures : List (Future σ ε α)} {promises : Nat → Promise ε α}
  {content : Group σ} {arrive : (Except ε' β → Script σ) → Nat → Nat → Except ε α → Script σ}
  {bound count span : Nat} {loop : Loop σ}

/-- The books of a loop on which futures have been started side by side, behind the group that the
common outcome is delivered to. -/
theorem exists_started
    (passing : Passing arrive)
    (keeps : ∀ (index : Nat) (future : Future σ ε α), futures[index]? = some future →
      future.Keeps (.waiting bound (loop.groups.size + 1)) (promises index))
    (total : jobsOf promises futures.length = count) (vacant : loop.Vacant) :
    ∃ started, (loop.gather (.ofSize 1)).perform bound
        ((sideBySide content arrive futures).run (Loop.deliver loop.groups.size)) = some started ∧
      started.clock = loop.clock ∧ ∃ later : World σ,
        World.placed (loop.groups.size + 1) (.attended promises futures.length loop.clock) <+: later ∧
          Sound (.waiting bound (loop.groups.size + 1)) later 0 count started := by
  let base := loop.gather (.ofSize 1)
  let rules : Protocol σ := .attended promises futures.length loop.clock
  have size : base.groups.size = loop.groups.size + 1 := by simp [base, Loop.gather]
  have empty : base.Vacant := vacant.gather _
  have known : (World.placed base.groups.size rules)[base.groups.size]? = some rules :=
    World.placed_getElem? ..
  have free : (World.placed base.groups.size rules)[loop.groups.size]? = some .free :=
    World.placed_getElem?_of_lt rules (by omega)
  have placed : Sound (.waiting bound base.groups.size) (.placed base.groups.size rules)
      (rules.debts base.groups.size + 0) 0 (base.gather content) :=
    (empty.sound not_false (fun _ => le_refl _) fun _ => False.elim).placed rules rfl
      (fun index inside gone => absurd (Finset.mem_range.mpr inside) gone) (fun _ _ => le_self_add)
      (fun _ => le_refl _) fun nested => absurd nested not_false
  have pays : Pays (.waiting bound base.groups.size) (.placed base.groups.size rules)
      (rules.debts base.groups.size) loop.clock count
      (startAll (arrive (Loop.deliver loop.groups.size) base.groups.size) 0 futures) := by
    rw [debts_range _ _ _ rfl, ← total]
    refine pays_startAll known (fun _ => rfl) (fun nested => absurd nested not_false)
      (fun later extended index inside outcome delay may => ?_) futures 0 (Nat.le_of_eq (Nat.zero_add _))
      (fun index future found => ?_) (le_refl _) (.inr rfl) (List.prefix_refl _)
    · exact Script.Visits.pays_attended
        (passing (pays_deliver_free (World.getElem?_extend extended free) _) _ _ _)
        (World.getElem?_extend extended known) inside may
    · rw [zero_add, size]
      exact keeps index future found
  obtain ⟨ends, follows⟩ := pays.run (keeps_hostAt (.waiting bound base.groups.size) bound)
    (base.gather content) rfl placed
  obtain ⟨started, begun⟩ := ends not_false
  obtain ⟨later, extended, sound, _, same⟩ := follows started begun
  rw [zero_add] at sound
  exact ⟨started, begun, same.resolve_left not_false, later, size ▸ extended, size ▸ sound⟩

/-- Futures that are started side by side all come to an end, whatever is made of their outcomes. -/
theorem waitFor_attended (passing : Passing arrive)
    (keeps : ∀ (index : Nat) (future : Future σ ε α), futures[index]? = some future →
      future.Keeps (.waiting bound (loop.groups.size + 1)) (promises index))
    (within : ∀ index < futures.length, (promises index).latest ≤ span)
    (total : jobsOf promises futures.length = count) (vacant : loop.Vacant) (enough : 2 * count < bound) :
    ∃ (outcome : Option (Except ε' β)) (ran rest : Nat) (after last : Loop σ), ran + rest = count ∧
      loop.waitFor bound (sideBySide content arrive futures) = some ⟨outcome, ran, after⟩ ∧
      after.drain bound = some (rest, last) ∧ last.Vacant ∧ last.clock ≤ loop.clock + span ∧
      ∀ index < futures.length, ∃ outcome delay,
        (promises index).may outcome delay ∧ loop.clock + delay ≤ last.clock := by
  obtain ⟨started, begun, clock, world, extended, sound⟩ :=
    @exists_started _ _ _ _ _ _ _ _ content _ _ _ _ passing keeps total vacant
  have known := World.getElem?_extend extended
    (World.placed_getElem? (loop.groups.size + 1) (.attended promises futures.length loop.clock))
  have free := World.getElem?_extend extended (World.placed_getElem?_of_lt
    (.attended promises futures.length loop.clock) (Nat.lt_succ_self loop.groups.size))
  have timely : ∀ later (next : Loop σ) left, world <+: later →
      Sound (.waiting bound (loop.groups.size + 1)) later 0 left next → next.pool ≠ 0 →
        (next.clock : ℕ∞) ≤ (loop.clock + span : Nat) := by
    intro later next left extended' sound busy
    obtain ⟨index, inside, early⟩ := sound.of_busy (extended.trans extended') busy
    rw [Nat.cast_add]
    exact early.trans (add_le_add_right (within index inside) _)
  have early : (started.clock : ℕ∞) ≤ (loop.clock + span : Nat) := by
    rw [clock]
    exact Nat.cast_le.mpr (Nat.le_add_right ..)
  obtain ⟨ran, rest, after, last, all, driven, drained, empty, late, later, extended', ended⟩ :=
    sound.drained not_false not_false timely free early enough
  have driving : started.drive bound (Loop.hasDelivery loop.groups.size) = some (ran, after) := driven
  have waited : loop.waitFor bound (sideBySide content arrive futures) =
      some ⟨(after.group loop.groups.size).values.head?.bind load?, ran,
        after.put loop.groups.size (.ofSize 0)⟩ := by
    simp only [Loop.waitFor, begun, driving]
  exact ⟨_, ran, rest, _, last, all, waited, drained, Loop.vacant_of_pool_eq empty, Nat.cast_le.mp late,
    ended.attended not_false (World.getElem?_extend extended' known) empty⟩

end Parallel

end Deferred
