import Deferred.Proofs.Debt.Joint

/-! Pairs of futures of different types. The group has two slots, and a failure of either future settles
it at once. -/

namespace Deferred.Parallel

variable {σ ε α β : Type} {setting : Setting}

variable [Storable α σ] [Storable β σ] {left : Promise ε α} {right : Promise ε β}
  {whole : Promise ε (α × β)}

def Concedes (half : Promise ε α) (time : Nat) : Prop :=
  (time : ℕ∞) ≤ half.latest ∨ ∃ value delay, half.may (.ok value) delay ∧ delay ≤ time

/-- What the two futures of a pair promise, and the pair with them, where one may be awaited no more once
the other has failed. -/
structure Halves (left : Promise ε α) (right : Promise ε β) (whole : Promise ε (α × β)) : Prop where
  /-- One of the two comes in time. -/
  critical : left.latest ≤ whole.latest ∨ right.latest ≤ whole.latest
  /-- The left one comes in time if the right one only brings its value, -/
  left_critical : ∀ value delay, right.may (.ok value) delay → left.latest ≤ whole.latest
  /-- and the other way round. -/
  right_critical : ∀ value delay, left.may (.ok value) delay → right.latest ≤ whole.latest
  both : ∀ first second delay delay' time, left.may (.ok first) delay → right.may (.ok second) delay' →
    delay ≤ time → delay' ≤ time →
    ((∃ outcome, left.may outcome time) ∨ ∃ outcome, right.may outcome time) →
    whole.may (.ok (first, second)) time
  left_fails : ∀ error delay, left.may (.error error) delay → Concedes right delay →
    whole.may (.error error) delay
  right_fails : ∀ error delay, right.may (.error error) delay → Concedes left delay →
    whole.may (.error error) delay

def PairSlots (left : Promise ε α) (right : Promise ε β) (start now : Nat) (content : Group σ)
    (pending : Finset Nat) : Prop :=
  content.Filling 2 start (fun index stored delay =>
    (index = 0 ∧ ∃ value : α, left.may (.ok value) delay ∧ stored = store value) ∨
      (index = 1 ∧ ∃ value : β, right.may (.ok value) delay ∧ stored = store value)) now pending

def pair (halves : Halves left right whole) (setting : Setting) (debt : Debt) (jobs : ℕ∞) (start : Nat) :
    Protocol σ :=
  .joint (Finset.range 2) debt jobs (start + whole.latest)
    (fun index => start + if index = 0 then left.latest else right.latest)
    setting.patient
    (fun now content pending => pending.Nonempty ∧ PairSlots left right start now content pending)
    (fun before waiting => ⟨waiting.1, waiting.2.later before⟩)
    (by
      intro now content pending ⟨⟨index, waiting⟩, filling⟩
      by_cases first : 0 ∈ pending
      · by_cases second : 1 ∈ pending
        · rcases halves.critical with early | early
          · exact ⟨0, first, add_le_add_right early _⟩
          · exact ⟨1, second, add_le_add_right early _⟩
        · obtain ⟨_, delay, allowed, _⟩ := filling.filled 1 Nat.one_lt_two second
          obtain ⟨_, value, may, _⟩ := allowed.resolve_left fun left => absurd left.1 Nat.one_ne_zero
          exact ⟨0, first, add_le_add_right (halves.left_critical value delay may) _⟩
      · obtain ⟨_, delay, allowed, _⟩ := filling.filled 0 Nat.zero_lt_two first
        obtain ⟨_, value, may, _⟩ := allowed.resolve_right fun right => absurd right.1.symm Nat.one_ne_zero
        have other : index ≠ 0 := fun same => first (same ▸ waiting)
        refine ⟨index, waiting, add_le_add_right ?_ _⟩
        rw [if_neg other]
        exact halves.right_critical value delay may)

theorem PairSlots.both {start now : Nat} {content : Group σ}
    (filled : PairSlots left right start now content ∅) :
    ∃ first second delay delay', left.may (.ok first) delay ∧ start + delay ≤ now ∧
      right.may (.ok second) delay' ∧ start + delay' ≤ now ∧
        content.slots[0]? = some (some (store first)) ∧
          content.slots[1]? = some (some (store second)) := by
  obtain ⟨_, delay, allowed, past, found⟩ := filled.filled 0 Nat.zero_lt_two (Finset.notMem_empty 0)
  obtain ⟨_, delay', allowed', past', found'⟩ := filled.filled 1 Nat.one_lt_two (Finset.notMem_empty 1)
  obtain ⟨-, first, may, rfl⟩ := allowed.resolve_right fun right => absurd right.1 (by simp)
  obtain ⟨-, second, may', rfl⟩ := allowed'.resolve_left fun left => absurd left.1 (by simp)
  exact ⟨first, second, delay, delay', may, past, may', past', found, found'⟩

theorem bothValues_of_empty {content : Group σ} {index : Nat} (length : content.slots.length = 2)
    (empty : content.slots[index]? = some none) : (bothValues content : Option (α × β)) = none := by
  obtain ⟨first, second, slots⟩ := List.length_eq_two.mp length
  rw [slots] at empty
  rcases index with _ | _ | index
  · simp [bothValues, slots, Option.some.inj empty]
  · simp [bothValues, slots, Option.some.inj empty]
  · simp at empty

theorem bothValues_of_stored {content : Group σ} {first : α} {second : β}
    (length : content.slots.length = 2) (left : content.slots[0]? = some (some (store first)))
    (right : content.slots[1]? = some (some (store second))) :
    bothValues content = some (first, second) := by
  obtain ⟨one, two, slots⟩ := List.length_eq_two.mp length
  rw [slots] at left right
  simp [bothValues, slots, Option.some.inj left, Option.some.inj right]

theorem pays_settlePair (halves : Halves left right whole) {world : World σ} {debt : Debt} {jobs : ℕ∞}
    {start number index delay : Nat} {stored : σ} {next : Except ε (α × β) → Script σ}
    (known : world[number]? = some (pair halves setting debt jobs start))
    (allowed : (index = 0 ∧ ∃ value : α, left.may (.ok value) delay ∧ stored = store value) ∨
      (index = 1 ∧ ∃ value : β, right.may (.ok value) delay ∧ stored = store value))
    (timely : (start + delay : ℕ∞) ≤ (pair halves setting debt jobs start : Protocol σ).latest index)
    (pays : ∀ result delay, whole.may result delay →
      Pays setting world {debt} (start + delay) jobs (next result)) :
    Pays setting world {⟨number, index⟩} (start + delay) 0
      (.look number fun content => settlePair next number (content.fill index stored)) := by
  rw [← zero_add ({⟨number, index⟩} : Multiset Debt)]
  apply Arrives.pays known (by rwa [Nat.cast_add]) (by simp)
  intro content pending expects
  have shape : ∀ content pending, (pair halves setting debt jobs start : Protocol σ).valid
      (start + delay) content pending ↔ _ := fun _ _ => Iff.rfl
  cases settled : content.settled with
  | true =>
    obtain ⟨after, still, alters⟩ := late_settlePair number index stored next content settled
    exact arrives_late shape expects settled still alters.changes Idle.done
  | false =>
    obtain ⟨_, filling⟩ := expects.valid.2 settled
    have filled : PairSlots left right start (start + delay) (content.fill index stored)
        (pending.erase index) := filling.fill expects.awaited allowed
    rcases Finset.eq_empty_or_nonempty (pending.erase index) with nobody | ⟨other, waiting⟩
    · rw [nobody] at filled
      obtain ⟨first, second, delay', delay'', may, past, may', past', found, found'⟩ := filled.both
      have both : bothValues (content.fill index stored) = some (first, second) :=
        bothValues_of_stored filled.length found found'
      refine arrives_settling shape settled rfl (fun _ => nobody) (alters_pair both settled).changes
        (Idle.done.andThen ?_)
      refine pays _ delay (halves.both first second delay' delay'' delay may may' (by omega) (by omega) ?_)
      rcases allowed with ⟨_, value, may, _⟩ | ⟨_, value, may, _⟩
      · exact .inl ⟨_, may⟩
      · exact .inr ⟨_, may⟩
    · have both : (bothValues (content.fill index stored) : Option (α × β)) = none :=
        bothValues_of_empty filled.length (filled.empty other waiting)
      have still : (content.fill index stored).settled = false := settled
      exact arrives_waiting shape settled still ⟨⟨other, waiting⟩, filled⟩ (alters_half both).changes
        Idle.done

theorem concedes_of_expects (halves : Halves left right whole) {debt : Debt} {jobs : ℕ∞}
    {start delay member : Nat} {content : Group σ} {pending : Finset Nat}
    (expects : (pair halves setting debt jobs start).Expects (start + delay) member content pending)
    (unsettled : content.settled = false) : Concedes left delay ∧ Concedes right delay := by
  obtain ⟨_, filling⟩ := expects.valid.2 unsettled
  have late : ∀ index ∈ pending, (delay : ℕ∞) ≤ if index = 0 then left.latest else right.latest := by
    intro index waiting
    have timely := expects.timely index waiting
    rw [Nat.cast_add] at timely
    exact (ENat.add_le_add_iff_left (ENat.natCast_ne_top start)).mp timely
  constructor
  · by_cases waiting : 0 ∈ pending
    · exact .inl (late 0 waiting)
    · obtain ⟨_, delay', allowed, past, _⟩ := filling.filled 0 Nat.zero_lt_two waiting
      obtain ⟨_, value, may, _⟩ := allowed.resolve_right fun right => absurd right.1.symm Nat.one_ne_zero
      exact .inr ⟨value, delay', may, by omega⟩
  · by_cases waiting : 1 ∈ pending
    · exact .inl (late 1 waiting)
    · obtain ⟨_, delay', allowed, past, _⟩ := filling.filled 1 Nat.one_lt_two waiting
      obtain ⟨_, value, may, _⟩ := allowed.resolve_left fun left => absurd left.1 Nat.one_ne_zero
      exact .inr ⟨value, delay', may, by omega⟩

theorem pays_pairFailure (halves : Halves left right whole) {world : World σ} {debt : Debt} {jobs : ℕ∞}
    {start number index delay : Nat} {error : ε} {next : Except ε (α × β) → Script σ}
    (known : world[number]? = some (pair halves setting debt jobs start)) (impatient : ¬setting.patient)
    (timely : (start + delay : ℕ∞) ≤ (pair halves setting debt jobs start : Protocol σ).latest index)
    (pays : Concedes left delay → Concedes right delay →
      Pays setting world {debt} (start + delay) jobs (next (.error error))) :
    Pays setting world {⟨number, index⟩} (start + delay) 0
      (handOnce number (fun _ => next (.error error)) fun _ => .done) := by
  rw [← zero_add ({⟨number, index⟩} : Multiset Debt)]
  apply Arrives.pays known (by rwa [Nat.cast_add]) (by simp)
  intro content pending expects
  have shape : ∀ content pending, (pair halves setting debt jobs start : Protocol σ).valid
      (start + delay) content pending ↔ _ := fun _ _ => Iff.rfl
  cases settled : content.settled with
  | true => exact arrives_late shape expects settled settled (changes_settled settled) .done
  | false =>
    obtain ⟨left', right'⟩ := concedes_of_expects halves expects settled
    exact arrives_settling shape settled rfl (fun patient => absurd patient impatient)
      (changes_unsettled settled) (Idle.done.andThen (pays left' right'))

theorem keeps_halves {first : Future σ ε α} {second : Future σ ε β} (halves : Halves left right whole)
    (keeps : first.Keeps setting left) (keeps' : second.Keeps setting right)
    (timeless : setting.nested → Timeless left ∧ Timeless right) (impatient : ¬setting.patient)
    (count : whole.jobs = left.jobs + right.jobs) : (zip first second).Keeps setting whole := by
  intro world debt now jobs next timely pays
  have valid : (pair halves setting debt jobs now : Protocol σ).valid now (.ofSize 2) (Finset.range 2) :=
    ⟨fun settled => absurd settled (by simp [Group.ofSize]), fun _ => ⟨⟨0, by simp⟩, .ofSize ..⟩⟩
  refine pays_gather (pair halves setting debt jobs now) rfl rfl rfl
    (fun patient => absurd patient impatient) (fun nested index => ?_) valid timely
    fun later extended => ?_
  · show (now : ℕ∞) + (if index = 0 then left.latest else right.latest) = ⊤
    rw [(timeless nested).1.1, (timeless nested).2.1, ite_self, add_top]
  · have known : (later ++ [pair halves setting debt jobs now])[later.length]? = _ :=
      List.getElem?_concat_length ..
    have paysLater : ∀ further, later ++ [pair halves setting debt jobs now] <+: further →
        ∀ result delay, whole.may result delay →
          Pays setting further {debt} (now + delay) jobs (next result) :=
      fun further extended' result delay may =>
        (pays result delay may).extend ((extended.trans (List.prefix_append ..)).trans extended')
    have owed : (pair halves setting debt jobs now : Protocol σ).debts later.length =
        {⟨later.length, 0⟩} + {⟨later.length, 1⟩} := rfl
    have one : Pays setting (later ++ [pair halves setting debt jobs now]) {⟨later.length, 0⟩} now
        (left.jobs + 0) (first.run (leftArrival next later.length)) := by
      refine pays_started keeps (fun nested => (timeless nested).1) (le_refl now) (.inr rfl)
        (World.latest_eq known 0) fun outcome delay may => ?_
      have early := add_le_add_right (left.le_latest may) (now : ℕ∞)
      cases outcome with
      | ok value =>
        exact pays_settlePair halves known (.inl ⟨rfl, value, may, rfl⟩) early
          (paysLater _ (List.prefix_refl _))
      | error error =>
        exact pays_pairFailure halves known impatient early fun _ concedes =>
          paysLater _ (List.prefix_refl _) _ delay (halves.left_fails error delay may concedes)
    have two : ∀ further time, later ++ [pair halves setting debt jobs now] <+: further → now ≤ time →
        (setting.nested ∨ time = now) → Pays setting further {⟨later.length, 1⟩} time
          (right.jobs + 0) (second.run (rightArrival next later.length)) := by
      intro further time extended' after instant
      have known' := World.getElem?_extend extended' known
      refine pays_started keeps' (fun nested => (timeless nested).2) after instant
        (World.latest_eq known' 1) fun outcome delay may => ?_
      have early := add_le_add_right (right.le_latest may) (now : ℕ∞)
      cases outcome with
      | ok value =>
        exact pays_settlePair halves known' (.inr ⟨rfl, value, may, rfl⟩) early (paysLater _ extended')
      | error error =>
        exact pays_pairFailure halves known' impatient early fun concedes _ =>
          paysLater _ extended' _ delay (halves.right_fails error delay may concedes)
    rw [add_zero] at one
    have paid := one.andThen (fun _ debt owed => ?_) two
    · rwa [owed, count, ← add_zero right.jobs]
    · rw [Multiset.mem_singleton.mp owed, World.latest_eq known]
      exact le_self_add

structure Pairs (left : Promise ε α) (right : Promise ε β) (whole : Promise ε (α × β)) : Prop where
  left_latest : left.latest ≤ whole.latest
  right_latest : right.latest ≤ whole.latest
  both : ∀ first second delay delay' time, left.may (.ok first) delay → right.may (.ok second) delay' →
    delay ≤ time → delay' ≤ time →
    ((∃ outcome, left.may outcome time) ∨ ∃ outcome, right.may outcome time) →
    whole.may (.ok (first, second)) time
  left_fails : ∀ error delay, left.may (.error error) delay → whole.may (.error error) delay
  right_fails : ∀ error delay, right.may (.error error) delay → whole.may (.error error) delay

theorem Pairs.halves (pairs : Pairs left right whole) : Halves left right whole where
  critical := .inl pairs.left_latest
  left_critical _ _ _ := pairs.left_latest
  right_critical _ _ _ := pairs.right_latest
  both := pairs.both
  left_fails error delay may _ := pairs.left_fails error delay may
  right_fails error delay may _ := pairs.right_fails error delay may

theorem keeps_zip {first : Future σ ε α} {second : Future σ ε β} (pairs : Pairs left right whole)
    (keeps : first.Keeps setting left) (keeps' : second.Keeps setting right)
    (timeless : setting.nested → Timeless left ∧ Timeless right) (impatient : ¬setting.patient)
    (count : whole.jobs = left.jobs + right.jobs) : (zip first second).Keeps setting whole :=
  keeps_halves pairs.halves keeps keeps' timeless impatient count

end Deferred.Parallel
