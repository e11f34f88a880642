import Deferred.Proofs.Future.Forced
import Mathlib.Data.List.Range

/-! What a lazy list may denote: the values that come of it when it is forced, and how it ends. It may end with the
empty list or with a fault of a cell or of a member, or it may not end at all. Most operations on lists are simple
to describe in these terms. -/

universe u v

namespace Deferred

variable {ε : Type} {α : Type u} {β : Type v}

inductive Ending (ε : Type) where
  | nil
  | fault (fault : Fault ε)

def Ending.collected (values : List α) : Ending ε → Except (Fault ε) (List α)
  | .nil => .ok values
  | .fault reason => .error reason

inductive Meaning (ε : Type) (α : Type u) where
  | finite (values : List α) (ending : Ending ε)
  | infinite (values : Nat → α)

namespace Meaning

def firsts (values : Nat → α) (count : Nat) : List α :=
  (List.range count).map values

@[simp] theorem length_firsts (values : Nat → α) (count : Nat) : (firsts values count).length = count := by
  simp [firsts]

theorem eq_of_firsts {values values' : Nat → α} (same : ∀ count, firsts values count = firsts values' count) :
    values = values' := by
  funext index
  have last := same (index + 1)
  rw [firsts, firsts, List.range_succ, List.map_append, List.map_append] at last
  exact List.singleton_inj.mp (List.append_inj_right last (by simp))

def prepend (front : List α) (values : Nat → α) (index : Nat) : α :=
  (front[index]?).getD (values (index - front.length))

theorem firsts_prepend (front : List α) (values : Nat → α) (count : Nat) :
    firsts (prepend front values) (front.length + count) = front ++ firsts values count := by
  apply List.ext_getElem
  · simp
  · intro index inside inside'
    simp only [firsts, prepend, List.getElem_map, List.getElem_range, List.getElem_append]
    split
    next within => simp [within]
    next beyond => rw [List.getElem?_eq_none (Nat.not_lt.mp beyond), Option.getD_none]

theorem firsts_prefix (values : Nat → α) {count more : Nat} (less : count ≤ more) :
    firsts values count <+: firsts values more := by
  obtain ⟨rest, rfl⟩ := Nat.exists_eq_add_of_le less
  unfold firsts
  rw [List.range_add, List.map_append]
  exact List.prefix_append _ _

def Begins (front : List α) : Meaning ε α → Prop
  | .finite values _ => front <+: values
  | .infinite values => front = firsts values front.length

def Has (denoted : Meaning ε α) (value : α) : Prop :=
  ∃ front, denoted.Begins (front ++ [value])

theorem begins_firsts (values : Nat → α) (count : Nat) :
    (Meaning.infinite values : Meaning ε α).Begins (firsts values count) := by
  rw [Begins, length_firsts]

theorem Begins.of_append {denoted : Meaning ε α} {front rest : List α}
    (begins : denoted.Begins (front ++ rest)) : denoted.Begins front := by
  cases denoted with
  | finite values => exact (List.prefix_append front rest).trans begins
  | infinite values =>
    have within : front <+: firsts values (front ++ rest).length :=
      begins ▸ List.prefix_append front rest
    have shorter : firsts values front.length <+: firsts values (front ++ rest).length :=
      firsts_prefix values (List.prefix_append front rest).length_le
    exact (List.prefix_of_prefix_length_le within shorter (by simp)).eq_of_length (by simp)

def Shows (values : List α) (ending : Option (Ending ε)) : Meaning ε α → Prop
  | .finite all last => values = all ∧ ending = some last
  | .infinite all => ∃ count, values = firsts all count ∧ ending = none

def behind (front : List α) : Meaning ε α → Meaning ε α
  | .finite values ending => .finite (front ++ values) ending
  | .infinite values => .infinite (prepend front values)

def append : Meaning ε α → Meaning ε α → Meaning ε α
  | .finite values .nil, other => other.behind values
  | .finite values (.fault fault), _ => .finite values (.fault fault)
  | .infinite values, _ => .infinite values

def map (f : α → β) : Meaning ε α → Meaning ε β
  | .finite values ending => .finite (values.map f) ending
  | .infinite values => .infinite fun index => f (values index)

def take (count : Nat) : Meaning ε α → Meaning ε α
  | .finite values ending =>
    if count ≤ values.length then .finite (values.take count) .nil else .finite values ending
  | .infinite values => .finite (firsts values count) .nil

/-- What becomes of a list when each of its values is replaced by what `each` says of the value, up to the first
end that is not the empty list. There is no result if nothing but empty lists is to come for ever. -/
inductive Flattens (each : α → Meaning ε β → Prop) : Meaning ε α → Meaning ε β → Prop where
  | all {values : List α} {ending : Ending ε} {expand : α → List β}
      (ends : ∀ value ∈ values, each value (.finite (expand value) .nil)) :
      Flattens each (.finite values ending) (.finite (values.flatMap expand) ending)
  | upTo {denoted : Meaning ε α} {front : List α} {value : α} {expand : α → List β}
      {last : Meaning ε β} (begins : denoted.Begins (front ++ [value]))
      (ends : ∀ value ∈ front, each value (.finite (expand value) .nil)) (shows : each value last)
      (unended : ∀ values, last ≠ .finite values .nil) :
      Flattens each denoted (last.behind (front.flatMap expand))
  | endless {values : Nat → α} {expand : α → List β} {result : Nat → β}
      (ends : ∀ index, each (values index) (.finite (expand (values index)) .nil))
      (reaches : ∀ count, ∃ enough, firsts result count <+: (firsts values enough).flatMap expand) :
      Flattens each (.infinite values) (.infinite result)

variable {each : α → Meaning ε β → Prop}

/-- Lines that agree, and of which no length is the greatest, begin one infinite sequence. -/
theorem exists_firsts {lines : Nat → List β} (long : ∀ count, count ≤ (lines count).length)
    (agree : ∀ count more, lines count <+: lines more ∨ lines more <+: lines count) :
    ∃ values, ∀ count, firsts values count <+: lines count := by
  refine ⟨fun index => (lines (index + 1)).get ⟨index, long (index + 1)⟩, fun count => ?_⟩
  refine List.prefix_iff_eq_take.mpr (List.ext_getElem ?_ fun index inside inside' => ?_)
  · simp [long count]
  · simp only [firsts, List.getElem_map, List.getElem_range, List.getElem_take, List.get_eq_getElem]
    rcases agree (index + 1) count with within | within
    · exact within.getElem (long (index + 1))
    · have below : index < count := by simpa using inside
      exact (within.getElem (below.trans_le (long count))).symm

/-- Values that are replaced by more than nothing again and again are replaced by infinitely many. -/
theorem exists_endless {values : Nat → α} {expand : α → List β}
    (again : ∀ start, ∃ index, start ≤ index ∧ expand (values index) ≠ []) :
    ∃ result : Nat → β, ∀ count, ∃ enough, firsts result count <+: (firsts values enough).flatMap expand := by
  have grows {less more : Nat} (before : less ≤ more) :
      (firsts values less).flatMap expand <+: (firsts values more).flatMap expand := by
    obtain ⟨rest, same⟩ := firsts_prefix values before
    rw [← same, List.flatMap_append]
    exact List.prefix_append _ _
  have long (count : Nat) : ∃ enough, count ≤ ((firsts values enough).flatMap expand).length := by
    induction count with
    | zero => exact ⟨0, Nat.zero_le _⟩
    | succ count ih =>
      obtain ⟨enough, reached⟩ := ih
      obtain ⟨index, behind, more⟩ := again enough
      refine ⟨index + 1, ?_⟩
      have line : (firsts values (index + 1)).flatMap expand =
          (firsts values index).flatMap expand ++ expand (values index) := by
        simp [firsts, List.range_succ]
      rw [line, List.length_append]
      exact Nat.add_le_add (reached.trans (grows behind).length_le) (List.length_pos_of_ne_nil more)
  choose enough reached using long
  obtain ⟨result, within⟩ := exists_firsts reached fun count more =>
    (le_total (enough count) (enough more)).imp grows grows
  exact ⟨result, fun count => ⟨enough count, within count⟩⟩

/-- From some value on there are infinitely many, and all of them are replaced by empty lists. -/
def Idles (each : α → Meaning ε β → Prop) (denoted : Meaning ε α) : Prop :=
  ∃ values start, denoted = .infinite values ∧ ∀ index, start ≤ index → each (values index) (.finite [] .nil)

/-- If each of the values is replaced by something then so is the whole, unless nothing but empty lists is to come
for ever. -/
theorem exists_flattens {denoted : Meaning ε α}
    (shown : ∀ value, denoted.Has value → ∃ replaced, each value replaced) :
    (∃ result, Flattens each denoted result) ∨ Idles each denoted := by
  classical
  by_cases stops : ∃ front value last, denoted.Begins (front ++ [value]) ∧
      (∀ value ∈ front, ∃ others, each value (.finite others .nil)) ∧ each value last ∧
        ∀ values, last ≠ .finite values .nil
  · obtain ⟨front, value, last, begins, ends, shows, unended⟩ := stops
    choose! expand expands using ends
    exact .inl ⟨_, .upTo begins expands shows unended⟩
  · have ends (front : List α) (begins : denoted.Begins front) :
        ∀ value ∈ front, ∃ others, each value (.finite others .nil) := by
      induction front using List.reverseRecOn with
      | nil => exact List.forall_mem_nil _
      | append_singleton front value ih =>
        have before := ih begins.of_append
        obtain ⟨last, shows⟩ := shown value ⟨front, begins⟩
        refine List.forall_mem_append.mpr ⟨before, List.forall_mem_singleton.mpr ?_⟩
        by_contra unended
        exact stops ⟨front, value, last, begins, before, shows, fun others same => unended ⟨others, same ▸ shows⟩⟩
    cases denoted with
    | finite values ending =>
      choose! expand expands using ends values (List.prefix_refl values)
      exact .inl ⟨_, .all expands⟩
    | infinite values =>
      have all : ∀ value ∈ Set.range values, ∃ others, each value (.finite others .nil) := by
        rintro _ ⟨index, rfl⟩
        have member : values index ∈ firsts values (index + 1) :=
          List.mem_map_of_mem (List.mem_range.mpr (Nat.lt_succ_self index))
        exact ends _ (begins_firsts values _) _ member
      choose! expand expands using all
      by_cases again : ∀ start, ∃ index, start ≤ index ∧ expand (values index) ≠ []
      · obtain ⟨result, reaches⟩ := exists_endless again
        exact .inl ⟨_, .endless (fun index => expands _ ⟨index, rfl⟩) reaches⟩
      · push Not at again
        obtain ⟨start, nothing⟩ := again
        exact .inr ⟨values, start, rfl, fun index behind => nothing index behind ▸ expands _ ⟨index, rfl⟩⟩

end Meaning

end Deferred
