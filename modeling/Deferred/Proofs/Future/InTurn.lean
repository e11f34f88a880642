import Deferred.Future.Sequential
import Deferred.Proofs.Twin.Diary

/-! Futures that run one after another, and what their diary tells. Each of them notes when it is started and with
what outcome it settles, and whoever waits for all of them notes what is handed on. A verdict says of the outcomes
so far whether they decide what is handed on: it tells the two ways apart in which lists of futures run in turn. -/

namespace Deferred

variable {σ ε α β : Type}

inductive Stage (ε α β : Type) where
  /-- One of them is started. -/
  | started (index : Nat)
  /-- One of them calls its continuation. -/
  | settled (index : Nat) (outcome : Except ε α)
  /-- The common outcome is handed on. -/
  | handedOn (result : Except ε β)
deriving Repr

namespace Stage

def isStart : Stage ε α β → Bool
  | started _ => true
  | settled _ _ | handedOn _ => false

def isEnd : Stage ε α β → Bool
  | settled _ _ => true
  | started _ | handedOn _ => false

def isResult : Stage ε α β → Bool
  | handedOn _ => true
  | started _ | settled _ _ => false

def course (outcomes : List (Except ε α)) : List (Stage ε α β) :=
  outcomes.zipIdx.flatMap fun (outcome, index) => [started index, settled index outcome]

theorem course_concat (outcomes : List (Except ε α)) (outcome : Except ε α) :
    (course (outcomes ++ [outcome]) : List (Stage ε α β)) =
      course outcomes ++ [started outcomes.length] ++ [settled outcomes.length outcome] := by
  simp [course, List.zipIdx_append]

theorem settled_mem_course {outcomes : List (Except ε α)} {index : Nat} {outcome : Except ε α}
    (found : outcomes[index]? = some outcome) :
    settled index outcome ∈ (course outcomes : List (Stage ε α β)) := by
  apply List.mem_flatMap.mpr
  refine ⟨(outcome, index), List.mk_mem_zipIdx_iff_getElem?.mpr found, ?_⟩
  exact List.mem_cons_of_mem _ List.mem_cons_self

end Stage

open Stage (course)

namespace Sequential

abbrev Verdict (ε α β : Type) : Type :=
  List (Except ε α) → Option (Except ε β)

def everyOutcome (size : Nat) : Verdict ε α (List (Except ε α)) :=
  fun outcomes => if outcomes.length = size then some (.ok outcomes) else none

def valuesOrFailure (size : Nat) : Verdict ε α (List α) :=
  fun outcomes => match outcomes.mapM id with
    | .error error => some (.error error)
    | .ok values => if values.length = size then some (.ok values) else none

def inTurn (verdict : Verdict ε α β) (seen : List (Except ε α)) : List (Future σ ε α) → Future σ ε β
  | [] => (verdict seen).elim .never .settled
  | future :: rest => (verdict seen).elim
      (future.bindOutcome fun outcome => inTurn verdict (seen ++ [outcome]) rest) .settled

theorem inTurn_of_decided {verdict : Verdict ε α β} {seen : List (Except ε α)} {result : Except ε β}
    (decided : verdict seen = some result) (futures : List (Future σ ε α)) :
    inTurn verdict seen futures = .settled result := by
  cases futures with
  | nil => rw [inTurn, decided]; rfl
  | cons future rest => rw [inTurn, decided]; rfl

theorem inTurn_of_undecided {verdict : Verdict ε α β} {seen : List (Except ε α)}
    (undecided : verdict seen = none) (future : Future σ ε α) (rest : List (Future σ ε α)) :
    inTurn verdict seen (future :: rest) =
      future.bindOutcome fun outcome => inTurn verdict (seen ++ [outcome]) rest := by
  rw [inTurn, undecided]
  rfl

theorem outcomesAfter_eq_inTurn (seen : List (Except ε α)) (futures : List (Future σ ε α)) :
    outcomesAfter seen futures = inTurn (everyOutcome (seen.length + futures.length)) seen.reverse futures := by
  induction futures generalizing seen with
  | nil =>
    symm
    apply inTurn_of_decided
    simp [everyOutcome]
  | cons future rest ih =>
    have undecided : everyOutcome (seen.length + (future :: rest).length) seen.reverse = none := by
      simp [everyOutcome]
    rw [inTurn_of_undecided undecided, outcomesAfter]
    congr 1
    funext outcome
    rw [ih, List.reverse_cons, List.length_cons, List.length_cons, Nat.add_right_comm, Nat.add_assoc]

theorem allSettled_eq_inTurn (futures : List (Future σ ε α)) :
    allSettled futures = inTurn (everyOutcome futures.length) [] futures := by
  have same := outcomesAfter_eq_inTurn [] futures
  rwa [List.length_nil, Nat.zero_add] at same

theorem mapM_values (values : List α) : (values.map (.ok : α → Except ε α)).mapM id = .ok values := by
  induction values with
  | nil => rfl
  | cons value values ih => simp [List.mapM_cons, ih]; rfl

theorem eq_map_of_mapM {outcomes : List (Except ε α)} {values : List α} (all : outcomes.mapM id = .ok values) :
    outcomes = values.map .ok := by
  induction outcomes generalizing values with
  | nil =>
    obtain rfl := Except.ok.inj all
    rfl
  | cons outcome outcomes ih =>
    rw [List.mapM_cons] at all
    cases outcome with
    | error error => exact absurd all (by simp [bind, Except.bind])
    | ok value =>
      cases rest : outcomes.mapM id with
      | error error => exact absurd all (by simp [rest, bind, Except.bind])
      | ok others =>
        rw [rest] at all
        obtain rfl := Except.ok.inj all
        rw [ih rest, List.map_cons]

theorem valuesOrFailure_values (size : Nat) (values : List α) :
    valuesOrFailure size (values.map (.ok : α → Except ε α)) =
      if values.length = size then some (.ok values) else none := by
  rw [valuesOrFailure, mapM_values]

theorem valuesOrFailure_failure (size : Nat) (values : List α) (error : ε) :
    valuesOrFailure size (values.map (.ok : α → Except ε α) ++ [.error error]) = some (.error error) := by
  rw [valuesOrFailure, List.mapM_append, mapM_values]
  rfl

theorem exists_values_of_undecided {size : Nat} {outcomes : List (Except ε α)}
    (more : valuesOrFailure size outcomes = none) : ∃ values : List α, outcomes = values.map .ok := by
  cases all : outcomes.mapM id with
  | ok values => exact ⟨values, eq_map_of_mapM all⟩
  | error error =>
    rw [valuesOrFailure, all] at more
    cases more

theorem valuesAfter_eq_inTurn (seen : List α) (futures : List (Future σ ε α)) :
    valuesAfter seen futures =
      inTurn (valuesOrFailure (seen.length + futures.length)) (seen.reverse.map .ok) futures := by
  induction futures generalizing seen with
  | nil =>
    symm
    apply inTurn_of_decided
    rw [valuesOrFailure_values, List.length_reverse]
    exact if_pos rfl
  | cons future rest ih =>
    have undecided : valuesOrFailure (seen.length + (future :: rest).length)
        (seen.reverse.map (.ok : α → Except ε α)) = none := by
      rw [valuesOrFailure_values, List.length_reverse, List.length_cons]
      apply if_neg
      omega
    rw [inTurn_of_undecided undecided, valuesAfter, Future.bind, Future.andThen]
    congr 1
    funext outcome
    cases outcome with
    | ok value =>
      have counted : (value :: seen).length + rest.length = seen.length + (future :: rest).length := by
        rw [List.length_cons, List.length_cons]
        omega
      simp only [ih, counted, List.reverse_cons, List.map_append, List.map_cons, List.map_nil]
    | error error =>
      symm
      apply inTurn_of_decided
      exact valuesOrFailure_failure _ seen.reverse error

theorem all_eq_inTurn (futures : List (Future σ ε α)) :
    all futures = inTurn (valuesOrFailure futures.length) [] futures := by
  have same := valuesAfter_eq_inTurn [] futures
  rwa [List.length_nil, Nat.zero_add] at same

end Sequential

end Deferred
