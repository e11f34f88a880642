import Deferred.Proofs.Twin.Mirror
import Deferred.Proofs.Loop.Moments

/-! Running twin scripts on loops that mirror each other. Either both runs have a result or none has one, and
the results mirror each other. Both have submitted the same jobs and started the same ones, in the same order,
also in the turns that jobs make themselves. -/

namespace Deferred

variable {σ β : Type}

namespace Loop

/-- Two runs of turns: both have no result, or the same answer and loops that mirror each other. -/
inductive Agree (rules : List (Rule σ)) (held : Multiset Token) :
    Option (β × Loop σ) → Option (β × Loop σ) → Prop
  | none : Agree rules held none none
  | some {answer loop loop'} (mirror : loop.MirrorLater rules held loop') :
      Agree rules held (some (answer, loop)) (some (answer, loop'))

variable {rules further : List (Rule σ)} {held : Multiset Token} {loop loop' : Loop σ}

theorem Mirror.later (mirror : loop.Mirror rules held loop') : loop.MirrorLater rules held loop' :=
  ⟨rules, List.prefix_refl rules, mirror⟩

theorem MirrorLater.back (mirror : loop.MirrorLater further held loop') (extended : rules <+: further) :
    loop.MirrorLater rules held loop' := by
  obtain ⟨last, extended', mirror⟩ := mirror
  exact ⟨last, extended.trans extended', mirror⟩

theorem Agree.back {result result' : Option (β × Loop σ)} (agree : Agree further held result result')
    (extended : rules <+: further) : Agree rules held result result' := by
  cases agree with
  | none => exact .none
  | some mirror => exact .some (mirror.back extended)

abbrev Ends (rules : List (Rule σ)) (held : Multiset Token) : Option (Loop σ) → Option (Loop σ) → Prop :=
  Option.Rel (MirrorLater rules held)

theorem Ends.back {result result' : Option (Loop σ)} (ends : Ends further held result result')
    (extended : rules <+: further) : Ends rules held result result' := by
  cases ends with
  | none => exact .none
  | some mirror => exact .some (mirror.back extended)

end Loop

open Loop (Mirror Agree Ends)

structure Host.Mirrors (host : Host σ) : Prop where
  turn : ∀ {rules held} {loop loop' : Loop σ}, loop.Mirror rules held loop' →
    Agree rules held (host.turn loop) (host.turn loop')
  finish : ∀ {rules share held script script'} {loop loop' : Loop σ}, Twin rules share script script' →
    loop.Mirror rules (share + held) loop' →
      Ends rules held (host.finish script loop) (host.finish script' loop')

theorem driveWith_agree {turn : Loop σ → Option (Turn × Loop σ)} {held : Multiset Token}
    (agrees : ∀ {rules} {loop loop' : Loop σ}, loop.Mirror rules held loop' →
      Agree rules held (turn loop) (turn loop'))
    {halt : Loop σ → Bool} (halts : ∀ {rules} {loop loop' : Loop σ}, loop.Mirror rules held loop' →
      halt loop' = halt loop) {fuel ran : Nat} {rules : List (Rule σ)} {loop loop' : Loop σ}
    (mirror : loop.Mirror rules held loop') :
    Agree rules held (Loop.driveWith turn halt fuel ran loop)
      (Loop.driveWith turn halt fuel ran loop') := by
  induction fuel generalizing rules ran loop loop' with
  | zero => exact .none
  | succ fuel ih =>
    simp only [Loop.driveWith, halts mirror]
    split
    next => exact .some mirror.later
    next =>
      have agree := agrees mirror
      generalize turn loop = result, turn loop' = result' at agree
      cases agree with
      | none => exact .none
      | @some outcome next next' later =>
        obtain ⟨further, extended, mirror⟩ := later
        cases outcome with
        | ran => exact (ih mirror).back extended
        | slept => exact (ih mirror).back extended
        | idle => exact .some ⟨further, extended, mirror⟩

theorem Twin.run {host : Host σ} (good : host.Mirrors) {rules : List (Rule σ)} {share : Multiset Token}
    {script script' : Script σ} (twin : Twin rules share script script') :
    ∀ {held} {loop loop' : Loop σ}, loop.Mirror rules (share + held) loop' →
      Ends rules held (script.run host loop) (script'.run host loop') := by
  -- By induction on how the scripts agree. What others hold stays open: a submitted job takes its share there.
  induction twin with
  | done => exact fun mirror => .some mirror.drop.later
  | stuck => exact fun _ => .none
  | submit twinJob _ _ ih =>
    intro held loop loop' mirror
    rw [add_assoc] at mirror
    exact ih (mirror.submit _ twinJob)
  | now _ ih =>
    intro held loop loop' mirror
    have clock : loop'.clock = loop.clock := mirror.choose_spec.clock
    simp only [Script.run, clock]
    exact ih _ mirror
  | record _ ih => exact fun mirror => ih (mirror.record _)
  | review _ ih =>
    intro held loop loop' mirror
    exact ih _ _ mirror.choose_spec.journal.symm mirror
  | @gather rules share kept content next next' rule members fresh _ ih =>
    intro held loop loop' mirror
    rw [add_assoc] at mirror
    have gathered := mirror.gather members (fresh rules.length)
    rw [← add_assoc] at gathered
    simp only [Script.run, mirror.choose_spec.size, mirror.choose_spec.size']
    exact (ih rules (List.prefix_refl rules) gathered).back (List.prefix_append ..)
  | visit visit known follows _ ih =>
    intro held loop loop' mirror
    obtain ⟨inside, inside', kept, valid, nodup, visited⟩ := mirror.visit known
    obtain ⟨first, second, rule, tokens⟩ := follows kept _ _ valid nodup
    obtain ⟨journal, same, ran⟩ := first host loop inside rfl
    obtain ⟨journal', same', ran'⟩ := second host loop' inside' rfl
    rw [ran, ran']
    exact ih kept _ _ valid nodup (visited _ journal journal' rule tokens same same')
  | configure _ ih => exact fun mirror => ih (mirror.configure _)
  | inspect _ ih =>
    intro held loop loop' mirror
    simp only [Script.run, mirror.stats, mirror.choose_spec.config]
    exact ih _ _ mirror
  | turn _ ih =>
    intro held loop loop' mirror
    have agree := good.turn mirror
    simp only [Script.run]
    generalize host.turn loop = result, host.turn loop' = result' at agree
    cases agree with
    | none => exact .none
    | some later =>
      obtain ⟨further, extended, mirror⟩ := later
      exact (ih further _ extended mirror).back extended
  | @drain rules share _ _ _ ih =>
    intro held loop loop' mirror
    have agree : Agree rules (share + held) (Loop.driveWith host.turn (fun _ => false) host.bound 0 loop)
        (Loop.driveWith host.turn (fun _ => false) host.bound 0 loop') :=
      driveWith_agree good.turn (fun _ => rfl) mirror
    simp only [Script.run]
    generalize Loop.driveWith host.turn (fun _ => false) host.bound 0 loop = result,
      Loop.driveWith host.turn (fun _ => false) host.bound 0 loop' = result' at agree
    cases agree with
    | none => exact .none
    | some later =>
      obtain ⟨further, extended, mirror⟩ := later
      exact (ih further _ extended mirror).back extended
  | hold _ ih =>
    intro held loop loop' mirror
    simp only [Script.run, mirror.wakers_size]
    exact ih _ mirror.hold
  | wake twinRest _ _ ih =>
    intro held loop loop' mirror
    rw [add_assoc] at mirror
    exact ih (mirror.wake _ twinRest)
  | @await rules share waker next next' _ ih =>
    intro held loop loop' mirror
    have agree : Agree rules (share + held)
        (Loop.driveWith host.turn (fun loop => (loop.rest? waker).isSome) host.bound 0 loop)
        (Loop.driveWith host.turn (fun loop => (loop.rest? waker).isSome) host.bound 0 loop') :=
      driveWith_agree good.turn (fun mirror => mirror.woken_isSome waker) mirror
    simp only [Script.run]
    generalize Loop.driveWith host.turn (fun loop => (loop.rest? waker).isSome) host.bound 0 loop = result,
      Loop.driveWith host.turn (fun loop => (loop.rest? waker).isSome) host.bound 0 loop' = result' at agree
    cases agree with
    | none => exact .none
    | @some count driven driven' later =>
      obtain ⟨further, extended, mirror⟩ := later
      rcases mirror.woken waker with ⟨none, none'⟩ | ⟨own, rest, rest', given, given', twinRest, taken⟩
      · simp only [none, none']
        exact (ih further false extended mirror).back extended
      · simp only [given, given']
        have ends := good.finish twinRest taken
        generalize host.finish (rest ()) (driven.clearWaker waker) = result,
          host.finish (rest' ()) (driven'.clearWaker waker) = result' at ends
        cases ends with
        | none => exact .none
        | some later =>
          obtain ⟨last, extended', mirror⟩ := later
          have within := extended.trans extended'
          exact (ih last true within mirror).back within
  | budget _ ih => exact fun mirror => ih _ mirror

namespace Loop

variable {rules : List (Rule σ)} {held : Multiset Token} {loop loop' : Loop σ}

theorem turnOn_agree {host : Host σ} (good : host.Mirrors) (mirror : loop.Mirror rules held loop') :
    Agree rules held (loop.turnOn host) (loop'.turnOn host) := by
  have next := mirror.next
  unfold turnOn
  generalize loop.next = duty, loop'.next = duty' at next
  cases next with
  | @run share job job' popped popped' twins mirror =>
    have ends := twins.twin.run good (mirror.start twins)
    dsimp only
    generalize (job.script ()).run host (popped.start job) = result,
      (job'.script ()).run host (popped'.start job') = result' at ends
    cases ends with
    | none => exact .none
    | some later => exact .some later
  | sleep deadline => exact .some (mirror.sleep deadline).later
  | idle => exact .some mirror.later

theorem mirrors_hostAt (bound depth : Nat) : (hostAt bound depth : Host σ).Mirrors := by
  induction depth with
  | zero => exact ⟨fun _ => .none, fun _ _ => .none⟩
  | succ depth ih => exact ⟨turnOn_agree ih, fun twin mirror => twin.run ih mirror⟩

end Loop

end Deferred
