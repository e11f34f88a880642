import Deferred.Proofs.Twin.Uniform

/-! What can be seen of two loops from outside: which jobs were submitted and started and when, and which ones
wait. Two scripts act alike on a loop if nothing of that tells one from the other, however many turns are made
after them. Twin scripts act alike on every loop on which all that waits is a twin of itself. -/

namespace Deferred

variable {σ β : Type}

def Script.Uniform (rules : List (Rule σ)) (script : Script σ) : Prop :=
  Twin rules 0 script script

def Job.label (job : Job σ) : Nat × Route :=
  (job.ticket, job.route)

def Timer.label (timer : Timer σ) : Nat × Nat × Nat × Route :=
  (timer.deadline, timer.number, timer.job.label)

theorem Paired.map_eq {γ : Type} {related : Multiset Token → β → β → Prop} {share : Multiset Token}
    {list list' : List β} (paired : Paired related share list list') {f : β → γ}
    (same : ∀ share member member', related share member member' → f member' = f member) :
    list'.map f = list.map f := by
  induction paired with
  | nil => rfl
  | cons head _ ih => rw [List.map_cons, List.map_cons, same _ _ _ head, ih]

namespace Loop

/-- Two loops that have submitted and started the same jobs, in the same order and at the same times. The same
jobs wait on them. -/
structure Alike (loop loop' : Loop σ) : Prop where
  config : loop'.config = loop.config
  streak : loop'.streak = loop.streak
  armed : loop'.armed = loop.armed
  clock : loop'.clock = loop.clock
  issued : loop'.issued = loop.issued
  ready : loop'.ready.toList.map Job.label = loop.ready.toList.map Job.label
  low : loop'.low.toList.map Job.label = loop.low.toList.map Job.label
  timers : loop'.timers.map Timer.label = loop.timers.map Timer.label
  journal : outward loop'.journal = outward loop.journal

variable {rules : List (Rule σ)} {held : Multiset Token} {loop loop' : Loop σ}

theorem Mirror.alike (mirror : loop.Mirror rules held loop') : loop.Alike loop' := by
  obtain ⟨shares, mirrors⟩ := mirror
  have label : ∀ share (job job' : Job σ), job.Twins rules share job' → job'.label = job.label := by
    intro share job job' twins
    rw [Job.label, Job.label, twins.ticket, twins.route]
  refine { mirrors with
    ready := mirrors.ready.map_eq label, low := mirrors.low.map_eq label
    timers := mirrors.timers.map_eq fun share timer timer' twins => ?_ }
  rw [Timer.label, Timer.label, twins.deadline, twins.number, label _ _ _ twins.job]

def turns (bound : Nat) : Nat → Loop σ → Option (List Turn × Loop σ)
  | 0, loop => some ([], loop)
  | count + 1, loop =>
    match loop.turn bound with
    | none => none
    | some (outcome, loop) => (turns bound count loop).map fun ended => (outcome :: ended.1, ended.2)

theorem turns_agree (bound count : Nat) (mirror : loop.Mirror rules held loop') :
    Agree rules held (loop.turns bound count) (loop'.turns bound count) := by
  induction count generalizing rules loop loop' with
  | zero => exact .some mirror.later
  | succ count ih =>
    have agree : Agree rules held (loop.turn bound) (loop'.turn bound) :=
      turnOn_agree (mirrors_hostAt bound bound) mirror
    simp only [turns]
    generalize loop.turn bound = result, loop'.turn bound = result' at agree
    cases agree with
    | none => exact .none
    | @some outcome next next' later =>
      obtain ⟨further, extended, mirror⟩ := later
      have rest := (ih mirror).back extended
      dsimp only
      generalize next.turns bound count = ended, next'.turns bound count = ended' at rest
      cases rest with
      | none => exact .none
      | some later => exact .some later

/-- On this loop two scripts have the same effect as far as it can be seen from outside, and so have all turns
that are made after them. Either both runs come to an end or neither does. -/
def ActAlike (loop : Loop σ) (script script' : Script σ) : Prop :=
  ∀ bound count : Nat, Option.Rel (fun ended ended' => ended'.1 = ended.1 ∧ ended.2.Alike ended'.2)
    ((loop.perform bound script).bind (turns bound count))
    ((loop.perform bound script').bind (turns bound count))

def Uniform (rules : List (Rule σ)) (loop : Loop σ) : Prop :=
  loop.Mirror rules 0 loop

namespace Uniform

variable (uniform : loop.Uniform rules)

include uniform

theorem mirror : loop.Mirror rules (0 + 0) loop := by
  rw [add_zero]
  exact uniform

theorem submit (lane : Lane) {job : Unit → Script σ} (script : (job ()).Uniform rules) :
    (loop.submit lane job).Uniform rules :=
  uniform.mirror.submit lane script

theorem actAlike {script script' : Script σ} (twin : Twin rules 0 script script') :
    loop.ActAlike script script' := by
  intro bound count
  have ends := twin.run (mirrors_hostAt bound bound) uniform.mirror
  change Option.Rel _ ((script.run _ loop).bind _) ((script'.run _ loop).bind _)
  generalize script.run (hostAt bound bound) loop = result,
    script'.run (hostAt bound bound) loop = result' at ends
  cases ends with
  | none => exact .none
  | @some after after' later =>
    obtain ⟨further, -, mirror⟩ := later
    have agree := turns_agree bound count mirror
    simp only [Option.bind_some]
    generalize after.turns bound count = ended, after'.turns bound count = ended' at agree
    cases agree with
    | none => exact .none
    | some later => exact .some ⟨rfl, later.choose_spec.2.alike⟩

end Uniform

end Loop

end Deferred
