import Deferred.Proofs.Loop.Outward

/-! Two scripts that do the same, as far as anybody can tell who does not look into certain groups. They may
keep different contents in a group as long as its rule relates them. What may happen only once, such as the call
of a continuation or the arrival of a member of a group, is paid for with a token. A new group comes with tokens
for its members. A script holds the tokens that it may spend itself or hand to its jobs, and a group holds those
that it has got. No token is ever there twice. -/

namespace Deferred

variable {σ : Type}

abbrev Token : Type :=
  Nat × Nat

def Token.among (group start count : Nat) : Multiset Token :=
  (List.range' start count).map (Prod.mk group)

theorem Token.mem_among {group start count : Nat} {token : Token} (member : token ∈ among group start count) :
    token.1 = group := by
  obtain ⟨index, -, rfl⟩ := List.mem_map.mp (Multiset.mem_coe.mp member)
  rfl

theorem Token.nodup_among (group start count : Nat) : (among group start count).Nodup :=
  Multiset.coe_nodup.mpr (List.Nodup.map (fun _ _ same => (Prod.mk.inj same).2) List.nodup_range')

theorem Token.among_succ (group start count : Nat) :
    among group start (count + 1) = {(group, start)} + among group (start + 1) count := by
  rw [among, List.range'_succ, List.map_cons, ← Multiset.cons_coe, ← Multiset.singleton_add]
  rfl

/-- Which contents two runs may keep in a group with a number, and the tokens that the group holds then. -/
abbrev Rule (σ : Type) : Type :=
  Nat → Multiset Token → Group σ → Group σ → Prop

structure Visit (σ : Type) where
  first : Group σ
  second : Group σ
  /-- The tokens that the group holds then. -/
  kept : Multiset Token
  /-- The tokens that are left for the rest. -/
  share : Multiset Token
  firstRest : Script σ
  secondRest : Script σ

structure Visit.Follows (visit : Visit σ) (rule : Rule σ) (number : Nat) (share kept : Multiset Token)
    (content content' : Group σ) (script script' : Script σ) : Prop where
  first : script.Alters number content visit.first visit.firstRest
  second : script'.Alters number content' visit.second visit.secondRest
  rule : rule number visit.kept visit.first visit.second
  tokens : visit.share + visit.kept ≤ share + kept

/-- Two scripts do the same with the tokens that they share out, on loops with groups of these rules. -/
inductive Twin : List (Rule σ) → Multiset Token → Script σ → Script σ → Prop
  | done {rules share} : Twin rules share .done .done
  | stuck {rules share} : Twin rules share .stuck .stuck
  | submit {rules share share' lane job job' next next'} (twinJob : Twin rules share (job ()) (job' ()))
      (twin : Twin rules share' next next') :
      Twin rules (share + share') (.submit lane job next) (.submit lane job' next')
  | now {rules share next next'} (twin : ∀ time, Twin rules share (next time) (next' time)) :
      Twin rules share (.now next) (.now next')
  | record {rules share event next next'} (twin : Twin rules share next next') :
      Twin rules share (.record event next) (.record event next')
  | review {rules share next next'}
      (twin : ∀ journal journal', outward journal = outward journal' →
        Twin rules share (next journal) (next' journal')) :
      Twin rules share (.review next) (.review next')
  /-- The members of a new group get tokens. -/
  | gather {rules share kept content next next'} (rule : Rule σ) (members : Nat)
      (fresh : ∀ number, rule number kept content content)
      (twin : ∀ later, rules <+: later → Twin (later ++ [rule]) (Token.among later.length 0 members + share)
        (next later.length) (next' later.length)) :
      Twin rules (kept + share) (.gather content next) (.gather content next')
  | visit {rules share number script script'} {rule : Rule σ}
      (visit : Multiset Token → Group σ → Group σ → Visit σ) (known : rules[number]? = some rule)
      (follows : ∀ kept content content', rule number kept content content' → (share + kept).Nodup →
        (visit kept content content').Follows rule number share kept content content' script script')
      (twin : ∀ kept content content', rule number kept content content' → (share + kept).Nodup →
        Twin rules (visit kept content content').share (visit kept content content').firstRest
          (visit kept content content').secondRest) :
      Twin rules share script script'
  | configure {rules share config next next'} (twin : Twin rules share next next') :
      Twin rules share (.configure config next) (.configure config next')
  | inspect {rules share next next'}
      (twin : ∀ stats config, Twin rules share (next stats config) (next' stats config)) :
      Twin rules share (.inspect next) (.inspect next')
  | turn {rules share next next'}
      (twin : ∀ later outcome, rules <+: later → Twin later share (next outcome) (next' outcome)) :
      Twin rules share (.turn next) (.turn next')
  | drain {rules share next next'}
      (twin : ∀ later count, rules <+: later → Twin later share (next count) (next' count)) :
      Twin rules share (.drain next) (.drain next')
  | hold {rules share next next'} (twin : ∀ waker, Twin rules share (next waker) (next' waker)) :
      Twin rules share (.hold next) (.hold next')
  | wake {rules share share' waker rest rest' next next'}
      (twinRest : Twin rules share (rest ()) (rest' ())) (twin : Twin rules share' next next') :
      Twin rules (share + share') (.wake waker rest next) (.wake waker rest' next')
  | await {rules share waker next next'}
      (twin : ∀ later woken, rules <+: later → Twin later share (next woken) (next' woken)) :
      Twin rules share (.await waker next) (.await waker next')
  | budget {rules share next next'} (twin : ∀ bound, Twin rules share (next bound) (next' bound)) :
      Twin rules share (.budget next) (.budget next')

namespace Twin

variable {rules : List (Rule σ)} {share : Multiset Token} {script script' : Script σ}

theorem getElem?_extend {later : List (Rule σ)} (extended : rules <+: later) {number : Nat} {rule : Rule σ}
    (known : rules[number]? = some rule) : later[number]? = some rule := by
  obtain ⟨more, rfl⟩ := extended
  rw [List.getElem?_append_left (List.getElem?_eq_some_iff.mp known).1]
  exact known

theorem meet {number : Nat} {rule : Rule σ} (known : rules[number]? = some rule)
    (visits : ∀ kept content content', rule number kept content content' → (share + kept).Nodup →
      ∃ visit : Visit σ, visit.Follows rule number share kept content content' script script' ∧
        Twin rules visit.share visit.firstRest visit.secondRest) : Twin rules share script script' := by
  have choice : ∀ kept content content', ∃ visit : Visit σ, rule number kept content content' →
      (share + kept).Nodup →
        visit.Follows rule number share kept content content' script script' ∧
          Twin rules visit.share visit.firstRest visit.secondRest := by
    intro kept content content'
    by_cases allowed : rule number kept content content' ∧ (share + kept).Nodup
    · obtain ⟨visit, follows⟩ := visits kept content content' allowed.1 allowed.2
      exact ⟨visit, fun _ _ => follows⟩
    · exact ⟨⟨content, content', kept, share, .done, .done⟩, fun valid nodup =>
        absurd ⟨valid, nodup⟩ allowed⟩
  choose visit follows using choice
  exact .visit visit known (fun kept content content' valid nodup => (follows _ _ _ valid nodup).1)
    fun kept content content' valid nodup => (follows _ _ _ valid nodup).2

theorem extend (twin : Twin rules share script script') :
    ∀ {later}, rules <+: later → Twin later share script script' := by
  induction twin with
  | done => exact fun _ => .done
  | stuck => exact fun _ => .stuck
  | submit _ _ ihJob ih => exact fun extended => .submit (ihJob extended) (ih extended)
  | now _ ih => exact fun extended => .now fun time => ih time extended
  | record _ ih => exact fun extended => .record (ih extended)
  | review _ ih => exact fun extended => .review fun journal journal' same => ih journal journal' same extended
  | gather rule members fresh twin _ =>
    exact fun extended => .gather rule members fresh fun later extended' => twin later (extended.trans extended')
  | visit visit known follows _ ih =>
    exact fun extended => .visit visit (getElem?_extend extended known) follows
      fun kept content content' valid nodup => ih kept content content' valid nodup extended
  | configure _ ih => exact fun extended => .configure (ih extended)
  | inspect _ ih => exact fun extended => .inspect fun stats config => ih stats config extended
  | turn twin _ =>
    exact fun extended => .turn fun later outcome extended' => twin later outcome (extended.trans extended')
  | drain twin _ =>
    exact fun extended => .drain fun later count extended' => twin later count (extended.trans extended')
  | hold _ ih => exact fun extended => .hold fun waker => ih waker extended
  | wake _ _ ihRest ih => exact fun extended => .wake (ihRest extended) (ih extended)
  | await twin _ =>
    exact fun extended => .await fun later woken extended' => twin later woken (extended.trans extended')
  | budget _ ih => exact fun extended => .budget fun bound => ih bound extended

theorem spare (twin : Twin rules share script script') (more : Multiset Token) :
    Twin rules (share + more) script script' := by
  induction twin with
  | done => exact .done
  | stuck => exact .stuck
  | submit twinJob _ _ ih =>
    rw [add_assoc]
    exact .submit twinJob ih
  | now _ ih => exact .now ih
  | record _ ih => exact .record ih
  | review _ ih => exact .review ih
  | gather rule members fresh _ ih =>
    rw [add_assoc]
    refine .gather rule members fresh fun later extended => ?_
    rw [← add_assoc]
    exact ih later extended
  | @visit rules share number script script' rule visit known follows twin _ =>
    have fewer : ∀ {kept}, (share + more + kept).Nodup → (share + kept).Nodup := fun nodup =>
      Multiset.nodup_of_le (add_le_add_left (Multiset.le_add_right share more) _) nodup
    refine .visit visit known (fun kept content content' valid nodup => ?_)
      fun kept content content' valid nodup => twin kept content content' valid (fewer nodup)
    obtain ⟨first, second, rule, tokens⟩ := follows kept content content' valid (fewer nodup)
    exact ⟨first, second, rule, tokens.trans (add_le_add_left (Multiset.le_add_right share more) _)⟩
  | configure _ ih => exact .configure ih
  | inspect _ ih => exact .inspect ih
  | turn _ ih => exact .turn ih
  | drain _ ih => exact .drain ih
  | hold _ ih => exact .hold ih
  | wake twinRest _ _ ih =>
    rw [add_assoc]
    exact .wake twinRest ih
  | await _ ih => exact .await ih
  | budget _ ih => exact .budget ih

theorem andThen (twin : Twin rules share script script') {share' : Multiset Token} {last last' : Script σ}
    (after : Twin rules share' last last') :
    Twin rules (share + share') (script.andThen last) (script'.andThen last') := by
  induction twin with
  | done =>
    rw [add_comm]
    exact after.spare _
  | stuck => exact .stuck
  | submit twinJob _ _ ih =>
    rw [add_assoc]
    exact .submit twinJob (ih after)
  | now _ ih => exact .now fun time => ih time after
  | record _ ih => exact .record (ih after)
  | review _ ih => exact .review fun journal journal' same => ih journal journal' same after
  | gather rule members fresh _ ih =>
    rw [add_assoc]
    refine .gather rule members fresh fun later extended => ?_
    rw [← add_assoc]
    exact ih later extended (after.extend (extended.trans (List.prefix_append ..)))
  | @visit rules share number script script' rule visit known follows twin ih =>
    have fewer : ∀ {kept}, (share + share' + kept).Nodup → (share + kept).Nodup := fun nodup =>
      Multiset.nodup_of_le (add_le_add_left (Multiset.le_add_right share share') _) nodup
    refine meet known fun kept content content' valid nodup => ?_
    obtain ⟨first, second, rule, tokens⟩ := follows kept content content' valid (fewer nodup)
    refine ⟨{ visit kept content content' with
        share := (visit kept content content').share + share'
        firstRest := (visit kept content content').firstRest.andThen last
        secondRest := (visit kept content content').secondRest.andThen last' },
      ⟨first.andThen last, second.andThen last', rule, ?_⟩, ih kept content content' valid (fewer nodup) after⟩
    simp only
    rw [add_right_comm, add_right_comm share]
    exact add_le_add_left tokens share'
  | configure _ ih => exact .configure (ih after)
  | inspect _ ih => exact .inspect fun stats config => ih stats config after
  | turn _ ih => exact .turn fun later outcome extended => ih later outcome extended (after.extend extended)
  | drain _ ih => exact .drain fun later count extended => ih later count extended (after.extend extended)
  | hold _ ih => exact .hold fun waker => ih waker after
  | wake twinRest _ _ ih =>
    rw [add_assoc]
    exact .wake twinRest (ih after)
  | await _ ih => exact .await fun later woken extended => ih later woken extended (after.extend extended)
  | budget _ ih => exact .budget fun bound => ih bound after

end Twin

end Deferred
