import Deferred.Proofs.Twin.Basic
import Deferred.Proofs.Debt.Ledger

/-! Two loops that mirror each other: the same jobs wait in the same queues with twin scripts, the same timers
are pending, the same wakers hold twin scripts, and the groups keep to their rules. Each token is at one place
at most. Every effect that two twin scripts have on such loops leaves loops that mirror each other. -/

namespace Deferred

variable {σ β : Type}

inductive Paired (related : Multiset Token → β → β → Prop) : Multiset Token → List β → List β → Prop
  | nil : Paired related 0 [] []
  | cons {share rest member member' list list'} (head : related share member member')
      (tail : Paired related rest list list') :
      Paired related (share + rest) (member :: list) (member' :: list')

namespace Paired

variable {related : Multiset Token → β → β → Prop} {share share' : Multiset Token} {list list' : List β}

theorem append {more more' : List β} (paired : Paired related share list list')
    (paired' : Paired related share' more more') :
    Paired related (share + share') (list ++ more) (list' ++ more') := by
  induction paired with
  | nil =>
    rw [zero_add]
    exact paired'
  | cons head _ ih =>
    rw [add_assoc]
    exact .cons head ih

theorem singleton {member member' : β} (head : related share member member') :
    Paired related share [member] [member'] := by
  have paired : Paired related (share + 0) [member] [member'] := .cons head .nil
  rwa [add_zero] at paired

theorem push {queue queue' : Queue β} {member member' : β}
    (paired : Paired related share queue.toList queue'.toList) (head : related share' member member') :
    Paired related (share + share') (queue.push member).toList (queue'.push member').toList := by
  rw [Queue.toList_push, Queue.toList_push]
  exact paired.append (.singleton head)

theorem imp {related' : Multiset Token → β → β → Prop} (paired : Paired related share list list')
    (follows : ∀ share member member', related share member member' → related' share member member') :
    Paired related' share list list' := by
  induction paired with
  | nil => exact .nil
  | cons head _ ih => exact .cons (follows _ _ _ head) ih

theorem length_eq (paired : Paired related share list list') : list.length = list'.length := by
  induction paired with
  | nil => rfl
  | cons _ _ ih => exact congrArg (· + 1) ih

theorem eq_nil_iff (paired : Paired related share list list') : list = [] ↔ list' = [] := by
  cases paired <;> simp

theorem uncons {member : β} {rest : List β} (paired : Paired related share (member :: rest) list') :
    ∃ own others member' rest', list' = member' :: rest' ∧ share = own + others ∧
      related own member member' ∧ Paired related others rest rest' := by
  cases paired with
  | cons head tail => exact ⟨_, _, _, _, rfl, rfl, head, tail⟩

theorem pop {queue queue' : Queue β} (paired : Paired related share queue.toList queue'.toList) :
    (queue.pop? = none ∧ queue'.pop? = none) ∨
    ∃ own others member member' rest rest', queue.pop? = some (member, rest) ∧
      queue'.pop? = some (member', rest') ∧ share = own + others ∧ related own member member' ∧
      Paired related others rest.toList rest'.toList := by
  cases popped : queue.pop? with
  | none =>
    have empty := paired.eq_nil_iff.mp (Queue.pop?_eq_none_iff.mp popped)
    exact .inl ⟨rfl, Queue.pop?_eq_none_iff.mpr empty⟩
  | some result =>
    obtain ⟨member, rest⟩ := result
    rw [Queue.toList_of_pop? popped] at paired
    obtain ⟨own, others, member', list', members, rfl, head, tail⟩ := paired.uncons
    cases popped' : queue'.pop? with
    | none => exact absurd (Queue.pop?_eq_none_iff.mp popped') (by simp [members])
    | some result' =>
      obtain ⟨first, rest'⟩ := result'
      obtain ⟨rfl, rfl⟩ := List.cons.inj (members.symm.trans (Queue.toList_of_pop? popped'))
      exact .inr ⟨own, others, member, _, rest, rest', rfl, rfl, rfl, head, tail⟩

theorem focus (paired : Paired related share list list') {index : Nat} {member : β}
    (found : list[index]? = some member) :
    ∃ own others member', list'[index]? = some member' ∧ share = own + others ∧
      related own member member' ∧ ∀ new other other', related new other other' →
        Paired related (new + others) (list.set index other) (list'.set index other') := by
  induction paired generalizing index with
  | nil => exact absurd found (by simp)
  | @cons share rest first first' list list' head tail ih =>
    cases index with
    | zero =>
      obtain rfl := Option.some.inj found
      exact ⟨share, rest, first', rfl, rfl, head, fun new other other' same => .cons same tail⟩
    | succ index =>
      obtain ⟨own, others, member', found', rfl, same, replace⟩ := ih found
      refine ⟨own, share + others, member', found', add_left_comm share own others, same, ?_⟩
      intro new other other' related'
      rw [add_left_comm new share others]
      exact .cons head (replace new other other' related')

end Paired

structure Job.Twins (rules : List (Rule σ)) (share : Multiset Token) (job job' : Job σ) : Prop where
  ticket : job'.ticket = job.ticket
  route : job'.route = job.route
  twin : Twin rules share (job.script ()) (job'.script ())

structure Timer.Twins (rules : List (Rule σ)) (share : Multiset Token) (timer timer' : Timer σ) : Prop where
  deadline : timer'.deadline = timer.deadline
  number : timer'.number = timer.number
  job : timer.job.Twins rules share timer'.job

inductive Script.RestTwins (rules : List (Rule σ)) :
    Multiset Token → Option (Unit → Script σ) → Option (Unit → Script σ) → Prop
  | none : RestTwins rules 0 none none
  | some {share rest rest'} (twin : Twin rules share (rest ()) (rest' ())) :
      RestTwins rules share (some rest) (some rest')

section Extend

variable {rules later : List (Rule σ)} {share : Multiset Token}

theorem Job.Twins.extend {job job' : Job σ} (twins : job.Twins rules share job')
    (extended : rules <+: later) : job.Twins later share job' :=
  ⟨twins.ticket, twins.route, twins.twin.extend extended⟩

theorem Timer.Twins.extend {timer timer' : Timer σ} (twins : timer.Twins rules share timer')
    (extended : rules <+: later) : timer.Twins later share timer' :=
  ⟨twins.deadline, twins.number, twins.job.extend extended⟩

theorem Script.RestTwins.extend {rest rest' : Option (Unit → Script σ)}
    (twins : Script.RestTwins rules share rest rest') (extended : rules <+: later) :
    Script.RestTwins later share rest rest' := by
  cases twins with
  | none => exact .none
  | some twin => exact .some (twin.extend extended)

end Extend

structure Minted (size : Nat) (tokens : Multiset Token) : Prop where
  nodup : tokens.Nodup
  inside : ∀ token ∈ tokens, token.1 < size

theorem Minted.zero (size : Nat) : Minted size 0 where
  nodup := Multiset.nodup_zero
  inside _ member := absurd member (Multiset.notMem_zero _)

theorem Minted.of_le {size : Nat} {tokens tokens' : Multiset Token} (minted : Minted size tokens)
    (fewer : tokens' ≤ tokens) : Minted size tokens' :=
  ⟨Multiset.nodup_of_le fewer minted.nodup, fun token among => minted.inside token (Multiset.mem_of_le fewer among)⟩

theorem Minted.gather {size : Nat} {tokens : Multiset Token} (minted : Minted size tokens) (members : Nat) :
    Minted (size + 1) (Token.among size 0 members + tokens) := by
  refine ⟨Multiset.nodup_add.mpr ⟨Token.nodup_among .., minted.nodup, ?_⟩, fun token among => ?_⟩
  · refine Multiset.disjoint_left.mpr fun new old => ?_
    exact absurd (minted.inside _ old) (Nat.not_lt.mpr (Token.mem_among new).ge)
  · rcases Multiset.mem_add.mp among with new | old
    · rw [Token.mem_among new]
      exact Nat.lt_succ_self size
    · exact Nat.lt_succ_of_lt (minted.inside token old)

structure Shares where
  ready : Multiset Token
  low : Multiset Token
  timers : Multiset Token
  wakers : Multiset Token
  /-- What each of the groups holds. -/
  kept : Nat → Multiset Token

def Shares.total (shares : Shares) (size : Nat) : Multiset Token :=
  shares.ready + shares.low + shares.timers + shares.wakers + ∑ number ∈ Finset.range size, shares.kept number

namespace Loop

structure Mirrors (rules : List (Rule σ)) (held : Multiset Token) (shares : Shares) (loop loop' : Loop σ) :
    Prop where
  config : loop'.config = loop.config
  streak : loop'.streak = loop.streak
  armed : loop'.armed = loop.armed
  clock : loop'.clock = loop.clock
  issued : loop'.issued = loop.issued
  journal : outward loop'.journal = outward loop.journal
  ready : Paired (Job.Twins rules) shares.ready loop.ready.toList loop'.ready.toList
  low : Paired (Job.Twins rules) shares.low loop.low.toList loop'.low.toList
  timers : Paired (Timer.Twins rules) shares.timers loop.timers loop'.timers
  wakers : Paired (Script.RestTwins rules) shares.wakers loop.wakers.toList loop'.wakers.toList
  size : loop.groups.size = rules.length
  size' : loop'.groups.size = rules.length
  groups : ∀ (number : Nat) (rule : Rule σ), rules[number]? = some rule →
    rule number (shares.kept number) (loop.group number) (loop'.group number)
  balance : Minted rules.length (held + shares.total rules.length)

def Mirror (rules : List (Rule σ)) (held : Multiset Token) (loop loop' : Loop σ) : Prop :=
  ∃ shares, loop.Mirrors rules held shares loop'

def MirrorLater (rules : List (Rule σ)) (held : Multiset Token) (loop loop' : Loop σ) : Prop :=
  ∃ later, rules <+: later ∧ loop.Mirror later held loop'

variable {rules : List (Rule σ)} {share held : Multiset Token} {loop loop' : Loop σ}

theorem Mirror.drop (mirror : loop.Mirror rules (share + held) loop') : loop.Mirror rules held loop' := by
  obtain ⟨shares, mirrors⟩ := mirror
  refine ⟨shares, { mirrors with balance := mirrors.balance.of_le ?_ }⟩
  exact add_le_add_left (Multiset.le_add_left held share) _

theorem Mirrors.journal_record {shares : Shares} (mirrors : loop.Mirrors rules held shares loop')
    (event : Event) : outward (loop'.record event).journal = outward (loop.record event).journal := by
  simp only [Loop.record, mirrors.clock]
  exact outward_cons mirrors.journal _

theorem Mirror.record (mirror : loop.Mirror rules held loop') (event : Event) :
    (loop.record event).Mirror rules held (loop'.record event) := by
  obtain ⟨shares, mirrors⟩ := mirror
  exact ⟨shares, { mirrors with journal := mirrors.journal_record event }⟩

theorem Mirror.configure (mirror : loop.Mirror rules held loop') (config : Config) :
    Mirror rules held { loop with config } { loop' with config } := by
  obtain ⟨shares, mirrors⟩ := mirror
  exact ⟨shares, { mirrors with config := rfl }⟩

theorem Mirror.sleep (mirror : loop.Mirror rules held loop') (clock : Nat) :
    Mirror rules held { loop with clock } { loop' with clock } := by
  obtain ⟨shares, mirrors⟩ := mirror
  exact ⟨shares, { mirrors with clock := rfl }⟩

theorem Mirror.stats (mirror : loop.Mirror rules held loop') : loop'.stats = loop.stats := by
  obtain ⟨shares, mirrors⟩ := mirror
  simp only [Loop.stats, ← Queue.length_toList, mirrors.ready.length_eq, mirrors.low.length_eq,
    mirrors.timers.length_eq, mirrors.streak]

theorem paired_insertTimer {timer timer' : Timer σ} {timers timers' : List (Timer σ)}
    (paired : Paired (Timer.Twins rules) held timers timers') (twins : timer.Twins rules share timer') :
    Paired (Timer.Twins rules) (held + share) (insertTimer timer timers) (insertTimer timer' timers') := by
  induction paired with
  | nil =>
    rw [zero_add]
    exact .singleton twins
  | cons head tail ih =>
    simp only [insertTimer, head.deadline, twins.deadline]
    split
    next =>
      rw [add_assoc]
      exact .cons head ih
    next =>
      rw [add_comm]
      exact .cons twins (.cons head tail)

theorem Mirror.submit (mirror : loop.Mirror rules (share + held) loop') (lane : Lane)
    {job job' : Unit → Script σ} (twin : Twin rules share (job ()) (job' ())) :
    (loop.submit lane job).Mirror rules held (loop'.submit lane job') := by
  obtain ⟨shares, mirrors⟩ := mirror
  have issue : ∀ route, (loop.issue route job).Twins rules share (loop'.issue route job') :=
    fun route => ⟨mirrors.issued, rfl, twin⟩
  have issued : loop'.issued + 1 = loop.issued + 1 := by rw [mirrors.issued]
  have ready : Minted rules.length
      (held + Shares.total { shares with ready := shares.ready + share } rules.length) := by
    refine mirrors.balance.of_le (le_of_eq ?_)
    simp only [Shares.total]
    abel
  have low : Minted rules.length
      (held + Shares.total { shares with low := shares.low + share } rules.length) := by
    refine mirrors.balance.of_le (le_of_eq ?_)
    simp only [Shares.total]
    abel
  cases lane with
  | scheduled =>
    by_cases diverted : loop.config.maxStreak < loop.streak
    · have diverted' : loop'.config.maxStreak < loop'.streak := by
        rwa [mirrors.config, mirrors.streak]
      simp only [Loop.submit, Loop.schedule, if_pos diverted, if_pos diverted']
      have noted : outward (loop'.record (.diverted loop'.streak)).journal =
          outward (loop.record (.diverted loop.streak)).journal := by
        rw [mirrors.streak]
        exact mirrors.journal_record _
      exact ⟨{ shares with low := shares.low + share }, { mirrors with
        streak := rfl, issued := issued, low := mirrors.low.push (issue _), journal := noted
        balance := low }⟩
    · have counted' : ¬loop'.config.maxStreak < loop'.streak := by
        rwa [mirrors.config, mirrors.streak]
      simp only [Loop.submit, Loop.schedule, if_neg diverted, if_neg counted']
      exact ⟨{ shares with ready := shares.ready + share }, { mirrors with
        streak := congrArg (· + 1) mirrors.streak, issued := issued, ready := mirrors.ready.push (issue _)
        balance := ready }⟩
  | deferred =>
    exact ⟨{ shares with ready := shares.ready + share }, { mirrors with
      issued := issued, ready := mirrors.ready.push (issue _), balance := ready }⟩
  | yielded =>
    exact ⟨{ shares with low := shares.low + share }, { mirrors with
      issued := issued, low := mirrors.low.push (issue _), balance := low }⟩
  | after delay =>
    have twins : Timer.Twins rules share
        ⟨loop.clock + delay, loop.armed, loop.issue (.timed (loop.clock + delay) loop.armed) job⟩
        ⟨loop'.clock + delay, loop'.armed, loop'.issue (.timed (loop'.clock + delay) loop'.armed) job'⟩ := by
      rw [mirrors.clock, mirrors.armed]
      exact ⟨rfl, rfl, issue _⟩
    have noted : outward (loop'.record (.armed delay loop'.armed)).journal =
        outward (loop.record (.armed delay loop.armed)).journal := by
      rw [mirrors.armed]
      exact mirrors.journal_record _
    refine ⟨{ shares with timers := shares.timers + share }, { mirrors with
      armed := congrArg (· + 1) mirrors.armed, issued := issued
      timers := paired_insertTimer mirrors.timers twins
      journal := noted, balance := ?_ }⟩
    refine mirrors.balance.of_le (le_of_eq ?_)
    simp only [Shares.total]
    abel

theorem Mirror.start (mirror : loop.Mirror rules held loop') {job job' : Job σ}
    (twins : job.Twins rules share job') : (loop.start job).Mirror rules held (loop'.start job') := by
  unfold Loop.start
  rw [twins.ticket, twins.route]
  exact mirror.record _

/-- Both loops may get a new group, which takes some tokens. Of the new ones that there are for its members it may
keep some. -/
theorem Mirror.place {kept own : Multiset Token} (mirror : loop.Mirror rules (kept + held) loop') {rule : Rule σ}
    {content : Group σ} {members : Nat} (tokens : share + own ≤ Token.among rules.length 0 members)
    (fresh : rule rules.length (kept + own) content content) :
    (loop.gather content).Mirror (rules ++ [rule]) (share + held) (loop'.gather content) := by
  obtain ⟨shares, mirrors⟩ := mirror
  have extended : rules <+: rules ++ [rule] := List.prefix_append ..
  have length : (rules ++ [rule]).length = rules.length + 1 := by simp
  refine ⟨{ shares with kept := Function.update shares.kept rules.length (kept + own) }, { mirrors with
    ready := mirrors.ready.imp fun _ _ _ twins => twins.extend extended
    low := mirrors.low.imp fun _ _ _ twins => twins.extend extended
    timers := mirrors.timers.imp fun _ _ _ twins => twins.extend extended
    wakers := mirrors.wakers.imp fun _ _ _ twins => twins.extend extended
    size := by simp [Loop.gather, mirrors.size]
    size' := by simp [Loop.gather, mirrors.size']
    groups := ?groups, balance := ?balance }⟩
  case groups =>
    intro number other known
    rcases Nat.lt_or_ge number rules.length with inside | outside
    · rw [List.getElem?_append_left inside] at known
      change other number (Function.update shares.kept rules.length (kept + own) number) _ _
      rw [Function.update_of_ne (Nat.ne_of_lt inside), group_gather_of_lt _ _ (mirrors.size ▸ inside),
        group_gather_of_lt _ _ (mirrors.size' ▸ inside)]
      exact mirrors.groups number other known
    · have last := (List.getElem?_eq_some_iff.mp known).1
      obtain rfl : number = rules.length := by omega
      obtain rfl : rule = other := by simpa using known
      have new := group_gather loop content
      have new' := group_gather loop' content
      rw [mirrors.size] at new
      rw [mirrors.size'] at new'
      change rule rules.length (Function.update shares.kept rules.length (kept + own) rules.length) _ _
      rwa [Function.update_self, new, new']
  case balance =>
    have before : ∑ number ∈ Finset.range rules.length,
        Function.update shares.kept rules.length (kept + own) number =
          ∑ number ∈ Finset.range rules.length, shares.kept number :=
      Finset.sum_congr rfl fun number inside =>
        Function.update_of_ne (Nat.ne_of_lt (Finset.mem_range.mp inside)) ..
    rw [length]
    refine (mirrors.balance.gather members).of_le ?_
    simp only [Shares.total, Finset.sum_range_succ, before, Function.update_self]
    calc share + held + (shares.ready + shares.low + shares.timers + shares.wakers +
          (∑ number ∈ Finset.range rules.length, shares.kept number + (kept + own)))
        = (share + own) + (kept + held + (shares.ready + shares.low + shares.timers + shares.wakers +
          ∑ number ∈ Finset.range rules.length, shares.kept number)) := by abel
      _ ≤ Token.among rules.length 0 members + (kept + held + (shares.ready + shares.low + shares.timers +
          shares.wakers + ∑ number ∈ Finset.range rules.length, shares.kept number)) := add_le_add_left tokens _

/-- Both loops may get a new group, which takes some tokens. New ones are there for its members. -/
theorem Mirror.gather {kept : Multiset Token} (mirror : loop.Mirror rules (kept + held) loop')
    {rule : Rule σ} {content : Group σ} (members : Nat) (fresh : rule rules.length kept content content) :
    (loop.gather content).Mirror (rules ++ [rule]) (Token.among rules.length 0 members + held)
      (loop'.gather content) := by
  have all : Token.among rules.length 0 members + 0 ≤ Token.among rules.length 0 members := by
    rw [add_zero]
  have fresh' : rule rules.length (kept + 0) content content := by
    rwa [add_zero]
  exact mirror.place all fresh'

theorem group_set {loop : Loop σ} {number : Nat} (inside : number < loop.groups.size) (content : Group σ)
    (journal : List (Nat × Event)) :
    ({ loop with groups := loop.groups.setIfInBounds number content, journal } : Loop σ).group =
      Function.update loop.group number content :=
  loop.group_put content inside

theorem Mirror.visit (mirror : loop.Mirror rules (share + held) loop') {number : Nat} {rule : Rule σ}
    (known : rules[number]? = some rule) :
    number < loop.groups.size ∧ number < loop'.groups.size ∧
    ∃ kept, rule number kept (loop.group number) (loop'.group number) ∧ (share + kept).Nodup ∧
      ∀ (visit : Visit σ) (journal journal' : List (Nat × Event)),
        rule number visit.kept visit.first visit.second → visit.share + visit.kept ≤ share + kept →
        outward journal = outward loop.journal → outward journal' = outward loop'.journal →
        Mirror rules (visit.share + held)
          { loop with groups := loop.groups.setIfInBounds number visit.first, journal }
          { loop' with groups := loop'.groups.setIfInBounds number visit.second, journal := journal' } := by
  obtain ⟨shares, mirrors⟩ := mirror
  have within := (List.getElem?_eq_some_iff.mp known).1
  have inside : number < loop.groups.size := mirrors.size ▸ within
  have inside' : number < loop'.groups.size := mirrors.size' ▸ within
  have member := Finset.mem_range.mpr within
  -- Only the part of this group changes, so it is taken out of the sum before and after the visit.
  have split : ∀ kept : Nat → Multiset Token, ∑ other ∈ Finset.range rules.length, kept other =
      kept number + ∑ other ∈ (Finset.range rules.length).erase number, kept other :=
    fun kept => (Finset.add_sum_erase _ _ member).symm
  refine ⟨inside, inside', shares.kept number, mirrors.groups number rule known, ?_, ?_⟩
  · refine (mirrors.balance.of_le ?_).nodup
    rw [Shares.total, split shares.kept]
    refine Multiset.le_iff_exists_add.mpr ⟨held + shares.ready + shares.low + shares.timers + shares.wakers +
      ∑ other ∈ (Finset.range rules.length).erase number, shares.kept other, ?_⟩
    abel
  · intro visit journal journal' valid tokens same same'
    refine ⟨{ shares with kept := Function.update shares.kept number visit.kept }, { mirrors with
      journal := same'.trans (mirrors.journal.trans same.symm)
      size := by simpa using mirrors.size
      size' := by simpa using mirrors.size'
      groups := ?groups, balance := ?balance }⟩
    case groups =>
      intro other rule' known'
      rw [group_set inside, group_set inside']
      rcases eq_or_ne other number with rfl | different
      · obtain rfl : rule = rule' := Option.some.inj (known.symm.trans known')
        simpa only [Function.update_self] using valid
      · simpa only [Function.update_of_ne different] using mirrors.groups other rule' known'
    case balance =>
      have others : ∑ other ∈ (Finset.range rules.length).erase number,
          Function.update shares.kept number visit.kept other =
          ∑ other ∈ (Finset.range rules.length).erase number, shares.kept other :=
        Finset.sum_congr rfl fun other away => Function.update_of_ne (Finset.ne_of_mem_erase away) ..
      refine mirrors.balance.of_le ?_
      simp only [Shares.total, split, others, Function.update_self]
      calc visit.share + held + (shares.ready + shares.low + shares.timers + shares.wakers +
            (visit.kept + ∑ other ∈ (Finset.range rules.length).erase number, shares.kept other))
          = (visit.share + visit.kept) + (held + shares.ready + shares.low + shares.timers +
            shares.wakers + ∑ other ∈ (Finset.range rules.length).erase number, shares.kept other) := by abel
        _ ≤ (share + shares.kept number) + (held + shares.ready + shares.low + shares.timers +
            shares.wakers + ∑ other ∈ (Finset.range rules.length).erase number, shares.kept other) :=
          add_le_add_left tokens _
        _ = _ := by abel

theorem Mirror.hold (mirror : loop.Mirror rules held loop') : loop.hold.Mirror rules held loop'.hold := by
  obtain ⟨shares, mirrors⟩ := mirror
  refine ⟨shares, { mirrors with wakers := ?_ }⟩
  simp only [Loop.hold, Array.toList_push]
  have appended := mirrors.wakers.append (.singleton .none)
  rwa [add_zero] at appended

theorem Mirror.wakers_size (mirror : loop.Mirror rules held loop') :
    loop'.wakers.size = loop.wakers.size := by
  obtain ⟨shares, mirrors⟩ := mirror
  simpa using mirrors.wakers.length_eq.symm

theorem Mirror.wake (mirror : loop.Mirror rules (share + held) loop') (waker : Nat)
    {rest rest' : Unit → Script σ} (twin : Twin rules share (rest ()) (rest' ())) :
    (loop.wake waker rest).Mirror rules held (loop'.wake waker rest') := by
  obtain ⟨shares, mirrors⟩ := mirror
  cases found : loop.wakers.toList[waker]? with
  | none =>
    have outside : loop.wakers.toList.length ≤ waker := List.getElem?_eq_none_iff.mp found
    have outside' : loop'.wakers.toList.length ≤ waker := mirrors.wakers.length_eq ▸ outside
    refine Mirror.drop ⟨shares, { mirrors with wakers := ?_ }⟩
    simp only [Loop.wake, Array.toList_setIfInBounds]
    rw [List.set_eq_of_length_le outside, List.set_eq_of_length_le outside']
    exact mirrors.wakers
  | some given =>
    obtain ⟨own, others, given', found', tokens, -, replace⟩ := mirrors.wakers.focus found
    refine ⟨{ shares with wakers := share + others }, { mirrors with wakers := ?_, balance := ?_ }⟩
    · simp only [Loop.wake, Array.toList_setIfInBounds]
      exact replace share _ _ (.some twin)
    · refine mirrors.balance.of_le ?_
      refine Multiset.le_iff_exists_add.mpr ⟨own, ?_⟩
      simp only [Shares.total, tokens]
      abel

theorem rest?_eq (loop : Loop σ) (waker : Nat) : loop.rest? waker = loop.wakers.toList[waker]?.join := by
  rw [rest?, Array.getElem?_toList]

theorem Mirror.woken (mirror : loop.Mirror rules held loop') (waker : Nat) :
    (loop.rest? waker = none ∧ loop'.rest? waker = none) ∨
    ∃ share rest rest', loop.rest? waker = some rest ∧ loop'.rest? waker = some rest' ∧
      Twin rules share (rest ()) (rest' ()) ∧
      (loop.clearWaker waker).Mirror rules (share + held) (loop'.clearWaker waker) := by
  obtain ⟨shares, mirrors⟩ := mirror
  rw [rest?_eq, rest?_eq]
  cases found : loop.wakers.toList[waker]? with
  | none =>
    have outside := mirrors.wakers.length_eq ▸ List.getElem?_eq_none_iff.mp found
    exact .inl ⟨rfl, by rw [List.getElem?_eq_none outside]; rfl⟩
  | some given =>
    obtain ⟨own, others, given', found', tokens, twins, replace⟩ := mirrors.wakers.focus found
    rw [found']
    cases twins with
    | none => exact .inl ⟨rfl, rfl⟩
    | @some share rest rest' twin =>
      refine .inr ⟨own, rest, rest', rfl, rfl, twin, { shares with wakers := 0 + others }, { mirrors with
        wakers := ?_, balance := ?_ }⟩
      · simp only [Loop.clearWaker, Array.toList_setIfInBounds]
        exact replace 0 _ _ .none
      · refine mirrors.balance.of_le (le_of_eq ?_)
        simp only [Shares.total, tokens]
        abel

theorem Mirror.woken_isSome (mirror : loop.Mirror rules held loop') (waker : Nat) :
    (loop'.rest? waker).isSome = (loop.rest? waker).isSome := by
  rcases mirror.woken waker with ⟨none, none'⟩ | ⟨_, _, _, given, given', _⟩
  · rw [none, none']
  · rw [given, given']
    rfl

theorem Mirror.fireDue {timers timers' : List (Timer σ)}
    (mirror : Mirror rules held { loop with timers } { loop' with timers := timers' }) :
    (loop.fireDue timers).Mirror rules held (loop'.fireDue timers') := by
  induction timers generalizing loop loop' timers' with
  | nil =>
    obtain ⟨shares, mirrors⟩ := mirror
    obtain rfl := mirrors.timers.eq_nil_iff.mp rfl
    exact ⟨shares, mirrors⟩
  | cons timer rest ih =>
    obtain ⟨shares, mirrors⟩ := mirror
    obtain ⟨own, others, timer', rest', rfl, tokens, twins, tail⟩ := mirrors.timers.uncons
    have clock : loop'.clock = loop.clock := mirrors.clock
    by_cases due : timer.deadline ≤ loop.clock
    · have due' : timer'.deadline ≤ loop'.clock := by rwa [twins.deadline, clock]
      simp only [Loop.fireDue, if_pos due, if_pos due']
      apply ih
      have noted := mirrors.journal_record (.fired timer.number)
      refine ⟨{ shares with ready := shares.ready + own, timers := others }, { mirrors with
        ready := mirrors.ready.push twins.job, timers := tail
        journal := twins.number ▸ noted, balance := ?_ }⟩
      refine mirrors.balance.of_le (le_of_eq ?_)
      simp only [Shares.total, tokens]
      abel
    · have early' : ¬timer'.deadline ≤ loop'.clock := by rwa [twins.deadline, clock]
      simp only [Loop.fireDue, if_neg due, if_neg early']
      exact ⟨shares, mirrors⟩

theorem Mirror.popReady? (mirror : loop.Mirror rules held loop') :
    (loop.popReady? = none ∧ loop'.popReady? = none) ∨
    ∃ share job job' popped popped', loop.popReady? = some (job, popped) ∧
      loop'.popReady? = some (job', popped') ∧ job.Twins rules share job' ∧
      popped.Mirror rules (share + held) popped' := by
  obtain ⟨shares, mirrors⟩ := mirror
  rcases mirrors.ready.pop with
    ⟨none, none'⟩ | ⟨own, others, job, job', rest, rest', some, some', tokens, twins, tail⟩
  · exact .inl ⟨by simp [Loop.popReady?, none], by simp [Loop.popReady?, none']⟩
  · refine .inr ⟨own, job, job', { loop with ready := rest }, { loop' with ready := rest' },
      by rw [Loop.popReady?, some]; rfl, by rw [Loop.popReady?, some']; rfl, twins,
      { shares with ready := others }, { mirrors with ready := tail, balance := ?_ }⟩
    refine mirrors.balance.of_le (le_of_eq ?_)
    simp only [Shares.total, tokens]
    abel

theorem Mirror.popLow? (mirror : loop.Mirror rules held loop') :
    (loop.popLow? = none ∧ loop'.popLow? = none) ∨
    ∃ share job job' popped popped', loop.popLow? = some (job, popped) ∧
      loop'.popLow? = some (job', popped') ∧ job.Twins rules share job' ∧
      popped.Mirror rules (share + held) popped' := by
  obtain ⟨shares, mirrors⟩ := mirror
  rcases mirrors.low.pop with
    ⟨none, none'⟩ | ⟨own, others, job, job', rest, rest', some, some', tokens, twins, tail⟩
  · exact .inl ⟨by simp [Loop.popLow?, none], by simp [Loop.popLow?, none']⟩
  · refine .inr ⟨own, job, job', { loop with low := rest }, { loop' with low := rest' },
      by rw [Loop.popLow?, some]; rfl, by rw [Loop.popLow?, some']; rfl, twins,
      { shares with low := others }, { mirrors with low := tail, balance := ?_ }⟩
    refine mirrors.balance.of_le (le_of_eq ?_)
    simp only [Shares.total, tokens]
    abel

end Loop

inductive Duty.Twins (rules : List (Rule σ)) (held : Multiset Token) : Duty σ → Duty σ → Prop
  | run {share job job' popped popped'} (twins : job.Twins rules share job')
      (mirror : popped.Mirror rules (share + held) popped') : Twins rules held (.run job popped) (.run job' popped')
  | sleep (deadline : Nat) : Twins rules held (.sleep deadline) (.sleep deadline)
  | idle : Twins rules held .idle .idle

theorem Loop.Mirror.next {rules : List (Rule σ)} {held : Multiset Token} {loop loop' : Loop σ}
    (mirror : loop.Mirror rules held loop') : Duty.Twins rules held loop.next loop'.next := by
  unfold Loop.next
  rcases mirror.popReady? with ⟨none, none'⟩ | ⟨share, job, job', popped, popped', some, some', twins, rest⟩
  · have fired : (loop.fireDue loop.timers).Mirror rules held (loop'.fireDue loop'.timers) := Mirror.fireDue mirror
    simp only [none, none']
    rcases fired.popReady? with ⟨none, none'⟩ | ⟨share, job, job', popped, popped', some, some', twins, rest⟩
    · simp only [none, none']
      rcases fired.popLow? with ⟨none, none'⟩ | ⟨share, job, job', popped, popped', some, some', twins, rest⟩
      · obtain ⟨shares, mirrors⟩ := fired
        have timers := mirrors.timers
        simp only [none, none']
        generalize (loop.fireDue loop.timers).timers = pending,
          (loop'.fireDue loop'.timers).timers = pending', shares.timers = tokens at timers ⊢
        cases timers with
        | nil => exact .idle
        | cons head _ =>
          simp only [head.deadline]
          exact .sleep _
      · simp only [some, some']
        exact .run twins rest
    · simp only [some, some']
      exact .run twins rest
  · simp only [some, some']
    exact .run twins rest

end Deferred
