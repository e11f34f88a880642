import Deferred.Loop.Storable
import Deferred.Proofs.Twin.Discreet

/-! A diary: a group in which scripts note what they do, entry by entry. What a script has noted so far is known
when it is written down, but what is found in the diary is only known when it is read. To bring the two together,
the book is fixed beforehand in which everything stands that the diary tells in the end. For each page of the book
there is a token, and whoever makes the next entry holds that of his page. One more token is for those who have
noted anything else than the book does; what they note does not matter, since in the end the diary is the book. -/

namespace Deferred

variable {σ η : Type}

def note [Storable η σ] (number : Nat) (entry : η) (script : Script σ) : Script σ :=
  .look number fun content =>
    .put number { content with slots := content.slots ++ [some (store entry)] } script

def Loop.diary [Storable η σ] (number : Nat) (loop : Loop σ) : List η :=
  (loop.group number).values.filterMap load?

def Group.Tells [Storable η σ] (content : Group σ) (entries : List η) : Prop :=
  content.slots = entries.map fun entry => some (store entry)

theorem Group.Tells.read [Storable η σ] {content : Group σ} {entries : List η} (tells : content.Tells entries) :
    content.values.filterMap load? = entries := by
  rw [Group.values, tells, List.filterMap_map, List.filterMap_filterMap]
  apply Eq.trans _ List.filterMap_some
  apply List.filterMap_congr
  intro entry _
  exact load?_store entry

section Page

open scoped Classical in
/-- The page of a book on which a history is continued. The one behind the last is for what is not in the book. -/
noncomputable def page (book history : List η) : Nat :=
  if history <+: book then history.length else book.length + 1

variable {book history other : List η}

theorem page_of_within (within : history <+: book) : page book history = history.length :=
  if_pos within

theorem page_of_outside (outside : ¬history <+: book) : page book history = book.length + 1 :=
  if_neg outside

theorem page_lt (book history : List η) : page book history < book.length + 2 := by
  by_cases within : history <+: book
  · have := within.length_le
    rw [page_of_within within]
    omega
  · rw [page_of_outside within]
    omega

/-- Two histories are continued on one page if they are the same or if neither is in the book. -/
theorem page_eq_iff : page book history = page book other ↔
    history = other ∨ ¬history <+: book ∧ ¬other <+: book := by
  constructor
  · intro same
    by_cases within : history <+: book
    · by_cases within' : other <+: book
      · rw [page_of_within within, page_of_within within'] at same
        have shorter := List.prefix_of_prefix_length_le within within' (Nat.le_of_eq same)
        exact .inl (shorter.eq_of_length same)
      · have := within.length_le
        rw [page_of_within within, page_of_outside within'] at same
        omega
    · by_cases within' : other <+: book
      · have := within'.length_le
        rw [page_of_outside within, page_of_within within'] at same
        omega
      · exact .inr ⟨within, within'⟩
  · rintro (rfl | ⟨outside, outside'⟩)
    · rfl
    · rw [page_of_outside outside, page_of_outside outside']

theorem page_append (same : page book history = page book other) (more : List η) :
    page book (history ++ more) = page book (other ++ more) := by
  rw [page_eq_iff] at same ⊢
  rcases same with rfl | ⟨outside, outside'⟩
  · exact .inl rfl
  · exact .inr ⟨fun within => outside ((List.prefix_append ..).trans within),
      fun within => outside' ((List.prefix_append ..).trans within)⟩

theorem eq_of_page_eq {more : List η} (same : page book history = page book other)
    (within : history ++ more <+: book) : history = other :=
  (page_eq_iff.mp same).resolve_right fun outside => outside.1 ((List.prefix_append ..).trans within)

end Page

theorem Token.mem_among_iff {group start count index : Nat} :
    (group, index) ∈ among group start count ↔ start ≤ index ∧ index < start + count := by
  simp [among, List.mem_range'_1]

section Rule

variable [Storable η σ]

abbrev Token.pages (number : Nat) (book : List η) : Multiset Token :=
  among number 0 (book.length + 2)

/-- The first run keeps a diary that is `valid` as far as it agrees with the book, and the second one counts the
entries of a kind. The group holds the tokens of all pages but the one that is written next. -/
def Rule.diary (book : List η) (valid : List η → Prop) (counts : η → Bool) : Rule σ :=
  fun number kept content content' => ∃ entries : List η, content.Tells entries ∧
    content'.remaining = entries.countP counts ∧ (entries <+: book → valid entries) ∧
      {(number, page book entries)} + kept = Token.pages number book

variable {rules : List (Rule σ)} {number : Nat} {book history : List η} {valid : List η → Prop} {counts : η → Bool}

theorem Token.mem_pages (number : Nat) (book history : List η) :
    (number, page book history) ∈ pages number book := by
  rw [mem_among_iff, Nat.zero_add]
  exact ⟨Nat.zero_le _, page_lt book history⟩

theorem Token.exists_others (number : Nat) (book history : List η) :
    ∃ others, {(number, page book history)} + others = pages number book := by
  obtain ⟨others, all⟩ := Multiset.exists_cons_of_mem (mem_pages number book history)
  exact ⟨others, all.symm⟩

theorem page_eq_of_nodup {kept : Multiset Token} {entries : List η}
    (all : {(number, page book entries)} + kept = Token.pages number book)
    (nodup : ({(number, page book history)} + kept).Nodup) : page book history = page book entries := by
  have among := Token.mem_pages number book history
  rw [← all] at among
  rcases Multiset.mem_add.mp among with next | kept'
  · exact (Prod.mk.inj (Multiset.mem_singleton.mp next)).2
  · rw [Multiset.singleton_add, Multiset.nodup_cons] at nodup
    exact absurd kept' nodup.1

theorem Twin.write {entry : η} {rest script' rest' : Script σ} {after : Group σ → Group σ}
    (known : rules[number]? = some (.diary book valid counts)) (may : valid (history ++ [entry]))
    (alters : ∀ content, script'.Alters number content (after content) rest')
    (counted : ∀ content, (after content).remaining = content.remaining + [entry].countP counts)
    (twin : Twin rules {(number, page book (history ++ [entry]))} rest rest') :
    Twin rules {(number, page book history)} (note number entry rest) script' := by
  apply meet known
  rintro kept content content' ⟨entries, tells, count, -, all⟩ nodup
  have here : page book history = page book entries := page_eq_of_nodup all nodup
  obtain ⟨others, all'⟩ := Token.exists_others number book (history ++ [entry])
  refine ⟨⟨{ content with slots := content.slots ++ [some (store entry)] }, after content', others,
    {(number, page book (history ++ [entry]))}, rest, rest'⟩, ⟨.look (.put (.refl _)), alters content', ?_, ?_⟩, twin⟩
  · refine ⟨entries ++ [entry], ?_, ?_, fun within => ?_, ?_⟩
    · rw [Group.Tells, tells, List.map_append]
      rfl
    · rw [counted, count, List.countP_append]
    · rwa [eq_of_page_eq here.symm within]
    · rwa [← page_append here]
  · rw [all', here, all]

theorem Twin.note {entry : η} {script script' : Script σ}
    (known : rules[number]? = some (.diary book valid counts)) (may : valid (history ++ [entry]))
    (silent : counts entry = false)
    (twin : Twin rules {(number, page book (history ++ [entry]))} script script') :
    Twin rules {(number, page book history)} (note number entry script) script' := by
  apply write known may (fun content => .refl script') _ twin
  intro content
  rw [List.countP_singleton, silent]
  rfl

namespace Loop

variable {loop loop' : Loop σ}

theorem Mirror.keepDiary (mirror : loop.Mirror rules 0 loop') (book : List η) {valid : List η → Prop}
    (empty : valid []) (counts : η → Bool) :
    (loop.gather (.ofSize 0)).Mirror (rules ++ [.diary book valid counts])
      ({(rules.length, page book [])} + 0) (loop'.gather (.ofSize 0)) := by
  obtain ⟨others, all⟩ := Token.exists_others rules.length book []
  have fresh : Rule.diary book valid counts rules.length (0 + others) (.ofSize 0) (.ofSize 0 : Group σ) := by
    rw [zero_add]
    exact ⟨[], rfl, rfl, fun _ => empty, all⟩
  have mirror' : loop.Mirror rules (0 + 0) loop' := by
    rwa [add_zero]
  exact mirror'.place (le_of_eq all) fresh

/-- A diary may be begun on every loop where only discreet scripts wait, and none of them looks into it. -/
theorem Discreet.keepDiary (discreet : loop.Discreet) (book : List η) {valid : List η → Prop} (empty : valid [])
    (counts : η → Bool) : ∃ rules : List (Rule σ),
      rules[loop.groups.size]? = some (.diary book valid counts) ∧
      (∀ number < loop.groups.size, rules[number]? = some .same) ∧
      (loop.gather (.ofSize 0)).Mirror rules ({(loop.groups.size, page book [])} + 0)
        (loop.gather (.ofSize 0)) := by
  have size : (List.replicate loop.groups.size (.same : Rule σ)).length = loop.groups.size :=
    List.length_replicate
  have begun := discreet.uniform.keepDiary book empty counts
  rw [size] at begun
  refine ⟨_, ?_, fun number inside => ?_, begun⟩
  · have last := List.getElem?_concat_length (l := List.replicate loop.groups.size (.same : Rule σ))
      (a := .diary book valid counts)
    rwa [size] at last
  · rw [List.getElem?_append_left (by rwa [size])]
    exact List.getElem?_replicate_of_lt inside

/-- What the diary tells in the end is valid if the book was chosen accordingly. -/
theorem Mirror.diary_valid {held : Multiset Token} (mirror : loop.Mirror rules held loop')
    (known : rules[number]? = some (.diary (loop.diary number) valid counts)) :
    valid (loop.diary number) ∧ (loop'.group number).remaining = (loop.diary number).countP counts := by
  obtain ⟨shares, mirrors⟩ := mirror
  obtain ⟨entries, tells, counted, agrees, -⟩ := mirrors.groups number _ known
  have told : loop.diary number = entries := tells.read
  rw [told] at agrees ⊢
  exact ⟨agrees (List.prefix_refl entries), counted⟩

end Loop

end Rule

end Deferred
