import Deferred.Proofs.Source.Places
import Deferred.Source.Node
import Mathlib.Data.String.Basic

/-! The nodes of a source. A node stands for a place, and what it tells is what the place tells: it knows its position,
the bytes in front of it and the character that it holds, what is cut from the bytes of the source is the text between
two places, and there is one node for each position. -/

namespace Deferred

theorem takeBytes?_eq_some_iff {text taken : List Char} {bytes : Nat} :
    takeBytes? text bytes = some taken ↔ taken <+: text ∧ utf8Length taken = bytes := by
  constructor
  · intro found
    fun_induction takeBytes? text bytes generalizing taken with
    | case1 text =>
      obtain rfl := Option.some.inj found
      exact ⟨List.nil_prefix, rfl⟩
    | case2 => exact absurd found (by simp)
    | case3 c rest bytes fits ih =>
      obtain ⟨front, found', rfl⟩ := Option.map_eq_some_iff.mp found
      obtain ⟨stands, length⟩ := ih found'
      refine ⟨List.cons_prefix_cons.mpr ⟨rfl, stands⟩, ?_⟩
      rw [utf8Length_cons, length]
      omega
    | case4 => exact absurd found (by simp)
  · rintro ⟨⟨behind, rfl⟩, rfl⟩
    exact takeBytes?_append taken behind

/-- An offset lies between characters just where it is the length of what stands in front of it. -/
theorem isValid_ofList_iff {text : List Char} {offset : Nat} :
    String.Pos.Raw.isValid (String.ofList text) ⟨offset⟩ = true ↔
      ∃ front, front <+: text ∧ utf8Length front = offset := by
  rw [String.Pos.Raw.isValid_eq_true_iff, String.Pos.Raw.isValid_iff_exists_append]
  constructor
  · rintro ⟨front, behind, whole, same⟩
    refine ⟨front.toList, ⟨behind.toList, ?_⟩, ?_⟩
    · rw [← String.toList_append, ← whole, String.toList_ofList]
    · rw [utf8Length, String.ofList_toList]
      exact (congrArg String.Pos.Raw.byteIdx same).symm
  · rintro ⟨front, ⟨behind, rfl⟩, rfl⟩
    exact ⟨String.ofList front, String.ofList behind, String.ofList_append, rfl⟩

theorem slice?_eq (front rest : List Char) (stop : Nat) :
    slice? (String.ofList (front ++ rest)) (utf8Length front) stop =
      if stop < utf8Length front then none
      else (takeBytes? rest (stop - utf8Length front)).map String.ofList := by
  rcases Nat.lt_or_ge stop (utf8Length front) with early | late
  · rw [if_pos early, slice?, if_neg]
    exact fun given => absurd given.1 (Nat.not_le.mpr early)
  obtain ⟨bytes, rfl⟩ := Nat.exists_eq_add_of_le late
  rw [if_neg (Nat.not_lt.mpr late), Nat.add_sub_cancel_left]
  cases found : takeBytes? rest bytes with
  | some taken =>
    obtain ⟨⟨behind, rfl⟩, rfl⟩ := takeBytes?_eq_some_iff.mp found
    have starts : String.Pos.Raw.isValid (String.ofList (front ++ (taken ++ behind))) ⟨utf8Length front⟩ = true :=
      isValid_ofList_iff.mpr ⟨front, List.prefix_append .., rfl⟩
    have stops : String.Pos.Raw.isValid (String.ofList (front ++ (taken ++ behind)))
        ⟨utf8Length front + utf8Length taken⟩ = true :=
      isValid_ofList_iff.mpr ⟨front ++ taken, ⟨behind, List.append_assoc ..⟩, utf8Length_append ..⟩
    have cut := String.extract_of_valid front taken behind
    rw [← String.utf8ByteSize_ofList, ← String.utf8ByteSize_ofList, List.append_assoc] at cut
    rw [slice?, if_pos ⟨late, starts, stops⟩, Option.map_some]
    exact congrArg some cut
  | none =>
    rw [slice?, if_neg, Option.map_none]
    rintro ⟨-, -, stops⟩
    obtain ⟨whole, stands, length⟩ := isValid_ofList_iff.mp stops
    rcases List.prefix_or_prefix_of_prefix stands (List.prefix_append front rest) with shorter | longer
    · obtain ⟨more, rfl⟩ := shorter
      rw [utf8Length_append] at length
      obtain rfl : bytes = 0 := by omega
      exact absurd found (by simp [takeBytes?])
    · obtain ⟨taken, rfl⟩ := longer
      have taken_length : utf8Length taken = bytes := by
        rw [utf8Length_append] at length
        omega
      have some := takeBytes?_eq_some_iff.mpr ⟨(List.prefix_append_right_inj front).mp stands, taken_length⟩
      exact absurd (found.symm.trans some) (by simp)

namespace Node

/-- The nodes of a source from some place on. Each is kept in the cell behind that of its successor. -/
inductive Linked (source : String) (free : Nat) : Nat → Nat → List Char → Node → Prop
  | last {pos offset} :
      Linked source free pos offset [] { cell := free, head := none, tail := none, pos, offset, source }
  | more {pos offset c rest behind} (linked : Linked source free (pos + 1) (offset + c.utf8Size) rest behind) :
      Linked source free pos offset (c :: rest)
        { cell := free + rest.length + 1, head := some c, tail := some behind, pos, offset, source }

theorem length_charIndices (offset : Nat) (text : List Char) : (charIndices offset text).length = text.length := by
  induction text generalizing offset with
  | nil => rfl
  | cons c rest ih => rw [charIndices, List.length_cons, List.length_cons, ih]

theorem linked_foldr (source : String) (free : Nat) (text : List Char) (pos offset : Nat) :
    ∃ node, ((charIndices offset text).zipIdx pos).foldr (link source)
        ({ cell := free, head := none, tail := none, pos := pos + text.length, offset := offset + utf8Length text,
           source }, free + 1) = (node, free + text.length + 1) ∧
      Linked source free pos offset text node := by
  induction text generalizing pos offset with
  | nil => exact ⟨_, rfl, .last⟩
  | cons c rest ih =>
    obtain ⟨behind, made, linked⟩ := ih (pos + 1) (offset + c.utf8Size)
    have last : pos + (rest.length + 1) = pos + 1 + rest.length := by omega
    refine ⟨_, ?_, .more linked⟩
    rw [charIndices, List.zipIdx_cons, List.foldr_cons, List.length_cons, utf8Length_cons, last,
      ← Nat.add_assoc offset, made]
    rfl

theorem linked_ofString (source : String) (free : Nat) :
    (ofString source free).2 = free + source.toList.length + 1 ∧
      Linked source free 0 0 source.toList (ofString source free).1 := by
  obtain ⟨node, made, linked⟩ := linked_foldr source free source.toList 0 0
  have bytes : utf8Length source.toList = source.utf8ByteSize := by rw [utf8Length, String.ofList_toList]
  rw [Nat.zero_add, Nat.zero_add, bytes, ← length_charIndices 0] at made
  have whole : ofString source free = (node, free + (charIndices 0 source.toList).length + 1) := made
  rw [whole, length_charIndices]
  exact ⟨rfl, linked⟩

theorem linked_nil_iff {source : String} {free pos offset : Nat} {node : Node} : Linked source free pos offset [] node ↔
    node = { cell := free, head := none, tail := none, pos, offset, source } :=
  ⟨fun linked => by cases linked; rfl, fun same => same ▸ .last⟩

theorem linked_cons_iff {source : String} {free pos offset : Nat} {c : Char} {rest : List Char} {node : Node} :
    Linked source free pos offset (c :: rest) node ↔
      ∃ behind, Linked source free (pos + 1) (offset + c.utf8Size) rest behind ∧
        node = { cell := free + rest.length + 1, head := some c, tail := some behind, pos, offset, source } := by
  constructor
  · intro linked
    cases linked with
    | more linked => exact ⟨_, linked, rfl⟩
  · rintro ⟨behind, linked, rfl⟩
    exact .more linked

/-- A node stands for a place if it and those behind it are made of what the place tells. -/
def StandsFor (free : Nat) (node : Node) (input : Input) : Prop :=
  Linked (String.ofList input.source.chars) free input.pos input.offset input.rest node

theorem standsFor_ofString (source : String) (free mark : Nat) :
    StandsFor free (ofString source free).1 (Input.ofList source.toList mark) := by
  have linked := (linked_ofString source free).2
  have same : String.ofList (Input.ofList source.toList mark).source.chars = source := String.ofList_toList
  rw [StandsFor, same]
  exact linked

section StandsFor

variable {free free' : Nat} {node later : Node} {input input' : Input}

theorem StandsFor.tells (stands : StandsFor free node input) :
    node.cell = free + input.remaining ∧ node.head = input.head ∧ node.pos = input.pos ∧ node.offset = input.offset ∧
      node.source = String.ofList input.source.chars := by
  rw [StandsFor] at stands
  rw [← input.rest_length, Input.head]
  cases left : input.rest with
  | nil =>
    obtain rfl := linked_nil_iff.mp (left ▸ stands)
    exact ⟨rfl, rfl, rfl, rfl, rfl⟩
  | cons c rest =>
    obtain ⟨behind, -, rfl⟩ := linked_cons_iff.mp (left ▸ stands)
    exact ⟨rfl, rfl, rfl, rfl, rfl⟩

theorem StandsFor.next (stands : StandsFor free node input) : StandsFor free node.next input.tail := by
  rw [StandsFor] at stands
  cases left : input.rest with
  | nil =>
    have stays : input.tail = input := by rw [Input.tail, Input.advance_eq_none_iff.mpr left]
    obtain rfl := linked_nil_iff.mp (left ▸ stands)
    rw [stays]
    exact stands
  | cons c rest =>
    obtain ⟨behind, linked, rfl⟩ := linked_cons_iff.mp (left ▸ stands)
    have moved : input.advance = some (c, input.tail) := by rw [Input.advance_eq, Input.head, left]; rfl
    obtain ⟨left', source, pos, offset⟩ := Input.advance_eq_some moved
    obtain rfl : rest = input.tail.rest := (List.cons.inj (left.symm.trans left')).2
    rw [StandsFor, source, pos, offset]
    exact linked

theorem StandsFor.skip (stands : StandsFor free node input) (count : Nat) :
    StandsFor free (node.skip count) (input.skip count) := by
  induction count generalizing node input with
  | zero => exact stands
  | succ count ih => exact ih stands.next

theorem StandsFor.slice (stands : StandsFor free node input) (stop : Nat) :
    slice? node.source node.offset stop = if stop < input.offset then none
      else (takeBytes? input.rest (stop - input.offset)).map String.ofList := by
  obtain ⟨-, -, -, offset, source⟩ := stands.tells
  have cut := slice?_eq (input.source.chars.take input.pos) (input.source.chars.drop input.pos) stop
  rw [List.take_append_drop, ← input.offset_eq, ← input.rest_eq] at cut
  rwa [offset, source]

theorem StandsFor.textTo (stands : StandsFor free node input) (stands' : StandsFor free' later input') :
    node.textTo later = String.ofList (input.textTo input') := by
  obtain ⟨-, -, -, offset, -⟩ := stands'.tells
  rw [Node.textTo, stands.slice, offset, Input.textTo]
  split
  next => rfl
  next => cases takeBytes? input.rest (input'.offset - input.offset) <;> rfl

theorem StandsFor.rest (stands : StandsFor free node input) : node.rest = String.ofList input.rest := by
  obtain ⟨-, -, -, -, source⟩ := stands.tells
  have whole : node.source.utf8ByteSize = input.offset + utf8Length input.rest := by
    rw [source, input.offset_eq, input.rest_eq, ← utf8Length_append, List.take_append_drop]
    rfl
  have taken := takeBytes?_append input.rest []
  rw [List.append_nil] at taken
  rw [Node.rest, stands.slice, whole, if_neg (Nat.not_lt.mpr (Nat.le_add_right ..)), Nat.add_sub_cancel_left, taken]
  rfl

theorem StandsFor.isSame_iff (stands : StandsFor free node input) (stands' : StandsFor free later input')
    (same : input'.source = input.source) : node.isSame later = true ↔ input.pos = input'.pos := by
  obtain ⟨cell, -⟩ := stands.tells
  obtain ⟨cell', -⟩ := stands'.tells
  have inside := input.pos_le
  have inside' := input'.pos_le
  rw [Node.isSame, beq_iff_eq, cell, cell', Input.remaining, Input.remaining, input'.source.size_eq,
    input.source.size_eq]
  rw [same] at inside' ⊢
  omega

theorem StandsFor.unique (stands : StandsFor free node input) (stands' : StandsFor free later input) :
    node = later := by
  rw [StandsFor] at stands stands'
  generalize input.rest = text, input.pos = pos, input.offset = offset at stands stands'
  induction stands generalizing later with
  | last => exact (linked_nil_iff.mp stands').symm
  | more _ ih =>
    obtain ⟨behind, linked, rfl⟩ := linked_cons_iff.mp stands'
    rw [ih linked]

theorem StandsFor.isSame_eq_false (stands : StandsFor free node input) (stands' : StandsFor free' later input')
    (apart : free + input.source.size < free') : node.isSame later = false := by
  obtain ⟨cell, -⟩ := stands.tells
  obtain ⟨cell', -⟩ := stands'.tells
  have before : free + input.remaining < free' + input'.remaining := by
    rw [Input.remaining, Input.remaining]
    omega
  rw [Node.isSame, cell, cell']
  exact beq_eq_false_iff_ne.mpr (Nat.ne_of_lt before)

end StandsFor

/-- What the node so many steps behind the start of a text is like. -/
structure Represents (text : String) (count : Nat) (node : Node) : Prop where
  source : node.source = text
  /-- There is no step behind the end. -/
  pos : node.pos = min count text.toList.length
  offset : node.offset = (String.ofList (text.toList.take node.pos)).utf8ByteSize
  /-- No character is cut in two. -/
  boundary : String.Pos.Raw.isValid text ⟨node.offset⟩ = true
  head : node.head = text.toList[node.pos]?
  ended : node.head = none ↔ node.pos = text.toList.length
  still : node.next = node ↔ node.pos = text.toList.length
  rest : node.rest = String.ofList (text.toList.drop node.pos)

structure Agrees (node : Node) (input : Input) : Prop where
  source : node.source.toList = input.source.chars
  pos : node.pos = input.pos
  offset : node.offset = input.offset
  head : node.head = input.head
  atEnd : node.atEnd = input.atEnd
  rest : node.rest.toList = input.rest

theorem StandsFor.agrees {free : Nat} {node : Node} {input : Input} (stands : StandsFor free node input) :
    Agrees node input := by
  obtain ⟨-, head, pos, offset, source⟩ := stands.tells
  refine ⟨by rw [source, String.toList_ofList], pos, offset, head, ?_, by rw [stands.rest, String.toList_ofList]⟩
  rw [Node.atEnd, head, Input.head, Input.atEnd]
  cases input.rest <;> rfl

theorem StandsFor.next_eq_self_iff {free : Nat} {node : Node} {input : Input} (stands : StandsFor free node input) :
    node.next = node ↔ input.pos = input.source.chars.length := by
  rw [← input.tail_eq_self_iff]
  constructor
  · intro stays
    have pos := stands.next.agrees.pos
    rw [stays, stands.agrees.pos] at pos
    exact Input.ext_pos input.before_tail.source pos.symm
  · intro stays
    have stands' := stands.next
    rw [stays] at stands'
    exact stands'.unique stands

theorem represents_skip (text : String) (free count : Nat) :
    Represents text count ((ofString text free).1.skip count) := by
  have stands := (standsFor_ofString text free 0).skip count
  have source : ((Input.ofList text.toList 0).skip count).source.chars = text.toList :=
    congrArg Source.chars (Input.source_skip ..)
  have pos : ((Input.ofList text.toList 0).skip count).pos = min count text.toList.length := by
    rw [Input.pos_skip_eq]
    exact congrArg (min · _) (Nat.zero_add count)
  generalize (ofString text free).1.skip count = node, (Input.ofList text.toList 0).skip count = input at *
  have agrees := stands.agrees
  have offset : node.offset = utf8Length (text.toList.take node.pos) := by
    rw [agrees.offset, input.offset_eq, agrees.pos, source]
  constructor
  case source => rw [stands.tells.2.2.2.2, source, String.ofList_toList]
  case pos => rw [agrees.pos, pos]
  case offset => exact offset
  case boundary =>
    have valid := isValid_ofList_iff.mpr ⟨text.toList.take node.pos, List.take_prefix .., offset.symm⟩
    rwa [String.ofList_toList] at valid
  case head => rw [agrees.head, agrees.pos, input.head_eq_getElem?, source]
  case ended => rw [agrees.head, agrees.pos, input.head_eq_none_iff, source]
  case still => rw [stands.next_eq_self_iff, agrees.pos, source]
  case rest => rw [stands.rest, agrees.pos, input.rest_eq, source]

theorem skip_skip (node : Node) (count more : Nat) : (node.skip count).skip more = node.skip (count + more) := by
  induction count generalizing node with
  | zero => rw [Nat.zero_add]; rfl
  | succ count ih => rw [Nat.succ_add]; exact ih node.next

/-- The nodes represent their source faithfully, whatever bytes its characters take. Step by step they are reached from
the start, one for each character and one behind the last, which is its own successor. A node knows its position, the
bytes in front of it, the character that it holds and the text from it on. Of the nodes that are reached from some node,
two are one just if their positions are the same, and no node is that of another source. The text from one node to
another one consists of the characters between them; there is none if the second comes first, and texts that follow
each other join. The places that grammars read from tell the same as the nodes. -/
theorem nodes_represent_source (text : String) (free : Nat) :
    let start := (ofString text free).1
    (∀ count, Represents text count (start.skip count)) ∧
    (∀ first count more, let node := start.skip first
      ((node.skip count).isSame (node.skip more) = true ↔ (node.skip count).pos = (node.skip more).pos) ∧
        (node.skip count = node.skip more ↔ (node.skip count).pos = (node.skip more).pos)) ∧
    (∀ other free', (ofString text free).2 ≤ free' → ∀ count more,
      (start.skip count).isSame ((ofString other free').1.skip more) = false) ∧
    (∀ count more, (start.skip count).textTo (start.skip more) =
      if count ≤ more then String.ofList ((text.toList.take more).drop count) else "") ∧
    (∀ count more most, count ≤ more → more ≤ most → (start.skip count).textTo (start.skip more) ++
      (start.skip more).textTo (start.skip most) = (start.skip count).textTo (start.skip most)) ∧
    ∀ mark count more, let place := (Input.ofList text.toList mark).skip
      Agrees (start.skip count) (place count) ∧
        ((start.skip count).isSame (start.skip more) = (place count).isSame (place more)) ∧
        ((start.skip count).textTo (start.skip more)).toList = (place count).textTo (place more) := by
  intro start
  have stands : ∀ mark count, StandsFor free (start.skip count) ((Input.ofList text.toList mark).skip count) :=
    fun mark count => (standsFor_ofString text free mark).skip count
  have source : ∀ mark count more, ((Input.ofList text.toList mark).skip more).source =
      ((Input.ofList text.toList mark).skip count).source :=
    fun mark count more => (Input.source_skip ..).trans (Input.source_skip ..).symm
  have same : ∀ count more, (start.skip count).isSame (start.skip more) = true ↔
      (start.skip count).pos = (start.skip more).pos := by
    intro count more
    rw [(stands 0 count).isSame_iff (stands 0 more) (source 0 count more), (stands 0 count).agrees.pos,
      (stands 0 more).agrees.pos]
  have equal : ∀ count more, start.skip count = start.skip more ↔ (start.skip count).pos = (start.skip more).pos := by
    refine fun count more => ⟨congrArg pos, fun pos => (stands 0 count).unique ?_⟩
    rw [(stands 0 count).agrees.pos, (stands 0 more).agrees.pos] at pos
    exact Input.ext_pos (source 0 count more) pos.symm ▸ stands 0 more
  have textTo : ∀ mark count more, (start.skip count).textTo (start.skip more) = String.ofList
      (((Input.ofList text.toList mark).skip count).textTo ((Input.ofList text.toList mark).skip more)) :=
    fun mark count more => (stands mark count).textTo (stands mark more)
  refine ⟨represents_skip text free, fun first count more => ?_, fun other free' later count more => ?_,
    fun count more => ?_, fun count more most fewer fewer' => ?_,
    fun mark count more => ⟨(stands mark count).agrees, ?_, ?_⟩⟩
  · simp only [skip_skip]
    exact ⟨same _ _, equal _ _⟩
  · refine (stands 0 count).isSame_eq_false ((standsFor_ofString other free' 0).skip more) ?_
    have size : ((Input.ofList text.toList 0).skip count).source.size = text.toList.length :=
      congrArg Source.size (Input.source_skip ..)
    rw [(linked_ofString text free).1] at later
    omega
  · rw [textTo 0, Input.ofList, Input.textTo_skip_skip]
    split <;> rfl
  · rw [textTo 0, textTo 0, textTo 0, ← String.ofList_append]
    have before := Input.before_skip_skip (Input.ofList text.toList 0) fewer
    have before' := Input.before_skip_skip (Input.ofList text.toList 0) fewer'
    exact congrArg String.ofList (before.textTo_append before').symm
  · rw [Bool.eq_iff_iff, same, Input.isSame_iff (source mark count more), (stands mark count).agrees.pos,
      (stands mark more).agrees.pos]
  · rw [textTo mark, String.toList_ofList]

/-- Characters of one, two and four bytes, and steps behind the end. -/
theorem nodes_represent_source_wide :
    let start := (ofString "aé😀" 7).1
    let other := (ofString "aé😀" 11).1
    11 ≤ 11 ∧ 1 ≤ 2 ∧ 2 ≤ 5 ∧ (start.skip 5).pos = 3 ∧ (start.skip 2).head = some '😀' ∧
      (start.skip 5).next = start.skip 5 ∧ (start.skip 2).offset = "aé".utf8ByteSize ∧ (start.skip 2).rest = "😀" ∧
      (start.skip 5).isSame (start.skip 3) = true ∧ (start.skip 2).isSame (other.skip 2) = false ∧
      (start.skip 5).textTo (start.skip 2) = "" ∧
      (start.skip 1).textTo (start.skip 2) ++ (start.skip 2).textTo (start.skip 5) = "é😀" := by
  intro start other
  obtain ⟨represents, same, apart, texts, joined, -⟩ := nodes_represent_source "aé😀" 7
  have last : (start.skip 5).pos = 3 := (represents 5).pos
  have two : (start.skip 2).pos = 2 := (represents 2).pos
  refine ⟨by decide, by decide, by decide, last, ?_, (represents 5).still.mpr last, ?_, ?_, ?_,
    apart "aé😀" 11 (by decide) 2 2, texts 5 2, ?_⟩
  · exact (represents 2).head.trans (by rw [two]; rfl)
  · exact (represents 2).offset.trans (by rw [two]; rfl)
  · exact (represents 2).rest.trans (by rw [two]; rfl)
  · exact ((same 0 5 3).1).mpr (last.trans (represents 3).pos.symm)
  · exact (joined 1 2 5 (by decide) (by decide)).trans (texts 1 5)

end Node

end Deferred
