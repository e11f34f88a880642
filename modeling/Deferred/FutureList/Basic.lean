import Deferred.Future.Basic

/-! Lazy lists whose cells and members are futures. A list is given by its positions: a future finds
the cell at a position, if there is one, and a cell has a member, which is again a future, and the
position behind it. Nothing is computed before the cell that needs it is asked for, so a list may be
infinite. -/

universe u v w z

namespace Deferred

structure FutureList (σ ε : Type) (α : Type u) where
  /-- Positions in the list. -/
  State : Type v
  /-- Cells that have been found. -/
  Cell : Type v
  start : State
  /-- Finds the cell at a position. -/
  node : State → Future σ ε (Option Cell)
  head : Cell → Future σ ε α
  tail : Cell → State

namespace FutureList

variable {σ ε : Type} {α : Type u} {β : Type w}

instance : Shown (FutureList.{u, v} σ ε α) :=
  ⟨fun _ => "FutureList \x7b .. \x7d"⟩

def first (list : FutureList.{u, v} σ ε α) : Future σ ε (Option list.Cell) :=
  list.node list.start

def startingAt (list : FutureList.{u, v} σ ε α) (state : list.State) : FutureList.{u, v} σ ε α :=
  { list with start := state }

def behind (list : FutureList.{u, v} σ ε α) (cell : list.Cell) : FutureList.{u, v} σ ε α :=
  list.startingAt (list.tail cell)

def ofFuture {ι : Type v} (node : Future σ ε (Option ι)) (head : ι → Future σ ε α)
    (tail : ι → FutureList.{u, v} σ ε α) : FutureList.{u, v} σ ε α where
  State := Option ((i : ι) × (tail i).State)
  Cell := ι ⊕ (i : ι) × (tail i).Cell
  start := none
  node
    | none => node.relabel (Option.map .inl)
    | some ⟨i, state⟩ => ((tail i).node state).relabel (Option.map fun cell => .inr ⟨i, cell⟩)
  head
    | .inl i => head i
    | .inr ⟨i, cell⟩ => (tail i).head cell
  tail
    | .inl i => some ⟨i, (tail i).start⟩
    | .inr ⟨i, cell⟩ => some ⟨i, (tail i).tail cell⟩

def nil : FutureList.{u, v} σ ε α where
  State := PUnit
  Cell := PEmpty
  start := ⟨⟩
  node _ := .succeed none
  head := nofun
  tail := nofun

def stuck : FutureList.{u, v} σ ε α where
  State := PUnit
  Cell := PEmpty
  start := ⟨⟩
  node _ := .stuck
  head := nofun
  tail := nofun

def cons (head : Future σ ε α) (tail : FutureList.{u, v} σ ε α) : FutureList.{u, v} σ ε α where
  State := Option tail.State
  Cell := Option tail.Cell
  start := none
  node
    | none => .succeed (some none)
    | some state => (tail.node state).relabel (Option.map some)
  head
    | none => head
    | some cell => tail.head cell
  tail
    | none => some tail.start
    | some cell => some (tail.tail cell)

def singleton (value : α) : FutureList.{u, v} σ ε α :=
  cons (.succeed value) nil

def unfoldWatching {ι α : Type v} (watch : ι → List Event) (step : ι → Option (α × ι)) (seed : ι) :
    FutureList.{v, v} σ ε α where
  State := ι
  Cell := α × ι
  start := seed
  node state := .later fun _ => (Future.succeed (step state)).recording (watch state)
  head cell := .succeed cell.1
  tail cell := cell.2

def unfold {ι α : Type v} (step : ι → Option (α × ι)) (seed : ι) : FutureList.{v, v} σ ε α :=
  unfoldWatching (fun _ => []) step seed

def uncons {α : Type v} : List α → Option (α × List α)
  | [] => none
  | value :: rest => some (value, rest)

def ofValues {α : Type v} (values : List α) : FutureList.{v, v} σ ε α :=
  unfold uncons values

def append (left right : FutureList.{u, v} σ ε α) : FutureList.{u, v} σ ε α where
  State := left.State ⊕ right.State
  Cell := left.Cell ⊕ right.Cell
  start := .inl left.start
  node
    | .inl state =>
      (left.node state).bind fun
        | none => right.first.relabel (Option.map .inr)
        | some cell => .succeed (some (.inl cell))
    | .inr state => (right.node state).relabel (Option.map .inr)
  head
    | .inl cell => left.head cell
    | .inr cell => right.head cell
  tail
    | .inl cell => .inl (left.tail cell)
    | .inr cell => .inr (right.tail cell)

def mapWatching {β : Type v} (watch : α → List Event) (f : α → β)
    (list : FutureList.{u, v} σ ε α) : FutureList.{v, v} σ ε β where
  State := list.State
  Cell := β × list.State
  start := list.start
  node state :=
    (list.node state).bind fun
      | none => .succeed none
      | some cell =>
        (list.head cell).bind fun value =>
          (Future.succeed (some (f value, list.tail cell))).recording (watch value)
  head cell := .succeed cell.1
  tail cell := cell.2

def map {β : Type v} (f : α → β) (list : FutureList.{u, v} σ ε α) : FutureList.{v, v} σ ε β :=
  list.mapWatching (fun _ => []) f

/-- Finds the first cell of the lists that replace the values from a position on. The search passes
over empty lists, at most as many as the bound says. -/
def search {α : Type v} (watch : α → List Event) (f : α → FutureList.{w, z} σ ε β)
    (list : FutureList.{v, u} σ ε α) :
    Nat → list.State → Future σ ε (Option ((value : α) × (f value).Cell × list.State))
  | 0, _ => .stuck
  | bound + 1, state =>
    (list.node state).bind fun
      | none => .succeed none
      | some cell =>
        (list.head cell).bind fun value =>
          ((f value).first.bind fun
            | none => search watch f list bound (list.tail cell)
            | some inner => .succeed (some ⟨value, inner, list.tail cell⟩)).recording (watch value)

def flatMapWatching {α : Type v} (watch : α → List Event) (f : α → FutureList.{w, z} σ ε β)
    (list : FutureList.{v, u} σ ε α) : FutureList.{w, max u v z} σ ε β where
  State := list.State ⊕ (value : α) × (f value).State × list.State
  Cell := (value : α) × (f value).Cell × list.State
  start := .inl list.start
  node
    | .inl state => .bounded fun bound => search watch f list bound state
    | .inr ⟨value, state, rest⟩ =>
      ((f value).node state).bind fun
        | none => .bounded fun bound => search watch f list bound rest
        | some inner => .succeed (some ⟨value, inner, rest⟩)
  head := fun ⟨value, inner, _⟩ => (f value).head inner
  tail := fun ⟨value, inner, rest⟩ => .inr ⟨value, (f value).tail inner, rest⟩

def flatMap {α : Type v} (f : α → FutureList.{w, z} σ ε β) (list : FutureList.{v, u} σ ε α) :
    FutureList.{w, max u v z} σ ε β :=
  list.flatMapWatching (fun _ => []) f

def flatten {α : Type u} (lists : FutureList.{max u (v + 1), w} σ ε (FutureList.{u, v} σ ε α)) :
    FutureList.{u, max u (v + 1) w} σ ε α :=
  lists.flatMap fun list => list

/-- The first members; behind the last of them nothing is asked for. -/
def take (count : Nat) (list : FutureList.{u, v} σ ε α) : FutureList.{u, v} σ ε α where
  State := Nat × list.State
  Cell := list.Cell × Nat
  start := (count, list.start)
  node
    | (0, _) => .succeed none
    | (count + 1, state) => (list.node state).map (Option.map fun cell => (cell, count))
  head cell := list.head cell.1
  tail cell := (cell.2, list.tail cell.1)

def toListFrom (list : FutureList.{u, v} σ ε α) :
    Nat → List α → list.State → Future σ ε (List α)
  | 0, _, _ => .stuck
  | bound + 1, seen, state =>
    (list.node state).bind fun
      | none => .succeed seen.reverse
      | some cell =>
        (list.head cell).bind fun value => list.toListFrom bound (value :: seen) (list.tail cell)

def toList (list : FutureList.{u, v} σ ε α) : Future σ ε (List α) :=
  .bounded fun bound => list.toListFrom bound [] list.start

end FutureList

end Deferred
