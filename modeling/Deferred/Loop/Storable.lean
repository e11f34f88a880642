/-! Values that can wait on a loop. A loop keeps values of one type only; each type whose values are to
wait there says how they are stored and read back. -/

namespace Deferred

class Storable (α σ : Type) where
  store : α → σ
  load? : σ → Option α
  /-- What was stored is read back. -/
  load?_store : ∀ value, load? (store value) = some value

export Storable (store load? load?_store)

attribute [simp] Storable.load?_store

instance (σ : Type) : Storable σ σ := ⟨id, some, fun _ => rfl⟩

instance (α τ : Type) : Storable α (α ⊕ τ) := ⟨.inl, Sum.getLeft?, fun _ => rfl⟩

instance (α β τ : Type) [Storable α τ] : Storable α (β ⊕ τ) :=
  ⟨fun value => .inr (store value), fun kept => kept.getRight?.bind load?, fun value => by simp⟩

end Deferred
