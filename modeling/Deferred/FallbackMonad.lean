import Deferred.Future.Basic

/-! Monads whose computations can fail, with a way to fall back on another computation. -/

universe u v

namespace Deferred

class FallbackMonad (m : Type u → Type v) extends Monad m where
  /-- The first computation, or the second if the first one fails. -/
  fallback {α : Type u} : m α → m α → m α

instance : FallbackMonad Option where
  fallback
    | some value, _ => some value
    | none, other => other

instance {ε : Type} : FallbackMonad (Except ε) where
  fallback
    | .ok value, _ => .ok value
    | .error _, other => other

instance {σ ε : Type} : FallbackMonad (Future σ ε) where
  fallback := Future.fallback

end Deferred
