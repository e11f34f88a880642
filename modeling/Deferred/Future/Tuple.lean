import Deferred.Future.Basic

/-! Going on from a future of a tuple with a function of its members. -/

universe u

namespace Deferred.Future

variable {σ ε : Type} {α β γ δ κ ρ : Type u}

def bind2 (first : Future σ ε (α × β)) (step : α → β → Future σ ε ρ) : Future σ ε ρ :=
  first.bind fun (a, b) => step a b

def bind3 (first : Future σ ε (α × β × γ)) (step : α → β → γ → Future σ ε ρ) : Future σ ε ρ :=
  first.bind fun (a, b, c) => step a b c

def bind4 (first : Future σ ε (α × β × γ × δ)) (step : α → β → γ → δ → Future σ ε ρ) :
    Future σ ε ρ :=
  first.bind fun (a, b, c, d) => step a b c d

def bind5 (first : Future σ ε (α × β × γ × δ × κ)) (step : α → β → γ → δ → κ → Future σ ε ρ) :
    Future σ ε ρ :=
  first.bind fun (a, b, c, d, e) => step a b c d e

end Deferred.Future
