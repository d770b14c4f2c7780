/-!
Scripts: steps performed one after the other on a state.
-/

set_option autoImplicit false

namespace Mov8086

/-- Performs the steps in order; each answer comes with the state behind its step. -/
def script {σ τ α : Type} (perform : σ → τ → α × τ) : List σ → τ → List (α × τ)
  | [], _ => []
  | step :: steps, state =>
    let (answer, next) := perform step state
    (answer, next) :: script perform steps next

end Mov8086
