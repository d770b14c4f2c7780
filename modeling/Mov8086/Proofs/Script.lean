import Mov8086.Script

/-!
Scripts in parts. The steps of a script do not look ahead, so a script goes on from the state that
its front leaves as it would from that state alone. Where single steps agree under a view of their
answers and states, whole scripts do.
-/

set_option autoImplicit false

namespace Mov8086

variable {σ τ α : Type} (perform : σ → τ → α × τ)

/-- The state that the steps leave. -/
def scriptEnd : List σ → τ → τ
  | [], state => state
  | step :: steps, state => scriptEnd steps (perform step state).2

theorem length_script (steps : List σ) (state : τ) :
    (script perform steps state).length = steps.length := by
  induction steps generalizing state with
  | nil => rfl
  | cons step steps ih => simp [script, ih]

theorem script_append (front later : List σ) (state : τ) :
    script perform (front ++ later) state =
      script perform front state ++ script perform later (scriptEnd perform front state) := by
  induction front generalizing state with
  | nil => rfl
  | cons step front ih => simp [script, scriptEnd, ih]

/-- What comes behind a front is the script on the state that the front leaves. -/
theorem drop_script_append (front later : List σ) (state : τ) :
    (script perform (front ++ later) state).drop front.length =
      script perform later (scriptEnd perform front state) := by
  rw [script_append, ← length_script perform front state, List.drop_left]

/-- Steps that agree under a view of the steps, the answers and the states make scripts that do. -/
theorem map_script {σ' τ' α' : Type} {perform' : σ' → τ' → α' × τ'} (view : σ → σ')
    (answer : α → α') (state : τ → τ') {steps : List σ}
    (agree : ∀ step ∈ steps, ∀ t, perform' (view step) (state t) =
      (answer (perform step t).1, state (perform step t).2)) (t : τ) :
    (script perform steps t).map (fun done => (answer done.1, state done.2)) =
      script perform' (steps.map view) (state t) := by
  induction steps generalizing t with
  | nil => rfl
  | cons step steps ih =>
    obtain ⟨here, later⟩ := List.forall_mem_cons.mp agree
    simp only [script, List.map_cons, here t, ih later]

/-- What every step ensures of its answer, whatever the state, holds of every answer of a script. -/
theorem forall_mem_script {holds : α → Prop}
    (ensures : ∀ step state, holds (perform step state).1) (steps : List σ) (state : τ) :
    ∀ done ∈ script perform steps state, holds done.1 := by
  induction steps generalizing state with
  | nil => exact List.forall_mem_nil _
  | cons step steps ih => exact List.forall_mem_cons.mpr ⟨ensures step state, ih _⟩

end Mov8086
