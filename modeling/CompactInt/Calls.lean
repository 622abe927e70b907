/-! Sequences of calls on one state that every call may change. -/

set_option autoImplicit false

namespace CompactInt.Calls

variable {γ α σ : Type}

/-- Makes the calls one after the other, also after failures. Every result comes with the
state as it is after the call. -/
def run (call : σ → γ → α × σ) (state : σ) : List γ → List (α × σ)
  | [] => []
  | next :: later =>
    let (result, after) := call state next
    (result, after) :: run call after later

def final (state : σ) : List (α × σ) → σ
  | [] => state
  | (_, after) :: later => final after later

variable {call : σ → γ → α × σ}

@[simp] theorem run_nil (state : σ) : run call state [] = [] := rfl

@[simp] theorem run_cons (state : σ) (next : γ) (later : List γ) :
    run call state (next :: later) = call state next :: run call (call state next).2 later := rfl

@[simp] theorem final_nil (state : σ) : final state ([] : List (α × σ)) = state := rfl

@[simp] theorem final_cons (state : σ) (step : α × σ) (later : List (α × σ)) :
    final state (step :: later) = final step.2 later := rfl

theorem run_append (state : σ) (earlier later : List γ) :
    run call state (earlier ++ later) =
      run call state earlier ++ run call (final state (run call state earlier)) later := by
  induction earlier generalizing state with
  | nil => rfl
  | cons next earlier ih => simp only [List.cons_append, run_cons, final_cons, ih]

theorem run_append_cons (state : σ) (earlier : List γ) (next : γ) (later : List γ) :
    run call state (earlier ++ next :: later) =
      run call state earlier ++ call (final state (run call state earlier)) next ::
        run call (call (final state (run call state earlier)) next).2 later := by
  rw [run_append, run_cons]

theorem forall_mem_run {P : α → Prop} (each : ∀ state next, P (call state next).1) (state : σ)
    (calls : List γ) : ∀ step ∈ run call state calls, P step.1 := by
  induction calls generalizing state with
  | nil => exact nofun
  | cons next later ih => exact List.forall_mem_cons.2 ⟨each state next, ih _⟩

/-- A view of the states that every call respects turns runs into runs. -/
theorem run_map {τ : Type} {viewed : τ → γ → α × τ} {view : σ → τ}
    (agree : ∀ state next, (call state next).map id view = viewed (view state) next)
    (state : σ) (calls : List γ) :
    (run call state calls).map (Prod.map id view) = run viewed (view state) calls := by
  induction calls generalizing state with
  | nil => rfl
  | cons next later ih =>
    have moved : view (call state next).2 = (viewed (view state) next).2 := by rw [← agree]; rfl
    simp only [run_cons, List.map_cons, agree, ih, moved]

theorem final_map {τ : Type} (view : σ → τ) (state : σ) (steps : List (α × σ)) :
    final (view state) (steps.map (Prod.map id view)) = view (final state steps) := by
  induction steps generalizing state with
  | nil => rfl
  | cons step later ih => exact ih step.2

end CompactInt.Calls
