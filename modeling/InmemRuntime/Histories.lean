import Mathlib.Data.List.Basic

namespace Histories
universe u v
variable {σ : Type u} {ε : Type v}

-- A run of a machine that takes one event after the other, recorded with the
-- state that each of its events met.
inductive Runs (step : σ → ε → σ) (start : σ) : List (σ × ε) → σ → Prop where
  | nil : Runs step start [] start
  | step (prior : Runs step start taken s) (event : ε) : Runs step start (taken ++ [(s,event)]) (step s event)

-- The run that a list of events makes.
def trace (step : σ → ε → σ) (s : σ) : List ε → List (σ × ε)
  | [] => []
  | event :: events => (s,event) :: trace step (step s event) events

section rules
variable {step : σ → ε → σ} {start s : σ} {taken : List (σ × ε)}

theorem runs_trace (prior : Runs step start taken s) (events : List ε) :
    Runs step start (taken ++ trace step s events) (events.foldl step s) := by
  induction events generalizing s taken with
  | nil => simpa [trace] using prior
  | cons event events ih => simpa [trace] using ih (prior.step event)

theorem runs_invariant {condition : σ → ε → Prop} {holds : σ → Prop} (runs : Runs step start taken s) (begins : holds start)
    (keeps : ∀ s event, holds s → condition s event → holds (step s event)) (permits : ∀ row ∈ taken, condition row.1 row.2) :
    holds s ∧ ∀ row ∈ taken, holds row.1 := by
  induction runs with
  | nil => exact ⟨begins,by simp⟩
  | step prior event ih =>
    obtain ⟨here,earlier⟩ := ih fun row member => permits row (List.mem_append_left _ member)
    refine ⟨keeps _ event here (permits (_,event) (by simp)),?_⟩
    intro row member
    rcases List.mem_append.mp member with old | new
    · exact earlier row old
    · rw [List.mem_singleton.mp new]
      exact here

theorem runs_first (runs : Runs step start taken s) : (taken.head?.map Prod.fst).getD s = start := by
  induction runs with
  | nil => rfl
  | @step taken s prior event ih => cases taken <;> exact ih

-- Each event leads to the state that the next one meets.
theorem runs_linked (runs : Runs step start taken s) : ∀ before row after, taken = before ++ row :: after →
    step row.1 row.2 = (after.head?.map Prod.fst).getD s := by
  induction runs with
  | nil => simp
  | step prior event ih =>
    intro before row after split
    rcases List.eq_nil_or_concat after with rfl | ⟨init,last,rfl⟩
    · obtain ⟨_,same⟩ := List.append_inj' split rfl
      cases List.singleton_inj.mp same
      rfl
    · rw [List.concat_eq_append,← List.cons_append,← List.append_assoc] at split
      obtain ⟨front,same⟩ := List.append_inj' split rfl
      cases List.singleton_inj.mp same
      rw [ih before row init front]
      cases init <;> rfl

-- What does not hold at one point of a run and holds at a later one has begun
-- to hold at some event between them.
theorem runs_switch (runs : Runs step start taken s) (before : List (σ × ε)) (first : σ × ε) (middle : List (σ × ε))
    (last : σ × ε) (after : List (σ × ε)) (split : taken = before ++ first :: (middle ++ last :: after)) (holds : σ → Prop)
    (out : ¬ holds first.1) (in_ : holds last.1) : ∃ row ∈ first :: middle, ¬ holds row.1 ∧ holds (step row.1 row.2) := by
  induction middle generalizing before first with
  | nil =>
    have next := runs_linked runs before first (last :: after) (by simpa using split)
    refine ⟨first,List.mem_cons_self,out,?_⟩
    rw [next]
    exact in_
  | cons second middle ih =>
    have next := runs_linked runs before first (second :: (middle ++ last :: after)) (by simpa using split)
    by_cases here : holds second.1
    · refine ⟨first,List.mem_cons_self,out,?_⟩
      rw [next]
      exact here
    · obtain ⟨row,member,found⟩ := ih (before ++ [first]) second (by simpa using split) here
      exact ⟨row,List.mem_cons_of_mem _ member,found⟩

end rules
end Histories
