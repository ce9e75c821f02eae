import Mathlib.Data.Finset.Card

namespace Draining
universe u v w
variable {σ : Type u} {ρ : Type v} {ι : Type w}

-- A machine that works in rounds, each of which takes some of the jobs.
def rounds (round : σ → ρ → σ × List ι) : σ → List ρ → σ × List ι
  | s,[] => (s,[])
  | s,shift :: shifts =>
    let one := round s shift
    let rest := rounds round one.1 shifts
    (rest.1,one.2 ++ rest.2)

-- The rounds of a kind, each looked at in the state that it meets.
def count (round : σ → ρ → σ × List ι) (kind : σ → ρ → Bool) : σ → List ρ → Nat
  | _,[] => 0
  | s,shift :: shifts => (if kind s shift then 1 else 0) + count round kind (round s shift).1 shifts

theorem count_steady (round : σ → ρ → σ × List ι) (kind : ρ → Bool) (s : σ) (shifts : List ρ) :
    count round (fun _ => kind) s shifts = (shifts.filter kind).length := by
  induction shifts generalizing s with
  | nil => rfl
  | cons shift shifts ih =>
    rw [count,ih,List.filter_cons]
    cases kind shift with
    | true => exact Nat.add_comm _ _
    | false => exact Nat.zero_add _

variable [DecidableEq ι]

-- Jobs are taken once, in an order that those which are left respect.
structure Takes (pending : σ → Finset ι) (before : ι → ι → Prop) (s : σ) (result : σ × List ι) : Prop where
  once : result.2.Nodup
  inside : ∀ job ∈ result.2, job ∈ pending s
  left : pending result.1 = pending s \ result.2.toFinset
  order : result.2.Pairwise before
  ahead : ∀ job ∈ result.2, ∀ other ∈ pending result.1, before job other

section rules
variable {round : σ → ρ → σ × List ι} {pending : σ → Finset ι} {before : ι → ι → Prop} {s : σ}

theorem takes_nothing (pending : σ → Finset ι) (before : ι → ι → Prop) (s : σ) : Takes pending before s (s,[]) :=
  ⟨List.nodup_nil,by simp,by simp,.nil,by simp⟩

theorem Takes.append {s' s'' : σ} {first later : List ι} (one : Takes pending before s (s',first))
    (two : Takes pending before s' (s'',later)) : Takes pending before s (s'',first ++ later) where
  once := by
    refine List.Nodup.append one.once two.once fun job early late => ?_
    have remained := two.inside job late
    rw [one.left,Finset.mem_sdiff] at remained
    exact remained.2 (List.mem_toFinset.mpr early)
  inside job member := by
    rcases List.mem_append.mp member with early | late
    · exact one.inside job early
    · have remained := two.inside job late
      rw [one.left] at remained
      exact (Finset.mem_sdiff.mp remained).1
  left := by
    rw [two.left,one.left,List.toFinset_append]
    exact sdiff_sdiff_left
  order := List.pairwise_append.mpr ⟨one.order,two.order,fun job early other late => one.ahead job early other (two.inside other late)⟩
  ahead job member other remains := by
    rcases List.mem_append.mp member with early | late
    · have before_ : other ∈ pending s' := by
        rw [two.left] at remains
        exact (Finset.mem_sdiff.mp remains).1
      exact one.ahead job early other before_
    · exact two.ahead job late other remains

variable {holds : σ → Prop}

theorem rounds_take (keeps : ∀ s shift, holds s → holds (round s shift).1 ∧ Takes pending before s (round s shift)) (shifts : List ρ)
    (begins : holds s) : holds (rounds round s shifts).1 ∧ Takes pending before s (rounds round s shifts) := by
  induction shifts generalizing s with
  | nil => exact ⟨begins,takes_nothing pending before s⟩
  | cons shift shifts ih =>
    obtain ⟨here,one⟩ := keeps s shift begins
    obtain ⟨ends,two⟩ := ih here
    exact ⟨ends,one.append two⟩

-- A round of the kind that leaves a wanted job takes `width` jobs, so a number of
-- those rounds is enough for `width` times as many jobs.
theorem rounds_finish (kind : σ → ρ → Bool) (wanted : ι → Prop) (width : Nat)
    (keeps : ∀ s shift, holds s → holds (round s shift).1 ∧ Takes pending before s (round s shift))
    (progress : ∀ s shift, holds s → kind s shift = true → (∃ job ∈ pending (round s shift).1, wanted job) → width ≤ (round s shift).2.length)
    {shifts : List ρ} (begins : holds s) (enough : (pending s).card ≤ width * count round kind s shifts) :
    ∀ job ∈ pending (rounds round s shifts).1, ¬ wanted job := by
  induction shifts generalizing s with
  | nil =>
    rw [count,Nat.mul_zero,Nat.le_zero,Finset.card_eq_zero] at enough
    intro job member
    rw [show (rounds round s []).1 = s from rfl,enough] at member
    cases member
  | cons shift shifts ih =>
    obtain ⟨here,one⟩ := keeps s shift begins
    rw [show (rounds round s (shift :: shifts)).1 = (rounds round (round s shift).1 shifts).1 from rfl]
    rw [count] at enough
    have inside : (round s shift).2.toFinset ⊆ pending s := fun job member => one.inside job (List.mem_toFinset.mp member)
    have fewer : (pending (round s shift).1).card + (round s shift).2.length = (pending s).card := by
      rw [one.left,← List.toFinset_card_of_nodup one.once]
      exact Finset.card_sdiff_add_card_eq_card inside
    by_cases left : ∃ job ∈ pending (round s shift).1, wanted job
    · refine ih here ?_
      cases known : kind s shift with
      | false =>
        rw [known,if_neg Bool.false_ne_true,Nat.zero_add] at enough
        omega
      | true =>
        have taken := progress s shift begins known left
        rw [known,if_pos rfl,Nat.mul_add,Nat.mul_one] at enough
        omega
    · intro job member wants
      have two : Takes pending before (round s shift).1 (rounds round (round s shift).1 shifts) := (rounds_take keeps shifts here).2
      rw [two.left] at member
      exact left ⟨job,(Finset.mem_sdiff.mp member).1,wants⟩

end rules
end Draining
