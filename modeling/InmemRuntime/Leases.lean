import Mathlib.Algebra.Order.Group.Defs
import Mathlib.Order.Bounds.Defs

namespace Leases
universe u

-- A lease is held since it was last touched, and a sweep takes back what was
-- held too long. Without a limit nothing is ever too long.
inductive Event (τ : Type u) where
  | touch (time : τ)
  | sweep (time : τ)
  | drop

variable {τ : Type u}

def Event.time : Event τ → Option τ
  | .touch time | .sweep time => some time
  | .drop => none

section counting
variable [AddCommGroup τ] [LinearOrder τ]

def expired (limit : Option τ) (touched now : τ) : Bool := limit.any fun length => touched + length ≤ now

-- The time of the last touch, or nothing once the lease is gone.
def step (limit : Option τ) : Option τ → Event τ → Option τ
  | none,_ => none
  | some _,.touch time => some time
  | some touched,.sweep now => if expired limit touched now then none else some touched
  | some _,.drop => none

def run (limit : Option τ) (held : Option τ) (events : List (Event τ)) : Option τ := events.foldl (step limit) held

-- Only what is held can be touched.
def Honest (limit : Option τ) : Option τ → List (Event τ) → Prop
  | _,[] => True
  | held,event :: events => (∀ time, event = .touch time → held.isSome) ∧ Honest limit (step limit held event) events

end counting

-- The touches up to a time, the first of them being the start of the lease.
def touches [LE τ] (start : τ) (events : List (Event τ)) (now : τ) : Set τ :=
  {time | time ≤ now ∧ (time = start ∨ .touch time ∈ events)}

section rules
variable [LinearOrder τ] {start : τ} {events : List (Event τ)}

-- A later touch puts the earlier ones behind it.
theorem touches_moved {first second now time : τ} (ordered : first ≤ second) (bound : second ≤ now) :
    IsGreatest (touches first (.touch second :: events) now) time ↔ IsGreatest (touches second events now) time := by
  have within : touches second events now ⊆ touches first (.touch second :: events) now := by
    rintro other ⟨early,rfl | member⟩
    · exact ⟨early,.inr List.mem_cons_self⟩
    · exact ⟨early,.inr (List.mem_cons_of_mem _ member)⟩
  have reached : ∀ other ∈ touches first (.touch second :: events) now,
      other ∈ touches second events now ∨ other = first := by
    rintro other ⟨early,rfl | member⟩
    · exact .inr rfl
    · rcases List.mem_cons.mp member with same | later
      · exact .inl ⟨early,.inl (by cases same; rfl)⟩
      · exact .inl ⟨early,.inr later⟩
  have here : second ∈ touches second events now := ⟨bound,.inl rfl⟩
  constructor
  · rintro ⟨member,most⟩
    refine ⟨?_,fun other later => most (within later)⟩
    rcases reached time member with found | rfl
    · exact found
    · rwa [le_antisymm ordered (most (within here))]
  · rintro ⟨member,most⟩
    refine ⟨within member,fun other later => ?_⟩
    rcases reached other later with found | rfl
    · exact most found
    · exact ordered.trans (most here)

theorem touches_skip {event : Event τ} (other : ∀ time, event ≠ .touch time) (now : τ) :
    touches start (event :: events) now = touches start events now := by
  ext time
  simp only [touches,List.mem_cons,Set.mem_ofPred_eq,(other time).symm,false_or]

end rules

-- Held to the end: never dropped, and at every sweep the latest touch so far
-- was recent enough.
def Lasts [AddCommGroup τ] [LinearOrder τ] (limit : Option τ) (start : τ) (events : List (Event τ)) : Prop :=
  .drop ∉ events ∧ ∀ length, limit = some length → ∀ now, .sweep now ∈ events →
    ∀ time, IsGreatest (touches start events now) time → now < time + length

variable [AddCommGroup τ] [LinearOrder τ] {limit : Option τ} {start : τ} {events : List (Event τ)}

theorem run_cons (held : Option τ) (event : Event τ) : run limit held (event :: events) = run limit (step limit held event) events := rfl

@[simp] theorem run_none : run limit none events = none := by
  induction events with
  | nil => rfl
  | cons event events ih => exact ih

theorem run_append (held : Option τ) (first second : List (Event τ)) :
    run limit held (first ++ second) = run limit (run limit held first) second := List.foldl_append

theorem honest_append {held : Option τ} {first second : List (Event τ)} (before : Honest limit held first)
    (after : Honest limit (run limit held first) second) : Honest limit held (first ++ second) := by
  induction first generalizing held with
  | nil => exact after
  | cons event events ih => exact ⟨before.1,ih before.2 after⟩

theorem step_touch (held : Option τ) (time : τ) : step limit held (.touch time) = held.map fun _ => time := by
  cases held <;> rfl

theorem honest_none (honest : Honest limit none events) (time : τ) : .touch time ∉ events := by
  induction events with
  | nil => simp
  | cons event events ih =>
    intro member
    rcases List.mem_cons.mp member with rfl | later
    · exact absurd (honest.1 time rfl) (by simp)
    · exact ih honest.2 later

variable [IsOrderedAddMonoid τ]

theorem swept_lasts {now : τ} (ordered : start ≤ now) (honest : Honest limit (some start) (.sweep now :: events))
    (rest : Honest limit (some start) events → ((run limit (some start) events).isSome ↔ Lasts limit start events)) :
    (run limit (some start) (.sweep now :: events)).isSome ↔ Lasts limit start (.sweep now :: events) := by
  have skip : ∀ time, touches start (.sweep now :: events) time = touches start events time := touches_skip nofun
  have start_in : start ∈ touches start events now := ⟨ordered,.inl rfl⟩
  by_cases late : expired limit start now
  · have gone : step limit (some start) (.sweep now) = none := by simp [step,late]
    obtain ⟨length,limited,past⟩ : ∃ length, limit = some length ∧ start + length ≤ now := by
      simpa [expired,Option.any_eq_true] using late
    have none_later := honest_none (gone ▸ honest.2)
    refine iff_of_false (by simp [run_cons,gone]) fun lasts => ?_
    have greatest : IsGreatest (touches start (.sweep now :: events) now) start := by
      rw [skip]
      refine ⟨start_in,fun time touched => ?_⟩
      rcases touched.2 with rfl | member
      · exact le_rfl
      · exact absurd member (none_later time)
    exact absurd (lasts.2 length limited now List.mem_cons_self start greatest) (not_lt.mpr past)
  · have kept : step limit (some start) (.sweep now) = some start := by simp [step,late]
    have tail := rest (kept ▸ honest.2)
    rw [run_cons,kept,tail]
    refine ⟨fun lasts => ⟨by simpa using lasts.1,?_⟩,fun lasts => ⟨fun member => lasts.1 (List.mem_cons_of_mem _ member),?_⟩⟩
    · intro length limited later member time greatest
      rw [skip] at greatest
      rcases List.mem_cons.mp member with same | among
      · cases same
        have soon : now < start + length := by simpa [expired,limited] using late
        exact soon.trans_le (add_le_add_left (greatest.2 start_in) length)
      · exact lasts.2 length limited later among time greatest
    · intro length limited later member time greatest
      exact lasts.2 length limited later (List.mem_cons_of_mem _ member) time (by rwa [skip])

theorem run_lasts (ordered : (start :: events.filterMap Event.time).Pairwise (· ≤ ·)) (honest : Honest limit (some start) events) :
    (run limit (some start) events).isSome ↔ Lasts limit start events := by
  induction events generalizing start with
  | nil => simp [run,Lasts]
  | cons event events ih =>
    cases event with
    | drop => simp [run_cons,step,Lasts]
    | sweep now =>
      obtain ⟨first,rest⟩ := List.pairwise_cons.mp ordered
      refine swept_lasts (first now (by simp [Event.time])) honest fun steady => ih ?_ steady
      exact List.pairwise_cons.mpr ⟨fun time member => first time (by simp [Event.time] at member ⊢; exact .inr member),
        (List.pairwise_cons.mp rest).2⟩
    | touch second =>
      obtain ⟨first,rest⟩ := List.pairwise_cons.mp ordered
      have moved : start ≤ second := first second (by simp [Event.time])
      have tail : (run limit (some second) events).isSome ↔ Lasts limit second events := ih rest honest.2
      rw [run_cons,step,tail]
      have later : ∀ now, .sweep now ∈ events → second ≤ now := fun now member =>
        (List.pairwise_cons.mp rest).1 now (List.mem_filterMap.mpr ⟨_,member,rfl⟩)
      refine ⟨fun lasts => ⟨by simpa using lasts.1,?_⟩,fun lasts => ⟨fun member => lasts.1 (List.mem_cons_of_mem _ member),?_⟩⟩
      · intro length limited now member time greatest
        have among : .sweep now ∈ events := by simpa using member
        exact lasts.2 length limited now among time ((touches_moved moved (later now among)).mp greatest)
      · intro length limited now member time greatest
        exact lasts.2 length limited now (List.mem_cons_of_mem _ member) time ((touches_moved moved (later now member)).mpr greatest)

end Leases
