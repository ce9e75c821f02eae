import Mathlib.Data.List.Forall2

namespace Outcomes
universe u v

variable {ε α β : Type u}

-- What raises nothing raises nothing in either of its parts.
theorem bind_ok {x : Except ε α} {f : α → Except ε β} {b : β} : x.bind f = .ok b ↔ ∃ a, x = .ok a ∧ f a = .ok b := by
  cases x with
  | error raised => exact iff_of_false (fun ran => by cases ran) fun ⟨_,ran,_⟩ => by cases ran
  | ok a => exact ⟨fun ran => ⟨a,rfl,ran⟩,fun ⟨_,same,ran⟩ => Except.ok.inj same ▸ ran⟩

theorem map_ok {x : Except ε α} {f : α → β} {b : β} : x.map f = .ok b ↔ ∃ a, x = .ok a ∧ f a = b := by
  cases x with
  | error raised => exact iff_of_false (fun ran => by cases ran) fun ⟨_,ran,_⟩ => by cases ran
  | ok a => exact ⟨fun ran => ⟨a,rfl,Except.ok.inj ran⟩,fun ⟨_,same,ran⟩ => congrArg Except.ok (Except.ok.inj same ▸ ran)⟩

-- A traversal gives the results of its steps, where a computation gives a value
-- exactly if both of its parts do.
theorem mapM_pure {m : Type u → Type v} [Monad m] [LawfulMonad m] {ρ : Type} {f : ρ → m β} {rows : List ρ} {results : List β}
    (inj : ∀ {γ : Type u} {c c' : γ}, (pure c : m γ) = pure c' → c = c')
    (bind_ : ∀ {γ δ : Type u} {x : m γ} {g : γ → m δ} {d : δ}, x >>= g = pure d ↔ ∃ c, x = pure c ∧ g c = pure d) :
    rows.mapM f = pure results ↔ List.Forall₂ (fun row result => f row = pure result) rows results := by
  induction rows generalizing results with
  | nil =>
    rw [List.mapM_nil,List.forall₂_nil_left_iff]
    exact ⟨fun same => (inj same).symm,fun same => congrArg pure same.symm⟩
  | cons row rest ih =>
    rw [List.mapM_cons,List.forall₂_cons_left_iff]
    constructor
    · intro mapped
      obtain ⟨first,here,mapped⟩ := bind_.mp mapped
      obtain ⟨later,others,same⟩ := bind_.mp mapped
      exact ⟨first,later,here,ih.mp others,(inj same).symm⟩
    · rintro ⟨first,later,here,others,rfl⟩
      exact bind_.mpr ⟨first,here,bind_.mpr ⟨later,ih.mpr others,rfl⟩⟩

variable {ρ : Type} {rows : List ρ}

theorem mapM_ok {f : ρ → Except ε β} {results : List β} :
    rows.mapM f = .ok results ↔ List.Forall₂ (fun row result => f row = .ok result) rows results :=
  mapM_pure Except.ok.inj bind_ok

theorem mapM_some {f : ρ → Option β} {results : List β} :
    rows.mapM f = some results ↔ List.Forall₂ (fun row result => f row = some result) rows results :=
  mapM_pure Option.some.inj Option.bind_eq_some_iff

theorem mapM_source {f : ρ → Option β} {results : List β} (mapped : rows.mapM f = some results) {result : β}
    (member : result ∈ results) : ∃ row ∈ rows, f row = some result := by
  rw [mapM_some] at mapped
  induction mapped with
  | nil => cases member
  | cons here _ ih =>
    rcases List.mem_cons.mp member with rfl | member
    · exact ⟨_,List.mem_cons_self,here⟩
    · obtain ⟨row,listed,here⟩ := ih member
      exact ⟨row,List.mem_cons_of_mem _ listed,here⟩

theorem mapM_result {f : ρ → Option β} {results : List β} (mapped : rows.mapM f = some results) {row : ρ} (member : row ∈ rows) :
    ∃ result ∈ results, f row = some result := by
  rw [mapM_some] at mapped
  induction mapped with
  | nil => cases member
  | cons here _ ih =>
    rcases List.mem_cons.mp member with rfl | member
    · exact ⟨_,List.mem_cons_self,here⟩
    · obtain ⟨result,listed,here⟩ := ih member
      exact ⟨result,List.mem_cons_of_mem _ listed,here⟩

theorem mapM_isSome {f : ρ → Option β} : (rows.mapM f).isSome = rows.all fun row => (f row).isSome := by
  induction rows with
  | nil => rfl
  | cons row rest ih =>
    rw [List.mapM_cons,List.all_cons,← ih]
    cases f row with
    | none => rfl
    | some found => cases rest.mapM f <;> rfl

-- Rows that are related through the rows of a list between them.
theorem forall₂_through {σ τ : Type*} {R : ρ → σ → Prop} {S : σ → τ → Prop} {results : List τ} :
    (∃ found, List.Forall₂ R rows found ∧ List.Forall₂ S found results) ↔
      List.Forall₂ (fun row result => ∃ found, R row found ∧ S found result) rows results := by
  constructor
  · rintro ⟨found,first,second⟩
    induction first generalizing results with
    | nil => cases second; exact .nil
    | cons here _ ih =>
      cases second with
      | cons there second => exact .cons ⟨_,here,there⟩ (ih second)
  · intro both
    induction both with
    | nil => exact ⟨[],.nil,.nil⟩
    | cons here _ ih =>
      obtain ⟨_,first,second⟩ := here
      obtain ⟨_,firsts,seconds⟩ := ih
      exact ⟨_,.cons first firsts,.cons second seconds⟩

-- Two traversals one after the other give what the two steps give at each row.
theorem mapM_twice {σ : Type} {f : ρ → Option σ} {g : σ → Except ε β} {results : List β} :
    (∃ found, rows.mapM f = some found ∧ found.mapM g = .ok results) ↔
      List.Forall₂ (fun row result => ∃ found, f row = some found ∧ g found = .ok result) rows results := by
  simp only [mapM_some,mapM_ok]
  exact forall₂_through

end Outcomes
