import Mathlib.Data.List.Chain

namespace InmemRuntime.SystemAssistants

section removal
variable {α : Type} [DecidableEq α]

-- The loop of `start_pool` that removes system assistants from the list that it
-- goes through: after a removal it steps over the next one. `fill` is the
-- context that a record may lack.
def removeSystem (system : α → Bool) (fill : α → α) (done : List α) (steppedOver : Bool) : List α → List α
  | [] => done
  | a :: rest =>
    if steppedOver then removeSystem system fill (done ++ [a]) false rest
    else if system a then removeSystem system fill (if a ∈ done then done.erase a ++ [fill a] else done) true rest
    else removeSystem system fill (done ++ [fill a]) false rest

end removal

section keeping
variable {α : Type} {system : α → Bool} {fill : α → α}

-- A list in place of another, up to what `fill` fills in: only records of the
-- system may be missing.
structure Keeps (system : α → Bool) (fill : α → α) (before after : List α) : Prop where
  sublist : (after.map fill).Sublist (before.map fill)
  users : (after.filter fun a => !system a).map fill = (before.filter fun a => !system a).map fill

-- What `fill` does is done once, and is no matter of who made the record.
structure Fills (system : α → Bool) (fill : α → α) : Prop where
  twice : ∀ a, fill (fill a) = fill a
  system : ∀ a, system (fill a) = system a

theorem Keeps.refl (all : List α) : Keeps system fill all all := ⟨.refl _,rfl⟩

theorem Keeps.trans {first second third : List α} (one : Keeps system fill first second)
    (two : Keeps system fill second third) : Keeps system fill first third :=
  ⟨two.sublist.trans one.sublist,two.users.trans one.users⟩

theorem Keeps.append {first first' : List α} (one : Keeps system fill first first') (rest : List α) :
    Keeps system fill (first ++ rest) (first' ++ rest) := by
  refine ⟨?_,?_⟩
  · rw [List.map_append,List.map_append]
    exact one.sublist.append (List.Sublist.refl _)
  · rw [List.filter_append,List.filter_append,List.map_append,List.map_append,one.users]

theorem keeps_filled (fills : Fills system fill) (done : List α) (a : α) : Keeps system fill (done ++ [a]) (done ++ [fill a]) := by
  refine ⟨by simp [fills.twice],?_⟩
  cases held : system a <;> simp [List.filter_append,fills.system,fills.twice,held]

theorem erase_system [DecidableEq α] {a : α} (held : system a = true) (all : List α) :
    (all.erase a).filter (fun a => !system a) = all.filter fun a => !system a := by
  induction all with
  | nil => rfl
  | cons b rest ih =>
    by_cases same : b = a
    · subst same
      simp [held]
    · rw [List.erase_cons_tail (by simpa using same)]
      simp [List.filter_cons,ih]

-- The place of the removed record is lost, be it its own or that of an equal
-- one that came before it.
theorem keeps_removed [DecidableEq α] (fills : Fills system fill) (done : List α) {a : α} (held : system a = true) :
    Keeps system fill (done ++ [a]) (if a ∈ done then done.erase a ++ [fill a] else done) := by
  split
  · apply Keeps.trans _ (keeps_filled fills (done.erase a) a)
    refine Keeps.append ⟨?_,?_⟩ [a]
    · exact List.erase_sublist.map _
    · rw [erase_system held]
  · refine ⟨?_,?_⟩
    · rw [List.map_append]
      exact List.sublist_append_left _ _
    · simp [List.filter_append,held]

theorem removeSystem_keeps [DecidableEq α] (fills : Fills system fill) (done : List α) (steppedOver : Bool) (todo : List α) :
    Keeps system fill (done ++ todo) (removeSystem system fill done steppedOver todo) := by
  induction todo generalizing done steppedOver with
  | nil =>
    rw [List.append_nil]
    exact .refl done
  | cons a rest ih =>
    have split : done ++ a :: rest = (done ++ [a]) ++ rest := by simp
    rw [split]
    unfold removeSystem
    cases steppedOver with
    | true => exact ih (done ++ [a]) false
    | false =>
      by_cases held : system a = true
      · rw [if_neg Bool.false_ne_true,if_pos held]
        exact ((keeps_removed fills done held).append rest).trans (ih _ true)
      · rw [if_neg Bool.false_ne_true,if_neg held]
        exact ((keeps_filled fills done a).append rest).trans (ih _ false)

theorem mem_removeSystem [DecidableEq α] {x : α} {done : List α} {steppedOver : Bool} {todo : List α}
    (member : x ∈ removeSystem system fill done steppedOver todo) : x ∈ done ∨ ∃ a ∈ todo, x = a ∨ x = fill a := by
  induction todo generalizing done steppedOver with
  | nil => exact .inl member
  | cons a rest ih =>
    have later : ∀ {done' skipped}, x ∈ removeSystem system fill done' skipped rest →
        (x ∈ done' → x ∈ done ∨ x = a ∨ x = fill a) → x ∈ done ∨ ∃ b ∈ a :: rest, x = b ∨ x = fill b := by
      intro done' skipped member here
      rcases ih member with old | ⟨b,behind,same⟩
      · exact (here old).imp id fun same => ⟨a,List.mem_cons_self,same⟩
      · exact .inr ⟨b,List.mem_cons_of_mem _ behind,same⟩
    unfold removeSystem at member
    split at member
    · refine later member fun old => ?_
      rcases List.mem_append.mp old with before | last
      · exact .inl before
      · exact .inr (.inl (List.mem_singleton.mp last))
    · split at member
      · refine later member fun old => ?_
        split at old
        · rcases List.mem_append.mp old with before | last
          · exact .inl (List.mem_of_mem_erase before)
          · exact .inr (.inr (List.mem_singleton.mp last))
        · exact .inl old
      · refine later member fun old => ?_
        rcases List.mem_append.mp old with before | last
        · exact .inl before
        · exact .inr (.inr (List.mem_singleton.mp last))

end keeping

section exactness
variable {α : Type} [DecidableEq α] {system : α → Bool} {fill : α → α}

-- A record of the system is followed by none of the system, and `fill` finds
-- nothing to do there.
def Separate (system : α → Bool) (fill : α → α) (a b : α) : Prop := system a = true → system b = false ∧ fill b = b

-- What the loop has passed without removing stays, unless it is of the system.
theorem user_stays {x : α} (user : system x = false) {done : List α} (member : x ∈ done) (steppedOver : Bool) (todo : List α) :
    x ∈ removeSystem system fill done steppedOver todo := by
  induction todo generalizing done steppedOver with
  | nil => exact member
  | cons a rest ih =>
    unfold removeSystem
    split
    · exact ih (List.mem_append_left _ member) false
    · split
      · rename_i held
        apply ih
        split
        · have other : x ≠ a := fun same => by rw [same,held] at user; cases user
          exact List.mem_append_left _ ((List.mem_erase_of_ne other).mpr member)
        · exact member
      · exact ih (List.mem_append_left _ member) false

-- Removing an equal record in its place, the loop never gets rid of one of the
-- system that it has passed.
theorem system_stays (fills : Fills system fill) {done : List α} (member : ∃ x ∈ done, system x = true) (steppedOver : Bool)
    (todo : List α) : ∃ x ∈ removeSystem system fill done steppedOver todo, system x = true := by
  induction todo generalizing done steppedOver with
  | nil => exact member
  | cons a rest ih =>
    have longer : ∀ b, ∃ x ∈ done ++ [b], system x = true := fun b =>
      member.imp fun x held => ⟨List.mem_append_left _ held.1,held.2⟩
    unfold removeSystem
    split
    · exact ih (longer a) false
    · split
      · rename_i held
        apply ih
        split
        · exact ⟨fill a,List.mem_append_right _ List.mem_cons_self,(fills.system a).trans held⟩
        · exact member
      · exact ih (longer (fill a)) false

omit [DecidableEq α] in
theorem isChain_user {b : α} (user : system b = false) (rest : List α) :
    (b :: rest).IsChain (Separate system fill) ↔ rest.IsChain (Separate system fill) := by
  cases rest with
  | nil => simp
  | cons c rest =>
    rw [List.isChain_cons_cons]
    exact and_iff_right fun mine => by rw [user] at mine; cases mine

-- Exactly those of the system go, and the others get what they lack.
theorem removeSystem_exact (fills : Fills system fill) : ∀ (todo done : List α), (∀ a ∈ done, system a = false ∧ fill a = a) →
    (removeSystem system fill done false todo = done ++ (todo.filter fun a => !system a).map fill ↔
      todo.IsChain (Separate system fill))
  | [],done,_ => by simp [removeSystem]
  | [a],done,users => by
    have absent : system a = true → a ∉ done := fun held member => by rw [(users a member).1] at held; cases held
    cases held : system a with
    | false => simp [removeSystem,held]
    | true => simp [removeSystem,held,absent held]
  | a :: b :: rest,done,users => by
    cases held : system a with
    | false =>
      have more : ∀ x ∈ done ++ [fill a], system x = false ∧ fill x = x := by
        intro x member
        rcases List.mem_append.mp member with old | last
        · exact users x old
        · rw [List.mem_singleton.mp last]
          exact ⟨(fills.system a).trans held,fills.twice a⟩
      have later := removeSystem_exact fills (b :: rest) (done ++ [fill a]) more
      have shown : done ++ ((a :: b :: rest).filter fun a => !system a).map fill =
          done ++ [fill a] ++ ((b :: rest).filter fun a => !system a).map fill := by
        rw [List.filter_cons_of_pos (by simp [held]),List.map_cons,List.append_assoc]
        rfl
      have free : Separate system fill a b := fun mine => by rw [held] at mine; cases mine
      rw [shown,removeSystem,if_neg Bool.false_ne_true,if_neg (by simp [held]),later,List.isChain_cons_cons,and_iff_right free]
    | true =>
      have absent : a ∉ done := fun member => by rw [(users a member).1] at held; cases held
      rw [removeSystem,if_neg Bool.false_ne_true,if_pos held,if_neg absent,removeSystem,if_pos rfl,
        List.filter_cons_of_neg (by simp [held]),List.isChain_cons_cons]
      have stepped : system b = false → fill b = b → (removeSystem system fill (done ++ [b]) false rest =
          done ++ ((b :: rest).filter fun a => !system a).map fill ↔ (b :: rest).IsChain (Separate system fill)) := by
        intro user full
        have more : ∀ x ∈ done ++ [b], system x = false ∧ fill x = x := by
          intro x member
          rcases List.mem_append.mp member with old | last
          · exact users x old
          · rw [List.mem_singleton.mp last]
            exact ⟨user,full⟩
        have later := removeSystem_exact fills rest (done ++ [b]) more
        rw [isChain_user user,← later,List.filter_cons_of_pos (by simp [user]),List.map_cons,full,List.append_assoc]
        rfl
      constructor
      · intro same
        have settled : ∀ x ∈ removeSystem system fill (done ++ [b]) false rest, system x = false ∧ fill x = x := by
          intro x member
          rw [same] at member
          rcases List.mem_append.mp member with old | new
          · exact users x old
          · obtain ⟨y,kept,rfl⟩ := List.mem_map.mp new
            exact ⟨(fills.system y).trans (by simpa using (List.mem_filter.mp kept).2),fills.twice y⟩
        have user : system b = false := by
          refine Bool.eq_false_iff.mpr fun theirs => ?_
          obtain ⟨x,member,mine⟩ := system_stays fills ⟨b,List.mem_append_right done List.mem_cons_self,theirs⟩ false rest
          rw [(settled x member).1] at mine
          cases mine
        have full := (settled b (user_stays user (List.mem_append_right done List.mem_cons_self) false rest)).2
        exact ⟨fun _ => ⟨user,full⟩,(stepped user full).mp same⟩
      · rintro ⟨separate,chain⟩
        obtain ⟨user,full⟩ := separate held
        exact (stepped user full).mpr chain

end exactness
end InmemRuntime.SystemAssistants
