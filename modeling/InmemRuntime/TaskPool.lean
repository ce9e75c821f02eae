import Mathlib.Algebra.Order.Group.Multiset

namespace TaskPool
universe u v w x

-- Cooperative tasks over one shared state. A task runs alone from one of its
-- suspension points to the next; nothing else is atomic.
structure Pool (σ : Type u) (τ : Type v) where
  shared : σ
  tasks : List τ

inductive Event (τ : Type v) (ω : Type w) where
  | call (task : τ)
  | resume (index : Nat) (wake : ω)

variable {σ : Type u} {τ : Type v} {ω : Type w}

section running
variable (resume : ω → σ → τ → σ × List τ)

-- `resume` answers with the new shared state and with what the task goes on
-- as: nothing when it ends, itself at its next suspension, or several tasks.
def advance (p : Pool σ τ) : Event τ ω → Option (Pool σ τ)
  | .call task => some {p with tasks := p.tasks ++ [task]}
  | .resume index wake =>
    match p.tasks[index]? with
    | none => none
    | some task =>
      let (shared,spawned) := resume wake p.shared task
      some ⟨shared,p.tasks.take index ++ spawned ++ p.tasks.drop (index+1)⟩

-- A run is recorded with the pool that each of its events met.
inductive Runs (start : Pool σ τ) : List (Pool σ τ × Event τ ω) → Pool σ τ → Prop where
  | nil : Runs start [] start
  | step (prior : Runs start taken p) (step : advance resume p event = some next) :
      Runs start (taken ++ [(p,event)]) next

-- The run that a list of events makes, when each of them can happen.
def perform (p : Pool σ τ) : List (Event τ ω) → Option (List (Pool σ τ × Event τ ω) × Pool σ τ)
  | [] => some ([],p)
  | event :: events =>
    match advance resume p event with
    | none => none
    | some next => (perform next events).map fun done => ((p,event) :: done.1,done.2)

-- A condition on calls and on resumptions, read at one recorded event.
def Meets (callable : τ → Prop) (condition : ω → σ → τ → Prop) (step : Pool σ τ × Event τ ω) : Prop :=
  match step.2 with
  | .call task => callable task
  | .resume index wake => ∀ task, step.1.tasks[index]? = some task → condition wake step.1.shared task

-- The same with a condition on each task that is suspended meanwhile.
def Respects (callable : τ → Prop) (allowed : ω → σ → τ → Prop) (beside : ω → σ → τ → τ → Prop)
    (step : Pool σ τ × Event τ ω) : Prop :=
  match step.2 with
  | .call task => callable task
  | .resume index wake => ∀ task, step.1.tasks[index]? = some task →
    allowed wake step.1.shared task ∧ ∀ other ∈ step.1.tasks, beside wake step.1.shared task other

end running

section rules
variable {resume : ω → σ → τ → σ × List τ} {callable : τ → Prop} {allowed : ω → σ → τ → Prop}
  {beside : ω → σ → τ → τ → Prop}

theorem resume_parts {p next : Pool σ τ} {index : Nat} {wake : ω}
    (step : advance resume p (.resume index wake) = some next) : ∃ before task after,
      p.tasks = before ++ task :: after ∧ p.tasks[index]? = some task ∧
      next = ⟨(resume wake p.shared task).1,before ++ (resume wake p.shared task).2 ++ after⟩ := by
  unfold advance at step
  cases found : p.tasks[index]? with
  | none => simp [found] at step
  | some task =>
    simp only [found,Option.some.injEq] at step
    obtain ⟨bound,here⟩ := List.getElem?_eq_some_iff.mp found
    refine ⟨p.tasks.take index,task,p.tasks.drop (index+1),?_,rfl,step.symm⟩
    rw [← here,← List.drop_eq_getElem_cons bound,List.take_append_drop]

theorem respects_resume {p : Pool σ τ} {index : Nat} {wake : ω} {task : τ} (found : p.tasks[index]? = some task)
    (ok : allowed wake p.shared task) (near : ∀ other ∈ p.tasks, beside wake p.shared task other) :
    Respects callable allowed beside (p,.resume index wake) := by
  intro other here
  obtain rfl := Option.some.inj (found.symm.trans here)
  exact ⟨ok,near⟩

theorem perform_runs {start p next : Pool σ τ} {prior taken : List (Pool σ τ × Event τ ω)} {events : List (Event τ ω)}
    (runs : Runs resume start prior p) (performed : perform resume p events = some (taken,next)) :
    Runs resume start (prior ++ taken) next := by
  induction events generalizing p prior taken with
  | nil =>
    cases Option.some.inj performed
    simpa using runs
  | cons event events ih =>
    unfold perform at performed
    cases stepped : advance resume p event with
    | none => simp [stepped] at performed
    | some middle =>
      simp only [stepped,Option.map_eq_some_iff,Prod.mk.injEq] at performed
      obtain ⟨⟨later,last⟩,rest,rfl,rfl⟩ := performed
      simpa using ih (.step runs stepped) rest

theorem runs_invariant {inv : Pool σ τ → Prop} {permitted : Pool σ τ × Event τ ω → Prop} {start p : Pool σ τ}
    {taken : List (Pool σ τ × Event τ ω)} (runs : Runs resume start taken p) (begins : inv start)
    (keeps : ∀ p event next, inv p → permitted (p,event) → advance resume p event = some next → inv next)
    (permits : ∀ step ∈ taken, permitted step) : inv p ∧ ∀ step ∈ taken, inv step.1 := by
  induction runs with
  | nil => exact ⟨begins,by simp⟩
  | step prior step ih =>
    obtain ⟨here,earlier⟩ := ih fun old member => permits old (List.mem_append_left _ member)
    refine ⟨keeps _ _ _ here (permits _ (by simp)) step,?_⟩
    intro old member
    rcases List.mem_append.mp member with before | last
    · exact earlier old before
    · rw [List.mem_singleton.mp last]
      exact here

-- The same for what may depend on the steps taken so far.
theorem runs_history (permitted : List (Pool σ τ × Event τ ω) → Pool σ τ × Event τ ω → Prop)
    {inv : List (Pool σ τ × Event τ ω) → Pool σ τ → Prop} {start p : Pool σ τ}
    {taken : List (Pool σ τ × Event τ ω)} (runs : Runs resume start taken p) (begins : inv [] start)
    (keeps : ∀ taken p event next, inv taken p → permitted taken (p,event) → advance resume p event = some next →
      inv (taken ++ [(p,event)]) next)
    (permits : ∀ before step after, taken = before ++ step :: after → permitted before step) :
    inv taken p ∧ ∀ before step after, taken = before ++ step :: after → inv before step.1 := by
  induction runs with
  | nil => exact ⟨begins,by simp⟩
  | @step taken p event next prior step ih =>
    obtain ⟨here,earlier⟩ := ih fun before old after split => permits before old (after ++ [(p,event)]) (by simp [split])
    refine ⟨keeps _ _ _ _ here (permits taken (p,event) [] rfl) step,fun before old after split => ?_⟩
    rcases List.eq_nil_or_concat after with rfl | ⟨init,last,rfl⟩
    · obtain ⟨rfl,same⟩ := List.append_inj' split rfl
      cases List.singleton_inj.mp same
      exact here
    · rw [List.concat_eq_append,← List.cons_append,← List.append_assoc] at split
      exact earlier before old init (List.append_inj' split rfl).1

-- A condition on each step and those before it, as one conjunction.
def Each (condition : List (Pool σ τ × Event τ ω) → Pool σ τ × Event τ ω → Prop) :
    List (Pool σ τ × Event τ ω) → List (Pool σ τ × Event τ ω) → Prop
  | _,[] => True
  | earlier,step :: later => condition earlier step ∧ Each condition (earlier ++ [step]) later

theorem each_splits {condition : List (Pool σ τ × Event τ ω) → Pool σ τ × Event τ ω → Prop}
    (prior : List (Pool σ τ × Event τ ω)) {taken : List (Pool σ τ × Event τ ω)} (each : Each condition prior taken) :
    ∀ before step after, taken = before ++ step :: after → condition (prior ++ before) step := by
  induction taken generalizing prior with
  | nil => simp
  | cons first rest ih =>
    intro before step after split
    cases before with
    | nil =>
      cases split
      simpa using each.1
    | cons head tail =>
      obtain ⟨rfl,remains⟩ := List.cons.inj split
      simpa using ih _ each.2 tail step after remains

-- A proof outline: what holds of the shared state at every suspension, what a
-- task may rely on while it is suspended, and what two tasks never share. A
-- step need only keep what it is `beside`.
structure Outline (resume : ω → σ → τ → σ × List τ) (callable : τ → Prop) (allowed : ω → σ → τ → Prop)
    (beside : ω → σ → τ → τ → Prop) (global : σ → Prop) (loc : σ → τ → Prop) (apart : τ → τ → Prop) : Prop where
  symm : ∀ t t', apart t t' → apart t' t
  call : ∀ s t, global s → callable t → loc s t ∧ ∀ t', apart t t'
  shared : ∀ w s t, allowed w s t → global s → loc s t → global (resume w s t).1
  own : ∀ w s t, allowed w s t → global s → loc s t → ∀ u ∈ (resume w s t).2, loc (resume w s t).1 u
  spawned : ∀ w s t, allowed w s t → global s → loc s t → (resume w s t).2.Pairwise apart
  other : ∀ w s t t', allowed w s t → beside w s t t' → global s → loc s t → loc s t' → apart t t' →
    loc (resume w s t).1 t'
  spread : ∀ w s t t', allowed w s t → global s → loc s t → loc s t' → apart t t' →
    ∀ u ∈ (resume w s t).2, apart u t'

structure Holds (global : σ → Prop) (loc : σ → τ → Prop) (apart : τ → τ → Prop) (p : Pool σ τ) : Prop where
  shared : global p.shared
  each : ∀ t ∈ p.tasks, loc p.shared t
  pairs : p.tasks.Pairwise apart

variable {global : σ → Prop} {loc : σ → τ → Prop} {apart : τ → τ → Prop}

theorem holds_call {p : Pool σ τ} (holds : Holds global loc apart p) {task : τ} (here : loc p.shared task)
    (free : ∀ t ∈ p.tasks, apart t task) : Holds global loc apart {p with tasks := p.tasks ++ [task]} := by
  refine ⟨holds.shared,?_,List.pairwise_append.mpr ⟨holds.pairs,List.pairwise_singleton _ _,?_⟩⟩
  · intro t member
    rcases List.mem_append.mp member with old | last
    · exact holds.each t old
    · rw [List.mem_singleton.mp last]
      exact here
  · intro t old last member
    rw [List.mem_singleton.mp member]
    exact free t old

-- One task goes on as others, beside those that stay.
theorem holds_resume {shared shared' : σ} {before after spawned : List τ} {task : τ} (symm : ∀ t t', apart t t' → apart t' t)
    (holds : Holds global loc apart ⟨shared,before ++ task :: after⟩) (valid : global shared')
    (own : ∀ u ∈ spawned, loc shared' u) (pairs : spawned.Pairwise apart)
    (others : ∀ t ∈ before ++ after, loc shared t → apart task t → loc shared' t ∧ ∀ u ∈ spawned, apart u t) :
    Holds global loc apart ⟨shared',before ++ spawned ++ after⟩ := by
  obtain ⟨_,each,apart_⟩ := holds
  obtain ⟨left,rest,across⟩ := List.pairwise_append.mp apart_
  obtain ⟨ahead,right⟩ := List.pairwise_cons.mp rest
  have beside : ∀ t ∈ before ++ after, loc shared' t ∧ ∀ u ∈ spawned, apart u t := by
    intro t member
    rcases List.mem_append.mp member with old | later
    · exact others t member (each t (by simp [old])) (symm _ _ (across t old task (by simp)))
    · exact others t member (each t (by simp [later])) (ahead t later)
  refine ⟨valid,?_,?_⟩
  · intro t member
    rcases List.mem_append.mp member with first | later
    · rcases List.mem_append.mp first with old | new
      · exact (beside t (List.mem_append_left _ old)).1
      · exact own t new
    · exact (beside t (List.mem_append_right _ later)).1
  · refine List.pairwise_append.mpr ⟨List.pairwise_append.mpr ⟨left,pairs,?_⟩,right,?_⟩
    · intro t old u new
      exact symm _ _ ((beside t (List.mem_append_left _ old)).2 u new)
    · intro t member t' later
      rcases List.mem_append.mp member with old | new
      · exact across t old t' (List.mem_cons_of_mem _ later)
      · exact (beside t' (List.mem_append_right _ later)).2 t new

theorem outline_call (outline : Outline resume callable allowed beside global loc apart) {p : Pool σ τ}
    (holds : Holds global loc apart p) {task : τ} (ok : callable task) :
    Holds global loc apart {p with tasks := p.tasks ++ [task]} := by
  obtain ⟨here,free⟩ := outline.call p.shared task holds.shared ok
  exact holds_call holds here fun t _ => outline.symm _ _ (free t)

theorem outline_resume (outline : Outline resume callable allowed beside global loc apart) {shared : σ} {before after : List τ}
    {task : τ} {wake : ω} (holds : Holds global loc apart ⟨shared,before ++ task :: after⟩)
    (ok : allowed wake shared task) (near : ∀ t ∈ before ++ after, beside wake shared task t) :
    Holds global loc apart ⟨(resume wake shared task).1,before ++ (resume wake shared task).2 ++ after⟩ := by
  have valid := holds.shared
  have mine : loc shared task := holds.each task (by simp)
  refine holds_resume outline.symm holds (outline.shared _ _ _ ok valid mine) (outline.own _ _ _ ok valid mine)
    (outline.spawned _ _ _ ok valid mine) ?_
  intro t member theirs free
  exact ⟨outline.other _ _ _ _ ok (near t member) valid mine theirs free,outline.spread _ _ _ _ ok valid mine theirs free⟩

theorem outline_step (outline : Outline resume callable allowed beside global loc apart) {p next : Pool σ τ} {event : Event τ ω}
    (holds : Holds global loc apart p) (respects : Respects callable allowed beside (p,event))
    (step : advance resume p event = some next) : Holds global loc apart next := by
  cases event with
  | call task =>
    cases Option.some.inj step
    exact outline_call outline holds respects
  | resume index wake =>
    obtain ⟨before,task,after,split,found,rfl⟩ := resume_parts step
    obtain ⟨shared,tasks⟩ := p
    dsimp only at split
    subst split
    obtain ⟨ok,near⟩ := respects task found
    refine outline_resume outline holds ok fun t member => near t ?_
    rcases List.mem_append.mp member with old | later
    · exact List.mem_append_left _ old
    · exact List.mem_append_right _ (List.mem_cons_of_mem _ later)

theorem runs_outline (outline : Outline resume callable allowed beside global loc apart) {start p : Pool σ τ}
    {taken : List (Pool σ τ × Event τ ω)} (runs : Runs resume start taken p) (begins : Holds global loc apart start)
    (permits : ∀ step ∈ taken, Respects callable allowed beside step) :
    Holds global loc apart p ∧ ∀ step ∈ taken, Holds global loc apart step.1 :=
  runs_invariant runs begins (fun _ _ _ holds respects step => outline_step outline holds respects step) permits

-- A further local condition, once an outline stands.
theorem outline_layer (outline : Outline resume callable allowed beside global loc apart) {more : σ → τ → Prop}
    (call : ∀ s t, global s → callable t → more s t)
    (own : ∀ w s t, allowed w s t → global s → loc s t → more s t → ∀ u ∈ (resume w s t).2, more (resume w s t).1 u)
    (other : ∀ w s t t', allowed w s t → beside w s t t' → global s → loc s t → loc s t' → apart t t' → more s t' →
      more (resume w s t).1 t') :
    Outline resume callable allowed beside global (fun s t => loc s t ∧ more s t) apart := by
  refine ⟨outline.symm,?_,?_,?_,?_,?_,?_⟩
  · intro s t holds ok
    obtain ⟨here,free⟩ := outline.call s t holds ok
    exact ⟨⟨here,call s t holds ok⟩,free⟩
  · exact fun w s t ok holds mine => outline.shared w s t ok holds mine.1
  · exact fun w s t ok holds mine u spawned => ⟨outline.own w s t ok holds mine.1 u spawned,own w s t ok holds mine.1 mine.2 u spawned⟩
  · exact fun w s t ok holds mine => outline.spawned w s t ok holds mine.1
  · exact fun w s t t' ok near holds mine theirs free => ⟨outline.other w s t t' ok near holds mine.1 theirs.1 free,
      other w s t t' ok near holds mine.1 theirs.1 free theirs.2⟩
  · exact fun w s t t' ok holds mine theirs free => outline.spread w s t t' ok holds mine.1 theirs.1 free

end rules

-- A table in the shared state lists what the tasks hold, each thing once for
-- each holder. The step that takes or gives up something updates both.
section holding
variable {κ : Type x} {resume : ω → σ → τ → σ × List τ}

structure Accounts (resume : ω → σ → τ → σ × List τ) (table : σ → List κ) (held : τ → List κ)
    (callable : τ → Prop) : Prop where
  call : ∀ t, callable t → held t = []
  single : ∀ w s t, (table s).Nodup → (table (resume w s t).1).Nodup
  resume : ∀ w s t, (table s).Nodup → held t ⊆ table s →
    (held t ++ table (resume w s t).1).Perm ((resume w s t).2.flatMap held ++ table s)

structure Balanced (table : σ → List κ) (held : τ → List κ) (p : Pool σ τ) : Prop where
  single : (table p.shared).Nodup
  same : (table p.shared).Perm (p.tasks.flatMap held)

variable {table : σ → List κ} {held : τ → List κ} {callable : τ → Prop}

theorem balanced_held {p : Pool σ τ} (balanced : Balanced table held p) {k : κ} :
    k ∈ table p.shared ↔ ∃ t ∈ p.tasks, k ∈ held t := by
  rw [balanced.same.mem_iff,List.mem_flatMap]

theorem balanced_step (accounts : Accounts resume table held callable) {p next : Pool σ τ} {event : Event τ ω}
    (balanced : Balanced table held p) (meets : Meets callable (fun _ _ _ => True) (p,event))
    (step : advance resume p event = some next) : Balanced table held next := by
  cases event with
  | call task =>
    cases Option.some.inj step
    exact ⟨balanced.single,by simpa [accounts.call task meets] using balanced.same⟩
  | resume index wake =>
    obtain ⟨before,task,after,split,_,rfl⟩ := resume_parts step
    have mine : held task ⊆ table p.shared :=
      fun k member => (balanced_held balanced).mpr ⟨task,by simp [split],member⟩
    have moved := accounts.resume wake p.shared task balanced.single mine
    have same := balanced.same
    refine ⟨accounts.single wake p.shared task balanced.single,?_⟩
    rw [split] at same
    simp only [List.flatMap_append,List.flatMap_cons,← Multiset.coe_eq_coe,← Multiset.coe_add] at moved same ⊢
    rw [same] at moved
    exact add_left_cancel (moved.trans (by ac_rfl))

-- No two tasks hold the same thing.
theorem balanced_apart {p : Pool σ τ} (balanced : Balanced table held p) :
    p.tasks.Pairwise fun t t' => ∀ k ∈ held t, k ∉ held t' := by
  have whole := balanced.same.nodup_iff.mp balanced.single
  clear balanced
  generalize p.tasks = tasks at whole
  induction tasks with
  | nil => exact .nil
  | cons t rest ih =>
    obtain ⟨_,tail,disjoint⟩ := List.nodup_append.mp (by simpa only [List.flatMap_cons] using whole)
    refine List.pairwise_cons.mpr ⟨fun t' member k here there => ?_,ih tail⟩
    exact disjoint k here k (List.mem_flatMap.mpr ⟨t',member,there⟩) rfl

end holding
end TaskPool
