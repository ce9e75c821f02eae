import InmemRuntime.TaskPool

namespace Serialization
universe u v w x y z t
open TaskPool

-- Calls that run one after the other, each whole, with what they answered.
inductive Serial {α : Type u} {κ : Type v} {ρ : Type w} (perform : α → κ → α × ρ) (start : α) : List (κ × ρ) → α → Prop where
  | nil : Serial perform start [] start
  | snoc (prior : Serial perform start log a) (performed : perform a call = (b,outcome)) :
      Serial perform start (log ++ [(call,outcome)]) b

section serial
variable {α : Type u} {κ : Type v} {ρ : Type w} {perform : α → κ → α × ρ} {start a b : α} {log later : List (κ × ρ)}

theorem Serial.append (first : Serial perform start log a) (second : Serial perform a later b) :
    Serial perform start (log ++ later) b := by
  induction second with
  | nil => simpa using first
  | snoc prior performed ih =>
    rw [← List.append_assoc]
    exact .snoc ih performed

theorem Serial.one {call : κ} {outcome : ρ} (performed : perform a call = (b,outcome)) : Serial perform a [(call,outcome)] b :=
  .snoc .nil performed

theorem Serial.split (serial : Serial perform start (log ++ later) b) : ∃ a, Serial perform start log a ∧ Serial perform a later b := by
  generalize whole : log ++ later = total at serial
  induction serial generalizing later with
  | nil =>
    obtain ⟨rfl,rfl⟩ := List.append_eq_nil_iff.mp whole
    exact ⟨start,.nil,.nil⟩
  | @snoc total middle call last outcome prior performed ih =>
    rcases List.eq_nil_or_concat later with rfl | ⟨init,final,rfl⟩
    · rw [List.append_nil] at whole
      exact ⟨last,whole ▸ .snoc prior performed,.nil⟩
    · rw [List.concat_eq_append,← List.append_assoc] at whole
      obtain ⟨front,same⟩ := List.append_inj' whole rfl
      cases List.singleton_inj.mp same
      obtain ⟨a,first,second⟩ := ih front
      exact ⟨a,first,by simpa using second.append (.one performed)⟩

theorem Serial.whole (serial : Serial perform start log b) : log = [] ∧ b = start ∨
    ∃ init call outcome a, log = init ++ [(call,outcome)] ∧ Serial perform start init a ∧ perform a call = (b,outcome) := by
  cases serial with
  | nil => exact .inl ⟨rfl,rfl⟩
  | snoc prior performed => exact .inr ⟨_,_,_,_,rfl,prior,performed⟩

theorem Serial.first {call : κ} {outcome : ρ} (serial : Serial perform start ((call,outcome) :: later) b) :
    ∃ a, perform start call = (a,outcome) ∧ Serial perform a later b := by
  obtain ⟨a,one,rest⟩ := Serial.split (show Serial perform start ([(call,outcome)] ++ later) b from serial)
  obtain ⟨none_,_⟩ | ⟨init,last,answer,before,single,prior,performed⟩ := one.whole
  · cases none_
  · obtain ⟨rfl,same⟩ := List.append_inj' (show [] ++ [(call,outcome)] = _ from single) rfl
    cases List.singleton_inj.mp same
    obtain ⟨_,rfl⟩ | ⟨init,last,answer,before,full,_⟩ := prior.whole
    · exact ⟨a,performed,rest⟩
    · simp at full

theorem Serial.invariant {holds : α → Prop} {permitted : κ × ρ → Prop} (serial : Serial perform start log b) (begins : holds start)
    (keeps : ∀ a call, holds a → permitted (call,(perform a call).2) → holds (perform a call).1)
    (permits : ∀ done ∈ log, permitted done) : holds b := by
  induction serial with
  | nil => exact begins
  | snoc prior performed ih =>
    have before := ih fun done member => permits done (List.mem_append_left _ member)
    have after := keeps _ _ before (by rw [performed]; exact permits _ (by simp))
    rwa [performed] at after

end serial

-- A run of a pool, told as the serial calls that an observer records of it.
section observing
variable {σ : Type u} {τ : Type v} {ω : Type w} {α : Type x} {κ : Type y} {ρ : Type z} {γ : Type t}

def observed (observe : γ → Pool σ τ × Event τ ω → γ × List (κ × ρ)) (g : γ) :
    List (Pool σ τ × Event τ ω) → γ × List (κ × ρ)
  | [] => (g,[])
  | step :: rest => ((observed observe (observe g step).1 rest).1,(observe g step).2 ++ (observed observe (observe g step).1 rest).2)

theorem observed_snoc (observe : γ → Pool σ τ × Event τ ω → γ × List (κ × ρ)) (g : γ) (taken : List (Pool σ τ × Event τ ω))
    (step : Pool σ τ × Event τ ω) : observed observe g (taken ++ [step]) =
      ((observe (observed observe g taken).1 step).1,(observed observe g taken).2 ++ (observe (observed observe g taken).1 step).2) := by
  induction taken generalizing g with
  | nil => simp [observed]
  | cons first rest ih => simp [observed,ih]

-- Each step of the pool is, to the atomic object, the calls it completes.
def Simulates (resume : ω → σ → τ → σ × List τ) (permitted : Pool σ τ × Event τ ω → Prop) (perform : α → κ → α × ρ)
    (observe : γ → Pool σ τ × Event τ ω → γ × List (κ × ρ)) (relates : γ → Pool σ τ → α → Prop) : Prop :=
  ∀ g p a event next, relates g p a → permitted (p,event) → advance resume p event = some next →
    ∃ b, Serial perform a (observe g (p,event)).2 b ∧ relates (observe g (p,event)).1 next b

variable {resume : ω → σ → τ → σ × List τ} {permitted : Pool σ τ × Event τ ω → Prop} {perform : α → κ → α × ρ}
  {observe : γ → Pool σ τ × Event τ ω → γ × List (κ × ρ)} {relates : γ → Pool σ τ → α → Prop} {start p : Pool σ τ}
  {taken : List (Pool σ τ × Event τ ω)} {g : γ} {a : α}

theorem runs_serial (simulates : Simulates resume permitted perform observe relates) (runs : Runs resume start taken p)
    (begins : relates g start a) (permits : ∀ step ∈ taken, permitted step) :
    ∃ b, Serial perform a (observed observe g taken).2 b ∧ relates (observed observe g taken).1 p b := by
  induction runs with
  | nil => exact ⟨a,.nil,begins⟩
  | step prior step ih =>
    obtain ⟨b,serial,related⟩ := ih fun old member => permits old (List.mem_append_left _ member)
    obtain ⟨c,more,last⟩ := simulates _ _ _ _ _ related (permits _ (by simp)) step
    rw [observed_snoc]
    exact ⟨c,serial.append more,last⟩

-- What the calls answered is what the steps answered, in their order.
theorem runs_answered {answers : Pool σ τ × Event τ ω → List ρ}
    (simulates : Simulates resume permitted perform observe relates) (runs : Runs resume start taken p) (begins : relates g start a)
    (permits : ∀ step ∈ taken, permitted step)
    (answer : ∀ g p a event next, relates g p a → permitted (p,event) → advance resume p event = some next →
      (observe g (p,event)).2.map Prod.snd = answers (p,event)) :
    (observed observe g taken).2.map Prod.snd = taken.flatMap answers := by
  induction runs with
  | nil => rfl
  | step prior step ih =>
    have earlier := fun old member => permits old (List.mem_append_left _ member)
    obtain ⟨b,_,related⟩ := runs_serial simulates prior begins earlier
    rw [observed_snoc,List.map_append,ih earlier,answer _ _ _ _ _ related (permits _ (by simp)) step]
    simp

-- What is asked of the pool is answered once, or still waits.
theorem runs_accounted {ι : Type*} {asks : Pool σ τ × Event τ ω → List ι} {waiting : γ → Pool σ τ → List ι} {request : κ × ρ → ι}
    (simulates : Simulates resume permitted perform observe relates) (runs : Runs resume start taken p) (begins : relates g start a)
    (permits : ∀ step ∈ taken, permitted step)
    (balance : ∀ g p a event next, relates g p a → permitted (p,event) → advance resume p event = some next →
      (asks (p,event) ++ waiting g p).Perm ((observe g (p,event)).2.map request ++ waiting (observe g (p,event)).1 next)) :
    (taken.flatMap asks ++ waiting g start).Perm
      ((observed observe g taken).2.map request ++ waiting (observed observe g taken).1 p) := by
  induction runs with
  | nil => exact .refl _
  | step prior step ih =>
    have earlier := fun old member => permits old (List.mem_append_left _ member)
    obtain ⟨b,_,related⟩ := runs_serial simulates prior begins earlier
    have whole := ih earlier
    have one := balance _ _ _ _ _ related (permits _ (by simp)) step
    rw [observed_snoc]
    simp only [List.flatMap_append,List.flatMap_cons,List.flatMap_nil,List.append_nil,List.map_append,
      ← Multiset.coe_eq_coe,← Multiset.coe_add] at whole one ⊢
    rw [add_right_comm,whole,add_assoc,add_comm (Multiset.ofList (waiting _ _)),one,add_assoc]

end observing
end Serialization
