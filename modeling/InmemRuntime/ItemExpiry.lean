import InmemRuntime.ItemStore
import InmemRuntime.Leases
import Mathlib.Algebra.Order.Ring.Int

namespace InmemRuntime.ItemExpiry
open OrderedDict Buckets ItemStore
open Leases (Lasts)

variable {Q T F V E : Type}

inductive Call (Q T V E : Type) where
  | batch (readings : Readings Q E) (ops : List (Op Q T V))
  | sweep (now : Int)

-- What a batch returns, one result for each of its operations.
abbrev Reply (V : Type) := List (Result V)

section history
variable (base : Base Q T F V E)

def perform (s : Store F V E) : Call Q T V E → Store F V E × Except Raised (Reply V)
  | .batch readings ops => batch base s readings ops
  | .sweep now => ((sweepTtl s now).1,.ok [])

-- Calls one after another, each with what it returned.
inductive History : Store F V E → List (Call Q T V E × Reply V) → Store F V E → Prop where
  | nil : History s [] s
  | cons (performed : perform base s call = (middle,.ok reply)) (rest : History middle log last) :
      History s ((call,reply) :: log) last

end history

def Call.readings : Call Q T V E → List Int
  | .batch readings _ => [readings.prepared,readings.searched,readings.applied]
  | .sweep now => [now]

-- The refreshing reads that returned an item under the key.
def gets (key : ItemKey) : Op Q T V × Result V → Prop
  | (.get op,.item (some _)) => op.refreshTtl ∧ op.key = key
  | _ => False

def searches (key : ItemKey) : Op Q T V × Result V → Prop
  | (.search op,.found items) => op.refreshTtl ∧ key ∈ items.map Prod.fst
  | _ => False

def Touched (key : ItemKey) (log : List (Call Q T V E × Reply V)) (time : Int) : Prop :=
  ∃ readings ops reply, (Call.batch readings ops,reply) ∈ log ∧ ∃ read ∈ ops.zip reply,
    gets key read ∧ time = readings.prepared ∨ searches key read ∧ time = readings.searched

-- The last put of a batch for the key.
def Call.put? (key : ItemKey) : Call Q T V E → Option (PutOp T V)
  | .batch _ ops => (putOps ops).get? key
  | .sweep _ => none

def Deleted (key : ItemKey) (log : List (Call Q T V E × Reply V)) : Prop :=
  ∃ done ∈ log, ∃ put, done.1.put? key = some put ∧ put.value = none

-- What a store holds of an item, told by a lease.
def Tracks (base : Base Q T F V E) (limit : Option Int) (s : Store F V E) (key : ItemKey) : Option Int → Prop
  | none => s.data.item? key = none ∧ s.ttl.get? key = none
  | some touched => s.live key ∧ match limit with
    | none => s.ttl.get? key = none
    | some length => ∃ minutes, s.ttl.get? key = some ⟨touched + length,minutes⟩ ∧ base.timedelta minutes = .ok length

section tracking
variable {base : Base Q T F V E} {limit : Option Int} {s s' : Store F V E} {now : Int} {key : ItemKey} {held : Option Int}

theorem tracks_congr (data : s'.data.item? key = s.data.item? key) (ttl : s'.ttl.get? key = s.ttl.get? key)
    (tracks : Tracks base limit s key held) : Tracks base limit s' key held := by
  cases held <;> simpa only [Tracks,Store.live,data,ttl] using tracks

-- A refresh at the item's own key is a touch of its lease.
theorem refreshTtl_tracks (tracks : Tracks base limit s key held) (refreshed : (refreshTtl base s now key).2 = .ok ()) :
    Tracks base limit (refreshTtl base s now key).1 key (held.map fun _ => now) := by
  have refreshes : Refreshes s (refreshTtl base s now key).1 := refreshTtl_refreshes key
  have data := refreshes.data
  cases held with
  | none =>
    have same : refreshTtl base s now key = (s,.ok ()) := by simp [refreshTtl,tracks.2]
    rw [same]
    exact tracks
  | some touched =>
    obtain ⟨live,rest⟩ := tracks
    refine ⟨by rwa [Store.live,data],?_⟩
    cases limit with
    | none =>
      have same : refreshTtl base s now key = (s,.ok ()) := by simp [refreshTtl,show s.ttl.get? key = none from rest]
      rw [same]
      exact rest
    | some length =>
      obtain ⟨minutes,found,known⟩ := rest
      unfold refreshTtl at refreshed ⊢
      rw [found] at refreshed ⊢
      dsimp only at refreshed ⊢
      cases reached : expiry base now minutes with
      | error raised => simp [reached] at refreshed
      | ok expiresAt =>
        obtain ⟨duration,same,rfl⟩ := expiry_ok reached
        cases same.symm.trans known
        exact ⟨minutes,Dict.get?_insert_self _ _ _,known⟩

theorem refreshTtl_other {other : ItemKey} (apart : other ≠ key) :
    (refreshTtl base s now other).1.ttl.get? key = s.ttl.get? key := by
  unfold refreshTtl
  split
  · rfl
  · split
    · rfl
    · exact Dict.get?_insert_other (by simpa using apart)

theorem refreshAll_tracks {keys : List ItemKey} (tracks : Tracks base limit s key held)
    (refreshed : refreshAll base now s keys = (s',.ok ())) :
    Tracks base limit s' key (if key ∈ keys then held.map fun _ => now else held) := by
  induction keys generalizing s held with
  | nil => cases refreshed; simpa using tracks
  | cons first keys ih =>
    obtain ⟨⟨⟩,done,rest⟩ := andThen_ok refreshed
    by_cases same : first = key
    · subst same
      have later := ih (refreshTtl_tracks tracks done) rest
      simpa [Function.comp_def] using later
    · have refreshes : Refreshes s (refreshTtl base s now first).1 := refreshTtl_refreshes first
      have later := ih (tracks_congr (by rw [refreshes.data]) (refreshTtl_other same) tracks) rest
      simpa [Ne.symm same] using later

theorem zip_mapped {α β : Type} (rows : List α) (f : α → β) : rows.zip (rows.map f) = rows.map fun row => (row,f row) := by
  have both : (rows.map id).zip (rows.map f) = _ := List.zip_map'
  simpa using both

-- The code looks at the same reads, before the searches are filled in.
theorem refreshedGet_gets {ops : List (Op Q T V)} (queries : Q → Option E) :
    key ∈ (ops.zip (ops.map (slot base s))).filterMap refreshedGet ↔
      ∃ read ∈ ops.zip ((ops.map (slot base s)).map (fill base queries)), gets key read := by
  rw [List.map_map,zip_mapped,zip_mapped,List.filterMap_map]
  simp only [List.mem_filterMap,List.mem_map,exists_exists_and_eq_and,Function.comp_apply]
  refine exists_congr fun op => and_congr_right fun _ => ?_
  cases op with
  | get op => cases found : s.data.item? op.key <;> simp [slot,found,refreshedGet,fill,gets]
  | _ => simp [refreshedGet,gets]

theorem refreshedSearch_searches {ops : List (Op Q T V)} (queries : Q → Option E) :
    key ∈ (ops.map (slot base s)).flatMap (refreshedSearch base queries) ↔
      ∃ read ∈ ops.zip ((ops.map (slot base s)).map (fill base queries)), searches key read := by
  rw [List.map_map,zip_mapped]
  simp only [List.mem_flatMap,List.mem_map,exists_exists_and_eq_and,Function.comp_apply]
  refine exists_congr fun op => and_congr_right fun _ => ?_
  cases op with
  | search op => by_cases refresh : op.refreshTtl <;> simp [slot,refreshedSearch,fill,searches,refresh]
  | _ => simp [slot,refreshedSearch,searches]

-- What an item that is not stored cannot be returned by.
theorem gets_live {ops : List (Op Q T V)} (queries : Q → Option E) (gone : s.data.item? key = none) :
    ∀ read ∈ ops.zip ((ops.map (slot base s)).map (fill base queries)), ¬ gets key read := by
  rw [List.map_map,zip_mapped]
  intro read member
  obtain ⟨op,_,rfl⟩ := List.mem_map.mp member
  cases op with
  | get op =>
    cases found : s.data.item? op.key with
    | none => simp [slot,found,fill,gets]
    | some value =>
      have apart : op.key ≠ key := fun same => by simp [← same,found] at gone
      simp [slot,found,fill,gets,apart]
  | _ => simp [gets]

-- A search answers out of its candidates.
def Picks (base : Base Q T F V E) : Prop :=
  ∀ query embedding candidates, ∀ item ∈ base.pick query embedding candidates, item ∈ candidates.map Prod.fst

theorem searches_live (picks : Picks base) {ops : List (Op Q T V)} (queries : Q → Option E) (gone : s.data.item? key = none) :
    ∀ read ∈ ops.zip ((ops.map (slot base s)).map (fill base queries)), ¬ searches key read := by
  rw [List.map_map,zip_mapped]
  intro read member
  obtain ⟨op,_,rfl⟩ := List.mem_map.mp member
  cases op with
  | search op =>
    rintro ⟨_,found⟩
    obtain ⟨item,picked,rfl⟩ := List.mem_map.mp found
    obtain ⟨⟨_,_⟩,candidate,rfl⟩ := List.mem_map.mp (picks _ _ _ item picked)
    obtain ⟨stored,kept,same⟩ := List.mem_map.mp candidate
    obtain ⟨rfl,-⟩ := Prod.mk.inj same
    have present := Rows.mem_items.mp (List.mem_filter.mp kept).1
    exact absurd (gone.symm.trans present) nofun
  | _ => simp [searches]

open scoped Classical in
-- What a call is to the lease of one item.
noncomputable def events (key : ItemKey) : Call Q T V E × Reply V → List (Leases.Event Int)
  | (.batch readings ops,reply) =>
    (if ∃ read ∈ ops.zip reply, gets key read then [.touch readings.prepared] else []) ++
    ((if ∃ read ∈ ops.zip reply, searches key read then [.touch readings.searched] else []) ++
      if ∃ put, (putOps ops).get? key = some put ∧ put.value = none then [.drop] else [])
  | (.sweep now,_) => [.sweep now]

open Leases (run Honest)

theorem touch_tracks {time : Int} {p : Prop} [Decidable p] (tracks : Tracks base limit s key (if p then held.map fun _ => time else held))
    (honest : held = none → ¬ p) : Tracks base limit s key (run limit held (if p then [.touch time] else [])) ∧
      Honest limit held (if p then [.touch time] else []) := by
  split
  · rename_i holds
    rw [if_pos holds] at tracks
    refine ⟨by simpa [Leases.run_cons,Leases.step_touch,run] using tracks,fun _ _ => ?_,trivial⟩
    rw [← Option.ne_none_iff_isSome]
    exact fun gone => honest gone holds
  · rename_i fails
    rw [if_neg fails] at tracks
    exact ⟨tracks,trivial⟩

theorem untouched {time : Int} {p : Prop} [Decidable p] (gone : run limit held (if p then [.touch time] else []) = none) : held = none := by
  cases held with
  | none => rfl
  | some touched => split at gone <;> cases gone

theorem written_tracks {puts : Dict ItemKey (PutOp T V)} (written : Written base now puts s s') (tracks : Tracks base limit s key held)
    (unput : ∀ put, puts.get? key = some put → put.value = none) [Decidable (∃ put, puts.get? key = some put ∧ put.value = none)] :
    Tracks base limit s' key (run limit held (if ∃ put, puts.get? key = some put ∧ put.value = none then [.drop] else [])) := by
  have data := written.data key
  have ttl := written.ttl key
  split
  · rename_i removed
    obtain ⟨put,stored,deletes⟩ := removed
    have dropped : run limit held [.drop] = none := by cases held <;> rfl
    simp only [stored,ttlUpdate,deletes] at data ttl
    rw [dropped]
    exact ⟨data,(Prod.mk.inj (Except.ok.inj ttl)).2.symm⟩
  · rename_i kept
    have absent : puts.get? key = none := by
      cases stored : puts.get? key with
      | none => rfl
      | some put => exact absurd ⟨put,stored,unput put stored⟩ kept
    rw [absent] at data ttl
    exact tracks_congr data ttl tracks

theorem batch_tracks (picks : Picks base) {readings : Readings Q E} {ops : List (Op Q T V)} {reply : Reply V}
    (tracks : Tracks base limit s key held) (ran : batch base s readings ops = (s',.ok reply))
    (unput : ∀ put, (putOps ops).get? key = some put → put.value = none) :
    Tracks base limit s' key (run limit held (events key (.batch readings ops,reply))) ∧
      Honest limit held (events key (.batch readings ops,reply)) := by
  obtain ⟨prepared,first,rest⟩ := andThen_ok ran
  obtain ⟨rfl,got⟩ := prepareOps_ok (Prod.ext rfl first)
  obtain ⟨results,second,rest⟩ := andThen_ok rest
  obtain ⟨queries,rfl,found⟩ := search_ok (Prod.ext rfl second)
  obtain ⟨⟨⟩,third,rest⟩ := andThen_ok rest
  obtain ⟨rfl,same⟩ := Prod.mk.inj rest
  obtain rfl := Except.ok.inj same
  obtain ⟨embedded,embeds,applied⟩ := write_ok (Prod.ext rfl third)
  have refreshes : Refreshes s (refreshAll base readings.prepared s ((ops.zip (ops.map (slot base s))).filterMap refreshedGet)).1 :=
    refreshAll_refreshes _
  have data := refreshes.data
  rw [got] at data
  classical
  have gone : held = none → s.data.item? key = none := by
    rintro rfl
    exact tracks.1
  obtain ⟨tracks₁,honest₁⟩ := touch_tracks (p := ∃ read ∈ ops.zip ((ops.map (slot base s)).map (fill base queries)), gets key read)
    (by simpa only [refreshedGet_gets queries] using refreshAll_tracks tracks got) fun none => by simpa using gets_live queries (gone none)
  obtain ⟨tracks₂,honest₂⟩ := touch_tracks (p := ∃ read ∈ ops.zip ((ops.map (slot base s)).map (fill base queries)), searches key read)
    (by simpa only [refreshedSearch_searches queries] using refreshAll_tracks tracks₁ found) fun none => by
      simpa using searches_live picks queries (gone (untouched none))
  have ready : Tracks base limit embedded key _ := tracks_congr (by rw [embeds.data]) (by rw [embeds.ttl]) tracks₂
  have tracks₃ := written_tracks (applyPutOps_written applied) ready unput
  have honest₃ : ∀ held, Honest limit held (if ∃ put, (putOps ops).get? key = some put ∧ put.value = none then [.drop] else []) := by
    intro held
    split
    · exact ⟨nofun,trivial⟩
    · trivial
  refine ⟨?_,Leases.honest_append honest₁ (Leases.honest_append honest₂ (honest₃ _))⟩
  simpa only [events,Leases.run_append] using tracks₃

-- A sweep takes what is due, which the lease knows.
theorem sweep_tracks (tracks : Tracks base limit s key held) :
    Tracks base limit (sweepTtl s now).1 key (run limit held [.sweep now]) := by
  have sweeps : Sweeps now s (sweepTtl s now).1 := sweepTtl_sweeps
  have data := sweeps.data key
  have ttl := sweeps.ttl key
  cases held with
  | none =>
    have undue : ¬ s.due now key := fun ⟨record,found,_⟩ => by simp [tracks.2] at found
    rw [if_neg undue] at data ttl
    exact tracks_congr data ttl tracks
  | some touched =>
    have step : run limit (some touched) [.sweep now] = if Leases.expired limit touched now then none else some touched := rfl
    have same : s.due now key ↔ Leases.expired limit touched now = true := by
      obtain ⟨_,rest⟩ := tracks
      cases limit with
      | none => simp [Store.due,Leases.expired,show s.ttl.get? key = none from rest]
      | some length =>
        obtain ⟨minutes,found,_⟩ := rest
        simp [Store.due,Leases.expired,found]
    rw [step]
    split
    · rename_i past
      rw [if_pos (same.mpr past)] at data ttl
      exact ⟨data,ttl⟩
    · rename_i within
      rw [if_neg (within ∘ same.mp)] at data ttl
      exact tracks_congr data ttl tracks

theorem perform_tracks (picks : Picks base) {call : Call Q T V E} {reply : Reply V} (tracks : Tracks base limit s key held)
    (performed : perform base s call = (s',.ok reply)) (unput : ∀ put, call.put? key = some put → put.value = none) :
    Tracks base limit s' key (run limit held (events key (call,reply))) ∧ Honest limit held (events key (call,reply)) := by
  cases call with
  | batch readings ops => exact batch_tracks picks tracks performed unput
  | sweep time =>
    obtain ⟨rfl,-⟩ := Prod.mk.inj performed
    exact ⟨sweep_tracks tracks,nofun,trivial⟩

theorem history_tracks (picks : Picks base) {log : List (Call Q T V E × Reply V)} (history : History base s log s')
    (tracks : Tracks base limit s key held) (unput : ∀ done ∈ log, ∀ put, done.1.put? key = some put → put.value = none) :
    Tracks base limit s' key (run limit held (log.flatMap (events key))) ∧ Honest limit held (log.flatMap (events key)) := by
  induction history generalizing held with
  | nil => exact ⟨tracks,trivial⟩
  | cons performed _ ih =>
    obtain ⟨next,honest⟩ := perform_tracks picks tracks performed (unput _ List.mem_cons_self)
    obtain ⟨last,later⟩ := ih next fun done member => unput done (List.mem_cons_of_mem _ member)
    rw [List.flatMap_cons]
    exact ⟨by rwa [Leases.run_append],Leases.honest_append honest later⟩

theorem tracks_live (tracks : Tracks base limit s key held) : s.live key ↔ held.isSome := by
  cases held with
  | none => simp [Store.live,tracks.1]
  | some touched => simp [tracks.1]

-- A put starts a lease, whatever there was before.
theorem put_tracks {readings : Readings Q E} {ops : List (Op Q T V)} {reply : Reply V} {put : PutOp T V}
    (ran : batch base s readings ops = (s',.ok reply)) (last : (putOps ops).get? key = some put) (valued : put.value.isSome) :
    ∃ limit, Tracks base limit s' key (some readings.applied) ∧ ∀ length, limit = some length ↔
      ∃ ttl minutes, put.ttl = some ttl ∧ base.float ttl = .ok minutes ∧ base.timedelta minutes = .ok length := by
  obtain ⟨prepared,first,rest⟩ := andThen_ok ran
  obtain ⟨rfl,-⟩ := prepareOps_ok (Prod.ext rfl first)
  obtain ⟨results,_,rest⟩ := andThen_ok rest
  obtain ⟨⟨⟩,third,rest⟩ := andThen_ok rest
  obtain ⟨rfl,-⟩ := Prod.mk.inj rest
  obtain ⟨embedded,_,applied⟩ := write_ok (Prod.ext rfl third)
  have written := applyPutOps_written applied
  have data := written.data key
  have updated := written.ttl key
  rw [last] at data updated
  obtain ⟨value,stored⟩ := Option.isSome_iff_exists.mp valued
  simp only [stored] at data
  simp only [ttlUpdate,stored] at updated
  cases given : put.ttl with
  | none =>
    simp only [given] at updated
    exact ⟨none,⟨by simp [Store.live,data],(Prod.mk.inj (Except.ok.inj updated)).2.symm⟩,by simp⟩
  | some ttl =>
    simp only [given] at updated
    cases number : base.float ttl with
    | error raised => simp [number,bind,Except.bind] at updated
    | ok minutes =>
      cases reached : expiry base readings.applied minutes with
      | error raised => simp [number,reached,bind,Except.bind] at updated
      | ok expiresAt =>
        simp only [number,reached,bind,Except.bind] at updated
        obtain ⟨length,known,rfl⟩ := expiry_ok reached
        refine ⟨some length,⟨by simp [Store.live,data],minutes,(Prod.mk.inj (Except.ok.inj updated)).2.symm,known⟩,fun other => ?_⟩
        simp [number,known]

end tracking

section events
variable {key : ItemKey} {log : List (Call Q T V E × Reply V)}

theorem drop_events : .drop ∈ log.flatMap (events key) ↔ Deleted key log := by
  rw [List.mem_flatMap]
  refine exists_congr fun done => and_congr_right fun _ => ?_
  obtain ⟨⟨readings,ops⟩ | now,reply⟩ := done
  · simp only [events,List.mem_append]
    split <;> split <;> split <;> simp_all [Call.put?]
  · simp [events,Call.put?]

theorem sweep_events {now : Int} : .sweep now ∈ log.flatMap (events key) ↔ ∃ reply, (.sweep now,reply) ∈ log := by
  rw [List.mem_flatMap]
  constructor
  · rintro ⟨⟨⟨readings,ops⟩ | time,reply⟩,member,event⟩
    · simp only [events,List.mem_append] at event
      split at event <;> split at event <;> split at event <;> simp at event
    · obtain rfl : now = time := by simpa [events] using event
      exact ⟨reply,member⟩
  · rintro ⟨reply,member⟩
    exact ⟨_,member,by simp [events]⟩

theorem touch_events {time : Int} : .touch time ∈ log.flatMap (events key) ↔ Touched key log time := by
  rw [List.mem_flatMap]
  constructor
  · rintro ⟨⟨⟨readings,ops⟩ | now,reply⟩,member,event⟩
    · refine ⟨readings,ops,reply,member,?_⟩
      simp only [events,List.mem_append] at event
      rcases event with first | second | third
      · split at first
        · rename_i read
          obtain ⟨read,among,got⟩ := read
          exact ⟨read,among,.inl ⟨got,by simpa using first⟩⟩
        · cases first
      · split at second
        · rename_i read
          obtain ⟨read,among,found⟩ := read
          exact ⟨read,among,.inr ⟨found,by simpa using second⟩⟩
        · cases second
      · split at third <;> simp at third
    · simp [events] at event
  · rintro ⟨readings,ops,reply,member,read,among,⟨got,rfl⟩ | ⟨found,rfl⟩⟩
    · refine ⟨_,member,List.mem_append_left _ ?_⟩
      rw [if_pos ⟨read,among,got⟩]
      exact List.mem_singleton_self _
    · refine ⟨_,member,List.mem_append_right _ (List.mem_append_left _ ?_)⟩
      rw [if_pos ⟨read,among,found⟩]
      exact List.mem_singleton_self _

-- The events carry readings of the clock, in their order.
theorem events_readings (done : Call Q T V E × Reply V) :
    ((events key done).filterMap Leases.Event.time).Sublist done.1.readings := by
  obtain ⟨⟨readings,ops⟩ | now,reply⟩ := done
  · simp only [events,Call.readings]
    split <;> split <;> split <;> simp [Leases.Event.time]
  · simp [events,Leases.Event.time,Call.readings]

theorem log_readings (key : ItemKey) (log : List (Call Q T V E × Reply V)) :
    ((log.flatMap (events key)).filterMap Leases.Event.time).Sublist (log.flatMap fun done => done.1.readings) := by
  induction log with
  | nil => exact .slnil
  | cons done log ih =>
    rw [List.flatMap_cons,List.flatMap_cons,List.filterMap_append]
    exact (events_readings done).append ih

end events

-- An item kept for ten minutes, read after nine of them and swept ten later.
section toy

def minutes (count : Int) : Int := count * 60000000

def toy : Base String Int Int String Nat where
  float := .ok
  timedelta count := .ok (minutes count)
  accepts query key _ := key.1.take 1 == [query]
  pick _ _ candidates := candidates.map Prod.fst
  listing _ names := names
  paths _ := []
  estimate _ _ _ := 1

def toyReadings (now : Int) : Readings String Nat := ⟨now,now,now,.ok fun _ => none,.ok fun _ => 0⟩

def toyKey : ItemKey := (["memories"],"item")

def toyPut : List (Op String Int String) := [.put ⟨toyKey,some "value",some 10⟩]

def toyRead : List (Op String Int String) := [.get ⟨toyKey,true⟩]

def toyStore : Store Int String Nat := (perform toy (start toy .empty .empty .empty) (.batch (toyReadings 0) toyPut)).1

def toyLog : List (Call String Int String Nat × Reply String) :=
  [(.batch (toyReadings (minutes 9)) toyRead,[.item (some "value")]),(.sweep (minutes 19),[])]

end toy
end InmemRuntime.ItemExpiry
