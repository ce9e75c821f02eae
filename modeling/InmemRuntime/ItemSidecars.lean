import InmemRuntime.ItemStore
import InmemRuntime.TaskPool
import Mathlib.Algebra.Order.Ring.Int

namespace InmemRuntime.ItemSidecars
open OrderedDict Buckets ItemStore

variable {Q T F V E : Type}

structure Shared (F V E : Type) where
  store : Store F V E
  locked : Bool

-- `querying` and `embedding` are `abatch` waiting for the embedding service,
-- with the lock held. The other tasks have not begun.
inductive Task (Q T V E : Type) where
  | abatch (ops : List (Op Q T V))
  | querying (slots : List (Slot Q V E)) (puts : Dict ItemKey (PutOp T V))
  | embedding (results : List (Result V)) (puts : Dict ItemKey (PutOp T V))
  | batch (ops : List (Op Q T V))
  | sweepTtl

inductive Progress (Q T V E : Type) where
  | suspended (task : Task Q T V E)
  | returned (results : List (Result V))
  | swept (deleted : Nat)
  | raised (raised : Raised)

section interleaving
variable (base : Base Q T F V E)

-- `async with` gives the lock back, whatever happened.
def leave (locked : Bool) (done : Store F V E × Except Raised (List (Result V))) : Shared F V E × Progress Q T V E :=
  (⟨done.1,locked⟩,match done.2 with
    | .ok results => .returned results
    | .error raised => .raised raised)

def finishBatch (w : Readings Q E) (s : Store F V E) (results : List (Result V)) (puts : Dict ItemKey (PutOp T V)) :
    Shared F V E × Progress Q T V E :=
  leave false (andThen (write base s w puts) fun s _ => (s,.ok results))

def embedOrFinish (w : Readings Q E) (s : Store F V E) (results : List (Result V)) (puts : Dict ItemKey (PutOp T V)) :
    Shared F V E × Progress Q T V E :=
  if (texts base puts).isEmpty then finishBatch base w s results puts
  else (⟨s,true⟩,.suspended (.embedding results puts))

def searchAndOn (w : Readings Q E) (s : Store F V E) (slots : List (Slot Q V E)) (puts : Dict ItemKey (PutOp T V)) :
    Shared F V E × Progress Q T V E :=
  match search base s w slots with
  | (s,.error raised) => (⟨s,false⟩,.raised raised)
  | (s,.ok results) => embedOrFinish base w s results puts

-- From one suspension of a call to the next.
def stepTask (w : Readings Q E) (s : Shared F V E) : Task Q T V E → Shared F V E × Progress Q T V E
  | .abatch ops =>
    if s.locked then (s,.suspended (.abatch ops))
    else
      match prepareOps base s.store w.prepared ops with
      | (store,.error raised) => (⟨store,false⟩,.raised raised)
      | (store,.ok prepared) =>
        if prepared.slots.any Slot.isSearch then (⟨store,true⟩,.suspended (.querying prepared.slots prepared.putOps))
        else searchAndOn base w store prepared.slots prepared.putOps
  | .querying slots puts => searchAndOn base w s.store slots puts
  | .embedding results puts => finishBatch base w s.store results puts
  | .batch ops => leave s.locked (batch base s.store w ops)
  | .sweepTtl =>
    if s.locked then (s,.suspended .sweepTtl)
    else (⟨(sweepTtl s.store w.applied).1,false⟩,.swept (sweepTtl s.store w.applied).2)

def resume (w : Readings Q E) (s : Shared F V E) (task : Task Q T V E) : Shared F V E × List (Task Q T V E) :=
  ((stepTask base w s task).1,match (stepTask base w s task).2 with
    | .suspended task => [task]
    | _ => [])

abbrev Pool (Q T F V E : Type) := TaskPool.Pool (Shared F V E) (Task Q T V E)

abbrev Event (Q T V E : Type) := TaskPool.Event (Task Q T V E) (Readings Q E)

abbrev Runs : Pool Q T F V E → List (Pool Q T F V E × Event Q T V E) → Pool Q T F V E → Prop := TaskPool.Runs (resume base)

def ErrorFree : Pool Q T F V E × Event Q T V E → Prop :=
  TaskPool.Meets (fun _ => True) fun w s task => ∀ raised, (stepTask base w s task).2 ≠ .raised raised

end interleaving

def Sized (s : Store F V E) (key : ItemKey) : Prop := (s.sizeTracker.entries.get? key).isSome ↔ s.live key

def Totals (t : SizeTracker) : Prop := t.totalBytes = t.entries.sum fun _ size => size

-- The records of expiry and of sizes agree with the items.
structure Matched (s : Store F V E) : Prop where
  ttl : ∀ key, (s.ttl.get? key).isSome → s.live key
  sizes : ∀ key, Sized s key
  total : Totals s.sizeTracker

def Embedded (s : Store F V E) : Prop := ∀ key, (s.vectors.item? key).isSome → s.live key

section sizes
variable {t : SizeTracker} {base : Base Q T F V E} {s s' : Store F V E} {key : ItemKey}

theorem weight_entry (entry : ItemKey) : t.entries.weightAt (fun _ size => size) entry = (t.entries.get? entry).getD 0 := by
  unfold Dict.weightAt
  cases t.entries.get? entry <;> rfl

theorem setSize_totals (totals : Totals t) (entry : ItemKey) (sizeBytes : Int) : Totals (t.setSize entry sizeBytes) := by
  unfold Totals SizeTracker.setSize
  rw [Dict.sum_insert,weight_entry,← show t.totalBytes = _ from totals]

theorem remove_totals (totals : Totals t) (entry : ItemKey) : Totals (t.remove entry).1 := by
  unfold Totals SizeTracker.remove
  rw [Dict.sum_erase,weight_entry,← show t.totalBytes = _ from totals]

theorem trackItemSize_totals (totals : Totals s.sizeTracker) (key : ItemKey) : Totals (trackItemSize base s key).sizeTracker := by
  unfold trackItemSize
  split
  · exact remove_totals totals key
  · exact setSize_totals totals key _

theorem trackItemSize_sized (s : Store F V E) (tracked key : ItemKey) (known : tracked = key ∨ Sized s key) :
    Sized (trackItemSize base s tracked) key := by
  have data : (trackItemSize base s tracked).live key ↔ s.live key := by simp [Store.live]
  unfold Sized
  rw [data]
  by_cases same : tracked = key
  · subst same
    unfold trackItemSize
    split
    · rename_i absent
      simp [SizeTracker.remove,Dict.get?_erase,Store.live,absent]
    · rename_i item present
      simp [SizeTracker.setSize,Store.live,present]
  · have other : (trackItemSize base s tracked).sizeTracker.entries.get? key = s.sizeTracker.entries.get? key := by
      unfold trackItemSize
      split
      · simp [SizeTracker.remove,Dict.get?_erase,same]
      · simp [SizeTracker.setSize,Dict.get?_insert,same]
    rw [other]
    exact known.resolve_left same

theorem trackAll_sized (keys : List ItemKey) (known : key ∈ keys ∨ Sized s key) : Sized (keys.foldl (trackItemSize base) s) key := by
  induction keys generalizing s with
  | nil => exact known.resolve_left (List.not_mem_nil)
  | cons first rest ih =>
    refine ih ?_
    rcases known with member | sized
    · rcases List.mem_cons.mp member with rfl | later
      · exact .inr (trackItemSize_sized s _ _ (.inl rfl))
      · exact .inl later
    · exact .inr (trackItemSize_sized s first key (.inr sized))

theorem trackAll_totals (keys : List ItemKey) (totals : Totals s.sizeTracker) :
    Totals (keys.foldl (trackItemSize base) s).sizeTracker := by
  induction keys generalizing s with
  | nil => exact totals
  | cons first rest ih => exact ih (trackItemSize_totals totals first)

end sizes

section operations
variable {base : Base Q T F V E} {s s' : Store F V E} {now : Int} {puts : Dict ItemKey (PutOp T V)}

theorem refreshes_matched (refreshes : Refreshes s s') (matched : Matched s) : Matched s' := by
  refine ⟨fun key present => ?_,fun key => ?_,?_⟩
  · rw [Store.live,refreshes.data]
    exact matched.ttl key (by rwa [← refreshes.ttl])
  · rw [Sized,Store.live,refreshes.data,refreshes.sizes]
    exact matched.sizes key
  · rw [refreshes.sizes]
    exact matched.total

theorem refreshes_embedded (refreshes : Refreshes s s') (embedded : Embedded s) : Embedded s' := by
  intro key present
  rw [refreshes.vectors] at present
  rw [Store.live,refreshes.data]
  exact embedded key present

-- What is written for a key decides alone whether it is live.
theorem written_live (written : Written base now puts s s') {key : ItemKey} :
    s'.live key ↔ match puts.get? key with
      | none => s.live key
      | some put => put.value.isSome := by
  rw [Store.live,written.data]
  cases puts.get? key <;> rfl

theorem dropEmptyBuckets_sizes (names : List Namespace) (s : Store F V E) :
    (names.foldl dropEmptyBuckets s).sizeTracker = s.sizeTracker := by
  rw [loop_same (fun s : Store F V E => s.sizeTracker) (by simp [dropEmptyBuckets])]

theorem applied_sizes (applied : applyPutOps base s now puts = (s',.ok ())) (totals : Totals s.sizeTracker)
    (sizes : ∀ key, Sized s key) : (∀ key, Sized s' key) ∧ Totals s'.sizeTracker := by
  unfold applyPutOps at applied
  split at applied
  · cases applied
  · rename_i updates mapped
    obtain ⟨rfl,-⟩ := Prod.mk.inj applied
    let stored := updates.foldl writeTtl (puts.entries.foldl writeItem s)
    have unsized : stored.sizeTracker = s.sizeTracker := by
      rw [loop_same (fun s : Store F V E => s.sizeTracker) (by simp),loop_same (fun s : Store F V E => s.sizeTracker) (by simp)]
    refine ⟨fun key => ?_,?_⟩
    · have tracked : Sized (puts.keys.foldl (trackItemSize base) stored) key := by
        refine trackAll_sized _ ?_
        by_cases named : key ∈ puts.keys
        · exact .inl named
        · right
          have absent : puts.get? key = none := by
            simpa [Dict.mem_keys,Dict.contains_eq_false_iff] using named
          have data : stored.data.item? key = s.data.item? key := by
            rw [loop_same (fun s : Store F V E => s.data.item? key) (by simp),writeItems_data,absent]
          rw [Sized,Store.live,data,unsized]
          exact sizes key
      rw [Sized,Store.live,dropEmptyBuckets_sizes,loop_same (fun s : Store F V E => s.data.item? key) (by simp [dropEmptyBuckets])]
      exact tracked
    · rw [dropEmptyBuckets_sizes]
      exact trackAll_totals _ (by rwa [unsized])

theorem applied_matched (applied : applyPutOps base s now puts = (s',.ok ())) (matched : Matched s) : Matched s' := by
  have written := applyPutOps_written applied
  obtain ⟨sizes,total⟩ := applied_sizes applied matched.total matched.sizes
  refine ⟨fun key present => (written_live written).mpr ?_,sizes,total⟩
  have ttl := written.ttl key
  cases stored : puts.get? key with
  | none =>
    rw [stored] at ttl
    exact matched.ttl key (by rwa [← ttl])
  | some put =>
    rw [stored] at ttl
    cases valued : put.value with
    | some value => simp [valued]
    | none =>
      simp only [ttlUpdate,valued] at ttl
      obtain ⟨_,gone⟩ := Prod.mk.inj (Except.ok.inj ttl)
      simp [← gone] at present

theorem applied_embedded {middle : Store F V E} (embeds : Embeds puts s middle)
    (applied : applyPutOps base middle now puts = (s',.ok ())) (embedded : Embedded s) : Embedded s' := by
  intro key present
  have written := applyPutOps_written applied
  rw [written.vectors] at present
  rw [written_live written]
  cases stored : puts.get? key with
  | none =>
    simp only [stored,Option.any_none,Bool.false_eq_true,↓reduceIte] at present
    rcases embeds.vectors key present with before | ⟨put,named,_⟩
    · simpa only [Store.live,embeds.data] using embedded key before
    · simp [stored] at named
  | some put =>
    cases valued : put.value with
    | some value => simp [valued]
    | none => simp [stored,valued] at present

theorem prepareOps_refreshes (ops : List (Op Q T V)) : Refreshes s (prepareOps base s now ops).1 := by
  unfold prepareOps andThen
  dsimp only
  split <;> exact refreshAll_refreshes _

theorem search_refreshes (w : Readings Q E) (slots : List (Slot Q V E)) : Refreshes s (search base s w slots).1 := by
  unfold search
  split
  · split
    · exact .refl
    · unfold batchSearch andThen
      split <;> exact refreshAll_refreshes _
  · exact .refl

-- Puts that are refused have written nothing but vectors.
theorem applyPutOps_matched (matched : Matched s) : Matched (applyPutOps base s now puts).1 := by
  cases outcome : (applyPutOps base s now puts).2 with
  | ok value => exact applied_matched (Prod.ext rfl outcome) matched
  | error raised =>
    unfold applyPutOps at outcome ⊢
    split
    · exact matched
    · rename_i updates mapped
      simp [mapped] at outcome

theorem write_matched (w : Readings Q E) (matched : Matched s) : Matched (write base s w puts).1 := by
  unfold write
  split
  · exact applyPutOps_matched matched
  · split
    · exact matched
    · exact applyPutOps_matched ⟨matched.ttl,matched.sizes,matched.total⟩

theorem write_embedded {w : Readings Q E} (ran : write base s w puts = (s',.ok ())) (embedded : Embedded s) : Embedded s' := by
  obtain ⟨middle,embeds,applied⟩ := write_ok ran
  exact applied_embedded embeds applied embedded

theorem andThen_matched {α β : Type} {done : Store F V E × Except Raised α} {next : Store F V E → α → Store F V E × Except Raised β}
    (before : Matched done.1) (after : ∀ a, Matched done.1 → Matched (next done.1 a).1) : Matched (andThen done next).1 := by
  unfold andThen
  split
  · exact before
  · exact after _ before

theorem batch_matched (w : Readings Q E) (ops : List (Op Q T V)) (matched : Matched s) : Matched (batch base s w ops).1 := by
  refine andThen_matched (refreshes_matched (prepareOps_refreshes ops) matched) fun prepared ready => ?_
  refine andThen_matched (refreshes_matched (search_refreshes w prepared.slots) ready) fun results searched => ?_
  exact andThen_matched (write_matched w searched) fun _ written => written

theorem batch_embedded {w : Readings Q E} {ops : List (Op Q T V)} {results : List (Result V)}
    (ran : batch base s w ops = (s',.ok results)) (embedded : Embedded s) : Embedded s' := by
  obtain ⟨prepared,_,rest⟩ := andThen_ok ran
  obtain ⟨_,_,rest⟩ := andThen_ok rest
  obtain ⟨⟨⟩,wrote,rest⟩ := andThen_ok rest
  obtain ⟨rfl,-⟩ := Prod.mk.inj rest
  exact write_embedded (Prod.ext rfl wrote)
    (refreshes_embedded (search_refreshes w prepared.slots) (refreshes_embedded (prepareOps_refreshes ops) embedded))

end operations

section sweeping
variable {base : Base Q T F V E} {s : Store F V E} {now : Int}

theorem sweepItem_sizes (swept : Swept F V E) (gone key : ItemKey) : (sweepItem swept gone).store.sizeTracker.entries.get? key =
    if gone = key then none else swept.store.sizeTracker.entries.get? key := by
  simp [sweepItem,SizeTracker.remove,Dict.get?_erase]

theorem sweepItem_matched {swept : Swept F V E} (gone : ItemKey) (matched : Matched swept.store) : Matched (sweepItem swept gone).store := by
  have data := sweepItem_data swept gone
  have ttl := sweepItem_ttl swept gone
  have sizes := sweepItem_sizes swept gone
  refine ⟨fun key present => ?_,fun key => ?_,remove_totals matched.total gone⟩
  · rw [ttl] at present
    rw [Store.live,data]
    by_cases same : gone = key
    · simp [same] at present
    · rw [if_neg same] at present ⊢
      exact matched.ttl key present
  · rw [Sized,Store.live,data,sizes]
    by_cases same : gone = key
    · simp [same]
    · rw [if_neg same,if_neg same]
      exact matched.sizes key

-- What is counted as deleted is what the total loses, since what is not
-- stored has no entry either.
theorem sweepItem_counts {swept : Swept F V E} (gone : ItemKey) (matched : Matched swept.store) :
    (sweepItem swept gone).deletedSize + (sweepItem swept gone).store.sizeTracker.totalBytes =
      swept.deletedSize + swept.store.sizeTracker.totalBytes := by
  unfold sweepItem SizeTracker.remove
  dsimp only
  split
  · omega
  · rename_i missing
    have sizeless : swept.store.sizeTracker.entries.get? gone = none := by
      rw [← Option.not_isSome_iff_eq_none]
      exact fun present => missing ((matched.sizes gone).mp present)
    simp [sizeless]

theorem sweepItems_matched (keys : List ItemKey) {swept : Swept F V E} (matched : Matched swept.store) :
    Matched (keys.foldl sweepItem swept).store ∧ (keys.foldl sweepItem swept).deletedSize +
      (keys.foldl sweepItem swept).store.sizeTracker.totalBytes = swept.deletedSize + swept.store.sizeTracker.totalBytes := by
  induction keys generalizing swept with
  | nil => exact ⟨matched,rfl⟩
  | cons first rest ih =>
    obtain ⟨last,counts⟩ := ih (sweepItem_matched first matched)
    exact ⟨last,counts.trans (sweepItem_counts first matched)⟩

theorem dropEmptyBuckets_matched (names : List Namespace) (matched : Matched s) : Matched (names.foldl dropEmptyBuckets s) := by
  induction names generalizing s with
  | nil => exact matched
  | cons name rest ih =>
    refine ih ⟨fun key present => ?_,fun key => ?_,matched.total⟩
    · simpa [Store.live,dropEmptyBuckets] using matched.ttl key present
    · simpa [Sized,Store.live,dropEmptyBuckets] using matched.sizes key

theorem sweepTtl_matched (matched : Matched s) : Matched (sweepTtl s now).1 ∧
    (sweepTtl s now).1.lastTtlSweepStats.deletedSizeBytes = s.sizeTracker.totalBytes - (sweepTtl s now).1.sizeTracker.totalBytes := by
  have begun : Matched (⟨s,0,0⟩ : Swept F V E).store := matched
  obtain ⟨swept,counts⟩ := sweepItems_matched (s.ttl.filter fun _ record => record.expiresAt ≤ now).keys begun
  unfold sweepTtl
  dsimp only at counts ⊢
  obtain ⟨ttl,sizes,total⟩ := dropEmptyBuckets_matched ((s.ttl.filter fun _ record => record.expiresAt ≤ now).keys.map Prod.fst) swept
  refine ⟨⟨ttl,sizes,total⟩,?_⟩
  rw [dropEmptyBuckets_sizes]
  omega

theorem sweepTtl_embedded (embedded : Embedded s) : Embedded (sweepTtl s now).1 := by
  have sweeps : Sweeps now s (sweepTtl s now).1 := sweepTtl_sweeps
  intro key present
  rw [sweeps.vectors] at present
  rw [Store.live,sweeps.data]
  split at present
  · cases present
  · rename_i undue
    rw [if_neg undue]
    exact embedded key present

end sweeping

section starting
variable {base : Base Q T F V E} {data : Rows Namespace String V} {vectors : Rows Namespace String (Dict String E)}
  {ttl : Dict ItemKey (TtlRecord F)}

theorem rebuild_data (s : Store F V E) : (rebuildSizeTracking base s).data = s.data := by
  unfold rebuildSizeTracking
  rw [loop_same (fun s : Store F V E => s.data) (by simp)]

theorem rebuild_vectors (s : Store F V E) : (rebuildSizeTracking base s).vectors = s.vectors := by
  unfold rebuildSizeTracking
  rw [loop_same (fun s : Store F V E => s.vectors) (by simp)]

theorem rebuild_ttl (s : Store F V E) : (rebuildSizeTracking base s).ttl = s.ttl := by
  unfold rebuildSizeTracking
  rw [loop_same (fun s : Store F V E => s.ttl) (by simp)]

-- Whatever the files say, a start puts the records in order.
theorem rebuild_matched {s : Store F V E} (known : ∀ key, (s.ttl.get? key).isSome → s.live key) : Matched (rebuildSizeTracking base s) := by
  refine ⟨fun key present => ?_,fun key => ?_,?_⟩
  · rw [Store.live,rebuild_data]
    have same : (rebuildSizeTracking base s).ttl = s.ttl := rebuild_ttl s
    exact known key (same ▸ present)
  · refine trackAll_sized _ ?_
    by_cases live : s.live key
    · obtain ⟨value,stored⟩ := Option.isSome_iff_exists.mp live
      exact .inl (List.mem_map.mpr ⟨(key,value),Rows.mem_items.mpr stored,rfl⟩)
    · exact .inr (iff_of_false (by simp [SizeTracker.clear]) live)
  · exact trackAll_totals _ rfl

theorem start_matched : Matched (start base data vectors ttl) := by
  have orphanless : ∀ key, ((dropOrphanedTtlRecords (⟨data,vectors,ttl,.clear,⟨0,0,0⟩⟩ : Store F V E)).ttl.get? key).isSome →
      (dropOrphanedTtlRecords (⟨data,vectors,ttl,.clear,⟨0,0,0⟩⟩ : Store F V E)).live key := by
    intro key present
    simp only [dropOrphanedTtlRecords,Dict.get?_keep] at present
    obtain ⟨record,found⟩ := Option.isSome_iff_exists.mp present
    exact (Option.filter_eq_some_iff.mp found).2
  obtain ⟨known,sizes,total⟩ : Matched (rebuildSizeTracking base (dropOrphanedTtlRecords ⟨data,vectors,ttl,.clear,⟨0,0,0⟩⟩)) :=
    rebuild_matched orphanless
  exact ⟨known,sizes,total⟩

theorem start_embedded : Embedded (start base data .empty ttl) := by
  intro key present
  simp [start,rebuild_vectors,dropOrphanedTtlRecords,Rows.item?,Rows.bucket] at present

end starting

section running
variable {base : Base Q T F V E} {w : Readings Q E} {s : Shared F V E}

theorem finishBatch_matched {store : Store F V E} (results : List (Result V)) (puts : Dict ItemKey (PutOp T V)) (matched : Matched store) :
    Matched (finishBatch base w store results puts).1.store :=
  andThen_matched (write_matched w matched) fun _ written => written

theorem embedOrFinish_matched {store : Store F V E} (results : List (Result V)) (puts : Dict ItemKey (PutOp T V)) (matched : Matched store) :
    Matched (embedOrFinish base w store results puts).1.store := by
  unfold embedOrFinish
  split
  · exact finishBatch_matched results puts matched
  · exact matched

theorem searchAndOn_matched {store : Store F V E} (slots : List (Slot Q V E)) (puts : Dict ItemKey (PutOp T V)) (matched : Matched store) :
    Matched (searchAndOn base w store slots puts).1.store := by
  have refreshes : Refreshes store (search base store w slots).1 := search_refreshes w slots
  have searched := refreshes_matched refreshes matched
  unfold searchAndOn
  split
  · rename_i raised
    rwa [raised] at searched
  · rename_i ran
    rw [ran] at searched
    exact embedOrFinish_matched _ puts searched

theorem stepTask_matched (task : Task Q T V E) (matched : Matched s.store) : Matched (stepTask base w s task).1.store := by
  cases task with
  | abatch ops =>
    have refreshes : Refreshes s.store (prepareOps base s.store w.prepared ops).1 := prepareOps_refreshes ops
    have prepared := refreshes_matched refreshes matched
    simp only [stepTask]
    split
    · exact matched
    · split
      · rename_i raised
        rwa [raised] at prepared
      · rename_i ran
        rw [ran] at prepared
        split
        · exact prepared
        · exact searchAndOn_matched _ _ prepared
  | querying slots puts => exact searchAndOn_matched slots puts matched
  | embedding results puts => exact finishBatch_matched results puts matched
  | batch ops => exact batch_matched w ops matched
  | sweepTtl =>
    simp only [stepTask]
    split
    · exact matched
    · exact (sweepTtl_matched matched).1

theorem finishBatch_embedded {store : Store F V E} {results : List (Result V)} {puts : Dict ItemKey (PutOp T V)}
    (safe : ∀ raised, (finishBatch base w store results puts).2 ≠ .raised raised) (embedded : Embedded store) :
    Embedded (finishBatch base w store results puts).1.store := by
  unfold finishBatch leave andThen at *
  cases wrote : write base store w puts with
  | mk after outcome =>
    cases outcome with
    | error raised => simp [wrote] at safe
    | ok done => exact write_embedded wrote embedded

theorem embedOrFinish_embedded {store : Store F V E} {results : List (Result V)} {puts : Dict ItemKey (PutOp T V)}
    (safe : ∀ raised, (embedOrFinish base w store results puts).2 ≠ .raised raised) (embedded : Embedded store) :
    Embedded (embedOrFinish base w store results puts).1.store := by
  unfold embedOrFinish at *
  split
  · rename_i textless
    rw [if_pos textless] at safe
    exact finishBatch_embedded safe embedded
  · exact embedded

theorem searchAndOn_embedded {store : Store F V E} {slots : List (Slot Q V E)} {puts : Dict ItemKey (PutOp T V)}
    (safe : ∀ raised, (searchAndOn base w store slots puts).2 ≠ .raised raised) (embedded : Embedded store) :
    Embedded (searchAndOn base w store slots puts).1.store := by
  have refreshes : Refreshes store (search base store w slots).1 := search_refreshes w slots
  have searched := refreshes_embedded refreshes embedded
  unfold searchAndOn at *
  cases ran : search base store w slots with
  | mk after outcome =>
    rw [ran] at searched safe
    cases outcome with
    | error raised => exact searched
    | ok results => exact embedOrFinish_embedded safe searched

theorem stepTask_embedded {task : Task Q T V E} (safe : ∀ raised, (stepTask base w s task).2 ≠ .raised raised)
    (embedded : Embedded s.store) : Embedded (stepTask base w s task).1.store := by
  cases task with
  | abatch ops =>
    have refreshes : Refreshes s.store (prepareOps base s.store w.prepared ops).1 := prepareOps_refreshes ops
    have prepared := refreshes_embedded refreshes embedded
    simp only [stepTask] at safe ⊢
    by_cases locked : s.locked
    · rwa [if_pos locked]
    · rw [if_neg locked] at safe ⊢
      cases ran : prepareOps base s.store w.prepared ops with
      | mk after outcome =>
        rw [ran] at prepared safe
        cases outcome with
        | error raised => exact prepared
        | ok ready =>
          dsimp only at safe ⊢
          by_cases searching : ready.slots.any Slot.isSearch
          · rwa [if_pos searching]
          · rw [if_neg searching] at safe ⊢
            exact searchAndOn_embedded safe prepared
  | querying slots puts => exact searchAndOn_embedded safe embedded
  | embedding results puts => exact finishBatch_embedded safe embedded
  | batch ops =>
    simp only [stepTask,leave] at safe ⊢
    cases ran : batch base s.store w ops with
    | mk after outcome =>
      cases outcome with
      | error raised => simp [ran] at safe
      | ok results => exact batch_embedded ran embedded
  | sweepTtl =>
    simp only [stepTask]
    split
    · exact embedded
    · exact sweepTtl_embedded embedded

theorem step_keeps {keeps : Store F V E → Prop} {p next : Pool Q T F V E} {event : Event Q T V E}
    (resumes : ∀ index w task, event = .resume index w → p.tasks[index]? = some task → keeps (stepTask base w p.shared task).1.store)
    (before : keeps p.shared.store) (step : TaskPool.advance (resume base) p event = some next) : keeps next.shared.store := by
  cases event with
  | call task =>
    cases Option.some.inj step
    exact before
  | resume index w =>
    obtain ⟨_,task,_,_,found,rfl⟩ := TaskPool.resume_parts step
    exact resumes index w task rfl found

theorem runs_matched {start p : Pool Q T F V E} {taken : List (Pool Q T F V E × Event Q T V E)} (runs : Runs base start taken p)
    (begins : Matched start.shared.store) : Matched p.shared.store := by
  have keeps : ∀ (p : Pool Q T F V E) event next, Matched p.shared.store → True →
      TaskPool.advance (resume base) p event = some next → Matched next.shared.store :=
    fun p event next matched _ step => step_keeps (fun _ _ task _ _ => stepTask_matched task matched) matched step
  exact (TaskPool.runs_invariant runs begins keeps fun _ _ => trivial).1

theorem runs_embedded {start p : Pool Q T F V E} {taken : List (Pool Q T F V E × Event Q T V E)} (runs : Runs base start taken p)
    (begins : Embedded start.shared.store) (errorFree : ∀ step ∈ taken, ErrorFree base step) : Embedded p.shared.store := by
  have keeps : ∀ (p : Pool Q T F V E) event next, Embedded p.shared.store → ErrorFree base (p,event) →
      TaskPool.advance (resume base) p event = some next → Embedded next.shared.store := by
    intro p event next embedded safe step
    refine step_keeps (fun index w task resumes found => ?_) embedded step
    subst resumes
    exact stepTask_embedded (safe task found) embedded
  exact (TaskPool.runs_invariant runs begins keeps errorFree).1

end running

-- The sidecars match the items in every state of every interleaving, whatever
-- the three files held at the start.
theorem sidecars_match {base : Base Q T F V E} {data : Rows Namespace String V} {vectors : Rows Namespace String (Dict String E)}
    {ttl : Dict ItemKey (TtlRecord F)} {taken : List (Pool Q T F V E × Event Q T V E)} {p : Pool Q T F V E}
    (runs : Runs base ⟨⟨start base data vectors ttl,false⟩,[]⟩ taken p) (errorFree : ∀ step ∈ taken, ErrorFree base step) :
    Matched p.shared.store ∧ (vectors = .empty → Embedded p.shared.store) ∧ ∀ w : Readings Q E, p.shared.locked = false →
      (stepTask base w p.shared .sweepTtl).1.store.lastTtlSweepStats.deletedSizeBytes =
        p.shared.store.sizeTracker.totalBytes - (stepTask base w p.shared .sweepTtl).1.store.sizeTracker.totalBytes := by
  have matched := runs_matched runs start_matched
  refine ⟨matched,?_,fun w free => ?_⟩
  · rintro rfl
    exact runs_embedded runs start_embedded errorFree
  · simp only [stepTask,free]
    exact (sweepTtl_matched matched).2

-- An `abatch` waits for its embedding while a batch stores an item that the
-- sweep at the end removes.
section toy

def embedding : Base String Int Int String Nat where
  float := .ok
  timedelta count := .ok (count * 60000000)
  accepts query key _ := key.1.take 1 == [query]
  pick _ _ candidates := candidates.map Prod.fst
  listing _ names := names
  paths _ := ["text"]
  estimate _ _ _ := 100

def at_ (now : Int) : Readings String Nat := ⟨now,now,now,.ok fun _ => none,.ok fun _ => 7⟩

def kept : ItemKey := (["memories"],"kept")

def interleaved : List (Event String Int String Nat) :=
  [.call (.abatch [.put ⟨kept,some "a",none⟩]),.resume 0 (at_ 0),.call (.batch [.put ⟨(["memories"],"short"),some "b",some 1⟩]),
    .resume 1 (at_ 10),.call .sweepTtl,.resume 0 (at_ 20),.resume 0 (at_ 60000010)]

def emptyPool : Pool String Int Int String Nat := ⟨⟨start embedding .empty .empty .empty,false⟩,[]⟩

theorem sidecars_match_toy : ∃ taken p, Runs embedding emptyPool taken p ∧ p.shared.store.live kept ∧ Matched p.shared.store ∧
    Embedded p.shared.store := by
  have runs : Runs embedding emptyPool _ _ := TaskPool.perform_runs .nil (rfl : TaskPool.perform (resume embedding) emptyPool interleaved = some _)
  obtain ⟨matched,embedded,_⟩ := sidecars_match runs (by
    refine List.forall_mem_cons.mpr ⟨trivial,List.forall_mem_cons.mpr ⟨?_,List.forall_mem_cons.mpr ⟨trivial,List.forall_mem_cons.mpr
      ⟨?_,List.forall_mem_cons.mpr ⟨trivial,List.forall_mem_cons.mpr ⟨?_,List.forall_mem_cons.mpr ⟨?_,fun _ none_ => absurd none_ List.not_mem_nil⟩⟩⟩⟩⟩⟩⟩
    all_goals
      intro task here raised same
      cases here
      cases same)
  exact ⟨_,_,runs,rfl,matched,embedded rfl⟩

end toy
end InmemRuntime.ItemSidecars
