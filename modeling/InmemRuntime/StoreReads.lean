import InmemRuntime.StoreSerial

namespace InmemRuntime.StoreReads
open OrderedDict Buckets ItemStore ItemSidecars Serialization StoreSerial
open ItemExpiry (Call Picks Tracks)

variable {Q T F V E : Type}

-- What a read says of the item under the key.
def Reads (key : ItemKey) (value : Option V) : Op Q T V × Result V → Prop
  | (.get op,.item found) => op.key = key ∧ found = value
  | (.search _,.found items) => ∃ found, (key,found) ∈ items ∧ some found = value
  | _ => False

section batches
variable {base : Base Q T F V E} {s : Store F V E} {r : Readings Q E} {ops : List (Op Q T V)} {holds : Store F V E → Prop}

theorem andThen_keeps {σ α β : Type} {holds : σ → Prop} {done : σ × Except Raised α} {next : σ → α → σ × Except Raised β}
    (first : holds done.1) (later : ∀ a, done.2 = .ok a → holds (next done.1 a).1) : holds (andThen done next).1 := by
  unfold andThen
  split
  · exact first
  · rename_i a ran
    exact later a ran

theorem refreshAll_keeps {now : Int} (refresh : ∀ s key, holds s → holds (refreshTtl base s now key).1) (keys : List ItemKey)
    (begins : holds s) : holds (refreshAll base now s keys).1 := by
  induction keys generalizing s with
  | nil => exact begins
  | cons key keys ih => exact andThen_keeps (refresh s key begins) fun _ _ => ih (refresh s key begins)

theorem applyPutOps_keeps {now : Int} {puts : Dict ItemKey (PutOp T V)} (begins : holds s)
    (applied : ∀ s', applyPutOps base s now puts = (s',.ok ()) → holds s') : holds (applyPutOps base s now puts).1 := by
  cases outcome : (applyPutOps base s now puts).2 with
  | ok done => exact applied _ (Prod.ext rfl outcome)
  | error raised =>
    unfold applyPutOps at outcome ⊢
    split
    · exact begins
    · rename_i mapped
      simp [mapped] at outcome

-- A batch refreshes at two times, embeds, and writes its puts only when it
-- returns.
theorem batch_keeps (refresh : ∀ s now key, now ∈ [r.prepared,r.searched] → holds s → holds (refreshTtl base s now key).1)
    (embed : ∀ s embedded toEmbed, holds s → holds (insertVectors embedded s toEmbed))
    (applied : ∀ middle s', (∃ results, batch base s r ops = (s',.ok results)) → holds middle →
      applyPutOps base middle r.applied (putOps ops) = (s',.ok ()) → holds s')
    (begins : holds s) : holds (batch base s r ops).1 := by
  have prepares : holds (prepareOps base s r.prepared ops).1 :=
    andThen_keeps (refreshAll_keeps (fun s key => refresh s _ key (by simp)) _ begins) fun _ _ =>
      refreshAll_keeps (fun s key => refresh s _ key (by simp)) _ begins
  unfold batch
  refine andThen_keeps prepares fun prepared first => ?_
  obtain ⟨rfl,_⟩ := prepareOps_ok (Prod.ext rfl first)
  have searches : holds (search base (prepareOps base s r.prepared ops).1 r (ops.map (slot base s))).1 := by
    unfold search
    split
    · split
      · exact prepares
      · exact andThen_keeps (refreshAll_keeps (fun s key => refresh s _ key (by simp)) _ prepares) fun _ _ =>
          refreshAll_keeps (fun s key => refresh s _ key (by simp)) _ prepares
    · exact prepares
  refine andThen_keeps searches fun results second => ?_
  have completes : ∀ s', write base (search base (prepareOps base s r.prepared ops).1 r (ops.map (slot base s))).1 r (putOps ops) = (s',.ok ()) →
      batch base s r ops = (s',.ok results) := by
    intro s' wrote
    simp only [batch,andThen,first,second,wrote]
  have writes : holds (write base (search base (prepareOps base s r.prepared ops).1 r (ops.map (slot base s))).1 r (putOps ops)).1 := by
    unfold write at completes ⊢
    split
    · rename_i textless
      rw [if_pos textless] at completes
      exact applyPutOps_keeps searches fun s' done => applied _ s' ⟨results,completes s' done⟩ searches done
    · rename_i embeds
      rw [if_neg embeds] at completes
      split
      · exact searches
      · rename_i embedded known
        simp only [known] at completes
        have ready := embed _ embedded (texts base (putOps ops)) searches
        exact applyPutOps_keeps ready fun s' done => applied _ s' ⟨results,completes s' done⟩ ready done
  exact andThen_keeps writes fun _ _ => writes

end batches

-- The item is still as the put left it, or has been swept once its ttl was
-- over: `since` is when it was put.
structure Kept (base : Base Q T F V E) (key : ItemKey) (value : V) (limit : Option Int) (since : Int) (s : Store F V E) : Prop where
  data : s.data.item? key = some value
  ttl : match limit with
    | none => s.ttl.get? key = none
    | some length => ∃ time minutes, s.ttl.get? key = some ⟨time + length,minutes⟩ ∧ base.timedelta minutes = .ok length ∧ since ≤ time

def Gone (key : ItemKey) (s : Store F V E) : Prop := s.data.item? key = none

-- Nothing is put under the key: a batch that raises has written no item.
def Unput (key : ItemKey) (done : Call Q T V E × Except Raised (Answer V)) : Prop :=
  ∀ answer, done.2 = .ok answer → done.1.put? key = none

def Outlived (limit : Option Int) (since now : Int) : Prop := ∃ length, limit = some length ∧ since + length ≤ now

section keeping
variable {base : Base Q T F V E} {s s' : Store F V E} {key : ItemKey} {value : V} {limit : Option Int} {since now : Int}

theorem Kept.congr (kept : Kept base key value limit since s) (data : s'.data.item? key = s.data.item? key)
    (ttl : s'.ttl.get? key = s.ttl.get? key) : Kept base key value limit since s' := by
  obtain ⟨stored,rest⟩ := kept
  exact ⟨data.trans stored,by rwa [ttl]⟩

-- A refresh only moves the end of an item's time away from its put.
theorem refreshTtl_kept (later : since ≤ now) (other : ItemKey) (kept : Kept base key value limit since s) :
    Kept base key value limit since (refreshTtl base s now other).1 := by
  have refreshes : Refreshes s (refreshTtl base s now other).1 := refreshTtl_refreshes other
  have data : (refreshTtl base s now other).1.data.item? key = s.data.item? key := by rw [refreshes.data]
  by_cases same : other = key
  · subst same
    refine ⟨data.trans kept.data,?_⟩
    have ttl := kept.ttl
    cases limit with
    | none => simp [refreshTtl,show s.ttl.get? other = none from ttl]
    | some length =>
      obtain ⟨time,minutes,found,known,after⟩ := ttl
      unfold refreshTtl
      simp only [found]
      cases reached : expiry base now minutes with
      | error raised => exact ⟨time,minutes,found,known,after⟩
      | ok expiresAt =>
        obtain ⟨duration,same,rfl⟩ := expiry_ok reached
        cases same.symm.trans known
        exact ⟨now,minutes,Dict.get?_insert_self _ _ _,known,later⟩
  · exact kept.congr data (ItemExpiry.refreshTtl_other same)

theorem batch_kept {r : Readings Q E} {ops : List (Op Q T V)} (prepared : since ≤ r.prepared) (searched : since ≤ r.searched)
    (unput : ∀ results, (batch base s r ops).2 = .ok results → (putOps ops).get? key = none) (kept : Kept base key value limit since s) :
    Kept base key value limit since (batch base s r ops).1 := by
  refine batch_keeps (fun s now other reading here => refreshTtl_kept ?_ other here) (fun s _ _ here => here.congr rfl rfl) ?_ kept
  · rcases List.mem_cons.mp reading with rfl | second
    · exact prepared
    · rwa [List.mem_singleton.mp second]
  · rintro middle s' ⟨results,ran⟩ here applied
    have written := applyPutOps_written applied
    have data := written.data key
    have ttl := written.ttl key
    rw [unput results (by rw [ran])] at data ttl
    exact here.congr data ttl

theorem batch_gone {r : Readings Q E} {ops : List (Op Q T V)}
    (unput : ∀ results, (batch base s r ops).2 = .ok results → ∀ put, (putOps ops).get? key = some put → put.value = none)
    (gone : Gone key s) : Gone key (batch base s r ops).1 := by
  refine batch_keeps (fun s now other _ here => ?_) (fun s _ _ here => here) ?_ gone
  · have refreshes : Refreshes s (refreshTtl base s now other).1 := refreshTtl_refreshes other
    rw [Gone,refreshes.data]
    exact here
  · rintro middle s' ⟨results,ran⟩ here applied
    have written := applyPutOps_written applied
    rw [Gone,written.data]
    cases stored : (putOps ops).get? key with
    | none => exact here
    | some put => exact unput results (by rw [ran]) put stored

theorem sweep_kept (now : Int) (kept : Kept base key value limit since s) : Kept base key value limit since (sweepTtl s now).1 ∨
    Gone key (sweepTtl s now).1 ∧ Outlived limit since now := by
  have sweeps : Sweeps now s (sweepTtl s now).1 := sweepTtl_sweeps
  have data := sweeps.data key
  have ttl := sweeps.ttl key
  by_cases due : s.due now key
  · right
    rw [if_pos due] at data
    refine ⟨data,?_⟩
    obtain ⟨record,found,past⟩ := due
    have known := kept.ttl
    cases limit with
    | none => simp [show s.ttl.get? key = none from known] at found
    | some length =>
      obtain ⟨time,minutes,stored,_,after⟩ := known
      cases stored.symm.trans found
      exact ⟨length,rfl,le_trans (by simp [after]) past⟩
  · rw [if_neg due] at data ttl
    exact .inl (kept.congr data ttl)

theorem sweep_gone (gone : Gone key s) : Gone key (sweepTtl s now).1 := by
  have sweeps : Sweeps now s (sweepTtl s now).1 := sweepTtl_sweeps
  rw [Gone,sweeps.data]
  split
  · rfl
  · exact gone

-- Calls that put nothing under the key keep the item, but for a sweep once
-- its time is over.
theorem serial_kept {log : List (Call Q T V E × Except Raised (Answer V))} (serial : Serial (atomically base) s log s')
    (kept : Kept base key value limit since s) (clock : ∀ done ∈ log, ∀ time ∈ done.1.readings, since ≤ time)
    (unput : ∀ done ∈ log, Unput key done) :
    Kept base key value limit since s' ∨ Gone key s' ∧ ∃ now answer, (.sweep now,answer) ∈ log ∧ Outlived limit since now := by
  induction serial with
  | nil => exact .inl kept
  | @snoc log a call b outcome prior performed ih =>
    have mine : (call,outcome) ∈ log ++ [(call,outcome)] := by simp
    have readings := clock _ mine
    have absent := unput _ mine
    have before := ih (fun done member => clock done (List.mem_append_left _ member))
      fun done member => unput done (List.mem_append_left _ member)
    cases call with
    | batch r ops =>
      obtain ⟨rfl,rfl⟩ := Prod.mk.inj performed
      have puts : ∀ results, (batch base a r ops).2 = .ok results → (putOps ops).get? key = none := by
        intro results ran
        exact absent (.results results) (by rw [ran]; rfl)
      obtain here | ⟨gone,now,answer,swept,past⟩ := before
      · exact .inl (batch_kept (readings _ (by simp [Call.readings])) (readings _ (by simp [Call.readings])) puts here)
      · refine .inr ⟨batch_gone (fun results ran put named => ?_) gone,now,answer,List.mem_append_left _ swept,past⟩
        rw [puts results ran] at named
        cases named
    | sweep now =>
      obtain ⟨rfl,rfl⟩ := Prod.mk.inj performed
      obtain here | ⟨gone,earlier,answer,swept,past⟩ := before
      · obtain still | ⟨gone,past⟩ := sweep_kept now here
        · exact .inl still
        · exact .inr ⟨gone,now,_,mine,past⟩
      · exact .inr ⟨sweep_gone gone,earlier,answer,List.mem_append_left _ swept,past⟩

theorem serial_gone {log : List (Call Q T V E × Except Raised (Answer V))} (serial : Serial (atomically base) s log s')
    (gone : Gone key s) (unput : ∀ done ∈ log, Unput key done) :
    Gone key s' := by
  refine serial.invariant gone (fun a call here absent => ?_) unput
  cases call with
  | batch r ops =>
    refine batch_gone (fun results ran put named => ?_) here
    have none_ : (putOps ops).get? key = none := absent (.results results) (by simp [atomically,ran,Except.map])
    simp [none_] at named
  | sweep now => exact sweep_gone here

-- What a batch reads is what it finds, before its own puts.
theorem reads_stored (picks : Picks base) {r : Readings Q E} {ops : List (Op Q T V)} {results : List (Result V)}
    (ran : batch base s r ops = (s',.ok results)) {read : Op Q T V × Result V} (member : read ∈ ops.zip results)
    {value : Option V} (reads : Reads key value read) : value = s.data.item? key := by
  obtain ⟨prepared,first,rest⟩ := andThen_ok ran
  obtain ⟨rfl,_⟩ := prepareOps_ok (Prod.ext rfl first)
  obtain ⟨found,second,rest⟩ := andThen_ok rest
  obtain ⟨queries,rfl,_⟩ := search_ok (Prod.ext rfl second)
  obtain ⟨⟨⟩,_,rest⟩ := andThen_ok rest
  obtain ⟨_,same⟩ := Prod.mk.inj rest
  obtain rfl := Except.ok.inj same
  rw [List.map_map,ItemExpiry.zip_mapped] at member
  obtain ⟨op,_,rfl⟩ := List.mem_map.mp member
  cases op with
  | get op =>
    obtain ⟨rfl,rfl⟩ := reads
    rfl
  | search op =>
    obtain ⟨found,among,rfl⟩ := reads
    obtain ⟨⟨item,vectors⟩,candidate,named⟩ := List.mem_map.mp (picks _ _ _ _ among)
    obtain ⟨stored,kept,same⟩ := List.mem_map.mp candidate
    obtain ⟨rfl,-⟩ := Prod.mk.inj same
    cases named
    exact (Rows.mem_items.mp (List.mem_filter.mp kept).1).symm
  | put op => cases reads
  | listNamespaces query => cases reads

end keeping
section latest
variable {base : Base Q T F V E} {a b c : Store F V E} {w r : Readings Q E} {ops reads : List (Op Q T V)} {key : ItemKey} {put : PutOp T V}

theorem batch_performed {answer : Answer V} (performed : atomically base a (.batch r ops) = (b,.ok answer)) :
    ∃ results, answer = .results results ∧ batch base a r ops = (b,.ok results) := by
  obtain ⟨rfl,same⟩ := Prod.mk.inj performed
  cases ran : (batch base a r ops).2 with
  | error raised => simp [ran,Except.map] at same
  | ok results =>
    rw [ran] at same
    exact ⟨results,(Except.ok.inj same).symm,Prod.ext rfl ran⟩

theorem put_stored {results : List (Result V)} (ran : batch base a w ops = (b,.ok results)) (names : (putOps ops).get? key = some put) :
    b.data.item? key = put.value := by
  obtain ⟨prepared,first,rest⟩ := andThen_ok ran
  obtain ⟨rfl,-⟩ := prepareOps_ok (Prod.ext rfl first)
  obtain ⟨found,_,rest⟩ := andThen_ok rest
  obtain ⟨⟨⟩,wrote,rest⟩ := andThen_ok rest
  obtain ⟨rfl,-⟩ := Prod.mk.inj rest
  obtain ⟨embedded,_,applied⟩ := write_ok (Prod.ext rfl wrote)
  have written := applyPutOps_written applied
  rw [written.data,names]

-- Between a put and a later read that nothing else puts the item.
theorem stored_since {results : List (Result V)} (ran : batch base a w ops = (b,.ok results)) (names : (putOps ops).get? key = some put)
    {log : List (Call Q T V E × Except Raised (Answer V))} (serial : Serial (atomically base) b log c)
    (unput : ∀ done ∈ log, Unput key done) (clock : ∀ done ∈ log, ∀ time ∈ done.1.readings, w.applied ≤ time) :
    c.data.item? key = put.value ∨ Gone key c ∧ ∃ ttl minutes length now answer, put.ttl = some ttl ∧ base.float ttl = .ok minutes ∧
      base.timedelta minutes = .ok length ∧ (.sweep now,answer) ∈ log ∧ w.applied + length ≤ now := by
  have stored := put_stored ran names
  cases valued : put.value with
  | none =>
    rw [valued] at stored
    exact .inl (serial_gone serial stored unput)
  | some value =>
    rw [valued] at stored
    obtain ⟨limit,tracks,limited⟩ := ItemExpiry.put_tracks ran names (by rw [valued]; rfl)
    have kept : Kept base key value limit w.applied b := by
      refine ⟨stored,?_⟩
      obtain ⟨_,ttl⟩ := tracks
      cases limit with
      | none => exact ttl
      | some length =>
        obtain ⟨minutes,found,known⟩ := ttl
        exact ⟨w.applied,minutes,found,known,le_refl _⟩
    obtain still | ⟨gone,now,answer,swept,length,long,past⟩ := serial_kept serial kept clock unput
    · exact .inl still.data
    · obtain ⟨ttl,minutes,given,number,known⟩ := (limited length).mp long
      exact .inr ⟨gone,ttl,minutes,length,now,answer,given,number,known,swept,past⟩

end latest

-- In any interleaving a read answers with the value of the latest put that
-- ended before it, and with nothing only when that put deleted the item or
-- gave it a ttl after which a sweep ran.
theorem reads_latest_put {base : Base Q T F V E} (picks : Picks base) {s : Store F V E}
    {taken : List (Pool Q T F V E × Event Q T V E)} {p : Pool Q T F V E} (runs : Runs base ⟨⟨s,false⟩,[]⟩ taken p)
    (undisturbed : ∀ step ∈ taken, Undisturbed step) {w r : Readings Q E} {ops reads : List (Op Q T V)} {wrote : Answer V}
    {found : List (Result V)} {before between after : List (Call Q T V E × Except Raised (Answer V))}
    (order : calls base taken = before ++ (.batch w ops,.ok wrote) :: (between ++ (.batch r reads,.ok (.results found)) :: after))
    {key : ItemKey} {put : PutOp T V} (names : (putOps ops).get? key = some put) (unput : ∀ done ∈ between, Unput key done)
    (clock : ∀ done ∈ between, ∀ time ∈ done.1.readings, w.applied ≤ time) {read : Op Q T V × Result V} (member : read ∈ reads.zip found)
    {value : Option V} (tells : Reads key value read) :
    value = put.value ∨ value = none ∧ ∃ ttl minutes length now answer, put.ttl = some ttl ∧ base.float ttl = .ok minutes ∧
      base.timedelta minutes = .ok length ∧ (.sweep now,answer) ∈ between ∧ w.applied + length ≤ now := by
  have begins : Relates base none (⟨⟨s,false⟩,[]⟩ : Pool Q T F V E) s := ⟨rfl,rfl,rfl⟩
  obtain ⟨last,serial,_⟩ := runs_serial simulates runs begins undisturbed
  have ordered : (observed (observe base) none taken).2 = _ := order
  rw [ordered] at serial
  obtain ⟨a,_,serial⟩ := serial.split
  obtain ⟨b,performed,serial⟩ := serial.first
  obtain ⟨c,middle,serial⟩ := serial.split
  obtain ⟨d,read_,_⟩ := serial.first
  obtain ⟨_,_,ran⟩ := batch_performed performed
  obtain ⟨_,same,answered⟩ := batch_performed read_
  cases same
  obtain rfl := reads_stored picks answered member tells
  obtain here | ⟨gone,swept⟩ := stored_since ran names middle unput clock
  · exact .inl here
  · exact .inr ⟨gone,swept⟩

-- A put with a ttl of one minute, a sweep a second too early, and a read.
section toy

def brief : List (Event String Int String Nat) :=
  [.call (.abatch [.put ⟨kept,some "a",some 1⟩]),.call .sweepTtl,.call (.abatch [.get ⟨kept,true⟩]),
    .resume 0 (at_ 0),.resume 0 (at_ 5),.resume 0 (at_ 59000005),.resume 0 (at_ 59000006)]

theorem reads_latest_put_toy : ∃ taken p, Runs embedding emptyPool taken p ∧ (calls embedding taken).map Prod.snd =
    [.ok (.results [.nothing]),.ok (.deleted 0),.ok (.results [.item (some "a")])] ∧
      ∀ value, Reads kept value ((.get ⟨kept,true⟩ : Op String Int String),.item (some "a")) → value = some "a" := by
  have runs : Runs embedding emptyPool _ _ := TaskPool.perform_runs .nil (rfl : TaskPool.perform (resume embedding) emptyPool brief = some _)
  have picks : Picks embedding := fun _ _ _ _ member => member
  refine ⟨_,_,runs,rfl,fun value tells => ?_⟩
  obtain latest | ⟨_,ttl,minutes,length,now,answer,given,number,known,swept,past⟩ := reads_latest_put picks runs (by
    refine List.forall_mem_cons.mpr ⟨rfl,List.forall_mem_cons.mpr ⟨rfl,List.forall_mem_cons.mpr ⟨rfl,List.forall_mem_cons.mpr
      ⟨?_,List.forall_mem_cons.mpr ⟨?_,List.forall_mem_cons.mpr ⟨?_,List.forall_mem_cons.mpr
        ⟨?_,fun _ none_ => absurd none_ List.not_mem_nil⟩⟩⟩⟩⟩⟩⟩
    all_goals
      intro task here ops same
      cases here
      cases same) (show _ = [] ++ _ :: ([(.sweep 59000005,.ok (.deleted 0))] ++ _ :: []) from rfl)
    (show _ = some (⟨kept,some "a",some 1⟩ : PutOp Int String) from rfl) (List.forall_mem_singleton.mpr fun _ _ => rfl)
    (List.forall_mem_singleton.mpr (List.forall_mem_singleton.mpr (by decide))) List.mem_cons_self tells
  · exact latest
  · cases given
    cases number
    cases known
    simp only [List.mem_singleton,Prod.mk.injEq,Call.sweep.injEq] at swept
    obtain ⟨rfl,_⟩ := swept
    exact absurd past (by decide)

end toy
end InmemRuntime.StoreReads
