import InmemRuntime.DeleteForRuns
import InmemRuntime.ThreadCopy
import Mathlib.Algebra.Order.Monoid.Prod

namespace InmemRuntime.SizeAccounting
open OrderedDict CheckpointData CheckpointSaver SizeTracking

-- The weight of one stored row, `(bytes, checkpoints)`, and the weight of all
-- rows whose thread is selected.
def entryWeight (id : CheckpointId) (entry : Entry) : Int × Int := (checkpointEntrySize id entry,1)

def checkpointsWeight (checkpoints : Checkpoints) : Int × Int := checkpoints.sum entryWeight

def namespacesWeight (namespaces : Dict String Checkpoints) : Int × Int :=
  namespaces.sum fun _ checkpoints => checkpointsWeight checkpoints

def groupWeight (key : WriteKey) (group : WriteGroup) : Int × Int := (writeGroupSize key.checkpointId group,0)

def blobWeight (key : BlobKey) (value : Typed) : Int × Int := (blobEntrySize key.channel key.version value,0)

def selected (sel : String → Bool) (threadId : String) (weight : Int × Int) : Int × Int :=
  if sel threadId then weight else 0

def storageWeight (sel : String → Bool) (storage : Dict String Namespaces) : Int × Int :=
  storage.sum fun threadId namespaces => selected sel threadId (namespacesWeight namespaces.dict)

def writesWeight (sel : String → Bool) (writes : Dict WriteKey WriteGroup) : Int × Int :=
  writes.sum fun key group => selected sel key.threadId (groupWeight key group)

def blobsWeight (sel : String → Bool) (blobs : Dict BlobKey Typed) : Int × Int :=
  blobs.sum fun key value => selected sel key.threadId (blobWeight key value)

-- What the three stores weigh: the measure that the tracker has to follow.
def contents (s : Saver) : Measure := fun sel =>
  storageWeight sel s.storage + writesWeight sel s.writes + blobsWeight sel s.blobs

section weights
variable {sel : String → Bool} {threadId : String}

theorem selected_add (x y : Int × Int) :
    selected sel threadId (x + y) = selected sel threadId x + selected sel threadId y := by
  unfold selected; split <;> simp

theorem selected_sub (x y : Int × Int) :
    selected sel threadId (x - y) = selected sel threadId x - selected sel threadId y := by
  unfold selected; split <;> simp

@[simp] theorem selected_zero : selected sel threadId 0 = 0 := by
  unfold selected; split <;> rfl

theorem selected_nonneg {weight : Int × Int} (nonneg : 0 ≤ weight) : 0 ≤ selected sel threadId weight := by
  unfold selected; split
  · exact nonneg
  · exact le_refl 0

theorem sum_nonneg {κ ν : Type} [BEq κ] {f : κ → ν → Int × Int} {d : Dict κ ν} (nonneg : ∀ k v, 0 ≤ f k v) :
    0 ≤ d.sum f := by
  refine List.sum_nonneg fun weight member => ?_
  obtain ⟨row,_,rfl⟩ := List.mem_map.mp member
  exact nonneg row.1 row.2

theorem groupWeight_nonneg (key : WriteKey) (group : WriteGroup) : 0 ≤ groupWeight key group :=
  ⟨group_nonneg _ _,le_refl 0⟩

theorem blobWeight_nonneg (key : BlobKey) (value : Typed) : 0 ≤ blobWeight key value := ⟨blob_nonneg _ _ _,le_refl 0⟩

theorem namespacesWeight_nonneg (namespaces : Dict String Checkpoints) : 0 ≤ namespacesWeight namespaces :=
  sum_nonneg fun _ _ => sum_nonneg fun _ _ => ⟨entry_nonneg _ _,Int.one_nonneg⟩

theorem contents_nonneg (s : Saver) (sel : String → Bool) : 0 ≤ contents s sel :=
  add_nonneg (add_nonneg (sum_nonneg fun _ _ => selected_nonneg (namespacesWeight_nonneg _))
    (sum_nonneg fun _ _ => selected_nonneg (groupWeight_nonneg _ _)))
    (sum_nonneg fun _ _ => selected_nonneg (blobWeight_nonneg _ _))

end weights

-- The selection splits off the rows of one thread.
theorem sum_thread {κ ν : Type} [BEq κ] (owner : κ → String) (weight : κ → ν → Int × Int) (sel : String → Bool)
    (threadId : String) (d : Dict κ ν) :
    (d.filter fun k _ => owner k != threadId).sum (fun k v => selected sel (owner k) (weight k v)) =
      d.sum (fun k v => selected sel (owner k) (weight k v)) -
        selected sel threadId (d.sum fun k v => selected (· == threadId) (owner k) (weight k v)) := by
  simp only [Dict.sum,Dict.entries_filter]
  induction d.entries with
  | nil => simp
  | cons row rest ih =>
    by_cases equal : owner row.1 = threadId
    · subst equal
      simp only [bne_self_eq_false,Bool.false_eq_true,not_false_eq_true,List.filter_cons_of_neg,ih,List.map_cons,
        List.sum_cons,selected_add]
      simp only [selected,beq_self_eq_true,↓reduceIte]
      abel
    · have other : (owner row.1 != threadId) = true := by simp [equal]
      rw [List.filter_cons_of_pos (by exact other)]
      simp only [List.map_cons,List.sum_cons,ih,selected_add]
      simp [selected,equal]
      abel

-- A tracker that follows the contents keeps following them when one adjustment
-- says how they moved; neither of its clamps has anything to do then.
theorem adjust_follows {s s' : Saver} (tracks : Tracks s.sizeState (contents s)) {threadId : String} {delta : Int × Int}
    (moved : ∀ sel, contents s' sel = shifted (contents s) threadId delta sel) :
    Tracks (s.sizeState.adjust (max 0) threadId delta.1 delta.2) (contents s') ∧
      s.sizeState.adjust (max 0) threadId delta.1 delta.2 = s.sizeState.adjust id threadId delta.1 delta.2 := by
  have nonneg : 0 ≤ contents s (· == threadId) + delta := by
    have after := contents_nonneg s' (· == threadId)
    rw [moved] at after
    simpa [shifted] using after
  have exact_ : ∀ x : Int, 0 ≤ x → max 0 x = x := fun x bound => max_eq_right bound
  refine ⟨(adjust_tracks exact_ tracks nonneg).congr fun sel => (moved sel).symm,?_⟩
  rw [adjust_unclamped exact_ tracks nonneg,adjust_unclamped (fun _ _ => rfl : ∀ x : Int, 0 ≤ x → id x = x) tracks nonneg]

section rebuilding
variable {sel : String → Bool}

theorem adjustAll_follows {calls : List (String × Int × Int)} (gains : ∀ call ∈ calls, 0 ≤ call.2) {size : SizeState}
    {m : Measure} (tracks : Tracks size m) (nonneg : ∀ sel, 0 ≤ m sel) :
    Tracks (calls.foldl (fun size call => size.adjust (max 0) call.1 call.2.1 call.2.2) size)
        (fun sel => m sel + (calls.map fun call => selected sel call.1 call.2).sum) ∧
      calls.foldl (fun size call => size.adjust (max 0) call.1 call.2.1 call.2.2) size =
        calls.foldl (fun size call => size.adjust id call.1 call.2.1 call.2.2) size := by
  induction calls generalizing size m with
  | nil => exact ⟨tracks.congr fun sel => by simp,rfl⟩
  | cons call rest ih =>
    have gain : 0 ≤ call.2 := gains call (by simp)
    have here : 0 ≤ m (· == call.1) + call.2 := add_nonneg (nonneg _) gain
    have exact_ : ∀ x : Int, 0 ≤ x → max 0 x = x := fun x bound => max_eq_right bound
    have same := adjust_unclamped exact_ tracks here
    have plain := adjust_unclamped (fun _ _ => rfl : ∀ x : Int, 0 ≤ x → id x = x) tracks here
    obtain ⟨follows,agrees⟩ := ih (fun later member => gains later (by simp [member])) (adjust_tracks exact_ tracks here)
      (fun sel => add_nonneg (nonneg sel) (selected_nonneg gain))
    refine ⟨follows.congr fun sel => ?_,?_⟩
    · simp only [List.map_cons,List.sum_cons,shifted,selected]
      abel
    · rw [List.foldl_cons,List.foldl_cons,agrees,same,plain]

theorem sum_flatMap {α β : Type} (rows : List α) (f : α → List β) (g : β → Int × Int) :
    ((rows.flatMap f).map g).sum = (rows.map fun row => ((f row).map g).sum).sum := by
  induction rows with
  | nil => rfl
  | cons row rest ih => simp [ih]

theorem selected_sum {κ ν : Type} [BEq κ] (threadId : String) (f : κ → ν → Int × Int) (d : Dict κ ν) :
    d.sum (fun k v => selected sel threadId (f k v)) = selected sel threadId (d.sum f) := by
  simp only [Dict.sum]
  induction d.entries with
  | nil => simp
  | cons row rest ih => simp [ih,selected_add]

theorem rebuildCalls_weight (s : Saver) :
    ((rebuildCalls s).map fun call => selected sel call.1 call.2).sum = contents s sel := by
  simp only [rebuildCalls,List.map_append,List.sum_append,List.map_map,sum_flatMap,Function.comp_def]
  refine congrArg₂ _ (congrArg₂ _ ?_ rfl) rfl
  refine congrArg List.sum (List.map_congr_left fun thread _ => ?_)
  change _ = selected sel thread.1 (namespacesWeight thread.2.dict)
  rw [namespacesWeight,← selected_sum]
  refine congrArg List.sum (List.map_congr_left fun ns _ => ?_)
  change _ = selected sel thread.1 (checkpointsWeight ns.2)
  rw [checkpointsWeight,← selected_sum]
  rfl

theorem rebuild_follows (s : Saver) : Tracks (rebuildSizeTracking (max 0) s).sizeState (contents s) ∧
    rebuildSizeTracking (max 0) s = rebuildSizeTracking id s := by
  have gains : ∀ call ∈ rebuildCalls s, 0 ≤ call.2 := by
    intro call member
    simp only [rebuildCalls,List.mem_append,List.mem_flatMap,List.mem_map] at member
    rcases member with (⟨thread,_,ns,_,row,_,rfl⟩ | ⟨row,_,rfl⟩) | ⟨row,_,rfl⟩
    · exact ⟨entry_nonneg _ _,Int.one_nonneg⟩
    · exact groupWeight_nonneg row.1 row.2
    · exact blobWeight_nonneg row.1 row.2
  obtain ⟨follows,agrees⟩ := adjustAll_follows gains clear_tracks (fun _ => le_refl 0)
  refine ⟨follows.congr fun sel => ?_,?_⟩
  · rw [rebuildCalls_weight,zero_add]
  · simp only [rebuildSizeTracking,agrees]

end rebuilding

section storing
variable {sel : String → Bool} {s : Saver} {threadId ns : String}

theorem bucket_checkpointsAt {checkpoints : Checkpoints} (found : s.bucket threadId ns = some checkpoints) :
    checkpoints = s.checkpointsAt threadId ns := by
  unfold Saver.bucket Saver.namespaces at found
  unfold Saver.checkpointsAt
  cases thread : s.storage.get? threadId with
  | none =>
    simp only [thread,Option.getD_none,Dict.get?_empty,↓reduceIte,Option.some.injEq] at found
    simp [found]
  | some namespaces =>
    simp only [thread,Option.getD_some,Option.bind_some] at found ⊢
    split at found
    · rename_i stored hit
      rw [hit,← Option.some.inj found]; rfl
    · rename_i absent
      split at found
      · rw [absent,← Option.some.inj found]; rfl
      · cases found

theorem setBucket_weight (checkpoints : Checkpoints) : storageWeight sel (s.setBucket threadId ns checkpoints).storage =
    storageWeight sel s.storage +
      selected sel threadId (checkpointsWeight checkpoints - checkpointsWeight (s.checkpointsAt threadId ns)) := by
  have inner : (s.namespaces threadId).dict.weightAt (fun _ rows => checkpointsWeight rows) ns =
      checkpointsWeight (s.checkpointsAt threadId ns) := by
    unfold Dict.weightAt Saver.namespaces Saver.checkpointsAt
    cases s.storage.get? threadId with
    | none => rfl
    | some namespaces =>
      simp only [Option.getD_some,Option.bind_some]
      cases namespaces.dict.get? ns <;> rfl
  have outer : s.storage.weightAt (fun t n => selected sel t (namespacesWeight n.dict)) threadId =
      selected sel threadId (namespacesWeight (s.namespaces threadId).dict) := by
    unfold Dict.weightAt Saver.namespaces
    cases s.storage.get? threadId with
    | none => exact selected_zero.symm
    | some namespaces => rfl
  unfold storageWeight Saver.setBucket
  rw [Dict.sum_insert,outer,namespacesWeight,Dict.sum_insert,inner,← selected_sub]
  congr 2
  unfold namespacesWeight
  abel

theorem group_weight (key : WriteKey) : (s.writes.weightAt (fun key group => selected sel key.threadId (groupWeight key group)) key) =
    selected sel key.threadId (s.groupSize key,0) := by
  unfold Dict.weightAt Saver.groupSize
  cases s.writes.get? key with
  | none => exact selected_zero.symm
  | some group => rfl

end storing

end InmemRuntime.SizeAccounting
