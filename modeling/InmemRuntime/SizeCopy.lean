import InmemRuntime.SizeAccounting
import InmemRuntime.Outcomes

namespace InmemRuntime.SizeCopy
open OrderedDict CheckpointData CheckpointSaver SizeTracking SizeAccounting ThreadCopy

theorem forall₂_sum {α β : Type} {r : α → β → Prop} {f : α → Int × Int} {g : β → Int × Int} {rows : List α} {rows' : List β}
    (related : List.Forall₂ r rows rows') (same : ∀ a ∈ rows, ∀ b, r a b → g b = f a) :
    (rows'.map g).sum = (rows.map f).sum := by
  induction related with
  | nil => rfl
  | cons head _ ih =>
    rw [List.map_cons,List.map_cons,List.sum_cons,List.sum_cons,same _ (by simp) _ head,
      ih fun a member => same a (List.mem_cons_of_mem _ member)]

theorem forall₂_pairwise {α β : Type} {r : α → β → Prop} {p : α → α → Prop} {q : β → β → Prop} {rows : List α}
    {rows' : List β} (related : List.Forall₂ r rows rows') (distinct : rows.Pairwise p)
    (carries : ∀ a ∈ rows, ∀ a' ∈ rows, ∀ b b', r a b → r a' b' → p a a' → q b b') : rows'.Pairwise q := by
  induction related with
  | nil => exact .nil
  | @cons a b rest rest' head tail ih =>
    have parts := List.pairwise_cons.mp distinct
    refine List.pairwise_cons.mpr ⟨fun b' member => ?_,ih parts.2 fun a present a' present' =>
      carries a (List.mem_cons_of_mem _ present) a' (List.mem_cons_of_mem _ present')⟩
    obtain ⟨a',listed,here⟩ : ∃ a' ∈ rest, r a' b' := by
      clear ih parts distinct carries
      induction tail with
      | nil => cases member
      | cons first _ ih =>
        rcases List.mem_cons.mp member with rfl | later
        · exact ⟨_,by simp,first⟩
        · obtain ⟨x,present,found⟩ := ih later
          exact ⟨x,by simp [present],found⟩
    exact carries a (by simp) a' (by simp [listed]) b b' head here (parts.1 a' listed)

section copying
variable {sub : IdSubstitution} {s : Saver} {source target : String} {sel : String → Bool}

theorem replaceCheckpoints_weight {row row' : String × Checkpoints} (replaced : replaceCheckpoints sub row = some row')
    (apart : ∀ id ∈ row.2.keys, ∀ id' ∈ row.2.keys, sub.text id.str = sub.text id'.str → id.str = id'.str) :
    row'.1 = sub.text row.1 ∧ checkpointsWeight row'.2 = checkpointsWeight row.2 := by
  obtain ⟨rows,mapped,rfl⟩ := Option.map_eq_some_iff.mp replaced
  have related := Outcomes.mapM_some.mp mapped
  have distinct : rows.Pairwise fun a b => (a.1 == b.1) = false := by
    refine forall₂_pairwise related row.2.distinct fun a here a' here' b b' first second different => ?_
    obtain ⟨left,_⟩ := replaceEntry_parts first
    obtain ⟨right,_⟩ := replaceEntry_parts second
    obtain ⟨text,equal⟩ := replaceId_text left
    obtain ⟨text',equal'⟩ := replaceId_text right
    refine Bool.eq_false_iff.mpr fun clash => ?_
    have same := eq_of_beq clash
    rw [equal,equal',CheckpointId.text.injEq] at same
    have merged := apart a.1 (List.mem_map.mpr ⟨a,here,rfl⟩) a'.1 (List.mem_map.mpr ⟨a',here',rfl⟩) same
    rw [text,text',merged,BEq.rfl] at different
    cases different
  refine ⟨rfl,?_⟩
  unfold checkpointsWeight Dict.sum
  rw [Dict.entries_update distinct (by simp),Dict.entries_empty,List.nil_append]
  refine forall₂_sum related fun a _ b first => ?_
  simp only [entryWeight,(replaceEntry_parts first).2]

theorem replaceNamespaces_weight {copied : Dict String Checkpoints} (fresh : FreshTarget sub s source target)
    (replaced : replaceNamespaces sub (s.namespaces source).dict = some copied) :
    namespacesWeight copied = namespacesWeight (s.namespaces source).dict := by
  obtain ⟨rows,mapped,rfl⟩ := Option.map_eq_some_iff.mp replaced
  have related := Outcomes.mapM_some.mp mapped
  have distinct : rows.Pairwise fun a b => (a.1 == b.1) = false := by
    refine forall₂_pairwise related (s.namespaces source).dict.distinct fun a here a' here' b b' first second different => ?_
    have left := (replaceCheckpoints_weight first (fresh.ids a here)).1
    have right := (replaceCheckpoints_weight second (fresh.ids a' here')).1
    refine Bool.eq_false_iff.mpr fun clash => ?_
    have same := eq_of_beq clash
    rw [left,right] at same
    rw [fresh.namespaces a.1 (List.mem_map.mpr ⟨a,here,rfl⟩) a'.1 (List.mem_map.mpr ⟨a',here',rfl⟩) same,BEq.rfl] at different
    cases different
  unfold namespacesWeight Dict.sum
  rw [Dict.entries_update distinct (by simp),Dict.entries_empty,List.nil_append]
  exact forall₂_sum related fun a here b first => (replaceCheckpoints_weight first (fresh.ids a here)).2

theorem source_weight (storage : Dict String Namespaces) :
    storageWeight (· == source) storage = storage.weightAt (fun _ namespaces => namespacesWeight namespaces.dict) source := by
  rw [← Dict.sum_single]
  unfold storageWeight
  rw [← Dict.sum_filter_split _ fun stored _ => stored == source]
  have others : (storage.filter fun stored _ => !(stored == source)).sum
      (fun t n => selected (· == source) t (namespacesWeight n.dict)) = 0 := by
    refine Dict.sum_zero fun row member => ?_
    have apart : (row.1 == source) = false := by simpa using (List.mem_filter.mp member).2
    simp only [selected,apart,Bool.false_eq_true,↓reduceIte]
  rw [others,add_zero]
  refine Dict.sum_congr fun row member => ?_
  simp only [selected,(List.mem_filter.mp member).2,↓reduceIte]

variable (source) in
-- Rows of the source reappear at the end, under keys that were not there.
theorem retarget_entries {κ ν : Type} [BEq κ] (owner : κ → String) (retarget : κ → κ) (rewrite_ : ν → ν) (d : Dict κ ν)
    (apart : ∀ k k', owner k = source → owner k' = source → (k == k') = false → (retarget k == retarget k') = false)
    (fresh : ∀ row ∈ d.entries, ∀ k, (row.1 == retarget k) = false) :
    (d.update ((d.entries.filter fun row => owner row.1 == source).map fun row => (retarget row.1,rewrite_ row.2))).entries =
      d.entries ++ (d.entries.filter fun row => owner row.1 == source).map fun row => (retarget row.1,rewrite_ row.2) := by
  apply Dict.entries_update
  · rw [List.pairwise_map]
    refine List.Pairwise.imp_of_mem ?_ (d.distinct.sublist List.filter_sublist)
    intro row row' member member' different
    exact apart row.1 row'.1 (by simpa using (List.mem_filter.mp member).2) (by simpa using (List.mem_filter.mp member').2)
      different
  · intro row member e listed
    obtain ⟨old,_,rfl⟩ := List.mem_map.mp member
    exact fresh e listed old.1

theorem writeKey_apart (k k' : WriteKey) (mine : k.threadId = source) (mine' : k'.threadId = source)
    (different : (k == k') = false) :
    (({k with threadId := target} : WriteKey) == {k' with threadId := target}) = false := by
  refine Bool.eq_false_iff.mpr fun clash => ?_
  have same := eq_of_beq clash
  simp only [WriteKey.mk.injEq,true_and] at same
  have equal : k = k' := by cases k; cases k'; simp_all
  rw [equal,BEq.rfl] at different
  cases different

theorem writeKey_fresh {writes : Dict WriteKey WriteGroup} (unused : ∀ row ∈ writes.entries, row.1.threadId ≠ target) :
    ∀ row ∈ writes.entries, ∀ k : WriteKey, (row.1 == {k with threadId := target}) = false :=
  fun row member _ => Bool.eq_false_iff.mpr fun clash => unused row member (congrArg WriteKey.threadId (eq_of_beq clash))

variable (sel source) in
-- Rows of the source that reappear under the target weigh there what they
-- weigh at the source.
theorem retarget_weight {κ ν : Type} [BEq κ] (owner : κ → String) (weight : κ → ν → Int × Int) (retarget : κ → κ)
    (rewrite_ : ν → ν) (d : Dict κ ν) (owned : ∀ k, owner (retarget k) = target)
    (same : ∀ k v, weight (retarget k) (rewrite_ v) = weight k v)
    (apart : ∀ k k', owner k = source → owner k' = source → (k == k') = false → (retarget k == retarget k') = false)
    (fresh : ∀ row ∈ d.entries, ∀ k, (row.1 == retarget k) = false) :
    (d.update ((d.entries.filter fun row => owner row.1 == source).map fun row => (retarget row.1,rewrite_ row.2))).sum
        (fun k v => selected sel (owner k) (weight k v)) =
      d.sum (fun k v => selected sel (owner k) (weight k v)) +
        selected sel target (d.sum fun k v => selected (· == source) (owner k) (weight k v)) := by
  unfold Dict.sum
  rw [retarget_entries source owner retarget rewrite_ d apart fresh,List.map_append,List.sum_append,List.map_map]
  congr 1
  induction d.entries with
  | nil => simp
  | cons row rest ih =>
    by_cases mine : owner row.1 = source
    · rw [List.filter_cons_of_pos (by simp [mine]),List.map_cons,List.sum_cons,ih,List.map_cons,List.sum_cons,selected_add]
      simp only [Function.comp_apply,owned,same]
      simp [selected,mine]
    · rw [List.filter_cons_of_neg (by simp [mine]),ih,List.map_cons,List.sum_cons]
      simp [selected,mine]

theorem fresh_weightless (fresh : FreshTarget sub s source target) : contents s (· == target) = 0 := by
  have storage : storageWeight (· == target) s.storage = 0 := by
    rw [source_weight,Dict.weightAt,fresh.storage]
  have writes : writesWeight (· == target) s.writes = 0 :=
    Dict.sum_zero fun row member => by simp [selected,fresh.writes row member]
  have blobs : blobsWeight (· == target) s.blobs = 0 :=
    Dict.sum_zero fun row member => by simp [selected,fresh.blobs row member]
  unfold contents
  rw [storage,writes,blobs,add_zero,add_zero]

theorem copied_storage_weight {copied : Dict String Checkpoints} {auto : Bool} (fresh : FreshTarget sub s source target)
    (replaced : replaceNamespaces sub (s.namespaces source).dict = some copied) :
    storageWeight sel ((s.storage.insert source (s.namespaces source)).insert target ⟨copied,auto⟩) =
      storageWeight sel s.storage + selected sel target (storageWeight (· == source) s.storage) := by
  have read : s.storage.weightAt (fun t n => selected sel t (namespacesWeight n.dict)) source =
      selected sel source (namespacesWeight (s.namespaces source).dict) := by
    unfold Dict.weightAt Saver.namespaces
    cases s.storage.get? source with
    | none => exact selected_zero.symm
    | some namespaces => rfl
  have absent : (s.storage.insert source (s.namespaces source)).get? target = none := by
    rw [Dict.get?_insert_other (by simpa using fresh.other),fresh.storage]
  have weight : namespacesWeight (s.namespaces source).dict = storageWeight (· == source) s.storage := by
    rw [source_weight]
    unfold Dict.weightAt Saver.namespaces
    cases s.storage.get? source <;> rfl
  unfold storageWeight at weight ⊢
  rw [Dict.sum_insert,Dict.weightAt,absent,Dict.sum_insert,read]
  dsimp only
  rw [replaceNamespaces_weight fresh replaced,weight]
  abel

theorem copyThread_moves {after : Saver} (fresh : FreshTarget sub s source target)
    (copied : copyThread sub s source target = some after) :
    after.sizeState = s.sizeState.copyThread source target ∧ ∀ sel, contents after sel =
      shifted (contents s) target (contents s (· == source) - contents s (· == target)) sel := by
  unfold copyThread at copied
  dsimp only at copied
  split at copied
  · cases copied
  · rename_i namespaces replaced
    cases Option.some.inj copied
    refine ⟨rfl,fun sel => ?_⟩
    have writes := retarget_weight source sel WriteKey.threadId groupWeight
      (fun key => {key with threadId := target}) (replaceGroup sub) s.writes (fun _ => rfl)
      (fun key group => by simp [groupWeight,replaceGroup_size])
      writeKey_apart (writeKey_fresh fresh.writes)
    have blobs := retarget_weight source sel BlobKey.threadId blobWeight
      (fun key => {key with threadId := target}) id s.blobs (fun _ => rfl) (fun _ _ => rfl)
      (fun k k' mine mine' different => by
        refine Bool.eq_false_iff.mpr fun clash => ?_
        have same := blobKey_beq.mpr ⟨mine.trans mine'.symm,(blobKey_beq.mp clash).2⟩
        rw [different] at same
        cases same)
      (fun row member k => Bool.eq_false_iff.mpr fun clash => fresh.blobs row member (blobKey_beq.mp clash).1)
    change _ = contents s sel + selected sel target _
    rw [fresh_weightless fresh,sub_zero]
    unfold contents
    rw [selected_add,selected_add]
    refine (congrArg₂ _ (congrArg₂ _ (copied_storage_weight fresh replaced) writes) blobs).trans ?_
    unfold writesWeight blobsWeight
    abel

end copying

end InmemRuntime.SizeCopy
