import Mathlib.Data.List.Basic

namespace AncestorChain
universe u v

variable {κ : Type u} {χ : Type v}

-- The prefix up to and including the first node that satisfies `stop`.
def through (stop : κ → Bool) : List κ → List κ
  | [] => []
  | k :: rest => if stop k then [k] else k :: through stop rest

-- The shortest prefix on which every wanted item is held somewhere.
def cover (holds : χ → κ → Bool) : List χ → List κ → List κ
  | _,[] => []
  | wanted,k :: rest =>
    if wanted.isEmpty then [] else k :: cover holds (wanted.filter fun c => !holds c k) rest

theorem cover_sublist (holds : χ → κ → Bool) (wanted : List χ) (line : List κ) :
    (cover holds wanted line).Sublist line := by
  induction line generalizing wanted with
  | nil => exact .slnil
  | cons k rest ih =>
    unfold cover
    split
    · exact List.nil_sublist _
    · exact (ih _).cons_cons k

theorem through_mem_cover {holds : χ → κ → Bool} {wanted : List χ} {line : List κ} {c : χ} {k : κ}
    (want : c ∈ wanted) (member : k ∈ through (holds c) line) : k ∈ cover holds wanted line := by
  induction line generalizing wanted with
  | nil => cases member
  | cons head rest ih =>
    have some : wanted.isEmpty = false := by cases wanted <;> simp_all
    unfold cover
    simp only [some,Bool.false_eq_true,↓reduceIte,List.mem_cons]
    unfold through at member
    split at member
    · exact .inl (List.mem_singleton.mp member)
    · rename_i missed
      rcases List.mem_cons.mp member with equal | later
      · exact .inl equal
      · exact .inr (ih (List.mem_filter.mpr ⟨want,by simpa using missed⟩) later)

-- An item is covered up to and including the first node that holds it, so a
-- node is in the cover as long as some wanted item is held by none before it.
theorem mem_cover {holds : χ → κ → Bool} {wanted : List χ} {line : List κ} {k : κ} :
    k ∈ cover holds wanted line ↔ ∃ before after, line = before ++ k :: after ∧
      ∃ c ∈ wanted, ∀ node ∈ before, holds c node = false := by
  induction line generalizing wanted with
  | nil =>
    constructor
    · intro member
      cases member
    · rintro ⟨before,after,split,_⟩
      cases before <;> cases split
  | cons head rest ih =>
    unfold cover
    constructor
    · intro member
      cases none : wanted.isEmpty with
      | true => simp [none] at member
      | false =>
        simp only [none,Bool.false_eq_true,↓reduceIte,List.mem_cons] at member
        rcases member with rfl | later
        · obtain ⟨c,want⟩ := List.exists_mem_of_ne_nil wanted (by rintro rfl; cases none)
          exact ⟨[],rest,rfl,c,want,fun _ listed => by cases listed⟩
        · obtain ⟨before,after,rfl,c,want,missed⟩ := ih.mp later
          have parts := List.mem_filter.mp want
          refine ⟨head :: before,after,rfl,c,parts.1,fun node listed => ?_⟩
          rcases List.mem_cons.mp listed with rfl | inner
          · simpa using parts.2
          · exact missed node inner
    · rintro ⟨before,after,split,c,want,missed⟩
      have some : wanted.isEmpty = false := by cases wanted <;> simp_all
      simp only [some,Bool.false_eq_true,↓reduceIte,List.mem_cons]
      cases before with
      | nil => injection split with same; exact .inl same.symm
      | cons first before =>
        injection split with same tail
        subst same
        refine .inr (ih.mpr ⟨before,after,tail,c,List.mem_filter.mpr ⟨want,?_⟩,
          fun node listed => missed node (List.mem_cons_of_mem _ listed)⟩)
        simpa using missed head (by simp)

-- The shortest beginning of a line on which every wanted item is held
-- somewhere, and the whole line where there is none.
structure ShortestCover (holds : χ → κ → Bool) (wanted : List χ) (line part : List κ) : Prop where
  begins : part <+: line
  reaches : (∀ c ∈ wanted, ∃ k ∈ part, holds c k = true) ∨ part = line
  least : ∀ other, other <+: line → (∀ c ∈ wanted, ∃ k ∈ other, holds c k = true) → part <+: other

theorem cover_shortest (holds : χ → κ → Bool) (wanted : List χ) (line : List κ) :
    ShortestCover holds wanted line (cover holds wanted line) := by
  induction line generalizing wanted with
  | nil => exact ⟨List.prefix_rfl,.inr rfl,fun other _ _ => List.nil_prefix⟩
  | cons k rest ih =>
    unfold cover
    split
    · rename_i none
      rw [List.isEmpty_iff.mp none]
      exact ⟨List.nil_prefix,.inl (by simp),fun other _ _ => List.nil_prefix⟩
    · rename_i some
      have later := ih (wanted.filter fun c => !holds c k)
      refine ⟨List.cons_prefix_cons.mpr ⟨rfl,later.begins⟩,?_,fun other begins covers => ?_⟩
      · refine later.reaches.imp (fun covered c want => ?_) fun whole => by rw [whole]
        by_cases here : holds c k = true
        · exact ⟨k,List.mem_cons_self,here⟩
        · obtain ⟨node,listed,held⟩ := covered c (List.mem_filter.mpr ⟨want,by simpa using here⟩)
          exact ⟨node,List.mem_cons_of_mem _ listed,held⟩
      · cases other with
        | nil =>
          obtain ⟨c,want⟩ := List.exists_mem_of_ne_nil wanted (by simpa using some)
          obtain ⟨node,listed,_⟩ := covers c want
          cases listed
        | cons head tail =>
          obtain ⟨rfl,after⟩ := List.cons_prefix_cons.mp begins
          refine List.cons_prefix_cons.mpr ⟨rfl,later.least tail after fun c open_ => ?_⟩
          obtain ⟨want,missed⟩ := List.mem_filter.mp open_
          obtain ⟨node,listed,held⟩ := covers c want
          rcases List.mem_cons.mp listed with rfl | deeper
          · simp [held] at missed
          · exact ⟨node,deeper,held⟩

theorem shortest_unique {holds : χ → κ → Bool} {wanted : List χ} {line part other : List κ}
    (left : ShortestCover holds wanted line part) (right : ShortestCover holds wanted line other) : part = other := by
  have shorter : ∀ {part other : List κ}, ShortestCover holds wanted line part → ShortestCover holds wanted line other →
      part <+: other := fun one two => by
    rcases two.reaches with covers | whole
    · exact one.least _ two.begins covers
    · exact whole ▸ one.begins
  exact (shorter left right).eq_of_length (Nat.le_antisymm (shorter left right).length_le (shorter right left).length_le)

section walking
variable [DecidableEq κ] {next next' : κ → Option (Option κ)}

-- `next k` is `none` for a missing node, otherwise the node's own link.
-- The walk ends at a root, at a missing node and at the first repetition.
def ancestors (next : κ → Option (Option κ)) : Nat → List κ → Option κ → List κ
  | 0,_,_ => []
  | _+1,_,none => []
  | fuel+1,visited,some k =>
    if k ∈ visited then [] else
    match next k with
    | none => []
    | some link => k :: ancestors next fuel (k :: visited) link

theorem ancestors_present {fuel : Nat} {visited : List κ} {start : Option κ} {k : κ}
    (member : k ∈ ancestors next fuel visited start) : ∃ link, next k = some link := by
  induction fuel generalizing visited start with
  | zero => cases member
  | succ fuel ih =>
    cases start with
    | none => cases member
    | some first =>
      simp only [ancestors] at member
      split at member
      · cases member
      · cases found : next first with
        | none => simp [found] at member
        | some link =>
          simp only [found,List.mem_cons] at member
          rcases member with rfl | later
          · exact ⟨link,found⟩
          · exact ih later

theorem unvisited_shrinks {nodes visited : List κ} {k : κ} (listed : k ∈ nodes) (fresh : k ∉ visited) :
    (nodes.filter fun x => decide (x ∉ k :: visited)).length <
      (nodes.filter fun x => decide (x ∉ visited)).length := by
  induction nodes with
  | nil => cases listed
  | cons head rest ih =>
    have weaker : (rest.filter fun x => decide (x ∉ k :: visited)).length ≤
        (rest.filter fun x => decide (x ∉ visited)).length := by
      apply List.Sublist.length_le
      apply List.monotone_filter_right
      intro x kept
      simp only [decide_eq_true_eq,List.mem_cons,not_or] at kept ⊢
      exact kept.2
    by_cases equal : head = k
    · subst equal
      simp only [List.filter_cons,List.mem_cons,true_or,not_true_eq_false,decide_false,fresh,
        not_false_eq_true,decide_true,Bool.false_eq_true,↓reduceIte,List.length_cons]
      simp only [List.mem_cons] at weaker
      omega
    · have later : k ∈ rest := (List.mem_cons.mp listed).resolve_left (Ne.symm equal)
      have smaller := ih later
      by_cases seen : head ∈ visited <;> simp [equal,seen] at smaller ⊢ <;> omega

-- Two budgets that both exceed the number of unvisited nodes see the same walk.
theorem ancestors_budget {nodes visited : List κ} {start : Option κ} {m n : Nat}
    (listed : ∀ k link, next k = some link → k ∈ nodes)
    (left : (nodes.filter fun x => decide (x ∉ visited)).length < m)
    (right : (nodes.filter fun x => decide (x ∉ visited)).length < n) :
    ancestors next m visited start = ancestors next n visited start := by
  induction m generalizing n visited start with
  | zero => omega
  | succ m ih =>
    cases n with
    | zero => omega
    | succ n =>
      cases start with
      | none => rfl
      | some k =>
        simp only [ancestors]
        split
        · rfl
        · rename_i fresh
          cases found : next k with
          | none => rfl
          | some link =>
            have smaller := unvisited_shrinks (listed k link found) fresh
            simp only [List.cons.injEq,true_and]
            exact ih (by omega) (by omega)

-- Dropping nodes outside a first-hit prefix leaves that prefix as it was.
theorem through_restricted {stop stop' : κ → Bool} {fuel : Nat} {visited : List κ} {start : Option κ}
    (dropped : ∀ k, next k = none → next' k = none)
    (kept : ∀ k ∈ through stop (ancestors next fuel visited start), next' k = next k ∧ stop' k = stop k) :
    through stop' (ancestors next' fuel visited start) = through stop (ancestors next fuel visited start) := by
  induction fuel generalizing visited start with
  | zero => rfl
  | succ fuel ih =>
    cases start with
    | none => rfl
    | some k =>
      simp only [ancestors] at kept ⊢
      split
      · rfl
      · rename_i fresh
        simp only [fresh,↓reduceIte] at kept
        cases found : next k with
        | none => simp only [dropped k found]; rfl
        | some link =>
          simp only [found] at kept
          have here : next' k = next k ∧ stop' k = stop k := by
            apply kept
            unfold through
            split <;> simp
          simp only [here.1,found]
          unfold through at kept ⊢
          rw [here.2]
          cases hit : stop k with
          | true => rfl
          | false =>
            simp only [hit,Bool.false_eq_true,↓reduceIte,List.mem_cons,List.cons.injEq,true_and] at kept ⊢
            exact ih (fun x member => kept x (.inr member))

-- The same holds of the prefix that covers a list of wanted items.
theorem cover_restricted {holds holds' : χ → κ → Bool} {wanted : List χ} {fuel : Nat} {visited : List κ} {start : Option κ}
    (dropped : ∀ k, next k = none → next' k = none)
    (kept : ∀ k ∈ cover holds wanted (ancestors next fuel visited start), next' k = next k ∧ ∀ c, holds' c k = holds c k) :
    cover holds' wanted (ancestors next' fuel visited start) = cover holds wanted (ancestors next fuel visited start) := by
  induction fuel generalizing visited start wanted with
  | zero => rfl
  | succ fuel ih =>
    cases start with
    | none => rfl
    | some k =>
      simp only [ancestors] at kept ⊢
      split
      · rfl
      · rename_i fresh
        simp only [fresh,↓reduceIte] at kept
        cases found : next k with
        | none => simp only [dropped k found]; rfl
        | some link =>
          simp only [found,cover] at kept ⊢
          cases settled : wanted.isEmpty with
          | true =>
            cases next' k with
            | none => rfl
            | some other => simp only [cover,settled,↓reduceIte]
          | false =>
            simp only [settled,Bool.false_eq_true,↓reduceIte] at kept ⊢
            obtain ⟨same,holding⟩ := kept k (by simp)
            simp only [same,found,cover,settled,Bool.false_eq_true,↓reduceIte,holding,List.cons.injEq,true_and]
            exact ih fun x member => kept x (List.mem_cons_of_mem _ member)

-- Where more is wanted and less is held, the walk goes on after the same
-- beginning.
theorem cover_grows {holds holds' : χ → κ → Bool} {wanted wanted' : List χ} {fuel : Nat} {visited : List κ} {start : Option κ}
    (more : wanted ⊆ wanted') (kept : ∀ k ∈ cover holds wanted (ancestors next fuel visited start),
      next' k = next k ∧ ∀ c, holds' c k = true → holds c k = true) :
    cover holds wanted (ancestors next fuel visited start) <+: cover holds' wanted' (ancestors next' fuel visited start) := by
  induction fuel generalizing visited start wanted wanted' with
  | zero => exact List.nil_prefix
  | succ fuel ih =>
    cases start with
    | none => exact List.nil_prefix
    | some k =>
      simp only [ancestors] at kept ⊢
      split
      · exact List.nil_prefix
      · rename_i fresh
        simp only [fresh,↓reduceIte] at kept
        cases found : next k with
        | none => exact List.nil_prefix
        | some link =>
          simp only [found,cover] at kept ⊢
          cases settled : wanted.isEmpty with
          | true => exact List.nil_prefix
          | false =>
            simp only [settled,Bool.false_eq_true,↓reduceIte] at kept ⊢
            obtain ⟨c,want⟩ := List.exists_mem_of_ne_nil wanted (by simpa using settled)
            have open_ : wanted'.isEmpty = false := List.isEmpty_eq_false_iff_exists_mem.mpr ⟨c,more want⟩
            obtain ⟨same,weaker⟩ := kept k (by simp)
            simp only [same,found,cover,open_,Bool.false_eq_true,↓reduceIte]
            refine List.cons_prefix_cons.mpr ⟨rfl,ih (fun c want => ?_) fun x member => kept x (List.mem_cons_of_mem _ member)⟩
            obtain ⟨stays,missed⟩ := List.mem_filter.mp want
            refine List.mem_filter.mpr ⟨more stays,?_⟩
            cases held : holds' c k with
            | false => rfl
            | true => simp [weaker c held] at missed

-- A walk over other names for the same nodes, which takes some nodes for
-- missing, is the walk up to the first of these.
theorem ancestors_translate {κ' : Type v} [DecidableEq κ'] {name : κ' → κ} (injective : name.Injective) {hidden : κ → Bool}
    {other : κ' → Option (Option κ')} (ends : ∀ k, hidden (name k) = true → other k = none)
    (same : ∀ k, hidden (name k) = false → next (name k) = (other k).map (Option.map name))
    (fuel : Nat) (visited : List κ') (start : Option κ') :
    (ancestors other fuel visited start).map name =
      (ancestors next fuel (visited.map name) (start.map name)).takeWhile fun k => !hidden k := by
  induction fuel generalizing visited start with
  | zero => rfl
  | succ fuel ih =>
    cases start with
    | none => rfl
    | some k =>
      simp only [ancestors,Option.map_some,List.mem_map_of_injective injective]
      by_cases seen : k ∈ visited
      · simp [seen]
      · simp only [seen,↓reduceIte]
        cases known : hidden (name k) with
        | true =>
          rw [ends k known]
          cases next (name k) with
          | none => rfl
          | some link => simp [known]
        | false =>
          rw [same k known]
          cases other k with
          | none => rfl
          | some link =>
            have step := ih (k :: visited) link
            rw [List.map_cons] at step
            simp only [Option.map_some,List.map_cons,step,List.takeWhile_cons,known,Bool.not_false,↓reduceIte]

end walking
end AncestorChain
