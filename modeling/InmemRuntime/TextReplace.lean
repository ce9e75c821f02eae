import Mathlib.Data.List.Infix
import Mathlib.Algebra.BigOperators.Group.List.Basic

namespace TextReplace
universe u
variable {α : Type u} [DecidableEq α]

-- From left to right, an occurrence of `old`, which is not empty, gives way to
-- `new`; `skip` counts the places of the last occurrence that are still ahead.
def replaceFrom (old new : List α) : Nat → List α → List α
  | _,[] => []
  | skip + 1,_ :: rest => replaceFrom old new skip rest
  | 0,a :: rest =>
    if old.isPrefixOf (a :: rest) then new ++ replaceFrom old new (old.length - 1) rest
    else a :: replaceFrom old new 0 rest

def replaceAll (old new text : List α) : List α := replaceFrom old new 0 text

section scanning
variable {old new text : List α}

@[simp] theorem replaceAll_nil : replaceAll old new [] = [] := rfl

theorem replaceFrom_skip (skip : Nat) : replaceFrom old new skip text = replaceAll old new (text.drop skip) := by
  induction text generalizing skip with
  | nil => cases skip <;> rfl
  | cons a rest ih =>
    cases skip with
    | zero => rfl
    | succ skip => simpa [replaceFrom] using ih skip

theorem replaceAll_hit (some_ : old ≠ []) (rest : List α) :
    replaceAll old new (old ++ rest) = new ++ replaceAll old new rest := by
  cases old with
  | nil => exact absurd rfl some_
  | cons a old =>
    have here : (a :: old).isPrefixOf (a :: (old ++ rest)) = true := List.isPrefixOf_iff_prefix.mpr ⟨rest,rfl⟩
    simp only [List.cons_append,replaceAll,replaceFrom,here,if_true,List.length_cons,Nat.add_sub_cancel]
    rw [replaceFrom_skip,List.drop_left]
    rfl

theorem replaceAll_miss {a : α} {rest : List α} (miss : ¬old <+: a :: rest) :
    replaceAll old new (a :: rest) = a :: replaceAll old new rest := by
  rw [← List.isPrefixOf_iff_prefix] at miss
  simp only [replaceAll,replaceFrom,if_neg miss]

-- The steps of the scan.
theorem replace_induction {motive : List α → Prop} (some_ : old ≠ []) (nil : motive [])
    (hit : ∀ rest, motive rest → motive (old ++ rest))
    (miss : ∀ a rest, ¬old <+: a :: rest → motive rest → motive (a :: rest)) (text : List α) : motive text := by
  induction length : text.length using Nat.strongRecOn generalizing text with
  | ind n ih =>
    by_cases here : old <+: text
    · obtain ⟨rest,rfl⟩ := here
      have shorter : rest.length < n := by
        have := List.length_pos_iff.mpr some_
        rw [List.length_append] at length
        omega
      exact hit rest (ih _ shorter rest rfl)
    · cases text with
      | nil => exact nil
      | cons a rest =>
        refine miss a rest here (ih rest.length ?_ rest rfl)
        rw [List.length_cons] at length
        omega

theorem replaceAll_same (some_ : old ≠ []) : replaceAll old old text = text := by
  induction text using replace_induction some_ with
  | nil => rfl
  | hit rest ih => rw [replaceAll_hit some_,ih]
  | miss a rest here ih => rw [replaceAll_miss here,ih]

theorem replaceAll_absent (absent : ¬old <:+: text) : replaceAll old new text = text := by
  induction text with
  | nil => rfl
  | cons a rest ih =>
    rw [List.infix_cons_iff,not_or] at absent
    rw [replaceAll_miss absent.1,ih absent.2]

theorem replaceAll_present (some_ : old ≠ []) (present : old <:+: text) : new <:+: replaceAll old new text := by
  induction text using replace_induction some_ with
  | nil => exact absurd (List.infix_nil.mp present) some_
  | hit rest ih =>
    rw [replaceAll_hit some_]
    exact (List.prefix_append _ _).isInfix
  | miss a rest here ih =>
    rw [replaceAll_miss here]
    exact List.infix_cons (ih ((List.infix_cons_iff.mp present).resolve_left here))

-- A text without the character `c` that comes with each replacement is as it was.
theorem replaceAll_eq_of_not_mem {c : α} {result : List α} (some_ : old ≠ []) (mark : c ∈ new) (missing : c ∉ result) :
    replaceAll old new text = result ↔ text = result ∧ ¬old <:+: text := by
  constructor
  · intro same
    have absent : ¬old <:+: text := fun present =>
      missing (same ▸ (replaceAll_present some_ present).subset mark)
    exact ⟨(replaceAll_absent absent).symm.trans same,absent⟩
  · rintro ⟨rfl,absent⟩
    exact replaceAll_absent absent

-- What adds up over a text is kept if `new` has as much of it as `old`.
theorem replaceAll_sum {M : Type*} [AddCommMonoid M] (f : α → M) (some_ : old ≠ []) (same : (new.map f).sum = (old.map f).sum) :
    ((replaceAll old new text).map f).sum = (text.map f).sum := by
  induction text using replace_induction some_ with
  | nil => rfl
  | hit rest ih => rw [replaceAll_hit some_,List.map_append,List.map_append,List.sum_append,List.sum_append,ih,same]
  | miss a rest here ih => rw [replaceAll_miss here,List.map_cons,List.map_cons,List.sum_cons,List.sum_cons,ih]

theorem replaceAll_length (some_ : old ≠ []) (same : new.length = old.length) :
    (replaceAll old new text).length = text.length := by
  have counted : ((replaceAll old new text).map fun _ => 1).sum = (text.map fun _ => 1).sum :=
    replaceAll_sum _ some_ (by simpa using same)
  simpa only [List.map_const',List.sum_replicate_nat,Nat.mul_one] using counted

-- No occurrence reaches across a character that `old` does not have.
theorem replaceAll_separator {c : α} (some_ : old ≠ []) (foreign : c ∉ old) (text rest : List α) :
    replaceAll old new (text ++ c :: rest) = replaceAll old new text ++ c :: replaceAll old new rest := by
  induction text using replace_induction some_ with
  | nil =>
    refine replaceAll_miss fun ⟨after,start⟩ => ?_
    cases old with
    | nil => exact some_ rfl
    | cons a old =>
      cases start
      exact foreign List.mem_cons_self
  | hit text ih => rw [List.append_assoc,replaceAll_hit some_,replaceAll_hit some_,ih,List.append_assoc]
  | miss a text here ih =>
    have across : ¬old <+: a :: (text ++ c :: rest) := by
      intro ⟨after,start⟩
      rcases List.append_eq_append_iff.mp (start.trans (List.cons_append ..).symm) with ⟨more,whole,_⟩ | ⟨more,whole,split⟩
      · exact here ⟨more,whole.symm⟩
      · cases more with
        | nil => exact here ⟨[],by simpa using whole⟩
        | cons d more =>
          cases split
          exact foreign (whole ▸ List.mem_append_right _ List.mem_cons_self)
    rw [List.cons_append,replaceAll_miss across,replaceAll_miss here,ih,List.cons_append]

theorem replaceAll_cons {c : α} (some_ : old ≠ []) (foreign : c ∉ old) (rest : List α) :
    replaceAll old new (c :: rest) = c :: replaceAll old new rest := replaceAll_separator some_ foreign [] rest

theorem replaceAll_foreign {front : List α} (some_ : old ≠ []) (foreign : ∀ c ∈ front, c ∉ old) (rest : List α) :
    replaceAll old new (front ++ rest) = front ++ replaceAll old new rest := by
  induction front with
  | nil => rfl
  | cons c front ih =>
    obtain ⟨here,later⟩ := List.forall_mem_cons.mp foreign
    rw [List.cons_append,replaceAll_cons some_ here,ih later]
    rfl

-- An occurrence that begins in `front` is found there before any other.
theorem replaceAll_cross (some_ : old ≠ []) (new text front : List α) :
    (∀ back, back <:+ front → back ≠ [] → ¬old <+: back ++ text) ∧
        replaceAll old new (front ++ text) = front ++ replaceAll old new text ∨
      ∃ before back rest, front = before ++ back ∧ back ≠ [] ∧ back ++ text = old ++ rest ∧
        replaceAll old new (front ++ text) = before ++ (new ++ replaceAll old new rest) := by
  induction front with
  | nil => exact .inl ⟨fun back end_ some_ => absurd (List.suffix_nil.mp end_) some_,rfl⟩
  | cons a front ih =>
    by_cases here : old <+: a :: (front ++ text)
    · obtain ⟨rest,whole⟩ := here
      refine .inr ⟨[],a :: front,rest,rfl,List.cons_ne_nil _ _,whole.symm,?_⟩
      rw [List.cons_append,← whole,replaceAll_hit some_]
      rfl
    · rw [List.cons_append,replaceAll_miss here]
      rcases ih with ⟨clear,same⟩ | ⟨before,back,rest,rfl,nonempty,whole,same⟩
      · refine .inl ⟨fun back end_ nonempty => ?_,by rw [same]; rfl⟩
        rcases List.suffix_cons_iff.mp end_ with rfl | end_
        · exact here
        · exact clear back end_ nonempty
      · exact .inr ⟨a :: before,back,rest,rfl,nonempty,whole,by rw [same]; rfl⟩

-- The beginning of the result is that of the text up to the first occurrence.
theorem replaceAll_take (some_ : old ≠ []) (new text : List α) (n : Nat) :
    (replaceAll old new text).take n = text.take n ∨
      ∃ before rest, text = before ++ (old ++ rest) ∧ before.length < n ∧
        replaceAll old new text = before ++ (new ++ replaceAll old new rest) := by
  rcases replaceAll_cross some_ new (text.drop n) (text.take n) with
    ⟨_,same⟩ | ⟨before,back,rest,taken,nonempty,whole,same⟩
  · rw [List.take_append_drop] at same
    refine .inl ?_
    rw [same,List.take_append,List.take_take,Nat.min_self]
    rcases Nat.le_total n text.length with long | short
    · simp [Nat.min_eq_left long]
    · simp [List.drop_eq_nil_of_le short]
  · rw [List.take_append_drop] at same
    refine .inr ⟨before,rest,?_,?_,same⟩
    · rw [← whole,← List.append_assoc,← taken,List.take_append_drop]
    · have bound : (before ++ back).length ≤ n := by rw [← taken,List.length_take]; exact Nat.min_le_left _ _
      have := List.length_pos_iff.mpr nonempty
      rw [List.length_append] at bound
      omega

omit [DecidableEq α] in
-- Two texts of one length with one period are equal.
theorem periodic_eq {period x y : List α} (some_ : period ≠ []) (length : x.length = y.length)
    (left : x <+: period ++ x) (right : y <+: period ++ y) : x = y := by
  refine List.ext_getElem length fun i here there => ?_
  induction i using Nat.strongRecOn with
  | ind i ih =>
    rw [left.getElem here,right.getElem there]
    have := List.length_pos_iff.mpr some_
    by_cases first : i < period.length
    · rw [List.getElem_append_left first,List.getElem_append_left first]
    · rw [List.getElem_append_right (by omega),List.getElem_append_right (by omega)]
      exact ih (i - period.length) (by omega) _ _

-- If the result goes on after `back` as `new` does, where the text goes on as
-- `old` does, then nothing was replaced at all.
theorem replaceAll_overlap {back more more' rest : List α} (nonempty : back ≠ []) (left : old = back ++ more)
    (right : new = back ++ more') (length : new.length = old.length) (begins : more' <+: replaceAll old new (more ++ rest)) :
    old = new := by
  have some_ : old ≠ [] := by rw [left]; exact List.append_ne_nil_of_left_ne_nil nonempty _
  have equal : more'.length = more.length := by
    rw [left,right,List.length_append,List.length_append] at length
    omega
  have positive := List.length_pos_iff.mpr nonempty
  rcases replaceAll_take some_ new (more ++ rest) more.length with kept | ⟨front,after,split,short,result⟩
  · rw [List.take_left] at kept
    have same : more' = more := by rw [← kept,← equal,← List.prefix_iff_eq_take.mp begins]
    rw [left,right,same]
  · have inside : front <+: more := by
      refine List.prefix_of_prefix_length_le ?_ (List.prefix_append more rest) (Nat.le_of_lt short)
      rw [split]
      exact List.prefix_append _ _
    obtain ⟨tail,shape⟩ := inside
    have again : tail <+: old := by
      rw [← shape,List.append_assoc] at split
      have begins' : tail <+: old ++ after := by
        rw [← List.append_cancel_left split]
        exact List.prefix_append _ _
      refine List.prefix_of_prefix_length_le begins' (List.prefix_append _ _) ?_
      rw [left,← shape,List.length_append,List.length_append]
      omega
    have again' : more' <+: front ++ new := by
      rw [result,← List.append_assoc] at begins
      refine List.prefix_of_prefix_length_le begins (List.prefix_append _ _) ?_
      rw [equal,right,← shape,List.length_append,List.length_append,List.length_append]
      rw [← shape,List.length_append] at equal
      omega
    refine periodic_eq (List.append_ne_nil_of_left_ne_nil nonempty front) length.symm ?_ ?_
    · nth_rewrite 1 [left]
      rw [← shape,← List.append_assoc]
      exact (List.prefix_append_right_inj _).mpr again
    · nth_rewrite 1 [right]
      rw [List.append_assoc]
      exact (List.prefix_append_right_inj _).mpr again'

end scanning

-- A text in which each character stands as its own group of characters.
section escaped
variable (escape : α → List α)

def escapeAll (text : List α) : List α := text.flatMap escape

-- Some occurrence of `old` begins inside the group of a character and goes on in
-- what follows it.
def cuts (old : List α) (c : α) (rest : List α) : Bool :=
  (escape c).tail.tails.any fun back => !back.isEmpty && back.isPrefixOf old && (old.drop back.length).isPrefixOf rest

def straddles (old : List α) : List α → Bool
  | [] => false
  | c :: rest => cuts escape old c rest || straddles old rest

variable {escape}

theorem cuts_iff {old rest : List α} {c : α} : cuts escape old c rest = true ↔
    ∃ back more, back <:+ (escape c).tail ∧ back ≠ [] ∧ old = back ++ more ∧ more <+: rest := by
  simp only [cuts,List.any_eq_true,List.mem_tails,Bool.and_eq_true,Bool.not_eq_true',List.isEmpty_eq_false_iff,
    List.isPrefixOf_iff_prefix]
  constructor
  · rintro ⟨back,end_,⟨nonempty,more,rfl⟩,after⟩
    rw [List.drop_left] at after
    exact ⟨back,more,end_,nonempty,rfl,after⟩
  · rintro ⟨back,more,end_,nonempty,rfl,after⟩
    refine ⟨back,end_,⟨nonempty,List.prefix_append _ _⟩,?_⟩
    rw [List.drop_left]
    exact after

-- The characters of `plain` stand for themselves, and no other group begins with
-- one of them.
structure Literal (escape : α → List α) (plain : List α) : Prop where
  self : ∀ c ∈ plain, escape c = [c]
  marked : ∀ c, escape c = [c] ∨ ∃ mark rest, escape c = mark :: rest ∧ mark ∉ plain

omit [DecidableEq α] in
theorem Literal.subset {plain part : List α} (literal : Literal escape plain) (part_ : part ⊆ plain) : Literal escape part :=
  ⟨fun c member => literal.self c (part_ member),fun c => (literal.marked c).imp_right fun ⟨mark,rest,whole,foreign⟩ =>
    ⟨mark,rest,whole,fun member => foreign (part_ member)⟩⟩

omit [DecidableEq α] in
theorem escapeAll_append (text more : List α) : escapeAll escape (text ++ more) = escapeAll escape text ++ escapeAll escape more :=
  List.flatMap_append

omit [DecidableEq α] in
theorem escapeAll_cons (c : α) (text : List α) : escapeAll escape (c :: text) = escape c ++ escapeAll escape text := rfl

omit [DecidableEq α] in
theorem escapeAll_plain {plain : List α} (literal : Literal escape plain) : escapeAll escape plain = plain := by
  induction plain with
  | nil => rfl
  | cons c plain ih =>
    rw [escapeAll_cons,literal.self c List.mem_cons_self,ih (literal.subset (List.subset_cons_self c plain))]
    rfl

omit [DecidableEq α] in
-- A plain text begins the escaped text only if it begins the text itself.
theorem plain_prefix {plain text rest : List α} (literal : Literal escape plain) (whole : escapeAll escape text = plain ++ rest) :
    ∃ more, text = plain ++ more ∧ rest = escapeAll escape more := by
  induction plain generalizing text with
  | nil => exact ⟨text,rfl,whole.symm⟩
  | cons c plain ih =>
    cases text with
    | nil => cases whole
    | cons d text =>
      rw [escapeAll_cons] at whole
      rcases literal.marked d with self | ⟨mark,group,shape,foreign⟩
      · rw [self] at whole
        injection whole with same whole
        obtain ⟨more,rfl,rfl⟩ := ih (literal.subset (List.subset_cons_self c plain)) whole
        exact ⟨more,by rw [same]; rfl,rfl⟩
      · rw [shape] at whole
        injection whole with same whole
        exact absurd (same ▸ List.mem_cons_self) foreign

theorem cuts_self {old rest : List α} {c : α} (self : escape c = [c]) : cuts escape old c rest = false := by
  simp [cuts,self]

theorem straddles_plain {old plain : List α} (literal : Literal escape plain) (rest : List α) :
    straddles escape old (plain ++ rest) = straddles escape old rest := by
  induction plain with
  | nil => rfl
  | cons c plain ih =>
    rw [List.cons_append,straddles,cuts_self (literal.self c List.mem_cons_self),Bool.false_or]
    exact ih (literal.subset (List.subset_cons_self c plain))

section occurrences
variable {old new : List α} (some_ : old ≠ []) (literal : Literal escape old) (short : ∀ c, (escape c).length ≤ old.length)
include some_ literal short

-- Where an occurrence begins in the group of `c`: there is none, or it is one of
-- the text itself, or one that begins inside the group.
theorem replaceAll_group (new : List α) (c : α) (rest : List α) :
    (∀ back, back <:+ escape c → back ≠ [] → ¬old <+: back ++ escapeAll escape rest) ∧
        replaceAll old new (escapeAll escape (c :: rest)) = escape c ++ replaceAll old new (escapeAll escape rest) ∨
      old <+: c :: rest ∨
      ∃ before back more after, escape c = before ++ back ∧ before ≠ [] ∧ back ≠ [] ∧ old = back ++ more ∧ rest = more ++ after ∧
        replaceAll old new (escapeAll escape (c :: rest)) = before ++ (new ++ replaceAll old new (escapeAll escape after)) := by
  rw [escapeAll_cons]
  rcases replaceAll_cross some_ new (escapeAll escape rest) (escape c) with
    clear | ⟨before,back,left,group,nonempty,whole,same⟩
  · exact .inl clear
  · cases before with
    | nil =>
      rw [List.nil_append] at group
      obtain ⟨more,begins,_⟩ := plain_prefix literal (show escapeAll escape (c :: rest) = old ++ left by rw [escapeAll_cons,group,whole])
      exact .inr (.inl ⟨more,begins.symm⟩)
    | cons d before =>
      refine .inr (.inr ?_)
      rcases List.append_eq_append_iff.mp whole with ⟨more,shape,split⟩ | ⟨more,shape,split⟩
      · have tail : more ⊆ old := fun e member => shape ▸ List.mem_append_right _ member
        obtain ⟨after,begins,rfl⟩ := plain_prefix (literal.subset tail) split
        exact ⟨d :: before,back,more,after,group,List.cons_ne_nil _ _,nonempty,shape,begins,same⟩
      · have fits := short c
        rw [group,shape] at fits
        simp only [List.cons_append,List.length_cons,List.length_append] at fits
        omega

theorem replaceAll_uncut (new : List α) {c : α} {rest : List α} (here : ¬old <+: c :: rest) (uncut : cuts escape old c rest = false) :
    replaceAll old new (escapeAll escape (c :: rest)) = escape c ++ replaceAll old new (escapeAll escape rest) := by
  rcases replaceAll_group some_ literal short new c rest with ⟨_,same⟩ | begins |
    ⟨before,back,more,after,group,nonempty,nonempty',shape,follows,_⟩
  · exact same
  · exact absurd begins here
  · have cut : cuts escape old c rest = true := by
      refine cuts_iff.mpr ⟨back,more,?_,nonempty',shape,⟨after,follows.symm⟩⟩
      obtain ⟨d,before,rfl⟩ := List.exists_cons_of_ne_nil nonempty
      rw [group]
      exact List.suffix_append _ _
    rw [cut] at uncut
    cases uncut

-- An escaped text that no occurrence straddles is replaced in as the text itself.
theorem replaceAll_escaped (literal' : Literal escape new) {text : List α} (whole : straddles escape old text = false) :
    replaceAll old new (escapeAll escape text) = escapeAll escape (replaceAll old new text) := by
  induction text using replace_induction some_ with
  | nil => rfl
  | hit rest ih =>
    rw [straddles_plain literal] at whole
    rw [escapeAll_append,escapeAll_plain literal,replaceAll_hit some_,replaceAll_hit some_,ih whole,escapeAll_append,
      escapeAll_plain literal']
  | miss c rest here ih =>
    obtain ⟨uncut,whole⟩ := Bool.or_eq_false_iff.mp whole
    rw [replaceAll_miss here,replaceAll_uncut some_ literal short new here uncut,ih whole,escapeAll_cons]

-- One that begins inside a group takes the end of the group with it.
theorem replaceAll_cut (new : List α) {c : α} {rest : List α} (cut : cuts escape old c rest = true) :
    ∃ before back more after, escape c = before ++ back ∧ before ≠ [] ∧ back ≠ [] ∧ old = back ++ more ∧ rest = more ++ after ∧
      replaceAll old new (escapeAll escape (c :: rest)) = before ++ (new ++ replaceAll old new (escapeAll escape after)) := by
  obtain ⟨end_,more,tail,nonempty,shape,after,rfl⟩ := cuts_iff.mp cut
  rcases replaceAll_group some_ literal short new c (more ++ after) with ⟨clear,_⟩ | ⟨left,begins⟩ | found
  · have plain : escapeAll escape more = more :=
      escapeAll_plain (literal.subset fun d member => shape ▸ List.mem_append_right _ member)
    refine absurd ⟨escapeAll escape after,?_⟩ (clear end_ (tail.trans (List.tail_suffix _)) nonempty)
    rw [escapeAll_append,plain,shape,List.append_assoc]
  · obtain ⟨d,old',begin_⟩ := List.exists_cons_of_ne_nil some_
    rw [begin_] at begins
    injection begins with same _
    rw [cuts_self (literal.self c (by rw [begin_,same]; exact List.mem_cons_self))] at cut
    cases cut
  · exact found

end occurrences

end escaped

end TextReplace
