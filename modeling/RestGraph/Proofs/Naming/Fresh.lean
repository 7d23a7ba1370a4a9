import Mathlib.Data.Finset.Card
import Mathlib.Data.List.Nodup
import Mathlib.Order.Bounds.Basic
import RestGraph.Proofs.Naming.Letters

/-!
# Fresh names

Among the numbered names that are tried there is always one that is free, so a name that is made
unique is none of those taken: it is the name itself or has the least number that makes it free.
Names that are given out one after the other, each noted with those taken, differ from each other.
-/

namespace RestGraph.Naming

variable {taken : List String} {base : String} {count n k : Nat}

/-- The number at the end tells names apart. -/
theorem numbered_injective (base : String) :
    Function.Injective fun k : Nat => base ++ toString k := fun j k same => by
  have chars := congrArg String.toList same
  rw [String.toList_append, String.toList_append] at chars
  exact toString_inj (String.toList_inj.mp (List.append_cancel_left chars))

/-- When the search ends at a name that is taken, all names tried are. -/
theorem mem_of_firstFree_mem (full : firstFree taken base count n ∈ taken) (least : n ≤ k)
    (most : k ≤ n + count) : base ++ toString k ∈ taken := by
  induction count generalizing n with
  | zero =>
    obtain rfl : k = n := by omega
    exact full
  | succ count ih =>
    rw [firstFree] at full
    split at full
    · next occupied =>
      rcases Nat.eq_or_lt_of_le least with rfl | less
      · exact List.contains_iff_mem.mp occupied
      · exact ih full less (by omega)
    · next free => exact absurd (List.contains_iff_mem.mpr full) free

/-- One more name is tried than there are names taken. -/
theorem firstFree_notMem (enough : taken.length ≤ count) :
    firstFree taken base count n ∉ taken := by
  intro full
  have distinct : ((List.range' n (count + 1)).map fun k => base ++ toString k).Nodup :=
    (List.nodup_range' 1).map (numbered_injective base)
  have inside : ((List.range' n (count + 1)).map fun k => base ++ toString k) ⊆ taken :=
    fun x mem => by
    obtain ⟨k, tried, rfl⟩ := List.mem_map.mp mem
    obtain ⟨least, most⟩ := List.mem_range'_1.mp tried
    exact mem_of_firstFree_mem full least (by omega)
  have bound := distinct.length_le_of_subset inside
  rw [List.length_map, List.length_range'] at bound
  omega

@[simp]
theorem unique_notMem (taken : List String) (name : String) : unique taken name ∉ taken := by
  unfold unique
  split
  · exact firstFree_notMem (Nat.le_refl _)
  · next free => exact fun mem => free (List.contains_iff_mem.mpr mem)

/-! ## The search for a number -/

/-- Numbers are tried one after the other until the name with one of them is free; the names that
were tried before are taken. No bound is set on the search. -/
inductive Search (taken : Finset String) (base : String) : Nat → List String → String → Prop
  | found {n : Nat} (free : base ++ toString n ∉ taken) : Search taken base n []
    (base ++ toString n)
  | next {n : Nat} {tried : List String} {name : String} (occupied : base ++ toString n ∈ taken)
    (rest : Search taken base (n + 1) tried name) :
    Search taken base n ((base ++ toString n) :: tried) name

/-- A bounded search that ends at a free name ends as the search without a bound does. -/
theorem exists_search (free : firstFree taken base count n ∉ taken) :
    ∃ tried, Search taken.toFinset base n tried (firstFree taken base count n) := by
  induction count generalizing n with
  | zero => exact ⟨[], .found (mt List.mem_toFinset.mp free)⟩
  | succ count ih =>
    rw [firstFree] at free ⊢
    by_cases occupied : taken.contains (base ++ toString n) = true
    · rw [if_pos occupied] at free ⊢
      obtain ⟨tried, rest⟩ := ih free
      exact ⟨_, .next (List.mem_toFinset.mpr (List.contains_iff_mem.mp occupied)) rest⟩
    · rw [if_neg occupied] at free ⊢
      exact ⟨[], .found (mt List.mem_toFinset.mp free)⟩

namespace Search

variable {used : Finset String} {tried : List String} {name : String}

theorem tried_eq (search : Search used base n tried name) :
    tried = (List.range' n tried.length).map fun k => base ++ toString k := by
  induction search with
  | found => rfl
  | next _ _ ih => rw [List.length_cons, List.range'_succ, List.map_cons, ← ih]

theorem name_eq (search : Search used base n tried name) :
    name = base ++ toString (n + tried.length) := by
  induction search with
  | found => rfl
  | next _ _ ih => rw [ih, List.length_cons, Nat.add_right_comm, Nat.add_assoc]

theorem subset (search : Search used base n tried name) : tried.toFinset ⊆ used := by
  induction search with
  | found => exact Finset.empty_subset _
  | next occupied _ ih =>
    rw [List.toFinset_cons]
    exact Finset.insert_subset occupied ih

/-- The number that is found is the least one that is free. -/
theorem isLeast (search : Search used base n tried name) :
    IsLeast {k | n ≤ k ∧ base ++ toString k ∉ used} (n + tried.length) := by
  induction search with
  | found free => exact ⟨⟨Nat.le_refl _, free⟩, fun k ⟨least, _⟩ => least⟩
  | @next n tried _ occupied _ ih =>
    rw [List.length_cons, ← Nat.add_assoc, Nat.add_right_comm]
    refine ⟨⟨Nat.le_of_succ_le ih.1.1, ih.1.2⟩, fun k ⟨least, free⟩ => ih.2 ⟨?_, free⟩⟩
    refine Nat.lt_of_le_of_ne least ?_
    rintro rfl
    exact free occupied

/-- The names tried differ from each other and from the name without a number. So if that name is
taken as well, fewer numbers fail than names are taken. -/
theorem length_lt_card (search : Search used base n tried name) (occupied : base ∈ used) :
    tried.length < used.card := by
  have apart : base ∉ tried := fun mem => by
    rw [search.tried_eq] at mem
    obtain ⟨k, -, same⟩ := List.mem_map.mp mem
    have digits : (toString k).toList = [] := by
      have chars := congrArg String.toList same
      rwa [String.toList_append, List.append_right_eq_self] at chars
    rw [Nat.toString_eq_repr, Nat.toList_repr] at digits
    exact Nat.toDigits_ne_nil digits
  have distinct : (base :: tried).Nodup := List.nodup_cons.mpr ⟨apart, by
    rw [search.tried_eq]
    exact (List.nodup_range' 1).map (numbered_injective base)⟩
  have inside : (base :: tried).toFinset ⊆ used := by
    rw [List.toFinset_cons]
    exact Finset.insert_subset occupied search.subset
  calc tried.length < (base :: tried).length := Nat.lt_succ_self _
    _ = (base :: tried).toFinset.card := (List.toFinset_card_of_nodup distinct).symm
    _ ≤ used.card := Finset.card_le_card inside

end Search

/-- The name is the base with the least number from two upwards that makes it free. Of the numbers
that are tried for it fewer fail than names are taken. -/
def Numbers (taken : Finset String) (base name : String) : Prop :=
  ∃ tried, Search taken base 2 tried name ∧ tried.length < taken.card ∧
    ∃ k, IsLeast {k | 2 ≤ k ∧ base ++ toString k ∉ taken} k ∧ name = base ++ toString k

theorem firstFree_numbers (occupied : base ∈ taken) :
    Numbers taken.toFinset base (firstFree taken base taken.length 2) := by
  have free : firstFree taken base taken.length 2 ∉ taken := firstFree_notMem le_rfl
  obtain ⟨tried, search⟩ := exists_search free
  exact ⟨tried, search, search.length_lt_card (List.mem_toFinset.mpr occupied), _, search.isLeast,
    search.name_eq⟩

/-! ## Names given out -/

/-- What is given where a name is wanted: a free name, the wanted one if it is free, and else that
one with a number. -/
structure Gives (taken : Finset String) (wanted given : String) : Prop where
  free : given ∉ taken
  same : wanted ∉ taken → given = wanted
  numbered : wanted ∈ taken → Numbers taken wanted given

/-- A unique name is the wanted one, or the wanted one with the least number. -/
theorem unique_gives (taken : List String) (wanted : String) :
    Gives taken.toFinset wanted (unique taken wanted) := by
  refine ⟨mt List.mem_toFinset.mp (unique_notMem taken wanted), fun free => ?_, fun occupied => ?_⟩
  · rw [unique, if_neg (mt List.contains_iff_mem.mp (mt List.mem_toFinset.mpr free))]
  · have occupied := List.mem_toFinset.mp occupied
    rw [unique, if_pos (List.contains_iff_mem.mpr occupied)]
    exact firstFree_numbers occupied

/-- Names are given out one after the other, each as `gives` says, and every name that is given is
taken from then on. -/
inductive Allots {α : Type} (gives : Finset String → α → String → Prop) :
    Finset String → List α → List String → Prop
  | nil {taken : Finset String} : Allots gives taken [] []
  | cons {taken : Finset String} {a : α} {as : List α} {given : String} {more : List String}
    (gave : gives taken a given) (rest : Allots gives (insert given taken) as more) :
    Allots gives taken (a :: as) (given :: more)

namespace Allots

variable {α : Type} {gives : Finset String → α → String → Prop} {used : Finset String} {a : α}
  {as : List α} {given : String} {names : List String}

/-- If only free names are given, they differ from each other and from those taken. -/
theorem distinct (free : ∀ {used a given}, gives used a given → given ∉ used)
    (allots : Allots gives used as names) : names.Nodup ∧ ∀ name ∈ names, name ∉ used := by
  induction allots with
  | nil => exact ⟨.nil, fun _ none => absurd none List.not_mem_nil⟩
  | cons gave _ ih =>
    obtain ⟨distinct, others⟩ := ih
    refine ⟨List.nodup_cons.mpr ⟨fun mem => ?_, distinct⟩, fun name mem occupied => ?_⟩
    · exact others _ mem (Finset.mem_insert_self _ _)
    · rcases List.mem_cons.mp mem with rfl | mem
      · exact free gave occupied
      · exact others name mem (Finset.mem_insert_of_mem occupied)

/-- One more name is given after all others. -/
theorem concat (allots : Allots gives used as names)
    (gave : gives (used ∪ names.toFinset) a given) :
    Allots gives used (as ++ [a]) (names ++ [given]) := by
  induction allots with
  | nil =>
    rw [List.toFinset_nil, Finset.union_empty] at gave
    exact .cons gave .nil
  | cons first _ ih =>
    rw [List.toFinset_cons, Finset.union_insert, ← Finset.insert_union] at gave
    exact .cons first (ih gave)

end Allots

/-- **Unique names are allotted one by one.** -/
theorem uniques_allots (taken names : List String) :
    Allots Gives taken.toFinset names (uniques taken names) := by
  induction names generalizing taken with
  | nil => exact .nil
  | cons name rest ih =>
    have rest := ih (unique taken name :: taken)
    rw [List.toFinset_cons] at rest
    exact .cons (unique_gives taken name) rest

end RestGraph.Naming
