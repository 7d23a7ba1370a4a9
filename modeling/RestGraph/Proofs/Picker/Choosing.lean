import Mathlib.Algebra.Group.Nat.Even
import Mathlib.Data.Finset.Sort
import Mathlib.Data.Finset.SymmDiff
import RestGraph.Proofs.Picker.Lines

/-!
# Choosing items

The picker keeps the names and the size of a page, stays on one of its pages, and turns marks as the
lines ask for. What is chosen is settled by the lines alone, however the pages are turned.
-/

namespace RestGraph.Picker

variable {p q : Picker} {items entered : List String} {size i : Nat} {is : List Nat}
  {marked result : Finset Nat}

/-! ## Marks -/

def marks (p : Picker) : Finset Nat := p.chosen.toFinset

@[simp] theorem mem_chosen : i ∈ p.chosen ↔ ∃ s, p.entries[i]? = some (s, true) := by
  unfold chosen
  rw [List.mem_filterMap]
  constructor
  · rintro ⟨⟨⟨s, mark⟩, j⟩, mem, found⟩
    rw [List.mem_zipIdx_iff_getElem?] at mem
    dsimp only at found mem
    split at found
    · next hit =>
      cases found
      exact ⟨s, hit ▸ mem⟩
    · cases found
  · rintro ⟨s, found⟩
    exact ⟨((s, true), i), List.mem_zipIdx_iff_getElem?.mpr found, rfl⟩

@[simp] theorem mem_marks : i ∈ p.marks ↔ ∃ s, p.entries[i]? = some (s, true) := by
  rw [marks, List.mem_toFinset, mem_chosen]

theorem lt_total_of_mem_marks (mem : i ∈ p.marks) : i < p.total := by
  obtain ⟨s, found⟩ := mem_marks.mp mem
  exact (List.getElem?_eq_some_iff.mp found).1

/-- What is chosen is listed in order. -/
theorem chosen_increasing (p : Picker) : p.chosen.Pairwise (· < ·) := by
  have indices : (p.entries.zipIdx.map Prod.snd).Pairwise (· < ·) := by
    rw [List.zipIdx_map_snd]
    exact List.pairwise_lt_range'
  rw [chosen, List.pairwise_filterMap]
  refine (List.pairwise_map.mp indices).imp fun {a b} less x hx y hy => ?_
  obtain ⟨⟨_, _⟩, i⟩ := a
  obtain ⟨⟨_, _⟩, j⟩ := b
  have first : x = i := by
    dsimp only at hx
    split at hx <;> simp_all
  have second : y = j := by
    dsimp only at hy
    split at hy <;> simp_all
  rw [first, second]
  exact less

/-- What is chosen are the marks in order. -/
theorem chosen_eq_sort (p : Picker) : p.chosen = p.marks.sort (· ≤ ·) := by
  have increasing := p.chosen_increasing
  exact ((List.toFinset_sort (· ≤ ·) (increasing.imp Nat.ne_of_lt)).mpr
    (increasing.imp Nat.le_of_lt)).symm

theorem marks_subset (p : Picker) : p.marks ⊆ Finset.range p.total := fun _ mem =>
  Finset.mem_range.mpr (lt_total_of_mem_marks mem)

/-- As many items are chosen as there are exactly if all of them are. -/
theorem length_chosen_eq_total_iff : p.chosen.length = p.total ↔
    p.marks = Finset.range p.total := by
  have card : p.chosen.length = p.marks.card :=
    (List.toFinset_card_of_nodup (p.chosen_increasing.imp Nat.ne_of_lt)).symm
  rw [card]
  constructor
  · intro all
    refine Finset.eq_of_subset_of_card_le p.marks_subset ?_
    rw [all, Finset.card_range]
  · intro all
    rw [all, Finset.card_range]

@[simp] theorem marks_start (items : List String) (size : Nat) : (start items size).marks = ∅ := by
  refine Finset.eq_empty_of_forall_notMem fun i mem => ?_
  obtain ⟨s, found⟩ := mem_marks.mp mem
  rw [start, List.getElem?_map, Option.map_eq_some_iff] at found
  obtain ⟨s, -, same⟩ := found
  cases same

/-- All are marked, or none. -/
@[simp] theorem marks_markAll (mark : Bool) (p : Picker) :
    (p.markAll mark).marks = if mark then Finset.range p.total else ∅ := by
  ext i
  rw [mem_marks, markAll, List.getElem?_map]
  cases mark with
  | false => simp
  | true =>
    rw [if_pos rfl, Finset.mem_range]
    constructor
    · rintro ⟨s, found⟩
      obtain ⟨entry, there, -⟩ := Option.map_eq_some_iff.mp found
      exact (List.getElem?_eq_some_iff.mp there).1
    · intro inside
      exact ⟨p.entries[i].1, by rw [List.getElem?_eq_getElem inside]; rfl⟩

/-- If all items are marked then none is, otherwise all are. -/
@[simp] theorem marks_apply_all (p : Picker) : (p.apply .all).marks =
    if p.marks = Finset.range p.total then ∅ else Finset.range p.total := by
  rw [apply, marks_markAll]
  by_cases all : p.chosen.length = p.total
  · rw [if_pos (length_chosen_eq_total_iff.mp all), if_neg (by simpa using all)]
  · rw [if_neg fun full => all (length_chosen_eq_total_iff.mpr full), if_pos (by simpa using all)]

@[simp] theorem total_toggle (p : Picker) (i : Nat) : (p.toggle i).total = p.total :=
  List.length_modify ..

/-- A toggle changes one mark. -/
@[simp] theorem mem_marks_toggle {j : Nat} (inside : i < p.total) :
    j ∈ (p.toggle i).marks ↔ (j ∈ p.marks ↔ i ≠ j) := by
  rw [mem_marks, mem_marks, toggle, List.getElem?_modify]
  by_cases here : i = j
  · subst here
    rw [total] at inside
    cases entry : p.entries[i] with
    | mk s mark => cases mark <;> simp [List.getElem?_eq_getElem inside, entry]
  · simp [here]

/-- The mark of an item is turned around as often as the item is listed. -/
@[simp] theorem mem_marks_foldl_toggle {j : Nat} (inside : ∀ i ∈ is, i < p.total) :
    j ∈ (is.foldl toggle p).marks ↔ (j ∈ p.marks ↔ Even (is.count j)) := by
  induction is generalizing p with
  | nil => simp
  | cons i is ih =>
    have first := inside i List.mem_cons_self
    have rest : ∀ k ∈ is, k < (p.toggle i).total := fun k mem => by
      rw [total_toggle]
      exact inside k (List.mem_cons_of_mem i mem)
    rw [List.foldl_cons, ih rest, mem_marks_toggle first, List.count_cons]
    by_cases here : i = j
    · simp only [here, ne_eq, not_true_eq_false, iff_false, beq_self_eq_true, if_true,
        Nat.even_add_one]
      tauto
    · simp [here]

/-! ## What stays -/

/-- The picker shows these items, in pages of the size that was asked for, and is on one of them. -/
structure Shows (items : List String) (size : Nat) (p : Picker) : Prop where
  names : p.entries.map Prod.fst = items
  size : p.pageSize = max 1 size
  page : p.page < p.pages

namespace Shows

theorem total_eq (shows : Shows items size p) : p.total = items.length := by
  rw [← shows.names, List.length_map, total]

theorem start (items : List String) (size : Nat) : Shows items size (start items size) where
  names := by rw [Picker.start, List.map_map]; exact List.map_id items
  size := rfl
  page := Nat.lt_of_lt_of_le Nat.zero_lt_one (Nat.le_max_left _ _)

/-- Marks are turned, and the page stays. -/
theorem remark (shows : Shows items size p)
    (names : q.entries.map Prod.fst = p.entries.map Prod.fst)
    (same : q.pageSize = p.pageSize) (page : q.page = p.page) : Shows items size q where
  names := names.trans shows.names
  size := same.trans shows.size
  page := by
    have entries : q.total = p.total := by simpa [total] using congrArg List.length names
    rw [page, pages, entries, same]
    exact shows.page

/-- A toggle leaves what is shown. -/
theorem toggle (shows : Shows items size p) (i : Nat) : Shows items size (p.toggle i) := by
  refine shows.remark ?_ rfl rfl
  refine List.ext_getElem? fun j => ?_
  rw [List.getElem?_map, List.getElem?_map, Picker.toggle, List.getElem?_modify]
  cases p.entries[j]? with
  | none => rfl
  | some entry => by_cases here : i = j <;> simp [here]

theorem apply (shows : Shows items size p) (c : Command) : Shows items size (p.apply c) := by
  cases c with
  | toggle is =>
    rw [Picker.apply]
    induction is generalizing p with
    | nil => exact shows
    | cons i is ih => exact ih (shows.toggle i)
  | all =>
    refine shows.remark ?_ rfl rfl
    rw [Picker.apply, markAll, List.map_map]
    rfl
  | next =>
    have page := shows.page
    exact ⟨shows.names, shows.size, show min (p.page + 1) (p.pages - 1) < p.pages by omega⟩
  | previous =>
    have page := shows.page
    exact ⟨shows.names, shows.size, show p.page - 1 < p.pages by omega⟩
  | done => exact shows
  | quit => exact shows

end Shows

/-! ## Pages -/

def onPage (p : Picker) (k : Nat) : Picker := { p with page := k }

/-- Pages one after the other are the whole. -/
theorem flatMap_windows {α : Type} (l : List α) (size count : Nat) :
    ((List.range count).flatMap fun k => (l.drop (k * size)).take size) =
    l.take (count * size) := by
  induction count with
  | zero => simp
  | succ count ih =>
    rw [List.range_succ, List.flatMap_append, ih, List.flatMap_singleton, Nat.succ_mul,
      List.take_add]

theorem total_le_pages_mul (p : Picker) : p.total ≤ p.pages * p.pageSize := by
  have positive := p.pageSize_pos
  have division := Nat.div_add_mod (p.total + p.pageSize - 1) p.pageSize
  have rest := Nat.mod_lt (p.total + p.pageSize - 1) positive
  have enough : p.total ≤ p.pageSize * ((p.total + p.pageSize - 1) / p.pageSize) := by omega
  rw [Nat.mul_comm]
  exact enough.trans (Nat.mul_le_mul_left _ (Nat.le_max_right _ _))

/-- Together the pages show each entry once, in order. -/
@[simp] theorem flatMap_shownEntries (p : Picker) :
    ((List.range p.pages).flatMap fun k => (p.onPage k).shownEntries) = p.entries.zipIdx := by
  have all := flatMap_windows p.entries.zipIdx p.pageSize p.pages
  rw [List.take_of_length_le (by rw [List.length_zipIdx]; exact p.total_le_pages_mul)] at all
  exact all

/-- A page shows the entries from its start on, as many as fit on it and are there. -/
theorem map_snd_shownEntries (p : Picker) : p.shownEntries.map Prod.snd =
    List.Ico (p.page * p.pageSize) (min (p.page * p.pageSize + p.pageSize) p.total) := by
  rw [shownEntries, List.map_take, List.map_drop, List.zipIdx_map_snd, List.drop_range', List.Ico,
    total, Nat.zero_add, Nat.mul_one]
  rcases Nat.le_total p.pageSize (p.entries.length - p.page * p.pageSize) with full | short
  · rw [List.take_range'_of_length_ge full]
    congr 1
    have := p.pageSize_pos
    omega
  · rw [List.take_range'_of_length_le short]
    congr 1
    omega

theorem mem_shownEntries {e : (String × Bool) × Nat} (mem : e ∈ p.shownEntries) :
    p.entries[e.2]? = some e.1 :=
  List.mem_zipIdx_iff_getElem?.mp (List.mem_of_mem_drop (List.mem_of_mem_take mem))

/-! ## What is shown -/

/-- The states that are shown, each with the text that is written after its prompt. -/
def transcript (p : Picker) : List String → List (Picker × String)
  | [] => [(p, "\n")]
  | line :: rest =>
    match Command.ofLine p.total line with
    | .ok .done => [(p, "\n")]
    | .ok .quit => [(p, "")]
    | .ok command => (p, "") :: transcript (p.apply command) rest
    | .error rejection => (p, "  " ++ rejection.message ++ "\n") :: transcript p rest

/-- A run shows a page for each answer. -/
theorem run_shown (p : Picker) (entered : List String) : (p.run entered).shown =
    String.join ((p.transcript entered).map fun (shown, answer) => shown.prompt ++ answer) := by
  fun_induction transcript p entered with
  | case1 p => simp [run]
  | case2 p line rest read => simp [run, read]
  | case3 p line rest read => simp [run, read]
  | case4 p line rest command done quit read ih => simp [run, read, Outcome.after, ih]
  | case5 p line rest rejection read ih => simp [run, read, Outcome.after, ih, String.append_assoc]

/-- Every state that is shown is on a page, shows the items, and was reached from the first. -/
theorem Shows.of_mem_transcript {answer : String} (shows : Shows items size p)
    (mem : (q, answer) ∈ p.transcript entered) : Shows items size q := by
  fun_induction transcript p entered with
  | case1 p =>
    cases List.mem_singleton.mp mem
    exact shows
  | case2 p line rest read =>
    cases List.mem_singleton.mp mem
    exact shows
  | case3 p line rest read =>
    cases List.mem_singleton.mp mem
    exact shows
  | case4 p line rest command done quit read ih =>
    rcases List.mem_cons.mp mem with same | mem
    · cases same
      exact shows
    · exact ih (shows.apply command) mem
  | case5 p line rest rejection read ih =>
    rcases List.mem_cons.mp mem with same | mem
    · cases same
      exact shows
    · exact ih shows mem

/-! ## What is chosen -/

/-- The marks after items are listed. -/
def turn (marked : Finset Nat) (is : List Nat) : Finset Nat :=
  (marked ∪ is.toFinset).filter fun i => i ∈ marked ↔ Even (is.count i)

/-- What is toggled an odd number of times is turned. -/
@[simp] theorem mem_turn : i ∈ turn marked is ↔ (i ∈ marked ↔ Even (is.count i)) := by
  rw [turn, Finset.mem_filter, Finset.mem_union, List.mem_toFinset]
  refine and_iff_right_of_imp fun odd => ?_
  by_contra outside
  rw [not_or] at outside
  rw [List.count_eq_zero.mpr outside.2] at odd
  exact outside.1 (odd.mpr Even.zero)

/-- The marks that the lines leave, from those at the beginning. -/
inductive Settles (total : Nat) : Finset Nat → List String → Finset Nat → Prop
  /-- Without more lines the choice ends. -/
  | ended (marked : Finset Nat) : Settles total marked [] marked
  /-- So it does at an empty line. -/
  | done {marked : Finset Nat} {line : String} (rest : List String) (empty : word line = "") :
    Settles total marked (line :: rest) marked
  | quit {marked : Finset Nat} {line : String} (rest : List String)
    (quit : word line ∈ quitWords) : Settles total marked (line :: rest) ∅
  /-- If all items are marked then none is, otherwise all are. -/
  | all {marked result : Finset Nat} {line : String} {rest : List String}
    (all : word line ∈ markWords)
    (settles : Settles total (if marked = Finset.range total then ∅ else Finset.range total) rest
      result) : Settles total marked (line :: rest) result
  | page {marked result : Finset Nat} {line : String} {rest : List String}
    (page : word line ∈ pageWords) (settles : Settles total marked rest result) :
    Settles total marked (line :: rest) result
  /-- The mark of an item is turned around as often as the item is listed. -/
  | toggle {marked after result : Finset Nat} {line : String} {rest : List String} {is : List Nat}
    (toggles : Toggles total line is)
    (turned : ∀ i, i ∈ after ↔ (i ∈ marked ↔ Even (is.count i)))
    (settles : Settles total after rest result) : Settles total marked (line :: rest) result
  /-- A bad line changes nothing, whatever its good parts list. -/
  | bad {marked result : Finset Nat} {line : String} {rest : List String}
    (bad : IsBad total line) (settles : Settles total marked rest result) :
    Settles total marked (line :: rest) result

@[simp] theorem total_apply (p : Picker) (c : Command) : (p.apply c).total = p.total := by
  cases c with
  | toggle is =>
    rw [apply]
    induction is generalizing p with
    | nil => rfl
    | cons i is ih => exact (ih (p.toggle i)).trans (p.total_toggle i)
  | all => exact List.length_map ..
  | next | previous | done | quit => rfl

section Run

variable {line : String} {rest : List String}

/-- Nothing is chosen by one who quits. -/
@[simp] theorem chosen_run_of_quit (read : Command.ofLine p.total line = .ok .quit) :
    (p.run (line :: rest)).chosen = [] := by
  simp only [run, read]

@[simp] theorem chosen_run_of_done (read : Command.ofLine p.total line = .ok .done) :
    (p.run (line :: rest)).chosen = p.chosen := by
  simp only [run, read]

theorem chosen_run_of_apply {c : Command} (read : Command.ofLine p.total line = .ok c)
    (done : c ≠ .done) (quit : c ≠ .quit) :
    (p.run (line :: rest)).chosen = ((p.apply c).run rest).chosen := by
  simp only [run, read, Outcome.after]

/-- A bad line changes nothing. -/
theorem chosen_run_of_bad (bad : IsBad p.total line) :
    (p.run (line :: rest)).chosen = (p.run rest).chosen := by
  obtain ⟨rejection, read⟩ := ofLine_eq_of_isBad bad
  simp only [run, read, Outcome.after]

end Run

namespace Settles

/-- Any lines leave some marks. -/
theorem exists_settles (total : Nat) (marked : Finset Nat) (entered : List String) :
    ∃ result, Settles total marked entered result := by
  induction entered generalizing marked with
  | nil => exact ⟨marked, .ended marked⟩
  | cons line rest ih =>
    by_cases command : word line ∈ commandWords
    · rcases List.mem_cons.mp command with empty | command
      · exact ⟨marked, .done rest empty⟩
      rcases List.mem_append.mp command with command | quit
      · rcases List.mem_append.mp command with all | page
        · obtain ⟨result, settles⟩ := ih _
          exact ⟨result, .all all settles⟩
        · obtain ⟨result, settles⟩ := ih marked
          exact ⟨result, .page page settles⟩
      · exact ⟨∅, .quit rest quit⟩
    · rcases isBad_or_toggles command with bad | ⟨is, toggles⟩
      · obtain ⟨result, settles⟩ := ih marked
        exact ⟨result, .bad bad settles⟩
      · obtain ⟨result, settles⟩ := ih (turn marked is)
        exact ⟨result, .toggle toggles (fun _ => mem_turn) settles⟩

/-- What is chosen at the end are the marks that the lines leave. -/
theorem chosen_run (settles : Settles p.total p.marks entered result) :
    (p.run entered).chosen = result.sort (· ≤ ·) := by
  generalize all : p.total = total at settles
  generalize before : p.marks = marked at settles
  induction settles generalizing p with
  | ended marked => exact before ▸ p.chosen_eq_sort
  | done rest empty =>
    rw [chosen_run_of_done (ofLine_of_word (by rw [empty]; rfl)), ← before, p.chosen_eq_sort]
  | quit rest quit =>
    rw [chosen_run_of_quit (ofLine_of_word (ofWord?_of_mem_quitWords quit)), Finset.sort_empty]
  | all mem settles ih =>
    rw [chosen_run_of_apply (ofLine_of_word (ofWord?_of_mem_markWords mem)) (by decide) (by decide)]
    exact ih (by simp [all]) (by rw [marks_apply_all, before, all])
  | page mem settles ih =>
    rcases ofWord?_of_mem_pageWords mem with found | found
    · rw [chosen_run_of_apply (ofLine_of_word found) (by decide) (by decide)]
      exact ih all before
    · rw [chosen_run_of_apply (ofLine_of_word found) (by decide) (by decide)]
      exact ih all before
  | toggle toggles turned settles ih =>
    subst all before
    rw [chosen_run_of_apply (ofLine_eq_of_toggles toggles) (by simp) (by simp)]
    refine ih (total_apply _ _) (Finset.ext fun i => ?_)
    rw [apply, mem_marks_foldl_toggle fun _ => toggles.lt, turned]
  | bad bad settles ih =>
    rw [chosen_run_of_bad (all ▸ bad)]
    exact ih all before

/-- No marks are left but those of items. -/
theorem subset {total : Nat} (settles : Settles total marked entered result)
    (inside : marked ⊆ Finset.range total) : result ⊆ Finset.range total := by
  induction settles with
  | ended marked => exact inside
  | done rest empty => exact inside
  | quit rest quit => exact Finset.empty_subset _
  | all mem settles ih =>
    refine ih ?_
    split
    · exact Finset.empty_subset _
    · exact subset_rfl
  | page mem settles ih => exact ih inside
  | toggle toggles turned settles ih =>
    refine ih fun i mem => ?_
    rcases Finset.mem_union.mp (Finset.mem_of_mem_filter i (mem_turn.mpr ((turned i).mp mem))) with
      before | listed
    · exact inside before
    · exact Finset.mem_range.mpr (toggles.lt (List.mem_toFinset.mp listed))
  | bad bad settles ih => exact ih inside

end Settles

/-- **What a run chooses is what its lines settle on.** -/
theorem settles_iff_chosen_run : Settles p.total p.marks entered result ↔
    (p.run entered).chosen = result.sort (· ≤ ·) := by
  refine ⟨fun settles => settles.chosen_run, fun chosen => ?_⟩
  obtain ⟨other, settles⟩ := Settles.exists_settles p.total p.marks entered
  have same : other.sort (· ≤ ·) = result.sort (· ≤ ·) := settles.chosen_run.symm.trans chosen
  have sets := congrArg List.toFinset same
  rw [Finset.sort_toFinset, Finset.sort_toFinset] at sets
  exact sets ▸ settles

/-- What holds whenever the picker shows a page of the items. -/
structure ShowsPage (items : List String) (size : Nat) (p : Picker) : Prop where
  size : p.pageSize = max 1 size
  page : p.page < p.pages
  /-- The indices are those from the start of the page on that are indices of items. -/
  indices : p.shownEntries.map Prod.snd =
    List.Ico (p.page * p.pageSize) (min (p.page * p.pageSize + p.pageSize) items.length)
  entries : ∀ e ∈ p.shownEntries, items[e.2]? = some e.1.1 ∧ (e.1.2 = true ↔ e.2 ∈ p.marks)
  /-- All pages together show each item once, in order. -/
  together : (((List.range p.pages).flatMap fun k => (p.onPage k).shownEntries).map
    fun e => (e.1.1, e.2)) = items.zipIdx

theorem Shows.showsPage (shows : Shows items size p) : ShowsPage items size p where
  size := shows.size
  page := shows.page
  indices := by rw [← shows.total_eq, map_snd_shownEntries]
  entries e mem := by
    have found := mem_shownEntries mem
    refine ⟨by rw [← shows.names, List.getElem?_map, found]; rfl, ?_⟩
    obtain ⟨⟨s, mark⟩, i⟩ := e
    rw [mem_marks, found]
    simp
  together := by
    rw [flatMap_shownEntries, ← shows.names, List.zipIdx_map]
    rfl

/-- The picker shows a page of the items for each line that it reads, and chooses, in ascending
order, exactly those items whose marks the lines leave. -/
theorem choose_faithful (items : List String) (size : Nat) (input : String) :
    AreLines input (lines input) ∧
    (choose items size input).shown = String.join (((start items size).transcript (lines input)).map
      fun (shown, answer) => shown.prompt ++ answer) ∧
    (∀ shown ∈ (start items size).transcript (lines input), ShowsPage items size shown.1) ∧
    (choose items size input).chosen.Pairwise (· < ·) ∧
    (∀ i ∈ (choose items size input).chosen, i < items.length) ∧
    ∀ result, Settles items.length ∅ (lines input) result ↔
      (choose items size input).chosen = result.sort (· ≤ ·) := by
  have shows := Shows.start items size
  have settled : ∀ result, Settles items.length ∅ (lines input) result ↔
      (choose items size input).chosen = result.sort (· ≤ ·) := fun result => by
    rw [← shows.total_eq, ← marks_start items size]
    exact settles_iff_chosen_run
  obtain ⟨result, settles⟩ := Settles.exists_settles items.length ∅ (lines input)
  have chosen := (settled result).mp settles
  refine ⟨areLines_lines input, run_shown _ _, fun shown mem =>
    (shows.of_mem_transcript mem).showsPage, ?_, fun i mem => ?_, settled⟩
  · rw [chosen]
    exact result.sortedLT_sort.pairwise
  · rw [chosen, Finset.mem_sort] at mem
    exact Finset.mem_range.mp (settles.subset (Finset.empty_subset _) mem)

/-- A line with a bad part marks nothing, and an item that is listed twice keeps its mark. -/
theorem letters_faithful :
    (choose ["a", "b", "c", "d", "e"] 2 "1\nn\n3, 1-2 x\n2-3\n1 1\n").chosen = [0, 1, 2] ∧
      Settles 5 ∅ (lines "1\nn\n3, 1-2 x\n2-3\n1 1\n") (Finset.range 3) := by
  have chosen : (choose ["a", "b", "c", "d", "e"] 2 "1\nn\n3, 1-2 x\n2-3\n1 1\n").chosen =
      [0, 1, 2] := by decide +kernel
  have settled := (choose_faithful ["a", "b", "c", "d", "e"] 2
    "1\nn\n3, 1-2 x\n2-3\n1 1\n").2.2.2.2.2 (Finset.range 3)
  exact ⟨chosen, settled.mpr (chosen.trans (Finset.sort_range 3).symm)⟩

end RestGraph.Picker
