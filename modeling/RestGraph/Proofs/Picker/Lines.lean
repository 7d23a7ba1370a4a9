import Mathlib.Data.List.Forall2
import Mathlib.Data.List.Intervals
import RestGraph.Picker
import RestGraph.Proofs.Naming.Letters
import RestGraph.Proofs.Run.Ends

/-!
# Lines of the picker

What a line asks for. A line that is no word of command lists items by their numbers, and it counts
as a whole: it turns around all that it lists, or is rejected for one part that lists nothing.
-/

namespace RestGraph

/-! ## Cuts -/

namespace Text

variable {sep : Char} {cs front back : List Char} {s a b : String}

@[simp] theorem cutChars?_eq_none_iff : cutChars? sep cs = none ↔ sep ∉ cs := by
  induction cs with
  | nil => simp [cutChars?]
  | cons c rest ih =>
    rw [cutChars?, List.mem_cons, not_or, ← ih]
    split
    · next here => simp [beq_iff_eq.mp here]
    · next other =>
      rw [Option.map_eq_none_iff]
      exact (and_iff_right fun same => other (beq_iff_eq.mpr same.symm)).symm

/-- A text is cut at the first separator. -/
@[simp] theorem cutChars?_eq_some_iff :
    cutChars? sep cs = some (front, back) ↔ cs = front ++ sep :: back ∧ sep ∉ front := by
  induction cs generalizing front with
  | nil => simp [cutChars?]
  | cons c rest ih =>
    rw [cutChars?]
    split
    · next here =>
      obtain rfl := beq_iff_eq.mp here
      constructor
      · intro found
        cases found
        exact ⟨rfl, List.not_mem_nil⟩
      · rintro ⟨whole, before⟩
        cases front with
        | nil => simp_all
        | cons x front => simp_all
    · next other =>
      have apart : c ≠ sep := fun same => other (beq_iff_eq.mpr same)
      rw [Option.map_eq_some_iff]
      constructor
      · rintro ⟨⟨x, y⟩, found, same⟩
        cases same
        obtain ⟨whole, before⟩ := ih.mp found
        exact ⟨by rw [whole, List.cons_append], by simpa [apart.symm] using before⟩
      · rintro ⟨whole, before⟩
        cases front with
        | nil => exact absurd (List.cons.inj whole).1 apart
        | cons x front =>
          obtain rfl := (List.cons.inj whole).1
          have found := ih.mpr ⟨(List.cons.inj whole).2, fun mem =>
            before (List.mem_cons_of_mem _ mem)⟩
          exact ⟨(front, back), found, rfl⟩

@[simp] theorem cut?_eq_none_iff : cut? sep s = none ↔ sep ∉ s.toList := by
  rw [cut?, Option.map_eq_none_iff, cutChars?_eq_none_iff]

@[simp] theorem cut?_eq_some_iff :
    cut? sep s = some (a, b) ↔ s.toList = a.toList ++ sep :: b.toList ∧ sep ∉ a.toList := by
  rw [cut?, Option.map_eq_some_iff, ← cutChars?_eq_some_iff]
  constructor
  · rintro ⟨⟨x, y⟩, found, same⟩
    cases same
    rwa [String.toList_ofList, String.toList_ofList]
  · intro found
    exact ⟨_, found, by simp⟩

end Text

namespace Picker

variable {total n : Nat} {raw part line : String} {is : List Nat}

/-! ## Parts -/

/-- The text is the number of an item, counted from one, perhaps with blanks around it. -/
def IsNumber (total : Nat) (raw : String) (n : Nat) : Prop :=
  Text.readWord? (Text.trim raw) = some n ∧ 1 ≤ n ∧ n ≤ total

/-- A part lists one item, or all from one item to another that is not before it. -/
inductive Lists (total : Nat) (part : String) : List Nat → Prop
  | one {n : Nat} (single : '-' ∉ part.toList) (number : IsNumber total part n) :
    Lists total part [n - 1]
  | range {a b : String} {m n : Nat} (cut : part.toList = a.toList ++ '-' :: b.toList)
    (first : '-' ∉ a.toList) (least : IsNumber total a m) (most : IsNumber total b n)
    (ascending : m ≤ n) : Lists total part (List.Ico (m - 1) n)

/-- A number is read when it names one of the items. -/
@[simp] theorem number_eq_ok_iff : Command.number total raw = .ok n ↔ IsNumber total raw n := by
  unfold Command.number IsNumber
  cases Text.readWord? (Text.trim raw) with
  | none => simp
  | some k =>
    dsimp only
    split
    · next out =>
      constructor
      · intro ok
        cases ok
      · rintro ⟨same, least, most⟩
        cases same
        omega
    · next inside =>
      constructor
      · intro ok
        cases ok
        exact ⟨rfl, by omega, by omega⟩
      · rintro ⟨same, -⟩
        cases same
        rfl

/-- A part of a line is read as the indices it lists. -/
@[simp] theorem indices_eq_ok_iff : Command.indices total part = .ok is ↔ Lists total part is := by
  unfold Command.indices
  cases cut : Text.cut? '-' part with
  | none =>
    have single := Text.cut?_eq_none_iff.mp cut
    constructor
    · intro ok
      obtain ⟨n, number, same⟩ := bind_eq_ok_iff.mp ok
      cases same
      exact .one single (number_eq_ok_iff.mp number)
    · intro lists
      cases lists with
      | one _ number => exact bind_eq_ok_iff.mpr ⟨_, number_eq_ok_iff.mpr number, rfl⟩
      | range whole => exact absurd (whole ▸ List.mem_append_right _ List.mem_cons_self) single
  | some parts =>
    obtain ⟨a, b⟩ := parts
    constructor
    · intro ok
      obtain ⟨m, least, ok⟩ := bind_eq_ok_iff.mp ok
      obtain ⟨n, most, ok⟩ := bind_eq_ok_iff.mp ok
      have least := number_eq_ok_iff.mp least
      obtain ⟨whole, first⟩ := Text.cut?_eq_some_iff.mp cut
      split at ok
      · cases ok
      · next ascending =>
        cases ok
        have bounds : n - m + 1 = n - (m - 1) := by
          have := least.2.1
          omega
        rw [bounds]
        exact .range whole first least (number_eq_ok_iff.mp most) (by omega)
    · intro lists
      cases lists with
      | one single => 
        rw [Text.cut?_eq_none_iff.mpr single] at cut
        cases cut
      | @range a' b' m n whole first least most ascending => 
        have same := Text.cut?_eq_some_iff.mpr ⟨whole, first⟩
        rw [cut] at same
        cases same
        refine bind_eq_ok_iff.mpr ⟨m, number_eq_ok_iff.mpr least, ?_⟩
        refine bind_eq_ok_iff.mpr ⟨n, number_eq_ok_iff.mpr most, ?_⟩
        rw [if_neg (by omega), List.Ico]
        have bounds : n - m + 1 = n - (m - 1) := by
          have := least.2.1
          omega
        rw [bounds]
        rfl

/-- Nothing is listed that is no item. -/
theorem Lists.lt (lists : Lists total part is) {i : Nat} (mem : i ∈ is) : i < total := by
  cases lists with
  | one single number =>
    obtain ⟨-, least, most⟩ := number
    rw [List.mem_singleton] at mem
    omega
  | range cut first least most ascending =>
    have inside := most.2.2
    rw [List.Ico.mem] at mem
    omega

/-! ## Lines -/

/-- What a line says as a command: no blanks around it, in small letters. -/
def word (line : String) : String := Text.asciiLower (Text.trim line)

def markWords : List String := ["a", "all"]

def pageWords : List String := ["n", "next", "p", "prev"]

def quitWords : List String := ["q", "quit"]

/-- The words of commands; the empty one ends the choice. -/
def commandWords : List String := "" :: (markWords ++ pageWords ++ quitWords)

/-- The line is no command, and these are the items that its parts list, in order and as often as
they are listed. -/
def Toggles (total : Nat) (line : String) (is : List Nat) : Prop :=
  word line ∉ commandWords ∧
    ∃ groups, List.Forall₂ (Lists total) (Command.parts line) groups ∧ is = groups.flatten

/-- The line is no command, and some part of it lists nothing. -/
def IsBad (total : Nat) (line : String) : Prop :=
  word line ∉ commandWords ∧ ∃ part ∈ Command.parts line, ∀ is, ¬ Lists total part is

theorem exists_of_forall₂ {α β : Type} {R : α → β → Prop} {as : List α} {bs : List β}
    (each : List.Forall₂ R as bs) {a : α} (mem : a ∈ as) : ∃ b ∈ bs, R a b := by
  induction each with
  | nil => cases mem
  | cons first _ ih =>
    rcases List.mem_cons.mp mem with rfl | mem
    · exact ⟨_, List.mem_cons_self, first⟩
    · obtain ⟨b, inside, related⟩ := ih mem
      exact ⟨b, List.mem_cons_of_mem _ inside, related⟩

theorem forall₂_of_forall_exists {α β : Type} {R : α → β → Prop} {as : List α}
    (each : ∀ a ∈ as, ∃ b, R a b) : ∃ bs, List.Forall₂ R as bs := by
  induction as with
  | nil => exact ⟨[], .nil⟩
  | cons a as ih =>
    obtain ⟨b, first⟩ := each a List.mem_cons_self
    obtain ⟨bs, rest⟩ := ih fun a mem => each a (List.mem_cons_of_mem _ mem)
    exact ⟨b :: bs, .cons first rest⟩

/-- What is toggled is one of the items. -/
theorem Toggles.lt (toggles : Toggles total line is) {i : Nat} (mem : i ∈ is) : i < total := by
  obtain ⟨-, groups, lists, rfl⟩ := toggles
  obtain ⟨group, mem, inside⟩ := List.mem_flatten.mp mem
  obtain ⟨part, -, listed⟩ := exists_of_forall₂ lists.flip mem
  exact listed.lt inside

/-- A line that is no command is bad or turns items around. -/
theorem isBad_or_toggles (other : word line ∉ commandWords) :
    IsBad total line ∨ ∃ is, Toggles total line is := by
  by_cases bad : ∃ part ∈ Command.parts line, ∀ is, ¬ Lists total part is
  · exact .inl ⟨other, bad⟩
  · simp only [not_exists, not_and, not_forall, not_not] at bad
    obtain ⟨groups, lists⟩ := forall₂_of_forall_exists bad
    exact .inr ⟨groups.flatten, other, groups, lists, rfl⟩

theorem ofLine_of_word {c : Command} (found : Command.ofWord? (word line) = some c) :
    Command.ofLine total line = .ok c := by
  rw [Command.ofLine, ← word, found]

@[simp] theorem ofWord?_of_mem_markWords {w : String} (mem : w ∈ markWords) :
    Command.ofWord? w = some .all := by
  simp only [markWords, List.mem_cons, List.not_mem_nil, or_false] at mem
  rcases mem with rfl | rfl <;> rfl

theorem ofWord?_of_mem_pageWords {w : String} (mem : w ∈ pageWords) :
    Command.ofWord? w = some .next ∨ Command.ofWord? w = some .previous := by
  simp only [pageWords, List.mem_cons, List.not_mem_nil, or_false] at mem
  rcases mem with rfl | rfl | rfl | rfl
  · exact .inl rfl
  · exact .inl rfl
  · exact .inr rfl
  · exact .inr rfl

@[simp] theorem ofWord?_of_mem_quitWords {w : String} (mem : w ∈ quitWords) :
    Command.ofWord? w = some .quit := by
  simp only [quitWords, List.mem_cons, List.not_mem_nil, or_false] at mem
  rcases mem with rfl | rfl <;> rfl

@[simp]
theorem ofWord?_eq_none {w : String} (other : w ∉ commandWords) : Command.ofWord? w = none := by
  unfold Command.ofWord?
  split <;> simp_all [commandWords, markWords, pageWords, quitWords]

@[simp] theorem mapM_eq_ok_iff {ε α β : Type} {f : α → Except ε β} {as : List α} {bs : List β} :
    as.mapM f = .ok bs ↔ List.Forall₂ (fun a b => f a = .ok b) as bs := by
  induction as generalizing bs with
  | nil =>
    rw [List.mapM_nil]
    constructor
    · intro ok
      cases ok
      exact .nil
    · intro none
      cases none
      rfl
  | cons a as ih =>
    rw [List.mapM_cons, bind_eq_ok_iff]
    constructor
    · rintro ⟨b, first, ok⟩
      obtain ⟨bs', rest, ok⟩ := bind_eq_ok_iff.mp ok
      cases ok
      exact .cons first (ih.mp rest)
    · intro each
      cases each with
      | cons first rest =>
        exact ⟨_, first, bind_eq_ok_iff.mpr ⟨_, ih.mpr rest, rfl⟩⟩

/-- A line that lists indices toggles them. -/
theorem ofLine_eq_of_toggles (toggles : Toggles total line is) :
    Command.ofLine total line = .ok (.toggle is) := by
  obtain ⟨other, groups, lists, rfl⟩ := toggles
  rw [Command.ofLine, ← word, ofWord?_eq_none other]
  refine bind_eq_ok_iff.mpr ⟨groups, mapM_eq_ok_iff.mpr ?_, rfl⟩
  exact lists.imp fun _ _ => indices_eq_ok_iff.mpr

/-- A bad line is rejected. -/
theorem ofLine_eq_of_isBad (bad : IsBad total line) :
    ∃ rejection, Command.ofLine total line = .error rejection := by
  obtain ⟨other, part, mem, none⟩ := bad
  rw [Command.ofLine, ← word, ofWord?_eq_none other]
  cases read : (Command.parts line).mapM (Command.indices total) with
  | error rejection => exact ⟨rejection, rfl⟩
  | ok groups =>
    obtain ⟨is, -, listed⟩ := exists_of_forall₂ (mapM_eq_ok_iff.mp read) mem
    exact absurd (indices_eq_ok_iff.mp listed) (none is)

/-! ## Texts -/

/-- The lines of a text, none of which has a line feed inside; each ends with one, but a last line
that is not empty may end with the text. -/
def AreLines (text : String) (lines : List String) : Prop :=
  (∀ line ∈ lines, '\n' ∉ line.toList) ∧
    (text = String.join (lines.map (· ++ "\n")) ∨
      ∃ front last, lines = front ++ [last] ∧ last ≠ "" ∧
        text = String.join (front.map (· ++ "\n")) ++ last)

theorem exists_splitOnP_eq (sep : Char) (cs : List Char) : ∃ front last,
    cs.splitOnP (· == sep) = front ++ [last] ∧ cs = front.flatMap (· ++ [sep]) ++ last := by
  induction cs with
  | nil => exact ⟨[], [], rfl, rfl⟩
  | cons c rest ih =>
    obtain ⟨front, last, pieces, whole⟩ := ih
    rw [List.splitOnP_cons_eq_if_modifyHead, pieces]
    split
    · next here =>
      refine ⟨[] :: front, last, rfl, ?_⟩
      rw [List.flatMap_cons, List.append_assoc, ← whole, beq_iff_eq.mp here]
      rfl
    · cases front with
      | nil => exact ⟨[], c :: last, rfl, by rw [whole]; rfl⟩
      | cons w front => exact ⟨(c :: w) :: front, last, rfl, by rw [whole]; rfl⟩

/-- A text is split into its lines. -/
theorem areLines_lines (text : String) : AreLines text (lines text) := by
  obtain ⟨front, last, pieces, whole⟩ := exists_splitOnP_eq '\n' text.toList
  have split : Text.split '\n' text = front.map String.ofList ++ [String.ofList last] := by
    rw [Text.split, Text.splitWhere, pieces, List.map_append, List.map_singleton]
  have inner : ∀ line ∈ Text.split '\n' text, '\n' ∉ line.toList := fun line mem feed => by
    obtain ⟨w, word, rfl⟩ := List.mem_map.mp mem
    rw [String.toList_ofList] at feed
    have other := (Naming.mem_splitOnP word feed).2
    cases other
  have joined : text = String.join ((front.map String.ofList).map (· ++ "\n")) ++
      String.ofList last := by
    refine String.toList_inj.mp ?_
    rw [whole, String.toList_append, String.toList_join, String.toList_ofList]
    simp [List.flatMap_map]
  rw [split] at inner
  have ended : ∀ line ∈ front.map String.ofList, '\n' ∉ line.toList := fun line mem =>
    inner line (List.mem_append_left _ mem)
  unfold lines
  rw [split, List.reverse_append, List.reverse_singleton, List.singleton_append]
  generalize String.ofList last = last at inner joined
  split
  · next same =>
    obtain ⟨rfl, rest⟩ := List.cons.inj same
    rw [← rest, List.reverse_reverse]
    exact ⟨ended, .inl (by simpa using joined)⟩
  · next other =>
    rw [List.reverse_cons, List.reverse_reverse]
    exact ⟨inner, .inr ⟨_, _, rfl, fun empty => other _ (by rw [empty]), joined⟩⟩

end Picker

end RestGraph
