import Mathlib.Data.List.Infix
import RestGraph.Text.Blank
import RestGraph.Text.Split

/-!
# Replacement and trimming

A pattern whose first character does not come again in it never overlaps itself. Where such a
pattern is replaced by another one with the same first character, it occurs no more, so to replace
again changes nothing, and to replace backwards restores a text in which the other one did not
occur.

A trimmed text neither begins nor ends with a blank, and a text that does neither is trimmed. Blanks
at the end are dropped before or after a replacement that puts none there.
-/

namespace RestGraph.Text

variable {old new cs rest : List Char} {x c : Char}

theorem replaceFrom_eq_drop (old new : List Char) (k : Nat) (cs : List Char) :
    replaceFrom old new k cs = replaceChars old new (cs.drop k) := by
  induction k generalizing cs with
  | zero => rfl
  | succ k ih =>
    cases cs with
    | nil => rfl
    | cons c rest => exact ih rest

@[simp] theorem replaceChars_append (some : old ≠ []) :
    replaceChars old new (old ++ rest) = new ++ replaceChars old new rest := by
  cases old with
  | nil => exact absurd rfl some
  | cons x os =>
    have start : (x :: os).isPrefixOf (x :: (os ++ rest)) = true :=
      List.isPrefixOf_iff_prefix.mpr (List.prefix_append (x :: os) rest)
    rw [List.cons_append, replaceChars, replaceFrom, if_pos start, replaceFrom_eq_drop]
    simp

/-- Where nothing is to be replaced, one character is kept. -/
theorem replaceChars_cons (other : ¬old <+: c :: rest) :
    replaceChars old new (c :: rest) = c :: replaceChars old new rest := by
  rw [replaceChars, replaceFrom, if_neg (mt List.isPrefixOf_iff_prefix.mp other)]
  rfl

/-- A character that does not start the pattern is kept. -/
@[simp] theorem replaceChars_cons_of_ne {os : List Char} (other : x ≠ c) :
    replaceChars (x :: os) new (c :: rest) = c :: replaceChars (x :: os) new rest :=
  replaceChars_cons fun start => other (List.cons_prefix_cons.mp start).1

/-- A text is empty, or starts with the pattern, or with a character that is kept. -/
theorem replace_cases {motive : List Char → Prop} (some : old ≠ []) (nil : motive [])
    (hit : ∀ rest, motive rest → motive (old ++ rest))
    (keep : ∀ c rest, ¬old <+: c :: rest → motive rest → motive (c :: rest)) (cs : List Char) :
    motive cs := by
  induction h : cs.length using Nat.strongRecOn generalizing cs with
  | ind n ih =>
    subst h
    cases cs with
    | nil => exact nil
    | cons c rest =>
      by_cases start : old <+: c :: rest
      · obtain ⟨rest', whole⟩ := start
        rw [← whole] at ih ⊢
        refine hit rest' (ih _ ?_ rest' rfl)
        have := List.length_pos_iff.mpr some
        rw [List.length_append]
        omega
      · exact keep c rest start (ih _ (Nat.lt_succ_self _) rest rfl)

/-- Where the pattern is one character, every character is written by itself. -/
@[simp] theorem replaceChars_single (x : Char) (new cs : List Char) :
    replaceChars [x] new cs = cs.flatMap fun c => if c = x then new else [c] := by
  induction cs with
  | nil => rfl
  | cons c rest ih =>
    rw [List.flatMap_cons]
    split
    · next hit =>
      subst hit
      change replaceChars [c] new ([c] ++ rest) = _
      rw [replaceChars_append (List.cons_ne_nil c []), ih]
    · next other =>
      rw [replaceChars_cons_of_ne (Ne.symm other), ih]
      rfl

/-- A character is an old one, or comes with the replacement. -/
theorem mem_replaceChars (some : old ≠ []) (mem : c ∈ replaceChars old new cs) :
    c ∈ cs ∨ c ∈ new := by
  induction cs using replace_cases some with
  | nil => cases mem
  | hit rest ih =>
    rw [replaceChars_append some] at mem
    rcases List.mem_append.mp mem with mem | mem
    · exact .inr mem
    · exact (ih mem).imp_left (List.mem_append_right _)
  | keep c' rest other ih =>
    rw [replaceChars_cons other] at mem
    rcases List.mem_cons.mp mem with rfl | mem
    · exact .inl List.mem_cons_self
    · exact (ih mem).imp_left (List.mem_cons_of_mem _)

theorem replaceChars_ne_nil (some : old ≠ []) (some' : new ≠ []) (full : cs ≠ []) :
    replaceChars old new cs ≠ [] := by
  induction cs using replace_cases some with
  | nil => exact absurd rfl full
  | hit rest _ =>
    rw [replaceChars_append some]
    exact List.append_ne_nil_of_left_ne_nil some' _
  | keep c rest other _ =>
    rw [replaceChars_cons other]
    exact List.cons_ne_nil _ _

/-- The first character is that of the text or that of what is written for the pattern. -/
theorem head?_replaceChars (some : old ≠ []) (some' : new ≠ []) :
    (replaceChars old new cs).head? = cs.head? ∨ (replaceChars old new cs).head? = new.head? := by
  induction cs using replace_cases some with
  | nil => exact .inl rfl
  | hit rest _ =>
    rw [replaceChars_append some, List.head?_append_of_ne_nil _ some']
    exact .inr rfl
  | keep c rest other _ =>
    rw [replaceChars_cons other]
    exact .inl rfl

/-- The last character is that of the text or that of what is written for the pattern. -/
theorem getLast?_replaceChars (some : old ≠ []) (some' : new ≠ []) :
    (replaceChars old new cs).getLast? = cs.getLast? ∨
      (replaceChars old new cs).getLast? = new.getLast? := by
  induction cs using replace_cases some with
  | nil => exact .inl rfl
  | hit rest ih =>
    rw [replaceChars_append some]
    cases rest with
    | nil =>
      right
      rw [replaceChars, replaceFrom, List.append_nil]
    | cons c rest =>
      have full := List.cons_ne_nil c rest
      rw [List.getLast?_append_of_ne_nil _ (replaceChars_ne_nil some some' full),
        List.getLast?_append_of_ne_nil _ full]
      exact ih
  | keep c rest other ih =>
    rw [replaceChars_cons other]
    cases rest with
    | nil => exact .inl rfl
    | cons c' rest =>
      obtain ⟨y, ys, more⟩ := List.exists_cons_of_ne_nil
        (replaceChars_ne_nil some some' (List.cons_ne_nil c' rest))
      rw [more] at ih ⊢
      rw [List.getLast?_cons_cons, List.getLast?_cons_cons]
      exact ih

/-- A text without the pattern is kept. -/
@[simp] theorem replaceChars_eq_self (absent : ¬old <:+: cs) : replaceChars old new cs = cs := by
  induction cs with
  | nil => rfl
  | cons c rest ih =>
    rw [replaceChars_cons fun start => absent start.isInfix,
      ih fun inside => absent (inside.trans (List.suffix_cons c rest).isInfix)]

section Fresh

variable {os ns : List Char}

/-- A text in which no pattern can start is kept. -/
theorem replaceChars_append_of_absent {front : List Char} (absent : x ∉ front) (rest : List Char) :
    replaceChars (x :: os) new (front ++ rest) = front ++ replaceChars (x :: os) new rest := by
  induction front with
  | nil => rfl
  | cons y ys ih =>
    have other : x ≠ y := fun same => absent (same ▸ List.mem_cons_self)
    rw [List.cons_append, replaceChars_cons_of_ne other,
      ih fun mem => absent (List.mem_cons_of_mem y mem)]
    rfl

/-- What does not hold the first character of the pattern comes from the text. -/
theorem prefix_of_prefix_replaceChars {p : List Char} (absent : x ∉ p)
    (front : p <+: replaceChars (x :: os) (x :: ns) cs) : p <+: cs := by
  induction p generalizing cs with
  | nil => exact List.nil_prefix
  | cons y ys ih =>
    have other : x ≠ y := fun e => absent (e ▸ List.mem_cons_self)
    cases cs with
    | nil => exact front
    | cons c rest =>
      by_cases start : x :: os <+: c :: rest
      · obtain ⟨rest', whole⟩ := start
        rw [← whole, replaceChars_append (List.cons_ne_nil x os), List.cons_append,
          List.cons_prefix_cons] at front
        exact absurd front.1.symm other
      · rw [replaceChars_cons start, List.cons_prefix_cons] at front
        exact List.cons_prefix_cons.mpr
          ⟨front.1, ih (fun mem => absent (List.mem_cons_of_mem y mem)) front.2⟩

/-- No pattern starts in a text without its first character. -/
theorem infix_of_infix_append {front : List Char} (absent : x ∉ front)
    (inside : x :: os <:+: front ++ rest) : x :: os <:+: rest := by
  induction front with
  | nil => exact inside
  | cons y ys ih =>
    rcases List.infix_cons_iff.mp inside with start | inside
    · exact absurd ((List.cons_prefix_cons.mp start).1 ▸ List.mem_cons_self) absent
    · exact ih (fun mem => absent (List.mem_cons_of_mem y mem)) inside

variable (fresh : x ∉ os) (fresh' : x ∉ ns) (apart : ∀ rest, ¬x :: os <+: (x :: ns) ++ rest)

include fresh fresh' apart

/-- Once it is replaced, the pattern occurs no more, not even across a border. -/
theorem not_infix_replaceChars (cs : List Char) :
    ¬x :: os <:+: replaceChars (x :: os) (x :: ns) cs := by
  induction cs using replace_cases (List.cons_ne_nil x os) with
  | nil => exact fun inside => List.cons_ne_nil x os (List.infix_nil.mp inside)
  | hit rest ih =>
    rw [replaceChars_append (List.cons_ne_nil x os), List.cons_append]
    intro inside
    rcases List.infix_cons_iff.mp inside with start | inside
    · exact apart _ start
    · exact ih (infix_of_infix_append fresh' inside)
  | keep c rest other ih =>
    rw [replaceChars_cons other]
    intro inside
    rcases List.infix_cons_iff.mp inside with start | inside
    · obtain ⟨rfl, front⟩ := List.cons_prefix_cons.mp start
      exact other (List.cons_prefix_cons.mpr ⟨rfl, prefix_of_prefix_replaceChars fresh front⟩)
    · exact ih inside

/-- To replace again changes nothing. -/
@[simp] theorem replaceChars_idem (cs : List Char) :
    replaceChars (x :: os) (x :: ns) (replaceChars (x :: os) (x :: ns) cs) =
      replaceChars (x :: os) (x :: ns) cs :=
  replaceChars_eq_self (not_infix_replaceChars fresh fresh' apart cs)

omit fresh apart in
/-- To replace backwards restores the text. -/
@[simp] theorem replaceChars_inverse (absent : ¬x :: ns <:+: cs) :
    replaceChars (x :: ns) (x :: os) (replaceChars (x :: os) (x :: ns) cs) = cs := by
  induction cs using replace_cases (List.cons_ne_nil x os) with
  | nil => rfl
  | hit rest ih =>
    rw [replaceChars_append (List.cons_ne_nil x os), replaceChars_append (List.cons_ne_nil x ns),
      ih fun inside => absent (inside.trans (List.suffix_append _ rest).isInfix)]
  | keep c rest other ih =>
    have other' : ¬x :: ns <+: c :: replaceChars (x :: os) (x :: ns) rest := fun start => by
      obtain ⟨rfl, front⟩ := List.cons_prefix_cons.mp start
      exact absent (List.cons_prefix_cons.mpr
        ⟨rfl, prefix_of_prefix_replaceChars fresh' front⟩).isInfix
    rw [replaceChars_cons other, replaceChars_cons other',
      ih fun inside => absent (inside.trans (List.suffix_cons c rest).isInfix)]

end Fresh

section Trim

variable {p : Char → Bool} {s : String}

/-! ## Ends -/

theorem dropEnd_prefix (p : Char → Bool) (cs : List Char) : dropEnd p cs <+: cs := by
  induction cs with
  | nil => exact List.nil_prefix
  | cons c rest ih =>
    rw [dropEnd]
    split
    · split
      · exact List.nil_prefix
      · exact List.prefix_append [c] rest
    · next kept =>
      rw [kept] at ih
      exact List.cons_prefix_cons.mpr ⟨rfl, ih⟩

@[simp] theorem getLast?_dropEnd (p : Char → Bool) (cs : List Char) :
    (dropEnd p cs).getLast?.any p = false := by
  induction cs with
  | nil => rfl
  | cons c rest ih =>
    rw [dropEnd]
    split
    · split
      · rfl
      · next kept => exact Bool.not_eq_true _ ▸ kept
    · next kept =>
      rw [kept] at ih
      rwa [List.getLast?_cons_cons]

@[simp] theorem dropEnd_of_last (last : cs.getLast?.any p = false) : dropEnd p cs = cs := by
  induction cs with
  | nil => rfl
  | cons c rest ih =>
    cases rest with
    | nil =>
      have kept : p c = false := last
      simp [dropEnd, kept]
    | cons c' rest =>
      rw [dropEnd, ih (by rwa [List.getLast?_cons_cons] at last)]

/-- What goes before a text keeps its end, if that is not in the class. -/
@[simp]
theorem dropEnd_append {front : List Char} (last : front.getLast?.any p = false) (cs : List Char) :
    dropEnd p (front ++ cs) = front ++ dropEnd p cs := by
  induction front with
  | nil => rfl
  | cons c rest ih =>
    cases rest with
    | nil =>
      have kept : p c = false := last
      rw [List.cons_append, List.nil_append, dropEnd]
      split
      · next none => rw [none, kept]; rfl
      · next more => rw [more]; rfl
    | cons c' rest =>
      rw [List.cons_append, dropEnd, ih (by rwa [List.getLast?_cons_cons] at last)]
      rfl

/-- The end is dropped before or after a replacement, if neither text of it ends in the class. -/
theorem dropEnd_replaceChars (some : old ≠ []) (some' : new ≠ [])
    (last : old.getLast?.any p = false) (last' : new.getLast?.any p = false) (cs : List Char) :
    dropEnd p (replaceChars old new cs) = replaceChars old new (dropEnd p cs) := by
  induction cs using replace_cases some with
  | nil => rfl
  | hit rest ih =>
    rw [replaceChars_append some, dropEnd_append last', dropEnd_append last,
      replaceChars_append some, ih]
  | keep c rest other ih =>
    have kept : ∀ more, more <+: c :: rest → ¬old <+: more := fun more front start =>
      other (start.trans front)
    rw [replaceChars_cons other, dropEnd, ih, dropEnd]
    cases ends : dropEnd p rest with
    | nil =>
      have alone : replaceChars old new [c] = [c] :=
        replaceChars_cons (kept [c] (List.prefix_append [c] rest))
      rw [show replaceChars old new [] = [] from rfl]
      dsimp only
      split
      · rfl
      · exact alone.symm
    | cons d ds =>
      have front : c :: d :: ds <+: c :: rest :=
        List.cons_prefix_cons.mpr ⟨rfl, ends ▸ dropEnd_prefix p rest⟩
      obtain ⟨y, ys, more⟩ := List.exists_cons_of_ne_nil
        (replaceChars_ne_nil some some' (List.cons_ne_nil d ds))
      rw [replaceChars_cons (kept _ front), more]

/-! ## Trimming -/

/-- A text with no blanks at its ends is not trimmed. -/
@[simp] theorem trim_of_ends (first : s.toList.head?.any isBlank = false)
    (last : s.toList.getLast?.any isBlank = false) : trim s = s := by
  have front : dropStart isBlank s.toList = s.toList := by
    unfold dropStart
    cases cs : s.toList with
    | nil => rfl
    | cons c rest =>
      rw [cs] at first
      exact List.dropWhile_cons_of_neg (Bool.not_eq_true _ ▸ first)
  rw [trim, trimChars, front, dropEnd_of_last last, String.ofList_toList]

@[simp] theorem head?_trim (s : String) : (trim s).toList.head?.any isBlank = false := by
  rw [trim, String.toList_ofList, trimChars, dropStart]
  obtain ⟨more, whole⟩ := dropEnd_prefix isBlank (s.toList.dropWhile isBlank)
  cases kept : dropEnd isBlank (s.toList.dropWhile isBlank) with
  | nil => rfl
  | cons c rest =>
    rw [kept] at whole
    have first := List.head?_dropWhile_not isBlank s.toList
    rw [← whole] at first
    exact first

@[simp] theorem getLast?_trim (s : String) : (trim s).toList.getLast?.any isBlank = false := by
  rw [trim, String.toList_ofList]
  exact getLast?_dropEnd _ _

theorem mem_of_mem_trim (mem : c ∈ (trim s).toList) : c ∈ s.toList := by
  rw [trim, String.toList_ofList] at mem
  have kept := dropEnd_prefix isBlank (s.toList.dropWhile isBlank)
  exact (List.dropWhile_suffix isBlank).subset (kept.subset mem)

end Trim

end RestGraph.Text
