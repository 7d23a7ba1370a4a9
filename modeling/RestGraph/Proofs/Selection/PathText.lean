import RestGraph.Selection.Path
import RestGraph.Proofs.Graph.Ids
import RestGraph.Proofs.Naming.Letters
import RestGraph.Proofs.Selection.Collecting
import RestGraph.Proofs.Text.Replace

/-!
# Path texts

The text of a path joins short ids. It is read back as it was written if the ids hold no separator
and no short form of a section, and end in no blank.

Whatever text a path is read from, to print it and read it again gives the same path: its segments
are pieces that are read as they stand, and a path without a wildcard does not end in the text of
one. An id is restored from its short form exactly if it holds no short form of a section itself.
-/

namespace RestGraph

/-! ## Short ids -/

@[simp]
theorem schemasSection_eq : schemasSection.toList = '#' :: "/components/schemas/".toList := rfl

@[simp] theorem schemasAbbreviation_eq : schemasAbbreviation.toList = '#' :: "/c/s/".toList := rfl

/-- An abbreviated id is not abbreviated again. -/
@[simp] theorem abbreviate_idem (id : String) : abbreviate (abbreviate id) = abbreviate id := by
  have apart : ∀ rest, ¬ '#' :: "/components/schemas/".toList <+: ('#' :: "/c/s/".toList) ++ rest :=
    fun rest start => by simp [List.cons_prefix_cons] at start
  unfold abbreviate Text.replace
  rw [String.toList_ofList, schemasSection_eq, schemasAbbreviation_eq,
    Text.replaceChars_idem (by decide) (by decide) apart]

/-- An id without the abbreviation in it is restored. -/
@[simp]
theorem expand_abbreviate {id : String} (whole : ¬schemasAbbreviation.toList <:+: id.toList) :
    expand (abbreviate id) = id := by
  unfold abbreviate expand Text.replace
  rw [schemasAbbreviation_eq] at whole
  rw [String.toList_ofList, schemasSection_eq, schemasAbbreviation_eq,
    Text.replaceChars_inverse (by decide) whole, String.ofList_toList]

/-- The replacement of the short form leaves no short form behind. -/
theorem schemasAbbreviation_not_infix_expand (segment : String) :
    ¬schemasAbbreviation.toList <:+: (expand segment).toList := by
  have apart : ∀ rest, ¬ '#' :: "/c/s/".toList <+: ('#' :: "/components/schemas/".toList) ++ rest :=
    fun rest start => by simp [List.cons_prefix_cons] at start
  unfold expand Text.replace
  rw [String.toList_ofList, schemasSection_eq, schemasAbbreviation_eq]
  exact Text.not_infix_replaceChars (by decide) (by decide) apart _

/-- **An id is restored unless the abbreviation is in it.** -/
theorem expand_abbreviate_iff {id : String} :
    expand (abbreviate id) = id ↔ ¬schemasAbbreviation.toList <:+: id.toList :=
  ⟨fun same => same ▸ schemasAbbreviation_not_infix_expand (abbreviate id), expand_abbreviate⟩

section Borders

variable {s : String}

@[simp] theorem toList_abbreviate (s : String) : (abbreviate s).toList =
    Text.replaceChars schemasSection.toList schemasAbbreviation.toList s.toList := by
  rw [abbreviate, Text.replace, String.toList_ofList]

/-- Abbreviating brings no separator in. -/
theorem pathSeparator_notMem_abbreviate (joined : pathSeparator ∉ s.toList) :
    pathSeparator ∉ (abbreviate s).toList := fun mem => by
  rw [toList_abbreviate] at mem
  rcases Text.mem_replaceChars (by decide) mem with mem | mem
  · exact joined mem
  · exact absurd mem (by decide)

theorem abbreviate_ne_empty (some : s ≠ "") : abbreviate s ≠ "" := by
  rw [← String.toList_eq_nil_iff.ne, toList_abbreviate]
  exact Text.replaceChars_ne_nil (by decide) (by decide) (String.toList_eq_nil_iff.ne.mpr some)

theorem head?_abbreviate (opened : s.toList.head?.any Text.isBlank = false) :
    (abbreviate s).toList.head?.any Text.isBlank = false := by
  have first : (abbreviate s).toList.head? = s.toList.head? ∨
      (abbreviate s).toList.head? = schemasAbbreviation.toList.head? := by
    rw [toList_abbreviate]
    exact Text.head?_replaceChars (by decide) (by decide)
  rcases first with first | first
  · rw [first, opened]
  · rw [first]
    decide

theorem getLast?_abbreviate (closed : s.toList.getLast?.any Text.isBlank = false) :
    (abbreviate s).toList.getLast?.any Text.isBlank = false := by
  have last : (abbreviate s).toList.getLast? = s.toList.getLast? ∨
      (abbreviate s).toList.getLast? = schemasAbbreviation.toList.getLast? := by
    rw [toList_abbreviate]
    exact Text.getLast?_replaceChars (by decide) (by decide)
  rcases last with last | last
  · rw [last, closed]
  · rw [last]
    decide

end Borders

/-- An id that a path text can spell. -/
structure IsPlainId (id : String) : Prop where
  joined : pathSeparator ∉ id.toList
  full : ¬schemasAbbreviation.toList <:+: id.toList
  closed : id.toList.getLast?.any Text.isBlank = false

instance (id : String) : Decidable (IsPlainId id) :=
  decidable_of_iff (pathSeparator ∉ id.toList ∧ ¬schemasAbbreviation.toList <:+: id.toList ∧
    id.toList.getLast?.any Text.isBlank = false)
    ⟨fun ⟨joined, full, closed⟩ => ⟨joined, full, closed⟩,
      fun ⟨joined, full, closed⟩ => ⟨joined, full, closed⟩⟩

/-- Text that starts as labels do: with none of the characters that mean something in a path. -/
def startsLabel : List Char → Bool
  | c :: _ => c != '#' && c != '*' && !Text.isBlank c
  | [] => false

@[simp]
theorem startsLabel_append {cs : List Char} (start : startsLabel cs = true) (more : List Char) :
    startsLabel (cs ++ more) = true := by
  cases cs with
  | nil => cases start
  | cons => exact start

@[simp] theorem startsLabel_label (k : Kind) : startsLabel k.label.toList = true := by
  have plain : ∀ l ∈ Kind.labels, startsLabel l.toList = true := by decide
  cases prop : k.isProperty with
  | false => exact plain _ (Kind.label_mem prop)
  | true =>
    obtain ⟨shape, required, rfl⟩ := Kind.eq_property_of_isProperty prop
    obtain ⟨word, -, label⟩ := Kind.label_property shape
    rw [Kind.label, label, String.toList_append]
    exact startsLabel_append (by decide) _

/-- An id starts with the label of its kind. -/
@[simp] theorem startsLabel_idOf (k : Kind) (discriminant : String) :
    startsLabel (idOf k discriminant).toList = true := by
  rw [Kind.toList_idOf]
  exact startsLabel_append (startsLabel_label k) _

/-! ## Pieces -/

/-- A piece of a path text that stands between separators as it is read. -/
structure IsPiece (s : String) : Prop where
  some : s ≠ ""
  opened : s.toList.head?.any Text.isBlank = false
  joined : pathSeparator ∉ s.toList
  closed : s.toList.getLast?.any Text.isBlank = false
  short : abbreviate s = s

theorem IsPiece.toList_ne_nil {s : String} (piece : IsPiece s) : s.toList ≠ [] :=
  mt String.toList_eq_nil_iff.mp piece.some

/-- The short form of a piece is a piece. -/
theorem isPiece_abbreviate {s : String} (some : s ≠ "")
    (opened : s.toList.head?.any Text.isBlank = false) (joined : pathSeparator ∉ s.toList)
    (closed : s.toList.getLast?.any Text.isBlank = false) : IsPiece (abbreviate s) where
  some := abbreviate_ne_empty some
  opened := head?_abbreviate opened
  joined := pathSeparator_notMem_abbreviate joined
  closed := getLast?_abbreviate closed
  short := abbreviate_idem s

/-- A wildcard is spelt as a piece of a path. -/
theorem isPiece_text (w : Wildcard) : IsPiece w.text := by
  cases w <;> constructor <;> decide

structure IsSegment (s : String) : Prop where
  start : startsLabel s.toList = true
  joined : pathSeparator ∉ s.toList
  closed : s.toList.getLast?.any Text.isBlank = false
  short : abbreviate s = s

theorem IsSegment.piece {s : String} (segment : IsSegment s) : IsPiece s := by
  obtain ⟨start, joined, closed, short⟩ := segment
  refine ⟨?_, ?_, joined, closed, short⟩
  · rintro rfl
    cases start
  · cases cs : s.toList with
    | nil => rfl
    | cons c rest =>
      rw [cs, startsLabel, Bool.and_eq_true, Bool.not_eq_true'] at start
      exact start.2

/-- A plain id makes a segment. -/
theorem IsPlainId.segment {id : String} (plain : IsPlainId id)
    (start : startsLabel id.toList = true) : IsSegment (abbreviate id) where
  start := by
    rw [toList_abbreviate]
    cases cs : id.toList with
    | nil =>
      rw [cs] at start
      cases start
    | cons c rest =>
      rw [cs] at start
      have other : ¬schemasSection.toList <+: c :: rest := fun front => by
        obtain ⟨rfl, -⟩ := List.cons_prefix_cons.mp front
        cases start
      rw [Text.replaceChars_cons other]
      exact start
  joined := pathSeparator_notMem_abbreviate plain.joined
  closed := getLast?_abbreviate plain.closed
  short := abbreviate_idem id

namespace SelectionPath

@[simp] theorem toList_joinPath (segments : List String) :
    (joinPath segments).toList = [pathSeparator].intercalate (segments.map String.toList) := by
  rw [joinPath, Text.join, String.toList_ofList]
  rfl

theorem joinPath_concat {segments : List String} (some : segments ≠ []) (last : String) :
    joinPath (segments ++ [last]) = joinPath segments ++ String.singleton
      pathSeparator ++ last := by
  refine String.toList_inj.mp ?_
  rw [toList_joinPath, String.toList_append, String.toList_append, toList_joinPath, List.map_append,
    List.map_singleton, intercalate_append _ _ _ (by simpa using some) (by simp),
    List.intercalate_singleton, String.toList_singleton]

section Pieces

variable {segments : List String} (each : ∀ s ∈ segments, IsPiece s)

include each

/-- A joined path has no blanks at its ends. -/
@[simp] theorem trim_joinPath : Text.trim (joinPath segments) = joinPath segments := by
  refine Text.trim_of_ends ?_ ?_
  · rw [toList_joinPath]
    cases segments with
    | nil => rfl
    | cons s rest =>
      have piece := each s List.mem_cons_self
      cases rest with
      | nil => simpa using piece.opened
      | cons s' rest =>
        rw [List.map_cons, List.map_cons, List.intercalate_cons_cons, List.append_assoc,
          List.head?_append_of_ne_nil _ piece.toList_ne_nil]
        exact piece.opened
  · rcases List.eq_nil_or_concat' segments with rfl | ⟨front, last, rfl⟩
    · rfl
    · have piece := each last (by simp)
      rcases eq_or_ne front [] with rfl | some
      · simpa using piece.closed
      · rw [joinPath_concat some, String.toList_append,
          List.getLast?_append_of_ne_nil _ piece.toList_ne_nil]
        exact piece.closed

/-- Segments that are joined are split again. -/
@[simp] theorem split_joinPath (some : segments ≠ []) :
    Text.split pathSeparator (joinPath segments) = segments := by
  have some' : segments.map String.toList ≠ [] := fun none => some (List.map_eq_nil_iff.mp none)
  have parts := List.splitOn_intercalate pathSeparator
    (fun l mem => by
      obtain ⟨s, own, rfl⟩ := List.mem_map.mp mem
      exact (each s own).joined) some'
  have back : String.ofList ∘ String.toList = id := funext fun s => String.ofList_toList
  rw [List.splitOn] at parts
  rw [Text.split, Text.splitWhere, toList_joinPath, parts, List.map_map, back, List.map_id]

/-- Segments that are joined are read back. -/
@[simp] theorem segmentsOf_joinPath : segmentsOf (joinPath segments) = segments := by
  rcases eq_or_ne segments [] with rfl | some
  · rfl
  have kept : segments.map (fun s => abbreviate (Text.trim s)) = segments := by
    conv_rhs => rw [← List.map_id' segments]
    refine List.map_congr_left fun s mem => ?_
    have piece := each s mem
    rw [Text.trim_of_ends piece.opened piece.closed, piece.short]
  rw [segmentsOf, trim_joinPath each, split_joinPath each some, kept, List.filter_eq_self]
  intro s mem
  rw [Bool.not_eq_true', Bool.eq_false_iff]
  exact mt String.isEmpty_iff.mp (each s mem).some

end Pieces

/-- A path text is read back as it was written. It ends in no wildcard. -/
@[simp] theorem ofText_joinPath {segments : List String} (each : ∀ s ∈ segments, IsSegment s) :
    ofText (joinPath segments) = ⟨segments, none⟩ := by
  unfold ofText
  dsimp only
  rw [segmentsOf_joinPath fun s mem => (each s mem).piece]
  have plain : segments.getLast?.bind Wildcard.ofText? = none := by
    cases last : segments.getLast? with
    | none => rfl
    | some s =>
      have start := (each s (List.mem_of_getLast? last)).start
      rw [Option.bind_some]
      unfold Wildcard.ofText?
      split
      · cases start
      · cases start
      · rfl
  rw [plain]

/-! ## Printing -/

section Printing

variable {p : SelectionPath}

theorem isPiece_of_mem_segmentsOf {text s : String} (mem : s ∈ segmentsOf text) : IsPiece s := by
  obtain ⟨mem, full⟩ := List.mem_filter.mp mem
  obtain ⟨piece, cut, rfl⟩ := List.mem_map.mp mem
  obtain ⟨cs, own, rfl⟩ := List.mem_map.mp cut
  refine isPiece_abbreviate ?_ (Text.head?_trim _) (fun inside => ?_) (Text.getLast?_trim _)
  · intro none
    rw [none] at full
    cases full
  · have mem := Text.mem_of_mem_trim inside
    rw [String.toList_ofList] at mem
    have other := (Naming.mem_splitOnP own mem).2
    rw [beq_self_eq_true] at other
    cases other

/-- A path that is read as it is printed. -/
structure IsReadable (p : SelectionPath) : Prop where
  each : ∀ s ∈ p.segments, IsPiece s
  /-- Without a wildcard the last segment is not the text of one. -/
  ended : p.wildcard = none → p.segments.getLast?.bind Wildcard.ofText? = none

/-- Every path that was read can be read back. -/
theorem isReadable_ofText (text : String) : (ofText text).IsReadable := by
  have each : ∀ s ∈ segmentsOf text, IsPiece s := fun s => isPiece_of_mem_segmentsOf
  unfold ofText
  dsimp only
  generalize segmentsOf text = segments at each ⊢
  split
  · exact ⟨fun s mem => each s (List.mem_of_mem_dropLast mem),
      fun none => absurd none (Option.some_ne_none _)⟩
  · next plain => exact ⟨each, fun _ => plain⟩

theorem segmentsOf_toText (readable : p.IsReadable) :
    segmentsOf p.toText = p.segments ++ (p.wildcard.map Wildcard.text).toList := by
  obtain ⟨segments, wildcard⟩ := p
  have each : ∀ s ∈ segments, IsPiece s := readable.each
  cases wildcard with
  | none =>
    change segmentsOf (joinPath segments) = segments ++ []
    rw [segmentsOf_joinPath each, List.append_nil]
  | some w =>
    change segmentsOf (joinPath segments ++ String.singleton pathSeparator ++ w.text) =
      segments ++ [w.text]
    rcases eq_or_ne segments [] with rfl | some
    · -- a wildcard alone is printed behind a separator
      cases w <;> decide +kernel
    · rw [← joinPath_concat some]
      refine segmentsOf_joinPath fun s mem => ?_
      rcases List.mem_append.mp mem with own | last
      · exact each s own
      · exact List.mem_singleton.mp last ▸ isPiece_text w

/-- A readable path is read back from its text. -/
@[simp] theorem ofText_toText (readable : p.IsReadable) : ofText p.toText = p := by
  have segments := segmentsOf_toText readable
  have ended := readable.ended
  obtain ⟨parts, wildcard⟩ := p
  unfold ofText
  dsimp only
  rw [segments]
  cases wildcard with
  | none =>
    have plain : parts.getLast?.bind Wildcard.ofText? = none := ended rfl
    simp only [Option.map_none, Option.toList_none, List.append_nil, plain]
  | some w =>
    have known : Wildcard.ofText? w.text = some w := by cases w <;> rfl
    simp only [Option.map_some, Option.toList_some, List.getLast?_concat, Option.bind_some, known,
      List.dropLast_concat]

/-- A path is kept when it is printed and read again, and an id is kept when it is shortened and
expanded again exactly if no short form of a section is in it. -/
theorem texts_restored : (∀ text, ofText (ofText text).toText = ofText text) ∧
    ∀ id, expand (abbreviate id) = id ↔ ¬schemasAbbreviation.toList <:+: id.toList :=
  ⟨fun text => ofText_toText (isReadable_ofText text), fun _ => expand_abbreviate_iff⟩

/-- Blanks, empty segments, a wildcard that is not the last one and a full section: the text that is
printed is another one, and is read as the same path. -/
example : (ofText " >> * > ref:#/components/schemas/Pet\t>**").toText = "*>ref:#/c/s/Pet>**" := by
  decide +kernel

end Printing

end SelectionPath

end RestGraph
