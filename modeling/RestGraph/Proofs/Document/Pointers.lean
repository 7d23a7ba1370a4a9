import RestGraph.Json.Pointer
import RestGraph.Proofs.Naming.Letters
import RestGraph.Proofs.Text.Replace

/-!
# Pointers read back

A path of keys and indices is written as a pointer, each token after a slash. No escaped token holds
a slash, so the pointer is cut at the right places, and to unescape is the inverse of to escape
although both are two replacements that could disturb each other. An index is written as the one
numeral that is read as it.
-/

namespace RestGraph.Json

/-! ## Tokens -/

/-- A tilde that stands before a zero is no pattern of a slash, and the slashes are restored. -/
@[simp] theorem unescape_slashes (cs : List Char) :
    Text.replaceChars ['~', '1'] ['/']
        (Text.replaceChars ['/'] ['~', '1'] (Text.replaceChars ['~'] ['~', '0'] cs)) =
      Text.replaceChars ['~'] ['~', '0'] cs := by
  simp only [Text.replaceChars_single]
  induction cs with
  | nil => rfl
  | cons c rest ih =>
    rw [List.flatMap_cons, List.flatMap_append]
    by_cases tilde : c = '~'
    · subst tilde
      change Text.replaceChars ['~', '1'] ['/'] ('~' :: '0' :: List.flatMap _ _) =
        '~' :: '0' :: List.flatMap _ _
      rw [Text.replaceChars_cons (by simp), Text.replaceChars_cons (by simp), ih]
    · rw [if_neg tilde, List.flatMap_singleton, List.singleton_append]
      by_cases slash : c = '/'
      · rw [if_pos slash, Text.replaceChars_append (List.cons_ne_nil _ _), ih, slash]
        rfl
      · rw [if_neg slash, List.singleton_append, Text.replaceChars_cons_of_ne (Ne.symm tilde), ih]

@[simp] theorem unescape_tildes (cs : List Char) :
    Text.replaceChars ['~', '0'] ['~'] (Text.replaceChars ['~'] ['~', '0'] cs) = cs := by
  simp only [Text.replaceChars_single]
  induction cs with
  | nil => rfl
  | cons c rest ih =>
    rw [List.flatMap_cons]
    by_cases tilde : c = '~'
    · rw [if_pos tilde, Text.replaceChars_append (List.cons_ne_nil _ _), ih, tilde]
      rfl
    · rw [if_neg tilde, List.singleton_append, Text.replaceChars_cons_of_ne (Ne.symm tilde), ih]

/-- Every key is read back from its token. -/
@[simp]
theorem unescapeToken_escapeToken (key : String) : unescapeToken (escapeToken key) = key := by
  unfold unescapeToken escapeToken Text.replace
  simp only [String.toList_ofList]
  exact (congrArg (fun cs => String.ofList (Text.replaceChars ['~', '0'] ['~'] cs))
    (unescape_slashes key.toList)).trans
    ((congrArg String.ofList (unescape_tildes key.toList)).trans String.ofList_toList)

theorem slash_notMem_escapeToken (key : String) : '/' ∉ (escapeToken key).toList := by
  intro mem
  rw [escapeToken, Text.replace, String.toList_ofList] at mem
  change '/' ∈ Text.replaceChars ['/'] ['~', '1'] _ at mem
  rw [Text.replaceChars_single] at mem
  obtain ⟨c, -, mem⟩ := List.mem_flatMap.mp mem
  split at mem
  · exact absurd mem (by decide)
  · next other => exact other (List.mem_singleton.mp mem).symm

/-! ## Indices -/

@[simp] theorem digitValue?_of_isDigit {c : Char} (digit : c.isDigit = true) :
    Text.digitValue? 10 c = some (c.toNat - '0'.toNat) := by
  have between : '0'.toNat ≤ c.toNat ∧ c.toNat ≤ '9'.toNat := Char.isDigit_iff_toNat.mp digit
  have small : c.toNat - '0'.toNat < 10 := by
    have := between.2
    simp only [Char.reduceToNat] at *
    omega
  simp only [Text.digitValue?, if_pos between, if_pos small]

theorem readDigits?_eq (acc : Nat) {cs : List Char} (digits : ∀ c ∈ cs, c.isDigit = true) :
    Text.readDigits? 10 acc cs = some (Nat.ofDigitChars 10 cs acc) := by
  induction cs generalizing acc with
  | nil => rfl
  | cons c rest ih =>
    rw [Text.readDigits?, digitValue?_of_isDigit (digits c List.mem_cons_self), Option.bind_some,
      Nat.ofDigitChars_cons, Nat.mul_comm acc 10]
    exact ih _ fun c' mem => digits c' (List.mem_cons_of_mem c mem)

/-- A numeral starts with a zero only if it is that of zero. -/
theorem head_toDigits_ne_zero {n : Nat} (pos : 0 < n) :
    ∃ c cs, Nat.toDigits 10 n = c :: cs ∧ c ≠ '0' := by
  induction n using Nat.strongRecOn with
  | ind n ih =>
    by_cases small : n < 10
    · have other : ∀ m < 10, 0 < m → m.digitChar ≠ '0' := by decide
      exact ⟨n.digitChar, [], Nat.toDigits_of_lt_base small, other n small pos⟩
    · have fewer : n / 10 < n := Nat.div_lt_self pos (by decide)
      obtain ⟨c, cs, front, other⟩ := ih (n / 10) fewer (by omega)
      refine ⟨c, cs ++ [(n % 10).digitChar], ?_, other⟩
      rw [Nat.toDigits_of_base_le (by decide) (by omega), front, List.cons_append]

/-- Every index of a list is read back from its numeral. -/
@[simp]
theorem readIndex?_toString {n : Nat} (fits : n < Nat.pow 2 64) :
    readIndex? (toString n) = some n := by
  have numeral : (toString n).toList = Nat.toDigits 10 n := by
    rw [Nat.toString_eq_ofList_toDigits, String.toList_ofList]
  rcases Nat.eq_zero_or_pos n with rfl | pos
  · rfl
  · obtain ⟨c, cs, front, other⟩ := head_toDigits_ne_zero pos
    have digits : ∀ c' ∈ c :: cs, c'.isDigit = true := fun c' mem =>
      Nat.isDigit_of_mem_toDigits (by decide) (by decide) (front ▸ mem)
    have unsigned : c ≠ '+' := fun plus =>
      absurd (digits c List.mem_cons_self) (by rw [plus]; decide)
    have word : Text.readWord? (toString n) = some n := by
      have read : Text.readNatural? 10 (c :: cs) = some n := by
        rw [Text.readNatural?, readDigits?_eq 0 digits, ← front, Nat.ofDigitChars_ten_toDigits]
      rw [Text.readWord?, numeral, front]
      split
      · next plus => exact absurd (List.cons.inj plus).1 unsigned
      · rw [read]
        exact Option.filter_eq_some_iff.mpr ⟨rfl, decide_eq_true fits⟩
    rw [readIndex?, numeral, front]
    split
    · next zero => exact absurd (List.cons.inj zero).1 other
    · next zero => exact absurd (List.cons.inj zero).1 other
    · next plus => exact absurd (List.cons.inj plus).1 unsigned
    · exact word

/-! ## Paths -/

def pointerOf (path : List String) : String :=
  path.foldl (fun text key => text ++ "/" ++ escapeToken key) ""

/-- A path is spelt as its escaped tokens, each after a slash. -/
theorem toList_foldl_tokens (text : String) (path : List String) :
    (path.foldl (fun text key => text ++ "/" ++ escapeToken key) text).toList =
      text.toList ++ path.flatMap fun key => '/' :: (escapeToken key).toList := by
  induction path generalizing text with
  | nil => exact (List.append_nil _).symm
  | cons key rest ih =>
    have slash : ("/" : String).toList = ['/'] := rfl
    rw [List.foldl_cons, ih, List.flatMap_cons, String.toList_append, String.toList_append, slash]
    simp only [List.append_assoc, List.singleton_append]

/-- Cut at the slashes, a text falls into its front and the tokens behind it. -/
theorem splitOnP_tokens {front : List Char} (whole : '/' ∉ front) (path : List String) :
    (front ++ path.flatMap fun key => '/' :: (escapeToken key).toList).splitOnP (· == '/') =
      front :: path.map fun key => (escapeToken key).toList := by
  have apart : ∀ {cs : List Char}, '/' ∉ cs → ∀ c ∈ cs, (c == '/') = false :=
    fun whole c mem => beq_eq_false_iff_ne.mpr fun e => whole (e ▸ mem)
  induction path generalizing front with
  | nil =>
    rw [List.flatMap_nil, List.append_nil]
    exact List.splitOnP_eq_singleton (apart whole)
  | cons key rest ih =>
    rw [List.flatMap_cons, List.cons_append,
      List.splitOnP_append_cons_of_forall_mem (apart whole) '/' rfl,
      ih (slash_notMem_escapeToken key), List.map_cons]

/-- Every path is read back from its pointer. -/
@[simp] theorem pointerTokens?_pointerOf (path : List String) :
    pointerTokens? (pointerOf path) = some path := by
  have chars : (pointerOf path).toList =
      path.flatMap fun key => '/' :: (escapeToken key).toList := by
    rw [pointerOf, toList_foldl_tokens]
    rfl
  cases path with
  | nil => rfl
  | cons key rest =>
    have tokens : (escapeToken key :: rest.map escapeToken).map unescapeToken = key :: rest := by
      rw [List.map_cons, unescapeToken_escapeToken, List.map_map]
      congr 1
      exact (List.map_congr_left fun k _ => unescapeToken_escapeToken k).trans (List.map_id rest)
    rw [List.flatMap_cons, List.cons_append] at chars
    have some : ¬(pointerOf (key :: rest)).isEmpty = true := fun empty => by
      rw [String.isEmpty_iff.mp empty] at chars
      exact List.cons_ne_nil _ _ chars.symm
    rw [pointerTokens?, if_neg some, chars]
    change Option.some ((Text.split '/' (String.ofList _)).map unescapeToken) = _
    rw [Text.split, Text.splitWhere, String.toList_ofList,
      splitOnP_tokens (slash_notMem_escapeToken key), List.map_cons, String.ofList_toList,
      List.map_map]
    have back : (String.ofList ∘ fun key => (escapeToken key).toList) = escapeToken :=
      funext fun k => String.ofList_toList
    rw [back, tokens]

end RestGraph.Json
