import TileFlow.Text.Case
import TileFlow.Text.Hex
import TileFlow.Text.Split

/-!
# Lines of texts

A text is read line by line, so that what is put together from lines can be taken apart again. A
pattern on one line is replaced within each line alone. Texts in upper case have no small letters of
the English alphabet, which is how they are told apart from the names of functions.

## Main definitions

* `replaceChars`: a text with every occurrence of a pattern replaced, from left to right.
* `joinLines`: lines, each with a line break after it.
* `laterLines`: the lines of a text after the first one.
* `selectLines`: the lines of a text with a property.

## Main results

* `split_joinWith`: texts that are put together with separators are cut into the same texts.
* `selectLines_joinLines`: the lines of a text that is put together from parts.
* `replaceChars_joinLines`: a pattern without line breaks is replaced part by part.
* `not_isSmall_of_mem_toUpper`: no small letter is left in upper case.
-/

namespace TileFlow.Text

variable {pattern new : List Char} {a b line : List Char}

/-! ### Parts -/

/-- A text has at least one part. -/
theorem splitChars_ne_nil (separator : Char) (text : List Char) :
    splitChars separator text ≠ [] := by
  induction text with
  | nil => exact List.cons_ne_nil _ _
  | cons c rest _ =>
      rw [splitChars_cons]
      split
      · exact List.cons_ne_nil _ _
      · cases splitChars separator rest <;> exact List.cons_ne_nil _ _

/-- A separator ends what is before it, however often the separator occurs there. -/
theorem splitChars_append_cons (separator : Char) (a b : List Char) :
    splitChars separator (a ++ separator :: b) =
      splitChars separator a ++ splitChars separator b := by
  induction a with
  | nil =>
      rw [List.nil_append, splitChars_cons, if_pos rfl]
      rfl
  | cons c rest ih =>
      rw [List.cons_append, splitChars_cons, splitChars_cons, ih]
      split
      · rfl
      · rcases hfirst : splitChars separator rest with _ | ⟨part, others⟩
        · exact absurd hfirst (splitChars_ne_nil _ _)
        · rfl

/-- No part of a text that is cut at a separator holds the separator. -/
theorem notMem_of_mem_splitChars {separator : Char} {text part : List Char}
    (h : part ∈ splitChars separator text) : separator ∉ part := by
  induction text generalizing part with
  | nil =>
      obtain rfl := List.mem_singleton.1 h
      exact List.not_mem_nil
  | cons c rest ih =>
      rw [splitChars_cons] at h
      split at h
      · rcases List.mem_cons.1 h with rfl | h
        · exact List.not_mem_nil
        · exact ih h
      · rename_i hc
        rcases hsplit : splitChars separator rest with _ | ⟨first, others⟩
        · exact absurd hsplit (splitChars_ne_nil _ _)
        · rw [hsplit, consFirst] at h
          rcases List.mem_cons.1 h with rfl | h
          · intro hmem
            rcases List.mem_cons.1 hmem with heq | hmem
            · exact hc heq.symm
            · exact ih (hsplit ▸ List.mem_cons_self) hmem
          · exact ih (hsplit ▸ List.mem_cons_of_mem _ h)

/-- A string has at least one part. -/
theorem split_ne_nil (separator : Char) (text : String) : split separator text ≠ [] := by
  simpa [split] using splitChars_ne_nil separator text.toList

/-- No part has the separator. -/
theorem notMem_of_mem_split {separator : Char} {text part : String}
    (h : part ∈ split separator text) : separator ∉ part.toList := by
  obtain ⟨chars, hchars, rfl⟩ := List.mem_map.1 h
  rw [String.toList_ofList]
  exact notMem_of_mem_splitChars hchars

/-- Texts without the separator survive being put together and cut. -/
theorem split_joinWith {separator : Char} {parts : List String} (hne : parts ≠ [])
    (h : ∀ part ∈ parts, separator ∉ part.toList) :
    split separator (joinWith separator parts) = parts := by
  have hchars : ∀ part ∈ parts.map String.toList, separator ∉ part := by simpa using h
  rw [split, joinWith, String.toList_ofList, splitChars_joinChars (by simpa using hne) hchars,
    List.map_map]
  simp

/-! ### Lines -/

/-- The lines of a text after the first one. -/
def laterLines (text : List Char) : List (List Char) :=
  (splitChars '\n' text).tail

/-- The lines of a text are the first and the later ones. -/
theorem splitChars_eq (text : List Char) :
    splitChars '\n' text = text.takeWhile (· ≠ '\n') :: laterLines text := by
  induction text with
  | nil => rfl
  | cons c rest ih =>
      rw [laterLines, splitChars_cons]
      split
      · rename_i hc
        rw [List.takeWhile_cons, if_neg (by simp [hc])]
        rfl
      · rename_i hc
        rw [List.takeWhile_cons, if_pos (by simp [hc]), ih]
        rfl

/-- A character that is no line break adds no line. -/
theorem laterLines_cons {c : Char} (hc : c ≠ '\n') (text : List Char) :
    laterLines (c :: text) = laterLines text := by
  rw [laterLines, splitChars_cons, if_neg hc, splitChars_eq]
  rfl

/-- Text without line break adds no line. -/
theorem laterLines_append (ha : '\n' ∉ a) (b : List Char) :
    laterLines (a ++ b) = laterLines b := by
  induction a with
  | nil => rfl
  | cons c rest ih =>
      rw [List.cons_append, laterLines_cons fun hc => ha (hc ▸ List.mem_cons_self),
        ih fun hmem => ha (List.mem_cons_of_mem _ hmem)]

/-- A line break ends the first line. -/
theorem takeWhile_append_break (a b : List Char) :
    (a ++ '\n' :: b).takeWhile (· ≠ '\n') = a.takeWhile (· ≠ '\n') := by
  induction a with
  | nil => rfl
  | cons c rest ih => rw [List.cons_append, List.takeWhile_cons, List.takeWhile_cons, ih]

/-- Lines, each with a line break after it. -/
def joinLines (lines : List (List Char)) : List Char :=
  lines.flatMap (· ++ ['\n'])

@[simp] theorem joinLines_nil : joinLines [] = [] := rfl

@[simp] theorem joinLines_cons (line : List Char) (lines : List (List Char)) :
    joinLines (line :: lines) = line ++ '\n' :: joinLines lines := by
  simp [joinLines]

/-- Lines in a row are joined in a row. -/
@[simp] theorem joinLines_append (lines others : List (List Char)) :
    joinLines (lines ++ others) = joinLines lines ++ joinLines others :=
  List.flatMap_append

/-- The lines of a text with a property. -/
def selectLines (p : List Char → Bool) (text : List Char) : List (List Char) :=
  (splitChars '\n' text).filter p

/-- The lines of what is put together from parts are the lines of the parts. -/
theorem selectLines_joinLines {p : List Char → Bool} (hp : p [] = false)
    (parts : List (List Char)) :
    selectLines p (joinLines parts) = parts.flatMap (selectLines p) := by
  induction parts with
  | nil => simp [selectLines, splitChars, hp]
  | cons part rest ih =>
      rw [joinLines_cons, selectLines, splitChars_append_cons, List.filter_append,
        List.flatMap_cons, ← ih]
      rfl

/-- Only the first line of a text has to be looked at if no later one has the property. -/
theorem selectLines_eq {p : List Char → Bool} (h : ∀ line ∈ laterLines a, p line = false) :
    selectLines p a = if p (a.takeWhile (· ≠ '\n')) then [a.takeWhile (· ≠ '\n')] else [] := by
  have hlater : (laterLines a).filter p = [] :=
    List.filter_eq_nil_iff.2 fun line hline => by simp [h line hline]
  rw [selectLines, splitChars_eq, List.filter_cons, hlater]

/-! ### Unbroken texts -/

/-- Texts that do not break lines. -/
def IsUnbroken (text : String) : Prop :=
  '\n' ∉ text.toList

instance (text : String) : Decidable (IsUnbroken text) :=
  inferInstanceAs (Decidable (_ ∉ _))

/-- Texts that do not break lines are put together to one that does not. -/
theorem IsUnbroken.append {a b : String} (ha : IsUnbroken a) (hb : IsUnbroken b) :
    IsUnbroken (a ++ b) := by
  rw [IsUnbroken, String.toList_append]
  exact fun h => (List.mem_append.1 h).elim ha hb

/-- A numeral is made of digits. -/
theorem isDigit_of_mem_numeral {k : Nat} {c : Char} (hc : c ∈ (toString k).toList) :
    c.isDigit = true := by
  refine Nat.isDigit_of_mem_toDigits (by decide) (by decide) (b := 10) (n := k) ?_
  rwa [← Nat.toList_repr]

/-- An integer is written with digits and a sign. -/
theorem isDigit_of_mem_toString {n : Int} {c : Char} (hc : c ∈ (toString n).toList) :
    c.isDigit = true ∨ c = '-' := by
  cases n with
  | ofNat n => exact .inl (isDigit_of_mem_numeral hc)
  | negSucc n =>
      change c ∈ ("-" ++ toString (n + 1)).toList at hc
      rw [String.toList_append, List.mem_append] at hc
      exact hc.elim (fun hsign => .inr (List.mem_singleton.1 hsign)) fun hc =>
        .inl (isDigit_of_mem_numeral hc)

/-- The numeral of an integer has no line break. -/
theorem isUnbroken_int (n : Int) : IsUnbroken (toString n) := fun h => by
  rcases isDigit_of_mem_toString h with h | h <;> revert h <;> decide

/-- The digits of a numeral. -/
theorem mem_toDigits {b n : Nat} {d : Char} (hb : 1 < b) (h : d ∈ Nat.toDigits b n) :
    ∃ m, m < b ∧ d = m.digitChar := by
  induction n using Nat.strongRecOn with
  | ind n ih =>
      rw [Nat.toDigits_eq_if hb] at h
      split at h
      · rename_i hn
        exact ⟨n, hn, by simpa using h⟩
      · rename_i hn
        rcases List.mem_append.1 h with h | h
        · exact ih (n / b) (Nat.div_lt_self (by omega) hb) h
        · exact ⟨n % b, Nat.mod_lt _ (by omega), by simpa using h⟩

/-- An address is written without a line break. -/
theorem isUnbroken_hexAddress (n : Int) : IsUnbroken (hexAddress n) := by
  have hdigit : ∀ m < 16, m.digitChar ≠ '\n' := by decide
  refine (by decide : IsUnbroken "0x").append fun h => ?_
  rw [hex, String.toList_ofList] at h
  obtain ⟨m, hm, hbreak⟩ := mem_toDigits (by decide) h
  exact hdigit m hm hbreak.symm

/-! ### Replacement -/

/-- What is left of a text to be read, of which the first characters belong to an occurrence that
was replaced already. -/
def replaceFrom (pattern new : List Char) : Nat → List Char → List Char
  | _, [] => []
  | skip + 1, _ :: rest => replaceFrom pattern new skip rest
  | 0, c :: rest =>
    if pattern.isPrefixOf (c :: rest) then
      new ++ replaceFrom pattern new (pattern.length - 1) rest
    else c :: replaceFrom pattern new 0 rest

theorem replaceFrom_cons (c : Char) (rest : List Char) :
    replaceFrom pattern new 0 (c :: rest) =
      if pattern.isPrefixOf (c :: rest) then
        new ++ replaceFrom pattern new (pattern.length - 1) rest
      else c :: replaceFrom pattern new 0 rest := rfl

/-- A text with every occurrence of a pattern replaced, from left to right. -/
def replaceChars (pattern new text : List Char) : List Char :=
  replaceFrom pattern new 0 text

theorem replaceFrom_append_skip (a b : List Char) :
    replaceFrom pattern new a.length (a ++ b) = replaceChars pattern new b := by
  induction a with
  | nil => rfl
  | cons c rest ih => exact ih

/-- An occurrence of the pattern. -/
theorem replaceChars_pattern (hne : pattern ≠ []) (b : List Char) :
    replaceChars pattern new (pattern ++ b) = new ++ replaceChars pattern new b := by
  obtain ⟨c, rest, rfl⟩ := List.exists_cons_of_ne_nil hne
  have hprefix : (c :: rest).isPrefixOf (c :: (rest ++ b)) = true :=
    List.isPrefixOf_iff_prefix.2 (List.prefix_append (c :: rest) b)
  rw [replaceChars, List.cons_append, replaceFrom_cons, if_pos hprefix]
  exact congrArg (new ++ ·) (replaceFrom_append_skip rest b)

/-- Where the pattern does not begin, a character is kept. -/
theorem replaceChars_cons {c : Char} (h : ¬ pattern <+: c :: b) :
    replaceChars pattern new (c :: b) = c :: replaceChars pattern new b := by
  rw [replaceChars, replaceFrom_cons, if_neg fun hprefix =>
    h (List.isPrefixOf_iff_prefix.1 hprefix)]
  rfl

/-- Characters with which the pattern does not begin are kept. -/
theorem replaceChars_append {first : Char} {rest : List Char} (hfirst : first ∉ a) (b : List Char) :
    replaceChars (first :: rest) new (a ++ b) = a ++ replaceChars (first :: rest) new b := by
  induction a with
  | nil => rfl
  | cons c others ih =>
      rw [List.cons_append, replaceChars_cons fun hprefix => ?_,
        ih fun hmem => hfirst (List.mem_cons_of_mem _ hmem), List.cons_append]
      exact hfirst ((List.cons_prefix_cons.1 hprefix).1 ▸ List.mem_cons_self)

/-- Every character of the result is of the text or of what was put in. -/
theorem mem_of_mem_replaceFrom {skip : Nat} {c : Char} (h : c ∈ replaceFrom pattern new skip a) :
    c ∈ new ∨ c ∈ a := by
  induction a generalizing skip with
  | nil => exact .inr h
  | cons d rest ih =>
      have hrest : ∀ {skip}, c ∈ replaceFrom pattern new skip rest → c ∈ new ∨ c ∈ d :: rest :=
        fun h => (ih h).imp_right (List.mem_cons_of_mem _)
      cases skip with
      | succ skip => exact hrest h
      | zero =>
          rw [replaceFrom_cons] at h
          split at h
          · exact (List.mem_append.1 h).elim .inl hrest
          · exact (List.mem_cons.1 h).elim (fun hc => .inr (hc ▸ List.mem_cons_self)) hrest

/-- A pattern without line breaks is replaced on each side of a line break. -/
theorem replaceFrom_line (hpattern : '\n' ∉ pattern) (hne : pattern ≠ []) (b : List Char)
    {skip : Nat} (hskip : skip ≤ a.length) : replaceFrom pattern new skip (a ++ '\n' :: b) =
      replaceFrom pattern new skip a ++ '\n' :: replaceChars pattern new b := by
  induction a generalizing skip with
  | nil =>
      obtain rfl : skip = 0 := Nat.le_zero.1 hskip
      refine replaceChars_cons fun hprefix => ?_
      obtain ⟨c, rest, rfl⟩ := List.exists_cons_of_ne_nil hne
      exact hpattern ((List.cons_prefix_cons.1 hprefix).1 ▸ List.mem_cons_self)
  | cons c others ih =>
      cases skip with
      | succ skip => exact ih (Nat.le_of_succ_le_succ hskip)
      | zero =>
          -- An occurrence does not reach beyond the line break.
          have hoccurs : pattern <+: c :: (others ++ '\n' :: b) ↔ pattern <+: c :: others := by
            refine ⟨fun h => ?_, fun h => h.trans (List.prefix_append (c :: others) _)⟩
            rcases List.prefix_or_prefix_of_prefix h
              (List.prefix_append (c :: others ++ ['\n']) b |>.trans (by simp)) with hin | hout
            · rcases List.prefix_concat_iff.1 hin with rfl | hin
              · exact absurd (List.mem_append_right _ List.mem_cons_self) hpattern
              · exact hin
            · exact absurd (hout.subset (List.mem_append_right _ List.mem_cons_self)) hpattern
          simp only [List.cons_append, replaceFrom_cons, List.isPrefixOf_iff_prefix, hoccurs]
          split
          · rename_i hprefix
            have hlength := hprefix.length_le
            rw [ih (by simp only [List.length_cons] at hlength; omega), List.append_assoc]
          · rw [ih (Nat.zero_le _), List.cons_append]

/-- A pattern without line breaks is replaced part by part. -/
theorem replaceChars_joinLines (hpattern : '\n' ∉ pattern) (hne : pattern ≠ [])
    (parts : List (List Char)) : replaceChars pattern new (joinLines parts) =
      joinLines (parts.map (replaceChars pattern new)) := by
  induction parts with
  | nil => rfl
  | cons part rest ih =>
      rw [joinLines_cons, replaceChars, replaceFrom_line hpattern hne _ (Nat.zero_le _),
        List.map_cons, joinLines_cons, ih]
      rfl

/-! ### Upper case -/

/-- Whether a character is a small letter of the English alphabet. -/
def IsSmall (c : Char) : Prop :=
  97 ≤ c.toNat ∧ c.toNat ≤ 122

instance (c : Char) : Decidable (IsSmall c) :=
  inferInstanceAs (Decidable (_ ∧ _))

/-- Codes outside of the range are no small letters. -/
theorem not_isSmall_ofNat {n : Nat} (h : n < 97 ∨ 122 < n) : ¬ IsSmall (Char.ofNat n) := by
  rw [IsSmall, Char.ofNat]
  by_cases hn : n.isValidChar
  · have hvalue : (Char.ofNatAux n hn).toNat = n := rfl
    rw [dif_pos hn]
    omega
  · rw [dif_neg hn]
    decide

/-- No small letter is left in upper case. -/
theorem not_isSmall_of_mem_toUpper {s : String} {c : Char} (h : c ∈ (toUpper s).toList) :
    ¬ IsSmall c := by
  rw [toUpper, String.toList_ofList, List.mem_flatMap] at h
  obtain ⟨d, -, hc⟩ := h
  rw [upperChars] at hc
  split at hc
  · rename_i hascii
    obtain rfl := List.mem_singleton.1 hc
    have htable : ∀ n < 0x80, ¬ (97 ≤ (Char.ofNat n).toUpper.toNat ∧
      (Char.ofNat n).toUpper.toNat ≤ 122) := by decide +kernel
    have := htable d.toNat hascii
    rwa [Char.ofNat_toNat] at this
  · rename_i hascii
    rw [mapCase] at hc
    split at hc
    · rename_i n image hfind
      obtain ⟨n, hn, rfl⟩ := List.mem_map.1 hc
      have htable : ∀ e ∈ upperExpansions, ∀ n ∈ e.2, n < 97 ∨ 122 < n := by decide +kernel
      exact not_isSmall_ofNat (htable _ (Array.mem_of_find?_eq_some hfind) n hn)
    · split at hc
      · rename_i shift hfind
        obtain rfl := List.mem_singleton.1 hc
        have hcovers := Array.find?_some hfind
        simp only [CaseShift.covers, Bool.and_eq_true, decide_eq_true_eq] at hcovers
        have htable : ∀ s ∈ upperShifts,
          s.last + s.distance < 97 ∨ 122 < s.first + s.distance := by decide +kernel
        have := htable _ (Array.mem_of_find?_eq_some hfind)
        exact not_isSmall_ofNat (by omega)
      · obtain rfl := List.mem_singleton.1 hc
        rw [IsSmall]
        omega

end TileFlow.Text
