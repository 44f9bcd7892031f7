import Mathlib.Computability.Language
import Mathlib.Data.Nat.Digits.Defs
import TileFlow.Proofs.Source.Texts

/-!
# Longest match

The lexical classes are regular languages, written down here as such, apart from how the lexer
looks for their words. No two of them share a word, and at each place the lexer takes the longest
word that any of them has there. So it cuts a source in the one way in which this can be done, up
to its end or to the first place where no class has a word or where an integer is out of range.

## Main definitions

* `Class.language`: the words of a class.
* `Lexeme.IsLongest`: a lexeme is the longest word that stands at the start of some characters.
* `Cuts`: characters are cut into lexemes, each the longest at its place, up to a rest.
* `Lexeme.Denotes`: the token that a lexeme stands for.
* `Yields`: the tokens of lexemes, with the bytes that they cover.
* `Spaced`: tokens cover parts of some characters, with blanks and comments between them.
* `IsStuck`: no token starts here.

## Main results

* `scan_sound`, `scan_complete`: the lexeme that is found is a word, and no word is longer.
* `eq_of_mem_language`: no two classes share a word.
* `isLongest_iff`: what is found is the longest lexeme.
* `tokensFrom_spec`: how far the lexer cuts, and what it makes of the lexemes.
* `Cuts.unique`: there is one way to do so.
* `tokenize_longestMatch`: the sources that have tokens, what these are, and where the others fail.
-/

open scoped Computability

namespace TileFlow

namespace Source

variable {c : Char} {cs rest v w : List Char} {p : Char → Bool}

/-! ### Languages -/

/-- The words of one character that has a property. -/
def single (p : Char → Bool) : Language Char :=
  {w | ∃ c, p c = true ∧ w = [c]}

/-- Whether a character lies in one of some ranges or is one of some others. -/
def among (ranges : List (Char × Char)) (others : List Char) (c : Char) : Bool :=
  ranges.any (fun r => decide (r.1 ≤ c) && decide (c ≤ r.2)) || others.contains c

/-- The words of one character from some ranges or from a list. -/
def oneOf (ranges : List (Char × Char)) (others : List Char) : Language Char :=
  single (among ranges others)

/-- The words of one character that a list does not have. -/
def noneOf (others : List Char) : Language Char :=
  single fun c => !others.contains c

/-- One or more words in a row. -/
def plus (l : Language Char) : Language Char :=
  l * l∗

/-- The words that start a part of an identifier. -/
def identStart : Language Char :=
  oneOf [('a', 'z'), ('A', 'Z')] ['_']

/-- The words that continue a part of an identifier. -/
def identChars : Language Char :=
  (oneOf [('a', 'z'), ('A', 'Z'), ('0', '9')] ['_', '$'])∗

/-- What may follow the first character of an identifier. -/
def identRest : Language Char :=
  identChars * ({['.']} * identStart * identChars)∗

/-- What may follow the opening quote of a text. -/
def textRest : Language Char :=
  (noneOf ['"', '\\'] + {['\\']} * noneOf ['\n'])∗ * {['"']}

/-- The words of a class, by a regular expression. -/
def Class.language : Class → Language Char
  | .blank => plus (oneOf [] [' ', '\t', '\n', '\r'])
  | .comment => {['/', '/']} * (noneOf ['\n'])∗
  | .value => {['%']} * plus (oneOf [('a', 'z'), ('A', 'Z'), ('0', '9')] ['_'])
  | .symbol => {['@']} * plus (oneOf [('a', 'z'), ('A', 'Z'), ('0', '9')] ['_', '.', '$'])
  | .decimal => (1 + {['-']}) * plus (oneOf [('0', '9')] [])
  | .hexadecimal => {['0', 'x']} * plus (oneOf [('0', '9'), ('a', 'f'), ('A', 'F')] [])
  | .str => {['"']} * textRest
  | .ident => identStart * identRest
  | .mark => oneOf [] ['=', '(', ')', '\x7b', '\x7d', '[', ']', ',', ':']

/-- Words that begin with a given word. -/
theorem mem_word_mul {u : List Char} {l : Language Char} :
    w ∈ ({u} : Language Char) * l ↔ ∃ v ∈ l, w = u ++ v := by
  rw [Language.mem_mul]
  constructor
  · rintro ⟨_, rfl, v, hv, rfl⟩
    exact ⟨v, hv, rfl⟩
  · rintro ⟨v, hv, rfl⟩
    exact ⟨u, rfl, v, hv, rfl⟩

/-- Words that begin with a character of a class. -/
theorem mem_single_mul {l : Language Char} :
    w ∈ single p * l ↔ ∃ c v, p c = true ∧ v ∈ l ∧ w = c :: v := by
  rw [Language.mem_mul]
  constructor
  · rintro ⟨_, ⟨c, hc, rfl⟩, v, hv, rfl⟩
    exact ⟨c, v, hc, hv, rfl⟩
  · rintro ⟨c, v, hc, hv, rfl⟩
    exact ⟨[c], ⟨c, hc, rfl⟩, v, hv, rfl⟩

/-- Nothing is a repetition, and so is one word more. -/
theorem mem_kstar_iff {l : Language Char} : w ∈ l∗ ↔ w = [] ∨ w ∈ l * l∗ := by
  conv_lhs => rw [← Language.one_add_self_mul_kstar_eq_kstar]
  rw [Language.mem_add, Language.mem_one]

/-- Words over a class of characters. -/
theorem mem_kstar_single : w ∈ (single p)∗ ↔ ∀ c ∈ w, p c = true := by
  induction w with
  | nil => simp [Language.nil_mem_kstar]
  | cons c w ih =>
      rw [mem_kstar_iff, mem_single_mul, List.forall_mem_cons, ← ih]
      simp

/-- Words over a class of characters that are not empty. -/
theorem mem_plus_single : w ∈ plus (single p) ↔ w ≠ [] ∧ ∀ c ∈ w, p c = true := by
  rw [plus, mem_single_mul]
  cases w with
  | nil => simp
  | cons c w => simp [mem_kstar_single]

/-! ### Characters -/

/-- Letters are two intervals of characters. -/
theorem isAlpha_iff : c.isAlpha = true ↔ 'a' ≤ c ∧ c ≤ 'z' ∨ 'A' ≤ c ∧ c ≤ 'Z' := by
  have halpha : c.isAlpha = (decide ('A'.val ≤ c.val ∧ c.val ≤ 'Z'.val) ||
      (decide ('a'.val ≤ c.val) && decide (c.val ≤ 'z'.val))) := rfl
  simp only [halpha, Char.le_def, Bool.or_eq_true, Bool.and_eq_true, decide_eq_true_eq]
  exact or_comm

/-- Digits are an interval of characters. -/
theorem isDigit_iff : c.isDigit = true ↔ '0' ≤ c ∧ c ≤ '9' := by
  simp [Char.isDigit, Char.le_def]

/-- The characters of blanks. -/
theorem among_space : among [] [' ', '\t', '\n', '\r'] = isSpace := by
  funext c
  rw [Bool.eq_iff_iff]
  simp [among, isSpace, or_assoc]

/-- The characters of decimal numbers. -/
theorem among_digit : among [('0', '9')] [] = Char.isDigit := by
  funext c
  rw [Bool.eq_iff_iff]
  simp [among, isDigit_iff]

/-- The characters of hexadecimal numbers. -/
theorem among_hexDigit : among [('0', '9'), ('a', 'f'), ('A', 'F')] [] = isHexDigit := by
  funext c
  rw [Bool.eq_iff_iff]
  simp [among, isHexDigit, isDigit_iff, or_assoc]

/-- The characters of values. -/
theorem among_word : among [('a', 'z'), ('A', 'Z'), ('0', '9')] ['_'] = isWordChar := by
  funext c
  rw [Bool.eq_iff_iff]
  simp [among, isWordChar, Char.isAlphanum, isAlpha_iff, isDigit_iff, or_assoc]

/-- The characters of symbols. -/
theorem among_symbol :
    among [('a', 'z'), ('A', 'Z'), ('0', '9')] ['_', '.', '$'] = isSymbolChar := by
  funext c
  rw [Bool.eq_iff_iff]
  simp [among, isSymbolChar, isWordChar, Char.isAlphanum, isAlpha_iff, isDigit_iff, or_assoc]

/-- The characters an identifier begins with. -/
theorem among_identStart : among [('a', 'z'), ('A', 'Z')] ['_'] = isIdentStart := by
  funext c
  rw [Bool.eq_iff_iff]
  simp [among, isIdentStart, isAlpha_iff]

/-- The characters an identifier goes on with. -/
theorem among_identChar :
    among [('a', 'z'), ('A', 'Z'), ('0', '9')] ['_', '$'] = isIdentChar := by
  funext c
  rw [Bool.eq_iff_iff]
  simp [among, isIdentChar, isWordChar, Char.isAlphanum, isAlpha_iff, isDigit_iff, or_assoc]

/-! ### The words of each class -/

/-- The words of blanks. -/
theorem mem_blank : w ∈ Class.blank.language ↔ w ≠ [] ∧ ∀ c ∈ w, isSpace c = true := by
  rw [Class.language, oneOf, among_space, mem_plus_single]

/-- The words of comments. -/
theorem mem_comment :
    w ∈ Class.comment.language ↔ ∃ v, (∀ c ∈ v, (c != '\n') = true) ∧ w = '/' :: '/' :: v := by
  simp [Class.language, noneOf, mem_word_mul, mem_kstar_single]

/-- The words of values. -/
theorem mem_value : w ∈ Class.value.language ↔
    ∃ v, (v ≠ [] ∧ ∀ c ∈ v, isWordChar c = true) ∧ w = '%' :: v := by
  simp only [Class.language, oneOf, among_word, mem_word_mul, mem_plus_single]
  rfl

/-- The words of symbols. -/
theorem mem_symbol : w ∈ Class.symbol.language ↔
    ∃ v, (v ≠ [] ∧ ∀ c ∈ v, isSymbolChar c = true) ∧ w = '@' :: v := by
  simp only [Class.language, oneOf, among_symbol, mem_word_mul, mem_plus_single]
  rfl

/-- The words of decimal numbers. -/
theorem mem_decimal : w ∈ Class.decimal.language ↔
    ∃ v, (v ≠ [] ∧ ∀ c ∈ v, c.isDigit = true) ∧ (w = v ∨ w = '-' :: v) := by
  simp only [Class.language, oneOf, among_digit, add_mul, one_mul, Language.mem_add, mem_word_mul,
    mem_plus_single]
  constructor
  · rintro (hw | ⟨v, hv, rfl⟩)
    · exact ⟨w, hw, .inl rfl⟩
    · exact ⟨v, hv, .inr rfl⟩
  · rintro ⟨v, hv, rfl | rfl⟩
    · exact .inl hv
    · exact .inr ⟨v, hv, rfl⟩

/-- The words of hexadecimal numbers. -/
theorem mem_hexadecimal : w ∈ Class.hexadecimal.language ↔
    ∃ v, (v ≠ [] ∧ ∀ c ∈ v, isHexDigit c = true) ∧ w = '0' :: 'x' :: v := by
  simp only [Class.language, oneOf, among_hexDigit, mem_word_mul, mem_plus_single]
  rfl

/-- The words of texts in quotes. -/
theorem mem_str : w ∈ Class.str.language ↔ ∃ v ∈ textRest, w = '"' :: v := by
  rw [Class.language, mem_word_mul]
  rfl

/-- The words of identifiers. -/
theorem mem_ident : w ∈ Class.ident.language ↔
    ∃ c v, isIdentStart c = true ∧ v ∈ identRest ∧ w = c :: v := by
  rw [Class.language, identStart, oneOf, among_identStart, mem_single_mul]

/-- The words of marks. -/
theorem mem_mark : w ∈ Class.mark.language ↔ ∃ m : Mark, w = [m.char] := by
  constructor
  · rintro ⟨c, hc, rfl⟩
    simp only [among, List.any_nil, Bool.false_or, List.contains_iff_mem, List.mem_cons,
      List.not_mem_nil, or_false] at hc
    rcases hc with rfl | rfl | rfl | rfl | rfl | rfl | rfl | rfl | rfl
    · exact ⟨.equals, rfl⟩
    · exact ⟨.leftParen, rfl⟩
    · exact ⟨.rightParen, rfl⟩
    · exact ⟨.leftBrace, rfl⟩
    · exact ⟨.rightBrace, rfl⟩
    · exact ⟨.leftBracket, rfl⟩
    · exact ⟨.rightBracket, rfl⟩
    · exact ⟨.comma, rfl⟩
    · exact ⟨.colon, rfl⟩
  · rintro ⟨m, rfl⟩
    exact ⟨m.char, by cases m <;> decide, rfl⟩

/-! ### Runs -/

/-- A run is made of characters with the property. -/
theorem runLength_spec (p : Char → Bool) (cs : List Char) :
    ∃ v more, cs = v ++ more ∧ v.length = runLength p cs ∧ ∀ c ∈ v, p c = true :=
  ⟨cs.takeWhile p, cs.dropWhile p, List.takeWhile_append_dropWhile.symm, rfl,
    List.all_eq_true.1 List.all_takeWhile⟩

/-- No characters with the property at the start are more than the run. -/
theorem length_le_runLength (h : ∀ c ∈ v, p c = true) (more : List Char) :
    v.length ≤ runLength p (v ++ more) := by
  rw [runLength, List.takeWhile_append_of_pos h, List.length_append]
  exact Nat.le_add_right _ _

/-! ### Identifiers -/

/-- The rest of an identifier is empty, or it goes on with a character of the same part or with a
dot and the start of another part. -/
theorem mem_identRest : w ∈ identRest ↔ w = [] ∨
    (∃ c v, isIdentChar c = true ∧ v ∈ identRest ∧ w = c :: v) ∨
      ∃ d v, isIdentStart d = true ∧ v ∈ identRest ∧ w = '.' :: d :: v := by
  obtain ⟨parts, hparts⟩ : ∃ l, l = ({['.']} * identStart * identChars)∗ := ⟨_, rfl⟩
  have hrest : identRest = identChars * parts := hparts ▸ rfl
  have hmore : parts = 1 + {['.']} * (identStart * identRest) := by
    rw [hrest, ← mul_assoc, ← mul_assoc, hparts, Language.one_add_self_mul_kstar_eq_kstar]
  have hchars : identChars = 1 + single isIdentChar * identChars := by
    rw [identChars, oneOf, among_identChar, Language.one_add_self_mul_kstar_eq_kstar]
  have heq : identRest =
      1 + {['.']} * (identStart * identRest) + single isIdentChar * identRest := by
    calc identRest = identChars * parts := hrest
      _ = (1 + single isIdentChar * identChars) * parts := by rw [← hchars]
      _ = parts + single isIdentChar * identRest := by rw [add_mul, one_mul, mul_assoc, hrest]
      _ = _ := by rw [← hmore]
  conv_lhs => rw [heq]
  simp only [Language.mem_add, Language.mem_one, mem_word_mul, identStart, oneOf,
    among_identStart, mem_single_mul]
  grind

/-- What is counted after the first character of an identifier may stand there. -/
theorem identTail_spec (cs : List Char) :
    ∃ v more, cs = v ++ more ∧ v.length = identTail cs ∧ v ∈ identRest := by
  fun_induction identTail cs with
  | case1 => exact ⟨[], [], rfl, rfl, mem_identRest.2 (.inl rfl)⟩
  | case2 c rest hc ih =>
      obtain ⟨v, more, rfl, hlength, hv⟩ := ih
      exact ⟨c :: v, more, rfl, congrArg (· + 1) hlength,
        mem_identRest.2 (.inr (.inl ⟨c, v, hc, hv, rfl⟩))⟩
  | case3 => exact ⟨[], _, rfl, rfl, mem_identRest.2 (.inl rfl)⟩
  | case4 d more hd hdot ih =>
      obtain ⟨v, more, rfl, hlength, hv⟩ := ih
      exact ⟨'.' :: d :: v, more, rfl, congrArg (· + 2) hlength,
        mem_identRest.2 (.inr (.inr ⟨d, v, hd, hv, rfl⟩))⟩
  | case5 => exact ⟨[], _, rfl, rfl, mem_identRest.2 (.inl rfl)⟩
  | case6 => exact ⟨[], _, rfl, rfl, mem_identRest.2 (.inl rfl)⟩

/-- Nothing that may stand after the first character of an identifier is more than what is
counted. -/
theorem length_le_identTail (hv : v ∈ identRest) (more : List Char) :
    v.length ≤ identTail (v ++ more) := by
  induction hlength : v.length using Nat.strongRecOn generalizing v with
  | ind n ih =>
      rcases mem_identRest.1 hv with rfl | ⟨c, u, hc, hu, rfl⟩ | ⟨d, u, hd, hu, rfl⟩
      · rw [← hlength]
        exact Nat.zero_le _
      · have hle := ih u.length (by simp [← hlength]) hu rfl
        rw [List.cons_append, identTail_cons hc, ← hlength, List.length_cons]
        omega
      · have hlt : u.length < n := by
          rw [← hlength, List.length_cons, List.length_cons]
          omega
        have hle := ih u.length hlt hu rfl
        rw [List.cons_append, List.cons_append, identTail_dot hd, ← hlength, List.length_cons,
          List.length_cons]
        omega

/-! ### Texts -/

/-- The rest of a text is the closing quote, or it goes on with a character that is neither a quote
nor a backslash, or with a backslash and a character that is no line feed. -/
theorem mem_textRest : w ∈ textRest ↔ w = ['"'] ∨
    (∃ c v, c ≠ '\\' ∧ c ≠ '"' ∧ v ∈ textRest ∧ w = c :: v) ∨
      ∃ d v, d ≠ '\n' ∧ v ∈ textRest ∧ w = '\\' :: d :: v := by
  obtain ⟨item, hitem⟩ : ∃ l, l = noneOf ['"', '\\'] + {['\\']} * noneOf ['\n'] := ⟨_, rfl⟩
  have hrest : textRest = item∗ * {['"']} := hitem ▸ rfl
  have heq : textRest = {['"']} + item * textRest := by
    calc textRest = (1 + item * item∗) * {['"']} := by
          rw [Language.one_add_self_mul_kstar_eq_kstar, hrest]
      _ = _ := by rw [add_mul, one_mul, mul_assoc, hrest]
  conv_lhs => rw [heq, hitem]
  simp only [add_mul, mul_assoc, Language.mem_add, mem_word_mul, noneOf, mem_single_mul]
  constructor
  · rintro (rfl | ⟨c, v, hc, hv, rfl⟩ | ⟨_, ⟨d, v, hd, hv, rfl⟩, rfl⟩)
    · exact .inl rfl
    · obtain ⟨hquote, hback⟩ : c ≠ '"' ∧ c ≠ '\\' := by simpa using hc
      exact .inr (.inl ⟨c, v, hback, hquote, hv, rfl⟩)
    · exact .inr (.inr ⟨d, v, by simpa using hd, hv, rfl⟩)
  · rintro (rfl | ⟨c, v, hback, hquote, hv, rfl⟩ | ⟨d, v, hd, hv, rfl⟩)
    · exact .inl rfl
    · exact .inr (.inl ⟨c, v, by simp [hback, hquote], hv, rfl⟩)
    · exact .inr (.inr ⟨_, ⟨d, v, by simpa using hd, hv, rfl⟩, rfl⟩)

/-- A text in quotes ends in a quote. -/
theorem exists_of_mem_textRest (h : v ∈ textRest) : ∃ inside, v = inside ++ ['"'] := by
  obtain ⟨inside, -, _, rfl, rfl⟩ := Language.mem_mul.1 h
  exact ⟨inside, rfl⟩

/-- What is counted after an opening quote completes a text. -/
theorem textTail_spec {n : Nat} (h : textTail cs = some n) :
    ∃ v more, cs = v ++ more ∧ v.length = n ∧ v ∈ textRest := by
  fun_induction textTail cs generalizing n with
  | case1 => cases h
  | case2 rest =>
      cases h
      exact ⟨['"'], rest, rfl, rfl, mem_textRest.2 (.inl rfl)⟩
  | case3 => cases h
  | case4 => cases h
  | case5 c more hc ih =>
      obtain ⟨m, hm, rfl⟩ := Option.map_eq_some_iff.1 h
      obtain ⟨v, rest, rfl, hlength, hv⟩ := ih hm
      exact ⟨'\\' :: c :: v, rest, rfl, congrArg (· + 2) hlength,
        mem_textRest.2 (.inr (.inr ⟨c, v, hc, hv, rfl⟩))⟩
  | case6 c rest hquote hback ih =>
      obtain ⟨m, hm, rfl⟩ := Option.map_eq_some_iff.1 h
      obtain ⟨v, more, rfl, hlength, hv⟩ := ih hm
      exact ⟨c :: v, more, rfl, congrArg (· + 1) hlength,
        mem_textRest.2 (.inr (.inl ⟨c, v, by simpa using hback, by simpa using hquote, hv, rfl⟩))⟩

/-- What completes a text is counted after the opening quote. -/
theorem textTail_of_mem (hv : v ∈ textRest) (more : List Char) :
    textTail (v ++ more) = some v.length := by
  induction hlength : v.length using Nat.strongRecOn generalizing v with
  | ind n ih =>
      rcases mem_textRest.1 hv with rfl | ⟨c, u, hback, hquote, hu, rfl⟩ | ⟨d, u, hd, hu, rfl⟩
      · rw [← hlength]
        rfl
      · have htail := ih u.length (by simp [← hlength]) hu rfl
        rw [List.cons_append, textTail_cons hback hquote, htail, ← hlength]
        rfl
      · have hlt : u.length < n := by
          rw [← hlength, List.length_cons, List.length_cons]
          omega
        have htail := ih u.length hlt hu rfl
        rw [List.cons_append, List.cons_append, textTail_backslash hd, htail, ← hlength]
        rfl

/-! ### What the lexer finds -/

/-- A match is kept exactly if it is not empty. -/
theorem nonempty_eq_some {k k' : Class} {m n : Nat} :
    nonempty k m = some (k', n) ↔ m ≠ 0 ∧ k = k' ∧ m = n := by
  rw [nonempty]
  split <;> simp_all

/-- A mark is told by its character. -/
theorem eq_char_of_ofChar? {m : Mark} (h : Mark.ofChar? c = some m) : c = m.char := by
  unfold Mark.ofChar? at h
  split at h <;> cases h <;> rfl

/-- Hexadecimal digits are counted after an `x` only. -/
theorem hexDigitsAfterX_spec (h : hexDigitsAfterX rest ≠ 0) :
    ∃ v more, rest = 'x' :: (v ++ more) ∧ v.length = hexDigitsAfterX rest ∧ v ≠ [] ∧
      ∀ c ∈ v, isHexDigit c = true := by
  fun_cases hexDigitsAfterX rest with
  | case1 rest =>
      obtain ⟨v, more, hrest, hlength, hv⟩ := runLength_spec isHexDigit rest
      refine ⟨v, more, congrArg _ hrest, hlength, ?_, hv⟩
      rintro rfl
      exact h hlength.symm
  | case2 => exact absurd (hexDigitsAfterX.eq_2 _ ‹_›) h

/-- What the lexer finds is a word of its class. -/
theorem scan_sound {k : Class} {n : Nat} (h : scan c rest = some (k, n)) :
    ∃ v more, rest = v ++ more ∧ v.length = n ∧ c :: v ∈ k.language := by
  have hrun : ∀ (p : Char → Bool) (k' : Class),
      (∀ v, v ≠ [] → (∀ d ∈ v, p d = true) → c :: v ∈ k'.language) →
      nonempty k' (runLength p rest) = some (k, n) →
      ∃ v more, rest = v ++ more ∧ v.length = n ∧ c :: v ∈ k.language := by
    intro p k' hword hscan
    obtain ⟨hne, rfl, rfl⟩ := nonempty_eq_some.1 hscan
    obtain ⟨v, more, hrest, hlength, hv⟩ := runLength_spec p rest
    refine ⟨v, more, hrest, hlength, hword v ?_ hv⟩
    rintro rfl
    exact hne hlength.symm
  -- One case for each class, in the order in which the first characters are tested.
  unfold scan at h
  split at h
  · rename_i hc
    cases h
    obtain ⟨v, more, hrest, hlength, hv⟩ := runLength_spec isSpace rest
    exact ⟨v, more, hrest, hlength, mem_blank.2 ⟨by simp, List.forall_mem_cons.2 ⟨hc, hv⟩⟩⟩
  split at h
  · rename_i hc
    split at h
    · rename_i hhead
      obtain ⟨rest, rfl⟩ := List.head?_eq_some_iff.1 hhead
      cases h
      obtain ⟨v, more, rfl, hlength, hv⟩ := runLength_spec (· != '\n') rest
      exact ⟨'/' :: v, more, rfl, congrArg (· + 1) hlength, mem_comment.2 ⟨v, hv, by rw [hc]⟩⟩
    · cases h
  split at h
  · rename_i hc
    exact hrun _ _ (fun v hne hv => hc ▸ mem_value.2 ⟨v, ⟨hne, hv⟩, rfl⟩) h
  split at h
  · rename_i hc
    exact hrun _ _ (fun v hne hv => hc ▸ mem_symbol.2 ⟨v, ⟨hne, hv⟩, rfl⟩) h
  split at h
  · rename_i hc
    exact hrun _ _ (fun v hne hv => hc ▸ mem_decimal.2 ⟨v, ⟨hne, hv⟩, .inr rfl⟩) h
  split at h
  · rename_i hc
    split at h
    · rename_i hhex
      cases h
      obtain ⟨v, more, hrest, hlength, hv⟩ := hexDigitsAfterX_spec hhex.2
      exact ⟨'x' :: v, more, hrest, congrArg (· + 1) hlength,
        mem_hexadecimal.2 ⟨v, hv, by rw [hhex.1]⟩⟩
    · cases h
      obtain ⟨v, more, hrest, hlength, hv⟩ := runLength_spec Char.isDigit rest
      exact ⟨v, more, hrest, hlength,
        mem_decimal.2 ⟨c :: v, ⟨by simp, List.forall_mem_cons.2 ⟨hc, hv⟩⟩, .inl rfl⟩⟩
  split at h
  · rename_i hc
    obtain ⟨m, hm, heq⟩ := Option.map_eq_some_iff.1 h
    cases heq
    obtain ⟨v, more, hrest, hlength, hv⟩ := textTail_spec hm
    exact ⟨v, more, hrest, hlength, mem_str.2 ⟨v, hv, by rw [hc]⟩⟩
  split at h
  · rename_i hc
    cases h
    obtain ⟨v, more, hrest, hlength, hv⟩ := identTail_spec rest
    exact ⟨v, more, hrest, hlength, mem_ident.2 ⟨c, v, hc, hv, rfl⟩⟩
  · obtain ⟨m, hm, heq⟩ := Option.map_eq_some_iff.1 h
    cases heq
    exact ⟨[], rest, rfl, rfl, mem_mark.2 ⟨m, by rw [eq_char_of_ofChar? hm]⟩⟩

/-- No word of a class that starts here is longer than what the lexer finds, and none of another
class is as long. -/
theorem scan_complete {k : Class} (h : c :: v ∈ k.language) (more : List Char) :
    ∃ k' n, scan c (v ++ more) = some (k', n) ∧ v.length ≤ n ∧ (v.length = n → k = k') := by
  have hpos : ∀ {p : Char → Bool} {u : List Char}, u ≠ [] → (∀ d ∈ u, p d = true) →
      u.length ≤ runLength p (u ++ more) ∧ runLength p (u ++ more) ≠ 0 := by
    intro p u hne hu
    have hle := length_le_runLength hu more
    have := List.length_pos_iff.2 hne
    exact ⟨hle, by omega⟩
  cases k with
  | blank =>
      obtain ⟨-, hall⟩ := mem_blank.1 h
      obtain ⟨hc, hv⟩ := List.forall_mem_cons.1 hall
      exact ⟨.blank, _, scan_blank hc, length_le_runLength hv more, fun _ => rfl⟩
  | comment =>
      obtain ⟨u, hu, heq⟩ := mem_comment.1 h
      cases heq
      have hline : ∀ d ∈ '/' :: u, (d != '\n') = true := List.forall_mem_cons.2 ⟨by decide, hu⟩
      exact ⟨.comment, _, rfl, length_le_runLength hline more, fun _ => rfl⟩
  | value =>
      obtain ⟨u, ⟨hne, hu⟩, heq⟩ := mem_value.1 h
      cases heq
      obtain ⟨hle, hrun⟩ := hpos hne hu
      exact ⟨.value, _, (scan_percent _).trans (nonempty_of_ne hrun), hle, fun _ => rfl⟩
  | symbol =>
      obtain ⟨u, ⟨hne, hu⟩, heq⟩ := mem_symbol.1 h
      cases heq
      obtain ⟨hle, hrun⟩ := hpos hne hu
      exact ⟨.symbol, _, (scan_at _).trans (nonempty_of_ne hrun), hle, fun _ => rfl⟩
  | decimal =>
      obtain ⟨u, ⟨hne, hu⟩, rfl | heq⟩ := mem_decimal.1 h
      · obtain ⟨hc, hv⟩ := List.forall_mem_cons.1 hu
        rw [scan_of_isDigit hc]
        split
        · -- Only the zero before the `x` is a decimal integer.
          rename_i hhex
          obtain ⟨digits, rest, hrest, -⟩ := hexDigitsAfterX_spec hhex.2
          have hnil : v = [] := by
            cases v with
            | nil => rfl
            | cons d v =>
                obtain ⟨rfl, -⟩ := List.cons.inj hrest
                exact absurd (hv 'x' (by simp)) (by decide)
          subst hnil
          exact ⟨_, _, rfl, Nat.zero_le _, fun hlength => by simp at hlength⟩
        · exact ⟨_, _, rfl, length_le_runLength hv more, fun _ => rfl⟩
      · cases heq
        obtain ⟨hle, hrun⟩ := hpos hne hu
        exact ⟨.decimal, _, (scan_minus _).trans (nonempty_of_ne hrun), hle, fun _ => rfl⟩
  | hexadecimal =>
      obtain ⟨u, ⟨hne, hu⟩, heq⟩ := mem_hexadecimal.1 h
      cases heq
      obtain ⟨hle, hrun⟩ := hpos hne hu
      refine ⟨.hexadecimal, _, (scan_of_isDigit rfl).trans (if_pos ⟨rfl, hrun⟩), ?_, fun _ => rfl⟩
      exact Nat.succ_le_succ hle
  | str =>
      obtain ⟨u, hu, heq⟩ := mem_str.1 h
      cases heq
      have htail := textTail_of_mem hu more
      exact ⟨.str, _, congrArg (Option.map (Class.str, ·)) htail, le_rfl, fun _ => rfl⟩
  | ident =>
      obtain ⟨d, u, hd, hu, heq⟩ := mem_ident.1 h
      cases heq
      exact ⟨.ident, _, scan_of_isIdentStart hd, length_le_identTail hu more, fun _ => rfl⟩
  | mark =>
      obtain ⟨m, heq⟩ := mem_mark.1 h
      cases heq
      exact ⟨.mark, 0, by cases m <;> rfl, le_rfl, fun _ => rfl⟩

/-- No class has the empty word. -/
theorem ne_nil_of_mem_language {k : Class} (h : w ∈ k.language) : w ≠ [] := by
  rintro rfl
  cases k with
  | blank => exact (mem_blank.1 h).1 rfl
  | comment => simpa using mem_comment.1 h
  | value => simpa using mem_value.1 h
  | symbol => simpa using mem_symbol.1 h
  | decimal => simpa using mem_decimal.1 h
  | hexadecimal => simpa using mem_hexadecimal.1 h
  | str => simpa using mem_str.1 h
  | ident => simpa using mem_ident.1 h
  | mark => simpa using mem_mark.1 h

/-- No word is in two classes, so it makes no difference in which order they are tried. -/
theorem eq_of_mem_language {k k' : Class} (h : w ∈ k.language) (h' : w ∈ k'.language) :
    k = k' := by
  obtain ⟨c, v, rfl⟩ := List.exists_cons_of_ne_nil (ne_nil_of_mem_language h)
  obtain ⟨found, n, hscan, hle, htie⟩ := scan_complete h []
  obtain ⟨_, _, hscan', -, htie'⟩ := scan_complete h' []
  rw [hscan] at hscan'
  cases hscan'
  obtain ⟨u, more, hv, rfl, -⟩ := scan_sound hscan
  have hlength : v.length = u.length := by
    have := congrArg List.length hv
    simp only [List.append_nil, List.length_append] at this
    omega
  rw [htie hlength, htie' hlength]

/-! ### Longest lexemes -/

/-- A word of a class. -/
structure Lexeme where
  kind : Class
  text : List Char

/-- A lexeme is the longest word of any class that stands at the start of some characters. -/
structure Lexeme.IsLongest (l : Lexeme) (cs : List Char) : Prop where
  matched : l.text ∈ l.kind.language
  stands : l.text <+: cs
  longest : ∀ (k : Class) (w : List Char), w ∈ k.language → w <+: cs → w.length ≤ l.text.length

/-- The longest lexeme is what the lexer finds. -/
theorem isLongest_iff {l : Lexeme} : l.IsLongest (c :: rest) ↔
    ∃ n, scan c rest = some (l.kind, n) ∧ l.text = c :: rest.take n := by
  constructor
  · rintro ⟨hmatched, hstands, hlongest⟩
    obtain ⟨u, hu⟩ : ∃ u, l.text = c :: u := by
      rcases List.prefix_cons_iff.1 hstands with hnil | ⟨u, hu, -⟩
      · exact absurd hnil (ne_nil_of_mem_language hmatched)
      · exact ⟨u, hu⟩
    rw [hu] at hmatched hstands hlongest
    obtain ⟨more, rfl⟩ := List.cons_prefix_cons.1 hstands |>.2
    obtain ⟨k, n, hscan, hle, htie⟩ := scan_complete hmatched more
    obtain ⟨v, rest, hrest, rfl, hv⟩ := scan_sound hscan
    have hlength := hlongest k (c :: v) hv (hrest ▸ by simp)
    simp only [List.length_cons, Nat.add_le_add_iff_right] at hlength
    have heq : u.length = v.length := by omega
    exact ⟨_, htie heq ▸ hscan, by rw [hu, ← heq, List.take_left]⟩
  · rintro ⟨n, hscan, htext⟩
    obtain ⟨v, more, rfl, rfl, hv⟩ := scan_sound hscan
    rw [List.take_left] at htext
    refine ⟨htext ▸ hv, htext ▸ by simp, fun k w hw hstands => ?_⟩
    rcases List.prefix_cons_iff.1 hstands with rfl | ⟨u, rfl, more', hmore⟩
    · exact Nat.zero_le _
    · obtain ⟨k', n, hscan', hle, -⟩ := scan_complete hw more'
      rw [hmore, hscan] at hscan'
      cases hscan'
      rw [htext, List.length_cons, List.length_cons]
      omega

/-- The lexer finds nothing exactly where no class has a word. -/
theorem scan_eq_none_iff : scan c rest = none ↔
    ∀ (k : Class) (w : List Char), w ∈ k.language → ¬w <+: c :: rest := by
  constructor
  · intro hnone k w hw hstands
    rcases List.prefix_cons_iff.1 hstands with rfl | ⟨u, rfl, more, rfl⟩
    · exact ne_nil_of_mem_language hw rfl
    · obtain ⟨k', n, hscan, -⟩ := scan_complete hw more
      rw [hnone] at hscan
      cases hscan
  · intro h
    rcases hscan : scan c rest with _ | ⟨k, n⟩
    · rfl
    · obtain ⟨v, more, rfl, -, hv⟩ := scan_sound hscan
      exact absurd (by simp) (h k (c :: v) hv)

/-- There is only one longest lexeme. -/
theorem Lexeme.IsLongest.unique {l l' : Lexeme} (h : l.IsLongest cs) (h' : l'.IsLongest cs) :
    l = l' := by
  have hlength : l.text.length = l'.text.length :=
    Nat.le_antisymm (h'.longest _ _ h.matched h.stands) (h.longest _ _ h'.matched h'.stands)
  have htext : l.text = l'.text :=
    (List.prefix_of_prefix_length_le h.stands h'.stands hlength.le).eq_of_length hlength
  have hkind : l.kind = l'.kind := eq_of_mem_language h.matched (htext ▸ h'.matched)
  cases l
  cases l'
  rw [Lexeme.mk.injEq]
  exact ⟨hkind, htext⟩

/-! ### The tokens of lexemes -/

/-- The number that digits stand for by their places, the last one being the units. -/
def placeValue (base : Nat) (digits : List Char) : Nat :=
  Nat.ofDigits base (digits.reverse.map digitValue)

/-- The integer that a lexeme stands for, if its class is one of integers. -/
def Lexeme.integer? (l : Lexeme) : Option Int :=
  match l.kind with
  | .decimal => some (if l.text.head? = some '-' then -(placeValue 10 l.text.tail : Int)
      else placeValue 10 l.text)
  | .hexadecimal => some (placeValue 16 (l.text.drop 2))
  | _ => none

/-- A lexeme that is no integer out of range. -/
def Lexeme.Fits (l : Lexeme) : Prop :=
  ∀ n ∈ l.integer?, Integer.Fits n

/-- The token that a lexeme stands for. -/
inductive Lexeme.Denotes : Lexeme → Token → Prop
  | value (name : String) : Denotes ⟨.value, '%' :: name.toList⟩ (.value name)
  | symbol (name : String) : Denotes ⟨.symbol, '@' :: name.toList⟩ (.symbol name)
  | int {l : Lexeme} {n : Int} : l.integer? = some n → Integer.Fits n → Denotes l (.int n)
  | str (inside : List Char) :
      Denotes ⟨.str, '"' :: (inside ++ ['"'])⟩ (.str (String.ofList (unescape inside)))
  | ident (name : String) : Denotes ⟨.ident, name.toList⟩ (.ident name)
  | mark (m : Mark) : Denotes ⟨.mark, [m.char]⟩ (.mark m)

/-- A numeral is the sum of its digits at their places. -/
theorem numeral_eq_placeValue (base : Nat) (digits : List Char) :
    numeral base digits = placeValue base digits := by
  rw [placeValue, Nat.ofDigits_eq_foldr, List.foldr_map, List.foldr_reverse, numeral]
  congr 1
  funext n c
  rw [Nat.mul_comm, Nat.add_comm]
  rfl

/-- Integers are read by their places. -/
theorem read_of_integer? {l : Lexeme} {n : Int} (h : l.integer? = some n) :
    l.kind.read l.text = intToken n := by
  obtain ⟨k, text⟩ := l
  unfold Lexeme.integer? at h
  split at h
  · rename_i hkind
    cases hkind
    cases h
    cases text with
    | nil => rfl
    | cons c digits =>
        rw [read_decimal, numeral_eq_placeValue, numeral_eq_placeValue]
        simp only [List.head?_cons, Option.some.injEq, List.tail_cons]
        split <;> rfl
  · rename_i hkind
    cases hkind
    cases h
    rw [← numeral_eq_placeValue]
    rfl
  · cases h

/-- What a lexeme denotes is what is read from it. -/
theorem Lexeme.Denotes.read {l : Lexeme} {t : Token} (h : l.Denotes t) :
    l.kind.read l.text = some t := by
  cases h with
  | value name => rw [read_value, List.tail_cons, String.ofList_toList]
  | symbol name => rw [read_symbol, List.tail_cons, String.ofList_toList]
  | int hn hfits => rw [read_of_integer? hn, intToken, if_pos hfits]
  | str inside => rw [read_str, List.tail_cons, List.dropLast_concat]
  | ident name => rw [read_ident, String.ofList_toList]
  | mark m => cases m <;> rfl

/-- A lexeme that is read fits. -/
theorem fits_of_read {l : Lexeme} {t : Token} (h : l.kind.read l.text = some t) : l.Fits := by
  intro n hn
  rw [read_of_integer? hn, intToken] at h
  split at h
  · assumption
  · cases h

/-- A lexeme that is read is not skipped. -/
theorem isSkipped_of_read {l : Lexeme} {t : Token} (h : l.kind.read l.text = some t) :
    l.kind.isSkipped = false := by
  cases hkind : l.kind with
  | blank => rw [hkind] at h; cases h
  | comment => rw [hkind] at h; cases h
  | _ => rfl

/-- A lexeme that is skipped fits. -/
theorem fits_of_isSkipped {l : Lexeme} (h : l.kind.isSkipped = true) : l.Fits := by
  intro n hn
  unfold Lexeme.integer? at hn
  cases hkind : l.kind with
  | blank => rw [hkind] at hn; cases hn
  | comment => rw [hkind] at hn; cases hn
  | _ => rw [hkind] at h; cases h

/-- A word that is kept and not out of range denotes a token. -/
theorem Lexeme.Fits.exists_denotes {l : Lexeme} (hfits : l.Fits) (h : l.text ∈ l.kind.language)
    (hkept : l.kind.isSkipped = false) : ∃ t, l.Denotes t := by
  obtain ⟨k, text⟩ := l
  have hint : ∀ n, Lexeme.integer? ⟨k, text⟩ = some n → ∃ t, Lexeme.Denotes ⟨k, text⟩ t :=
    fun n hn => ⟨_, .int hn (hfits n hn)⟩
  cases k with
  | blank => cases hkept
  | comment => cases hkept
  | value =>
      obtain ⟨v, -, rfl⟩ := mem_value.1 h
      exact ⟨_, by simpa using Lexeme.Denotes.value (String.ofList v)⟩
  | symbol =>
      obtain ⟨v, -, rfl⟩ := mem_symbol.1 h
      exact ⟨_, by simpa using Lexeme.Denotes.symbol (String.ofList v)⟩
  | decimal => exact hint _ rfl
  | hexadecimal => exact hint _ rfl
  | str =>
      obtain ⟨v, hv, rfl⟩ := mem_str.1 h
      obtain ⟨inside, rfl⟩ := exists_of_mem_textRest hv
      exact ⟨_, .str inside⟩
  | ident => exact ⟨_, by simpa using Lexeme.Denotes.ident (String.ofList text)⟩
  | mark =>
      obtain ⟨m, rfl⟩ := mem_mark.1 h
      exact ⟨_, .mark m⟩

/-- What the lexer reads of a word is the token that it denotes. -/
theorem read_eq_some_iff {l : Lexeme} {t : Token} (h : l.text ∈ l.kind.language) :
    l.kind.read l.text = some t ↔ l.Denotes t := by
  constructor
  · intro hread
    obtain ⟨t', ht'⟩ := (fits_of_read hread).exists_denotes h (isSkipped_of_read hread)
    rw [ht'.read, Option.some.injEq] at hread
    exact hread ▸ ht'
  · exact Lexeme.Denotes.read

/-! ### Cutting -/

/-- Characters are cut into lexemes from left to right, each the longest at its place, up to some
rest. -/
inductive Cuts (rest : List Char) : List Char → List Lexeme → Prop
  | stop : Cuts rest rest []
  | lexeme {l : Lexeme} {cs : List Char} {ls : List Lexeme} : l.IsLongest (l.text ++ cs) →
      Cuts rest cs ls → Cuts rest (l.text ++ cs) (l :: ls)

/-- The characters of lexemes. -/
def chars (ls : List Lexeme) : List Char :=
  ls.flatMap Lexeme.text

/-- The tokens of lexemes, the first of which starts at byte `offset`: every lexeme that is not
dropped stands for one, and covers the bytes of its characters. -/
inductive Yields : Nat → List Lexeme → List Located → Prop
  | nil {offset : Nat} : Yields offset [] []
  | skip {offset : Nat} {l : Lexeme} {ls : List Lexeme} {ts : List Located} :
      l.kind.isSkipped = true → Yields (offset + byteLength l.text) ls ts →
      Yields offset (l :: ls) ts
  | token {offset : Nat} {l : Lexeme} {ls : List Lexeme} {t : Token} {ts : List Located} :
      l.Denotes t → Yields (offset + byteLength l.text) ls ts →
      Yields offset (l :: ls) (⟨t, offset, offset + byteLength l.text⟩ :: ts)

/-- No token starts here: there are characters, and either no class has a word at their start, or
the longest one is an integer out of range. -/
def IsStuck (cs : List Char) : Prop :=
  cs ≠ [] ∧ ((∀ (k : Class) (w : List Char), w ∈ k.language → ¬w <+: cs) ∨
    ∃ l : Lexeme, l.IsLongest cs ∧ ¬l.Fits)

/-- Bytes of two texts in a row. -/
theorem byteLength_append (cs cs' : List Char) :
    byteLength (cs ++ cs') = byteLength cs + byteLength cs' := by
  induction cs with
  | nil => rw [List.nil_append, byteLength, Nat.zero_add]
  | cons c cs ih => rw [List.cons_append, byteLength, byteLength, ih, Nat.add_assoc]

/-- Bytes of one more lexeme. -/
theorem byteLength_chars_cons (l : Lexeme) (ls : List Lexeme) :
    byteLength (chars (l :: ls)) = byteLength l.text + byteLength (chars ls) := by
  rw [chars, List.flatMap_cons, byteLength_append, chars]

/-- What the lexer finds is cut off. -/
theorem Cuts.of_scan {k : Class} {n : Nat} {stop : List Char} {ls : List Lexeme}
    (hscan : scan c rest = some (k, n)) (h : Cuts stop (rest.drop n) ls) :
    Cuts stop (c :: rest) (⟨k, c :: rest.take n⟩ :: ls) := by
  have hrest : c :: rest = c :: rest.take n ++ rest.drop n := by
    rw [List.cons_append, List.take_append_drop]
  have hlongest : Lexeme.IsLongest ⟨k, c :: rest.take n⟩ (c :: rest) :=
    isLongest_iff.2 ⟨n, hscan, rfl⟩
  rw [hrest] at hlongest ⊢
  exact .lexeme hlongest h

/-- The lexer cuts the characters into longest lexemes without integers out of range. Either this is
all of them, and their tokens are the result, or it stops where no token starts. -/
theorem tokensFrom_spec (offset : Nat) (cs : List Char) :
    ∃ ls rest, Cuts rest cs ls ∧ (∀ l ∈ ls, l.Fits) ∧
      (rest = [] ∧ (∃ ts, tokensFrom offset cs = .ok ts ∧ Yields offset ls ts) ∨
        IsStuck rest ∧ ∃ e, tokensFrom offset cs = .error e ∧
          e.position = offset + byteLength (chars ls)) := by
  fun_induction tokensFrom offset cs with
  | case1 offset => exact ⟨[], [], .stop, by simp, .inl ⟨rfl, [], rfl, .nil⟩⟩
  | case2 offset c rest hscan =>
      have hstuck : IsStuck (c :: rest) := ⟨by simp, .inl (scan_eq_none_iff.1 hscan)⟩
      exact ⟨[], c :: rest, .stop, by simp, .inr ⟨hstuck, _, rfl, rfl⟩⟩
  | case3 offset c rest k n hscan lexeme stop hskip ih =>
      obtain ⟨ls, more, hcuts, hfits, h⟩ := ih
      have hlexeme : Lexeme.Fits ⟨k, lexeme⟩ := fits_of_isSkipped hskip
      refine ⟨⟨k, lexeme⟩ :: ls, more, .of_scan hscan hcuts,
        List.forall_mem_cons.2 ⟨hlexeme, hfits⟩, ?_⟩
      rcases h with ⟨hmore, ts, hts, hyields⟩ | ⟨hstuck, e, he, hposition⟩
      · exact .inl ⟨hmore, ts, hts, .skip hskip hyields⟩
      · refine .inr ⟨hstuck, e, he, ?_⟩
        rw [hposition, byteLength_chars_cons, Nat.add_assoc]
  | case4 offset c rest k n hscan lexeme hskip hread =>
      have hlongest : Lexeme.IsLongest ⟨k, lexeme⟩ (c :: rest) := isLongest_iff.2 ⟨n, hscan, rfl⟩
      have hover : ¬Lexeme.Fits ⟨k, lexeme⟩ := by
        intro hfits
        obtain ⟨t, ht⟩ := hfits.exists_denotes hlongest.matched (by simpa using hskip)
        exact absurd (hread.symm.trans ht.read) (by simp)
      have hstuck : IsStuck (c :: rest) := ⟨by simp, .inr ⟨_, hlongest, hover⟩⟩
      exact ⟨[], c :: rest, .stop, by simp, .inr ⟨hstuck, _, rfl, rfl⟩⟩
  | case5 offset c rest k n hscan lexeme stop hskip t hread ih =>
      obtain ⟨ls, more, hcuts, hfits, h⟩ := ih
      have hlongest : Lexeme.IsLongest ⟨k, lexeme⟩ (c :: rest) := isLongest_iff.2 ⟨n, hscan, rfl⟩
      have hdenotes : Lexeme.Denotes ⟨k, lexeme⟩ t := (read_eq_some_iff hlongest.matched).1 hread
      refine ⟨⟨k, lexeme⟩ :: ls, more, .of_scan hscan hcuts,
        List.forall_mem_cons.2 ⟨fits_of_read hread, hfits⟩, ?_⟩
      rcases h with ⟨hmore, ts, hts, hyields⟩ | ⟨hstuck, e, he, hposition⟩
      · exact .inl ⟨hmore, _, by rw [hts]; rfl, .token hdenotes hyields⟩
      · refine .inr ⟨hstuck, e, by rw [he]; rfl, ?_⟩
        rw [hposition, byteLength_chars_cons, Nat.add_assoc]

/-- The places where the lexer stops: the end, or where no token starts. -/
def IsEnd (cs : List Char) : Prop :=
  cs = [] ∨ IsStuck cs

/-- Where the lexer stops no lexeme is cut off that is not out of range. -/
theorem IsEnd.not_isLongest {l : Lexeme} (h : IsEnd cs) (hfits : l.Fits) : ¬l.IsLongest cs := by
  intro hl
  rcases h with rfl | ⟨-, hnone | ⟨l', hl', hover⟩⟩
  · exact ne_nil_of_mem_language hl.matched (List.prefix_nil.1 hl.stands)
  · exact hnone _ _ hl.matched hl.stands
  · exact hover (hl.unique hl' ▸ hfits)

/-- There is one way to cut characters up to a place where the lexer stops. -/
theorem Cuts.unique {rest' : List Char} {ls ls' : List Lexeme} (h : Cuts rest cs ls)
    (hfits : ∀ l ∈ ls, l.Fits) (hend : IsEnd rest) (h' : Cuts rest' cs ls')
    (hfits' : ∀ l ∈ ls', l.Fits) (hend' : IsEnd rest') : ls = ls' ∧ rest = rest' := by
  induction h generalizing ls' with
  | stop =>
      cases h' with
      | stop => exact ⟨rfl, rfl⟩
      | lexeme hl _ => exact absurd hl (hend.not_isLongest (hfits' _ (by simp)))
  | @lexeme l cs ls hl hcuts ih =>
      generalize hcs : l.text ++ cs = all at h' hl
      cases h' with
      | stop => exact absurd hl (hend'.not_isLongest (hfits _ (by simp)))
      | @lexeme l' cs' ls' hl' hcuts' =>
          obtain rfl := hl.unique hl'
          obtain rfl := List.append_cancel_left hcs
          obtain ⟨rfl, hrest⟩ := ih (fun l h => hfits l (by simp [h])) hcuts'
            fun l h => hfits' l (by simp [h])
          exact ⟨rfl, hrest⟩

/-- Every lexeme of a cut that yields tokens fits. -/
theorem Yields.fits {offset : Nat} {ls : List Lexeme} {ts : List Located}
    (h : Yields offset ls ts) : ∀ l ∈ ls, l.Fits := by
  induction h with
  | nil => simp
  | skip hskip _ ih => exact List.forall_mem_cons.2 ⟨fits_of_isSkipped hskip, ih⟩
  | token hdenotes _ ih => exact List.forall_mem_cons.2 ⟨fits_of_read hdenotes.read, ih⟩

/-- Lexemes yield one list of tokens. -/
theorem Yields.unique {offset : Nat} {ls : List Lexeme} {ts ts' : List Located}
    (h : Yields offset ls ts) (h' : Yields offset ls ts') : ts = ts' := by
  have hkept : ∀ {l : Lexeme} {t : Token}, l.Denotes t → ¬l.kind.isSkipped = true := by
    intro l t hdenotes
    simp [isSkipped_of_read hdenotes.read]
  induction h generalizing ts' with
  | nil =>
      cases h'
      rfl
  | skip hskip _ ih =>
      cases h' with
      | skip _ hyields => exact ih hyields
      | token hdenotes _ => exact absurd hskip (hkept hdenotes)
  | token hdenotes _ ih =>
      cases h' with
      | skip hskip _ => exact absurd hskip (hkept hdenotes)
      | token hdenotes' hyields =>
          have ht := hdenotes.read.symm.trans hdenotes'.read
          rw [Option.some.injEq] at ht
          rw [ht, ih hyields]

/-! ### The bytes that tokens cover -/

/-- What stands between tokens: blanks and comments. -/
def gap : Language Char :=
  (Class.blank.language + Class.comment.language)∗

/-- Tokens cover parts of some characters, the first of which is at byte `offset`: no part is empty,
each lies behind the one before, and between them stand blanks and comments only. -/
inductive Spaced : Nat → List Char → List Located → Prop
  | nil {offset : Nat} {space : List Char} : space ∈ gap → Spaced offset space []
  | cons {offset : Nat} {space text rest : List Char} {t : Located} {ts : List Located} :
      space ∈ gap → text ≠ [] → t.start = offset + byteLength space →
      t.stop = t.start + byteLength text → Spaced t.stop rest ts →
      Spaced offset (space ++ (text ++ rest)) (t :: ts)

/-- Blanks and comments may stand in front. -/
theorem Spaced.skip {offset : Nat} {ts : List Located}
    (hw : w ∈ Class.blank.language + Class.comment.language)
    (h : Spaced (offset + byteLength w) cs ts) : Spaced offset (w ++ cs) ts := by
  have hgap : ∀ {space : List Char}, space ∈ gap → w ++ space ∈ gap := fun hspace =>
    mem_kstar_iff.2 (.inr (Language.append_mem_mul hw hspace))
  cases h with
  | nil hspace => exact .nil (hgap hspace)
  | cons hspace htext hstart hstop hrest =>
      rw [← List.append_assoc]
      exact .cons (hgap hspace) htext (by rw [hstart, byteLength_append, Nat.add_assoc]) hstop hrest

/-- The tokens of words cover the words that are kept. -/
theorem Yields.spaced {offset : Nat} {ls : List Lexeme} {ts : List Located}
    (h : Yields offset ls ts) (hls : ∀ l ∈ ls, l.text ∈ l.kind.language) :
    Spaced offset (chars ls) ts := by
  induction h with
  | nil => exact .nil (Language.nil_mem_kstar _)
  | @skip offset l ls ts hskip _ ih =>
      obtain ⟨hl, hls⟩ := List.forall_mem_cons.1 hls
      refine .skip ?_ (ih hls)
      obtain ⟨k, text⟩ := l
      cases k with
      | blank => exact .inl hl
      | comment => exact .inr hl
      | _ => cases hskip
  | token _ _ ih =>
      obtain ⟨hl, hls⟩ := List.forall_mem_cons.1 hls
      exact .cons (Language.nil_mem_kstar _) (ne_nil_of_mem_language hl) rfl rfl (ih hls)

/-- A text that is not empty has bytes. -/
theorem byteLength_pos (h : w ≠ []) : 0 < byteLength w := by
  cases w with
  | nil => exact absurd rfl h
  | cons c w => exact Nat.add_pos_left (Char.utf8Size_pos c) _

/-- Tokens cover at least a byte each, and the first of them starts no earlier than the
characters. -/
theorem Spaced.bounds {offset : Nat} {ts : List Located} (h : Spaced offset cs ts) :
    ∀ t ∈ ts, offset ≤ t.start ∧ t.start < t.stop := by
  induction h with
  | nil => simp
  | @cons offset space text rest t ts _ htext hstart hstop _ ih =>
      have := byteLength_pos htext
      refine List.forall_mem_cons.2 ⟨by omega, fun u hu => ?_⟩
      obtain ⟨hle, hlt⟩ := ih u hu
      omega

/-- Each token ends before the next one starts. -/
theorem Spaced.pairwise {offset : Nat} {ts : List Located} (h : Spaced offset cs ts) :
    ts.Pairwise fun t u => t.stop ≤ u.start := by
  induction h with
  | nil => exact .nil
  | cons _ _ _ _ hrest ih => exact .cons (fun u hu => (hrest.bounds u hu).1) ih

/-- The size of a string is that of its characters. -/
theorem utf8ByteSize_ofList (cs : List Char) :
    (String.ofList cs).utf8ByteSize = byteLength cs := by
  induction cs with
  | nil => rfl
  | cons c cs ih =>
      rw [← List.singleton_append, String.ofList_append, String.utf8ByteSize_append, ih,
        ← String.singleton_eq_ofList, String.utf8ByteSize_singleton]
      rfl

/-- The bytes of a beginning end at a boundary of characters. -/
theorem isValid_byteLength (before after : List Char) :
    (⟨byteLength before⟩ : String.Pos.Raw).IsValid (String.ofList (before ++ after)) := by
  refine String.Pos.Raw.isValid_iff_exists_append.2
    ⟨String.ofList before, String.ofList after, String.ofList_append, ?_⟩
  rw [← utf8ByteSize_ofList]
  rfl

/-- Tokens start and end between characters. -/
theorem Spaced.isValid {offset : Nat} {ts : List Located} (h : Spaced offset cs ts)
    (before : List Char) (hbefore : byteLength before = offset) :
    ∀ t ∈ ts, (⟨t.start⟩ : String.Pos.Raw).IsValid (String.ofList (before ++ cs)) ∧
      (⟨t.stop⟩ : String.Pos.Raw).IsValid (String.ofList (before ++ cs)) := by
  induction h generalizing before with
  | nil => simp
  | @cons offset space text rest t ts _ _ hstart hstop _ ih =>
      have hspace : byteLength (before ++ space) = t.start := by
        rw [byteLength_append, hbefore, hstart]
      have htext : byteLength (before ++ space ++ text) = t.stop := by
        rw [byteLength_append, hspace, hstop]
      have hassoc : before ++ (space ++ (text ++ rest)) = before ++ space ++ text ++ rest := by
        simp
      rw [hassoc]
      refine List.forall_mem_cons.2 ⟨⟨?_, ?_⟩, ih _ htext⟩
      · rw [← hspace, List.append_assoc _ text]
        exact isValid_byteLength _ _
      · rw [← htext]
        exact isValid_byteLength _ _

/-! ### Sources -/

/-- A cut gives back the text, with every piece a word of its class. -/
theorem Cuts.matched {ls : List Lexeme} (h : Cuts rest cs ls) :
    cs = chars ls ++ rest ∧ ∀ l ∈ ls, l.text ∈ l.kind.language := by
  induction h with
  | stop => exact ⟨rfl, by simp⟩
  | lexeme hl _ ih =>
      obtain ⟨hcs, hls⟩ := ih
      refine ⟨?_, List.forall_mem_cons.2 ⟨hl.matched, hls⟩⟩
      rw [chars, List.flatMap_cons, List.append_assoc, hcs, chars]

/-- A source is read as some tokens if it is cut into lexemes up to its end and these yield them. -/
theorem tokenize_eq_ok_iff {source : String} {ts : List Located} : tokenize source = .ok ts ↔
    ∃ ls, Cuts [] source.toList ls ∧ Yields 0 ls ts := by
  obtain ⟨ls, rest, hcuts, hfits, h⟩ := tokensFrom_spec 0 source.toList
  have hend : IsEnd rest := h.imp And.left And.left
  constructor
  · intro hts
    rcases h with ⟨rfl, ts', hts', hyields⟩ | ⟨-, e, he, -⟩
    · obtain rfl : ts' = ts := by simpa using hts'.symm.trans hts
      exact ⟨ls, hcuts, hyields⟩
    · cases he.symm.trans hts
  · rintro ⟨ls', hcuts', hyields'⟩
    obtain ⟨rfl, rfl⟩ := hcuts.unique hfits hend hcuts' hyields'.fits (.inl rfl)
    rcases h with ⟨-, ts', hts', hyields⟩ | ⟨hstuck, -⟩
    · rw [hyields'.unique hyields]
      exact hts'
    · exact absurd rfl hstuck.1

/-- A source is read if it is cut into lexemes up to its end and no integer is out of range. -/
theorem exists_tokenize_iff {source : String} : (∃ ts, tokenize source = .ok ts) ↔
    ∃ ls, Cuts [] source.toList ls ∧ ∀ l ∈ ls, l.Fits := by
  constructor
  · rintro ⟨ts, hts⟩
    obtain ⟨ls, hcuts, hyields⟩ := tokenize_eq_ok_iff.1 hts
    exact ⟨ls, hcuts, hyields.fits⟩
  · rintro ⟨ls', hcuts', hfits'⟩
    obtain ⟨ls, rest, hcuts, hfits, h⟩ := tokensFrom_spec 0 source.toList
    obtain ⟨rfl, rfl⟩ :=
      hcuts.unique hfits (h.imp And.left And.left) hcuts' hfits' (.inl rfl)
    rcases h with ⟨-, ts, hts, -⟩ | ⟨hstuck, -⟩
    · exact ⟨ts, hts⟩
    · exact absurd rfl hstuck.1

/-- A source is refused at the first place where no token starts. -/
theorem tokenize_eq_error_iff {source : String} {position : Nat} :
    (∃ e, tokenize source = .error e ∧ e.position = position) ↔
      ∃ ls rest, Cuts rest source.toList ls ∧ (∀ l ∈ ls, l.Fits) ∧ IsStuck rest ∧
        position = byteLength (chars ls) := by
  obtain ⟨ls, rest, hcuts, hfits, h⟩ := tokensFrom_spec 0 source.toList
  have hend : IsEnd rest := h.imp And.left And.left
  constructor
  · rintro ⟨e, he, rfl⟩
    rcases h with ⟨-, ts, hts, -⟩ | ⟨hstuck, e', he', hposition⟩
    · cases hts.symm.trans he
    · obtain rfl : e' = e := by simpa using he'.symm.trans he
      exact ⟨ls, rest, hcuts, hfits, hstuck, by rw [hposition, Nat.zero_add]⟩
  · rintro ⟨ls', rest', hcuts', hfits', hstuck', rfl⟩
    obtain ⟨rfl, rfl⟩ := hcuts.unique hfits hend hcuts' hfits' (.inr hstuck')
    rcases h with ⟨rfl, -⟩ | ⟨-, e, he, hposition⟩
    · exact absurd rfl hstuck'.1
    · exact ⟨e, he, by rw [hposition, Nat.zero_add]⟩

/-- **The lexer takes the longest match.** A source is read as some tokens exactly if it is cut into
longest lexemes up to its end and these yield the tokens, and it is read at all exactly if it is cut
so and every integer is in range. The tokens then cover parts of the source that are not empty,
start and end between characters and lie one behind the other, with blanks and comments between
them only. A source that is not read is refused at the first byte at which a lexeme would start but
no class has a word, or the longest one is an integer out of range. -/
theorem tokenize_longestMatch (source : String) :
    (∀ ts, tokenize source = .ok ts ↔ ∃ ls, Cuts [] source.toList ls ∧ Yields 0 ls ts) ∧
      ((∃ ts, tokenize source = .ok ts) ↔
        ∃ ls, Cuts [] source.toList ls ∧ ∀ l ∈ ls, l.Fits) ∧
      (∀ ts, tokenize source = .ok ts →
        Spaced 0 source.toList ts ∧ (ts.Pairwise fun t u => t.stop ≤ u.start) ∧
          ∀ t ∈ ts, t.start < t.stop ∧ (⟨t.start⟩ : String.Pos.Raw).IsValid source ∧
            (⟨t.stop⟩ : String.Pos.Raw).IsValid source) ∧
      ∀ position, (∃ e, tokenize source = .error e ∧ e.position = position) ↔
        ∃ ls rest, Cuts rest source.toList ls ∧ (∀ l ∈ ls, l.Fits) ∧ IsStuck rest ∧
          position = byteLength (chars ls) := by
  refine ⟨fun ts => tokenize_eq_ok_iff, exists_tokenize_iff, ?_, fun p => tokenize_eq_error_iff⟩
  intro ts hts
  obtain ⟨ls, hcuts, hyields⟩ := tokenize_eq_ok_iff.1 hts
  obtain ⟨hchars, hwords⟩ := hcuts.matched
  have hspaced : Spaced 0 source.toList ts := by
    rw [hchars, List.append_nil]
    exact hyields.spaced hwords
  have hvalid := hspaced.isValid [] rfl
  rw [List.nil_append, String.ofList_toList] at hvalid
  exact ⟨hspaced, hspaced.pairwise, fun t ht => ⟨(hspaced.bounds t ht).2, hvalid t ht⟩⟩

/-- An `x` that no hexadecimal digit follows, or that stands behind a sign, is not part of an
integer, and a dot that no word follows starts nothing. -/
theorem tokenize_longestMatch_backsOff :
    (∃ ts, tokenize "\"é\"0x// ü\n-0x1F" = .ok ts ∧
      ts = [⟨.str "é", 0, 4⟩, ⟨.int 0, 4, 5⟩, ⟨.ident "x", 5, 6⟩, ⟨.int 0, 12, 14⟩,
        ⟨.ident "x1F", 14, 17⟩] ∧
      Spaced 0 "\"é\"0x// ü\n-0x1F".toList ts) ∧
      ∃ ls rest, Cuts rest "a.b. c".toList ls ∧ IsStuck rest ∧ 3 = byteLength (chars ls) := by
  have hok : tokenize "\"é\"0x// ü\n-0x1F" = .ok [⟨.str "é", 0, 4⟩, ⟨.int 0, 4, 5⟩,
      ⟨.ident "x", 5, 6⟩, ⟨.int 0, 12, 14⟩, ⟨.ident "x1F", 14, 17⟩] := by
    decide +kernel
  have herror : tokenize "a.b. c" = .error ⟨3, "."⟩ := by
    decide +kernel
  obtain ⟨-, -, hspans, -⟩ := tokenize_longestMatch "\"é\"0x// ü\n-0x1F"
  obtain ⟨-, -, -, hfails⟩ := tokenize_longestMatch "a.b. c"
  obtain ⟨ls, rest, hcuts, -, hstuck, hposition⟩ := (hfails 3).1 ⟨_, herror, rfl⟩
  exact ⟨⟨_, hok, rfl, (hspans _ hok).1⟩, ls, rest, hcuts, hstuck, hposition⟩

end Source

end TileFlow
