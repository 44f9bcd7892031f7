import TileFlow.Proofs.Source.Grammar

/-!
# Lexemes

The lexer cuts a source from left to right, and what it reads does not depend on the place where
it stands. That makes it a relation between characters and tokens, which is given here together
with the tokens that can occur in it: the written form of each of these is read back as the same
token, if a character follows that ends it.

## Main results

* `lexes_of_tokensFrom`, `Lexes.tokensFrom`: the lexer in the form of a relation.
* `Lexes.isLexeme`: the tokens that can occur.
* `Lexes.value`, `Lexes.symbol`, `Lexes.ident`, `Lexes.int`, `Lexes.mark`: their written forms.
-/

namespace TileFlow

namespace Source

variable {c : Char} {cs rest : List Char} {ks : List Token}

/-! ### The lexer as a relation -/

/-- The characters are cut into the tokens. -/
inductive Lexes : List Char → List Token → Prop
  | nil : Lexes [] []
  | skip {c : Char} {rest : List Char} {k : Class} {n : Nat} {ks : List Token} :
      scan c rest = some (k, n) → k.isSkipped = true → Lexes (rest.drop n) ks →
      Lexes (c :: rest) ks
  | token {c : Char} {rest : List Char} {k : Class} {n : Nat} {t : Token} {ks : List Token} :
      scan c rest = some (k, n) → k.isSkipped = false → k.read (c :: rest.take n) = some t →
      Lexes (rest.drop n) ks → Lexes (c :: rest) (t :: ks)

/-- What is cut into tokens is read as these from every byte on. -/
theorem Lexes.tokensFrom (h : Lexes cs ks) (offset : Nat) :
    ∃ ts, tokensFrom offset cs = .ok ts ∧ tokens ts = ks := by
  induction h generalizing offset with
  | nil => exact ⟨[], by rw [Source.tokensFrom], rfl⟩
  | @skip c rest k n ks hscan hskip _ ih =>
      obtain ⟨ts, hts, rfl⟩ := ih (offset + byteLength (c :: rest.take n))
      refine ⟨ts, ?_, rfl⟩
      rw [Source.tokensFrom]
      simp only [hscan, hskip, if_true, hts]
  | @token c rest k n t ks hscan hskip hread _ ih =>
      obtain ⟨ts, hts, rfl⟩ := ih (offset + byteLength (c :: rest.take n))
      refine ⟨⟨t, offset, offset + byteLength (c :: rest.take n)⟩ :: ts, ?_, rfl⟩
      rw [Source.tokensFrom]
      simp [hscan, hskip, hread, hts, Except.map]

/-- What is read as tokens is cut into these. -/
theorem lexes_of_tokensFrom {offset : Nat} {ts : List Located}
    (h : tokensFrom offset cs = .ok ts) : Lexes cs (tokens ts) := by
  fun_induction tokensFrom offset cs generalizing ts with
  | case1 =>
      cases h
      exact .nil
  | case2 => simp at h
  | case3 offset c rest k n hscan lexeme stop hskip =>
      rename_i ih
      exact .skip hscan hskip (ih h)
  | case4 => simp at h
  | case5 offset c rest k n hscan lexeme stop hskip t hread =>
      rename_i ih
      rcases hmore : tokensFrom stop (rest.drop n) with e | more
      · simp [hmore, Except.map] at h
      · obtain rfl : ⟨t, offset, stop⟩ :: more = ts := by simpa [hmore, Except.map] using h
        exact .token hscan (by simpa using hskip) hread (ih hmore)

/-- A blank is scanned with all blanks after it. -/
theorem scan_blank (hc : isSpace c = true) :
    scan c rest = some (.blank, runLength isSpace rest) := by
  rw [scan, if_pos hc]

/-- Blanks before what is cut into tokens make no difference. -/
theorem Lexes.blank (hc : isSpace c = true) (h : Lexes rest ks) : Lexes (c :: rest) ks := by
  refine .skip (scan_blank hc) rfl ?_
  cases rest with
  | nil => exact h
  | cons d rest =>
      by_cases hd : isSpace d = true
      · -- The blanks that follow are dropped with the first one.
        have hrun : (d :: rest).drop (runLength isSpace (d :: rest)) =
            rest.drop (runLength isSpace rest) := by simp [runLength, hd]
        rw [hrun]
        cases h with
        | skip hscan _ h' =>
            cases (scan_blank hd).symm.trans hscan
            exact h'
        | token hscan hskip _ _ =>
            cases (scan_blank hd).symm.trans hscan
            cases hskip
      · simpa [runLength, hd] using h

/-- Blanks in front do not change the tokens. -/
theorem Lexes.blanks (h : Lexes rest ks) {cs : List Char} (hcs : ∀ c ∈ cs, isSpace c = true) :
    Lexes (cs ++ rest) ks := by
  induction cs with
  | nil => exact h
  | cons c cs ih =>
      exact .blank (hcs c (by simp)) (ih fun d hd => hcs d (by simp [hd]))

/-! ### The tokens that occur -/

/-- Whether the lexer can make a token: names are not empty and have the characters of their
class, and integers are in range. -/
def Token.IsLexeme : Token → Prop
  | .value name => name.toList ≠ [] ∧ ∀ c ∈ name.toList, isWordChar c = true
  | .symbol name => name.toList ≠ [] ∧ ∀ c ∈ name.toList, isSymbolChar c = true
  | .int n => Integer.Fits n
  | .str _ => True
  | .ident name =>
    ∃ c rest, name.toList = c :: rest ∧ isIdentStart c = true ∧ identTail rest = rest.length
  | .mark _ => True

/-- A run takes what satisfies the predicate. -/
theorem take_runLength (p : Char → Bool) (cs : List Char) :
    cs.take (runLength p cs) = cs.takeWhile p :=
  (List.prefix_iff_eq_take.1 (List.takeWhile_prefix p)).symm

/-- An identifier goes on with each of its characters. -/
theorem identTail_cons (hc : isIdentChar c = true) :
    identTail (c :: rest) = identTail rest + 1 := by
  rw [identTail.eq_def]
  simp [hc]

/-- An identifier goes on after a dot that a letter follows. -/
theorem identTail_dot (hc : isIdentStart c = true) :
    identTail ('.' :: c :: rest) = identTail rest + 2 := by
  have hdot : isIdentChar '.' = false := by decide
  rw [identTail.eq_def]
  simp [hc, hdot]

/-- The characters that continue an identifier still do so on their own. -/
theorem identTail_take (cs : List Char) :
    identTail (cs.take (identTail cs)) = (cs.take (identTail cs)).length := by
  fun_induction identTail cs with
  | case1 => rfl
  | case2 c rest hc ih => rw [List.take_succ_cons, identTail_cons hc, ih, List.length_cons]
  | case3 => rfl
  | case4 d more hdot hd ih =>
      rw [List.take_succ_cons, List.take_succ_cons, identTail_dot ‹_›, ih]
      rfl
  | case5 => rfl
  | case6 => rfl

/-- What the lexer finds of names. -/
theorem scan_name {k : Class} {n : Nat} (h : scan c rest = some (k, n)) :
    (k = .value → n = runLength isWordChar rest ∧ n ≠ 0) ∧
      (k = .symbol → n = runLength isSymbolChar rest ∧ n ≠ 0) ∧
      (k = .ident → n = identTail rest ∧ isIdentStart c = true) := by
  unfold scan nonempty at h
  repeat' split at h
  all_goals simp_all [Option.map_eq_some_iff]
  all_goals grind

/-- The run of a name is not empty, and has the characters of its class only. -/
theorem take_runLength_spec {p : Char → Bool} (h : runLength p rest ≠ 0) :
    rest.take (runLength p rest) ≠ [] ∧ ∀ c ∈ rest.take (runLength p rest), p c = true := by
  rw [take_runLength]
  refine ⟨fun hnil => h (by simp [runLength, hnil]), ?_⟩
  exact List.all_eq_true.1 List.all_takeWhile

/-- An integer token is in range. -/
theorem isLexeme_of_intToken {m : Int} {t : Token} (h : intToken m = some t) : t.IsLexeme := by
  rw [intToken] at h
  split at h
  · cases h
    assumption
  · cases h

theorem read_value (l : List Char) :
    Class.value.read l = some (.value (String.ofList l.tail)) := rfl

theorem read_symbol (l : List Char) :
    Class.symbol.read l = some (.symbol (String.ofList l.tail)) := rfl

theorem read_ident (l : List Char) : Class.ident.read l = some (.ident (String.ofList l)) := rfl

theorem read_str (l : List Char) :
    Class.str.read l = some (.str (String.ofList (unescape l.tail.dropLast))) := rfl

/-- A decimal lexeme is read as a number, with its sign. -/
theorem read_decimal (c : Char) (cs : List Char) : Class.decimal.read (c :: cs) =
    if c = '-' then intToken (-(numeral 10 cs : Int)) else intToken (numeral 10 (c :: cs)) := by
  split
  · rename_i h
    subst h
    rfl
  · rename_i h
    delta Class.read
    dsimp only
    split
    · rename_i heq
      cases heq
      exact absurd rfl h
    · rfl

/-- What is read of a lexeme is a token that can occur. -/
theorem isLexeme_of_read {k : Class} {n : Nat} {t : Token} (h : scan c rest = some (k, n))
    (ht : k.read (c :: rest.take n) = some t) : t.IsLexeme := by
  obtain ⟨hvalue, hsymbol, hident⟩ := scan_name h
  cases k with
  | value =>
      cases ht
      obtain ⟨rfl, hn⟩ := hvalue rfl
      simpa [Token.IsLexeme] using take_runLength_spec hn
  | symbol =>
      cases ht
      obtain ⟨rfl, hn⟩ := hsymbol rfl
      simpa [Token.IsLexeme] using take_runLength_spec hn
  | decimal =>
      rw [read_decimal] at ht
      split at ht <;> exact isLexeme_of_intToken ht
  | hexadecimal => exact isLexeme_of_intToken ht
  | str =>
      cases ht
      trivial
  | ident =>
      cases ht
      obtain ⟨rfl, hc⟩ := hident rfl
      exact ⟨c, rest.take (identTail rest), String.toList_ofList, hc, identTail_take rest⟩
  | mark =>
      obtain ⟨m, -, rfl⟩ := Option.map_eq_some_iff.1 ht
      trivial
  | blank => cases ht
  | comment => cases ht

/-- What is lexed can be written. -/
theorem Lexes.isLexeme (h : Lexes cs ks) : ∀ t ∈ ks, t.IsLexeme := by
  induction h with
  | nil => simp
  | skip _ _ _ ih => exact ih
  | token hscan _ hread _ ih =>
      exact List.forall_mem_cons.2 ⟨isLexeme_of_read hscan hread, ih⟩

/-! ### The written forms of tokens -/

/-- A character that ends every name and every integer. -/
def isDelimiter (c : Char) : Bool :=
  c ∈ [' ', '\n', '(', ')', ']', '\x7d', ',']

/-- A list of characters that cannot continue what stands before it. -/
def Delimited (cs : List Char) : Prop :=
  ∀ c ∈ cs.head?, isDelimiter c = true

/-- A delimiter is no character of a symbol. -/
theorem isSymbolChar_of_isDelimiter (h : isDelimiter c = true) : isSymbolChar c = false := by
  simp only [isDelimiter, List.mem_cons, List.not_mem_nil, or_false, decide_eq_true_eq] at h
  rcases h with rfl | rfl | rfl | rfl | rfl | rfl | rfl <;> decide

/-- A name ends where a delimiter follows it. -/
theorem runLength_append {p : Char → Bool} (hp : ∀ c, p c = true → isSymbolChar c = true)
    (hcs : ∀ c ∈ cs, p c = true) (hrest : Delimited rest) :
    runLength p (cs ++ rest) = cs.length := by
  have hstop : rest.takeWhile p = [] := by
    cases rest with
    | nil => rfl
    | cons c rest =>
        have hc : ¬p c = true := fun hc => by
          have := isSymbolChar_of_isDelimiter (hrest c rfl)
          simp [hp c hc] at this
        simp [hc]
  rw [runLength, List.takeWhile_append_of_pos hcs, hstop, List.append_nil]

/-- An identifier ends where a delimiter follows it. -/
theorem identTail_append (hcs : identTail cs = cs.length) (hrest : Delimited rest) :
    identTail (cs ++ rest) = cs.length := by
  fun_induction identTail cs with
  | case1 =>
      cases rest with
      | nil => rfl
      | cons c rest =>
          have hc := isSymbolChar_of_isDelimiter (hrest c rfl)
          have hword : isIdentChar c = false := by
            simp only [isSymbolChar, Bool.or_eq_false_iff] at hc
            simp only [isIdentChar, hc, Bool.or_self]
          have hdot : c ≠ '.' := by
            rintro rfl
            exact absurd hc (by decide)
          rw [List.nil_append, identTail.eq_def]
          simp [hword, hdot]
  | case2 c more hc ih =>
      rw [List.cons_append, identTail_cons hc, ih (by simpa using hcs), List.length_cons]
  | case3 => simp at hcs
  | case4 d more hdot hd ih =>
      rw [List.cons_append, List.cons_append, identTail_dot ‹_›, ih (by simpa using hcs)]
      rfl
  | case5 => simp at hcs
  | case6 => simp at hcs

/-- A mark is lexed as itself. -/
theorem Lexes.mark (h : Lexes rest ks) (m : Mark) : Lexes (m.char :: rest) (.mark m :: ks) := by
  cases m <;> exact .token rfl rfl rfl h

/-- A match that is not empty is kept. -/
theorem nonempty_of_ne {k : Class} {n : Nat} (h : n ≠ 0) : nonempty k n = some (k, n) :=
  if_neg h

theorem scan_percent (cs : List Char) :
    scan '%' cs = nonempty .value (runLength isWordChar cs) := rfl

theorem scan_at (cs : List Char) :
    scan '@' cs = nonempty .symbol (runLength isSymbolChar cs) := rfl

theorem scan_minus (cs : List Char) :
    scan '-' cs = nonempty .decimal (runLength Char.isDigit cs) := rfl

/-- A value that is written before a delimiter is lexed as itself. -/
theorem Lexes.value {name : String} (hname : Token.IsLexeme (.value name))
    (hrest : Delimited rest) (h : Lexes rest ks) :
    Lexes ('%' :: (name.toList ++ rest)) (.value name :: ks) := by
  obtain ⟨hne, hchars⟩ := hname
  have hrun := runLength_append (fun c hc => by simp [isSymbolChar, hc]) hchars hrest
  have hscan := scan_percent (name.toList ++ rest)
  rw [hrun, nonempty_of_ne (by simpa using hne)] at hscan
  exact .token hscan rfl (by simp [read_value]) (by simpa using h)

/-- A symbol that is written before a delimiter is lexed as itself. -/
theorem Lexes.symbol {name : String} (hname : Token.IsLexeme (.symbol name))
    (hrest : Delimited rest) (h : Lexes rest ks) :
    Lexes ('@' :: (name.toList ++ rest)) (.symbol name :: ks) := by
  obtain ⟨hne, hchars⟩ := hname
  have hrun := runLength_append (fun c hc => hc) hchars hrest
  have hscan := scan_at (name.toList ++ rest)
  rw [hrun, nonempty_of_ne (by simpa using hne)] at hscan
  exact .token hscan rfl (by simp [read_symbol]) (by simpa using h)

/-- No identifier begins with a digit. -/
theorem not_isDigit_of_isIdentStart (hc : isIdentStart c = true) : ¬c.isDigit = true := by
  have hstart : isIdentStart c = (decide ('A'.val ≤ c.val ∧ c.val ≤ 'Z'.val) ||
      (decide ('a'.val ≤ c.val) && decide (c.val ≤ 'z'.val)) || c == '_') := rfl
  simp only [hstart, Bool.or_eq_true, Bool.and_eq_true, decide_eq_true_eq, beq_iff_eq] at hc
  simp only [Char.isDigit, Bool.and_eq_true, decide_eq_true_eq]
  rintro ⟨-, hle⟩
  rw [UInt32.le_iff_toNat_le] at hle
  rcases hc with (⟨hc, -⟩ | ⟨hc, -⟩) | rfl
  · exact absurd (Nat.le_trans hc hle) (by decide)
  · exact absurd (Nat.le_trans hc hle) (by decide)
  · exact absurd hle (by decide)

/-- A letter starts an identifier. -/
theorem scan_of_isIdentStart (hc : isIdentStart c = true) :
    scan c rest = some (.ident, identTail rest) := by
  have hne : ∀ d, isIdentStart d = false → c ≠ d := by
    rintro d hd rfl
    simp [hc] at hd
  have hspace : ¬isSpace c = true := by
    simp [isSpace, hne ' ' rfl, hne '\t' rfl, hne '\n' rfl, hne '\r' rfl]
  rw [scan, if_neg hspace, if_neg (hne '/' rfl), if_neg (hne '%' rfl), if_neg (hne '@' rfl),
    if_neg (hne '-' rfl), if_neg (not_isDigit_of_isIdentStart hc), if_neg (hne '"' rfl), if_pos hc]

/-- An identifier that is written before a delimiter is lexed as itself. -/
theorem Lexes.ident {name : String} (hname : Token.IsLexeme (.ident name))
    (hrest : Delimited rest) (h : Lexes rest ks) :
    Lexes (name.toList ++ rest) (.ident name :: ks) := by
  obtain ⟨c, tail, hchars, hc, htail⟩ := hname
  have hscan : scan c (tail ++ rest) = some (.ident, tail.length) := by
    rw [scan_of_isIdentStart hc, identTail_append htail hrest]
  have hname : String.ofList (c :: tail) = name := by rw [← hchars, String.ofList_toList]
  rw [hchars]
  exact .token hscan rfl (by simp [read_ident, hname]) (by simpa using h)

/-- Digits stand for the same number for the lexer as for the library. -/
theorem numeral_ten (hcs : ∀ c ∈ cs, c.isDigit = true) (n : Nat) :
    cs.foldl (fun n c => n * 10 + digitValue c) n = Nat.ofDigitChars 10 cs n := by
  induction cs generalizing n with
  | nil => rfl
  | cons c cs ih =>
      have hc : digitValue c = c.toNat - '0'.toNat := by simp [digitValue, hcs c]
      rw [List.foldl_cons, ih (fun d hd => hcs d (by simp [hd])), Nat.ofDigitChars_cons, hc,
        Nat.mul_comm]

/-- The decimal digits of a number are read as that number. -/
theorem numeral_toDigits (n : Nat) : numeral 10 (Nat.toDigits 10 n) = n := by
  rw [numeral, numeral_ten fun c hc => Nat.isDigit_of_mem_toDigits (by decide) (by decide) hc,
    Nat.ofDigitChars_ten_toDigits]

/-- A digit can stand in a symbol. -/
theorem isSymbolChar_of_isDigit (hc : c.isDigit = true) : isSymbolChar c = true := by
  simp [isSymbolChar, isWordChar, Char.isAlphanum, hc]

/-- The digits of a number before a delimiter are one run. -/
theorem runLength_toDigits (n : Nat) (hrest : Delimited rest) :
    runLength Char.isDigit (Nat.toDigits 10 n ++ rest) = (Nat.toDigits 10 n).length :=
  runLength_append (fun _ => isSymbolChar_of_isDigit)
    (fun _ hc => Nat.isDigit_of_mem_toDigits (by decide) (by decide) hc) hrest

/-- A digit starts a decimal integer, except for the zero of a hexadecimal one. -/
theorem scan_of_isDigit (hc : c.isDigit = true) : scan c rest =
    if c = '0' ∧ hexDigitsAfterX rest ≠ 0 then some (.hexadecimal, hexDigitsAfterX rest + 1)
    else some (.decimal, runLength Char.isDigit rest) := by
  have hne : ∀ d, d.isDigit = false → c ≠ d := by
    rintro d hd rfl
    simp [hc] at hd
  have hspace : ¬isSpace c = true := by
    simp [isSpace, hne ' ' rfl, hne '\t' rfl, hne '\n' rfl, hne '\r' rfl]
  rw [scan, if_neg hspace, if_neg (hne '/' rfl), if_neg (hne '%' rfl), if_neg (hne '@' rfl),
    if_neg (hne '-' rfl), if_pos hc]

/-- A digit starts a decimal integer, if what follows is digits and a delimiter. -/
theorem scan_digit (hc : c.isDigit = true) (hcs : ∀ d ∈ cs, d.isDigit = true)
    (hrest : Delimited rest) : scan c (cs ++ rest) = some (.decimal, cs.length) := by
  have hhex : hexDigitsAfterX (cs ++ rest) = 0 := by
    cases hhead : cs ++ rest with
    | nil => rfl
    | cons d more =>
        have hd : d ≠ 'x' := by
          rintro rfl
          cases cs with
          | nil => exact absurd (hrest 'x' (by simp at hhead; simp [hhead])) (by decide)
          | cons e cs =>
              cases hhead
              exact absurd (hcs 'x' (by simp)) (by decide)
        unfold hexDigitsAfterX
        split
        · rename_i heq
          cases heq
          exact absurd rfl hd
        · rfl
  rw [scan_of_isDigit hc, if_neg (by simp [hhex]),
    runLength_append (fun _ => isSymbolChar_of_isDigit) hcs hrest]

/-- An integer that is written before a delimiter is lexed as itself. -/
theorem Lexes.int {n : Int} (hn : Integer.Fits n) (hrest : Delimited rest) (h : Lexes rest ks) :
    Lexes ((toString n).toList ++ rest) (.int n :: ks) := by
  have hdigits : ∀ m, ∀ c ∈ Nat.toDigits 10 m, c.isDigit = true := fun m c hc =>
    Nat.isDigit_of_mem_toDigits (by decide) (by decide) hc
  rw [Int.toString_eq_repr, Int.repr_eq_if]
  split
  · rename_i hsign
    rw [Nat.toList_repr]
    obtain ⟨c, cs, hcs⟩ := List.exists_cons_of_ne_nil (Nat.toDigits_ne_nil (n := n.toNat) (b := 10))
    have hread : numeral 10 (c :: cs) = n.toNat := by rw [← hcs, numeral_toDigits]
    have hall := hdigits n.toNat
    rw [hcs, List.forall_mem_cons] at hall
    obtain ⟨hc, htail⟩ := hall
    have hne : c ≠ '-' := by
      rintro rfl
      exact absurd hc (by decide)
    rw [hcs, List.cons_append]
    refine .token (scan_digit hc htail hrest) rfl ?_ (by simpa using h)
    rw [List.take_left, read_decimal, if_neg hne, hread, Int.toNat_of_nonneg hsign, intToken,
      if_pos hn]
  · rename_i hsign
    have hminus : "-".toList = ['-'] := rfl
    rw [String.toList_append, Nat.toList_repr, hminus, List.append_assoc, List.singleton_append]
    have hscan := scan_minus (Nat.toDigits 10 (-n).toNat ++ rest)
    rw [runLength_toDigits _ hrest,
      nonempty_of_ne (by simp)] at hscan
    refine .token hscan rfl ?_ (by simpa using h)
    rw [List.take_left, read_decimal, if_pos rfl, numeral_toDigits,
      Int.toNat_of_nonneg (by omega), Int.neg_neg, intToken, if_pos hn]

end Source

end TileFlow
