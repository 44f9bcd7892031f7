import TileFlow.Proofs.Source.Lexemes
import TileFlow.Proofs.Text.Lines
import TileFlow.Text.Quoted

/-!
# Texts that are read back

The printer writes more escapes than the lexer knows: quotes, backslashes, line feeds and tabs are
read back as they were, and of every other escape only the backslash is lost. So a text comes back
as it was exactly when it is made of the first four and of characters that stand for themselves. The
characters that the written forms are made of are printable themselves, so none of them needs an
escape of its own.

## Main results

* `Text.isPrintable_of_ascii`: the printable characters of ASCII.
* `Text.Quoted.escape_cases`: the ways in which a character is written.
* `reread`: what is read of a text that was written.
* `reread_eq_iff`: the texts that come back.
* `Lexes.str`: a written text is read as `reread` tells.
-/

namespace TileFlow.Text

/-! ### Sets of characters -/

/-- A character is in a set when it is past an odd number of boundaries. -/
theorem CharSet.contains_eq (s : CharSet) (c : Char) : s.contains c =
    s.boundaries.toList.foldl (fun inside b => if b ≤ c.toNat then !inside else inside) false := by
  rw [contains, Array.foldl_toList]

/-- Boundaries above a character make no difference. -/
theorem foldl_flip_of_lt {n : Nat} {bs : List Nat} (h : ∀ b ∈ bs, n < b) (inside : Bool) :
    bs.foldl (fun inside b => if b ≤ n then !inside else inside) inside = inside := by
  induction bs generalizing inside with
  | nil => rfl
  | cons b bs ih =>
      have hb := h b (by simp)
      rw [List.foldl_cons, if_neg (by omega), ih fun d hd => h d (by simp [hd])]

/-- Above the space no character of ASCII but the last changes whether it is printable. -/
theorem le_of_mem_drop_unprintable :
    ∀ b ∈ unprintable.boundaries.toList.drop 2, 0x7f ≤ b := by
  have h : (unprintable.boundaries.toList.drop 2).all (fun b => Nat.ble 0x7f b) = true := by
    decide +kernel
  simpa using h

/-- The characters of ASCII from the space on, except the last one, are printable. -/
theorem isPrintable_of_ascii {c : Char} (hmin : 0x20 ≤ c.toNat) (hmax : c.toNat < 0x7f) :
    isPrintable c = true := by
  have htake : unprintable.boundaries.toList.take 2 = [0, 0x20] := rfl
  have hdrop := le_of_mem_drop_unprintable
  rw [isPrintable, CharSet.contains_eq,
    ← List.take_append_drop 2 unprintable.boundaries.toList, htake, List.foldl_append,
    foldl_flip_of_lt fun b hb => Nat.lt_of_lt_of_le hmax (hdrop b hb)]
  simp [hmin]

namespace Quoted

/-! ### Digits -/

/-- The hexadecimal digits are printable, and neither quotes nor backslashes. -/
theorem hex_digit {d : Char} {n : Nat} (h : d ∈ Nat.toDigits 16 n) :
    0x20 ≤ d.toNat ∧ d.toNat < 0x7f ∧ d ≠ '"' ∧ d ≠ '\\' := by
  obtain ⟨m, hm, rfl⟩ := mem_toDigits (by decide) h
  have hall : ∀ m < 16, 0x20 ≤ m.digitChar.toNat ∧ m.digitChar.toNat < 0x7f ∧
      m.digitChar ≠ '"' ∧ m.digitChar ≠ '\\' := by decide
  exact hall m hm

/-! ### Characters -/

/-- A printable character of ASCII that is neither a quote nor a backslash is written as it is. -/
theorem escape_of_ascii {c : Char} (hmin : 0x20 ≤ c.toNat) (hmax : c.toNat < 0x7f)
    (hquote : c ≠ '"') (hback : c ≠ '\\') : escape c = [c] := by
  have hne : ∀ d : Char, d.toNat < 0x20 → c ≠ d := by
    rintro d hd rfl
    omega
  rw [escape, if_neg hquote, if_neg hback, if_neg (hne _ (by decide)), if_neg (hne _ (by decide)),
    if_neg (hne _ (by decide)), if_neg (hne _ (by decide)),
    if_pos (isPrintable_of_ascii hmin hmax)]

/-- A character is written as it is, by a backslash and one more character, or by its code
point. -/
theorem escape_cases (c : Char) :
    (escape c = [c] ∧ c ≠ '"' ∧ c ≠ '\\') ∨
      (∃ d, escape c = ['\\', d] ∧ (c, d) ∈ [('"', '"'), ('\\', '\\'), ('\n', 'n'),
        ('\t', 't'), ('\r', 'r'), ('\x00', '0')]) ∨
      escape c = '\\' :: 'u' :: '\x7b' :: (Nat.toDigits 16 c.toNat ++ ['\x7d']) := by
  unfold escape
  repeat' split
  all_goals simp_all

end Quoted

end TileFlow.Text

namespace TileFlow

namespace Source

open Text.Quoted (escape encode encodeChars)

/-- A character that is written unchanged, or by one of the escapes for quotes, backslashes, line
feeds and tabs. -/
def IsPlain (c : Char) : Prop :=
  escape c ∈ [[c], ['\\', '"'], ['\\', '\\'], ['\\', 'n'], ['\\', 't']]

instance (c : Char) : Decidable (IsPlain c) :=
  inferInstanceAs (Decidable (_ ∈ _))

/-- A text whose characters are all plain. -/
def IsPlainText (s : String) : Prop :=
  ∀ c ∈ s.toList, IsPlain c

/-- What is read of a text that was written. -/
def reread (s : String) : String :=
  String.ofList (unescape (s.toList.flatMap escape))

/-! ### What the lexer makes of characters -/

/-- A character that is no backslash stands for itself. -/
theorem unescape_cons {c : Char} (hc : c ≠ '\\') (rest : List Char) :
    unescape (c :: rest) = c :: unescape rest := by
  rw [unescape.eq_def]
  split
  · contradiction
  · rename_i heq
    cases heq
    exact absurd rfl hc
  · rename_i heq
    cases heq
    rfl

/-- A text goes on past characters that are neither quote nor backslash. -/
theorem textTail_cons {c : Char} (hc : c ≠ '\\') (hquote : c ≠ '"') (rest : List Char) :
    textTail (c :: rest) = (textTail rest).map (· + 1) := by
  rw [textTail.eq_def]
  split
  · contradiction
  · rename_i heq
    cases heq
    exact absurd rfl hquote
  · rename_i heq
    cases heq
    exact absurd rfl hc
  · rename_i heq
    cases heq
    rfl

/-- Characters without backslashes stand for themselves. -/
theorem unescape_append {cs : List Char} (hcs : ∀ c ∈ cs, c ≠ '\\') (rest : List Char) :
    unescape (cs ++ rest) = cs ++ unescape rest := by
  induction cs with
  | nil => rfl
  | cons c cs ih =>
      rw [List.cons_append, unescape_cons (hcs c (by simp)), ih fun d hd => hcs d (by simp [hd])]
      rfl

/-- Characters without backslashes and quotes do not end a text. -/
theorem textTail_append {cs : List Char} (hcs : ∀ c ∈ cs, c ≠ '\\' ∧ c ≠ '"')
    (rest : List Char) : textTail (cs ++ rest) = (textTail rest).map (· + cs.length) := by
  induction cs with
  | nil => simp
  | cons c cs ih =>
      obtain ⟨hc, hquote⟩ := hcs c (by simp)
      rw [List.cons_append, textTail_cons hc hquote, ih fun d hd => hcs d (by simp [hd]),
        Option.map_map, List.length_cons]
      congr 1

/-! ### One character -/

/-- A printable character of ASCII that is neither a quote nor a backslash is plain. -/
theorem isPlain_of_ascii {c : Char} (hmin : 0x20 ≤ c.toNat) (hmax : c.toNat < 0x7f)
    (hquote : c ≠ '"') (hback : c ≠ '\\') : IsPlain c := by
  rw [IsPlain, Text.Quoted.escape_of_ascii hmin hmax hquote hback]
  exact List.mem_cons_self

/-- The written form of a code point has no quotes and, after the first, no backslashes. -/
theorem codePoint_plain {c : Char} {n : Nat}
    (h : c ∈ '\x7b' :: (Nat.toDigits 16 n ++ ['\x7d'])) :
    (c ≠ '\\' ∧ c ≠ '"') ∧ IsPlain c := by
  have hascii : 0x20 ≤ c.toNat ∧ c.toNat < 0x7f ∧ c ≠ '"' ∧ c ≠ '\\' := by
    simp only [List.mem_cons, List.mem_append, List.not_mem_nil, or_false] at h
    rcases h with rfl | h | rfl
    · decide
    · exact Text.Quoted.hex_digit h
    · decide
  obtain ⟨hmin, hmax, hquote, hback⟩ := hascii
  exact ⟨⟨hback, hquote⟩, isPlain_of_ascii hmin hmax hquote hback⟩

/-- A backslash takes the next character along. -/
theorem textTail_backslash {d : Char} (hd : d ≠ '\n') (rest : List Char) :
    textTail ('\\' :: d :: rest) = (textTail rest).map (· + 2) := by
  rw [textTail.eq_def]
  exact if_neg hd

/-- What is written for a character does not end a text. -/
theorem textTail_escape (c : Char) (rest : List Char) :
    textTail (escape c ++ rest) = (textTail rest).map (· + (escape c).length) := by
  rcases Text.Quoted.escape_cases c with ⟨h, hquote, hback⟩ | ⟨d, h, hd⟩ | h
  · rw [h]
    exact textTail_cons hback hquote rest
  · have hne : d ≠ '\n' := by
      rintro rfl
      simp at hd
    rw [h]
    exact textTail_backslash hne rest
  · rw [h, List.cons_append, List.cons_append, textTail_backslash (by decide),
      textTail_append fun c hc => (codePoint_plain hc).1]
    simp only [Option.map_map, List.length_cons]
    congr 1

/-- What is written for a character is read independently of what follows. -/
theorem unescape_escape (c : Char) (rest : List Char) :
    unescape (escape c ++ rest) = unescape (escape c) ++ unescape rest := by
  rcases Text.Quoted.escape_cases c with ⟨h, hquote, hback⟩ | ⟨d, h, -⟩ | h
  · rw [h, List.singleton_append, unescape_cons hback, unescape_cons hback]
    rfl
  · rw [h]
    rfl
  · have hplain : ∀ d ∈ '\x7b' :: (Nat.toDigits 16 c.toNat ++ ['\x7d']), d ≠ '\\' :=
      fun d hd => (codePoint_plain hd).1.1
    have hu : ∀ l, unescape ('\\' :: 'u' :: l) = 'u' :: unescape l := fun _ => rfl
    rw [h, List.cons_append, List.cons_append, hu, hu, unescape_append hplain,
      ← List.append_nil ('\x7b' :: _), unescape_append hplain]
    simp [unescape]

/-- A plain character is read back, and all other characters are read as plain ones. -/
theorem unescape_escape_cases (c : Char) :
    IsPlain c ∧ unescape (escape c) = [c] ∨
      ¬IsPlain c ∧ ∀ d ∈ unescape (escape c), IsPlain d := by
  rcases Text.Quoted.escape_cases c with ⟨h, hquote, hback⟩ | ⟨d, h, hd⟩ | h
  · refine .inl ⟨by simp [IsPlain, h], ?_⟩
    rw [h, unescape_cons hback]
    rfl
  · rw [IsPlain, h]
    simp only [List.mem_cons, Prod.mk.injEq, List.not_mem_nil, or_false] at hd
    rcases hd with ⟨rfl, rfl⟩ | ⟨rfl, rfl⟩ | ⟨rfl, rfl⟩ | ⟨rfl, rfl⟩ | ⟨rfl, rfl⟩ | ⟨rfl, rfl⟩
    · exact .inl ⟨by decide, rfl⟩
    · exact .inl ⟨by decide, rfl⟩
    · exact .inl ⟨by decide, rfl⟩
    · exact .inl ⟨by decide, rfl⟩
    · refine .inr ⟨by decide, fun d hd => ?_⟩
      obtain rfl : d = 'r' := by simpa [unescape] using hd
      exact isPlain_of_ascii (by decide) (by decide) (by decide) (by decide)
    · refine .inr ⟨by decide, fun d hd => ?_⟩
      obtain rfl : d = '0' := by simpa [unescape] using hd
      exact isPlain_of_ascii (by decide) (by decide) (by decide) (by decide)
  · refine .inr ⟨by simp [IsPlain, h], fun d hd => ?_⟩
    have hplain : ∀ d ∈ '\x7b' :: (Nat.toDigits 16 c.toNat ++ ['\x7d']), d ≠ '\\' :=
      fun d hd => (codePoint_plain hd).1.1
    have hread : unescape (escape c) =
        'u' :: '\x7b' :: (Nat.toDigits 16 c.toNat ++ ['\x7d']) := by
      have := unescape_append hplain []
      rw [List.append_nil] at this
      rw [h]
      exact congrArg (List.cons 'u') (this.trans (List.append_nil _))
    rw [hread, List.mem_cons] at hd
    rcases hd with rfl | hd
    · exact isPlain_of_ascii (by decide) (by decide) (by decide) (by decide)
    · exact (codePoint_plain hd).2

/-! ### Texts -/

/-- Escaped texts are read back character by character. -/
theorem unescape_flatMap (cs : List Char) :
    unescape (cs.flatMap escape) = cs.flatMap fun c => unescape (escape c) := by
  induction cs with
  | nil => rfl
  | cons c cs ih => rw [List.flatMap_cons, unescape_escape, ih, List.flatMap_cons]

/-- An escaped text ends at the quote after it. -/
theorem textTail_flatMap (cs rest : List Char) :
    textTail (cs.flatMap escape ++ '"' :: rest) = some ((cs.flatMap escape).length + 1) := by
  induction cs with
  | nil => rfl
  | cons c cs ih =>
      rw [List.flatMap_cons, List.append_assoc, textTail_escape, ih, List.length_append]
      simp only [Option.map_some, Option.some.injEq]
      omega

/-- A text is read back exactly when all its characters are plain. -/
theorem reread_eq_iff {s : String} : reread s = s ↔ IsPlainText s := by
  have hchars : reread s = s ↔ (s.toList.flatMap fun c => unescape (escape c)) = s.toList := by
    rw [reread, unescape_flatMap, ← String.toList_inj, String.toList_ofList]
  rw [hchars]
  constructor
  · intro h c hc
    -- Whatever is read is plain, and here this is the text itself.
    rw [← h, List.mem_flatMap] at hc
    obtain ⟨d, -, hd⟩ := hc
    rcases unescape_escape_cases d with ⟨hplain, heq⟩ | ⟨-, hall⟩
    · obtain rfl : c = d := by simpa [heq] using hd
      exact hplain
    · exact hall c hd
  · intro h
    have hid : ∀ cs : List Char, (∀ c ∈ cs, IsPlain c) →
        (cs.flatMap fun c => unescape (escape c)) = cs := by
      intro cs hcs
      induction cs with
      | nil => rfl
      | cons c cs ih =>
          rcases unescape_escape_cases c with ⟨-, heq⟩ | ⟨hnot, -⟩
          · rw [List.flatMap_cons, heq, ih fun d hd => hcs d (by simp [hd])]
            rfl
          · exact absurd (hcs c (by simp)) hnot
    exact hid s.toList h

/-- A written text is read as `reread` tells, whatever follows it. -/
theorem Lexes.str {rest : List Char} {ks : List Token} (h : Lexes rest ks) (s : String) :
    Lexes ((encode s).toList ++ rest) (.str (reread s) :: ks) := by
  obtain ⟨cs, hcs⟩ : ∃ cs, cs = s.toList.flatMap escape := ⟨_, rfl⟩
  have hchars : (encode s).toList ++ rest = '"' :: (cs ++ ['"'] ++ rest) := by
    simp [encode, encodeChars, hcs]
  have hscan : scan '"' (cs ++ ['"'] ++ rest) = some (.str, (cs ++ ['"']).length) := by
    have htail : textTail (cs ++ ['"'] ++ rest) = some (cs ++ ['"']).length := by
      rw [List.append_assoc, List.singleton_append, hcs, textTail_flatMap, List.length_append]
      rfl
    exact congrArg (Option.map (Class.str, ·)) htail
  rw [hchars]
  refine .token hscan rfl ?_ ?_
  · rw [List.take_left, read_str, List.tail_cons, List.dropLast_concat, reread, hcs]
  · rwa [List.drop_left]

end Source

end TileFlow
