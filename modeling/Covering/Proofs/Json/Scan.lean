import Covering.Json.Printer
import Covering.Proofs.Decimal
import Mathlib.Data.List.TakeDrop
import Mathlib.Data.List.TakeWhile

/-!
# What is written is scanned

The text of a value, in any layout, is scanned to the tokens that the value is
made of. Blanks between tokens are passed over, so the layout plays no part in
which tokens these are.

A number or a word does not end by itself: the scanner is still in the middle of
it when its last character has been read, and only the next character tells. A
statement about the text of one value therefore speaks of all texts that follow
it and begin `Apart`, with a character that can belong to neither. Everything
the printer puts behind a value does.

Not every value is read back as it was. A double is written with as many digits
as it takes, and a number past the range of its kind becomes a double when it is
read. `Exact` values have neither.

## Main definitions

* `Exact`: Values that are read back as they were.
* `tokens`: The tokens that a value is made of.
* `Scanner.Apart`: Texts whose first character ends what is before it.
* `Scanner.Scans`: Texts that are scanned to given tokens.

## Theorems

* `numberToken?_digits`, `numberToken?_negative`: Exact numbers are scanned as
  themselves.
* `scan_quoted`: So are strings, whatever they contain.
* `scans_write`, `scan?_write`: The text of an exact value is scanned to its
  tokens.
-/

namespace Covering

namespace Json

open Decimal

/-- Values that are read back as they were: all parts can be represented, and
    numbers are integers of sixty-four bits, negative ones with a sign. -/
inductive Exact : Json → Prop where
  | null : Exact .null
  | bool (b : Bool) : Exact (.bool b)
  | natural {n : Nat} (h : n < wordLimit) : Exact (.number (.natural n))
  | negative {n : Nat} (hpos : 0 < n) (h : n ≤ signedLimit) : Exact (.number (.negative n))
  | string (s : String) : Exact (.string s)
  | array {vs : List Json} (h : ∀ v ∈ vs, Exact v) : Exact (.array vs)
  | object {ms : List (String × Json)} (h : ∀ m ∈ ms, Exact m.2) : Exact (.object ms)

mutual

/-- The tokens of a value. -/
def tokens : Json → List Token
  | .null => [.null]
  | .bool b => [.bool b]
  | .number n => [.number (some n)]
  | .string s => [.string (some s)]
  | .array [] => [.openArray, .closeArray]
  | .array (v :: vs) => .openArray :: (tokens v ++ elementTokens vs ++ [.closeArray])
  | .object [] => [.openObject, .closeObject]
  | .object (m :: ms) => .openObject :: (memberTokens m ++ membersTokens ms ++ [.closeObject])
  | .unreadable => [.null]

/-- The tokens of a name with its value. -/
def memberTokens : String × Json → List Token
  | (name, v) => .string (some name) :: .colon :: tokens v

/-- The tokens of further elements, each after a comma. -/
def elementTokens : List Json → List Token
  | [] => []
  | v :: vs => .comma :: (tokens v ++ elementTokens vs)

/-- The tokens of further members, each after a comma. -/
def membersTokens : List (String × Json) → List Token
  | [] => []
  | m :: ms => .comma :: (memberTokens m ++ membersTokens ms)

end

section Numbers

variable {n : Nat}

theorem span_digits {cs : List Char} (h : ∀ c ∈ cs, c.isDigit = true) :
    cs.span Char.isDigit = (cs, []) := by
  rw [List.span_eq_takeWhile_dropWhile, List.takeWhile_eq_self_iff.2 h,
    List.dropWhile_eq_nil_iff.2 h]

/-- Digits that stay within a word are gathered to their end. -/
theorem gather_eq {acc : Nat} {cs : List Char} (h : Nat.ofDigitChars 10 cs acc < wordLimit) :
    NumberText.gather acc cs = (Nat.ofDigitChars 10 cs acc, []) := by
  induction cs generalizing acc with
  | nil => rw [NumberText.gather, Nat.ofDigitChars_nil]
  | cons c cs ih =>
      rw [Nat.ofDigitChars_cons] at h ⊢
      have hprefix := Nat.lt_of_le_of_lt (le_ofDigitChars cs _) h
      rw [Nat.mul_comm] at h hprefix ⊢
      simp only [NumberText.gather, hprefix, if_true]
      exact ih h

theorem gather_digits (h : n < wordLimit) : NumberText.gather 0 (digits n) = (n, []) := by
  rw [gather_eq (by rw [ofDigitChars_digits]; exact h), ofDigitChars_digits]

/-- Digits follow the grammar of numbers. -/
theorem ofUnsigned?_digits (negative : Bool) (n : Nat) :
    NumberText.ofUnsigned? negative (digits n) = some ⟨negative, digits n, none, none⟩ := by
  have hspan := span_digits fun c (hc : c ∈ digits n) => isDigit_of_mem_digits hc
  have hguard : (!(digits n).isEmpty &&
      ((digits n).head? != some '0' || (digits n).length == 1)) = true := by
    rw [Bool.and_eq_true, Bool.not_eq_true', List.isEmpty_eq_false_iff, Bool.or_eq_true,
      bne_iff_ne, beq_iff_eq]
    exact ⟨digits_ne_nil n, head?_digits n⟩
  simp only [NumberText.ofUnsigned?, hspan, hguard, guard, if_true, NumberText.takeFraction?,
    NumberText.takeExponent?, Option.pure_def, Option.bind_eq_bind, Option.bind_some]

/-- A natural number of sixty-four bits is scanned as itself. -/
theorem numberToken?_digits (h : n < wordLimit) :
    Scanner.numberToken? (digits n) = some (.number (some (.natural n))) := by
  have hchars : NumberText.ofChars? (digits n) = some ⟨false, digits n, none, none⟩ := by
    unfold NumberText.ofChars?
    split
    · -- A sign is no digit.
      rename_i heq
      have hminus : '-' ∈ digits n := by
        rw [heq]
        exact List.mem_cons_self
      exact absurd (isDigit_of_mem_digits hminus) (by decide)
    · exact ofUnsigned?_digits false n
  rw [Scanner.numberToken?, hchars, Option.map_some, NumberText.value?, gather_digits h]
  rfl

/-- So is a negative one that fits with its sign. -/
theorem numberToken?_negative (hpos : 0 < n) (h : n ≤ signedLimit) :
    Scanner.numberToken? ('-' :: digits n) = some (.number (some (.negative n))) := by
  have hlt : n < wordLimit := Nat.lt_of_le_of_lt h (by decide)
  have hne : (n != 0) = true := by
    rw [bne_iff_ne]
    omega
  rw [Scanner.numberToken?, NumberText.ofChars?, ofUnsigned?_digits, Option.map_some,
    NumberText.value?, gather_digits hlt]
  simp only [Option.isNone_none, List.isEmpty_nil, Bool.and_self, Bool.not_true, hne, h,
    decide_true, Bool.or_true, if_true]

end Numbers

namespace Scanner

/-- A text whose first character, if it has one, goes on with neither a number
    nor a word. -/
def Apart (rest : List Char) : Prop :=
  ∀ c, rest.head? = some c → isNumeric c = false ∧ c.isLower = false

theorem apart_nil : Apart [] := fun _ h => absurd h (by simp only [List.head?_nil, reduceCtorEq,
  not_false_eq_true])

theorem apart_cons {c : Char} {rest : List Char} (hnumeric : isNumeric c = false)
    (hlower : c.isLower = false) : Apart (c :: rest) := by
  intro d hd
  rw [List.head?_cons, Option.some.injEq] at hd
  rw [← hd]
  exact ⟨hnumeric, hlower⟩

/-- Where a number or a word has come to its end, the scan goes on as if it had
    been between tokens. -/
theorem scan_ended {scanner : Scanner} {token : Token} {rest : List Char}
    (hfinish : scanner.finish? = some [token])
    (hstep : ∀ c, rest.head? = some c → scanner.step? c = do
      let ended ← scanner.finish?
      let (next, begun) ← begin? c
      pure (next, ended ++ begun)) :
    scanFrom? scanner rest = (scanFrom? .between rest).map (token :: ·) := by
  cases rest with
  | nil => rw [scanFrom?, hfinish]; rfl
  | cons c rest =>
      have hbetween : Scanner.between.step? c = begin? c := rfl
      rw [scanFrom?, scanFrom?, hstep c rfl, hfinish, hbetween]
      cases begin? c with
      | none => rfl
      | some begun =>
          simp only [Option.bind_eq_bind, Option.bind_some, Option.pure_def, Option.map_map]
          rfl

/-- The characters of a number, and what follows it. -/
theorem scan_number {chars rest : List Char} {token : Token} (pending : List Char)
    (hnumeric : ∀ c ∈ chars, isNumeric c = true)
    (htoken : numberToken? (pending.reverse ++ chars) = some token) (hrest : Apart rest) :
    scanFrom? (.number pending) (chars ++ rest) =
      (scanFrom? .between rest).map (token :: ·) := by
  induction chars generalizing pending with
  | nil =>
      rw [List.append_nil] at htoken
      refine scan_ended (by rw [finish?, htoken]; rfl) fun c hc => ?_
      rw [step?, (hrest c hc).1]
      rfl
  | cons c chars ih =>
      rw [List.forall_mem_cons] at hnumeric
      rw [List.cons_append, scanFrom?, step?, if_pos hnumeric.1]
      simp only [List.nil_append, Option.map_id']
      exact ih (c :: pending) hnumeric.2
        (by rw [List.reverse_cons, List.append_assoc, List.singleton_append]; exact htoken)

/-- The letters of a word, and what follows it. -/
theorem scan_word {letters rest : List Char} {token : Token} (pending : List Char)
    (hlower : ∀ c ∈ letters, c.isLower = true)
    (htoken : wordToken? (pending.reverse ++ letters) = some token) (hrest : Apart rest) :
    scanFrom? (.word pending) (letters ++ rest) =
      (scanFrom? .between rest).map (token :: ·) := by
  induction letters generalizing pending with
  | nil =>
      rw [List.append_nil] at htoken
      refine scan_ended (by rw [finish?, htoken]; rfl) fun c hc => ?_
      rw [step?, (hrest c hc).2]
      rfl
  | cons c letters ih =>
      rw [List.forall_mem_cons] at hlower
      rw [List.cons_append, scanFrom?, step?, if_pos hlower.1]
      simp only [List.nil_append, Option.map_id']
      exact ih (c :: pending) hlower.2
        (by rw [List.reverse_cons, List.append_assoc, List.singleton_append]; exact htoken)

section Strings

/-- The part of a string that a character is written as: itself, or its code
    where it has no escape of its own. -/
def pieceOf (c : Char) : Piece :=
  if c.toNat < 0x20 ∧ c ∉ ['\x08', '\t', '\n', '\x0c', '\r'] then .code c.toNat else .char c

/-- Written characters are assembled as they were. -/
theorem assemble?_map_pieceOf (cs : List Char) : assemble? (cs.map pieceOf) = some cs := by
  induction cs with
  | nil => rfl
  | cons c cs ih =>
      rw [List.map_cons, pieceOf]
      by_cases h : c.toNat < 0x20 ∧ c ∉ ['\x08', '\t', '\n', '\x0c', '\r']
      · -- The code of a control character is no half of a pair.
        have hlow : isLowSurrogate c.toNat = false := by
          rw [isLowSurrogate, Bool.and_eq_false_iff, decide_eq_false_iff_not]
          exact .inl (by omega)
        have hhigh : isHighSurrogate c.toNat = false := by
          rw [isHighSurrogate, Bool.and_eq_false_iff, decide_eq_false_iff_not]
          exact .inl (by omega)
        rw [if_pos h, assemble?.eq_def]
        simp only [hlow, hhigh, ih, Char.ofNat_toNat, Bool.false_eq_true, if_false, Option.map_some]
      · rw [if_neg h, assemble?, ih]
        rfl

theorem hexDigit?_hexDigit : ∀ n, n < 16 → hexDigit? (hexDigit n) = some n := by decide

/-- The characters that have an escape of one letter. -/
def lettered : List (Char × Char) :=
  [('"', '"'), ('\\', '\\'), ('\x08', 'b'), ('\t', 't'), ('\n', 'n'), ('\x0c', 'f'), ('\r', 'r')]

/-- Such an escape is scanned as its character. -/
theorem scan_lettered {entry : Char × Char} (h : entry ∈ lettered) (pieces : List Piece)
    (rest : List Char) :
    scanFrom? (.string pieces) (Json.escape entry.1 ++ rest) =
      scanFrom? (.string (pieceOf entry.1 :: pieces)) rest := by
  have hparts : Json.escape entry.1 = ['\\', entry.2] ∧ pieceOf entry.1 = .char entry.1 ∧
      entry.2 ≠ 'u' ∧ escaped? entry.2 = some entry.1 := by
    revert h
    revert entry
    decide
  rw [hparts.1, hparts.2.1]
  simp only [List.cons_append, List.nil_append, scanFrom?, step?, Char.reduceEq, if_false, if_true,
    hparts.2.2.1, hparts.2.2.2, Option.map_some, Option.map_id']

/-- The code of a control character is scanned to its last digit. -/
theorem scan_code {n : Nat} (h : n < 0x20) (pieces : List Piece) (rest : List Char) :
    scanFrom? (.string pieces)
        (['\\', 'u', '0', '0', hexDigit (n / 16), hexDigit (n % 16)] ++ rest) =
      scanFrom? (.string (.code n :: pieces)) rest := by
  have hzero : hexDigit? '0' = some 0 := rfl
  have hhigh := hexDigit?_hexDigit (n / 16) (by omega)
  have hlow := hexDigit?_hexDigit (n % 16) (Nat.mod_lt n (by decide))
  have hn : n / 16 * 16 + n % 16 = n := Nat.div_add_mod' n 16
  simp only [List.cons_append, List.nil_append, scanFrom?, step?, Char.reduceEq, if_false, if_true,
    hzero, hhigh, hlow, Option.map_some, Option.map_id', Nat.reduceLeDiff, Nat.reduceSub,
    Nat.zero_mul, Nat.zero_add, hn, Nat.le_refl]

/-- A character of a string is scanned as the part it is written as. -/
theorem scan_escape (c : Char) (pieces : List Piece) (rest : List Char) :
    scanFrom? (.string pieces) (Json.escape c ++ rest) =
      scanFrom? (.string (pieceOf c :: pieces)) rest := by
  by_cases hlettered : c ∈ lettered.map Prod.fst
  · rcases List.mem_map.1 hlettered with ⟨entry, hentry, rfl⟩
    exact scan_lettered hentry pieces rest
  · simp only [lettered, List.map_cons, List.map_nil, List.mem_cons, List.not_mem_nil, or_false,
      not_or] at hlettered
    rcases hlettered with ⟨hquote, hslash, h8, h9, h10, h12, h13⟩
    by_cases hcontrol : c.toNat < 0x20
    · have hescape : Json.escape c =
          ['\\', 'u', '0', '0', hexDigit (c.toNat / 16), hexDigit (c.toNat % 16)] := by
        simp only [Json.escape, hquote, hslash, h8, h9, h10, h12, h13, hcontrol, if_false, if_true]
      have hpiece : pieceOf c = .code c.toNat := by
        simp only [pieceOf, List.mem_cons, List.not_mem_nil, h8, h9, h10, h12, h13, hcontrol,
          or_false, not_false_eq_true, and_self, if_true]
      rw [hescape, hpiece]
      exact scan_code hcontrol pieces rest
    · -- Any other character stands for itself.
      have hescape : Json.escape c = [c] := by
        simp only [Json.escape, hquote, hslash, h8, h9, h10, h12, h13, hcontrol, if_false]
      have hpiece : pieceOf c = .char c := by
        simp only [pieceOf, hcontrol, false_and, if_false]
      rw [hescape, hpiece, List.singleton_append, scanFrom?, step?, if_neg hquote, if_neg hslash,
        if_neg hcontrol]
      simp only [List.nil_append, Option.map_id']

/-- A string in quotes is scanned as itself. -/
theorem scan_quoted (s : String) (rest : List Char) :
    scanFrom? .between (quoted s ++ rest) =
      (scanFrom? .between rest).map (.string (some s) :: ·) := by
  -- What has been scanned of the string is kept with its last part first.
  have hinside (cs : List Char) (pieces : List Piece) :
      scanFrom? (.string pieces) (cs.flatMap Json.escape ++ '"' :: rest) =
        (scanFrom? .between rest).map
          (stringToken (pieces.reverse ++ cs.map pieceOf) :: ·) := by
    induction cs generalizing pieces with
    | nil =>
        rw [List.flatMap_nil, List.nil_append, scanFrom?, step?, if_pos rfl, List.map_nil,
          List.append_nil]
        rfl
    | cons c cs ih =>
        rw [List.flatMap_cons, List.append_assoc, scan_escape, ih, List.reverse_cons,
          List.append_assoc, List.map_cons, List.singleton_append]
  have hquote : begin? '"' = some (.string [], []) := rfl
  rw [quoted, List.cons_append, List.append_assoc, List.singleton_append, scanFrom?, step?, hquote]
  simp only [List.nil_append, Option.map_id', hinside, List.reverse_nil, stringToken,
    assemble?_map_pieceOf, Option.map_some, String.ofList_toList]

end Strings

section Texts

variable {text text' : List Char} {ts ts' : List Token}

/-- A text that is scanned to the given tokens, as long as what follows it begins
    apart. -/
def Scans (text : List Char) (ts : List Token) : Prop :=
  ∀ rest, Apart rest → scanFrom? .between (text ++ rest) = (scanFrom? .between rest).map (ts ++ ·)

theorem scans_nil : Scans [] [] := by
  intro rest _
  simp only [List.nil_append, Option.map_id']

/-- Two texts in turn, of which the second one begins apart. -/
theorem Scans.append (h : Scans text ts) (h' : Scans text' ts')
    (hlead : ∀ rest, Apart rest → Apart (text' ++ rest)) : Scans (text ++ text') (ts ++ ts') := by
  intro rest hrest
  rw [List.append_assoc, h _ (hlead rest hrest), h' rest hrest, Option.map_map]
  simp only [Function.comp_def, List.append_assoc]

/-- A character that is a token by itself. -/
theorem Scans.cons {c : Char} {token : Token} (hbegin : begin? c = some (.between, [token]))
    (h : Scans text ts) : Scans (c :: text) (token :: ts) := by
  intro rest hrest
  rw [List.cons_append, scanFrom?, step?, hbegin]
  simp only [h rest hrest, Option.map_map, Function.comp_def, List.cons_append, List.nil_append]

/-- Blanks in front of a text. -/
theorem Scans.blanks {blanks : List Char} (hblanks : ∀ c ∈ blanks, isSpace c = true)
    (h : Scans text ts) : Scans (blanks ++ text) ts := by
  intro rest hrest
  induction blanks with
  | nil => exact h rest hrest
  | cons c blanks ih =>
      rw [List.forall_mem_cons] at hblanks
      rw [List.cons_append, List.cons_append, scanFrom?, step?, begin?.eq_def, if_pos hblanks.1]
      simp only [List.nil_append, Option.map_id']
      exact ih hblanks.2

theorem Scans.newline (layout : Layout) (h : Scans text ts) :
    Scans (layout.newline ++ text) ts := by
  refine h.blanks fun c hc => ?_
  cases layout with
  | compact => exact absurd hc List.not_mem_nil
  | pretty level =>
      rcases List.mem_cons.1 hc with rfl | hc
      · rfl
      · rw [List.eq_of_mem_replicate hc]
        rfl

theorem Scans.afterColon (layout : Layout) (h : Scans text ts) :
    Scans (layout.afterColon ++ text) ts := by
  refine h.blanks fun c hc => ?_
  cases layout with
  | compact => exact absurd hc List.not_mem_nil
  | pretty level =>
      rw [List.mem_singleton.1 hc]
      rfl

/-- A string in front of a text. -/
theorem Scans.quoted (s : String) (h : Scans text ts) :
    Scans (Json.quoted s ++ text) (.string (some s) :: ts) := by
  intro rest hrest
  rw [List.append_assoc, scan_quoted, h rest hrest, Option.map_map]
  rfl

/-- A whole word. -/
theorem scans_word {c : Char} {letters : List Char} {token : Token}
    (hbegin : begin? c = some (.word [c], [])) (hlower : letters.all Char.isLower = true)
    (htoken : wordToken? (c :: letters) = some token) : Scans (c :: letters) [token] := by
  intro rest hrest
  rw [List.cons_append, scanFrom?, step?, hbegin]
  simp only [List.nil_append, Option.map_id']
  exact scan_word [c] (List.all_eq_true.1 hlower) htoken hrest

/-- A whole number. -/
theorem scans_number {c : Char} {chars : List Char} {token : Token}
    (hbegin : begin? c = some (.number [c], [])) (hnumeric : ∀ d ∈ chars, isNumeric d = true)
    (htoken : numberToken? (c :: chars) = some token) : Scans (c :: chars) [token] := by
  intro rest hrest
  rw [List.cons_append, scanFrom?, step?, hbegin]
  simp only [List.nil_append, Option.map_id']
  exact scan_number [c] hnumeric htoken hrest

theorem isNumeric_of_isDigit {c : Char} (h : c.isDigit = true) : isNumeric c = true := by
  simp only [isNumeric, h, Bool.true_or]

theorem begin?_of_isDigit {c : Char} (h : c.isDigit = true) :
    begin? c = some (.number [c], []) := by
  have hne {d : Char} (hd : d.isDigit = false) : c ≠ d := by
    intro heq
    rw [← heq, h] at hd
    exact absurd hd (by decide)
  have hspace : isSpace c = false := by
    simp only [isSpace, hne (d := ' ') rfl, hne (d := '\t') rfl, hne (d := '\n') rfl,
      hne (d := '\r') rfl, decide_false, Bool.or_self]
  rw [begin?.eq_def, hspace, if_neg (by decide), if_neg (hne rfl), h]
  rfl

/-- The digits of a number, which may stand behind a sign. -/
theorem scans_digits {n : Nat} {token : Token} (htoken : numberToken? (digits n) = some token) :
    Scans (digits n) [token] := by
  have hdigits : ∀ c ∈ digits n, c.isDigit = true := fun c hc => isDigit_of_mem_digits hc
  have hne := digits_ne_nil n
  generalize digits n = cs at htoken hdigits hne
  rcases List.exists_cons_of_ne_nil hne with ⟨c, chars, rfl⟩
  rw [List.forall_mem_cons] at hdigits
  exact scans_number (begin?_of_isDigit hdigits.1)
    (fun d hd => isNumeric_of_isDigit (hdigits.2 d hd)) htoken

end Texts

section Values

/-- What stands in front of a further element, and of the end of a container,
    begins apart. -/
theorem apart_newline (layout : Layout) {rest : List Char} (hrest : Apart rest) :
    Apart (layout.newline ++ rest) := by
  cases layout with
  | compact => exact hrest
  | pretty level => exact apart_cons rfl rfl

theorem apart_writeElements (layout : Layout) (vs : List Json) {rest : List Char}
    (hrest : Apart rest) : Apart (writeElements layout vs ++ rest) := by
  cases vs with
  | nil => exact hrest
  | cons v vs => exact apart_cons rfl rfl

theorem apart_writeMembers (layout : Layout) (ms : List (String × Json)) {rest : List Char}
    (hrest : Apart rest) : Apart (writeMembers layout ms ++ rest) := by
  cases ms with
  | nil => exact hrest
  | cons m ms => exact apart_cons rfl rfl

theorem scans_writeElements {vs : List Json}
    (h : ∀ v ∈ vs, ∀ layout, Scans (write layout v) (tokens v)) (layout : Layout) :
    Scans (writeElements layout vs) (elementTokens vs) := by
  induction vs with
  | nil => exact scans_nil
  | cons v vs ih =>
      rw [List.forall_mem_cons] at h
      rw [writeElements, elementTokens, List.append_assoc]
      exact .cons rfl (.newline layout ((h.1 layout).append (ih h.2) fun rest hrest =>
        apart_writeElements layout vs hrest))

/-- A name with its value. -/
theorem scans_writeMember {m : String × Json}
    (h : ∀ layout, Scans (write layout m.2) (tokens m.2)) (layout : Layout) :
    Scans (writeMember layout m) (memberTokens m) := by
  rcases m with ⟨name, v⟩
  rw [writeMember, memberTokens]
  exact .quoted name (.cons rfl (.afterColon layout (h layout)))

theorem scans_writeMembers {ms : List (String × Json)}
    (h : ∀ m ∈ ms, ∀ layout, Scans (write layout m.2) (tokens m.2)) (layout : Layout) :
    Scans (writeMembers layout ms) (membersTokens ms) := by
  induction ms with
  | nil => exact scans_nil
  | cons m ms ih =>
      rw [List.forall_mem_cons] at h
      rw [writeMembers, membersTokens, List.append_assoc]
      exact .cons rfl (.newline layout ((scans_writeMember h.1 layout).append (ih h.2)
        fun rest hrest => apart_writeMembers layout ms hrest))

/-- The text of an exact value, in any layout, is scanned to its tokens. -/
theorem scans_write {v : Json} (h : Exact v) (layout : Layout) :
    Scans (write layout v) (tokens v) := by
  induction h generalizing layout with
  | null => exact scans_word rfl rfl rfl
  | bool b =>
      cases b with
      | true => exact scans_word rfl rfl rfl
      | false => exact scans_word rfl rfl rfl
  | natural h => exact scans_digits (numberToken?_digits h)
  | @negative n hpos h =>
      exact scans_number rfl (fun d hd => isNumeric_of_isDigit (isDigit_of_mem_digits hd))
        (numberToken?_negative hpos h)
  | string s =>
      have hquoted := Scans.quoted s scans_nil
      rwa [List.append_nil] at hquoted
  | @array vs _ ih =>
      cases vs with
      | nil => exact .cons rfl (.cons rfl scans_nil)
      | cons v vs =>
          rw [List.forall_mem_cons] at ih
          rw [write, tokens, List.append_assoc, List.append_assoc, List.append_assoc,
            List.append_assoc]
          -- The end of the array begins apart, and so do further elements.
          have hend : Scans (layout.newline ++ [']']) [.closeArray] :=
            .newline layout (.cons rfl scans_nil)
          have hrest := (scans_writeElements ih.2 layout.inner).append hend fun rest _ =>
            (by rw [List.append_assoc]; exact apart_newline layout (apart_cons rfl rfl))
          exact .cons rfl (.newline layout.inner ((ih.1 layout.inner).append hrest fun rest _ =>
            (by
              rw [List.append_assoc, List.append_assoc]
              exact apart_writeElements _ vs (apart_newline layout (apart_cons rfl rfl)))))
  | @object ms _ ih =>
      cases ms with
      | nil => exact .cons rfl (.cons rfl scans_nil)
      | cons m ms =>
          rw [List.forall_mem_cons] at ih
          rw [write, tokens, List.append_assoc, List.append_assoc, List.append_assoc,
            List.append_assoc]
          have hend : Scans (layout.newline ++ ['\x7d']) [.closeObject] :=
            .newline layout (.cons rfl scans_nil)
          have hrest := (scans_writeMembers ih.2 layout.inner).append hend fun rest _ =>
            (by rw [List.append_assoc]; exact apart_newline layout (apart_cons rfl rfl))
          exact .cons rfl (.newline layout.inner ((scans_writeMember ih.1 layout.inner).append hrest
            fun rest _ => (by
              rw [List.append_assoc, List.append_assoc]
              exact apart_writeMembers _ ms (apart_newline layout (apart_cons rfl rfl)))))

end Values

end Scanner

/-- The text of an exact value is scanned to its tokens, with or without blanks
    behind it. -/
theorem scan?_write {v : Json} (h : Exact v) (layout : Layout) {blanks : List Char}
    (hblanks : ∀ c ∈ blanks, Scanner.isSpace c = true) :
    scan? (write layout v ++ blanks) = some (tokens v) := by
  have happart : Scanner.Apart blanks := by
    intro c hc
    have hspace := hblanks c (List.mem_of_mem_head? hc)
    simp only [Scanner.isSpace, Bool.or_eq_true, decide_eq_true_eq] at hspace
    rcases hspace with ((rfl | rfl) | rfl) | rfl
    all_goals exact ⟨rfl, rfl⟩
  have hnothing : Scanner.scanFrom? .between blanks = some [] := by
    have hscans := Scanner.Scans.blanks hblanks Scanner.scans_nil [] Scanner.apart_nil
    rwa [List.append_nil, List.append_nil] at hscans
  rw [scan?, Scanner.scans_write h layout blanks happart, hnothing, Option.map_some,
    List.append_nil]

end Json

end Covering
