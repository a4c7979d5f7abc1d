import Mathlib.Data.List.TakeWhile
import Lineage.Json.Text

/-!
What is written is read back. A text is cut into the lexemes that it was written with, since no
lexeme takes in the front of the next one, and the reader puts the lexemes of a value together
again, whatever containers are open around it.
-/

namespace Lineage.Json

section Numbers

/-- A rest of a text that cannot be taken for more of a number before it. -/
def Detached (cs : List Char) : Prop :=
  ∀ c ∈ cs.head?, c.isDigit = false ∧ c ≠ '.' ∧ c ≠ 'e' ∧ c ≠ 'E'

theorem spanDigits_append {ds rest : List Char} (hds : ∀ c ∈ ds, c.isDigit = true)
    (hrest : ∀ c ∈ rest.head?, c.isDigit = false) : spanDigits (ds ++ rest) = (ds, rest) := by
  have hstop : rest.takeWhile Char.isDigit = [] ∧ rest.dropWhile Char.isDigit = rest := by
    cases rest with
    | nil => exact ⟨rfl, rfl⟩
    | cons c rest => simp [hrest c rfl]
  rw [spanDigits, List.takeWhile_append_of_pos hds, List.dropWhile_append_of_pos hds, hstop.1,
    hstop.2, List.append_nil]

theorem isDigit_of_mem_digits {n : Nat} {c : Char} (h : c ∈ Decimal.digits n) :
    c.isDigit = true :=
  Nat.isDigit_of_mem_toDigits (by decide) (by decide) h

theorem ofDigits_digits (n : Nat) : Number.ofDigits (Decimal.digits n) = n :=
  Nat.ofDigitChars_toDigits (by decide) (by decide)

theorem digitChar_ne_zero : ∀ n < 10, n ≠ 0 → n.digitChar ≠ '0' := by
  decide

theorem head?_digits_ne_zero {n : Nat} (h : n ≠ 0) : (Decimal.digits n).head? ≠ some '0' := by
  induction n using Nat.strong_induction_on with
  | _ n ih =>
      unfold Decimal.digits
      by_cases hlt : n < 10
      · rw [Nat.toDigits_of_lt_base hlt]
        simpa using digitChar_ne_zero n hlt h
      · have hle : 10 ≤ n := Nat.le_of_not_lt hlt
        have hhead := ih (n / 10) (by omega) (by omega)
        obtain ⟨c, ds, hdigits⟩ := List.exists_cons_of_ne_nil (@Nat.toDigits_ne_nil (n / 10) 10)
        rw [Decimal.digits, hdigits] at hhead
        rw [Nat.toDigits_of_base_le (by decide) hle, hdigits]
        exact hhead

theorem exists_digits_eq_cons (n : Nat) : ∃ c ds, Decimal.digits n = c :: ds :=
  List.exists_cons_of_ne_nil Nat.toDigits_ne_nil

theorem readWhole?_digits (n : Nat) {rest : List Char}
    (hrest : ∀ c ∈ rest.head?, c.isDigit = false) :
    readWhole? (Decimal.digits n ++ rest) = some (n, rest) := by
  rcases Nat.eq_zero_or_pos n with rfl | hpos
  · rfl
  · obtain ⟨c, ds, hdigits⟩ := exists_digits_eq_cons n
    have hhead := head?_digits_ne_zero (Nat.ne_of_gt hpos)
    have hall : ∀ d ∈ Decimal.digits n, d.isDigit = true := fun d => isDigit_of_mem_digits
    have hvalue := ofDigits_digits n
    rw [hdigits] at hhead hall hvalue ⊢
    obtain ⟨hc, hds⟩ := List.forall_mem_cons.mp hall
    have hne : c ≠ '0' := fun heq => hhead (by rw [heq]; rfl)
    rw [List.cons_append, readWhole?, if_pos hc, spanDigits_append hds hrest, hvalue]
    exact fun heq => hne heq

theorem readFraction?_chars {fraction rest : List Char} (hdigits : ∀ c ∈ fraction, c.isDigit = true)
    (hrest : ∀ c ∈ rest.head?, c.isDigit = false ∧ c ≠ '.') :
    readFraction? ((if fraction.isEmpty then [] else '.' :: fraction) ++ rest) =
      some (fraction, rest) := by
  cases fraction with
  | nil =>
      rw [List.isEmpty_nil, if_pos rfl, List.nil_append]
      unfold readFraction?
      split
      · exact absurd rfl (hrest '.' rfl).2
      · rfl
  | cons c cs =>
      have hspan := spanDigits_append hdigits fun d hd => (hrest d hd).1
      rw [List.isEmpty_cons, if_neg Bool.false_ne_true, List.cons_append, readFraction?, hspan]

theorem readExponentDigits?_digits (sign : Int) (n : Nat) {rest : List Char}
    (hrest : ∀ c ∈ rest.head?, c.isDigit = false) :
    readExponentDigits? sign (Decimal.digits n ++ rest) = some (some (sign * n), rest) := by
  rw [readExponentDigits?, spanDigits_append (fun _ => isDigit_of_mem_digits) hrest]
  obtain ⟨c, ds, hdigits⟩ := exists_digits_eq_cons n
  have hvalue := ofDigits_digits n
  rw [hdigits] at hvalue ⊢
  simp only [hvalue]

theorem readExponent?_chars (exponent : Option Int) {rest : List Char} (hrest : Detached rest) :
    readExponent? (exponentChars exponent ++ rest) = some (exponent, rest) := by
  cases exponent with
  | none =>
      cases rest with
      | nil => rfl
      | cons c rest =>
          obtain ⟨-, -, hlower, hupper⟩ := hrest c rfl
          simp [exponentChars, readExponent?, hlower, hupper]
  | some e =>
      have hdigits := fun sign =>
        readExponentDigits?_digits sign e.natAbs fun c hc => (hrest c hc).1
      by_cases hneg : e < 0
      · have habs : -1 * (e.natAbs : Int) = e := by omega
        have hread := hdigits (-1)
        rw [habs] at hread
        simpa [exponentChars, readExponent?, hneg] using hread
      · have habs : 1 * (e.natAbs : Int) = e := by omega
        have hread := hdigits 1
        rw [habs] at hread
        simpa [exponentChars, readExponent?, hneg] using hread

theorem head?_exponentChars_append (exponent : Option Int) {rest : List Char}
    (hrest : Detached rest) :
    ∀ c ∈ (exponentChars exponent ++ rest).head?, c.isDigit = false ∧ c ≠ '.' := by
  cases exponent with
  | none => exact fun c hc => ⟨(hrest c hc).1, (hrest c hc).2.1⟩
  | some e =>
      rintro c ⟨⟩
      decide

theorem readUnsigned?_chars (n : Number) (hdigits : ∀ c ∈ n.fraction, c.isDigit = true)
    {rest : List Char} (hrest : Detached rest) :
    readUnsigned? n.negative (Decimal.digits n.whole ++
        ((if n.fraction.isEmpty then [] else '.' :: n.fraction) ++
          (exponentChars n.exponent ++ rest))) = some (n, rest) := by
  have hexponent := head?_exponentChars_append n.exponent hrest
  have hfraction : ∀ c ∈ ((if n.fraction.isEmpty then [] else '.' :: n.fraction) ++
      (exponentChars n.exponent ++ rest)).head?, c.isDigit = false := by
    intro c hc
    split at hc
    · exact (hexponent c hc).1
    · cases hc
      decide
  rw [readUnsigned?, readWhole?_digits n.whole hfraction]
  simp only [readFraction?_chars hdigits hexponent, readExponent?_chars n.exponent hrest]

theorem readNumber?_chars (n : Number) (hdigits : ∀ c ∈ n.fraction, c.isDigit = true)
    {rest : List Char} (hrest : Detached rest) :
    readNumber? (n.chars ++ rest) = some (n, rest) := by
  have hunsigned := readUnsigned?_chars n hdigits hrest
  simp only [Number.chars, List.append_assoc]
  cases hsign : n.negative with
  | true =>
      rw [hsign] at hunsigned
      exact hunsigned
  | false =>
      rw [hsign] at hunsigned
      obtain ⟨c, ds, hwhole⟩ := exists_digits_eq_cons n.whole
      have hc : c.isDigit = true := isDigit_of_mem_digits (n := n.whole) (by simp [hwhole])
      rw [hwhole] at hunsigned ⊢
      simp only [Bool.false_eq_true, if_false, List.nil_append, List.cons_append] at hunsigned ⊢
      rw [readNumber?]
      · exact hunsigned
      · intro tail heq
        cases heq
        simp at hc

end Numbers

section Strings

theorem hexValue?_hexDigit : ∀ n < 16, hexValue? (hexDigit n) = some n := by
  decide

/-- The piece that an escaped character is read as. -/
def piece (c : Char) : Piece :=
  if c.toNat < 0x20 ∧ c.toNat ∉ [8, 9, 10, 12, 13] then .unit c.toNat else .char c

/-- Reading goes on after one more piece. -/
def withPiece (piece : Piece) (read : Option (List Piece × List Char)) :
    Option (List Piece × List Char) :=
  read.map fun (pieces, rest) => (piece :: pieces, rest)

theorem readPieces_of_short {c char : Char} (h : shortEscape? c = some char) (rest : List Char) :
    readPieces ('\\' :: c :: rest) = withPiece (.char char) (readPieces rest) := by
  have hu : c ≠ 'u' := by
    rintro rfl
    simp [shortEscape?] at h
  rw [readPieces, h]
  · cases readPieces rest <;> rfl
  · exact fun _ _ _ _ _ heq => absurd heq hu

theorem readPieces_of_unit {a b c d : Char} {code : Nat} (h : hexUnit? a b c d = some code)
    (rest : List Char) :
    readPieces ('\\' :: 'u' :: a :: b :: c :: d :: rest) =
      withPiece (.unit code) (readPieces rest) := by
  rw [readPieces, h]
  cases readPieces rest <;> rfl

theorem readPieces_of_plain {c : Char} (hquote : c ≠ '"') (hslash : c ≠ '\\')
    (hprint : 0x20 ≤ c.toNat) (rest : List Char) :
    readPieces (c :: rest) = withPiece (.char c) (readPieces rest) := by
  rw [readPieces, if_neg (Nat.not_lt.mpr hprint)]
  · cases readPieces rest <;> rfl
  all_goals simp_all

theorem hexUnit?_hexDigits {n : Nat} (h : n < 256) :
    hexUnit? '0' '0' (hexDigit (n / 16)) (hexDigit (n % 16)) = some n := by
  have hzero : hexValue? '0' = some 0 := rfl
  rw [hexUnit?, hzero, hexValue?_hexDigit _ (by omega), hexValue?_hexDigit _ (by omega)]
  exact congrArg some (by omega)

theorem eq_ofNat_of_toNat_eq {c : Char} {n : Nat} (h : c.toNat = n) : c = Char.ofNat n := by
  rw [← h, Char.ofNat_toNat]

theorem readPieces_escape (c : Char) (rest : List Char) :
    readPieces (escape c ++ rest) = withPiece (piece c) (readPieces rest) := by
  unfold escape
  split_ifs with hquote hslash hback hfeed hline hreturn htab hcontrol
  · subst hquote
    exact readPieces_of_short rfl rest
  · subst hslash
    exact readPieces_of_short rfl rest
  · cases eq_ofNat_of_toNat_eq hback
    exact readPieces_of_short rfl rest
  · cases eq_ofNat_of_toNat_eq hfeed
    exact readPieces_of_short rfl rest
  · subst hline
    exact readPieces_of_short rfl rest
  · subst hreturn
    exact readPieces_of_short rfl rest
  · subst htab
    exact readPieces_of_short rfl rest
  · have hpiece : piece c = .unit c.toNat := by
      refine if_pos ⟨hcontrol, ?_⟩
      have hne : ∀ n, c ≠ Char.ofNat n → c.toNat ≠ n :=
        fun n hn heq => hn (eq_ofNat_of_toNat_eq heq)
      simp [hback, hfeed, hne 9 htab, hne 10 hline, hne 13 hreturn]
    rw [hpiece]
    exact readPieces_of_unit (hexUnit?_hexDigits (Nat.lt_trans hcontrol (by decide))) rest
  · have hpiece : piece c = .char c := if_neg fun h => hcontrol h.1
    rw [hpiece]
    exact readPieces_of_plain hquote hslash (Nat.le_of_not_lt hcontrol) rest

theorem assemble_unit {code : Nat} (h : code < 0xD800) (rest : List Piece) :
    assemble (.unit code :: rest) = (assemble rest).map (Char.ofNat code :: ·) := by
  have hhigh : isHighSurrogate code = false := by
    simp only [isHighSurrogate, Bool.and_eq_false_iff, decide_eq_false_iff_not]
    omega
  have hlow : isLowSurrogate code = false := by
    simp only [isLowSurrogate, Bool.and_eq_false_iff, decide_eq_false_iff_not]
    omega
  match rest with
  | [] | .char _ :: _ | .unit _ :: _ => simp [assemble, hhigh, hlow]

theorem assemble_piece (c : Char) (rest : List Piece) :
    assemble (piece c :: rest) = (assemble rest).map (c :: ·) := by
  unfold piece
  split
  · next h =>
    rw [assemble_unit (Nat.lt_trans h.1 (by decide)), Char.ofNat_toNat]
  · rw [assemble]

theorem readPieces_escaped (cs rest : List Char) :
    readPieces (cs.flatMap escape ++ '"' :: rest) = some (cs.map piece, rest) := by
  induction cs with
  | nil => simp [readPieces]
  | cons c cs ih =>
      rw [List.flatMap_cons, List.append_assoc, readPieces_escape, ih]
      rfl

theorem assemble_map_piece (cs : List Char) : assemble (cs.map piece) = some cs := by
  induction cs with
  | nil => rfl
  | cons c cs ih => rw [List.map_cons, assemble_piece, ih, Option.map_some]

end Strings

section Lexemes

namespace Lexeme

/-- What can be written and read: a string has a text, and a fraction has digits only. -/
def Legible : Lexeme → Prop
  | .number n => ∀ c ∈ n.fraction, c.isDigit = true
  | .string text => text.isSome = true
  | _ => True

def isNumber : Lexeme → Bool
  | .number _ => true
  | _ => false

/-- What ends an item or a member. -/
def isEnd (lexeme : Lexeme) : Bool :=
  lexeme == .comma || lexeme == .closeBracket || lexeme == .closeBrace

theorem exists_number_chars (n : Number) :
    ∃ c cs, n.chars = c :: cs ∧ (c = '-' ∨ c.isDigit = true) := by
  obtain ⟨c, ds, hwhole⟩ := exists_digits_eq_cons n.whole
  have hc : c.isDigit = true := isDigit_of_mem_digits (n := n.whole) (by simp [hwhole])
  cases hsign : n.negative with
  | true => exact ⟨'-', _, by rw [Number.chars, hsign]; rfl, Or.inl rfl⟩
  | false => exact ⟨c, _, by rw [Number.chars, hsign, hwhole]; rfl, Or.inr hc⟩

end Lexeme

theorem lexeme?_number {n : Number} {cs rest : List Char} {c : Char}
    (hstart : c = '-' ∨ c.isDigit = true) (h : readNumber? (c :: cs) = some (n, rest)) :
    lexeme? (c :: cs) = some (.number n, rest) := by
  have hne : ∀ d : Char, d ≠ '-' → d.isDigit = false → c ≠ d := by
    rintro d hminus hdigit rfl
    rcases hstart with hstart | hstart
    · exact hminus hstart
    · exact Bool.false_ne_true (hdigit.symm.trans hstart)
  rw [lexeme?, h]
  all_goals exact fun _ heq => hne _ (by decide) (by decide) (List.cons.inj heq).1

theorem lexeme?_chars {lexeme : Lexeme} (h : lexeme.Legible) {rest : List Char}
    (hrest : lexeme.isNumber = true → Detached rest) :
    lexeme? (lexeme.chars ++ rest) = some (lexeme, rest) := by
  cases lexeme with
  | openBrace | closeBrace | openBracket | closeBracket | colon | comma | null => rfl
  | bool value => cases value <;> rfl
  | number n =>
      obtain ⟨c, cs, hchars, hstart⟩ := Lexeme.exists_number_chars n
      have hread := readNumber?_chars n h (hrest rfl)
      rw [hchars, List.cons_append] at hread
      rw [Lexeme.chars, hchars]
      exact lexeme?_number hstart hread
  | string text =>
      obtain ⟨s, rfl⟩ := Option.isSome_iff_exists.mp h
      simp [Lexeme.chars, quote, lexeme?, readPieces_escaped, assemble_map_piece]

theorem Lexeme.exists_chars (lexeme : Lexeme) :
    ∃ c cs, lexeme.chars = c :: cs ∧ isBlank c = false := by
  cases lexeme with
  | openBrace | closeBrace | openBracket | closeBracket | colon | comma | null | string =>
      exact ⟨_, _, rfl, by decide⟩
  | bool value => cases value <;> exact ⟨_, _, rfl, by decide⟩
  | number n =>
      obtain ⟨c, cs, hchars, hstart⟩ := exists_number_chars n
      refine ⟨c, cs, hchars, Bool.eq_false_iff.mpr fun hblank => ?_⟩
      simp only [isBlank, Bool.or_eq_true, decide_eq_true_eq] at hblank
      rcases hblank with ((rfl | rfl) | rfl) | rfl <;> simp at hstart

theorem lexemes?_chars {lexeme : Lexeme} (h : lexeme.Legible) {rest : List Char}
    (hrest : lexeme.isNumber = true → Detached rest) :
    lexemes? (lexeme.chars ++ rest) = (lexemes? rest).map (lexeme :: ·) := by
  obtain ⟨c, cs, hchars, hblank⟩ := lexeme.exists_chars
  have hread := lexeme?_chars h hrest
  rw [hchars, List.cons_append] at hread ⊢
  have hdrop : (c :: (cs ++ rest)).dropWhile isBlank = c :: (cs ++ rest) := by simp [hblank]
  rw [lexemes?]
  split
  · next heq => simp [hdrop] at heq
  · next heq =>
    rw [hdrop] at heq
    cases heq
    split
    · next hlexeme =>
      rw [hread] at hlexeme
      cases hlexeme
      rfl
    · next hnone =>
      rw [hread] at hnone
      cases hnone

/-- Lexemes that are told apart in a text, whatever follows behind the last one of them. -/
def Cut (front : List Lexeme) : Prop :=
  ∀ rest, Detached rest →
    lexemes? (front.flatMap Lexeme.chars ++ rest) = (lexemes? rest).map (front ++ ·)

theorem Cut.nil : Cut [] := by
  intro rest _
  simp

theorem Cut.singleton {lexeme : Lexeme} (h : lexeme.Legible) : Cut [lexeme] := by
  intro rest hrest
  rw [List.flatMap_singleton]
  exact lexemes?_chars h fun _ => hrest

theorem Cut.cons {lexeme : Lexeme} {front : List Lexeme} (h : lexeme.Legible)
    (hnumber : lexeme.isNumber = false) (hfront : Cut front) : Cut (lexeme :: front) := by
  intro rest hrest
  rw [List.flatMap_cons, List.append_assoc,
    lexemes?_chars h fun htrue => absurd htrue (by simp [hnumber]), hfront rest hrest,
    Option.map_map]
  rfl

theorem detached_of_isEnd {lexeme : Lexeme} (h : lexeme.isEnd = true) (rest : List Char) :
    Detached (lexeme.chars ++ rest) := by
  simp only [Lexeme.isEnd, Bool.or_eq_true, beq_iff_eq] at h
  rcases h with (rfl | rfl) | rfl <;> rintro c ⟨⟩ <;> decide

theorem Cut.append {front back : List Lexeme} {lexeme : Lexeme} (hfront : Cut front)
    (hend : lexeme.isEnd = true) (hback : Cut (lexeme :: back)) :
    Cut (front ++ lexeme :: back) := by
  intro rest hrest
  have hdetached : Detached ((lexeme :: back).flatMap Lexeme.chars ++ rest) := by
    rw [List.flatMap_cons, List.append_assoc]
    exact detached_of_isEnd hend _
  rw [List.flatMap_append, List.append_assoc, hfront _ hdetached, hback rest hrest, Option.map_map]
  refine congrArg (Option.map · _) (funext fun lexemes => ?_)
  simp

mutual

theorem cut_lexemes : (value : Json) → (∀ lexeme ∈ value.lexemes, lexeme.Legible) →
    Cut value.lexemes
  | .null, h | .bool _, h | .number _, h | .string _, h => .singleton (h _ List.mem_cons_self)
  | .array items, h => by
      rw [lexemes] at h ⊢
      have hitems := cut_itemLexemes items fun lexeme hlexeme => h lexeme (by simp [hlexeme])
      have hopen : Cut (.openBracket :: itemLexemes items) := .cons trivial rfl hitems
      exact hopen.append rfl (.singleton trivial)
  | .object members, h => by
      rw [lexemes] at h ⊢
      have hmembers := cut_memberLexemes members fun lexeme hlexeme => h lexeme (by simp [hlexeme])
      have hopen : Cut (.openBrace :: memberLexemes members) := .cons trivial rfl hmembers
      exact hopen.append rfl (.singleton trivial)

theorem cut_itemLexemes : (items : List Json) → (∀ lexeme ∈ itemLexemes items, lexeme.Legible) →
    Cut (itemLexemes items)
  | [], _ => .nil
  | [item], h => cut_lexemes item h
  | item :: second :: rest, h => by
      rw [itemLexemes] at h ⊢
      · have hitem := cut_lexemes item fun lexeme hlexeme => h lexeme (by simp [hlexeme])
        have hrest := cut_itemLexemes (second :: rest) fun lexeme hlexeme =>
          h lexeme (by simp [hlexeme])
        exact hitem.append rfl (.cons trivial rfl hrest)
      · simp
      · simp

theorem cut_memberLexemes : (members : List (Option String × Json)) →
    (∀ lexeme ∈ memberLexemes members, lexeme.Legible) → Cut (memberLexemes members)
  | [], _ => .nil
  | [(key, value)], h => by
      rw [memberLexemes] at h ⊢
      have hvalue := cut_lexemes value fun lexeme hlexeme => h lexeme (by simp [hlexeme])
      exact .cons (h (.string key) (by simp)) rfl (.cons trivial rfl hvalue)
  | (key, value) :: second :: rest, h => by
      rw [memberLexemes] at h ⊢
      · have hvalue := cut_lexemes value fun lexeme hlexeme => h lexeme (by simp [hlexeme])
        have hrest := cut_memberLexemes (second :: rest) fun lexeme hlexeme =>
          h lexeme (by simp [hlexeme])
        have hmember : Cut (.string key :: .colon :: lexemes value) :=
          .cons (h (.string key) (by simp)) rfl (.cons trivial rfl hvalue)
        exact hmember.append rfl (.cons trivial rfl hrest)
      · simp
      · simp

end

end Lexemes

section Values

open ReadState

theorem run_cons (state : ReadState) (lexeme : Lexeme) (rest : List Lexeme) :
    run state (lexeme :: rest) = (step state lexeme).bind fun state => run state rest :=
  rfl

theorem run_itemOrEnd (item : Json) (items : List Json) (stack : List Frame) (rest : List Lexeme) :
    run ⟨stack, .itemOrEnd⟩ (itemLexemes (item :: items) ++ rest) =
      run ⟨.items [] :: stack, .value⟩ (itemLexemes (item :: items) ++ rest) := by
  have hfront : ∃ more, itemLexemes (item :: items) = item.lexemes ++ more := by
    cases items with
    | nil => exact ⟨[], (List.append_nil _).symm⟩
    | cons second items => exact ⟨_, itemLexemes.eq_3 item (second :: items) (by simp)⟩
  obtain ⟨more, hmore⟩ := hfront
  rw [hmore, List.append_assoc]
  cases item with
  | null | bool | number | string => rfl
  | array | object => rw [lexemes]; rfl

theorem run_keyOrEnd (member : Option String × Json) (members : List (Option String × Json))
    (stack : List Frame) (rest : List Lexeme) :
    run ⟨stack, .keyOrEnd⟩ (memberLexemes (member :: members) ++ rest) =
      run ⟨stack, .key []⟩ (memberLexemes (member :: members) ++ rest) := by
  cases members with
  | nil => rfl
  | cons second members => rw [memberLexemes.eq_3 _ _ (second :: members) (by simp)]; rfl

mutual

/-- The lexemes of a value are read as that value, inside of any containers. -/
theorem run_lexemes : (value : Json) → (stack : List Frame) → (rest : List Lexeme) →
    run ⟨stack, .value⟩ (value.lexemes ++ rest) = run ⟨stack, .after value⟩ rest
  | .null, _, _ | .bool _, _, _ | .number _, _, _ | .string _, _, _ => rfl
  | .array [], _, _ | .object [], _, _ => rfl
  | .array (item :: items), stack, rest => by
      have hitems := run_itemLexemes (item :: items) (List.cons_ne_nil _ _) [] stack rest
      rw [← run_itemOrEnd] at hitems
      rw [lexemes, List.append_assoc, List.cons_append, run_cons]
      exact hitems
  | .object (member :: members), stack, rest => by
      have hmembers := run_memberLexemes (member :: members) (List.cons_ne_nil _ _) [] stack rest
      rw [← run_keyOrEnd] at hmembers
      rw [lexemes, List.append_assoc, List.cons_append, run_cons]
      exact hmembers

theorem run_itemLexemes : (items : List Json) → items ≠ [] → (done : List Json) →
    (stack : List Frame) → (rest : List Lexeme) →
    run ⟨.items done :: stack, .value⟩ (itemLexemes items ++ .closeBracket :: rest) =
      run ⟨stack, .after (.array (done.reverse ++ items))⟩ rest
  | [], hne, _, _, _ => absurd rfl hne
  | [item], _, done, stack, rest => by
      rw [itemLexemes, run_lexemes item]
      simp [run_cons, step, goOn]
  | item :: second :: items, _, done, stack, rest => by
      have hrest := run_itemLexemes (second :: items) (List.cons_ne_nil _ _) (item :: done) stack
        rest
      rw [List.reverse_cons, List.append_assoc] at hrest
      rw [itemLexemes.eq_3 _ _ (by simp), List.append_assoc, run_lexemes item, List.cons_append,
        run_cons]
      exact hrest

theorem run_memberLexemes : (members : List (Option String × Json)) → members ≠ [] →
    (done : List (Option String × Json)) → (stack : List Frame) → (rest : List Lexeme) →
    run ⟨stack, .key done⟩ (memberLexemes members ++ .closeBrace :: rest) =
      run ⟨stack, .after (.object (done.reverse ++ members))⟩ rest
  | [], hne, _, _, _ => absurd rfl hne
  | [(key, value)], _, done, stack, rest => by
      have hvalue := run_lexemes value (.members done key :: stack) (.closeBrace :: rest)
      rw [memberLexemes, List.cons_append, List.cons_append, run_cons]
      refine hvalue.trans ?_
      simp [run_cons, step, goOn]
  | (key, value) :: second :: members, _, done, stack, rest => by
      have hvalue := run_lexemes value (.members done key :: stack)
        (.comma :: (memberLexemes (second :: members) ++ .closeBrace :: rest))
      have hrest := run_memberLexemes (second :: members) (List.cons_ne_nil _ _)
        ((key, value) :: done) stack rest
      rw [List.reverse_cons, List.append_assoc] at hrest
      rw [memberLexemes.eq_3 _ _ _ (by simp)]
      simp only [List.cons_append, List.append_assoc]
      exact hvalue.trans hrest

end

theorem ofLexemes?_lexemes (value : Json) : ofLexemes? value.lexemes = some value := by
  have hrun := run_lexemes value [] []
  rw [List.append_nil] at hrun
  rw [ofLexemes?, hrun]
  rfl

theorem parse?_compact {value : Json} (h : ∀ lexeme ∈ value.lexemes, lexeme.Legible) :
    parse? value.compact = some value := by
  have hcut := cut_lexemes value h [] (by rintro c ⟨⟩)
  have hempty : lexemes? [] = some [] := by rw [lexemes?]; rfl
  rw [List.append_nil, hempty, Option.map_some, List.append_nil] at hcut
  rw [parse?, compact, String.toList_ofList, hcut, Option.bind_some, ofLexemes?_lexemes]

end Values

end Lineage.Json
