import UnitFiles.Json.Token
import UnitFiles.Proofs.Numerals

/-! The text of a dynamic value is taken apart into the tokens that it was put together from. Values
with floating point numbers are left out: their digits are rounded when they are read. -/
namespace UnitFiles.Json
open Number

/-- A value without floating point numbers. Its whole numbers have 64 bits. -/
inductive Floatless : Json → Prop
  | null : Floatless .null
  | bool (b : Bool) : Floatless (.bool b)
  | int {n : Int} : -9_223_372_036_854_775_808 ≤ n → n < 18_446_744_073_709_551_616 →
      Floatless (.int n)
  | text (s : String) : Floatless (.text s)
  | array {items : List Json} : (∀ v ∈ items, Floatless v) → Floatless (.array items)
  | object {fields : List (String × Json)} : (∀ p ∈ fields, Floatless p.2) →
      Floatless (.object fields)

mutual

def tokens : Json → List Token
  | null => [.null]
  | bool b => [.bool b]
  | int n => [.number (some (.int n))]
  | float x => [.number (some (.float x))]
  | text s => [.text (some s)]
  | array items => .leftBracket :: tokensOfItems items ++ [.rightBracket]
  | object fields => .leftBrace :: tokensOfFields fields ++ [.rightBrace]

def tokensOfItems : List Json → List Token
  | [] => []
  | [item] => tokens item
  | item :: rest => tokens item ++ .comma :: tokensOfItems rest

def tokensOfFields : List (String × Json) → List Token
  | [] => []
  | [(name, value)] => .text (some name) :: .colon :: tokens value
  | (name, value) :: rest =>
    .text (some name) :: .colon :: tokens value ++ .comma :: tokensOfFields rest

end

theorem tokensOfItems_cons (v w : Json) (items : List Json) :
    tokensOfItems (v :: w :: items) = v.tokens ++ .comma :: tokensOfItems (w :: items) := by
  rw [tokensOfItems]
  simp

theorem tokensOfFields_cons (p q : String × Json) (fields : List (String × Json)) :
    tokensOfFields (p :: q :: fields) =
      .text (some p.1) :: .colon :: (p.2.tokens ++ .comma :: tokensOfFields (q :: fields)) := by
  rw [tokensOfFields, List.cons_append, List.cons_append]
  simp

theorem renderItems_cons (v w : Json) (items : List Json) :
    renderItems (v :: w :: items) = v.render ++ ',' :: renderItems (w :: items) := by
  rw [renderItems]
  simp

theorem renderFields_cons (p q : String × Json) (fields : List (String × Json)) :
    renderFields (p :: q :: fields) =
      renderText p.1 ++ ':' :: (p.2.render ++ ',' :: renderFields (q :: fields)) := by
  rw [renderFields, List.append_assoc, List.cons_append]
  simp

section Strings

/-- A control character is written as a code unit with two zeros in front. -/
theorem hexDigits4_of_lt {n : Nat} (h : n < 0x20) :
    ∃ c d, hexDigits4 n = ['0', '0', c, d] ∧ hexUnit? '0' '0' c d = some n := by
  have table : ∀ n < 0x20,
      hexDigits4 n = ['0', '0', Nat.digitChar (n / 16), Nat.digitChar (n % 16)] ∧
        hexUnit? '0' '0' (Nat.digitChar (n / 16)) (Nat.digitChar (n % 16)) = some n := by
    decide +kernel
  exact ⟨_, _, table n h⟩

theorem ofPieces?_unit {n : Nat} (h : n < 0x20) (pieces : List Piece) :
    ofPieces? (.unit n :: pieces) = (ofPieces? pieces).map (Char.ofNat n :: ·) := by
  have hhigh : ¬(0xD800 ≤ n ∧ n ≤ 0xDBFF) := by omega
  have hlow : ¬(0xDC00 ≤ n ∧ n ≤ 0xDFFF) := by omega
  have hhalf : ¬(0xD800 ≤ n ∧ n ≤ 0xDFFF) := by omega
  cases pieces with
  | nil => simp [ofPieces?, hhalf]
  | cons p rest => cases p <;> simp [ofPieces?, hhigh, hlow, hhalf]

/-- A character is written behind a backslash, as a code unit, or as itself. -/
theorem escape_cases (c : Char) :
    (∃ e, escape c = ['\\', e] ∧ escaped? e = some c ∧ e ≠ 'u') ∨
      c.toNat < 0x20 ∧ escape c = '\\' :: 'u' :: hexDigits4 c.toNat ∨
      ¬c.toNat < 0x20 ∧ escape c = [c] ∧ c ≠ '"' ∧ c ≠ '\\' := by
  unfold escape
  split_ifs with hquote hbackslash hline hreturn htab hbackspace hfeed hcontrol
  · exact .inl ⟨'"', rfl, by subst hquote; rfl, by decide⟩
  · exact .inl ⟨'\\', rfl, by subst hbackslash; rfl, by decide⟩
  · exact .inl ⟨'n', rfl, by subst hline; rfl, by decide⟩
  · exact .inl ⟨'r', rfl, by subst hreturn; rfl, by decide⟩
  · exact .inl ⟨'t', rfl, by subst htab; rfl, by decide⟩
  · exact .inl ⟨'b', rfl, by subst hbackspace; rfl, by decide⟩
  · exact .inl ⟨'f', rfl, by subst hfeed; rfl, by decide⟩
  · exact .inr (.inl ⟨hcontrol, rfl⟩)
  · exact .inr (.inr ⟨hcontrol, rfl, hquote, hbackslash⟩)

/-- What is written for a character is taken as one piece, which stands for that character. -/
theorem exists_piece (c : Char) : ∃ piece,
    (∀ rest, takePieces (escape c ++ rest) =
      (takePieces rest).map fun p => (piece :: p.1, p.2)) ∧
    ∀ pieces, ofPieces? (piece :: pieces) = (ofPieces? pieces).map (c :: ·) := by
  have hchar : ∀ pieces, ofPieces? (.char c :: pieces) = (ofPieces? pieces).map (c :: ·) :=
    fun _ => by rw [ofPieces?]
  rcases escape_cases c with ⟨e, hescape, hescaped, hu⟩ | ⟨hcontrol, hescape⟩ |
    ⟨hcontrol, hescape, hquote, hbackslash⟩
  · refine ⟨.char c, fun rest => ?_, hchar⟩
    rw [hescape]
    simp [takePieces, hescaped, hu]
  · obtain ⟨x, y, hdigits, hunit⟩ := hexDigits4_of_lt hcontrol
    refine ⟨.unit c.toNat, fun rest => ?_, fun pieces => ?_⟩
    · rw [hescape, hdigits]
      simp [takePieces, hunit]
    · rw [ofPieces?_unit hcontrol, Char.ofNat_toNat]
  · refine ⟨.char c, fun rest => ?_, hchar⟩
    rw [hescape]
    simp [takePieces, hcontrol, hbackslash]

theorem exists_pieces (cs rest : List Char) : ∃ pieces,
    takePieces (cs.flatMap escape ++ '"' :: rest) = some (pieces, rest) ∧
      ofPieces? pieces = some cs := by
  induction cs with
  | nil => exact ⟨[], by simp [takePieces], rfl⟩
  | cons c cs ih =>
    obtain ⟨pieces, htake, hpieces⟩ := ih
    obtain ⟨piece, hpiece, hstands⟩ := exists_piece c
    refine ⟨piece :: pieces, ?_, ?_⟩
    · rw [List.flatMap_cons, List.append_assoc, hpiece, htake]
      rfl
    · rw [hstands, hpieces]
      rfl

theorem takeToken_renderText (s : String) (rest : List Char) :
    takeToken (renderText s ++ rest) = some (.text (some s), rest) := by
  obtain ⟨pieces, htake, hpieces⟩ := exists_pieces s.toList rest
  have htext : renderText s ++ rest = '"' :: (s.toList.flatMap escape ++ '"' :: rest) := by
    simp [renderText]
  rw [htext]
  simp [takeToken, htake, hpieces]

end Strings

section Numbers

/-- What may stand behind a value: nothing, or a mark that no number can go on with. -/
def Closes (rest : List Char) : Prop := ∀ c ∈ rest.head?, c = ',' ∨ c = ']' ∨ c = '\x7d'

theorem Closes.number_ends {rest : List Char} (h : Closes rest) :
    rest.takeWhile Char.isDigit = [] ∧ rest.dropWhile Char.isDigit = rest ∧
      takeFractionDigits rest = some (none, rest) ∧ takeExponent rest = some (none, rest) := by
  cases rest with
  | nil => exact ⟨rfl, rfl, rfl, rfl⟩
  | cons c rest =>
    rcases h c rfl with rfl | rfl | rfl <;>
      exact ⟨rfl, rfl, rfl, rfl⟩

theorem absorb_of_lt {digits : List Char} {start : Nat}
    (h : Nat.ofDigitChars 10 digits start < 18_446_744_073_709_551_616) :
    absorb start digits = (Nat.ofDigitChars 10 digits start, []) := by
  induction digits generalizing start with
  | nil => rw [absorb, Nat.ofDigitChars_nil]
  | cons d rest ih =>
    rw [Nat.ofDigitChars_cons, Nat.mul_comm] at h ⊢
    have hgrows : start * 10 + (d.toNat - '0'.toNat) ≤
        Nat.ofDigitChars 10 rest (start * 10 + (d.toNat - '0'.toNat)) := by
      rw [Nat.ofDigitChars_eq_ofDigitChars_zero]
      have hpow : 0 < 10 ^ rest.length := Nat.pow_pos (by decide)
      exact Nat.le_add_right_of_le (Nat.le_mul_of_pos_left _ hpow)
    rw [absorb, if_pos (Nat.lt_of_le_of_lt hgrows h)]
    exact ih h

theorem takeNumber_toDigits (n : Nat) {rest : List Char} (h : Closes rest) :
    takeNumber (Nat.toDigits 10 n ++ rest) =
        some (⟨false, Nat.toDigits 10 n, none, none⟩, rest) ∧
      takeNumber ('-' :: Nat.toDigits 10 n ++ rest) =
        some (⟨true, Nat.toDigits 10 n, none, none⟩, rest) := by
  obtain ⟨htake, hdrop, hfraction, hexponent⟩ := h.number_ends
  have hdigits : ∀ c ∈ Nat.toDigits 10 n, c.isDigit = true := fun c hc => isDigit_of_mem_toDigits hc
  have hzero :
      ((Nat.toDigits 10 n).head? == some '0' && 1 < (Nat.toDigits 10 n).length) = false := by
    rcases Nat.eq_zero_or_pos n with rfl | hn
    · rfl
    · simp [head?_toDigits_ne_zero hn]
  have hempty : (Nat.toDigits 10 n).isEmpty = false := by simp [Nat.toDigits_ne_nil]
  have htakes : (Nat.toDigits 10 n ++ rest).takeWhile Char.isDigit = Nat.toDigits 10 n := by
    rw [List.takeWhile_append_of_pos hdigits, htake, List.append_nil]
  have hdrops : (Nat.toDigits 10 n ++ rest).dropWhile Char.isDigit = rest := by
    rw [List.dropWhile_append_of_pos hdigits, hdrop]
  constructor
  · cases hcons : Nat.toDigits 10 n with
    | nil => exact absurd hcons Nat.toDigits_ne_nil
    | cons d ds =>
      have hd : d ≠ '-' := by
        rintro rfl
        exact absurd (hdigits '-' (hcons ▸ List.mem_cons_self)) (by decide)
      rw [hcons] at htakes hdrops hzero
      have hone : d = '0' → ds = [] := by simpa using hzero
      rw [List.cons_append] at htakes hdrops ⊢
      simpa [takeNumber, hd, htakes, hdrops, hfraction, hexponent] using hone
  · simp [takeNumber, htakes, hdrops, hempty, hzero, hfraction, hexponent]

theorem value?_toDigits {n : Nat} (h : n < 18_446_744_073_709_551_616) :
    NumberText.value? ⟨false, Nat.toDigits 10 n, none, none⟩ = some (.int n) ∧
      (0 < n → n ≤ 9_223_372_036_854_775_808 →
        NumberText.value? ⟨true, Nat.toDigits 10 n, none, none⟩ = some (.int (-(n : Int)))) := by
  have habsorb : absorb 0 (Nat.toDigits 10 n) = (n, []) := by
    rw [absorb_of_lt] <;> rw [Nat.ofDigitChars_ten_toDigits]
    exact h
  constructor
  · simp [NumberText.value?, habsorb]
  · intro hpos hfits
    simp [NumberText.value?, habsorb, hpos, hfits]

theorem ne_of_isDigit {c d : Char} (hc : c.isDigit = true) (hd : d.isDigit = false) : c ≠ d := by
  rintro rfl
  rw [hd] at hc
  cases hc

theorem takeToken_number {c : Char} (h : c.isDigit = true ∨ c = '-') (rest : List Char) :
    takeToken (c :: rest) =
      (takeNumber (c :: rest)).map fun p => (.number p.1.value?, p.2) := by
  rcases h with hdigit | rfl
  · simp [takeToken, ne_of_isDigit hdigit]
  · simp [takeToken]

theorem takeToken_renderInt {n : Int} (hlow : -9_223_372_036_854_775_808 ≤ n)
    (hhigh : n < 18_446_744_073_709_551_616) {rest : List Char} (h : Closes rest) :
    takeToken (renderInt n ++ rest) = some (.number (some (.int n)), rest) := by
  obtain ⟨hplain, hminus⟩ := takeNumber_toDigits n.natAbs h
  obtain ⟨hvalue, hnegative⟩ := @value?_toDigits n.natAbs (by omega)
  rw [renderInt]
  split
  · rename_i hneg
    have hint : -(n.natAbs : Int) = n := by omega
    rw [List.cons_append] at hminus ⊢
    rw [takeToken_number (.inr rfl), hminus, Option.map_some,
      hnegative (by omega) (by omega), hint]
  · rename_i hpos
    have hint : (n.natAbs : Int) = n := by omega
    cases hdigits : Nat.toDigits 10 n.natAbs with
    | nil => exact absurd hdigits Nat.toDigits_ne_nil
    | cons d ds =>
      have hd : d.isDigit = true := isDigit_of_mem_toDigits (hdigits ▸ List.mem_cons_self)
      rw [hdigits] at hplain hvalue
      rw [List.cons_append] at hplain ⊢
      rw [takeToken_number (.inl hd), hplain, Option.map_some, hvalue, hint]

end Numbers

section Values

/-- Taking token after token from a text gives a list of tokens. -/
inductive Lexes : List Char → List Token → Prop
  | nil : Lexes [] []
  | cons {c : Char} {s rest : List Char} {t : Token} {ts : List Token} :
      isSpace c = false → takeToken (c :: s) = some (t, rest) → rest.length ≤ s.length →
      Lexes rest ts → Lexes (c :: s) (t :: ts)

theorem tokensWithin_of_lexes {s : List Char} {ts : List Token} (h : Lexes s ts) {fuel : Nat}
    (hfuel : s.length ≤ fuel) : tokensWithin fuel s = some ts := by
  induction h generalizing fuel with
  | nil =>
    unfold tokensWithin
    rfl
  | @cons c s rest t ts hspace htake hlength _ ih =>
    obtain ⟨fuel, rfl⟩ := Nat.exists_eq_succ_of_ne_zero (Nat.ne_zero_of_lt hfuel)
    rw [List.length_cons, Nat.succ_eq_add_one, Nat.add_le_add_iff_right] at hfuel
    have hdrop : (c :: s).dropWhile isSpace = c :: s :=
      List.dropWhile_cons_of_neg (by simp [hspace])
    unfold tokensWithin
    rw [hdrop]
    simp only [htake, Option.bind_some, ih (Nat.le_trans hlength hfuel), Option.map_some]

theorem tokens?_of_lexes {s : List Char} {ts : List Token} (h : Lexes s ts) :
    tokens? s = some ts := tokensWithin_of_lexes h (Nat.le_refl _)

theorem Lexes.mark {c : Char} {t : Token} {rest : List Char} {ts : List Token}
    (hspace : isSpace c = false) (htake : takeToken (c :: rest) = some (t, rest))
    (h : Lexes rest ts) : Lexes (c :: rest) (t :: ts) :=
  .cons hspace htake (Nat.le_refl _) h

theorem Lexes.comma {rest : List Char} {ts : List Token} (h : Lexes rest ts) :
    Lexes (',' :: rest) (.comma :: ts) := h.mark rfl rfl

theorem Lexes.word {c : Char} {s rest : List Char} {t : Token} {ts : List Token}
    (hspace : isSpace c = false) (htake : takeToken (c :: (s ++ rest)) = some (t, rest))
    (h : Lexes rest ts) : Lexes (c :: (s ++ rest)) (t :: ts) := by
  refine .cons hspace htake ?_ h
  rw [List.length_append]
  exact Nat.le_add_left _ _

theorem Lexes.text (s : String) {rest : List Char} {ts : List Token} (h : Lexes rest ts) :
    Lexes (renderText s ++ rest) (.text (some s) :: ts) := by
  have htake := takeToken_renderText s rest
  exact .word rfl htake h

theorem Lexes.number {n : Int} (hlow : -9_223_372_036_854_775_808 ≤ n)
    (hhigh : n < 18_446_744_073_709_551_616) {rest : List Char} {ts : List Token}
    (hclose : Closes rest) (h : Lexes rest ts) :
    Lexes (renderInt n ++ rest) (.number (some (.int n)) :: ts) := by
  have htake := takeToken_renderInt hlow hhigh hclose
  have hfirst : ∃ c s, renderInt n = c :: s ∧ isSpace c = false := by
    rw [renderInt]
    split
    · exact ⟨'-', _, rfl, rfl⟩
    · cases hdigits : Nat.toDigits 10 n.natAbs with
      | nil => exact absurd hdigits Nat.toDigits_ne_nil
      | cons d ds =>
        have hd : d.isDigit = true := isDigit_of_mem_toDigits (hdigits ▸ List.mem_cons_self)
        exact ⟨d, ds, rfl, by simp [isSpace, ne_of_isDigit hd]⟩
  obtain ⟨c, s, hs, hspace⟩ := hfirst
  rw [hs] at htake ⊢
  exact .word hspace htake h

theorem lexes_items {items : List Json}
    (h : ∀ v ∈ items, ∀ {rest ts}, Closes rest → Lexes rest ts →
      Lexes (v.render ++ rest) (v.tokens ++ ts))
    {rest : List Char} {ts : List Token} (hclose : Closes rest) (hrest : Lexes rest ts) :
    Lexes (renderItems items ++ rest) (tokensOfItems items ++ ts) := by
  induction items with
  | nil => exact hrest
  | cons v items ih =>
    obtain ⟨hv, hitems⟩ := List.forall_mem_cons.mp h
    cases items with
    | nil => exact hv hclose hrest
    | cons w more =>
      rw [renderItems_cons, tokensOfItems_cons, List.append_assoc, List.append_assoc]
      exact hv (by simp [Closes]) (ih hitems).comma

theorem lexes_fields {fields : List (String × Json)}
    (h : ∀ p ∈ fields, ∀ {rest ts}, Closes rest → Lexes rest ts →
      Lexes (p.2.render ++ rest) (p.2.tokens ++ ts))
    {rest : List Char} {ts : List Token} (hclose : Closes rest) (hrest : Lexes rest ts) :
    Lexes (renderFields fields ++ rest) (tokensOfFields fields ++ ts) := by
  induction fields with
  | nil => exact hrest
  | cons p fields ih =>
    obtain ⟨name, v⟩ := p
    obtain ⟨hv, hfields⟩ := List.forall_mem_cons.mp h
    cases fields with
    | nil =>
      rw [renderFields, tokensOfFields, List.append_assoc]
      exact .text name (.mark rfl rfl (hv hclose hrest))
    | cons q more =>
      have hvalue := hv (by simp [Closes]) (ih hfields).comma
      rw [renderFields_cons, tokensOfFields_cons]
      simp only [List.append_assoc, List.cons_append] at hvalue ⊢
      exact .text name (.mark rfl rfl hvalue)

theorem Floatless.lexes {v : Json} (h : v.Floatless) {rest : List Char} {ts : List Token}
    (hclose : Closes rest) (hrest : Lexes rest ts) :
    Lexes (v.render ++ rest) (v.tokens ++ ts) := by
  induction h generalizing rest ts with
  | null => exact .word (s := ['u', 'l', 'l']) rfl rfl hrest
  | bool b =>
    cases b with
    | true => exact .word (s := ['r', 'u', 'e']) rfl rfl hrest
    | false => exact .word (s := ['a', 'l', 's', 'e']) rfl rfl hrest
  | int hlow hhigh =>
    rw [render]
    exact .number hlow hhigh hclose hrest
  | text s =>
    rw [render]
    exact .text s hrest
  | array _ ih =>
    rw [render, tokens, List.cons_append, List.append_assoc, List.cons_append, List.append_assoc]
    exact .mark rfl rfl (lexes_items ih (by simp [Closes]) (.mark rfl rfl hrest))
  | object _ ih =>
    rw [render, tokens, List.cons_append, List.append_assoc, List.cons_append, List.append_assoc]
    exact .mark rfl rfl (lexes_fields ih (by simp [Closes]) (.mark rfl rfl hrest))

theorem Floatless.tokens?_render {v : Json} (h : v.Floatless) :
    tokens? v.render = some v.tokens := by
  have hclose : Closes [] := by simp [Closes]
  have hlexes := h.lexes hclose .nil
  rw [List.append_nil, List.append_nil] at hlexes
  exact tokens?_of_lexes hlexes

end Values

end UnitFiles.Json
