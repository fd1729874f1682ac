import UnitFiles.Specifiers
import UnitFiles.Proofs.Validation

/-! Replacing specifiers as one pass over the tokens of a text. Each token is replaced on its own,
and the text that takes its place is not looked at again. -/
namespace UnitFiles
namespace Specifiers

/-- A percent sign with the character behind it, any other character, or a percent sign with nothing
behind it. -/
inductive Token
  | specifier (c : Char)
  | plain (c : Char)
  | bare
deriving DecidableEq, Repr

def Token.chars : Token → List Char
  | specifier c => ['%', c]
  | plain c => [c]
  | bare => ['%']

def tokens : List Char → List Token
  | [] => []
  | ['%'] => [.bare]
  | '%' :: c :: rest => .specifier c :: tokens rest
  | c :: rest => .plain c :: tokens rest

def replaceToken (t : Specifiers) : Token → Except Error (List Char)
  | .specifier c => if c = '%' then .ok ['%'] else (t.get c).map String.toList
  | .plain c => .ok [c]
  | .bare => .ok ['%']

/-- The text with two percent signs for each one. -/
def doubled (s : List Char) : List Char := s.flatMap fun c => if c = '%' then ['%', '%'] else [c]

variable {t : Specifiers}

theorem tokens_plain {c : Char} (h : c ≠ '%') (rest : List Char) :
    tokens (c :: rest) = .plain c :: tokens rest := by
  rw [tokens.eq_def]
  split <;> simp_all

theorem replaceChars_plain {c : Char} (h : c ≠ '%') (rest : List Char) :
    t.replaceChars (c :: rest) = (t.replaceChars rest).map (c :: ·) := by
  rw [replaceChars.eq_def]
  split <;> simp_all

theorem replaceChars_specifier (t : Specifiers) (c : Char) (rest : List Char) :
    t.replaceChars ('%' :: c :: rest) =
      (t.replaceToken (.specifier c)).bind fun text => (t.replaceChars rest).map (text ++ ·) := by
  rw [replaceChars, replaceToken]
  by_cases hc : c = '%'
  · rw [if_pos hc, if_pos hc]
    rfl
  · rw [if_neg hc, if_neg hc, get]
    cases t.get? c <;> rfl

/-- A text is taken apart from its start, one token at a time. -/
@[elab_as_elim]
theorem tokens_induction {motive : List Char → Prop} (nil : motive []) (bare : motive ['%'])
    (specifier : ∀ c rest, motive rest → motive ('%' :: c :: rest))
    (plain : ∀ c rest, c ≠ '%' → motive rest → motive (c :: rest)) (s : List Char) :
    motive s := by
  induction s using tokens.induct with
  | case1 => exact nil
  | case2 => exact bare
  | case3 c rest ih => exact specifier c rest ih
  | case4 c rest hbare hspecifier ih =>
    refine plain c rest ?_ ih
    rintro rfl
    cases rest with
    | nil => exact hbare rfl rfl
    | cons d rest => exact hspecifier d rest rfl rfl

/-- The way a text is taken apart: a percent sign goes with the character behind it, and stands
alone at the end only. -/
structure TakenApart (s : List Char) (ts : List Token) : Prop where
  chars : ts.flatMap Token.chars = s
  plain : .plain '%' ∉ ts
  bare : .bare ∉ ts.dropLast

theorem takenApart_cons {x : Token} {s : List Char} {ts : List Token} (hplain : x ≠ .plain '%')
    (hbare : x ≠ .bare) :
    TakenApart (x.chars ++ s) (x :: ts) ↔ TakenApart s ts := by
  have hdropLast : .bare ∉ (x :: ts).dropLast ↔ .bare ∉ ts.dropLast := by
    cases ts <;> simp [hbare.symm]
  constructor
  · rintro ⟨hchars, hmem, hlast⟩
    rw [List.flatMap_cons, List.append_cancel_left_eq] at hchars
    exact ⟨hchars, List.not_mem_of_not_mem_cons hmem, hdropLast.mp hlast⟩
  · rintro ⟨hchars, hmem, hlast⟩
    refine ⟨by rw [List.flatMap_cons, hchars], ?_, hdropLast.mpr hlast⟩
    exact List.not_mem_cons_of_ne_of_not_mem hplain.symm hmem

theorem takenApart_tokens (s : List Char) : TakenApart s (tokens s) := by
  induction s using tokens_induction with
  | nil => exact ⟨rfl, by simp [tokens], by simp [tokens]⟩
  | bare => exact ⟨rfl, by simp [tokens], by simp [tokens]⟩
  | specifier c rest ih =>
    rw [tokens]
    exact (takenApart_cons (x := .specifier c) (by simp) (by simp)).mpr ih
  | plain c rest hc ih =>
    rw [tokens_plain hc]
    exact (takenApart_cons (x := .plain c) (by simp [hc]) (by simp)).mpr ih

/-- There is one way to take a text apart. -/
theorem takenApart_iff {s : List Char} {ts : List Token} : TakenApart s ts ↔ tokens s = ts := by
  constructor
  · intro h
    induction ts generalizing s with
    | nil =>
      rw [← h.chars]
      rfl
    | cons x ts ih =>
      obtain rfl : x.chars ++ ts.flatMap Token.chars = s := h.chars
      cases x with
      | specifier c =>
        have hrest := (takenApart_cons (by simp) (by simp)).mp h
        exact congrArg (Token.specifier c :: ·) (ih hrest)
      | plain c =>
        have hc : Token.plain c ≠ .plain '%' := fun hc => h.plain (hc ▸ List.mem_cons_self)
        have hrest := (takenApart_cons hc (by simp)).mp h
        exact (tokens_plain (by simpa using hc) _).trans (congrArg (Token.plain c :: ·) (ih hrest))
      | bare =>
        cases ts with
        | nil => rfl
        | cons y ts => exact absurd List.mem_cons_self h.bare
  · rintro rfl
    exact takenApart_tokens s

theorem replaceChars_eq_tokens (t : Specifiers) (s : List Char) :
    t.replaceChars s = (mapAll t.replaceToken (tokens s)).map List.flatten := by
  induction s using tokens_induction with
  | nil => rfl
  | bare => rfl
  | specifier c rest ih =>
    rw [replaceChars_specifier, ih, tokens, mapAll]
    cases t.replaceToken (.specifier c) with
    | error e => rfl
    | ok text => cases mapAll t.replaceToken (tokens rest) <;> rfl
  | plain c rest hc ih =>
    rw [replaceChars_plain hc, ih, tokens_plain hc, mapAll]
    cases mapAll t.replaceToken (tokens rest) <;> simp [replaceToken, Except.map]

theorem tokens_append {a : List Char} (h : (tokens a).getLast? ≠ some .bare) (b : List Char) :
    tokens (a ++ b) = tokens a ++ tokens b := by
  induction a using tokens_induction with
  | nil => rfl
  | bare => exact absurd rfl h
  | specifier c rest ih =>
    have hrest : (tokens rest).getLast? ≠ some .bare := by
      intro hlast
      simp [tokens, List.getLast?_cons, hlast] at h
    simp [tokens, ih hrest]
  | plain c rest hc ih =>
    have hrest : (tokens rest).getLast? ≠ some .bare := by
      intro hlast
      simp [tokens_plain hc, List.getLast?_cons, hlast] at h
    simp [tokens_plain hc, ih hrest]

theorem replaceChars_append {a : List Char} (h : (tokens a).getLast? ≠ some .bare)
    (b : List Char) :
    t.replaceChars (a ++ b) =
      (t.replaceChars a).bind fun x => (t.replaceChars b).map (x ++ ·) := by
  simp only [replaceChars_eq_tokens, tokens_append h, mapAll_append]
  cases mapAll t.replaceToken (tokens a) with
  | error e => rfl
  | ok x =>
    cases mapAll t.replaceToken (tokens b) <;> simp [Except.bind, Except.map]

theorem replaceChars_doubled (t : Specifiers) (s : List Char) :
    t.replaceChars (doubled s) = .ok s := by
  induction s with
  | nil => rfl
  | cons c rest ih =>
    by_cases hc : c = '%'
    · have hdoubled : doubled (c :: rest) = '%' :: '%' :: doubled rest := by simp [doubled, hc]
      rw [hdoubled, replaceChars_specifier, ih, hc]
      rfl
    · have hdoubled : doubled (c :: rest) = c :: doubled rest := by simp [doubled, hc]
      rw [hdoubled, replaceChars_plain hc, ih]
      rfl

/-- Replacing is one pass from left to right. There is one way to take a text apart, its tokens are
replaced one by one, and so two texts are replaced apart unless the first one ends within a token.
Percent signs are written by doubling them, and the text of a specifier comes out as it stands in
the table. -/
theorem replace_single_pass (t : Specifiers) :
    (∀ s : String, (∀ ts, TakenApart s.toList ts ↔ tokens s.toList = ts) ∧
      t.replace s =
        (mapAll t.replaceToken (tokens s.toList)).map fun texts => .ofList texts.flatten) ∧
    (∀ a b : String, (tokens a.toList).getLast? ≠ some .bare →
      t.replace (a ++ b) = do return (← t.replace a) ++ (← t.replace b)) ∧
    (∀ s : String, t.replace (.ofList (doubled s.toList)) = .ok s) ∧
    ∀ (c : Char) (text : String), t.get? c = some text → c ≠ '%' →
      t.replace (.ofList ['%', c]) = .ok text := by
  refine ⟨fun s => ⟨fun ts => takenApart_iff, ?_⟩, fun a b h => ?_, fun s => ?_,
    fun c text hget hc => ?_⟩
  · rw [replace, replaceChars_eq_tokens]
    cases mapAll t.replaceToken (tokens s.toList) <;> rfl
  · rw [replace, String.toList_append, replaceChars_append h, replace, replace]
    cases t.replaceChars a.toList with
    | error e => rfl
    | ok x =>
      cases t.replaceChars b.toList with
      | error e => rfl
      | ok y => exact congrArg Except.ok String.ofList_append
  · rw [replace, String.toList_ofList, replaceChars_doubled]
    exact congrArg Except.ok String.ofList_toList
  · rw [replace, String.toList_ofList, replaceChars_specifier, replaceToken, if_neg hc, get, hget]
    simp [orError, Except.map, Except.bind, replaceChars]

/-- The text of one specifier looks like another one. -/
def nestedTable : Specifiers := .ofList [('i', "%h"), ('h', "home"), ('%', "percent")]

theorem replace_single_pass_nested :
    nestedTable.replace "%%%i/" = .ok "%%h/" ∧
      nestedTable.replace ("%%%i/" ++ "100%") = .ok "%%h/100%" ∧
      nestedTable.replace ("%%%i/" ++ "%x") = .error (unknown 'x') ∧
      nestedTable.replace "%i" = .ok "%h" := by
  obtain ⟨-, happend, -, hverbatim⟩ := replace_single_pass nestedTable
  have hends : (tokens "%%%i/".toList).getLast? ≠ some .bare := by decide
  have hfirst : nestedTable.replace "%%%i/" = .ok "%%h/" := by decide +kernel
  have hget : nestedTable.get? 'i' = some "%h" := by decide +kernel
  refine ⟨hfirst, ?_, ?_, hverbatim 'i' "%h" hget (by decide)⟩
  · rw [happend _ _ hends, hfirst]
    decide +kernel
  · rw [happend _ _ hends, hfirst]
    decide +kernel

end Specifiers
end UnitFiles
