import UnitFiles.Proofs.SpecRows

/-! The lines of a spec file as the search for a key sees them: characters between blanks. A line
assigns a bare key to the search exactly if it does to the reader. A header is only ever taken for a
bare name that it has. -/
namespace UnitFiles.Toml
open Text Number

variable {s line key : List Char} {row : Row} {name : String}

section Trim

theorem trim_append_of_blank {front : List Char} (h : ∀ c ∈ front, isBlank c = true)
    (s : List Char) : trim (front ++ s) = trim s := by
  rw [trim, trimStart, List.dropWhile_append_of_pos h]
  rfl

theorem trim_append_blank {back : List Char} (h : ∀ c ∈ back, isBlank c = true) (s : List Char) :
    trim (s ++ back) = trim s := by
  have hback : trimEnd (s ++ back) = trimEnd s := by
    rw [trimEnd, List.reverse_append, List.dropWhile_append_of_pos fun c hc =>
      h c (List.mem_reverse.mp hc), trimEnd]
  rw [← trim_trimEnd, hback, trim_trimEnd]

theorem trim_cons {c : Char} (h : isBlank c = false) (s : List Char) :
    trim (c :: s) = c :: trimEnd s := by
  rw [trim, trimStart_eq_self (by simp [Unindented, h]), trimEnd_cons, if_neg (by simp [h])]

theorem exists_append_dropWhile (p : Char → Bool) (s : List Char) :
    ∃ front, s = front ++ s.dropWhile p ∧ ∀ c ∈ front, p c = true :=
  ⟨s.takeWhile p, List.takeWhile_append_dropWhile.symm, fun _ hc => List.mem_takeWhile_imp hc⟩

theorem exists_rdropWhile_append (p : Char → Bool) (s : List Char) :
    ∃ back, s = (s.reverse.dropWhile p).reverse ++ back ∧ ∀ c ∈ back, p c = true := by
  obtain ⟨front, hs, hfront⟩ := exists_append_dropWhile p s.reverse
  refine ⟨front.reverse, ?_, fun c hc => hfront c (List.mem_reverse.mp hc)⟩
  rw [← List.reverse_append, ← hs, List.reverse_reverse]

theorem exists_trimEnd_append (s : List Char) :
    ∃ back, s = trimEnd s ++ back ∧ ∀ c ∈ back, isBlank c = true :=
  exists_rdropWhile_append isBlank s

theorem exists_trim (s : List Char) :
    ∃ front back, s = front ++ (trim s ++ back) ∧ (∀ c ∈ front, isBlank c = true) ∧
      ∀ c ∈ back, isBlank c = true := by
  obtain ⟨front, hs, hfront⟩ := exists_append_dropWhile isBlank s
  obtain ⟨back, hback, hblank⟩ := exists_trimEnd_append (trimStart s)
  refine ⟨front, back, ?_, hfront, hblank⟩
  rw [trim, ← hback]
  exact hs

theorem blank_of_isTomlBlank {front : List Char} (h : ∀ c ∈ front, isTomlBlank c = true) :
    ∀ c ∈ front, isBlank c = true := fun c hc => isBlank_of_isTomlBlank (h c hc)

theorem newline_not_mem_of_isTomlBlank {front : List Char} (h : ∀ c ∈ front, isTomlBlank c = true) :
    '\n' ∉ front := fun hmem => ne_newline_of_isTomlBlank (h _ hmem) rfl

end Trim

theorem isBlank_eq_false {c : Char} (h : isBareKeyChar c = true) : isBlank c = false := by
  have hstops := stopsKey_eq_false h
  rw [stopsKey, Bool.or_eq_false_iff] at hstops
  exact hstops.1

section Lines

theorem exists_firstLine_append (s : List Char) :
    ∃ front, s = front ++ skipBlanks s ∧ firstLine s = front ++ firstLine (skipBlanks s) ∧
      ∀ c ∈ front, isTomlBlank c = true := by
  obtain ⟨front, hs, hfront⟩ := exists_append_dropWhile isTomlBlank s
  refine ⟨front, hs, ?_, hfront⟩
  conv_lhs => rw [hs]
  exact firstLine_append (newline_not_mem_of_isTomlBlank hfront) _

theorem trim_firstLine (s : List Char) :
    trim (firstLine s) = trim (firstLine (skipBlanks s)) := by
  obtain ⟨front, -, hline, hfront⟩ := exists_firstLine_append s
  rw [hline, trim_append_of_blank (blank_of_isTomlBlank hfront)]

theorem firstLine_cons {c : Char} (h : c ≠ '\n') (s : List Char) :
    firstLine (c :: s) = c :: firstLine s := List.takeWhile_cons_of_pos (by simp [h])

theorem trim_empty (h : endLine? s = some (nextLine s)) :
    trim (firstLine s) = [] ∨ ∃ more, trim (firstLine s) = '#' :: more := by
  rw [trim_firstLine]
  rw [endLine?] at h
  cases hstart : skipBlanks s with
  | nil => exact Or.inl rfl
  | cons c rest =>
    by_cases hhash : c = '#'
    · rw [hhash, firstLine_cons (by decide), trim_cons (by decide)]
      exact Or.inr ⟨_, rfl⟩
    · left
      rw [hstart, skipComment.eq_2 _ (by rintro r ⟨⟩; exact hhash rfl)] at h
      change afterNewline? (c :: rest) = some (nextLine s) at h
      rw [afterNewline?.eq_def] at h
      split at h
      · rename_i heq
        rw [(List.cons.inj heq).1]
        rfl
      · rename_i heq
        rw [heq]
        rfl
      · cases h

theorem trim_header {rest : List Char} (h : skipBlanks s = '[' :: '[' :: rest) :
    trim (firstLine s) = '[' :: '[' :: trimEnd (firstLine rest) := by
  rw [trim_firstLine, h, firstLine_cons (by decide), firstLine_cons (by decide),
    trim_cons (by decide), trimEnd_cons, if_neg (fun hblank => absurd hblank.1 (by decide))]

theorem trim_entry {c : Char} {rest : List Char} {v : Toml} (hstart : skipBlanks s = c :: rest)
    (hbare : isBareKeyChar c = true)
    (h : takeStatement (skipBlanks s) = some (.assign [] name v, nextLine s)) :
    (∃ gap value, trim (firstLine s) = name.toList ++ (gap ++ '=' :: value) ∧
      ∀ c ∈ gap, isBlank c = true) ∧
    (∀ c ∈ name.toList, isBareKeyChar c = true) ∧ name.toList ≠ [] := by
  rw [hstart, takeStatement_assign_iff (ne_bracket hbare)] at h
  obtain ⟨value, -, hkey, -⟩ := h
  obtain ⟨more, hname, hmore⟩ := takeKey_eq_some hkey
  rw [trim_firstLine, hstart]
  rw [← hstart, skipBlanks_skipBlanks, hstart] at hname
  rw [takeSimpleKey_bare hbare, Option.some.injEq, Prod.mk.injEq] at hname
  obtain ⟨rfl, rfl⟩ := hname
  rw [String.toList_ofList]
  set key := (c :: rest).takeWhile isBareKeyChar with hkeyChars
  have hkeyBare : ∀ d ∈ key, isBareKeyChar d = true := fun d hd => List.mem_takeWhile_imp hd
  have hkeyLine : '\n' ∉ key := fun hmem => absurd (hkeyBare _ hmem) (by decide)
  have hne : key ≠ [] := by
    rw [hkeyChars, List.takeWhile_cons_of_pos hbare]
    exact List.cons_ne_nil _ _
  obtain ⟨gap, -, hgapLine, hgap⟩ := exists_firstLine_append ((c :: rest).dropWhile isBareKeyChar)
  rw [hmore, firstLine_cons (by decide)] at hgapLine
  have hline : firstLine (c :: rest) = key ++ (gap ++ '=' :: firstLine value) := by
    conv_lhs => rw [← List.takeWhile_append_dropWhile (p := isBareKeyChar) (l := c :: rest)]
    rw [firstLine_append hkeyLine, hgapLine]
  refine ⟨⟨gap, trimEnd (firstLine value), ?_, blank_of_isTomlBlank hgap⟩, hkeyBare, hne⟩
  have hvalue : trimEnd ('=' :: firstLine value) = '=' :: trimEnd (firstLine value) := by
    rw [trimEnd_cons, if_neg fun hblank => absurd hblank.1 (by decide)]
  have hfront : Unindented (key ++ (gap ++ '=' :: firstLine value)) := by
    rw [hkeyChars, List.takeWhile_cons_of_pos hbare]
    intro d hd
    rw [List.cons_append, List.head?_cons, Option.mem_some_iff] at hd
    rw [← hd]
    exact isBlank_eq_false hbare
  rw [hline, trim, trimStart_eq_self hfront, ← List.append_assoc,
    trimEnd_append _ (by simp [hvalue]), hvalue, List.append_assoc]

end Lines

section Assignments

theorem assigns_iff {key line : List Char} : assigns key line = true ↔
    ∃ gap value, line = key ++ (gap ++ '=' :: value) ∧ ∀ c ∈ gap, isBlank c = true := by
  rw [assigns]
  constructor
  · intro h
    split at h
    · rename_i rest hrest
      rw [dropStart?_eq_some_iff] at hrest
      obtain ⟨gap, hgap, hblank⟩ := exists_append_dropWhile isBlank rest
      rw [beq_iff_eq, List.head?_eq_some_iff] at h
      obtain ⟨value, hvalue⟩ := h
      rw [trimStart] at hvalue
      rw [hvalue] at hgap
      exact ⟨gap, value, by rw [hrest, hgap], hblank⟩
    · cases h
  · rintro ⟨gap, value, rfl, hgap⟩
    rw [dropStart?_eq_some_iff.mpr rfl]
    dsimp only
    rw [trimStart, List.dropWhile_append_of_pos hgap]
    rfl

/-- A bare key ends where a blank or the equals sign follows it. -/
theorem takeWhile_bare {key gap value : List Char} (hkey : ∀ c ∈ key, isBareKeyChar c = true)
    (hgap : ∀ c ∈ gap, isBlank c = true) :
    (key ++ (gap ++ '=' :: value)).takeWhile isBareKeyChar = key := by
  refine (takeWhile_append_stop hkey fun c hc => not_isBareKeyChar ?_).1
  cases gap with
  | nil =>
    rw [List.nil_append, List.head?_cons, Option.mem_some_iff] at hc
    rw [← hc]
    decide
  | cons d gap =>
    rw [List.cons_append, List.head?_cons, Option.mem_some_iff] at hc
    rw [← hc, stopsKey, hgap d List.mem_cons_self, Bool.true_or]

theorem ReadsRow.assigns_iff (h : ReadsRow s row) (hbare : ∀ c ∈ key, isBareKeyChar c = true)
    (hne : key ≠ []) :
    assigns key (trim row.line) = true ↔ ∃ line v, row = .entry line (.ofList key) v := by
  have hother : ∀ c line, isBareKeyChar c = false → ¬assigns key (c :: line) = true := by
    intro c line hc h
    obtain ⟨gap, value, hline, -⟩ := Toml.assigns_iff.mp h
    obtain ⟨d, rest, rfl⟩ := List.exists_cons_of_ne_nil hne
    rw [List.cons_append] at hline
    rw [(List.cons.inj hline).1, hbare d List.mem_cons_self] at hc
    cases hc
  cases h with
  | empty h =>
    refine iff_of_false ?_ (by simp)
    rcases trim_empty h with hnil | ⟨more, hcomment⟩
    · rw [Row.line, hnil]
      intro h
      obtain ⟨gap, value, hline, -⟩ := Toml.assigns_iff.mp h
      simp [hne] at hline
    · rw [Row.line, hcomment]
      exact hother '#' more (by decide)
  | header hstart h =>
    refine iff_of_false ?_ (by simp)
    rw [Row.line, trim_header hstart]
    exact hother '[' _ (by decide)
  | @entry c rest name v hstart hfirst h =>
    obtain ⟨⟨gap, value, hline, hgap⟩, hname, -⟩ := trim_entry hstart hfirst h
    rw [Row.line, hline]
    constructor
    · intro h
      obtain ⟨gap', value', hline', hgap'⟩ := Toml.assigns_iff.mp h
      have hsame : name.toList = key := by
        rw [← takeWhile_bare hname hgap, hline', takeWhile_bare hbare hgap']
      exact ⟨firstLine s, v, by rw [← hsame, String.ofList_toList]⟩
    · rintro ⟨line, w, hrow⟩
      obtain ⟨-, rfl, -⟩ := Row.entry.inj hrow
      rw [String.toList_ofList]
      exact Toml.assigns_iff.mpr ⟨gap, value, rfl, hgap⟩

end Assignments

section Headers

/-- In the line stands nothing but a name in brackets, with blanks and quotation marks around it. -/
def Bracketed (name line : List Char) : Prop :=
  ∃ blanks quotes quotes' blanks',
    line = '[' :: '[' :: (blanks ++ (quotes ++ (name ++ (quotes' ++ blanks'))) ++ [']', ']']) ∧
    (∀ c ∈ blanks, isBlank c = true) ∧ (∀ c ∈ quotes, c = '"') ∧ (∀ c ∈ quotes', c = '"') ∧
    ∀ c ∈ blanks', isBlank c = true

theorem bracketed_of_headerName? {line found : List Char} (h : headerName? line = some found) :
    Bracketed found line := by
  rw [headerName?, Option.bind_eq_some_iff] at h
  obtain ⟨rest, hrest, h⟩ := h
  obtain ⟨inner, hinner, rfl⟩ := Option.map_eq_some_iff.mp h
  rw [dropStart?_eq_some_iff] at hrest
  rw [dropEnd?_eq_some_iff] at hinner
  obtain ⟨blanks, blanks', htrim, hblanks, hblanks'⟩ := exists_trim inner
  obtain ⟨quotes', hback, hquotes'⟩ := exists_rdropWhile_append (· == '"') (trim inner)
  obtain ⟨quotes, hfront, hquotes⟩ :=
    exists_append_dropWhile (· == '"') ((trim inner).reverse.dropWhile (· == '"')).reverse
  refine ⟨blanks, quotes, quotes', blanks', ?_, hblanks, fun c hc => beq_iff_eq.mp (hquotes c hc),
    fun c hc => beq_iff_eq.mp (hquotes' c hc), hblanks'⟩
  rw [hrest, hinner, ← List.append_assoc quotes, ← List.append_assoc (quotes ++ _), ← hfront,
    ← hback, ← htrim]
  rfl

theorem dropWhile_quote {bare : List Char} (hbare : ∀ c ∈ bare, isBareKeyChar c = true)
    (hne : bare ≠ []) (rest : List Char) :
    (bare ++ rest).dropWhile (· == '"') = bare ++ rest := by
  obtain ⟨c, bare, rfl⟩ := List.exists_cons_of_ne_nil hne
  refine List.dropWhile_cons_of_neg fun hquote => ?_
  have := hbare c List.mem_cons_self
  rw [beq_iff_eq.mp hquote] at this
  exact absurd this (by decide)

/-- Of a bare name nothing is cut off with the blanks and quotation marks around it. -/
theorem headerName?_of_bracketed {line bare : List Char}
    (hbare : ∀ c ∈ bare, isBareKeyChar c = true) (hne : bare ≠ []) (h : Bracketed bare line) :
    headerName? line = some bare := by
  obtain ⟨blanks, quotes, quotes', blanks', rfl, hblanks, hquotes, hquotes', hblanks'⟩ := h
  have hcore : ∀ c ∈ quotes ++ (bare ++ quotes'), isBlank c = false := by
    have hquote : ∀ c, c = '"' → isBlank c = false := by rintro _ rfl; decide
    simp only [List.forall_mem_append]
    exact ⟨fun c hc => hquote c (hquotes c hc), fun c hc => isBlank_eq_false (hbare c hc),
      fun c hc => hquote c (hquotes' c hc)⟩
  have htrim : trim (blanks ++ (quotes ++ (bare ++ (quotes' ++ blanks')))) =
      quotes ++ (bare ++ quotes') := by
    rw [trim_append_of_blank hblanks, ← List.append_assoc bare, ← List.append_assoc quotes,
      trim_append_blank hblanks']
    exact trim_eq_self (fun c hc => hcore c (List.mem_of_head? hc))
      fun c hc => hcore c (List.mem_of_getLast? hc)
  have hback : ((quotes ++ (bare ++ quotes')).reverse.dropWhile (· == '"')).reverse =
      quotes ++ bare := by
    rw [← List.append_assoc, List.reverse_append, List.reverse_append,
      List.dropWhile_append_of_pos fun c hc => beq_iff_eq.mpr (hquotes' c (List.mem_reverse.mp hc)),
      dropWhile_quote (fun c hc => hbare c (List.mem_reverse.mp hc)) (by simpa using hne),
      List.reverse_append, List.reverse_reverse, List.reverse_reverse]
  rw [headerName?, Option.bind_eq_some_iff]
  refine ⟨_, dropStart?_eq_some_iff.mpr rfl, Option.map_eq_some_iff.mpr
    ⟨_, dropEnd?_eq_some_iff.mpr rfl, ?_⟩⟩
  rw [htrim, hback, List.dropWhile_append_of_pos fun c hc => beq_iff_eq.mpr (hquotes c hc)]
  simpa using dropWhile_quote hbare hne []

/-- A row is taken for the header of a bare name exactly if it has nothing else in its line. -/
theorem taken?_eq_some_iff {bare : List Char} (hbare : ∀ c ∈ bare, isBareKeyChar c = true)
    (hne : bare ≠ []) : row.taken? = some (.ofList bare) ↔ Bracketed bare (trim row.line) := by
  rw [Row.taken?, Option.map_eq_some_iff]
  constructor
  · rintro ⟨found, hfound, hsame⟩
    rw [String.ofList_inj] at hsame
    exact hsame ▸ bracketed_of_headerName? hfound
  · intro h
    exact ⟨bare, headerName?_of_bracketed hbare hne h, rfl⟩

theorem taken?_eq_none (h : ∀ c ∈ (trim row.line).head?, c ≠ '[') : row.taken? = none := by
  rw [Row.taken?, Option.map_eq_none_iff, Option.eq_none_iff_forall_ne_some]
  intro found hfound
  obtain ⟨blanks, quotes, quotes', blanks', hline, -⟩ := bracketed_of_headerName? hfound
  rw [hline] at h
  exact h '[' rfl rfl

theorem ReadsRow.taken?_empty {line : List Char} (h : ReadsRow s (.empty line)) :
    (Row.empty line).taken? = none := by
  refine taken?_eq_none ?_
  cases h with
  | empty h =>
    rw [Row.line]
    rcases trim_empty h with hnil | ⟨more, hcomment⟩
    · simp [hnil]
    · simp [hcomment]

theorem ReadsRow.taken?_entry {line : List Char} {v : Toml} (h : ReadsRow s (.entry line name v)) :
    (Row.entry line name v).taken? = none := by
  refine taken?_eq_none ?_
  cases h with
  | entry hstart hbare h =>
    obtain ⟨⟨gap, value, hline, -⟩, hname, hne⟩ := trim_entry hstart hbare h
    obtain ⟨c, rest, hcons⟩ := List.exists_cons_of_ne_nil hne
    rw [Row.line, hline, hcons]
    rintro _ ⟨⟩ rfl
    exact absurd (hname '[' (hcons ▸ List.mem_cons_self)) (by decide)

/-- The reader goes on behind some blanks only if all of them count as blanks to it. -/
theorem takeSimpleKey_of_blank {front rest more : List Char}
    (hfront : ∀ c ∈ front, isBlank c = true) (hrest : skipBlanks rest = rest)
    (h : takeSimpleKey (skipBlanks (front ++ rest)) = some (name, more)) :
    takeSimpleKey rest = some (name, more) := by
  induction front with
  | nil => rwa [List.nil_append, hrest] at h
  | cons c front ih =>
    obtain ⟨hc, hfront⟩ := List.forall_mem_cons.mp hfront
    cases hblank : isTomlBlank c with
    | true =>
      refine ih hfront ?_
      rwa [List.cons_append, skipBlanks, List.dropWhile_cons_of_pos hblank] at h
    | false =>
      rw [List.cons_append, skipBlanks_cons hblank, takeSimpleKey.eq_def] at h
      have hstops : isBareKeyChar c = false :=
        not_isBareKeyChar (by rw [stopsKey, hc, Bool.true_or])
      split at h
      · rename_i heq
        rw [(List.cons.inj heq).1] at hc
        cases hc
      · rename_i heq
        rw [(List.cons.inj heq).1] at hc
        cases hc
      · simp [hstops] at h

/-- A string does not end before its closing quotation mark. -/
theorem takeBasic_unclosed {text rest : List Char} (htext : ∀ c ∈ text, c ≠ '"' ∧ c ≠ '\\')
    (hrest : ∀ c ∈ rest.head?, c = '\n') (fuel : Nat) : takeBasic fuel (text ++ rest) = none := by
  induction text generalizing fuel with
  | nil =>
    cases fuel with
    | zero => rw [takeBasic]
    | succ fuel =>
      cases rest with
      | nil => rfl
      | cons c rest =>
        rw [List.nil_append, hrest c rfl]
        rfl
  | cons c text ih =>
    obtain ⟨⟨hquote, hslash⟩, htext⟩ := List.forall_mem_cons.mp htext
    cases fuel with
    | zero => rw [takeBasic]
    | succ fuel =>
      rw [List.cons_append, takeBasic, ih htext]
      · simp
      · exact hquote
      · exact hslash

theorem takeBasic_bare {bare rest more found : List Char}
    (hbare : ∀ c ∈ bare, isBareKeyChar c = true) {fuel : Nat}
    (h : takeBasic fuel (bare ++ rest) = some (found, more)) :
    ∃ fuel' found', takeBasic fuel' rest = some (found', more) ∧ found = bare ++ found' := by
  induction bare generalizing fuel found with
  | nil => exact ⟨fuel, found, h, rfl⟩
  | cons c bare ih =>
    obtain ⟨hc, hbare⟩ := List.forall_mem_cons.mp hbare
    have hstops := stopsKey_eq_false hc
    cases fuel with
    | zero => cases h
    | succ fuel =>
      rw [List.cons_append, takeBasic] at h
      · split at h
        · obtain ⟨p, hp, hpair⟩ := Option.map_eq_some_iff.mp h
          obtain ⟨rfl, rfl⟩ := Prod.mk.inj hpair
          obtain ⟨fuel', found', hfound, hp⟩ := ih hbare hp
          exact ⟨fuel', found', hfound, by rw [hp]; rfl⟩
        · cases h
      · rintro rfl
        cases hstops
      · rintro rfl
        cases hstops

theorem skipBlanks_of_head {c : Char} {rest : List Char} (h : c = '"' ∨ isBareKeyChar c = true) :
    skipBlanks (c :: rest) = c :: rest := by
  refine skipBlanks_cons ?_ rest
  rw [← Bool.not_eq_true]
  intro hblank
  rcases h with rfl | h
  · cases hblank
  · have := isBlank_eq_false h
    rw [isBlank_of_isTomlBlank hblank] at this
    cases this

theorem exists_header_rest {rest bare : List Char} (hstart : skipBlanks s = '[' :: '[' :: rest)
    (h : Bracketed bare (trim (firstLine s))) :
    ∃ blanks quotes quotes' text tail,
      rest = blanks ++ (quotes ++ (bare ++ (quotes' ++ (text ++ tail)))) ∧
      (∀ c ∈ blanks, isBlank c = true) ∧ (∀ c ∈ quotes, c = '"') ∧ (∀ c ∈ quotes', c = '"') ∧
      (∀ c ∈ text, c ≠ '"' ∧ c ≠ '\\') ∧ (∀ c ∈ tail.head?, c = '\n') ∧
      ∀ c ∈ (quotes' ++ (text ++ tail)).head?, isBareKeyChar c = false := by
  obtain ⟨blanks, quotes, quotes', blanks', hline, hblanks, hquotes, hquotes', hblanks'⟩ := h
  rw [trim_header hstart] at hline
  have hend := (List.cons.inj (List.cons.inj hline).2).2
  obtain ⟨back, hback, hbackBlank⟩ := exists_trimEnd_append (firstLine rest)
  have hrest : rest = firstLine rest ++ rest.dropWhile (· != '\n') :=
    List.takeWhile_append_dropWhile.symm
  have hplain : ∀ c, isBlank c = true → c ≠ '"' ∧ c ≠ '\\' := by
    intro c hc
    constructor <;> rintro rfl <;> cases hc
  refine ⟨blanks, quotes, quotes', blanks' ++ (']' :: ']' :: back), rest.dropWhile (· != '\n'), ?_,
    hblanks, hquotes, hquotes', ?_, ?_, ?_⟩
  · conv_lhs => rw [hrest, hback, hend]
    simp
  · simp only [List.forall_mem_append, List.forall_mem_cons]
    exact ⟨fun c hc => hplain c (hblanks' c hc), by decide, by decide,
      fun c hc => hplain c (hbackBlank c hc)⟩
  · intro c hc
    have := List.head?_dropWhile_not (· != '\n') rest
    rw [Option.mem_def.mp hc] at this
    simpa using this
  · intro c hc
    refine not_isBareKeyChar ?_
    rcases quotes' with _ | ⟨d, quotes'⟩
    · rcases blanks' with _ | ⟨d, blanks'⟩
      · obtain rfl : ']' = c := by simpa using hc
        decide
      · obtain rfl : d = c := by simpa using hc
        rw [stopsKey, hblanks' d List.mem_cons_self, Bool.true_or]
    · obtain rfl : d = c := by simpa using hc
      rw [hquotes' d List.mem_cons_self]
      decide

theorem exists_quoted_cons {quotes bare : List Char} (hquotes : ∀ c ∈ quotes, c = '"')
    (hbare : ∀ c ∈ bare, isBareKeyChar c = true) (hne : bare ≠ []) (rest : List Char) :
    ∃ c more, quotes ++ (bare ++ rest) = c :: more ∧ (c = '"' ∨ isBareKeyChar c = true) := by
  cases quotes with
  | nil =>
    obtain ⟨b, bs, rfl⟩ := List.exists_cons_of_ne_nil hne
    exact ⟨b, bs ++ rest, rfl, Or.inr (hbare b List.mem_cons_self)⟩
  | cons d quotes => exact ⟨d, quotes ++ (bare ++ rest), rfl, Or.inl (hquotes d List.mem_cons_self)⟩

theorem takeSimpleKey_bare_append {bare rest : List Char}
    (hbare : ∀ c ∈ bare, isBareKeyChar c = true) (hne : bare ≠ [])
    (hrest : ∀ c ∈ rest.head?, isBareKeyChar c = false) :
    takeSimpleKey (bare ++ rest) = some (.ofList bare, rest) := by
  obtain ⟨htake, hdrop⟩ := takeWhile_append_stop hbare hrest
  obtain ⟨b, bs, rfl⟩ := List.exists_cons_of_ne_nil hne
  rw [List.cons_append] at htake hdrop ⊢
  rw [takeSimpleKey_bare (hbare b List.mem_cons_self), htake, hdrop]

/-- A bare name behind a quotation mark ends with another one, or never. -/
theorem takeSimpleKey_quoted {bare quotes text tail more : List Char}
    (hbare : ∀ c ∈ bare, isBareKeyChar c = true) (hquotes : ∀ c ∈ quotes, c = '"')
    (htext : ∀ c ∈ text, c ≠ '"' ∧ c ≠ '\\') (htail : ∀ c ∈ tail.head?, c = '\n')
    (h : takeSimpleKey ('"' :: (bare ++ (quotes ++ (text ++ tail)))) = some (name, more)) :
    name = .ofList bare := by
  rw [takeSimpleKey, Option.map_eq_some_iff] at h
  obtain ⟨⟨found, more'⟩, hfound, hpair⟩ := h
  obtain ⟨rfl, -⟩ := Prod.mk.inj hpair
  obtain ⟨fuel, found', hfound', rfl⟩ := takeBasic_bare hbare hfound
  cases quotes with
  | nil =>
    rw [List.nil_append, takeBasic_unclosed htext htail] at hfound'
    cases hfound'
  | cons d quotes =>
    have hd : d = '"' := hquotes d List.mem_cons_self
    subst hd
    cases fuel with
    | zero => cases hfound'
    | succ fuel =>
      obtain ⟨rfl, -⟩ := Prod.mk.inj (Option.some.inj hfound')
      rw [List.append_nil]

theorem ReadsRow.called_of_bracketed {line bare : List Char} (h : ReadsRow s (.header line name))
    (hbare : ∀ c ∈ bare, isBareKeyChar c = true) (hne : bare ≠ [])
    (hheader : Bracketed bare (trim line)) : name = .ofList bare := by
  cases h with
  | @header rest _ hstart h =>
    rw [hstart] at h
    obtain ⟨close, hkey, -⟩ := takeStatement_item_iff.mp h
    obtain ⟨more, hname, hmore⟩ := takeKey_eq_some hkey
    obtain ⟨blanks, quotes, quotes', text, tail, rfl, hblanks, hquotes, hquotes', htext, htail,
      hstop⟩ := exists_header_rest hstart hheader
    have hskip : skipBlanks (quotes ++ (bare ++ (quotes' ++ (text ++ tail)))) =
        quotes ++ (bare ++ (quotes' ++ (text ++ tail))) := by
      obtain ⟨c, rest, hcons, hc⟩ :=
        exists_quoted_cons hquotes hbare hne (quotes' ++ (text ++ tail))
      rw [hcons, skipBlanks_of_head hc]
    replace hname := takeSimpleKey_of_blank hblanks hskip hname
    match quotes, hquotes with
    | [], _ =>
      rw [List.nil_append, takeSimpleKey_bare_append hbare hne hstop] at hname
      exact (Prod.mk.inj (Option.some.inj hname)).1.symm
    | [d], hquotes =>
      rw [hquotes d List.mem_cons_self] at hname
      exact takeSimpleKey_quoted hbare hquotes' htext htail hname
    | d :: e :: quotes, hquotes =>
      -- the string is empty, and no bracket follows it
      obtain ⟨rfl, rfl, hmore'⟩ : d = '"' ∧ e = '"' ∧ ∀ c ∈ quotes, c = '"' := by
        simpa using hquotes
      obtain ⟨-, hbehind⟩ := Prod.mk.inj (Option.some.inj hname)
      obtain ⟨c, rest, hcons, hc⟩ := exists_quoted_cons hmore' hbare hne (quotes' ++ (text ++ tail))
      rw [← hbehind] at hmore
      change skipBlanks (quotes ++ (bare ++ (quotes' ++ (text ++ tail)))) = _ at hmore
      rw [hcons, skipBlanks_of_head hc] at hmore
      rw [(List.cons.inj hmore).1] at hc
      exact absurd hc (by decide)

end Headers

end UnitFiles.Toml
