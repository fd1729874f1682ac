import UnitFiles.Spec.Reader
import UnitFiles.Proofs.CaseFolding
import UnitFiles.Proofs.Numerals
import UnitFiles.Proofs.Pieces

/-! Spec files whose statements all end with their lines. Each line holds nothing, the header of one
more table or one assignment, and the statements of the file are those of its lines. What a line
says to the reader is compared with what the search for a key, which only looks at the characters,
makes of it. -/
namespace UnitFiles.Toml
open Text Number

/-- A line of a spec file and what the reader finds in it. -/
inductive Row
  | empty (line : List Char)
  | header (line : List Char) (name : String)
  | entry (line : List Char) (key : String) (v : Toml)

namespace Row

def line : Row → List Char
  | empty line => line
  | header line _ => line
  | entry line _ _ => line

def statement? : Row → Option Statement
  | empty _ => none
  | header _ name => some (.item [] name)
  | entry _ key v => some (.assign [] key v)

def called? : Row → Option String
  | header _ name => some name
  | _ => none

/-- The name of the table that a search takes the line for the header of. -/
def taken? (row : Row) : Option String := (headerName? (trim row.line)).map String.ofList

end Row

def firstLine (s : List Char) : List Char := s.takeWhile (· != '\n')

def nextLine (s : List Char) : List Char := (s.dropWhile (· != '\n')).tail

/-- What the reader takes from the start of a text is the row of its first line. -/
inductive ReadsRow (s : List Char) : Row → Prop
  | empty (h : endLine? s = some (nextLine s)) : ReadsRow s (.empty (firstLine s))
  | header {rest : List Char} {name : String} (hstart : skipBlanks s = '[' :: '[' :: rest)
      (h : takeStatement (skipBlanks s) = some (.item [] name, nextLine s)) :
      ReadsRow s (.header (firstLine s) name)
  | entry {c : Char} {rest : List Char} {key : String} {v : Toml}
      (hstart : skipBlanks s = c :: rest) (hbare : isBareKeyChar c = true)
      (h : takeStatement (skipBlanks s) = some (.assign [] key v, nextLine s)) :
      ReadsRow s (.entry (firstLine s) key v)

/-- The rows of a text, one for each of its lines. -/
inductive Rows : List Char → List Row → Prop
  | nil : Rows [] []
  | cons {s : List Char} {row : Row} {rows : List Row} (hne : s ≠ []) (hrow : ReadsRow s row)
      (hrows : Rows (nextLine s) rows) : Rows s (row :: rows)

variable {s rest next : List Char} {row : Row} {rows : List Row} {path : List String}
  {name : String} {v : Toml}

section Pieces

theorem takeStatement_item_iff :
    takeStatement ('[' :: '[' :: rest) = some (.item path name, next) ↔
      ∃ more, takeKey rest = some ((path, name), ']' :: ']' :: more) ∧
        endLine? more = some next := by
  rw [takeStatement]
  constructor
  · intro h
    split at h
    · rename_i hkey
      obtain ⟨_, hend, h⟩ := Option.map_eq_some_iff.mp h
      cases h
      exact ⟨_, hkey, hend⟩
    · cases h
  · rintro ⟨more, hkey, hend⟩
    simp only [hkey, hend, Option.map_some]

theorem takeStatement_assign_iff {c : Char} (hc : c ≠ '[') :
    takeStatement (c :: rest) = some (.assign path name v, next) ↔
      ∃ value more, takeKey (c :: rest) = some ((path, name), '=' :: value) ∧
        takeValue (2 * (c :: rest).length + 2) nestingLimit (skipBlanks value) = some (v, more) ∧
        endLine? more = some next := by
  rw [takeStatement.eq_3 _ (by rintro _ ⟨⟩; exact hc rfl) (by rintro _ ⟨⟩; exact hc rfl)]
  constructor
  · intro h
    split at h
    · rename_i hkey
      obtain ⟨_, hvalue, h⟩ := Option.bind_eq_some_iff.mp h
      obtain ⟨_, hend, h⟩ := Option.map_eq_some_iff.mp h
      cases h
      exact ⟨_, _, hkey, hvalue, hend⟩
    · cases h
  · rintro ⟨value, more, hkey, hvalue, hend⟩
    simp only [hkey, hvalue, hend, Option.bind_some, Option.map_some]

end Pieces

section Lines

theorem ne_bracket {c : Char} (h : isBareKeyChar c = true) : c ≠ '[' := by
  rintro rfl
  cases h

theorem firstLine_append {a : List Char} (h : '\n' ∉ a) (b : List Char) :
    firstLine (a ++ b) = a ++ firstLine b :=
  List.takeWhile_append_of_pos fun _ hc => bne_iff_ne.mpr fun he => h (he ▸ hc)

theorem newline_not_mem_firstLine (s : List Char) : '\n' ∉ firstLine s := by
  intro h
  have := List.mem_takeWhile_imp h
  simp at this

theorem lines_eq_singleton (hne : s ≠ []) (h : '\n' ∉ s) : lines s = [s] := by
  induction s with
  | nil => contradiction
  | cons c rest ih =>
    obtain ⟨hc, hrest⟩ := List.ne_and_not_mem_of_not_mem_cons h
    rw [lines_cons (Ne.symm hc)]
    cases rest with
    | nil => rfl
    | cons d rest => rw [ih (List.cons_ne_nil d rest) hrest]

theorem lines_eq_cons (h : s ≠ []) : lines s = firstLine s :: lines (nextLine s) := by
  have hsplit : firstLine s ++ s.dropWhile (· != '\n') = s := List.takeWhile_append_dropWhile
  cases hrest : s.dropWhile (· != '\n') with
  | nil =>
    rw [hrest, List.append_nil] at hsplit
    have hline : '\n' ∉ s := hsplit ▸ newline_not_mem_firstLine s
    rw [nextLine, hrest, hsplit, List.tail_nil, lines, lines_eq_singleton h hline]
  | cons c more =>
    have hc : c = '\n' := by
      have := List.head?_dropWhile_not (· != '\n') s
      simpa [hrest] using this
    rw [hrest, hc] at hsplit
    conv_lhs => rw [← hsplit]
    rw [lines_append_newline (newline_not_mem_firstLine s), nextLine, hrest, List.tail_cons]

theorem length_nextLine_lt (h : s ≠ []) : (nextLine s).length < s.length := by
  rw [nextLine, List.length_tail]
  have hle := List.length_dropWhile_le (· != '\n') s
  have hpos := List.length_pos_iff.mpr h
  omega

theorem ReadsRow.line_eq (h : ReadsRow s row) : row.line = firstLine s := by
  cases h <;> rfl

theorem Rows.lines_eq (h : Rows s rows) : lines s = rows.map Row.line := by
  induction h with
  | nil => rfl
  | cons hne hrow _ ih => rw [lines_eq_cons hne, ih, List.map_cons, hrow.line_eq]

section Written
variable {line more : List Char}

theorem firstLine_newline (h : '\n' ∉ line) (next : List Char) :
    firstLine (line ++ '\n' :: next) = line := by
  rw [firstLine_append h]
  exact List.append_nil line

theorem nextLine_newline (h : '\n' ∉ line) (next : List Char) :
    nextLine (line ++ '\n' :: next) = next := by
  rw [nextLine, List.dropWhile_append_of_pos]
  · rfl
  · exact fun c hc => bne_iff_ne.mpr fun he => h (he ▸ hc)

theorem Rows.of_line (h : '\n' ∉ line) (hrow : ReadsRow (line ++ '\n' :: next) row)
    (hrows : Rows next rows) : Rows (line ++ '\n' :: next) (row :: rows) :=
  .cons (by simp) hrow (by rwa [nextLine_newline h])

theorem Rows.empty_line (h : '\n' ∉ line) (hend : endLine? (line ++ '\n' :: next) = some next)
    (hrows : Rows next rows) : Rows (line ++ '\n' :: next) (.empty line :: rows) := by
  have hrow := ReadsRow.empty (hend.trans (congrArg some (nextLine_newline h next).symm))
  rw [firstLine_newline h] at hrow
  exact .of_line h hrow hrows

theorem Rows.header_line (h : '\n' ∉ line)
    (hstart : skipBlanks (line ++ '\n' :: next) = '[' :: '[' :: rest)
    (hkey : takeKey rest = some (([], name), ']' :: ']' :: more)) (hend : endLine? more = some next)
    (hrows : Rows next rows) : Rows (line ++ '\n' :: next) (.header line name :: rows) := by
  have hread := takeStatement_item_iff.mpr ⟨more, hkey, hend⟩
  have hrow := ReadsRow.header hstart (by rwa [hstart, nextLine_newline h])
  rw [firstLine_newline h] at hrow
  exact .of_line h hrow hrows

theorem Rows.entry_line {c : Char} {value : List Char} (h : '\n' ∉ line)
    (hstart : skipBlanks (line ++ '\n' :: next) = c :: rest) (hbare : isBareKeyChar c = true)
    (hkey : takeKey (c :: rest) = some (([], name), '=' :: value))
    (hvalue : takeValue (2 * (c :: rest).length + 2) nestingLimit (skipBlanks value) =
      some (v, more))
    (hend : endLine? more = some next) (hrows : Rows next rows) :
    Rows (line ++ '\n' :: next) (.entry line name v :: rows) := by
  have hread := (takeStatement_assign_iff (ne_bracket hbare)).mpr ⟨value, more, hkey, hvalue, hend⟩
  have hrow := ReadsRow.entry hstart hbare (by rwa [hstart, nextLine_newline h])
  rw [firstLine_newline h] at hrow
  exact .of_line h hrow hrows

end Written

end Lines

section Statements

@[simp] theorem skipBlanks_skipBlanks (s : List Char) : skipBlanks (skipBlanks s) = skipBlanks s :=
  List.dropWhile_idempotent isTomlBlank s

theorem endLine?_skipBlanks (s : List Char) : endLine? (skipBlanks s) = endLine? s := by
  rw [endLine?, skipBlanks_skipBlanks, endLine?]

theorem skipBlanks_cons {c : Char} (h : isTomlBlank c = false) (rest : List Char) :
    skipBlanks (c :: rest) = c :: rest := List.dropWhile_cons_of_neg (by simp [h])

/-- A line without a statement starts with a comment or a line break. -/
theorem head_of_endLine? {c : Char} {rest next : List Char} (hstart : skipBlanks s = c :: rest)
    (h : endLine? s = some next) : (c = '#' || c = '\n' || c = '\r') = true := by
  by_cases hhash : c = '#'
  · simp [hhash]
  · rw [endLine?, hstart, skipComment.eq_2 _ (by rintro r ⟨⟩; exact hhash rfl)] at h
    change afterNewline? (c :: rest) = some next at h
    rw [afterNewline?.eq_def] at h
    split at h
    · rename_i heq
      simp [(List.cons.inj heq).1]
    · rename_i heq
      simp [(List.cons.inj heq).1]
    · cases h

theorem isBareKeyChar_lt {c : Char} (h : isBareKeyChar c = true) : c.toNat < 0x80 := by
  have hbelow : ∀ {high : UInt32}, c.val ≤ high → high.toNat < 0x80 → c.toNat < 0x80 :=
    fun hle => Nat.lt_of_le_of_lt (UInt32.le_iff_toNat_le.mp hle)
  rw [isBareKeyChar, Bool.or_eq_true, Bool.or_eq_true, beq_iff_eq, beq_iff_eq] at h
  rcases h with (halnum | rfl) | rfl
  · rcases Bool.or_eq_true_iff.mp halnum with halpha | hdigit
    · rcases Bool.or_eq_true_iff.mp halpha with hupper | hlower
      · exact hbelow (of_decide_eq_true hupper).2 (by decide)
      · exact hbelow (of_decide_eq_true (Bool.and_eq_true_iff.mp hlower).2) (by decide)
    · exact hbelow (of_decide_eq_true (Bool.and_eq_true_iff.mp hdigit).2) (by decide)
  · decide
  · decide

/-- Blanks, and the characters with which something else than a bare key starts or goes on. -/
def stopsKey (c : Char) : Bool :=
  isBlank c || ['#', '[', ']', '"', '\\', '\x27', '.', '='].contains c

theorem stopsKey_eq_false {c : Char} (h : isBareKeyChar c = true) : stopsKey c = false := by
  have table : ∀ n < 0x80,
      isBareKeyChar (Char.ofNat n) = true → stopsKey (Char.ofNat n) = false := by decide +kernel
  exact forall_ascii (P := fun c => isBareKeyChar c = true → stopsKey c = false) table
    (isBareKeyChar_lt h) h

theorem not_isBareKeyChar {c : Char} (h : stopsKey c = true) : isBareKeyChar c = false := by
  rw [← Bool.not_eq_true]
  intro hbare
  rw [stopsKey_eq_false hbare] at h
  cases h

theorem isBlank_of_isTomlBlank {c : Char} (h : isTomlBlank c = true) : isBlank c = true := by
  simp only [isTomlBlank, Bool.or_eq_true, beq_iff_eq] at h
  rcases h with rfl | rfl <;> decide

theorem ne_newline_of_isTomlBlank {c : Char} (h : isTomlBlank c = true) : c ≠ '\n' := by
  rintro rfl
  cases h

theorem takeStatements_endLine {c : Char} {rest next : List Char}
    (hstart : skipBlanks s = c :: rest) (h : endLine? s = some next) (fuel : Nat) :
    takeStatements (fuel + 1) s = takeStatements fuel next := by
  rw [takeStatements, hstart]
  simp only [head_of_endLine? hstart h, if_true]
  rw [← hstart, endLine?_skipBlanks, h, Option.bind_some]

theorem takeStatements_cons {c : Char} {rest next : List Char} {statement : Statement}
    (hstart : skipBlanks s = c :: rest) (hc : isBareKeyChar c = true ∨ c = '[')
    (h : takeStatement (skipBlanks s) = some (statement, next)) (fuel : Nat) :
    takeStatements (fuel + 1) s = (takeStatements fuel next).map (statement :: ·) := by
  have hother : (c = '#' || c = '\n' || c = '\r') = false := by
    rw [← Bool.not_eq_true]
    intro hends
    simp only [Bool.or_eq_true, decide_eq_true_eq] at hends
    have hstops : isBareKeyChar c = false ∧ c ≠ '[' := by
      rcases hends with (rfl | rfl) | rfl <;> decide
    simp [hstops] at hc
  rw [takeStatements, hstart]
  simp only [hother, Bool.false_eq_true, if_false]
  rw [← hstart, h, Option.bind_some]

theorem Rows.takeStatements_eq (h : Rows s rows) {fuel : Nat} (hfuel : s.length < fuel) :
    takeStatements fuel s = some (rows.filterMap Row.statement?) := by
  induction h generalizing fuel with
  | nil =>
    obtain ⟨fuel, rfl⟩ := Nat.exists_eq_add_of_lt hfuel
    rfl
  | @cons s row rows hne hrow hrows ih =>
    obtain ⟨fuel, rfl⟩ := Nat.exists_eq_succ_of_ne_zero (Nat.ne_zero_of_lt hfuel)
    have hrest := ih (Nat.lt_of_lt_of_le (length_nextLine_lt hne) (Nat.le_of_lt_succ hfuel))
    cases hrow with
    | empty h =>
      cases hstart : skipBlanks s with
      | nil =>
        have hnext : nextLine s = [] := by
          rw [endLine?, hstart] at h
          exact (Option.some.inj h).symm
        rw [hnext] at hrows
        cases hrows with
        | nil => rw [takeStatements, hstart]; rfl
        | cons hne _ _ => contradiction
      | cons c rest =>
        rw [takeStatements_endLine hstart h, hrest]
        rfl
    | header hstart h =>
      rw [takeStatements_cons hstart (Or.inr rfl) h, hrest]
      rfl
    | entry hstart hbare h =>
      rw [takeStatements_cons hstart (Or.inl hbare) h, hrest]
      rfl

/-- No row starts with a byte order mark. -/
theorem Rows.skipMark_eq (h : Rows s rows) : skipMark s = s := by
  rw [skipMark.eq_def]
  split
  · rename_i rest
    exfalso
    have hstart : skipBlanks ('\ufeff' :: rest) = '\ufeff' :: rest :=
      skipBlanks_cons (by decide) rest
    cases h with
    | cons hne hrow hrows =>
      cases hrow with
      | empty h => simpa using head_of_endLine? hstart h
      | header hheader h => cases hstart.symm.trans hheader
      | entry hentry hbare h =>
        have hmark : isBareKeyChar '\ufeff' = false := by decide
        rw [(List.cons.inj (hentry.symm.trans hstart)).1, hmark] at hbare
        cases hbare
  · rfl

theorem Rows.read?_eq {text : String} (h : Rows text.toList rows) :
    read? text = execute [] [] (rows.filterMap Row.statement?) := by
  rw [read?, h.skipMark_eq, h.takeStatements_eq (Nat.lt_add_of_pos_right Nat.two_pos),
    Option.bind_some]

end Statements

section Keys

theorem takeKeys_ne_nil {fuel : Nat} {keys : List String}
    (h : takeKeys fuel s = some (keys, rest)) : keys ≠ [] := by
  cases fuel with
  | zero => cases h
  | succ fuel =>
    rw [takeKeys, Option.bind_eq_some_iff] at h
    obtain ⟨⟨key, more⟩, -, h⟩ := h
    dsimp only at h
    split at h
    · obtain ⟨p, -, hp⟩ := Option.map_eq_some_iff.mp h
      rw [← (Prod.mk.inj hp).1]
      exact List.cons_ne_nil key p.1
    · rw [← (Prod.mk.inj (Option.some.inj h)).1]
      exact List.cons_ne_nil key []

theorem takeKey_eq_some (h : takeKey s = some (([], name), rest)) :
    ∃ more, takeSimpleKey (skipBlanks s) = some (name, more) ∧ skipBlanks more = rest := by
  rw [takeKey, Option.bind_eq_some_iff] at h
  obtain ⟨⟨keys, rest'⟩, hkeys, h⟩ := h
  obtain ⟨last, hlast, hpair⟩ := Option.map_eq_some_iff.mp h
  obtain ⟨hpath, rfl⟩ := Prod.mk.inj hpair
  obtain ⟨hpath, rfl⟩ := Prod.mk.inj hpath
  rw [nestingLimit, takeKeys, Option.bind_eq_some_iff] at hkeys
  obtain ⟨⟨key, more⟩, hkey, hkeys⟩ := hkeys
  dsimp only at hkeys
  split at hkeys
  · obtain ⟨p, hp, hmore⟩ := Option.map_eq_some_iff.mp hkeys
    obtain ⟨rfl, -⟩ := Prod.mk.inj hmore
    obtain ⟨more, rest⟩ := p
    rw [List.dropLast_cons_of_ne_nil (takeKeys_ne_nil hp)] at hpath
    cases hpath
  · obtain ⟨rfl, hrest⟩ := Prod.mk.inj (Option.some.inj hkeys)
    rw [List.getLast?_singleton, Option.some.injEq] at hlast
    exact ⟨more, by rw [hkey, hlast], hrest⟩

theorem takeSimpleKey_bare {c : Char} (h : isBareKeyChar c = true) (more : List Char) :
    takeSimpleKey (c :: more) =
      some (.ofList ((c :: more).takeWhile isBareKeyChar),
        (c :: more).dropWhile isBareKeyChar) := by
  have hstops := stopsKey_eq_false h
  rw [takeSimpleKey.eq_def]
  split
  · rename_i heq
    rw [(List.cons.inj heq).1] at hstops
    cases hstops
  · rename_i heq
    rw [(List.cons.inj heq).1] at hstops
    cases hstops
  · simp [h]

end Keys

end UnitFiles.Toml
