import Mathlib.Order.Bounds.Basic
import UnitFiles.Proofs.Arranging
import UnitFiles.Proofs.VariableSettings

/-! What the variables of an environment come to. Either they make up a document, or the first
variable that is refused or else the first index that is skipped tells the failure. All of this
depends on the set of variables only. -/
namespace UnitFiles.Environment
variable {lead : String} {spec : FileSpec} {vars : List (String × String)}

def Present (lead : String) (spec : FileSpec) (vars : List (String × String))
    (place : String ×ₗ Nat) : Prop :=
  ∃ v ∈ vars, Reaches lead spec v.1 place

/-- The options of a section: what the variables that reach it give, in the order of their
names. -/
def Collects (lead : String) (spec : FileSpec) (vars : List (String × String))
    (place : String ×ₗ Nat) (entries : List Entry) : Prop :=
  ∃ (here : List (String × String)) (parts : List (List Entry)),
    (here.Pairwise fun v w => v.1 < w.1) ∧
      (∀ v, v ∈ here ↔ v ∈ vars ∧ Reaches lead spec v.1 place) ∧
      List.Forall₂ (fun v part => Gives lead spec v place part) here parts ∧
      entries = parts.flatten

def reaching (lead : String) (spec : FileSpec) (vars : List (String × String))
    (place : String ×ₗ Nat) : Set String :=
  {name | ∃ v ∈ vars, v.1 = name ∧ Reaches lead spec name place}

def refused (lead : String) (spec : FileSpec) (vars : List (String × String)) : Set String :=
  {name | ∃ v ∈ vars, v.1 = name ∧ ∃ e, Refuses lead spec v e}

/-- The indexes that no variable spells for a section. -/
def missing (lead : String) (spec : FileSpec) (vars : List (String × String)) (name : String) :
    Set Nat :=
  {index | ¬Present lead spec vars (toLex (name, index))}

/-- The places with a gap before them: a lower index of the same section is missing. -/
def afterGap (lead : String) (spec : FileSpec) (vars : List (String × String)) :
    Set (String ×ₗ Nat) :=
  {place | Present lead spec vars place ∧
    ∃ index ∈ missing lead spec vars (ofLex place).1, index < (ofLex place).2}

/-- The document has one section for each place that is reached, in their order. The indexes of
each name start from 0 and have no gap. -/
structure MadeUp (lead : String) (spec : FileSpec) (vars : List (String × String))
    (d : Document) : Prop where
  accepted : refused lead spec vars = ∅
  path : d.path = "<env:" ++ lead ++ ">"
  sections : ∃ places : List (String ×ₗ Nat), places.Pairwise (· < ·) ∧
    (∀ place, place ∈ places ↔ Present lead spec vars place) ∧
    List.Forall₂ (fun place s => s.name = (ofLex place).1 ∧
      Collects lead spec vars place s.entries) places d.sections
  consecutive : ∀ name, ∃ count, ∀ index,
    Present lead spec vars (toLex (name, index)) ↔ index < count

/-- The failure is that of the first refused variable. If there is none, it is that of the first
place with a gap before it, and tells the first variable that reaches it and the first missing
index. -/
inductive Fails (lead : String) (spec : FileSpec) (vars : List (String × String)) : Error → Prop
  | refused {v : String × String} {e : Error} : v ∈ vars → Refuses lead spec v e →
      IsLeast (refused lead spec vars) v.1 → Fails lead spec vars e
  | skipped {name source : String} {index expected : Nat} :
      Environment.refused lead spec vars = ∅ →
      IsLeast (afterGap lead spec vars) (toLex (name, index)) →
      IsLeast (missing lead spec vars name) expected →
      IsLeast (reaching lead spec vars (toLex (name, index))) source →
      Fails lead spec vars (.invalidVariable source (.skipsIndex name index expected))

theorem refused_eq_empty_iff :
    refused lead spec vars = ∅ ↔ ∀ v ∈ vars, ∀ e, ¬Refuses lead spec v e := by
  rw [Set.eq_empty_iff_forall_notMem]
  constructor
  · exact fun h v hv e hrefuses => h v.1 ⟨v, hv, rfl, e, hrefuses⟩
  · rintro h _ ⟨v, hv, rfl, e, hrefuses⟩
    exact h v hv e hrefuses

section Unique

theorem Collects.unique {place : String ×ₗ Nat} {entries entries' : List Entry}
    (h : Collects lead spec vars place entries) (h' : Collects lead spec vars place entries') :
    entries = entries' := by
  obtain ⟨here, parts, hordered, hmem, hgives, rfl⟩ := h
  obtain ⟨here', parts', hordered', hmem', hgives', rfl⟩ := h'
  have hkeyed : Keyed.Ordered here := hordered
  have hhere : here = here' :=
    hkeyed.eq_of_mem_iff hordered' fun v => (hmem v).trans (hmem' v).symm
  subst hhere
  have hunique : Relator.RightUnique fun v part => Gives lead spec v place part :=
    fun _ _ _ hpart hpart' => hpart.unique hpart'
  rw [List.right_unique_forall₂' hunique hgives hgives']

theorem MadeUp.unique {d d' : Document} (h : MadeUp lead spec vars d)
    (h' : MadeUp lead spec vars d') : d = d' := by
  obtain ⟨places, hordered, hmem, hsections⟩ := h.sections
  obtain ⟨places', hordered', hmem', hsections'⟩ := h'.sections
  have hplaces : places = places' :=
    hordered.eq_of_mem_iff hordered' fun place => (hmem place).trans (hmem' place).symm
  subst hplaces
  have hunique : Relator.RightUnique fun (place : String ×ₗ Nat) (s : Section) =>
      s.name = (ofLex place).1 ∧ Collects lead spec vars place s.entries := by
    rintro place ⟨name, entries⟩ ⟨name', entries'⟩ ⟨rfl, hentries⟩ ⟨rfl, hentries'⟩
    cases hentries.unique hentries'
    rfl
  have hsame := List.right_unique_forall₂' hunique hsections hsections'
  obtain ⟨path, sections⟩ := d
  obtain ⟨path', sections'⟩ := d'
  cases h.path
  cases h'.path
  cases hsame
  rfl

theorem Fails.unique (distinct : (vars.map Prod.fst).Nodup) {e e' : Error}
    (h : Fails lead spec vars e) (h' : Fails lead spec vars e') : e = e' := by
  cases h with
  | refused hv hrefuses hleast =>
    cases h' with
    | refused hw hrefuses' hleast' =>
      have hname := hleast.unique hleast'
      cases List.inj_on_of_nodup_map distinct hv hw hname
      exact hrefuses.unique hrefuses'
    | skipped haccepted _ _ _ =>
      exact absurd hrefuses (refused_eq_empty_iff.mp haccepted _ hv _)
  | skipped haccepted hplace hexpected hsource =>
    cases h' with
    | refused hv hrefuses _ => exact absurd hrefuses (refused_eq_empty_iff.mp haccepted _ hv _)
    | skipped _ hplace' hexpected' hsource' =>
      cases hplace.unique hplace'
      cases hexpected.unique hexpected'
      cases hsource.unique hsource'
      rfl

theorem MadeUp.not_fails {d : Document} (h : MadeUp lead spec vars d) (e : Error) :
    ¬Fails lead spec vars e := by
  rintro (⟨hv, hrefuses, -⟩ | ⟨-, hplace, -, -⟩)
  · exact refused_eq_empty_iff.mp h.accepted _ hv _ hrefuses
  · obtain ⟨hpresent, lower, hmissing, hlt⟩ := hplace.1
    obtain ⟨count, hcount⟩ := h.consecutive _
    have hindex := (hcount _).mp hpresent
    exact hmissing ((hcount lower).mpr (hlt.trans hindex))

end Unique

section Found
variable {found : List Setting} (distinct : (vars.map Prod.fst).Nodup)
  (h : settings lead spec (Keyed.ofList vars) = .ok found)
include distinct h

/-- The variables that reach a place, in the order of their names, and their settings. -/
theorem exists_here (place : String ×ₗ Nat) :
    ∃ here : List (String × String), (here.Pairwise fun v w => v.1 < w.1) ∧
      (∀ v, v ∈ here ↔ v ∈ vars ∧ Reaches lead spec v.1 place) ∧
      List.Forall₂ (fun v s => s.source = v.1 ∧ Gives lead spec v place s.entries) here
        (found.filter fun s => s.place = place) := by
  classical
  refine ⟨_, (Keyed.ordered_ofList vars).filter _, fun v => ?_, forall₂_reaching h place⟩
  rw [List.mem_filter, Keyed.mem_ofList distinct, decide_eq_true_iff]

theorem present_iff {place : String ×ₗ Nat} :
    Present lead spec vars place ↔ ∃ t ∈ arranged found, t.place = place := by
  obtain ⟨here, -, hmem, hall⟩ := exists_here distinct h place
  rw [exists_mem_arranged]
  constructor
  · rintro ⟨v, hv, hreaches⟩
    obtain ⟨s, hs, -⟩ := exists_of_mem_forall₂ hall.flip ((hmem v).mpr ⟨hv, hreaches⟩)
    exact ⟨s, mem_filter_place.mp hs⟩
  · rintro ⟨s, hs, hplace⟩
    obtain ⟨v, hv, -⟩ := exists_of_mem_forall₂ hall (mem_filter_place.mpr ⟨hs, hplace⟩)
    exact ⟨v, (hmem v).mp hv⟩

theorem collects_of_mem_arranged {t : Setting} (ht : t ∈ arranged found) :
    Collects lead spec vars t.place t.entries ∧
      IsLeast (reaching lead spec vars t.place) t.source := by
  obtain ⟨here, hordered, hmem, hall⟩ := exists_here distinct h t.place
  have hjoined := mem_arranged.mp ht
  generalize (found.filter fun s => s.place = t.place) = settings at hall hjoined
  have hparts : List.Forall₂ (fun v part => Gives lead spec v t.place part) here
      (settings.map Setting.entries) := by
    rw [List.forall₂_map_right_iff]
    exact hall.imp fun _ _ hs => hs.2
  cases hall with
  | nil => cases hjoined
  | @cons v s here settings hs hrest =>
    have ht' : { s with entries := (s :: settings).flatMap Setting.entries } = t :=
      Option.some.inj hjoined
    have hentries : t.entries = ((s :: settings).map Setting.entries).flatten := by
      rw [← ht']
      rfl
    have hsource : t.source = v.1 := by
      rw [← ht']
      exact hs.1
    refine ⟨⟨v :: here, _, hordered, hmem, hparts, hentries⟩, ?_⟩
    rw [hsource]
    obtain ⟨hv, hreaches⟩ := (hmem v).mp List.mem_cons_self
    refine ⟨⟨v, hv, rfl, hreaches⟩, ?_⟩
    rintro _ ⟨w, hw, rfl, hreaches'⟩
    exact le_of_mem_cons hordered ((hmem w).mpr ⟨hw, hreaches'⟩)

theorem refused_eq_empty : refused lead spec vars = ∅ := by
  rw [refused_eq_empty_iff]
  intro v hv
  exact exists_settings_iff.mp ⟨found, h⟩ v ((Keyed.mem_ofList distinct).mpr hv)

theorem madeUp_of_consecutive (hconsecutive : Consecutive (arranged found)) :
    MadeUp lead spec vars
      ⟨"<env:" ++ lead ++ ">", (arranged found).map Setting.toSection⟩ where
  accepted := refused_eq_empty distinct h
  path := rfl
  sections := by
    refine ⟨(arranged found).map Setting.place, ?_, fun place => ?_, ?_⟩
    · exact List.pairwise_map.mpr (ordered_arranged found)
    · rw [present_iff distinct h, List.mem_map]
    · rw [List.forall₂_map_left_iff, List.forall₂_map_right_iff, List.forall₂_same]
      exact fun t ht => ⟨rfl, (collects_of_mem_arranged distinct h ht).1⟩
  consecutive := by
    intro name
    refine ⟨(indexesOf name (arranged found)).length, fun index => ?_⟩
    rw [present_iff distinct h, ← mem_indexesOf, hconsecutive name, List.mem_range,
      List.length_range]

theorem fails_of_gap {before after : List Setting} {s : Setting}
    (hsplit : arranged found = before ++ s :: after) (hbefore : Consecutive before)
    (hgap : s.index ≠ (indexesOf s.sectionName before).length) :
    Fails lead spec vars (skipped before s) := by
  have hordered := ordered_arranged found
  rw [hsplit] at hordered
  have hpresent : ∀ {place}, Present lead spec vars place ↔
      ∃ t ∈ before ++ s :: after, t.place = place := hsplit ▸ present_iff distinct h
  have hs : s ∈ before ++ s :: after := List.mem_append_right before List.mem_cons_self
  have hmissing : IsLeast (missing lead spec vars s.sectionName)
      (indexesOf s.sectionName before).length := by
    constructor
    · intro hreached
      obtain ⟨t, ht, hplace⟩ := hpresent.mp hreached
      exact place_ne_of_mem hordered hbefore hgap ht hplace
    · intro index hindex
      by_contra hlt
      have hmem : index ∈ indexesOf s.sectionName before := by
        rw [hbefore s.sectionName, List.mem_range]
        exact not_le.mp hlt
      obtain ⟨t, ht, hplace⟩ := mem_indexesOf.mp hmem
      exact hindex (hpresent.mpr ⟨t, List.mem_append_left _ ht, hplace⟩)
  refine Fails.skipped (refused_eq_empty distinct h) ⟨⟨?_, ?_⟩, ?_⟩ hmissing ?_
  · exact hpresent.mpr ⟨s, hs, rfl⟩
  · exact ⟨_, hmissing.1, length_indexesOf_lt hordered hbefore hgap⟩
  · rintro place ⟨hreached, lower, hlower, hlt⟩
    obtain ⟨t, ht, rfl⟩ := hpresent.mp hreached
    rcases List.mem_append.mp ht with ht | ht
    · obtain ⟨u, hu, hplace⟩ := hbefore.exists_below ht hlt
      exact absurd (hpresent.mpr ⟨u, List.mem_append_left _ hu, hplace⟩) hlower
    · have hle : s.place ≤ t.place := le_of_mem_cons (List.pairwise_append.mp hordered).2.1 ht
      exact hle
  · exact (collects_of_mem_arranged distinct h (hsplit ▸ hs)).2

end Found

section Read
variable (distinct : (vars.map Prod.fst).Nodup)
include distinct

theorem fails_of_settings {e : Error}
    (h : settings lead spec (Keyed.ofList vars) = .error e) : Fails lead spec vars e := by
  obtain ⟨before, v, after, hsplit, hbefore, hrefuses⟩ := settings_eq_error_iff.mp h
  have hordered := Keyed.ordered_ofList vars
  have hmem : ∀ w, w ∈ vars ↔ w ∈ before ++ v :: after := by
    intro w
    rw [← hsplit, Keyed.mem_ofList distinct]
  have hv : v ∈ vars := (hmem v).mpr (List.mem_append_right before List.mem_cons_self)
  refine Fails.refused hv hrefuses ⟨⟨v, hv, rfl, e, hrefuses⟩, ?_⟩
  rintro _ ⟨w, hw, rfl, e', hrefuses'⟩
  rcases List.mem_append.mp ((hmem w).mp hw) with hw | hw
  · exact absurd hrefuses' (hbefore w hw e')
  · rw [hsplit] at hordered
    exact le_of_mem_cons (List.pairwise_append.mp hordered).2.1 hw

theorem read_cases :
    (∃ d, read lead vars spec = .ok d ∧ MadeUp lead spec vars d) ∨
      ∃ e, read lead vars spec = .error e ∧ Fails lead spec vars e := by
  rw [read]
  cases h : settings lead spec (Keyed.ofList vars) with
  | error e => exact Or.inr ⟨e, rfl, fails_of_settings distinct h⟩
  | ok found =>
    dsimp only
    rcases firstGap?_cases (ordered_arranged found) with
      ⟨hnone, hconsecutive⟩ | ⟨before, s, after, hsplit, hbefore, hgap, hsome⟩
    · rw [arranged] at hnone
      rw [hnone]
      exact Or.inl ⟨_, rfl, madeUp_of_consecutive distinct h hconsecutive⟩
    · rw [arranged] at hsome
      rw [hsome]
      exact Or.inr ⟨_, rfl, fails_of_gap distinct h hsplit hbefore hgap⟩

theorem read_perm {vars' : List (String × String)} (h : vars'.Perm vars) :
    read lead vars' spec = read lead vars spec := by
  have distinct' : (vars'.map Prod.fst).Nodup := (h.map Prod.fst).nodup_iff.mpr distinct
  have hkeyed : Keyed.ofList vars' = Keyed.ofList vars := by
    refine (Keyed.ordered_ofList vars').eq_of_mem_iff (Keyed.ordered_ofList vars) fun v => ?_
    rw [Keyed.mem_ofList distinct', Keyed.mem_ofList distinct, h.mem_iff]
  rw [read, read, hkeyed]

/-- The order of the variables has no effect. A document is read exactly when the variables make it
up, and reading fails exactly as the first refused variable or else the first skipped index says. -/
theorem read_outcome :
    (∀ vars', vars'.Perm vars → read lead vars' spec = read lead vars spec) ∧
      (∀ d, read lead vars spec = .ok d ↔ MadeUp lead spec vars d) ∧
      ∀ e, read lead vars spec = .error e ↔ Fails lead spec vars e := by
  refine ⟨fun _ hperm => read_perm distinct hperm, fun d => ?_, fun e => ?_⟩
  · rcases read_cases distinct with ⟨d', hread, hd'⟩ | ⟨e, hread, he⟩
    · rw [hread, Except.ok.injEq]
      exact ⟨fun heq => heq ▸ hd', hd'.unique⟩
    · rw [hread]
      exact ⟨nofun, fun hd => absurd he (hd.not_fails e)⟩
  · rcases read_cases distinct with ⟨d, hread, hd⟩ | ⟨e', hread, he'⟩
    · rw [hread]
      exact ⟨nofun, fun he => absurd he (hd.not_fails e)⟩
    · rw [hread, Except.error.injEq]
      exact ⟨fun heq => heq ▸ he', he'.unique distinct⟩

end Read

section Sample

def loggingSpec : FileSpec :=
  .ofList [("LogFile", ⟨[{ name := "Level" }, { name := "Tags", type := .stringList }]⟩)]

/-- Two variables reach the first section, and one of them gives no value. -/
def loggingVariables : List (String × String) :=
  [("APP_LOGFILE_1_LEVEL", "debug"), ("app_LogFile_tags", "a 'b c'"), ("APP_LOGFILE_0_TAGS", "")]

def loggingDocument : Document :=
  ⟨"<env:App>",
    [⟨"logfile", [⟨"Tags", "a"⟩, ⟨"Tags", "b c"⟩]⟩, ⟨"logfile", [⟨"Level", "debug"⟩]⟩]⟩

/-- The variables make up a document in any order. Without those of the first section the index of
the second one is skipped to. -/
theorem read_outcome_logging :
    (loggingVariables.map Prod.fst).Nodup ∧
      (∀ vars', vars'.Perm loggingVariables →
        read "App" vars' loggingSpec = .ok loggingDocument) ∧
      MadeUp "App" loggingSpec loggingVariables loggingDocument ∧
      Fails "App" loggingSpec (loggingVariables.take 1)
        (.invalidVariable "APP_LOGFILE_1_LEVEL" (.skipsIndex "logfile" 1 0)) := by
  have distinct : (loggingVariables.map Prod.fst).Nodup := by decide
  have hread : read "App" loggingVariables loggingSpec = .ok loggingDocument := by decide +kernel
  obtain ⟨hperm, hok, -⟩ := @read_outcome "App" loggingSpec loggingVariables distinct
  have distinct' : ((loggingVariables.take 1).map Prod.fst).Nodup := by decide
  obtain ⟨-, -, herror⟩ := @read_outcome "App" loggingSpec _ distinct'
  refine ⟨distinct, fun vars' h => (hperm vars' h).trans hread, (hok _).mp hread, ?_⟩
  exact (herror _).mp (by decide +kernel)

end Sample

end UnitFiles.Environment
