import Mathlib.Data.List.Sort
import Mathlib.Data.String.Basic
import UnitFiles.DropIns
import UnitFiles.Proofs.MergeOutcome
import UnitFiles.Proofs.Pieces

/-! The search for the drop-ins of a unit. It fails at the first directory that is there and cannot
be listed. Otherwise each file name has one path, in the last directory that lists a file of that
name, and nothing else of the listings counts. -/
namespace UnitFiles.DropIns
open Text

/-- A directory can be listed, and holds a drop-in of a name: a file that ends in `.conf`. -/
def Offers (list : Listing) (name dir : String) : Prop :=
  ∃ entries, list dir = .ok entries ∧ ⟨name, false⟩ ∈ entries ∧
    ['.', 'c', 'o', 'n', 'f'] <:+ name.toList

/-- The last of some directories to hold a drop-in of a name. -/
def OffersLast (list : Listing) (dirs : List String) (name dir : String) : Prop :=
  ∃ before after, dirs = before ++ dir :: after ∧ Offers list name dir ∧
    ∀ d ∈ after, ¬Offers list name d

/-- A directory is there and cannot be listed, so that a search ends with a failure. -/
def Blocks (list : Listing) (dir : String) (e : Error) : Prop :=
  ∃ fault, list dir = .error fault ∧ fault ≠ .notFound ∧ .unreadable dir fault = e

def Passable (list : Listing) (dir : String) : Prop := ∀ e, ¬Blocks list dir e

/-- Paths in the order of their names: for each name that some of the directories offer, its path
in the last one that does. -/
def LastPaths (list : Listing) (dirs paths : List String) : Prop :=
  ∃ names : List String, names.Pairwise (· < ·) ∧
    (∀ name, name ∈ names ↔ ∃ dir ∈ dirs, Offers list name dir) ∧
    List.Forall₂ (fun name path => ∃ dir, OffersLast list dirs name dir ∧ subPath dir name = path)
      names paths

/-- A directory fails for both alike, or shows the same files to both: in any order, any number of
times, and with any directories among them. -/
def SameFiles :
    Except ReadFault (List DirectoryEntry) → Except ReadFault (List DirectoryEntry) → Prop
  | .ok entries, .ok entries' => ∀ name, ⟨name, false⟩ ∈ entries ↔ ⟨name, false⟩ ∈ entries'
  | .error fault, .error fault' => fault = fault'
  | _, _ => False

variable {list list' : Listing} {name dir : String} {dirs : List String} {found : Keyed String}

theorem isDropIn_iff {e : DirectoryEntry} :
    isDropIn e = true ↔ e.isDirectory = false ∧ ['.', 'c', 'o', 'n', 'f'] <:+ e.name.toList := by
  rw [isDropIn, Bool.and_eq_true, Bool.not_eq_true', Option.isSome_iff_exists]
  refine and_congr_right fun _ => exists_congr fun rest => ?_
  rw [dropEnd?_eq_some_iff, eq_comm]

theorem offers_iff {entries : List DirectoryEntry} (h : list dir = .ok entries) :
    Offers list name dir ↔ ∃ e ∈ entries, isDropIn e = true ∧ e.name = name := by
  simp only [Offers, h, Except.ok.injEq, exists_eq_left', isDropIn_iff]
  constructor
  · rintro ⟨hmem, hsuffix⟩
    exact ⟨⟨name, false⟩, hmem, ⟨rfl, hsuffix⟩, rfl⟩
  · rintro ⟨⟨_, _⟩, hmem, ⟨rfl, hsuffix⟩, rfl⟩
    exact ⟨hmem, hsuffix⟩

theorem not_offers_of_error {fault : ReadFault} (h : list dir = .error fault) :
    ¬Offers list name dir := by
  rintro ⟨entries, hentries, -⟩
  rw [h] at hentries
  cases hentries

theorem Blocks.iff_eq {e e' : Error} (h : Blocks list dir e) : Blocks list dir e' ↔ e = e' := by
  obtain ⟨fault, hfault, hpresent, rfl⟩ := h
  simp [Blocks, hfault, hpresent]

/-- What a directory that does not end a search does to what has been found. -/
structure Passes (list : Listing) (dir : String) (found next : Keyed String) : Prop where
  passable : Passable list dir
  ordered : found.Ordered → next.Ordered
  taken : ∀ name, Offers list name dir → Keyed.get? name next = some (subPath dir name)
  kept : ∀ name, ¬Offers list name dir → Keyed.get? name next = Keyed.get? name found

section Steps

theorem ordered_add (h : found.Ordered) (dir : String) (entries : List DirectoryEntry) :
    (add found dir entries).Ordered := by
  have hput := Keyed.ordered_foldl_put h
    ((entries.filter isDropIn).map fun e => (e.name, subPath dir e.name))
  rwa [List.foldl_map] at hput

/-- The drop-ins of a directory take the place of earlier ones of their names, and only of those. -/
theorem get?_add (found : Keyed String) (dir name : String) (entries : List DirectoryEntry) :
    Keyed.get? name (add found dir entries) =
      if ∃ e ∈ entries, isDropIn e = true ∧ e.name = name then some (subPath dir name)
      else Keyed.get? name found := by
  induction entries generalizing found with
  | nil => simp [add]
  | cons e rest ih =>
    cases hdropIn : isDropIn e with
    | false =>
      have hskip : add found dir (e :: rest) = add found dir rest := by simp [add, hdropIn]
      simp [hskip, ih, hdropIn]
    | true =>
      have htake : add found dir (e :: rest) =
          add (Keyed.put e.name (subPath dir e.name) found) dir rest := by simp [add, hdropIn]
      rw [htake, ih]
      by_cases hname : e.name = name
      · subst hname
        simp [hdropIn, Keyed.get?_put_self]
      · simp [hname, Keyed.get?_put_of_ne (Ne.symm hname)]

/-- One step of a search: the first directory ends it, or is passed. -/
theorem search_cons (list : Listing) (found : Keyed String) (dir : String) (rest : List String) :
    (∃ e, Blocks list dir e ∧ search list found (dir :: rest) = .error e) ∨
      ∃ next, Passes list dir found next ∧
        search list found (dir :: rest) = search list next rest := by
  rw [search]
  cases hlist : list dir with
  | ok entries =>
    refine Or.inr ⟨add found dir entries, ⟨by simp [Passable, Blocks, hlist],
      fun hfound => ordered_add hfound dir entries, fun name hoffers => ?_,
      fun name hnone => ?_⟩, rfl⟩
    · rw [get?_add, if_pos ((offers_iff hlist).mp hoffers)]
    · rw [get?_add, if_neg (mt (offers_iff hlist).mpr hnone)]
  | error fault =>
    by_cases hmissing : fault = .notFound
    · subst hmissing
      exact Or.inr ⟨found, ⟨by simp [Passable, Blocks, hlist], id,
        fun name hoffers => absurd hoffers (not_offers_of_error hlist), fun name _ => rfl⟩, rfl⟩
    · refine Or.inl ⟨.unreadable dir fault, ⟨fault, hlist, hmissing, rfl⟩, ?_⟩
      cases fault with
      | notFound => exact absurd rfl hmissing
      | _ => rfl

theorem offersLast_cons {first : String} {rest : List String} :
    OffersLast list (first :: rest) name dir ↔ OffersLast list rest name dir ∨
      first = dir ∧ Offers list name first ∧ ∀ d ∈ rest, ¬Offers list name d := by
  constructor
  · rintro ⟨_ | ⟨b, before⟩, after, heq, hdir, hafter⟩
    · obtain ⟨rfl, rfl⟩ := List.cons.inj heq
      exact Or.inr ⟨rfl, hdir, hafter⟩
    · obtain ⟨rfl, hrest⟩ := List.cons.inj heq
      exact Or.inl ⟨before, after, hrest, hdir, hafter⟩
  · rintro (⟨before, after, rfl, hdir, hafter⟩ | ⟨rfl, hdir, hafter⟩)
    · exact ⟨first :: before, after, rfl, hdir, hafter⟩
    · exact ⟨[], rest, rfl, hdir, hafter⟩

theorem exists_offersLast : (∃ dir, OffersLast list dirs name dir) ↔
    ∃ dir ∈ dirs, Offers list name dir := by
  induction dirs with
  | nil => simp [OffersLast]
  | cons first rest ih =>
    simp only [offersLast_cons, exists_or, ih, List.exists_mem_cons_iff, exists_eq_left']
    by_cases hlater : ∃ dir ∈ rest, Offers list name dir
    · simp [hlater]
    · have hnone : ∀ d ∈ rest, ¬Offers list name d := fun d hd h => hlater ⟨d, hd, h⟩
      simp [hlater, eq_true hnone]

theorem OffersLast.unique {dir' : String} (h : OffersLast list dirs name dir)
    (h' : OffersLast list dirs name dir') : dir = dir' := by
  induction dirs with
  | nil => simp [OffersLast] at h
  | cons first rest ih =>
    have hlater : ∀ {d}, OffersLast list rest name d → ¬∀ d ∈ rest, ¬Offers list name d := by
      intro d hd hnone
      obtain ⟨e, he, hoffers⟩ := exists_offersLast.mp ⟨d, hd⟩
      exact hnone e he hoffers
    rcases offersLast_cons.mp h with h | ⟨rfl, -, hnone⟩ <;>
      rcases offersLast_cons.mp h' with h' | ⟨rfl, -, hnone'⟩
    · exact ih h h'
    · exact absurd hnone' (hlater h)
    · exact absurd hnone (hlater h')
    · rfl

end Steps

section Runs
variable {result : Keyed String}

theorem search_eq_error_iff (found : Keyed String) {e : Error} :
    search list found dirs = .error e ↔
      ∃ before dir after, dirs = before ++ dir :: after ∧ (∀ d ∈ before, Passable list d) ∧
        Blocks list dir e := by
  induction dirs generalizing found with
  | nil => simp [search]
  | cons first rest ih =>
    rw [exists_split_cons_iff]
    obtain ⟨fault, hblocks, hsearch⟩ | ⟨next, hpasses, hsearch⟩ := search_cons list found first rest
    · have hends : ¬Passable list first := fun hpassable => hpassable fault hblocks
      simp [hsearch, hblocks.iff_eq, hends]
    · simp [hsearch, ih, hpasses.passable, hpasses.passable e]

theorem exists_search_iff (found : Keyed String) :
    (∃ result, search list found dirs = .ok result) ↔ ∀ dir ∈ dirs, Passable list dir :=
  exists_ok_iff_forall_mem (fun _ => Iff.rfl) fun _ => search_eq_error_iff found

theorem exists_passes {first : String} {rest : List String}
    (h : search list found (first :: rest) = .ok result) :
    ∃ next, Passes list first found next ∧ search list next rest = .ok result := by
  obtain ⟨e, -, hsearch⟩ | ⟨next, hpasses, hsearch⟩ := search_cons list found first rest
  · rw [hsearch] at h
    cases h
  · exact ⟨next, hpasses, hsearch.symm.trans h⟩

theorem ordered_search (hfound : found.Ordered) (h : search list found dirs = .ok result) :
    result.Ordered := by
  induction dirs generalizing found with
  | nil =>
    cases h
    exact hfound
  | cons first rest ih =>
    obtain ⟨next, hpasses, hnext⟩ := exists_passes h
    exact ih (hpasses.ordered hfound) hnext

/-- What a search holds under a name: the path in the last directory that offers it, or what it
has started from. -/
theorem get?_search (h : search list found dirs = .ok result) {path : String} :
    Keyed.get? name result = some path ↔
      (∃ dir, OffersLast list dirs name dir ∧ subPath dir name = path) ∨
        (∀ dir ∈ dirs, ¬Offers list name dir) ∧ Keyed.get? name found = some path := by
  induction dirs generalizing found with
  | nil =>
    cases h
    simp [OffersLast]
  | cons first rest ih =>
    obtain ⟨next, hpasses, hnext⟩ := exists_passes h
    rw [ih hnext, List.forall_mem_cons]
    simp only [offersLast_cons, or_and_right, exists_or, or_assoc]
    refine or_congr_right ?_
    by_cases hfirst : Offers list name first
    · simp [hfirst, hpasses.taken name hfirst, and_comm]
    · simp [hfirst, hpasses.kept name hfirst]

end Runs

section Paths
variable {paths paths' : List String}

theorem LastPaths.unique (h : LastPaths list dirs paths) (h' : LastPaths list dirs paths') :
    paths = paths' := by
  obtain ⟨names, hsorted, hnames, hpaths⟩ := h
  obtain ⟨names', hsorted', hnames', hpaths'⟩ := h'
  have hsame : names = names' :=
    hsorted.eq_of_mem_iff hsorted' fun name => (hnames name).trans (hnames' name).symm
  subst hsame
  have hunique : Relator.RightUnique fun name path =>
      ∃ dir, OffersLast list dirs name dir ∧ subPath dir name = path := by
    rintro name _ _ ⟨dir, hdir, rfl⟩ ⟨dir', hdir', rfl⟩
    rw [hdir.unique hdir']
  exact List.right_unique_forall₂' hunique hpaths hpaths'

theorem lastPaths_search {result : Keyed String} (h : search list [] dirs = .ok result) :
    LastPaths list dirs (result.map Prod.snd) := by
  have hordered := ordered_search List.Pairwise.nil h
  have hmem : ∀ name path, (name, path) ∈ result ↔
      ∃ dir, OffersLast list dirs name dir ∧ subPath dir name = path := by
    intro name path
    rw [hordered.mem_iff, get?_search h]
    simp [Keyed.get?]
  refine ⟨result.map Prod.fst, List.pairwise_map.mpr hordered, fun name => ?_, ?_⟩
  · rw [← exists_offersLast, List.mem_map]
    constructor
    · rintro ⟨⟨_, path⟩, hp, rfl⟩
      obtain ⟨dir, hdir, -⟩ := (hmem _ path).mp hp
      exact ⟨dir, hdir⟩
    · rintro ⟨dir, hdir⟩
      exact ⟨_, (hmem name _).mpr ⟨dir, hdir, rfl⟩, rfl⟩
  · rw [List.forall₂_map_left_iff, List.forall₂_map_right_iff, List.forall₂_same]
    exact fun p hp => (hmem p.1 p.2).mp hp

end Paths

section Listings

theorem SameFiles.blocks_iff {e : Error} (h : SameFiles (list dir) (list' dir)) :
    Blocks list' dir e ↔ Blocks list dir e := by
  rw [Blocks, Blocks]
  cases hlist : list dir <;> cases hlist' : list' dir <;> simp_all [SameFiles]

theorem SameFiles.offers_iff (h : SameFiles (list dir) (list' dir)) :
    Offers list' name dir ↔ Offers list name dir := by
  rw [Offers, Offers]
  cases hlist : list dir <;> cases hlist' : list' dir <;> simp_all [SameFiles]

end Listings

def searched (unit : String) (roots : List String) : List String := roots.flatMap (directories unit)

section Find
variable {unit : String} {roots : List String}

theorem find_eq_error_iff {e : Error} :
    find list unit roots = .error e ↔
      ∃ before dir after, searched unit roots = before ++ dir :: after ∧
        (∀ d ∈ before, Passable list d) ∧ Blocks list dir e := by
  rw [← search_eq_error_iff [], find, ← searched]
  cases search list [] (searched unit roots) <;> simp [Except.map]

theorem find_eq_ok_iff {paths : List String} :
    find list unit roots = .ok paths ↔
      (∀ dir ∈ searched unit roots, Passable list dir) ∧
        LastPaths list (searched unit roots) paths := by
  rw [find, ← searched, map_eq_ok_iff, ← exists_search_iff []]
  constructor
  · rintro ⟨found, hfound, rfl⟩
    exact ⟨⟨found, hfound⟩, lastPaths_search hfound⟩
  · rintro ⟨⟨found, hfound⟩, hpaths⟩
    exact ⟨found, hfound, (lastPaths_search hfound).unique hpaths⟩

theorem find_congr (h : ∀ dir, SameFiles (list dir) (list' dir)) :
    find list' unit roots = find list unit roots := by
  have hblocks : Blocks list' = Blocks list := by
    funext dir e
    exact propext (h dir).blocks_iff
  have hoffers : Offers list' = Offers list := by
    funext name dir
    exact propext (h dir).offers_iff
  cases hfind : find list unit roots with
  | ok paths =>
    rw [find_eq_ok_iff] at hfind ⊢
    simpa only [Passable, LastPaths, OffersLast, hblocks, hoffers] using hfind
  | error e =>
    rw [find_eq_error_iff] at hfind ⊢
    simpa only [Passable, hblocks] using hfind

end Find

/-- A search fails exactly if some directory is there and cannot be listed, and tells the first such
directory. Otherwise it finds one path for each file name that a directory offers, in the last
directory that offers it, and these in the order of the names. The order of a listing does not
count, nor do the directories in it: none of them hides a file of its name. -/
theorem find_outcome (list : Listing) (unit : String) (roots : List String) :
    (∀ e, find list unit roots = .error e ↔
      ∃ before dir after, searched unit roots = before ++ dir :: after ∧
        (∀ d ∈ before, Passable list d) ∧ Blocks list dir e) ∧
    (∀ paths, find list unit roots = .ok paths ↔
      (∀ dir ∈ searched unit roots, Passable list dir) ∧
        LastPaths list (searched unit roots) paths) ∧
    ∀ list' : Listing, (∀ dir, SameFiles (list dir) (list' dir)) →
      find list' unit roots = find list unit roots :=
  ⟨fun _ => find_eq_error_iff, fun _ => find_eq_ok_iff, fun _ h => find_congr h⟩

section Sample

def webListing (dir : String) : Except ReadFault (List DirectoryEntry) :=
  if dir = "/lib/web-.d" then
    .ok [⟨"notes.txt", false⟩, ⟨"10-a.conf", false⟩, ⟨"20-b.conf", false⟩]
  else if dir = "/etc/web-.d" then .ok [⟨"10-a.conf", false⟩]
  else .error .notFound

/-- Shows the same files in another order, and a directory with the name of a drop-in. -/
def turnedListing (dir : String) : Except ReadFault (List DirectoryEntry) :=
  if dir = "/lib/web-.d" then
    .ok [⟨"20-b.conf", false⟩, ⟨"10-a.conf", false⟩, ⟨"notes.txt", false⟩]
  else if dir = "/etc/web-.d" then .ok [⟨"20-b.conf", true⟩, ⟨"10-a.conf", false⟩]
  else .error .notFound

/-- The name ends in a dash, so that each directory is searched twice. -/
theorem find_outcome_web :
    searched "web-" ["/lib", "/etc"] =
        ["/lib/web-.d", "/lib/web-.d", "/etc/web-.d", "/etc/web-.d"] ∧
      (∀ dir, SameFiles (webListing dir) (turnedListing dir)) ∧
      find turnedListing "web-" ["/lib", "/etc"] =
        .ok ["/etc/web-.d/10-a.conf", "/lib/web-.d/20-b.conf"] := by
  have hsame : ∀ dir, SameFiles (webListing dir) (turnedListing dir) := by
    intro dir
    rw [webListing, turnedListing]
    by_cases hlib : dir = "/lib/web-.d"
    · simp only [hlib, if_true, SameFiles, List.mem_cons, List.not_mem_nil, or_false]
      intro name
      constructor <;> rintro (h | h | h) <;> simp [h]
    · by_cases hetc : dir = "/etc/web-.d" <;> simp [hlib, hetc, SameFiles]
  have hfind : find webListing "web-" ["/lib", "/etc"] =
      .ok ["/etc/web-.d/10-a.conf", "/lib/web-.d/20-b.conf"] := by decide +kernel
  refine ⟨by decide +kernel, hsame, ?_⟩
  rw [(find_outcome webListing "web-" ["/lib", "/etc"]).2.2 turnedListing hsame, hfind]

end Sample

end UnitFiles.DropIns
