import Mathlib
import Relay.Proofs.Settings.Inclusion

/-!
# Configurations are trees

What is loaded for a root is a tree of files, each of which has been read once (`loadRoot_settles`). Where
every name that is met is that of a file, and none is too deep, the root is loaded if and only if no two
places lead to the same file (`loadRoot_judged`).

A file is refused as circular because it has been included before, so it is also refused where two
files include it that do not include each other (`loadRoot_refuses_shared`).
-/

namespace Relay.Settings

namespace Source

/-- the root of a configuration, with what it includes -/
def rootOf (files : Files) (path : String) (whole : Toml) : Opened :=
  ⟨identity files path, rootDirectory path, (split whole).1⟩

section
variable {files : Files} {path : String} {whole : Toml} {log : Log}

theorem isTree_of_ok {source : Source} (h : (loadRoot files path).run {} = (.ok source, log)) :
    ∃ whole, contents files path = .ok whole ∧ IsTree files (rootOf files path whole) ∧
      ∀ found, found ∈ log.seen ↔
        ∃ x g, Leads files (rootOf files path whole) x g ∧ g.file = found := by
  generalize houtcome : (Except.ok source : Except Flaw Source) = outcome at h
  cases rooting_iff.mpr h with
  | unread => cases houtcome
  | @including whole outcome _ value inner =>
    cases outcome with
    | error flaw => cases houtcome
    | ok includes =>
      have hgrown := inner.grown (identity files path)
      have hroot : identity files path ∈ (rootLog files path).seen := List.mem_cons_self
      refine ⟨whole, value, ?_, ?_⟩
      · constructor
        case allFit => exact hgrown.allFit
        case oneWay => exact fun x y g h hg hh => hgrown.oneWay_of_mem hroot hg hh
        case acyclic =>
          intro x y g h hg hh hfile
          have hsame := hgrown.oneWay_of_mem hroot (leads_append.mpr ⟨g, hg, hh⟩) hg hfile
          exact List.append_right_eq_self.mp hsame
        case within =>
          intro x g hg
          cases x with
          | nil => exact Nat.zero_le _
          | cons i x =>
            have hdepth := hgrown.within i x g hg
            rwa [Nat.zero_add] at hdepth
      · intro found
        constructor
        · intro hfound
          rcases hgrown.old found hfound with hfound | ⟨i, x, g, hg, hfile⟩
          · exact ⟨[], _, rfl, (List.mem_singleton.mp hfound).symm⟩
          · exact ⟨i :: x, g, hg, hfile⟩
        · rintro ⟨x, g, hg, rfl⟩
          cases x with
          | nil =>
            obtain rfl : g = rootOf files path whole := hg
            exact hgrown.kept _ hroot
          | cons i x => exact (hgrown.new i x g hg).2

theorem cause_of_error {flaw : Flaw} (value : contents files path = .ok whole)
    (h : (loadRoot files path).run {} = (.error flaw, log)) :
    Cause files 0 (rootOf files path whole) (rootLog files path) flaw := by
  generalize houtcome : (Except.error flaw : Except Flaw Source) = outcome at h
  cases rooting_iff.mpr h with
  | unread value' =>
    rw [value] at value'
    cases value'
  | @including whole' outcome _ value' inner =>
    rw [value] at value'
    obtain rfl := Except.ok.inj value'
    cases outcome with
    | ok includes => cases houtcome
    | error flaw' =>
      cases houtcome
      exact inner.cause (identity files path)

/-! ## what is read -/

theorem log_loading : ((loading files path).run {}).2 = ((loadRoot files path).run {}).2 := by
  unfold loading
  rw [run_bind]
  obtain ⟨outcome, log⟩ := (loadRoot files path).run {}
  cases outcome with
  | ok source => rfl
  | error flaw => rfl

/-- the files that are read are the root, once, and others for names below it, each once -/
structure Reads (files : Files) (path : String) (included : List String) : Prop where
  all : filesRead files path = path :: included
  nodup : included.Nodup
  root_not_mem : identity files path ∉ included
  named : ∀ found ∈ included, ∃ whole x directory name, contents files path = .ok whole ∧
    Names files (rootOf files path whole) x directory name ∧
      Fits files directory name found ∧ x.length ≤ depthLimit + 1

variable (files path) in
theorem exists_reads : ∃ included, Reads files path included ∧
    ∀ whole, contents files path = .ok whole →
      ((loadRoot files path).run {}).2.seen = included.reverse ++ [identity files path] := by
  obtain ⟨outcome, log, hroot⟩ := exists_rooting files path
  have hall : filesRead files path = log.reads.reverse := by
    rw [filesRead, log_loading, hroot.run_loadRoot]
  rw [hroot.run_loadRoot]
  cases hroot with
  | unread value =>
    refine ⟨[], ⟨hall, List.nodup_nil, List.not_mem_nil, fun _ h => absurd h List.not_mem_nil⟩, ?_⟩
    intro whole hwhole
    rw [value] at hwhole
    cases hwhole
  | @including whole outcome _ value inner =>
    obtain ⟨more, hmore⟩ := inner.noted (Nat.zero_le _) (identity files path)
    refine ⟨more.reverse, ?_, fun _ _ => by rw [List.reverse_reverse, hmore.seen, rootLog]⟩
    constructor
    case all =>
      rw [hall, hmore.reads, rootLog, List.reverse_append]
      rfl
    case nodup => exact List.nodup_reverse.mpr hmore.nodup
    case root_not_mem =>
      intro h
      exact hmore.fresh _ (List.mem_reverse.mp h) List.mem_cons_self
    case named =>
      intro found hfound
      obtain ⟨x, directory, name, hname, located, hdepth⟩ :=
        hmore.named found (List.mem_reverse.mp hfound)
      rw [Nat.zero_add] at hdepth
      exact ⟨whole, x, directory, name, value, hname, locate_eq_ok_iff.mp located, hdepth⟩

/-- **what comes of a root, whatever the files are** -/
structure Settles (files : Files) (path : String) (included : List String) : Prop where
  /-- there is one run to an end -/
  ends : ∀ outcome log, Rooting files path outcome log ↔ (loadRoot files path).run {} = (outcome, log)
  reads : Reads files path included
  /-- what is loaded is a tree, of which each file has been read -/
  tree : ∀ source log, (loadRoot files path).run {} = (.ok source, log) →
    ∃ whole, contents files path = .ok whole ∧ IsTree files (rootOf files path whole) ∧
      ∀ found, found ∈ included ↔
        ∃ x g, x ≠ [] ∧ Leads files (rootOf files path whole) x g ∧ g.file = found
  flawed : ∀ flaw log, (loadRoot files path).run {} = (.error flaw, log) → flaw.fault.kind = .config

theorem loadRoot_settles (files : Files) (path : String) :
    ∃ included, Settles files path included := by
  obtain ⟨included, hreads, hseen⟩ := exists_reads files path
  refine ⟨included, fun _ _ => rooting_iff, hreads, ?_, fun flaw _ _ => flaw.kind_fault⟩
  intro source log hok
  obtain ⟨whole, value, htree, hfiles⟩ := isTree_of_ok hok
  refine ⟨whole, value, htree, fun found => ?_⟩
  have hmem : found ∈ log.seen ↔ found ∈ included ∨ found = identity files path := by
    have hlog := hseen whole value
    rw [hok] at hlog
    rw [hlog, List.mem_append, List.mem_reverse, List.mem_singleton]
  constructor
  · intro hfound
    obtain ⟨x, g, hg, hfile⟩ := (hfiles found).mp (hmem.mpr (.inl hfound))
    refine ⟨x, g, ?_, hg, hfile⟩
    rintro rfl
    obtain rfl : g = rootOf files path whole := hg
    rw [← hfile] at hfound
    exact hreads.root_not_mem hfound
  · rintro ⟨x, g, hx, hg, hfile⟩
    rcases hmem.mp ((hfiles found).mpr ⟨x, g, hg, hfile⟩) with hfound | hroot
    · exact hfound
    · -- the root is at no other place than the first
      rw [hroot] at hfile
      exact absurd (htree.oneWay x [] g _ hg rfl hfile) hx

end

/-! ## when it loads -/

/-- the file of a name has another place as well -/
def Twice (files : Files) (root : Opened) (name : String) : Prop :=
  ∃ x y directory g, Names files root x directory name ∧ Fits files directory name g.file ∧
    Leads files root y g ∧ y ≠ x

section
variable {files : Files} {path name : String} {whole : Toml}

theorem Cause.twice_of_circular
    (h : Cause files 0 (rootOf files path whole) (rootLog files path) (.circular name)) :
    Twice files (rootOf files path whole) name := by
  cases h with
  | refused _ refused => exact absurd refused (locate_ne_circular _ _ _ _)
  | unread _ _ value => exact absurd value (contents_ne_circular _ _ _)
  | @again x directory _ _ named located seen =>
    rw [List.mem_singleton.mp seen] at located
    refine ⟨x, [], directory, rootOf files path whole, named, locate_eq_ok_iff.mp located, rfl, ?_⟩
    rintro rfl
    exact named
  | twice named located other apart =>
    exact ⟨_, _, _, _, named, locate_eq_ok_iff.mp located, other, apart⟩

theorem Cause.eq_circular {root : Opened} {log : Log} {flaw : Flaw}
    (h : Cause files 0 root log flaw) (hfit : AllFit files root) (hwithin : Within files root) :
    ∃ name, flaw = .circular name := by
  cases h with
  | @refused x directory name _ named refused =>
    obtain ⟨found, _, hfits, _⟩ := hfit x directory name named
    rw [locate_eq_ok_iff.mpr hfits] at refused
    cases refused
  | @unread x directory name found _ named located value =>
    obtain ⟨found', whole, hfits, hvalue⟩ := hfit x directory name named
    rw [locate_eq_ok_iff.mpr hfits] at located
    rw [← Except.ok.inj located, hvalue] at value
    cases value
  | @tooDeep x g leads deep =>
    rw [Nat.zero_add] at deep
    exact absurd (hwithin x g leads) (Nat.not_le.mpr deep)
  | again => exact ⟨_, rfl⟩
  | twice => exact ⟨_, rfl⟩

theorem Twice.not_oneWay {root : Opened} (h : Twice files root name) (hfit : AllFit files root) :
    ¬OneWay files root := by
  obtain ⟨x, y, directory, g, hname, hfits, hg, hne⟩ := h
  obtain ⟨found, whole, hfits', value⟩ := hfit x directory name hname
  obtain ⟨k, hk, hfile⟩ := hname.leads (locate_eq_ok_iff.mpr hfits') value
  have hsame : found = g.file := Except.ok.inj (hfits'.canonical.symm.trans hfits.canonical)
  intro hone
  exact hne (hone y x g k hg hk (hsame.symm.trans hfile.symm))

/-- **what comes of a root where all that is included is there** -/
structure Judged (files : Files) (path : String) (root : Opened) : Prop where
  loads_iff : (∃ source log, (loadRoot files path).run {} = (.ok source, log)) ↔ OneWay files root
  otherwise : ∀ flaw log, (loadRoot files path).run {} = (.error flaw, log) →
    ∃ name, flaw = .circular name ∧ Twice files root name

theorem loadRoot_judged (value : contents files path = .ok whole)
    (hfit : AllFit files (rootOf files path whole))
    (hwithin : Within files (rootOf files path whole)) :
    Judged files path (rootOf files path whole) := by
  have hotherwise : ∀ flaw log, (loadRoot files path).run {} = (.error flaw, log) →
      ∃ name, flaw = .circular name ∧ Twice files (rootOf files path whole) name := by
    intro flaw log herror
    have hcause := cause_of_error value herror
    obtain ⟨name, rfl⟩ := hcause.eq_circular hfit hwithin
    exact ⟨name, rfl, hcause.twice_of_circular⟩
  refine ⟨⟨?_, fun hone => ?_⟩, hotherwise⟩
  · rintro ⟨source, log, hok⟩
    obtain ⟨whole', value', htree, _⟩ := isTree_of_ok hok
    rw [value] at value'
    obtain rfl := Except.ok.inj value'
    exact htree.oneWay
  · cases hrun : (loadRoot files path).run {} with
    | mk outcome log =>
      cases outcome with
      | ok source => exact ⟨source, log, rfl⟩
      | error flaw =>
        obtain ⟨name, _, htwice⟩ := hotherwise flaw log hrun
        exact absurd hone (htwice.not_oneWay hfit)

end

/-! ## a file that two others include -/

namespace Shared

/-- a directory without links: `r` includes `a` and `b`, and `a` includes `c` -/
def texts (second : String) : List (String × String) :=
  [("/d/r", "include = [\"a\", \"b\"]"), ("/d/a", "include = \"c\""), ("/d/b", second),
    ("/d/c", "domain = \"acme\"")]

def files (second : String) : Files where
  read path := match (texts second).lookup path with
    | some text => .ok text
    | none => .error "no such file"
  canonical path :=
    if path = "/d" ∨ ((texts second).lookup path).isSome then .ok path else .error "no such file"

def opened (name : String) (whole : Toml) : Opened := ⟨"/d/" ++ name, "/d", (split whole).1⟩

def layer (file : String) : Nat := ([("/d/r", 2), ("/d/a", 1), ("/d/b", 1)].lookup file).getD 0

/-- a name that is its own path below the directory -/
def IsPlain (name : String) : Prop :=
  Path.isAbsolute name = false ∧ .parent ∉ Path.components name ∧
    Path.join "/d" name = "/d/" ++ name ∧ Path.startsWith ("/d/" ++ name) "/d" = true ∧
    directoryOf ("/d/" ++ name) "/d" = "/d"

instance (name : String) : Decidable (IsPlain name) :=
  inferInstanceAs (Decidable (_ ∧ _ ∧ _ ∧ _ ∧ _))

theorem isPlain_of_mem : ∀ name ∈ ["a", "b", "c"], IsPlain name := by decide +kernel

/-- what a file includes is of a lower layer -/
theorem layer_lt :
    layer ("/d/" ++ "a") < layer ("/d/" ++ "r") ∧ layer ("/d/" ++ "b") < layer ("/d/" ++ "r") ∧
      layer ("/d/" ++ "c") < layer ("/d/" ++ "a") ∧ layer ("/d/" ++ "c") < layer ("/d/" ++ "b") := by
  decide +kernel

section
variable {second name text : String} {whole : Toml}

theorem contents_eq {path : String} (hread : (texts second).lookup path = some text)
    (hparse : Toml.parse? text = some whole) : contents (files second) path = .ok whole := by
  refine contents_eq_ok_iff.mpr ⟨text, ?_, hparse⟩
  show (match (texts second).lookup path with | some text => _ | none => _) = _
  rw [hread]

theorem canonical_eq {path : String} (h : path = "/d" ∨ ((texts second).lookup path).isSome) :
    (files second).canonical path = .ok path := if_pos h

theorem locate_eq (hplain : IsPlain name) (hread : (texts second).lookup ("/d/" ++ name) = some text) :
    locate (files second) "/d" name = .ok ("/d/" ++ name) := by
  obtain ⟨hrelative, hdownward, hjoin, hinside, -⟩ := hplain
  have hfound : (files second).canonical (Path.join "/d" name) = .ok ("/d/" ++ name) := by
    rw [hjoin]
    exact canonical_eq (.inr (by rw [hread]; rfl))
  exact locate_eq_ok_iff.mpr ⟨hrelative, hdownward, hfound, "/d", canonical_eq (.inl rfl), hinside⟩

theorem opens {f : Opened} {i : Nat} (hname : f.names[i]? = some name) (hdirectory : f.directory = "/d")
    (hplain : IsPlain name) (hread : (texts second).lookup ("/d/" ++ name) = some text)
    (hparse : Toml.parse? text = some whole) : Opens (files second) f i (opened name whole) := by
  have hlocated := locate_eq hplain hread
  obtain ⟨-, -, -, -, hparent⟩ := hplain
  rw [← hdirectory] at hlocated
  refine ⟨⟨name, hname, hlocated⟩, ⟨whole, contents_eq hread hparse, rfl⟩, ?_⟩
  rw [hdirectory]
  exact hparent.symm

end

def both : Toml := .table [("include", .array [.string "a", .string "b"])]

def single : Toml := .table [("include", .string "c")]

def leaf : Toml := .table [("domain", .string "acme")]

theorem parse_both : Toml.parse? "include = [\"a\", \"b\"]" = some both := by cbv

theorem parse_single : Toml.parse? "include = \"c\"" = some single := by cbv

theorem parse_leaf : Toml.parse? "domain = \"acme\"" = some leaf := by cbv

section
variable (second : String)

theorem opens_a : Opens (files second) (opened "r" both) 0 (opened "a" single) :=
  opens rfl rfl (isPlain_of_mem "a" (by simp)) rfl parse_single

theorem opens_c (name : String) : Opens (files second) (opened name single) 0 (opened "c" leaf) :=
  opens rfl rfl (isPlain_of_mem "c" (by simp)) rfl parse_leaf

variable {second} {whole : Toml} (hparse : Toml.parse? second = some whole)
include hparse

theorem opens_b : Opens (files second) (opened "r" both) 1 (opened "b" whole) :=
  opens rfl rfl (isPlain_of_mem "b" (by simp)) rfl hparse

theorem layered (hlower : ∀ i < (split whole).1.length,
      Opens (files second) (opened "b" whole) i (opened "c" leaf)) :
    Layered (files second) [opened "r" both, opened "a" single, opened "b" whole, opened "c" leaf]
      layer := by
  simp only [Layered, List.forall_mem_cons]
  obtain ⟨hfirst, hsecond, hthird, hshared⟩ := layer_lt
  refine ⟨?root, ?first, ?second, ?last, fun f hf => absurd hf List.not_mem_nil⟩
  case root =>
    intro i hi
    match i, hi with
    | 0, _ => exact ⟨_, by simp, opens_a second, hfirst⟩
    | 1, _ => exact ⟨_, by simp, opens_b hparse, hsecond⟩
  case first =>
    intro i hi
    match i, hi with
    | 0, _ => exact ⟨_, by simp, opens_c second "a", hthird⟩
  case second =>
    intro i hi
    exact ⟨_, by simp, hlower i hi, hshared⟩
  case last =>
    intro i hi
    exact absurd hi (Nat.not_lt_zero i)

omit hparse in
variable (second) in
theorem rootOf_eq : rootOf (files second) "/d/r" both = opened "r" both := by
  have hroot : identity (files second) "/d/r" = "/d/r" := by
    rw [identity, canonical_eq (.inr rfl)]
    rfl
  have hdirectory : rootDirectory "/d/r" = "/d" := by decide +kernel
  have hfile : "/d/" ++ "r" = "/d/r" := by decide +kernel
  rw [rootOf, opened, hroot, hdirectory, hfile]

end

/-- only the first file of the root includes a third -/
def branches : Files := files "domain = \"acme\""

/-- both files of the root include a third -/
def shared : Files := files "include = \"c\""

end Shared

theorem loadRoot_judged_branches :
    contents Shared.branches "/d/r" = .ok Shared.both ∧
    AllFit Shared.branches (rootOf Shared.branches "/d/r" Shared.both) ∧
    Within Shared.branches (rootOf Shared.branches "/d/r" Shared.both) ∧
    Judged Shared.branches "/d/r" (rootOf Shared.branches "/d/r" Shared.both) := by
  have value : contents Shared.branches "/d/r" = .ok Shared.both :=
    Shared.contents_eq rfl Shared.parse_both
  have hlayers := Shared.layered Shared.parse_leaf fun i hi => absurd hi (Nat.not_lt_zero i)
  have hfit := hlayers.allFit List.mem_cons_self
  have hwithin := hlayers.within List.mem_cons_self (by decide +kernel)
  rw [← Shared.rootOf_eq] at hfit hwithin
  exact ⟨value, hfit, hwithin, loadRoot_judged value hfit hwithin⟩

/-- a file that two others include is refused, though no file includes itself -/
theorem loadRoot_refuses_shared : ¬∀ (files : Files) (path : String) (whole : Toml),
    contents files path = .ok whole → rootDirectory path ≠ "" →
      AllFit files (rootOf files path whole) → Acyclic files (rootOf files path whole) →
      Within files (rootOf files path whole) →
      ∃ source log, (loadRoot files path).run {} = (.ok source, log) := by
  intro hloads
  have value : contents Shared.shared "/d/r" = .ok Shared.both :=
    Shared.contents_eq rfl Shared.parse_both
  have hc : ∀ name, Opens Shared.shared (Shared.opened name Shared.single) 0
      (Shared.opened "c" Shared.leaf) := Shared.opens_c _
  have hlayers := Shared.layered Shared.parse_single fun i hi => by
    obtain rfl : i = 0 := Nat.lt_one_iff.mp hi
    exact hc "b"
  have hfit := hlayers.allFit List.mem_cons_self
  have hacyclic := hlayers.acyclic List.mem_cons_self
  have hwithin := hlayers.within List.mem_cons_self (by decide +kernel)
  rw [← Shared.rootOf_eq] at hfit hacyclic hwithin
  obtain ⟨source, log, hok⟩ :=
    hloads Shared.shared "/d/r" Shared.both value (by decide +kernel) hfit hacyclic hwithin
  obtain ⟨whole, value', htree, _⟩ := isTree_of_ok hok
  rw [value] at value'
  obtain rfl := Except.ok.inj value'
  have hone : OneWay Shared.shared (Shared.opened "r" Shared.both) := by
    rw [← Shared.rootOf_eq]
    exact htree.oneWay
  have hfirst : Leads Shared.shared (Shared.opened "r" Shared.both) [0, 0]
      (Shared.opened "c" Shared.leaf) := ⟨_, Shared.opens_a _, _, hc "a", rfl⟩
  have hsecond : Leads Shared.shared (Shared.opened "r" Shared.both) [1, 0]
      (Shared.opened "c" Shared.leaf) := ⟨_, Shared.opens_b Shared.parse_single, _, hc "b", rfl⟩
  exact absurd (hone _ _ _ _ hfirst hsecond rfl) (by decide)

end Source

end Relay.Settings
