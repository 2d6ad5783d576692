import Relay.Proofs.FileTree
import Relay.Proofs.Settings.Tree

/-!
# Included files stay in the directory

The path of an included file is compared with the directory of the including file only. This is itself the
directory of an included file, and so on up to the root. `Inside` is what holds of such a directory: it is
that of the root, or lies below it. `Inside.of_opens` goes down one file, `Inside.of_names` any number of
them, and `Inside.of_fits` says where a file lies that is named in such a directory. Together they give
`loadRoot_confined`, for files that are lawful as those of a file tree are: it is about every file that is
read, whether or not the root is loaded in the end.
-/

namespace Relay.Settings.Source

/-- a directory that is another one, or lies below it -/
def Inside (files : Files) (top directory : String) : Prop :=
  ∃ here, files.canonical directory = .ok here ∧ Path.startsWith here top = true

section
variable {files : Files} {path directory name found top : String} {whole : Toml} {f g : Opened} {i : Nat}
  {x : List Nat}

theorem inside_self (h : files.canonical directory = .ok top) : Inside files top directory :=
  ⟨top, h, Path.startsWith_self top⟩

theorem Names.canonical_directory (hname : Names files f x directory name)
    (hfits : Fits files directory name found) : ∃ top, files.canonical f.directory = .ok top := by
  cases x with
  | nil => exact hname.elim
  | cons i x =>
    rcases hname with ⟨_, _, rfl⟩ | ⟨h, hopens, _⟩
    · obtain ⟨top, htop, _⟩ := hfits.inside
      exact ⟨top, htop⟩
    · obtain ⟨_, _, _, hfits, _⟩ := hopens.fits
      obtain ⟨top, htop, _⟩ := hfits.inside
      exact ⟨top, htop⟩

variable (lawful : files.Lawful)
include lawful

theorem Inside.of_fits (h : Inside files top directory) (hfits : Fits files directory name found) :
    files.canonical found = .ok found ∧ Path.startsWith found top = true := by
  obtain ⟨here, hhere, hbelow⟩ := h
  obtain ⟨here', hhere', hinside⟩ := hfits.inside
  obtain rfl := Except.ok.inj (hhere.symm.trans hhere')
  exact ⟨lawful.fixed _ _ hfits.canonical, Path.startsWith_trans hinside hbelow⟩

/-- what a file in a directory includes is looked for in the directory or below it -/
theorem Inside.of_opens (h : Inside files top f.directory) (hopens : Opens files f i g) :
    Inside files top g.directory := by
  obtain ⟨name, whole, _, hfits, value⟩ := hopens.fits
  obtain ⟨here, hhere, hbelow⟩ := h
  obtain ⟨here', hhere', hinside⟩ := hfits.inside
  obtain rfl := Except.ok.inj (hhere.symm.trans hhere')
  have hfound := lawful.fixed _ _ hfits.canonical
  obtain ⟨names, hnames, hfile⟩ := lawful.names _ _ hfound
  obtain ⟨top', rfl, htop⟩ := lawful.names _ _ hhere
  -- what has been read is not the directory, so that its own directory does not lead out
  have hne : names ≠ top' := by
    rintro rfl
    obtain ⟨text, hread, _⟩ := contents_eq_ok_iff.mp value
    rw [hnames] at hread
    exact lawful.directory _ _ _ _ text hfits.relative hfits.canonical hhere hread
  rw [hnames] at hinside hfound
  obtain ⟨directory, hparent, hdirectory⟩ := Path.exists_parent_of_startsWith hfile htop hinside hne
  have hown : g.directory = directory := by
    rw [hopens.directory, directoryOf, hnames, hparent]
    rfl
  rw [hown]
  exact ⟨directory, lawful.parent _ _ hfound hparent, Path.startsWith_trans hdirectory hbelow⟩

theorem Inside.of_names (h : Inside files top f.directory) (hname : Names files f x directory name) :
    Inside files top directory := by
  induction x generalizing f with
  | nil => exact hname.elim
  | cons i x ih =>
    rcases hname with ⟨_, _, rfl⟩ | ⟨g, hopens, hname⟩
    · exact h
    · exact ih (h.of_opens lawful hopens) hname

end

/-! ## what is read for a root -/

/-- **what is read for a root is named from within its directory, and lies there** -/
structure Confined (files : Files) (path : String) (included : List String) : Prop where
  all : filesRead files path = path :: included
  named : ∀ found ∈ included, ∃ directory name, Fits files directory name found
  inside : ∀ found ∈ included, files.canonical found = .ok found ∧
    ∃ top, files.canonical (rootDirectory path) = .ok top ∧ Path.startsWith found top = true
  /-- a name that is not relative, or goes back, comes to nothing and nothing is read for it -/
  absolute : ∀ inner directory name log, Path.isAbsolute name = true →
    (enter files inner directory name).run log = (.error (.absolute name), log)
  climbing : ∀ inner directory name log, Path.isAbsolute name = false →
    .parent ∈ Path.components name →
      (enter files inner directory name).run log = (.error (.climbing name), log)
  fails : ∀ whole x directory name, contents files path = .ok whole →
    Names files (rootOf files path whole) x directory name →
      Path.isAbsolute name = true ∨ .parent ∈ Path.components name →
        ∃ flaw log, (loadRoot files path).run {} = (.error flaw, log)

theorem loadRoot_confined {files : Files} (lawful : files.Lawful) (path : String) :
    ∃ included, Confined files path included := by
  obtain ⟨included, hreads, _⟩ := exists_reads files path
  refine ⟨included, ?_⟩
  constructor
  case all => exact hreads.all
  case named =>
    intro found hfound
    obtain ⟨_, _, directory, name, _, _, hfits, _⟩ := hreads.named found hfound
    exact ⟨directory, name, hfits⟩
  case inside =>
    intro found hfound
    obtain ⟨whole, x, directory, name, _, hname, hfits, _⟩ := hreads.named found hfound
    obtain ⟨top, htop⟩ := hname.canonical_directory hfits
    obtain ⟨hcanonical, hinside⟩ := ((inside_self htop).of_names lawful hname).of_fits lawful hfits
    exact ⟨hcanonical, top, htop, hinside⟩
  case absolute =>
    exact fun _ _ _ _ h => run_enter_of_refused (locate_of_absolute files h)
  case climbing =>
    exact fun _ _ _ _ hrelative h => run_enter_of_refused (locate_of_climbing files hrelative h)
  case fails =>
    intro whole x directory name value hname hrefused
    cases hrun : (loadRoot files path).run {} with
    | mk outcome log =>
      cases outcome with
      | error flaw => exact ⟨flaw, log, rfl⟩
      | ok source =>
        obtain ⟨whole', value', htree, _⟩ := isTree_of_ok hrun
        obtain rfl := Except.ok.inj (value'.symm.trans value)
        obtain ⟨_, _, hfits, _⟩ := htree.allFit x directory name hname
        rcases hrefused with habsolute | hclimbing
        · rw [hfits.relative] at habsolute
          cases habsolute
        · exact absurd hclimbing hfits.downward

/-! ## a link within the directory -/

namespace Linked

/-- `r` includes `c`, which is a link to `e` -/
def tree : FileTree where
  entries := [(["r", "d"], .file "include = \"c\""), (["c", "d"], .link "e"),
    (["e", "d"], .file "domain = \"acme\"")]

theorem lawful : tree.files.Lawful := FileTree.lawful_files (.root rfl)

theorem locate_c : locate tree.files "/d" "c" = .ok "/d/e" := by
  have hd : tree.resolve "/d" = .ok ["d"] := by cbv
  have hc : tree.resolve (Path.join "/d" "c") = .ok ["e", "d"] := by cbv
  exact locate_eq_ok_iff.mpr ⟨by decide +kernel, by decide +kernel,
    FileTree.canonical_of_resolve hc (by decide +kernel), "/d",
    FileTree.canonical_of_resolve hd (by decide +kernel), by decide +kernel⟩

theorem filesRead_eq : filesRead tree.files "/d/r" = ["/d/r", "/d/e"] := by
  have hr : tree.resolve "/d/r" = .ok ["r", "d"] := by cbv
  have he : tree.resolve "/d/e" = .ok ["e", "d"] := by cbv
  have hroot : contents tree.files "/d/r" = .ok Shared.single :=
    FileTree.contents_of_resolve hr (by decide) rfl Shared.parse_single
  have hleaf : contents tree.files "/d/e" = .ok Shared.leaf :=
    FileTree.contents_of_resolve he (by decide) rfl Shared.parse_leaf
  have hidentity : identity tree.files "/d/r" = "/d/r" := by
    rw [identity, FileTree.canonical_of_resolve hr rfl]
    decide +kernel
  have hdirectory : rootDirectory "/d/r" = "/d" := by decide +kernel
  have hfresh : "/d/e" ∉ (rootLog tree.files "/d/r").seen := by
    rw [rootLog, hidentity]
    decide
  have hrun : Including tree.files 0 "/d" ["c"] (rootLog tree.files "/d/r")
      (.ok [.mk "/d/e" (split Shared.leaf).2 []]) ((rootLog tree.files "/d/r").enter "/d/e") :=
    .next locate_c hfresh hleaf (by decide) (.done _ _ _) (.done _ _ _)
  rw [← hdirectory] at hrun
  rw [filesRead, log_loading, (Rooting.including hroot hrun).run_loadRoot]
  rfl

end Linked

theorem loadRoot_confined_linked :
    Linked.tree.files.Lawful ∧ Confined Linked.tree.files "/d/r" ["/d/e"] := by
  obtain ⟨included, hconfined⟩ := loadRoot_confined Linked.lawful "/d/r"
  have hall := hconfined.all
  rw [Linked.filesRead_eq] at hall
  obtain rfl := (List.cons.inj hall).2
  exact ⟨Linked.lawful, hconfined⟩

end Relay.Settings.Source
