import Relay.Proofs.Settings.Including
import Mathlib.Data.List.Nodup

/-!
# Chains of includes

A file includes others by their names, those include more, and so on. A place below a file is the list of
the indexes of names that lead to it, from the file downwards.

* `Fits`     a name is that of a file in a directory or below it (`locate_eq_ok_iff`);
* `Opened`   a file with the names of those that it includes;
* `Leads`    the file at a place below another one;
* `Names`    the name at a place, and the directory in which it is looked for;
* `IsTree`   every name leads to a file, no two places to the same one, and no place is too deep.

Where files come in layers, each including lower ones only (`Layered`), every name fits, no file is below
itself, and the layers bound the depth. The last section compares the places below a list of names with
those below its first name and below the others.
-/

namespace Relay.Settings.Source

/-! ## looking for a file -/

/-- a name in a directory is that of a file in it or below -/
structure Fits (files : Files) (directory name found : String) : Prop where
  relative : Path.isAbsolute name = false
  downward : .parent ∉ Path.components name
  canonical : files.canonical (Path.join directory name) = .ok found
  inside : ∃ top, files.canonical directory = .ok top ∧ Path.startsWith found top = true

section
variable (files : Files) {directory name found : String}

theorem locate_of_absolute (h : Path.isAbsolute name = true) :
    locate files directory name = .error (.absolute name) := by
  rw [locate, if_pos h]

theorem locate_of_climbing (hrelative : Path.isAbsolute name = false)
    (h : .parent ∈ Path.components name) :
    locate files directory name = .error (.climbing name) := by
  rw [locate, if_neg (by rw [hrelative]; decide), if_pos h]

variable {files} in
theorem locate_eq_ok_iff : locate files directory name = .ok found ↔
    Fits files directory name found := by
  cases hrelative : Path.isAbsolute name with
  | true =>
    rw [locate_of_absolute files hrelative]
    exact iff_of_false (by simp) fun h => absurd h.relative (by rw [hrelative]; decide)
  | false =>
    by_cases hclimbing : .parent ∈ Path.components name
    · rw [locate_of_climbing files hrelative hclimbing]
      exact iff_of_false (by simp) fun h => h.downward hclimbing
    · rw [locate, if_neg (by rw [hrelative]; decide), if_neg hclimbing]
      constructor
      · intro h
        split at h
        · cases h
        · rename_i found' hfound
          split at h
          · cases h
          · rename_i top htop
            split at h
            · rename_i hinside
              cases h
              exact ⟨hrelative, hclimbing, hfound, top, htop, hinside⟩
            · cases h
      · intro h
        obtain ⟨top, htop, hinside⟩ := h.inside
        simp only [h.canonical, htop, hinside, if_true]

theorem locate_ne_circular (directory name name' : String) :
    locate files directory name ≠ .error (.circular name') := by
  intro h
  unfold locate at h
  repeat' split at h
  all_goals cases h

variable {files} in
theorem contents_eq_ok_iff {path : String} {whole : Toml} : contents files path = .ok whole ↔
    ∃ text, files.read path = .ok text ∧ Toml.parse? text = some whole := by
  unfold contents
  cases files.read path with
  | error reason => exact iff_of_false (by simp) (by simp)
  | ok text =>
    cases hparse : Toml.parse? text with
    | none => simp [hparse]
    | some value => simp [hparse]

theorem contents_ne_circular (path name : String) :
    contents files path ≠ .error (.circular name) := by
  intro h
  unfold contents at h
  repeat' split at h
  all_goals cases h

end

/-! ## places -/

/-- a file, and what it includes: files of some names in a directory -/
structure Opened where
  file : String
  directory : String
  names : List String

/-- the name of an index in a file leads to another file -/
structure Opens (files : Files) (f : Opened) (i : Nat) (g : Opened) : Prop where
  located : ∃ name, f.names[i]? = some name ∧ locate files f.directory name = .ok g.file
  value : ∃ whole, contents files g.file = .ok whole ∧ g.names = (split whole).1
  directory : g.directory = directoryOf g.file f.directory

/-- a place below a file leads to another file -/
def Leads (files : Files) : Opened → List Nat → Opened → Prop
  | f, [], g => g = f
  | f, i :: x, g => ∃ h, Opens files f i h ∧ Leads files h x g

/-- a name stands at a place below a file, to be looked for in a directory -/
def Names (files : Files) : Opened → List Nat → (directory name : String) → Prop
  | _, [], _, _ => False
  | f, i :: x, directory, name =>
    (x = [] ∧ f.names[i]? = some name ∧ directory = f.directory) ∨
      ∃ h, Opens files f i h ∧ Names files h x directory name

section
variable {files : Files} {f g h : Opened} {i : Nat} {x y : List Nat}

theorem Opens.unique (hg : Opens files f i g) (hh : Opens files f i h) : h = g := by
  obtain ⟨name, hname, hfile⟩ := hg.located
  obtain ⟨name', hname', hfile'⟩ := hh.located
  obtain rfl : name = name' := Option.some.inj (hname.symm.trans hname')
  have hsame : g.file = h.file := Except.ok.inj (hfile.symm.trans hfile')
  obtain ⟨whole, hwhole, hnames⟩ := hg.value
  obtain ⟨whole', hwhole', hnames'⟩ := hh.value
  rw [← hsame, hwhole] at hwhole'
  obtain rfl := Except.ok.inj hwhole'
  have hdirectory := hg.directory
  rw [hsame, ← hh.directory] at hdirectory
  cases g
  cases h
  simp_all

theorem leads_append : Leads files f (x ++ y) h ↔ ∃ g, Leads files f x g ∧ Leads files g y h := by
  induction x generalizing f with
  | nil => simp [Leads]
  | cons i x ih =>
    simp only [List.cons_append, Leads, ih]
    constructor
    · rintro ⟨k, hk, g, hg, hh⟩
      exact ⟨g, ⟨k, hk, hg⟩, hh⟩
    · rintro ⟨g, ⟨k, hk, hg⟩, hh⟩
      exact ⟨k, hk, g, hg, hh⟩

/-- a name that is found and read leads to a file -/
theorem Names.leads {directory name found : String} {whole : Toml}
    (hname : Names files f x directory name) (located : locate files directory name = .ok found)
    (value : contents files found = .ok whole) : ∃ g, Leads files f x g ∧ g.file = found := by
  induction x generalizing f with
  | nil => exact hname.elim
  | cons i x ih =>
    rcases hname with ⟨rfl, hname, rfl⟩ | ⟨h, hopens, hname⟩
    · let g : Opened := ⟨found, directoryOf found f.directory, (split whole).1⟩
      exact ⟨g, ⟨g, ⟨⟨name, hname, located⟩, ⟨whole, value, rfl⟩, rfl⟩, rfl⟩, rfl⟩
    · obtain ⟨g, hg, hfile⟩ := ih hname
      exact ⟨g, ⟨h, hopens, hg⟩, hfile⟩

end

/-! ## shapes -/

section
variable (files : Files) (root : Opened)

/-- every name below a file is that of a file that can be read -/
def AllFit : Prop := ∀ x directory name, Names files root x directory name →
  ∃ found whole, Fits files directory name found ∧ contents files found = .ok whole

/-- no two places lead to the same file -/
def OneWay : Prop :=
  ∀ x y g h, Leads files root x g → Leads files root y h → g.file = h.file → x = y

/-- no file is below itself -/
def Acyclic : Prop :=
  ∀ x y g h, Leads files root x g → Leads files g y h → h.file = g.file → y = []

def Within : Prop := ∀ x g, Leads files root x g → x.length ≤ depthLimit

/-- **what a file includes, and so on, makes up a tree** -/
structure IsTree : Prop where
  allFit : AllFit files root
  oneWay : OneWay files root
  acyclic : Acyclic files root
  within : Within files root

end

section
variable {files : Files} {f g : Opened} {i : Nat} {x : List Nat}

theorem Opens.fits (h : Opens files f i g) : ∃ name whole, f.names[i]? = some name ∧
    Fits files f.directory name g.file ∧ contents files g.file = .ok whole := by
  obtain ⟨name, hname, located⟩ := h.located
  obtain ⟨whole, value, _⟩ := h.value
  exact ⟨name, whole, hname, locate_eq_ok_iff.mp located, value⟩

/-- files in layers: what a file includes is there, and in a lower layer -/
def Layered (files : Files) (all : List Opened) (layer : String → Nat) : Prop :=
  ∀ f ∈ all, ∀ i < f.names.length, ∃ g ∈ all, Opens files f i g ∧ layer g.file < layer f.file

variable {all : List Opened} {layer : String → Nat} (hlayers : Layered files all layer)
include hlayers

theorem Layered.of_opens (hf : f ∈ all) (h : Opens files f i g) :
    g ∈ all ∧ layer g.file < layer f.file := by
  obtain ⟨name, _, hname, _⟩ := h.fits
  obtain ⟨g', hg', hopens, hlower⟩ := hlayers f hf i (List.getElem?_eq_some_iff.mp hname).1
  rw [hopens.unique h]
  exact ⟨hg', hlower⟩

theorem Layered.of_leads (hf : f ∈ all) (hg : Leads files f x g) :
    g ∈ all ∧ layer g.file + x.length ≤ layer f.file := by
  induction x generalizing f with
  | nil =>
    obtain rfl : g = f := hg
    exact ⟨hf, Nat.le_refl _⟩
  | cons i x ih =>
    obtain ⟨h, hopens, hg⟩ := hg
    obtain ⟨hh, hlower⟩ := hlayers.of_opens hf hopens
    obtain ⟨hg, hlength⟩ := ih hh hg
    rw [List.length_cons]
    exact ⟨hg, by omega⟩

theorem Layered.allFit (hf : f ∈ all) : AllFit files f := by
  intro x directory name hname
  induction x generalizing f with
  | nil => exact hname.elim
  | cons i x ih =>
    rcases hname with ⟨_, hname, rfl⟩ | ⟨h, hopens, hname⟩
    · obtain ⟨g, _, hopens, _⟩ := hlayers f hf i (List.getElem?_eq_some_iff.mp hname).1
      obtain ⟨name', whole, hname', hfits, value⟩ := hopens.fits
      obtain rfl := Option.some.inj (hname'.symm.trans hname)
      exact ⟨g.file, whole, hfits, value⟩
    · exact ih (hlayers.of_opens hf hopens).1 hname

theorem Layered.acyclic (hf : f ∈ all) : Acyclic files f := by
  intro x y g h hg hh hfile
  have hlayer := (hlayers.of_leads (hlayers.of_leads hf hg).1 hh).2
  rw [hfile] at hlayer
  exact List.length_eq_zero_iff.mp (by omega)

theorem Layered.within (hf : f ∈ all) (htop : layer f.file ≤ depthLimit) : Within files f := by
  intro x g hg
  have hlayer := (hlayers.of_leads hf hg).2
  omega

end

/-! ## the first name and the others -/

section
variable {files : Files} {file directory name found : String} {names : List String} {whole : Toml}
  {i : Nat} {x : List Nat} {g : Opened}

/-- the file that a name leads to -/
def childOf (found directory : String) (whole : Toml) : Opened :=
  ⟨found, directoryOf found directory, (split whole).1⟩

theorem opens_succ : Opens files ⟨file, directory, name :: names⟩ (i + 1) g ↔
    Opens files ⟨file, directory, names⟩ i g := by
  constructor
  · rintro ⟨located, value, hdirectory⟩
    exact ⟨located, value, hdirectory⟩
  · rintro ⟨located, value, hdirectory⟩
    exact ⟨located, value, hdirectory⟩

theorem leads_succ : Leads files ⟨file, directory, name :: names⟩ ((i + 1) :: x) g ↔
    Leads files ⟨file, directory, names⟩ (i :: x) g := by
  simp only [Leads, opens_succ]

theorem names_succ {directory' name' : String} :
    Names files ⟨file, directory, name :: names⟩ ((i + 1) :: x) directory' name' ↔
      Names files ⟨file, directory, names⟩ (i :: x) directory' name' := by
  simp only [Names, opens_succ, List.getElem?_cons_succ]

theorem names_zero : Names files ⟨file, directory, name :: names⟩ [0] directory name :=
  .inl ⟨rfl, rfl, rfl⟩

variable (located : locate files directory name = .ok found) (value : contents files found = .ok whole)
include located value

theorem opens_zero : Opens files ⟨file, directory, name :: names⟩ 0 (childOf found directory whole) :=
  ⟨⟨name, rfl, located⟩, ⟨whole, value, rfl⟩, rfl⟩

theorem leads_zero : Leads files ⟨file, directory, name :: names⟩ (0 :: x) g ↔
    Leads files (childOf found directory whole) x g := by
  have hzero : Opens files ⟨file, directory, name :: names⟩ 0 (childOf found directory whole) :=
    opens_zero located value
  constructor
  · rintro ⟨h, hh, hg⟩
    rwa [hzero.unique hh] at hg
  · exact fun hg => ⟨_, hzero, hg⟩

theorem leads_first :
    Leads files ⟨file, directory, name :: names⟩ [0] (childOf found directory whole) :=
  ⟨_, opens_zero located value, rfl⟩

theorem names_zero_cons {directory' name' : String}
    (h : Names files (childOf found directory whole) x directory' name') :
    Names files ⟨file, directory, name :: names⟩ (0 :: x) directory' name' :=
  .inr ⟨_, opens_zero located value, h⟩

end

end Relay.Settings.Source
