import Relay.Proofs.FileTree
import Relay.Proofs.Settings.Tree

/-!
# How the root is spelled

The directory of a bare name is the empty path (`Path.parent?_bare`). What the file includes is found all
the same, since the empty path in front of a name changes nothing, but the directory that it must not
leave is looked for by itself, and the empty path leads nowhere (`locate_empty_of_found`). The directory of
the same name behind `./` is `.`, which is there.

`ByName` says what comes of it: a file that includes nothing may be spelled either way, and one that
includes anything is not loaded by its bare name (`load_dependsOnSpelling`).
-/

namespace Relay.Settings

open Source (contents loadRoot locate rootDirectory rootLog split)

/-! ## what comes of a root -/

section
variable {files : Files} {path name : String} {names : List String} {whole : Toml} {s : Settings}
  {flaw : Flaw}

theorem ofToml_eq_ok_iff {value : Toml} : ofToml path value = .ok s ↔
    (Wire.read value : Option Settings) = some s ∧ s.check = .ok () := by
  unfold ofToml
  cases hread : (Wire.read value : Option Settings) with
  | none => simp
  | some settings =>
    refine Checks.bind_eq_ok_iff.trans ?_
    constructor
    · rintro ⟨_, hcheck, hs⟩
      obtain rfl := Checks.pure_eq_ok_iff.mp hs
      exact ⟨rfl, hcheck⟩
    · rintro ⟨hs, hcheck⟩
      obtain rfl := Option.some.inj hs
      exact ⟨(), hcheck, rfl⟩

theorem load_of_error {log : Source.Log} (h : (loadRoot files path).run {} = (.error flaw, log)) :
    load files path = .error flaw := by
  rw [load, loading, Source.run_bind, h]

theorem load_of_ok {log : Source.Log} {source : Source}
    (h : (loadRoot files path).run {} = (.ok source, log)) :
    load files path = .ok s ↔ (Wire.read source.value : Option Settings) = some s ∧ s.check = .ok () := by
  rw [load, loading, Source.run_bind, h]
  exact ofToml_eq_ok_iff

theorem exists_contents_of_load (h : load files path = .ok s) : ∃ whole, contents files path = .ok whole := by
  cases value : contents files path with
  | ok whole => exact ⟨whole, rfl⟩
  | error flaw =>
    rw [load_of_error (Source.Rooting.unread value).run_loadRoot] at h
    cases h

/-- a file that includes nothing comes to what it says itself, wherever it lies -/
theorem load_alone_iff (value : contents files path = .ok whole) (alone : (split whole).1 = []) :
    load files path = .ok s ↔
      (Wire.read (Toml.emptyTable.overlay (split whole).2) : Option Settings) = some s ∧
        s.check = .ok () := by
  have hnone : Source.Including files 0 (rootDirectory path) (split whole).1 (rootLog files path) (.ok [])
      (rootLog files path) := by
    rw [alone]
    exact .done _ _ _
  rw [load_of_ok (Source.Rooting.including value hnone).run_loadRoot, Source.value, Source.valueOver]

/-- the first file that is refused is the flaw -/
theorem load_of_refused (value : contents files path = .ok whole) (first : (split whole).1 = name :: names)
    (refused : locate files (rootDirectory path) name = .error flaw) : load files path = .error flaw := by
  have hrefused : Source.Including files 0 (rootDirectory path) (split whole).1 (rootLog files path)
      (.error flaw) (rootLog files path) := by
    rw [first]
    exact .refused refused
  exact load_of_error (Source.Rooting.including value hrefused).run_loadRoot

end

/-! ## bare names -/

section
variable {files : Files} {file name found : String} {whole : Toml} (work : files.AtWork file)
include work

theorem contents_current : contents files ("./" ++ file) = .ok whole ↔ contents files file = .ok whole := by
  rw [Source.contents_eq_ok_iff, Source.contents_eq_ok_iff]
  exact exists_congr fun text => and_congr_left' (work.read text)

/-- nothing lies in the directory of a bare name -/
theorem exists_locate_empty (name : String) : ∃ flaw, locate files "" name = .error flaw := by
  cases located : locate files "" name with
  | error flaw => exact ⟨flaw, rfl⟩
  | ok found =>
    obtain ⟨top, htop, -⟩ := (Source.locate_eq_ok_iff.mp located).inside
    exact absurd htop (work.empty top)

/-- what is found in the working directory is found, but not the directory -/
theorem locate_empty_of_found (hname : name ≠ "") (located : locate files "." name = .ok found) :
    ∃ reason, files.canonical "" = .error reason ∧
      locate files "" name = .error (.noDirectory "" reason) := by
  have hfits := Source.locate_eq_ok_iff.mp located
  have hfound : files.canonical (Path.join "" name) = .ok found := by
    rw [Path.join_empty, ← work.canonical name hname hfits.relative, ← Path.join_current hfits.relative]
    exact hfits.canonical
  cases hempty : files.canonical "" with
  | ok top => exact absurd hempty (work.empty top)
  | error reason =>
    refine ⟨reason, rfl, ?_⟩
    rw [locate, if_neg (by rw [hfits.relative]; decide), if_neg hfits.downward, hfound, hempty]

end

/-- **what comes of a file by its bare name, next to what comes of it behind `./`** -/
structure ByName (files : Files) (file : String) : Prop where
  loads_iff : ∀ s, load files file = .ok s ↔ load files ("./" ++ file) = .ok s ∧
    ∀ whole, contents files file = .ok whole → (split whole).1 = []
  /-- the first file that it includes is refused -/
  refused : ∀ whole name names, contents files file = .ok whole → (split whole).1 = name :: names →
    ∃ flaw, locate files "" name = .error flaw ∧ load files file = .error flaw
  /-- if it is there for the other spelling, the flaw is that the directory is not -/
  unplaced : ∀ whole name names found, contents files file = .ok whole → (split whole).1 = name :: names →
    name ≠ "" → locate files (rootDirectory ("./" ++ file)) name = .ok found →
      ∃ reason, files.canonical "" = .error reason ∧ load files file = .error (.noDirectory "" reason)

section
variable {files : Files} {file step : String} {whole : Toml} {s : Settings}

theorem rootDirectory_bare (h : Path.components file = [.normal step]) : rootDirectory file = "" := by
  rw [rootDirectory, Path.parent?_bare h]
  rfl

theorem rootDirectory_current (h : Path.components file = [.normal step]) :
    rootDirectory ("./" ++ file) = "." := by
  rw [rootDirectory, Path.parent?_current h]
  rfl

theorem load_alone_current_iff (work : files.AtWork file) (value : contents files file = .ok whole)
    (alone : (split whole).1 = []) : load files file = .ok s ↔ load files ("./" ++ file) = .ok s := by
  rw [load_alone_iff value alone, load_alone_iff ((contents_current work).mpr value) alone]

theorem exists_flaw_of_includes {name : String} {names : List String} (work : files.AtWork file)
    (h : Path.components file = [.normal step]) (value : contents files file = .ok whole)
    (first : (split whole).1 = name :: names) :
    ∃ flaw, locate files "" name = .error flaw ∧ load files file = .error flaw := by
  obtain ⟨flaw, refused⟩ := exists_locate_empty work name
  refine ⟨flaw, refused, load_of_refused value first ?_⟩
  rw [rootDirectory_bare h]
  exact refused

/-- what is loaded by its bare name includes nothing -/
theorem alone_of_load (work : files.AtWork file) (h : Path.components file = [.normal step])
    (value : contents files file = .ok whole) (hload : load files file = .ok s) :
    (split whole).1 = [] := by
  cases first : (split whole).1 with
  | nil => rfl
  | cons name names =>
    obtain ⟨flaw, -, hflaw⟩ := exists_flaw_of_includes work h value first
    rw [hflaw] at hload
    cases hload

theorem load_byName (work : files.AtWork file) (h : Path.components file = [.normal step]) :
    ByName files file := by
  constructor
  case loads_iff =>
    intro s
    constructor
    · intro hload
      obtain ⟨whole, value⟩ := exists_contents_of_load hload
      have alone := alone_of_load work h value hload
      refine ⟨(load_alone_current_iff work value alone).mp hload, fun whole' value' => ?_⟩
      obtain rfl := Except.ok.inj (value.symm.trans value')
      exact alone
    · rintro ⟨hload, halone⟩
      obtain ⟨whole, hcurrent⟩ := exists_contents_of_load hload
      have value := (contents_current work).mp hcurrent
      exact (load_alone_current_iff work value (halone whole value)).mpr hload
  case refused => exact fun _ _ _ value first => exists_flaw_of_includes work h value first
  case unplaced =>
    intro whole name names found value first hname located
    rw [rootDirectory_current h] at located
    obtain ⟨reason, hempty, hlocate⟩ := locate_empty_of_found work hname located
    obtain ⟨flaw, hflaw, hload⟩ := exists_flaw_of_includes work h value first
    obtain rfl := Except.error.inj (hlocate.symm.trans hflaw)
    exact ⟨reason, hempty, hload⟩

end

/-! ## a file that includes the one beside it -/

namespace Beside

/-- the work is done in `d`, where `r` includes `c` -/
def tree : FileTree where
  entries := [(["r", "d"], .file "include = \"c\""), (["c", "d"], .file "domain = \"acme\"")]
  workingPlace := ["d"]

theorem atWork : tree.files.AtWork "r" := tree.atWork_files (by decide) (by decide +kernel) (by decide)

theorem components_r : Path.components "r" = [.normal "r"] := by decide +kernel

theorem rootDirectory_r : rootDirectory "./r" = "." := rootDirectory_current components_r

theorem contents_r : contents tree.files "./r" = .ok Source.Shared.single := by
  have hr : tree.resolve "./r" = .ok ["r", "d"] := by cbv
  exact FileTree.contents_of_resolve hr (by decide) rfl Source.Shared.parse_single

theorem locate_c : locate tree.files "." "c" = .ok "/d/c" := by
  have hc : tree.resolve (Path.join "." "c") = .ok ["c", "d"] := by cbv
  have hd : tree.resolve "." = .ok ["d"] := by cbv
  exact Source.locate_eq_ok_iff.mpr ⟨by decide +kernel, by decide +kernel,
    FileTree.canonical_of_resolve hc (by decide +kernel), "/d",
    FileTree.canonical_of_resolve hd (by decide +kernel), by decide +kernel⟩

theorem load_r : load tree.files "./r" = .ok { domain := "acme" } := by
  have hplace : tree.resolve "./r" = .ok ["r", "d"] := by cbv
  have hc : tree.resolve "/d/c" = .ok ["c", "d"] := by cbv
  have hleaf : contents tree.files "/d/c" = .ok Source.Shared.leaf :=
    FileTree.contents_of_resolve hc (by decide) rfl Source.Shared.parse_leaf
  have hidentity : Source.identity tree.files "./r" = "/d/r" := by
    rw [Source.identity, FileTree.canonical_of_resolve hplace rfl]
    decide +kernel
  have hfresh : "/d/c" ∉ (rootLog tree.files "./r").seen := by
    rw [rootLog, hidentity]
    decide
  have hrun : Source.Including tree.files 0 (rootDirectory "./r") ["c"] (rootLog tree.files "./r")
      (.ok [.mk "/d/c" (split Source.Shared.leaf).2 []]) ((rootLog tree.files "./r").enter "/d/c") := by
    rw [rootDirectory_r]
    exact .next locate_c hfresh hleaf (by decide) (.done _ _ _) (.done _ _ _)
  refine (load_of_ok (Source.Rooting.including contents_r hrun).run_loadRoot).mpr ⟨?_, by decide⟩
  cbv

end Beside

theorem load_byName_beside :
    Beside.tree.files.AtWork "r" ∧ Path.components "r" = [.normal "r"] ∧ ByName Beside.tree.files "r" ∧
    load Beside.tree.files "./r" = .ok { domain := "acme" } ∧
    ∃ reason, load Beside.tree.files "r" = .error (.noDirectory "" reason) := by
  have hname := load_byName Beside.atWork Beside.components_r
  have value := (contents_current Beside.atWork).mp Beside.contents_r
  have located : locate Beside.tree.files (rootDirectory "./r") "c" = .ok "/d/c" := by
    rw [Beside.rootDirectory_r]
    exact Beside.locate_c
  obtain ⟨reason, -, hflaw⟩ := hname.unplaced _ "c" [] "/d/c" value rfl (by decide) located
  exact ⟨Beside.atWork, Beside.components_r, hname, Beside.load_r, reason, hflaw⟩

/-- a file may be loaded behind `./` and not by its bare name -/
theorem load_dependsOnSpelling : ¬∀ (t : FileTree) (file name : String),
    Path.components file = [.normal name] → ("./" ++ file).utf8ByteSize ≤ FileTree.pathLimit →
      ∀ s, load t.files file = .ok s ↔ load t.files ("./" ++ file) = .ok s := by
  intro hsame
  have hload := (hsame Beside.tree "r" "r" Beside.components_r (by decide) _).mpr Beside.load_r
  have alone := alone_of_load Beside.atWork Beside.components_r
    ((contents_current Beside.atWork).mp Beside.contents_r) hload
  cases alone

end Relay.Settings
