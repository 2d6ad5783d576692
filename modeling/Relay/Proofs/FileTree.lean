import Relay.FileTree
import Relay.Proofs.Checks
import Relay.Proofs.Path

/-!
# Places in file trees

A place is real if it is reached from the root through directories and no link: `Real.walks` says that
steps from a real place end at a real one, whatever links they follow, and `resolve_pathOf` that the path
of a real place leads to it. A path that is resolved through another one finds a directory there
(`directory_of_resolve_join`), and `./` in front of a relative path changes nothing (`resolve_current`).

`Files.Lawful` and `Files.AtWork` are what loading expects of files. File trees have both.
-/

namespace Relay

namespace FileTree

/-! ## steps -/

theorem steps_eq (path : String) : steps path = (Text.split '/' path.toList).map String.ofList := rfl

theorem slash_not_mem_of_mem_steps {path step : String} (h : step ∈ steps path) :
    '/' ∉ step.toList := by
  obtain ⟨run, hrun, rfl⟩ := List.mem_map.mp h
  rw [String.toList_ofList]
  exact Text.not_mem_of_mem_split '/' path.toList run hrun

theorem steps_ne_nil (path : String) : steps path ≠ [] := by
  rw [steps_eq, Ne, List.map_eq_nil_iff]
  exact Text.split_ne_nil '/' path.toList

theorem steps_ofNames {names : List String} (h : ∀ name ∈ names, Path.IsName name) :
    steps (Path.ofNames names) = "" :: if names = [] then [""] else names := by
  rw [steps_eq, Path.split_ofNames h, List.map_cons]
  by_cases hnil : names = []
  · rw [if_pos hnil, if_pos hnil]
    rfl
  · rw [if_neg hnil, if_neg hnil, List.map_map]
    have hid : String.ofList ∘ String.toList = id := funext fun name => String.ofList_toList
    rw [hid, List.map_id]

/-! ## walking -/

/-- a step that leads to what it names -/
structure Leads (t : FileTree) (here : Place) (step : String) (node : Node) : Prop where
  directory : t.node? here = some .directory
  ne_empty : step ≠ ""
  ne_current : step ≠ "."
  ne_parent : step ≠ ".."
  node : t.node? (step :: here) = some node

/-- a walk that comes to an end -/
inductive Walks (t : FileTree) : (links : Nat) → (here : Place) → List String → (place : Place) → Prop
  | done (links : Nat) (here : Place) : Walks t links here [] here
  | stay {links : Nat} {here place : Place} {step : String} {rest : List String}
      (directory : t.node? here = some .directory) (skip : step = "" ∨ step = ".")
      (onward : Walks t links here rest place) : Walks t links here (step :: rest) place
  | back {links : Nat} {here place : Place} {rest : List String}
      (directory : t.node? here = some .directory) (onward : Walks t links here.tail rest place) :
      Walks t links here (".." :: rest) place
  | follow {links : Nat} {here place : Place} {step target : String} {rest : List String}
      (leads : Leads t here step (.link target))
      (onward : Walks t links (if Path.isAbsolute target then [] else here) (steps target ++ rest) place) :
      Walks t (links + 1) here (step :: rest) place
  | enter {links : Nat} {here place : Place} {step : String} {node : Node} {rest : List String}
      (leads : Leads t here step node) (real : ∀ target, node ≠ .link target)
      (onward : Walks t links (step :: here) rest place) : Walks t links here (step :: rest) place

section
variable {t : FileTree} {links : Nat} {here place : Place} {step : String} {path more : List String}

theorem Walks.walk_eq (h : Walks t links here path place) : walk t links here path = .ok place := by
  induction h with
  | done => rw [walk]
  | stay directory skip _ ih => rw [walk, if_neg (not_not.mpr directory), if_pos skip, ih]
  | back directory _ ih =>
    rw [walk, if_neg (not_not.mpr directory), if_neg (by decide), if_pos rfl, ih]
  | follow leads _ ih =>
    rw [walk, if_neg (not_not.mpr leads.directory),
      if_neg (not_or.mpr ⟨leads.ne_empty, leads.ne_current⟩), if_neg leads.ne_parent, leads.node]
    exact ih
  | @enter _ _ _ _ node _ leads real _ ih =>
    rw [walk, if_neg (not_not.mpr leads.directory),
      if_neg (not_or.mpr ⟨leads.ne_empty, leads.ne_current⟩), if_neg leads.ne_parent, leads.node]
    cases node with
    | link target => exact absurd rfl (real target)
    | file => exact ih
    | directory => exact ih

theorem walks_of_walk_eq (h : walk t links here path = .ok place) : Walks t links here path place := by
  induction links, here, path using walk.induct t with
  | case1 links here =>
    rw [walk] at h
    obtain rfl := Except.ok.inj h
    exact .done links here
  | case2 links here step rest hdirectory =>
    rw [walk, if_pos hdirectory] at h
    cases h
  | case3 links here step rest hdirectory hskip ih =>
    rw [walk, if_neg hdirectory, if_pos hskip] at h
    exact .stay (not_not.mp hdirectory) hskip (ih h)
  | case4 links here rest hdirectory hskip ih =>
    rw [walk, if_neg hdirectory, if_neg hskip, if_pos rfl] at h
    exact .back (not_not.mp hdirectory) (ih h)
  | case5 links here step rest hdirectory hskip hparent hnode =>
    rw [walk, if_neg hdirectory, if_neg hskip, if_neg hparent, hnode] at h
    cases h
  | case6 here step rest hdirectory hskip hparent target hnode =>
    rw [walk, if_neg hdirectory, if_neg hskip, if_neg hparent, hnode] at h
    cases h
  | case7 here step rest hdirectory hskip hparent target hnode links ih =>
    rw [walk, if_neg hdirectory, if_neg hskip, if_neg hparent, hnode] at h
    obtain ⟨hempty, hcurrent⟩ := not_or.mp hskip
    exact .follow ⟨not_not.mp hdirectory, hempty, hcurrent, hparent, hnode⟩ (ih h)
  | case8 links here step rest hdirectory hskip hparent node hreal hnode ih =>
    rw [walk, if_neg hdirectory, if_neg hskip, if_neg hparent, hnode] at h
    obtain ⟨hempty, hcurrent⟩ := not_or.mp hskip
    refine .enter ⟨not_not.mp hdirectory, hempty, hcurrent, hparent, hnode⟩ hreal (ih ?_)
    cases node with
    | link target => exact (hreal target rfl).elim
    | file => exact h
    | directory => exact h

theorem walk_eq_ok_iff : walk t links here path = .ok place ↔ Walks t links here path place :=
  ⟨walks_of_walk_eq, Walks.walk_eq⟩

theorem Walks.unique {other : Place} (h : Walks t links here path place)
    (hother : Walks t links here path other) : other = place :=
  Except.ok.inj (hother.walk_eq.symm.trans h.walk_eq)

theorem Walks.directory (h : Walks t links here (step :: path) place) :
    t.node? here = some .directory := by
  cases h with
  | stay directory => exact directory
  | back directory => exact directory
  | follow leads => exact leads.directory
  | enter leads => exact leads.directory

/-- the first steps of a walk end somewhere, and the others go on from there -/
theorem Walks.split (h : Walks t links here (path ++ more) place) :
    ∃ left middle, Walks t links here path middle ∧ Walks t left middle more place := by
  generalize hwhole : path ++ more = whole at h
  induction h generalizing path with
  | done links here =>
    obtain ⟨rfl, rfl⟩ := List.append_eq_nil_iff.mp hwhole
    exact ⟨links, here, .done links here, .done links here⟩
  | @stay links here place step rest directory skip onward ih =>
    cases path with
    | nil =>
      obtain rfl := hwhole
      exact ⟨links, here, .done links here, .stay directory skip onward⟩
    | cons step' path =>
      obtain ⟨rfl, hrest⟩ := List.cons.inj hwhole
      obtain ⟨left, middle, hpath, hmore⟩ := ih hrest
      exact ⟨left, middle, .stay directory skip hpath, hmore⟩
  | @back links here place rest directory onward ih =>
    cases path with
    | nil =>
      obtain rfl := hwhole
      exact ⟨links, here, .done links here, .back directory onward⟩
    | cons step' path =>
      obtain ⟨rfl, hrest⟩ := List.cons.inj hwhole
      obtain ⟨left, middle, hpath, hmore⟩ := ih hrest
      exact ⟨left, middle, .back directory hpath, hmore⟩
  | @follow links here place step target rest leads onward ih =>
    cases path with
    | nil =>
      obtain rfl := hwhole
      exact ⟨links + 1, here, .done (links + 1) here, .follow leads onward⟩
    | cons step' path =>
      -- the steps of the link stand in front of what is left of the first ones
      obtain ⟨rfl, hrest⟩ := List.cons.inj hwhole
      obtain ⟨left, middle, hpath, hmore⟩ := ih ((List.append_assoc _ path more).trans (congrArg _ hrest))
      exact ⟨left, middle, .follow leads hpath, hmore⟩
  | @enter links here place step node rest leads real onward ih =>
    cases path with
    | nil =>
      obtain rfl := hwhole
      exact ⟨links, here, .done links here, .enter leads real onward⟩
    | cons step' path =>
      obtain ⟨rfl, hrest⟩ := List.cons.inj hwhole
      obtain ⟨left, middle, hpath, hmore⟩ := ih hrest
      exact ⟨left, middle, .enter leads real hpath, hmore⟩

end

/-! ## real places -/

/-- a place that is reached from the root through directories and no link -/
inductive Real (t : FileTree) : Place → Prop
  | root (directory : t.node? [] = some .directory) : Real t []
  | child {place : Place} {name : String} {node : Node} (above : Real t place) (isName : Path.IsName name)
      (leads : Leads t place name node) (real : ∀ target, node ≠ .link target) : Real t (name :: place)

section
variable {t : FileTree} {links : Nat} {here place : Place} {path rest : List String}

theorem Real.directory_root (h : t.Real place) : t.node? [] = some .directory := by
  induction h with
  | root directory => exact directory
  | child _ _ _ _ ih => exact ih

theorem Real.tail (h : t.Real place) : t.Real place.tail := by
  cases h with
  | root directory => exact .root directory
  | child above => exact above

theorem Real.isName (h : t.Real place) : ∀ name ∈ place, Path.IsName name := by
  induction h with
  | root => exact fun _ hname => absurd hname List.not_mem_nil
  | child _ isName _ _ ih => exact List.forall_mem_cons.mpr ⟨isName, ih⟩

theorem Walks.real (h : Walks t links here path place) (hreal : t.Real here)
    (hpath : ∀ step ∈ path, '/' ∉ step.toList) : t.Real place := by
  induction h with
  | done => exact hreal
  | stay _ _ _ ih => exact ih hreal (List.forall_mem_cons.mp hpath).2
  | back _ _ ih => exact ih hreal.tail (List.forall_mem_cons.mp hpath).2
  | @follow _ here _ _ target rest _ _ ih =>
    have hsteps : ∀ step ∈ steps target ++ rest, '/' ∉ step.toList := by
      intro step hstep
      rcases List.mem_append.mp hstep with hstep | hstep
      · exact slash_not_mem_of_mem_steps hstep
      · exact hpath step (List.mem_cons_of_mem _ hstep)
    refine ih ?_ hsteps
    cases Path.isAbsolute target with
    | true => exact .root hreal.directory_root
    | false => exact hreal
  | enter leads real _ ih =>
    obtain ⟨hstep, hrest⟩ := List.forall_mem_cons.mp hpath
    exact ih (.child hreal ⟨leads.ne_empty, leads.ne_current, leads.ne_parent, hstep⟩ leads real) hrest

/-- the names of a real place lead to it from the root -/
theorem Real.walks (h : t.Real here) (onward : Walks t links here rest place) :
    Walks t links [] (here.reverse ++ rest) place := by
  induction h generalizing rest with
  | root => exact onward
  | child _ _ leads real ih =>
    rw [List.reverse_cons, List.append_assoc]
    exact ih (.enter leads real onward)

end

/-! ## resolving -/

theorem pathOf_eq (place : Place) : pathOf place = Path.ofNames place.reverse := rfl

/-- where the steps of a path start -/
def start (t : FileTree) (path : String) : Place :=
  if Path.isAbsolute path then [] else t.workingPlace

section
variable {t : FileTree} {path directory name : String} {place top : Place}

theorem resolve_eq_ok_iff : t.resolve path = .ok place ↔
    path ≠ "" ∧ Walks t linkLimit (t.start path) (steps path) place := by
  unfold resolve
  by_cases hempty : path = ""
  · rw [if_pos hempty]
    exact iff_of_false (by simp) fun h => h.1 hempty
  · rw [if_neg hempty]
    exact walk_eq_ok_iff.trans ⟨fun h => ⟨hempty, h⟩, fun h => h.2⟩

theorem Real.resolve_pathOf (h : t.Real place) : t.resolve (pathOf place) = .ok place := by
  have hnames : ∀ name ∈ place.reverse, Path.IsName name := fun name hname =>
    h.isName name (List.mem_reverse.mp hname)
  have habsolute : Path.isAbsolute (pathOf place) = true := Path.isAbsolute_ofNames _
  have hstart : t.start (pathOf place) = [] := if_pos habsolute
  refine resolve_eq_ok_iff.mpr ⟨?_, ?_⟩
  · intro hempty
    rw [hempty] at habsolute
    cases habsolute
  · -- the path starts with a slash, and that of the root has nothing behind it
    rw [hstart, pathOf_eq, steps_ofNames hnames]
    refine .stay h.directory_root (.inl rfl) ?_
    by_cases hroot : place = []
    · subst hroot
      exact .stay h.directory_root (.inl rfl) (.done _ _)
    · rw [if_neg (by simpa using hroot), ← List.append_nil place.reverse]
      exact h.walks (.done _ _)

theorem real_of_resolve (hworking : t.Real t.workingPlace) (h : t.resolve path = .ok place) :
    t.Real place := by
  have hstart : t.Real (t.start path) := by
    unfold start
    cases Path.isAbsolute path with
    | true => exact .root hworking.directory_root
    | false => exact hworking
  exact (resolve_eq_ok_iff.mp h).2.real hstart fun step => slash_not_mem_of_mem_steps

/-- the steps of a joined path are those of the directory, and then the others -/
theorem exists_steps_join (hne : directory ≠ "") (hrelative : Path.isAbsolute name = false) :
    ∃ before, (steps directory = before ∨ steps directory = before ++ [""]) ∧
      steps (Path.join directory name) = before ++ steps name := by
  obtain ⟨cs, hdirectory, hjoin⟩ := Path.exists_toList_join hne hrelative
  refine ⟨(Text.split '/' cs).map String.ofList, ?_, ?_⟩
  · rcases hdirectory with hdirectory | hdirectory
    · exact .inl (by rw [steps_eq, hdirectory])
    · refine .inr ?_
      rw [steps_eq, hdirectory, Text.split_append_sep, List.map_append]
      rfl
  · rw [steps_eq, hjoin, Text.split_append_sep, List.map_append, ← steps_eq]

/-- what a name is looked for in is a directory -/
theorem directory_of_resolve_join (hrelative : Path.isAbsolute name = false)
    (hjoin : t.resolve (Path.join directory name) = .ok place) (htop : t.resolve directory = .ok top) :
    t.node? top = some .directory := by
  obtain ⟨hne, htop⟩ := resolve_eq_ok_iff.mp htop
  obtain ⟨before, hbefore, hsteps⟩ := exists_steps_join hne hrelative
  have hstart : t.start (Path.join directory name) = t.start directory := by
    rw [start, start, Path.isAbsolute_join hne hrelative]
  have hjoin := (resolve_eq_ok_iff.mp hjoin).2
  rw [hsteps, hstart] at hjoin
  obtain ⟨left, middle, hmiddle, hmore⟩ := hjoin.split
  have hdirectory : t.node? middle = some .directory := by
    obtain ⟨step, more, hcons⟩ := List.exists_cons_of_ne_nil (steps_ne_nil name)
    rw [hcons] at hmore
    exact hmore.directory
  rcases hbefore with hbefore | hbefore
  · rw [hbefore] at htop
    rwa [hmiddle.unique htop]
  · -- a closing slash asks for a directory, and stays in it
    rw [hbefore] at htop
    obtain ⟨_, middle', hmiddle', hslash⟩ := htop.split
    obtain rfl := hmiddle.unique hmiddle'
    rwa [(Walks.stay hdirectory (.inl rfl) (.done _ _)).unique hslash]

end

section
variable {path : String}

theorem steps_current : steps ("./" ++ path) = "." :: steps path := by
  rw [steps_eq, Path.split_current, List.map_cons]
  rfl

theorem resolve_of_relative (t : FileTree) (hne : path ≠ "") (hrelative : Path.isAbsolute path = false) :
    t.resolve path = walk t linkLimit t.workingPlace (steps path) := by
  rw [resolve, if_neg hne, hrelative]
  rfl

/-- a step that stays in place asks for a directory there, as any other first step does -/
theorem resolve_current (t : FileTree) (hne : path ≠ "") (hrelative : Path.isAbsolute path = false) :
    t.resolve ("./" ++ path) = t.resolve path := by
  rw [resolve_of_relative t (by simp) (Path.isAbsolute_current path),
    resolve_of_relative t hne hrelative, steps_current, walk]
  by_cases hdirectory : t.node? t.workingPlace = some .directory
  · rw [if_neg (not_not.mpr hdirectory), if_pos (.inr rfl)]
  · obtain ⟨step, rest, hsteps⟩ := List.exists_cons_of_ne_nil (steps_ne_nil path)
    rw [if_pos hdirectory, hsteps, walk, if_pos hdirectory]

end

/-! ## canonical paths -/

end FileTree

/-- what is expected of files: a canonical path goes down from the root by names, it and its directories
are canonical themselves, and what a name is found in is a directory, which has no text -/
structure Settings.Files.Lawful (files : Settings.Files) : Prop where
  names : ∀ path found, files.canonical path = .ok found →
    ∃ names, found = Path.ofNames names ∧ ∀ name ∈ names, Path.IsName name
  fixed : ∀ path found, files.canonical path = .ok found → files.canonical found = .ok found
  parent : ∀ found directory, files.canonical found = .ok found →
    Path.parent? found = some directory → files.canonical directory = .ok directory
  directory : ∀ directory name found top text, Path.isAbsolute name = false →
    files.canonical (Path.join directory name) = .ok found → files.canonical directory = .ok top →
      files.read top ≠ .ok text

/-- what is expected of files next to a file in the working directory: `./` in front of a relative path
changes nothing, and the empty path leads nowhere -/
structure Settings.Files.AtWork (files : Settings.Files) (file : String) : Prop where
  read : ∀ text, files.read ("./" ++ file) = .ok text ↔ files.read file = .ok text
  canonical : ∀ path, path ≠ "" → Path.isAbsolute path = false →
    files.canonical ("./" ++ path) = files.canonical path
  empty : ∀ found, files.canonical "" ≠ .ok found

namespace FileTree

section
variable {t : FileTree} {path found text : String} {place : Place}

theorem canonical_eq_ok_iff : t.files.canonical path = .ok found ↔
    ∃ place, t.resolve path = .ok place ∧ found = pathOf place := by
  refine Checks.mapError_eq_ok_iff.trans (Checks.map_eq_ok_iff.trans ?_)
  exact exists_congr fun place => and_congr_right fun _ => eq_comm

theorem exists_real (hworking : t.Real t.workingPlace) (h : t.files.canonical path = .ok found) :
    ∃ place, t.Real place ∧ found = pathOf place := by
  obtain ⟨place, hplace, rfl⟩ := canonical_eq_ok_iff.mp h
  exact ⟨place, real_of_resolve hworking hplace, rfl⟩

theorem Real.canonical_pathOf (h : t.Real place) :
    t.files.canonical (pathOf place) = .ok (pathOf place) :=
  canonical_eq_ok_iff.mpr ⟨place, h.resolve_pathOf, rfl⟩

theorem Real.parent_pathOf {name : String} (h : t.Real (name :: place)) :
    Path.parent? (pathOf (name :: place)) = some (pathOf place) := by
  have hnames : ∀ name' ∈ place.reverse ++ [name], Path.IsName name' := by
    intro name' hname
    rw [← List.reverse_cons, List.mem_reverse] at hname
    exact h.isName name' hname
  rw [pathOf_eq, List.reverse_cons, Path.parent?_ofNames hnames]
  rfl

theorem read_eq_ok_iff : t.files.read path = .ok text ↔
    path.utf8ByteSize ≤ pathLimit ∧ ∃ place, t.resolve path = .ok place ∧
      t.node? place = some (.file text) := by
  refine Checks.mapError_eq_ok_iff.trans ?_
  unfold read
  by_cases hlong : pathLimit < path.utf8ByteSize
  · rw [if_pos hlong]
    exact iff_of_false (by rintro ⟨⟩) fun h => absurd h.1 (Nat.not_le.mpr hlong)
  · rw [if_neg hlong]
    refine Checks.bind_eq_ok_iff.trans ?_
    rw [and_iff_right (Nat.not_lt.mp hlong)]
    refine exists_congr fun place => and_congr_right fun _ => ?_
    constructor
    · intro h
      split at h
      · rename_i text' hfile
        cases h
        exact hfile
      · cases h
      · cases h
    · intro hfile
      rw [hfile]
      rfl

theorem canonical_of_resolve (hplace : t.resolve path = .ok place) (hfound : found = pathOf place) :
    t.files.canonical path = .ok found :=
  canonical_eq_ok_iff.mpr ⟨place, hplace, hfound⟩

theorem contents_of_resolve {whole : Toml} (hplace : t.resolve path = .ok place)
    (hshort : path.utf8ByteSize ≤ pathLimit) (hfile : t.node? place = some (.file text))
    (hparse : Toml.parse? text = some whole) : Settings.Source.contents t.files path = .ok whole := by
  rw [Settings.Source.contents, read_eq_ok_iff.mpr ⟨hshort, place, hplace, hfile⟩]
  simp only [hparse]

/-- a leading `.` changes nothing, unless it makes a path too long to be read -/
theorem atWork_files (t : FileTree) {file : String} (hne : file ≠ "")
    (hrelative : Path.isAbsolute file = false) (hshort : file.utf8ByteSize + 2 ≤ pathLimit) :
    t.files.AtWork file := by
  constructor
  case read =>
    intro text
    have hcurrent : ("./" ++ file).utf8ByteSize ≤ pathLimit := by
      rw [String.utf8ByteSize_append, Nat.add_comm]
      exact hshort
    rw [read_eq_ok_iff, read_eq_ok_iff, t.resolve_current hne hrelative, and_iff_right hcurrent,
      and_iff_right (Nat.le_of_add_right_le hshort)]
  case canonical =>
    intro path hne hrelative
    show ((t.resolve _).map _).mapError _ = _
    rw [t.resolve_current hne hrelative]
    rfl
  case empty =>
    intro found hfound
    obtain ⟨place, hplace, -⟩ := canonical_eq_ok_iff.mp hfound
    exact (resolve_eq_ok_iff.mp hplace).1 rfl

/-- **file trees are lawful** -/
theorem lawful_files (hworking : t.Real t.workingPlace) : t.files.Lawful := by
  constructor
  case names =>
    intro path found h
    obtain ⟨place, hplace, rfl⟩ := exists_real hworking h
    exact ⟨place.reverse, rfl, fun name hname => hplace.isName name (List.mem_reverse.mp hname)⟩
  case fixed =>
    intro path found h
    obtain ⟨place, hplace, rfl⟩ := exists_real hworking h
    exact hplace.canonical_pathOf
  case parent =>
    intro found directory h hparent
    obtain ⟨place, hplace, rfl⟩ := exists_real hworking h
    cases hplace with
    | root => cases Path.parent?_root.symm.trans hparent
    | child above isName leads real =>
      obtain rfl := Option.some.inj ((above.child isName leads real).parent_pathOf.symm.trans hparent)
      exact above.canonical_pathOf
  case directory =>
    intro directory name found top text hrelative hfound htop hread
    obtain ⟨_, hplace, _⟩ := canonical_eq_ok_iff.mp hfound
    obtain ⟨place, hdirectory, rfl⟩ := canonical_eq_ok_iff.mp htop
    obtain ⟨_, other, hother, hfile⟩ := read_eq_ok_iff.mp hread
    have hreal := real_of_resolve hworking hdirectory
    obtain rfl := Except.ok.inj (hreal.resolve_pathOf.symm.trans hother)
    rw [directory_of_resolve_join hrelative hplace hdirectory] at hfile
    cases hfile

end

end FileTree

end Relay
