import Relay.Path
import Mathlib.Data.List.Basic

/-!
# Steps of paths

A path of one normal step takes this step from any directory that it is joined to (`components_join`), and
the step is named by what stands in front of its first slash (`name_eq_firstName`). Such a step leads
down (`isName_of_mem_components`); `unnamed_iff` lists what keeps a path from being one.

The directory of a path of one step is the empty path (`parent?_bare`), and that of the same path behind
`./` is `.` (`parent?_current`).

`ofNames` writes the path of some names from the root down. Its steps and its directory are read off the
names (`components_ofNames`, `parent?_ofNames`), and it lies in a directory if the names of the directory
come first (`startsWith_ofNames`).
-/

namespace Relay

namespace Text

theorem exists_split_eq_takeWhile (sep : Char) (cs : List Char) :
    ∃ runs, split sep cs = cs.takeWhile (· ≠ sep) :: runs := by
  induction cs with
  | nil => exact ⟨[], rfl⟩
  | cons c cs ih =>
    by_cases h : c = sep
    · subst h
      exact ⟨split c cs, by rw [split_cons_sep, List.takeWhile_cons_of_neg (by simp)]⟩
    · obtain ⟨runs, hs⟩ := ih
      exact ⟨runs, by rw [split_cons_of_ne h hs, List.takeWhile_cons_of_pos (by simpa using h)]⟩

end Text

namespace Path

/-! ## behind a slash -/

/-- the steps of a path with the given runs -/
def stepsOfRuns (absolute : Bool) (runs : List (List Char)) : List Component :=
  if absolute then .root :: runs.filterMap ofRun?
  else if runs.head? = some ['.'] then .current :: runs.tail.filterMap ofRun?
  else runs.filterMap ofRun?

theorem componentsOfChars_eq (cs : List Char) :
    componentsOfChars cs = stepsOfRuns (isAbsoluteChars cs) (Text.split '/' cs) := rfl

theorem stepsOfRuns_append (absolute : Bool) {runs : List (List Char)} (h : runs ≠ [])
    (more : List (List Char)) :
    stepsOfRuns absolute (runs ++ more) = stepsOfRuns absolute runs ++ more.filterMap ofRun? := by
  obtain ⟨run, runs, rfl⟩ := List.exists_cons_of_ne_nil h
  unfold stepsOfRuns
  rw [List.filterMap_append, List.cons_append, List.head?_cons, List.head?_cons, List.tail_cons,
    List.tail_cons, List.filterMap_append]
  cases absolute with
  | true => rfl
  | false =>
    by_cases hrun : some run = some ['.']
    · simp [hrun]
    · simp [hrun]

section
variable (cs ds : List Char)

theorem isAbsoluteChars_append (h : cs ≠ []) : isAbsoluteChars (cs ++ ds) = isAbsoluteChars cs := by
  obtain ⟨c, cs, rfl⟩ := List.exists_cons_of_ne_nil h
  by_cases hc : c = '/'
  · subst hc
    rfl
  · simp [isAbsoluteChars, hc]

/-- what stands behind a slash is added run by run -/
theorem componentsOfChars_append : componentsOfChars (cs ++ '/' :: ds) =
    componentsOfChars (cs ++ ['/']) ++ (Text.split '/' ds).filterMap ofRun? := by
  have habsolute : isAbsoluteChars (cs ++ '/' :: ds) = isAbsoluteChars (cs ++ ['/']) := by
    rw [List.append_cons, isAbsoluteChars_append _ ds (by simp)]
  have hnil : (Text.split '/' []).filterMap ofRun? = [] := rfl
  rw [componentsOfChars_eq, componentsOfChars_eq, Text.split_append_sep, Text.split_append_sep,
    stepsOfRuns_append _ (Text.split_ne_nil '/' cs), stepsOfRuns_append _ (Text.split_ne_nil '/' cs),
    habsolute, hnil, List.append_nil]

theorem componentsOfChars_slash (h : cs ≠ []) :
    componentsOfChars (cs ++ ['/']) = componentsOfChars cs := by
  have hnil : (Text.split '/' []).filterMap ofRun? = [] := rfl
  rw [componentsOfChars_eq, componentsOfChars_eq, Text.split_append_sep,
    stepsOfRuns_append _ (Text.split_ne_nil '/' cs), isAbsoluteChars_append cs ['/'] h, hnil,
    List.append_nil]

end

/-! ## steps -/

/-- a name that leads one step down: it neither stays in place nor goes back, and has no slash -/
structure IsName (name : String) : Prop where
  ne_empty : name ≠ ""
  ne_current : name ≠ "."
  ne_parent : name ≠ ".."
  slash_not_mem : '/' ∉ name.toList

theorem ofRun?_eq_normal_iff {run : List Char} {name : String} : ofRun? run = some (.normal name) ↔
    run = name.toList ∧ run ≠ [] ∧ run ≠ ['.'] ∧ run ≠ ['.', '.'] := by
  unfold ofRun?
  by_cases hnone : run = [] ∨ run = ['.']
  · rw [if_pos hnone]
    exact iff_of_false (by simp) fun ⟨_, hne, hcurrent, _⟩ => hnone.elim hne hcurrent
  · rw [if_neg hnone]
    rw [not_or] at hnone
    by_cases hparent : run = ['.', '.']
    · rw [if_pos hparent]
      exact iff_of_false (by simp) fun h => h.2.2.2 hparent
    · rw [if_neg hparent, Option.some.injEq, Component.normal.injEq]
      constructor
      · rintro rfl
        exact ⟨String.toList_ofList.symm, hnone.1, hnone.2, hparent⟩
      · rintro ⟨rfl, _⟩
        exact String.ofList_toList

/-- where a step of a path is from -/
theorem mem_stepsOfRuns {absolute : Bool} {runs : List (List Char)} {c : Component}
    (h : c ∈ stepsOfRuns absolute runs) :
    c = .root ∧ absolute = true ∨ c = .current ∨ ∃ run ∈ runs, ofRun? run = some c := by
  unfold stepsOfRuns at h
  cases absolute with
  | true =>
    rw [if_pos rfl] at h
    rcases List.mem_cons.mp h with rfl | h
    · exact .inl ⟨rfl, rfl⟩
    · exact .inr (.inr (List.mem_filterMap.mp h))
  | false =>
    rw [if_neg (by decide)] at h
    by_cases hhead : runs.head? = some ['.']
    · rw [if_pos hhead] at h
      rcases List.mem_cons.mp h with rfl | h
      · exact .inr (.inl rfl)
      · obtain ⟨run, hrun, hc⟩ := List.mem_filterMap.mp h
        exact .inr (.inr ⟨run, List.mem_of_mem_tail hrun, hc⟩)
    · rw [if_neg hhead] at h
      exact .inr (.inr (List.mem_filterMap.mp h))

theorem isName_of_mem_components {path name : String} (h : .normal name ∈ components path) :
    IsName name := by
  rcases mem_stepsOfRuns h with ⟨hroot, _⟩ | hcurrent | ⟨run, hrun, hname⟩
  · cases hroot
  · cases hcurrent
  · obtain ⟨rfl, hne, hcurrent, hparent⟩ := ofRun?_eq_normal_iff.mp hname
    refine ⟨?_, ?_, ?_, Text.not_mem_of_mem_split '/' path.toList _ hrun⟩
    · rintro rfl
      exact hne rfl
    · rintro rfl
      exact hcurrent rfl
    · rintro rfl
      exact hparent rfl

theorem isAbsolute_of_root_mem {path : String} (h : .root ∈ components path) :
    isAbsolute path = true := by
  rcases mem_stepsOfRuns h with ⟨_, habsolute⟩ | hcurrent | ⟨run, _, hroot⟩
  · exact habsolute
  · cases hcurrent
  · unfold ofRun? at hroot
    split at hroot
    · cases hroot
    · split at hroot
      · cases hroot
      · cases hroot

/-! ## joined paths -/

section
variable {directory path : String} (hne : directory ≠ "") (hrelative : isAbsolute path = false)
include hne hrelative

/-- a slash stands in front of what is joined, whether or not the directory ends in one -/
theorem exists_toList_join : ∃ cs, (directory.toList = cs ∨ directory.toList = cs ++ ['/']) ∧
    (join directory path).toList = cs ++ '/' :: path.toList := by
  unfold join
  rw [if_neg (by rw [hrelative]; decide)]
  cases hlast : directory.toList.getLast? with
  | none => exact absurd (String.toList_eq_nil_iff.mp (List.getLast?_eq_none_iff.mp hlast)) hne
  | some c =>
    obtain ⟨cs, hcs⟩ := List.getLast?_eq_some_iff.mp hlast
    by_cases hc : c = '/'
    · subst hc
      exact ⟨cs, .inr hcs, by simp [hcs]⟩
    · exact ⟨directory.toList, .inl rfl, by simp [hc]⟩

theorem isAbsolute_join : isAbsolute (join directory path) = isAbsolute directory := by
  obtain ⟨cs, hdirectory, hjoin⟩ := exists_toList_join hne hrelative
  have hchars : directory.toList ≠ [] := fun h => hne (String.toList_eq_nil_iff.mp h)
  rw [isAbsolute, isAbsolute, hjoin]
  rcases hdirectory with hdirectory | hdirectory
  · rw [hdirectory] at hchars ⊢
    exact isAbsoluteChars_append _ _ hchars
  · rw [hdirectory] at hchars ⊢
    rw [List.append_cons]
    exact isAbsoluteChars_append _ _ hchars

end

/-! ## paths of one step -/

/-- the name in front of the first slash -/
def firstName (path : String) : String := String.ofList (path.toList.takeWhile (· ≠ '/'))

theorem ofRun?_cases {run : List Char} (hne : run ≠ []) (hcurrent : run ≠ ['.']) :
    ofRun? run = some .parent ∨ ofRun? run = some (.normal (String.ofList run)) := by
  unfold ofRun?
  rw [if_neg (not_or.mpr ⟨hne, hcurrent⟩)]
  by_cases hparent : run = ['.', '.']
  · exact .inl (if_pos hparent)
  · exact .inr (if_neg hparent)

theorem of_stepsOfRuns_eq_normal {absolute : Bool} {runs : List (List Char)} {name : String}
    (h : stepsOfRuns absolute runs = [.normal name]) :
    absolute = false ∧ runs.head? ≠ some ['.'] ∧ runs.filterMap ofRun? = [.normal name] := by
  unfold stepsOfRuns at h
  cases absolute with
  | true =>
    rw [if_pos rfl] at h
    cases h
  | false =>
    rw [if_neg (by decide)] at h
    by_cases hhead : runs.head? = some ['.']
    · rw [if_pos hhead] at h
      cases h
    · rw [if_neg hhead] at h
      exact ⟨rfl, hhead, h⟩

theorem firstName_of_not_mem {path : String} (h : '/' ∉ path.toList) : firstName path = path := by
  obtain ⟨runs, hsplit⟩ := Text.exists_split_eq_takeWhile '/' path.toList
  rw [Text.split_of_not_mem h] at hsplit
  rw [firstName, ← (List.cons.inj hsplit).1, String.ofList_toList]

theorem firstRun_ne_nil {path : String} (hne : path ≠ "") (hrelative : isAbsolute path = false) :
    path.toList.takeWhile (· ≠ '/') ≠ [] := by
  intro hnil
  cases hpath : path.toList with
  | nil => exact hne (String.toList_eq_nil_iff.mp hpath)
  | cons c cs =>
    have hc : c ≠ '/' := by
      rintro rfl
      rw [isAbsolute, hpath] at hrelative
      cases hrelative
    rw [hpath, List.takeWhile_cons_of_pos (by simpa using hc)] at hnil
    cases hnil

theorem components_eq_nil_iff (path : String) : components path = [] ↔ path = "" := by
  refine ⟨fun hnil => Classical.byContradiction fun hne => ?_, fun h => h ▸ rfl⟩
  obtain ⟨runs, hsplit⟩ := Text.exists_split_eq_takeWhile '/' path.toList
  rw [components, componentsOfChars_eq, stepsOfRuns, hsplit] at hnil
  cases habsolute : isAbsoluteChars path.toList with
  | true =>
    rw [habsolute, if_pos rfl] at hnil
    cases hnil
  | false =>
    have hfirst := firstRun_ne_nil hne habsolute
    rw [habsolute, if_neg (by decide), List.head?_cons] at hnil
    by_cases hcurrent : path.toList.takeWhile (· ≠ '/') = ['.']
    · rw [if_pos (congrArg some hcurrent)] at hnil
      cases hnil
    · rw [if_neg (fun h => hcurrent (Option.some.inj h)), List.filterMap_cons] at hnil
      rcases ofRun?_cases hfirst hcurrent with hstep | hstep
      · rw [hstep] at hnil
        cases hnil
      · rw [hstep] at hnil
        cases hnil

/-- why a path is not a single name -/
inductive Unnamed (path : String) : Prop
  | empty (h : path = "")
  | absolute (h : isAbsolute path = true)
  | climbs (h : .parent ∈ components path)
  | stays (h : .current ∈ components path)
  | goesOn (h : 2 ≤ (components path).length)

theorem unnamed_iff (path : String) :
    Unnamed path ↔ ∀ name, components path ≠ [.normal name] := by
  constructor
  · intro h name hname
    cases h with
    | empty h =>
      rw [(components_eq_nil_iff path).mpr h] at hname
      cases hname
    | absolute h =>
      rw [isAbsolute, (of_stepsOfRuns_eq_normal hname).1] at h
      cases h
    | climbs h => simp [hname] at h
    | stays h => simp [hname] at h
    | goesOn h => simp [hname] at h
  · intro h
    match hpath : components path with
    | [] => exact .empty ((components_eq_nil_iff path).mp hpath)
    | [.root] => exact .absolute (isAbsolute_of_root_mem (hpath ▸ List.mem_cons_self))
    | [.current] => exact .stays (hpath ▸ List.mem_cons_self)
    | [.parent] => exact .climbs (hpath ▸ List.mem_cons_self)
    | [.normal name] => exact absurd hpath (h name)
    | _ :: _ :: _ => exact .goesOn (by rw [hpath]; simp)

section
variable {path name : String} (h : components path = [.normal name])
include h

/-- the run in front of the first slash takes the step, and those behind it take none -/
theorem exists_firstRun : ∃ runs, Text.split '/' path.toList = path.toList.takeWhile (· ≠ '/') :: runs ∧
    ofRun? (path.toList.takeWhile (· ≠ '/')) = some (.normal name) ∧ runs.filterMap ofRun? = [] := by
  obtain ⟨habsolute, hhead, hsteps⟩ := of_stepsOfRuns_eq_normal h
  obtain ⟨runs, hsplit⟩ := Text.exists_split_eq_takeWhile '/' path.toList
  rw [hsplit, List.filterMap_cons] at hsteps
  rw [hsplit, List.head?_cons] at hhead
  have hne : path ≠ "" := by
    rintro rfl
    cases h
  have hcurrent : path.toList.takeWhile (· ≠ '/') ≠ ['.'] := fun e => hhead (congrArg some e)
  obtain ⟨step, hstep⟩ : ∃ step, ofRun? (path.toList.takeWhile (· ≠ '/')) = some step := by
    rcases ofRun?_cases (firstRun_ne_nil hne habsolute) hcurrent with hstep | hstep
    · exact ⟨_, hstep⟩
    · exact ⟨_, hstep⟩
  rw [hstep] at hsteps
  obtain ⟨rfl, hruns⟩ := List.cons.inj hsteps
  exact ⟨runs, hsplit, hstep, hruns⟩

theorem name_eq_firstName : name = firstName path := by
  obtain ⟨_, _, hstep, _⟩ := exists_firstRun h
  rw [firstName, (ofRun?_eq_normal_iff.mp hstep).1, String.ofList_toList]

theorem components_join (root : String) :
    components (join root path) = components root ++ [.normal name] := by
  obtain ⟨habsolute, _, hruns⟩ := of_stepsOfRuns_eq_normal h
  by_cases hne : root = ""
  · subst hne
    rw [join, if_neg (by rw [isAbsolute, habsolute]; decide)]
    exact h
  · obtain ⟨cs, hroot, hjoin⟩ := exists_toList_join hne habsolute
    rw [components, hjoin, componentsOfChars_append, hruns, components]
    rcases hroot with hroot | hroot
    · have hcs : cs ≠ [] := by
        rintro rfl
        exact hne (String.toList_eq_nil_iff.mp hroot)
      rw [hroot, componentsOfChars_slash cs hcs]
    · rw [hroot]

end

/-! ## next to the working directory -/

theorem join_empty (path : String) : join "" path = path := by
  unfold join
  split <;> rfl

theorem join_current {path : String} (hrelative : isAbsolute path = false) :
    join "." path = "./" ++ path := by
  rw [join, if_neg (by rw [hrelative]; decide)]
  rfl

theorem isAbsolute_current (path : String) : isAbsolute ("./" ++ path) = false := by
  rw [isAbsolute, String.toList_append]
  rfl

theorem split_current (path : String) :
    Text.split '/' ("./" ++ path).toList = ['.'] :: Text.split '/' path.toList := by
  have hchars : ("./" ++ path).toList = ['.'] ++ '/' :: path.toList := String.toList_append
  rw [hchars, Text.split_append_sep]
  rfl

/-- what takes no step is left out behind a run -/
theorem trimRuns_cons {run : List Char} {runs : List (List Char)} (hrun : ofRun? run ≠ none)
    (hruns : runs.filterMap ofRun? = []) : trimRuns (run :: runs) = [run] := by
  have hnone : ∀ run, ofRun? run = none ↔ run = [] ∨ run = ['.'] := by
    intro run
    unfold ofRun?
    split
    · simp [*]
    · split <;> simp [*]
  rw [Ne, hnone] at hrun
  have hidle : ∀ run ∈ runs.reverse, decide (run = [] ∨ run = ['.']) = true := fun run h =>
    decide_eq_true ((hnone run).mp (List.filterMap_eq_nil_iff.mp hruns run (List.mem_reverse.mp h)))
  rw [trimRuns, List.reverse_cons, List.dropWhile_append_of_pos hidle,
    List.dropWhile_cons_of_neg (by simpa using hrun), List.reverse_singleton]

section
variable {path name : String} (h : components path = [.normal name])
include h

theorem exists_split_eq_cons : ∃ run runs, Text.split '/' path.toList = run :: runs ∧
    run ≠ ['.'] ∧ trimRuns (run :: runs) = [run] := by
  obtain ⟨runs, hsplit, hstep, hruns⟩ := exists_firstRun h
  obtain ⟨_, _, hcurrent, _⟩ := ofRun?_eq_normal_iff.mp hstep
  refine ⟨_, runs, hsplit, hcurrent, trimRuns_cons ?_ hruns⟩
  rw [hstep]
  exact Option.some_ne_none _

theorem isAbsolute_of_components : isAbsolute path = false := (of_stepsOfRuns_eq_normal h).1

/-- the directory of a bare name is the empty path -/
theorem parent?_bare : parent? path = some "" := by
  obtain ⟨run, runs, hsplit, hne, htrim⟩ := exists_split_eq_cons h
  have habsolute : isAbsoluteChars path.toList = false := isAbsolute_of_components h
  have hrelative : trimRelative (run :: runs) = [run] := by
    unfold trimRelative
    split
    · rename_i heq
      exact absurd (List.cons.inj heq).1 hne
    · exact htrim
  unfold parent?
  simp only [habsolute, hsplit, hrelative]
  rfl

theorem parent?_current : parent? ("./" ++ path) = some "." := by
  obtain ⟨run, runs, hsplit, -, htrim⟩ := exists_split_eq_cons h
  have habsolute : isAbsoluteChars ("./" ++ path).toList = false := isAbsolute_current path
  have hrelative : trimRelative (['.'] :: run :: runs) = [['.'], run] := by
    rw [trimRelative, htrim]
  unfold parent?
  simp only [habsolute, split_current, hsplit, hrelative]
  rfl

end

/-! ## paths from the root -/

/-- the path of some names, one below the other, from the root -/
def ofNames (names : List String) : String := "/" ++ "/".intercalate names

theorem toList_ofNames (names : List String) :
    (ofNames names).toList = '/' :: Text.join '/' (names.map String.toList) := by
  have hjoin : ("/".intercalate names).toList = Text.join '/' (names.map String.toList) := by
    induction names with
    | nil => rfl
    | cons name names ih =>
      cases names with
      | nil => simp [Text.join]
      | cons next names =>
        rw [String.intercalate_cons_cons]
        simp only [String.toList_append, ih, List.map_cons, Text.join]
        simp
  rw [ofNames, String.toList_append, hjoin]
  rfl

theorem isAbsolute_ofNames (names : List String) : isAbsolute (ofNames names) = true := by
  rw [isAbsolute, toList_ofNames]
  rfl

theorem ofRun?_name {name : String} (h : IsName name) : ofRun? name.toList = some (.normal name) := by
  refine ofRun?_eq_normal_iff.mpr ⟨rfl, ?_, ?_, ?_⟩
  · intro hnil
    exact h.ne_empty (String.toList_eq_nil_iff.mp hnil)
  · intro hdot
    exact h.ne_current (String.toList_inj.mp hdot)
  · intro hdots
    exact h.ne_parent (String.toList_inj.mp hdots)

section
variable {names : List String} (h : ∀ name ∈ names, IsName name)
include h

theorem split_ofNames : Text.split '/' (ofNames names).toList =
    [] :: if names = [] then [[]] else names.map String.toList := by
  rw [toList_ofNames, Text.split_cons_sep]
  by_cases hnil : names = []
  · subst hnil
    rfl
  · rw [if_neg hnil, Text.split_join (by simpa using hnil)]
    intro run hrun
    obtain ⟨name, hname, rfl⟩ := List.mem_map.mp hrun
    exact (h name hname).slash_not_mem

theorem components_ofNames : components (ofNames names) = .root :: names.map .normal := by
  have habsolute : isAbsoluteChars (ofNames names).toList = true := isAbsolute_ofNames names
  have hnames : (names.map String.toList).filterMap ofRun? = names.map .normal := by
    rw [List.filterMap_map]
    exact List.filterMap_eq_map_iff_forall_eq_some.mpr fun name hname => ofRun?_name (h name hname)
  rw [components, componentsOfChars_eq, habsolute, split_ofNames h, stepsOfRuns, if_pos rfl,
    List.filterMap_cons_none rfl]
  by_cases hnil : names = []
  · subst hnil
    rfl
  · rw [if_neg hnil, hnames]

theorem trimRuns_names : trimRuns (names.map String.toList) = names.map String.toList := by
  cases hlast : names.getLast? with
  | none =>
    rw [List.getLast?_eq_none_iff.mp hlast]
    rfl
  | some name =>
    obtain ⟨before, rfl⟩ := List.getLast?_eq_some_iff.mp hlast
    have hname : ¬(name.toList = [] ∨ name.toList = ['.']) := by
      have hstep := ofRun?_eq_normal_iff.mp (ofRun?_name (h name (by simp)))
      exact not_or.mpr ⟨hstep.2.1, hstep.2.2.1⟩
    rw [trimRuns, List.map_append, List.map_singleton, List.reverse_append, List.reverse_singleton,
      List.singleton_append, List.dropWhile_cons_of_neg (by simpa using hname), List.reverse_cons,
      List.reverse_reverse]

end

/-- the directory of a path from the root is the path without the last name -/
theorem parent?_ofNames {names : List String} {last : String}
    (h : ∀ name ∈ names ++ [last], IsName name) :
    parent? (ofNames (names ++ [last])) = some (ofNames names) := by
  have habsolute : isAbsoluteChars (ofNames (names ++ [last])).toList = true := isAbsolute_ofNames _
  have hnames : ∀ name ∈ names, IsName name := fun name hname => h name (List.mem_append_left _ hname)
  have hdrop : ((names ++ [last]).map String.toList).dropLast = names.map String.toList := by simp
  have htrim : trimRuns (Text.split '/' (ofNames (names ++ [last])).toList).tail =
      (names ++ [last]).map String.toList := by
    rw [split_ofNames h, List.tail_cons, if_neg (by simp), trimRuns_names h]
  obtain ⟨run, runs, hcons⟩ : ∃ run runs, (names ++ [last]).map String.toList = run :: runs :=
    List.exists_cons_of_ne_nil (by simp)
  rw [hcons] at htrim
  unfold parent?
  simp only [habsolute, if_true, htrim]
  rw [← hcons, hdrop, trimRuns_names hnames, ← toList_ofNames, String.ofList_toList]

theorem parent?_root : parent? (ofNames []) = none := by decide +kernel

/-! ## directories -/

theorem startsWith_iff {path directory : String} :
    startsWith path directory = true ↔ components directory <+: components path :=
  List.isPrefixOf_iff_prefix

theorem startsWith_self (path : String) : startsWith path path = true :=
  startsWith_iff.mpr (List.prefix_refl _)

theorem startsWith_trans {path below directory : String} (h : startsWith path below = true)
    (hbelow : startsWith below directory = true) : startsWith path directory = true :=
  startsWith_iff.mpr ((startsWith_iff.mp hbelow).trans (startsWith_iff.mp h))

section
variable {names top : List String} (h : ∀ name ∈ names, IsName name)
  (htop : ∀ name ∈ top, IsName name)
include h htop

theorem startsWith_ofNames : startsWith (ofNames names) (ofNames top) = true ↔ top <+: names := by
  have hinjective : Function.Injective Component.normal := fun _ _ => Component.normal.inj
  rw [startsWith_iff, components_ofNames h, components_ofNames htop, List.cons_prefix_cons,
    List.prefix_map_iff_of_injective hinjective]
  exact ⟨fun hprefix => hprefix.2, fun hprefix => ⟨rfl, hprefix⟩⟩

/-- what is below a directory has its own directory there -/
theorem exists_parent_of_startsWith (hinside : startsWith (ofNames names) (ofNames top) = true)
    (hne : names ≠ top) : ∃ directory, parent? (ofNames names) = some directory ∧
      startsWith directory (ofNames top) = true := by
  have hprefix := (startsWith_ofNames h htop).mp hinside
  rcases List.eq_nil_or_concat' names with rfl | ⟨before, last, rfl⟩
  · exact absurd (List.prefix_nil.mp hprefix).symm hne
  · have hbefore : ∀ name ∈ before, IsName name := fun name hname =>
      h name (List.mem_append_left _ hname)
    refine ⟨ofNames before, parent?_ofNames h, (startsWith_ofNames hbefore htop).mpr ?_⟩
    rcases List.prefix_concat_iff.mp hprefix with heq | hprefix
    · exact absurd heq.symm hne
    · exact hprefix

end

end Path

end Relay
