import Relay.Settings.Source

/-!
# Including files

`Including` tells how the files of a list of names are included, one name after the other, down to the
files that an included file includes itself. It has a rule for each way in which a name may turn out. The
depth is counted from the root downwards, and nothing else is counted, so that a derivation is a run that
has come to its end; `Rooting` is the run for a root.

There is always such a run (`exists_including`), and it is the one that is made when files are loaded
(`Including.run_mapM`), so that `Rooting` holds of what comes of a root and of nothing else (`rooting_iff`).
What holds of loading is proved by induction on `Including`.
-/

namespace Relay.Settings.Source

/-! ## one after the other -/

section
variable {α β : Type} (log : Log)

theorem run_throw (flaw : Flaw) : (throw flaw : Loading α).run log = (.error flaw, log) := rfl

theorem run_bind (m : Loading α) (f : α → Loading β) : (m >>= f).run log =
    match m.run log with
    | (.ok a, log') => (f a).run log'
    | (.error flaw, log') => (.error flaw, log') := by
  have hbind : (m >>= f).run log = StateT.bind m.run (ExceptT.bindCont f) log := rfl
  rw [hbind, StateT.bind]
  obtain ⟨outcome, log'⟩ := m.run log
  cases outcome with
  | ok a => rfl
  | error flaw => rfl

end

section
variable (files : Files) {name path : String} {log : Log}

theorem run_visit_of_seen (h : path ∈ log.seen) :
    (visit name path).run log = (.error (.circular name), log) := by
  unfold visit
  rw [run_bind]
  show ((if path ∈ log.seen then _ else _ : Loading Unit)).run log = _
  rw [if_pos h]
  rfl

theorem run_visit_of_fresh (h : path ∉ log.seen) :
    (visit name path).run log = (.ok (), log.see path) := by
  unfold visit
  rw [run_bind]
  show ((if path ∈ log.seen then _ else _ : Loading Unit)).run log = _
  rw [if_neg h]
  rfl

theorem run_readValue : (readValue files path).run log = (contents files path, log.read path) := rfl

end

/-! ## runs -/

/-- the log once a file is included -/
def Log.enter (path : String) (log : Log) : Log := (log.see path).read path

/-- what comes of the names of files in a directory, `depth` below the root, and of the log -/
inductive Including (files : Files) : (depth : Nat) → (directory : String) → List String → Log →
    Except Flaw (List Source) → Log → Prop
  | done (depth : Nat) (directory : String) (log : Log) :
      Including files depth directory [] log (.ok []) log
  | refused {depth : Nat} {directory name : String} {names : List String} {log : Log} {flaw : Flaw}
      (located : locate files directory name = .error flaw) :
      Including files depth directory (name :: names) log (.error flaw) log
  | circular {depth : Nat} {directory name found : String} {names : List String} {log : Log}
      (located : locate files directory name = .ok found) (seen : found ∈ log.seen) :
      Including files depth directory (name :: names) log (.error (.circular name)) log
  | unread {depth : Nat} {directory name found : String} {names : List String} {log : Log} {flaw : Flaw}
      (located : locate files directory name = .ok found) (fresh : found ∉ log.seen)
      (value : contents files found = .error flaw) :
      Including files depth directory (name :: names) log (.error flaw) (log.enter found)
  | tooDeep {depth : Nat} {directory name found : String} {names : List String} {log : Log}
      {whole : Toml} (located : locate files directory name = .ok found) (fresh : found ∉ log.seen)
      (value : contents files found = .ok whole) (deep : depthLimit ≤ depth) :
      Including files depth directory (name :: names) log (.error (.tooDeep depthLimit))
        (log.enter found)
  | broken {depth : Nat} {directory name found : String} {names : List String} {log log' : Log}
      {whole : Toml} {flaw : Flaw} (located : locate files directory name = .ok found)
      (fresh : found ∉ log.seen) (value : contents files found = .ok whole)
      (within : depth < depthLimit)
      (inner : Including files (depth + 1) (directoryOf found directory) (split whole).1
        (log.enter found) (.error flaw) log') :
      Including files depth directory (name :: names) log (.error flaw) log'
  | next {depth : Nat} {directory name found : String} {names : List String} {log log' log'' : Log}
      {whole : Toml} {includes : List Source} {outcome : Except Flaw (List Source)}
      (located : locate files directory name = .ok found) (fresh : found ∉ log.seen)
      (value : contents files found = .ok whole) (within : depth < depthLimit)
      (inner : Including files (depth + 1) (directoryOf found directory) (split whole).1
        (log.enter found) (.ok includes) log')
      (rest : Including files depth directory names log' outcome log'') :
      Including files depth directory (name :: names) log
        (outcome.map (.mk found (split whole).2 includes :: ·)) log''

/-- the log when the root has been read -/
def rootLog (files : Files) (path : String) : Log := ⟨[identity files path], [path]⟩

/-- what comes of a root, and what is noted meanwhile -/
inductive Rooting (files : Files) (path : String) : Except Flaw Source → Log → Prop
  | unread {flaw : Flaw} (value : contents files path = .error flaw) :
      Rooting files path (.error flaw) (Log.read path {})
  | including {whole : Toml} {outcome : Except Flaw (List Source)} {log : Log}
      (value : contents files path = .ok whole)
      (inner : Including files 0 (rootDirectory path) (split whole).1 (rootLog files path) outcome log) :
      Rooting files path (outcome.map (.mk path (split whole).2)) log

/-! ## the run that is made -/

section
variable {files : Files} {inner : (path directory : String) → Toml → Loading Source}
  {directory name found : String} {log : Log}

theorem run_enter_of_refused {flaw : Flaw} (located : locate files directory name = .error flaw) :
    (enter files inner directory name).run log = (.error flaw, log) := by
  unfold enter
  rw [located]
  rfl

theorem run_enter_of_located (located : locate files directory name = .ok found) :
    (enter files inner directory name).run log = (do
      visit name found
      let whole ← readValue files found
      inner found (directoryOf found directory) whole : Loading Source).run log := by
  unfold enter
  rw [located]
  rfl

theorem run_enter_of_seen (located : locate files directory name = .ok found)
    (seen : found ∈ log.seen) :
    (enter files inner directory name).run log = (.error (.circular name), log) := by
  rw [run_enter_of_located located, run_bind, run_visit_of_seen seen]

theorem run_enter_of_unread {flaw : Flaw} (located : locate files directory name = .ok found)
    (fresh : found ∉ log.seen) (value : contents files found = .error flaw) :
    (enter files inner directory name).run log = (.error flaw, log.enter found) := by
  rw [run_enter_of_located located, run_bind, run_visit_of_fresh fresh]
  show (readValue files found >>= _).run (log.see found) = _
  rw [run_bind, run_readValue, value]
  rfl

theorem run_enter_of_value {whole : Toml} (located : locate files directory name = .ok found)
    (fresh : found ∉ log.seen) (value : contents files found = .ok whole) :
    (enter files inner directory name).run log =
      (inner found (directoryOf found directory) whole).run (log.enter found) := by
  rw [run_enter_of_located located, run_bind, run_visit_of_fresh fresh]
  show (readValue files found >>= _).run (log.see found) = _
  rw [run_bind, run_readValue, value]
  rfl

end

section
variable {files : Files} {depth : Nat} {directory : String} {names : List String} {log : Log}

theorem run_load_succ (left : Nat) (path : String) (whole : Toml) :
    (load files (left + 1) path directory whole).run log =
      let r := ((split whole).1.mapM (enter files (load files left) directory)).run log
      (r.1.map (.mk path (split whole).2), r.2) := by
  rw [load, run_bind]
  obtain ⟨outcome, log'⟩ := ((split whole).1.mapM (enter files (load files left) directory)).run log
  cases outcome with
  | ok includes => rfl
  | error flaw => rfl

/-- what is told of loading is what loading does -/
theorem Including.run_mapM {outcome : Except Flaw (List Source)} {log' : Log}
    (h : Including files depth directory names log outcome log') (left : Nat)
    (hleft : depth + left = depthLimit) :
    (names.mapM (enter files (load files left) directory)).run log = (outcome, log') := by
  induction h generalizing left with
  | done => rfl
  | refused located =>
    rw [List.mapM_cons, run_bind, run_enter_of_refused located]
  | circular located seen =>
    rw [List.mapM_cons, run_bind, run_enter_of_seen located seen]
  | unread located fresh value =>
    rw [List.mapM_cons, run_bind, run_enter_of_unread located fresh value]
  | tooDeep located fresh value deep =>
    obtain rfl : left = 0 := by omega
    rw [List.mapM_cons, run_bind, run_enter_of_value located fresh value, load, run_throw]
  | broken located fresh value within _ ih =>
    obtain ⟨left, rfl⟩ := Nat.exists_eq_add_one.mpr (show 0 < left by omega)
    rw [List.mapM_cons, run_bind, run_enter_of_value located fresh value, run_load_succ,
      ih left (by omega)]
    rfl
  | @next _ _ _ _ _ _ _ _ _ _ outcome located fresh value within _ _ ihInner ihRest =>
    obtain ⟨left, rfl⟩ := Nat.exists_eq_add_one.mpr (show 0 < left by omega)
    rw [List.mapM_cons, run_bind, run_enter_of_value located fresh value, run_load_succ,
      ihInner left (by omega)]
    show (List.mapM _ _ >>= _ : Loading (List Source)).run _ = _
    rw [run_bind, ihRest (left + 1) hleft]
    cases outcome with
    | ok sources => rfl
    | error flaw => rfl

/-- names have a run if those in the files that they name have one -/
theorem exists_including_of_inner
    (hinner : depth < depthLimit → ∀ directory names log,
      ∃ outcome log', Including files (depth + 1) directory names log outcome log')
    (directory : String) (names : List String) (log : Log) :
    ∃ outcome log', Including files depth directory names log outcome log' := by
  induction names generalizing log with
  | nil => exact ⟨_, _, .done depth directory log⟩
  | cons name names ih =>
    cases located : locate files directory name with
    | error flaw => exact ⟨_, _, .refused located⟩
    | ok found =>
      by_cases seen : found ∈ log.seen
      · exact ⟨_, _, .circular located seen⟩
      · cases value : contents files found with
        | error flaw => exact ⟨_, _, .unread located seen value⟩
        | ok whole =>
          by_cases within : depth < depthLimit
          · obtain ⟨outcome, log', inner⟩ := hinner within (directoryOf found directory)
              (split whole).1 (log.enter found)
            cases outcome with
            | error flaw => exact ⟨_, _, .broken located seen value within inner⟩
            | ok includes =>
              obtain ⟨_, _, rest⟩ := ih log'
              exact ⟨_, _, .next located seen value within inner rest⟩
          · exact ⟨_, _, .tooDeep located seen value (Nat.not_lt.mp within)⟩

variable (files) in
theorem exists_including (depth : Nat) (directory : String) (names : List String) (log : Log) :
    ∃ outcome log', Including files depth directory names log outcome log' := by
  induction hleft : depthLimit - depth generalizing depth directory names log with
  | zero => exact exists_including_of_inner (fun within => by omega) directory names log
  | succ left ih =>
    exact exists_including_of_inner
      (fun _ directory names log => ih (depth + 1) directory names log (by omega)) directory names log

end

section
variable {files : Files} {path : String} {outcome : Except Flaw Source} {log : Log}

variable (files path) in
theorem exists_rooting : ∃ outcome log, Rooting files path outcome log := by
  cases value : contents files path with
  | error flaw => exact ⟨_, _, .unread value⟩
  | ok whole =>
    obtain ⟨_, _, inner⟩ :=
      exists_including files 0 (rootDirectory path) (split whole).1 (rootLog files path)
    exact ⟨_, _, .including value inner⟩

theorem Rooting.run_loadRoot (h : Rooting files path outcome log) :
    (loadRoot files path).run {} = (outcome, log) := by
  unfold loadRoot
  rw [run_bind, run_readValue]
  cases h with
  | unread value => rw [value]
  | including value inner =>
    rw [value]
    show (load files (depthLimit + 1) path (rootDirectory path) _).run (rootLog files path) = _
    rw [run_load_succ, inner.run_mapM depthLimit (Nat.zero_add _)]

/-- **loading a root comes to an end, and to one end only** -/
theorem rooting_iff : Rooting files path outcome log ↔ (loadRoot files path).run {} = (outcome, log) := by
  refine ⟨Rooting.run_loadRoot, fun h => ?_⟩
  obtain ⟨outcome', log', hroot⟩ := exists_rooting files path
  rw [hroot.run_loadRoot, Prod.mk.injEq] at h
  rw [← h.1, ← h.2]
  exact hroot

end

end Relay.Settings.Source
