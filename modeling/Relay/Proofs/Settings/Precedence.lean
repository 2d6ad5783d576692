import Relay.Proofs.Settings.Tree
import Relay.Proofs.Toml.Sorted

/-!
# Which file decides

The value of a file is made of layers: the values of the files that it includes, in order, and on top of
them what the file says itself.

* `Resolves`   a file and all that it includes has been loaded, wherever in a configuration it stands;
* `Below`      a file is another one or is included by it, directly or not;
* `Composed`   how the value of a loaded file comes from its layers.

`resolves_composed` says that a loaded file is so composed. The layers are laid over each other once they
are complete, so that a file which is included further down has no say of its own.
-/

namespace Relay.Settings

namespace Source

/-- a file of a given value has been loaded, with the files that it includes in its directory -/
def Resolves (files : Files) (path directory : String) (whole : Toml) (source : Source) : Prop :=
  ∃ left log log', (load files left path directory whole).run log = (.ok source, log')

/-- a file that is another one, or is included by it -/
inductive Below : Source → Source → Prop
  | self (source : Source) : Below source source
  | inner {source next t : Source} (h : next ∈ source.includes) (ht : Below next t) : Below source t

/-! ## loaded files -/

section
variable {files : Files} {path directory name : String} {whole : Toml} {source : Source}

theorem exists_of_run_mapM {α β : Type} {f : α → Loading β} {as : List α} {bs : List β} {log log' : Log}
    (h : (as.mapM f).run log = (.ok bs, log')) :
    List.Forall₂ (fun a b => ∃ before after, (f a).run before = (.ok b, after)) as bs := by
  induction as generalizing bs log log' with
  | nil =>
    rw [List.mapM_nil] at h
    obtain ⟨hbs, -⟩ := Prod.mk.inj h
    obtain rfl := Except.ok.inj hbs
    exact .nil
  | cons a as ih =>
    rw [List.mapM_cons, run_bind] at h
    cases hfirst : (f a).run log with
    | mk outcome after =>
      rw [hfirst] at h
      cases outcome with
      | error flaw => cases h
      | ok b =>
        replace h : (as.mapM f >>= fun bs => pure (b :: bs) : Loading (List β)).run after =
          (.ok bs, log') := h
        rw [run_bind] at h
        cases hrest : (as.mapM f).run after with
        | mk outcome last =>
          rw [hrest] at h
          cases outcome with
          | error flaw => cases h
          | ok rest =>
            obtain ⟨hbs, -⟩ := Prod.mk.inj h
            obtain rfl := Except.ok.inj hbs
            exact .cons ⟨log, after, hfirst⟩ (ih hrest)

theorem exists_of_run_enter {inner : (path directory : String) → Toml → Loading Source} {log log' : Log}
    (h : (enter files inner directory name).run log = (.ok source, log')) :
    ∃ found whole, locate files directory name = .ok found ∧ contents files found = .ok whole ∧
      (inner found (directoryOf found directory) whole).run (log.enter found) = (.ok source, log') := by
  cases located : locate files directory name with
  | error flaw =>
    rw [run_enter_of_refused located] at h
    cases h
  | ok found =>
    by_cases seen : found ∈ log.seen
    · rw [run_enter_of_seen located seen] at h
      cases h
    · cases value : contents files found with
      | error flaw =>
        rw [run_enter_of_unread located seen value] at h
        cases h
      | ok whole =>
        rw [run_enter_of_value located seen value] at h
        exact ⟨found, whole, rfl, value, h⟩

/-- the files of some names, each of them loaded -/
def Includes (files : Files) (directory : String) (names : List String) (includes : List Source) : Prop :=
  List.Forall₂ (fun name source => ∃ found whole, locate files directory name = .ok found ∧
    contents files found = .ok whole ∧
    Resolves files found (directoryOf found directory) whole source) names includes

theorem Includes.exists_of_mem {names : List String} {includes : List Source}
    (h : Includes files directory names includes) (hsource : source ∈ includes) :
    ∃ found whole, contents files found = .ok whole ∧
      Resolves files found (directoryOf found directory) whole source := by
  induction h with
  | nil => exact absurd hsource List.not_mem_nil
  | cons hfirst _ ih =>
    rcases List.mem_cons.mp hsource with rfl | hrest
    · obtain ⟨found, whole, -, value, h⟩ := hfirst
      exact ⟨found, whole, value, h⟩
    · exact ih hrest

theorem Resolves.eq (h : Resolves files path directory whole source) :
    ∃ includes, source = .mk path (split whole).2 includes ∧
      Includes files directory (split whole).1 includes := by
  obtain ⟨left, log, log', h⟩ := h
  cases left with
  | zero => cases h
  | succ left =>
    rw [run_load_succ] at h
    cases hrun : ((split whole).1.mapM (enter files (load files left) directory)).run log with
    | mk outcome after =>
      rw [hrun] at h
      cases outcome with
      | error flaw => cases h
      | ok includes =>
        obtain ⟨hsource, -⟩ := Prod.mk.inj h
        refine ⟨includes, (Except.ok.inj hsource).symm, ?_⟩
        refine (exists_of_run_mapM hrun).imp fun name inner hinner => ?_
        obtain ⟨before, after, henter⟩ := hinner
        obtain ⟨found, whole, located, value, hload⟩ := exists_of_run_enter henter
        exact ⟨found, whole, located, value, left, _, _, hload⟩

theorem Including.resolves {depth : Nat} {includes : List Source} {log log' : Log}
    (h : Including files depth directory (split whole).1 log (.ok includes) log')
    (hdepth : depth ≤ depthLimit) :
    Resolves files path directory whole (.mk path (split whole).2 includes) := by
  refine ⟨depthLimit - depth + 1, log, log', ?_⟩
  rw [run_load_succ, h.run_mapM (depthLimit - depth) (by omega)]
  rfl

/-- the root of a configuration is a file like any other -/
theorem exists_resolves_of_loadRoot {log : Log} (h : (loadRoot files path).run {} = (.ok source, log)) :
    ∃ whole, contents files path = .ok whole ∧
      Resolves files path (rootDirectory path) whole source := by
  generalize houtcome : (Except.ok source : Except Flaw Source) = outcome at h
  cases rooting_iff.mpr h with
  | unread => cases houtcome
  | @including whole outcome _ value inner =>
    cases outcome with
    | error flaw => cases houtcome
    | ok includes =>
      obtain rfl := Except.ok.inj houtcome
      exact ⟨whole, value, inner.resolves (Nat.zero_le _)⟩

end

/-! ## values -/

theorem valueOver_eq (base : Toml) (sources : List Source) :
    valueOver base sources = (sources.map value).foldl Toml.overlay base := by
  induction sources generalizing base with
  | nil => rw [valueOver, List.map_nil, List.foldl_nil]
  | cons source rest ih => rw [valueOver, ih, List.map_cons, List.foldl_cons]

/-- the layers that the value of a file is made of -/
def layers (source : Source) : List Toml := source.includes.map value ++ [source.own]

theorem value_eq (source : Source) : source.value = source.layers.foldl Toml.overlay .emptyTable := by
  obtain ⟨path, own, includes⟩ := source
  rw [value, valueOver_eq, layers, List.foldl_append]
  rfl

/-- what holds of a file if it holds of those that it includes holds of all -/
theorem rec_includes {P : Source → Prop} (h : ∀ source, (∀ s ∈ source.includes, P s) → P source)
    (source : Source) : P source := by
  refine h source fun s hs => ?_
  have hlt : sizeOf s < sizeOf source := by
    obtain ⟨path, own, includes⟩ := source
    have hmem := List.sizeOf_lt_of_mem hs
    rw [Source.includes] at hmem
    rw [mk.sizeOf_spec]
    omega
  exact rec_includes h s
termination_by sizeOf source

section
variable {source : Source} {key : String} {path : List String}

theorem Below.of_includes {P : Source → Prop} (h : ∀ t, Below source t → P t) :
    ∀ next ∈ source.includes, ∀ t, Below next t → P t :=
  fun _ hnext t ht => h t (.inner hnext ht)

theorem forall_layers {P : Toml → Prop} (hown : P source.own)
    (hincludes : ∀ next ∈ source.includes, P next.value) : ∀ u ∈ source.layers, P u := by
  rw [layers, List.forall_mem_append, List.forall_mem_singleton, List.forall_mem_map]
  exact ⟨hincludes, hown⟩

theorem sorted_value (h : ∀ t, Below source t → t.own.Sorted) : source.value.Sorted := by
  induction source using rec_includes with
  | h source ih =>
    have hlayers : ∀ u ∈ source.layers, u.Sorted :=
      forall_layers (h source (.self source)) fun next hnext =>
        ih next hnext (Below.of_includes h next hnext)
    rw [value_eq]
    exact List.foldlRecOn _ _ Toml.sorted_emptyTable fun _ hbase u hu => hbase.overlay (hlayers u hu)

theorem sorted_layers (h : ∀ t, Below source t → t.own.Sorted) : ∀ u ∈ source.layers, u.Sorted :=
  forall_layers (h source (.self source)) fun next hnext =>
    sorted_value (Below.of_includes h next hnext)

/-- the last layer that touches a path decides -/
theorem at?_value_iff {v : Toml} (h : ∀ t, Below source t → t.own.Sorted) (hv : v.isTable = false) :
    source.value.at? (key :: path) = some v ↔ Toml.LastSays source.layers (key :: path) v := by
  have hbase : Toml.emptyTable.at? (key :: path) ≠ some v := nofun
  rw [value_eq, Toml.at?_foldl_overlay (sorted_layers h) hv]
  exact or_iff_left fun hnone => hbase hnone.2

theorem exists_touches_of_value (h : ∀ t, Below source t → t.own.Sorted)
    (htouches : source.value.Touches (key :: path)) :
    ∃ t, Below source t ∧ t.own.Touches (key :: path) := by
  induction source using rec_includes with
  | h source ih =>
    rw [value_eq] at htouches
    rcases htouches.of_foldl_overlay (sorted_layers h) with hempty | ⟨u, hu, htouches⟩
    · exact absurd hempty Toml.untouched_emptyTable
    · rw [layers, List.mem_append, List.mem_map, List.mem_singleton] at hu
      rcases hu with ⟨next, hnext, rfl⟩ | rfl
      · obtain ⟨t, ht, htouches⟩ := ih next hnext (Below.of_includes h next hnext) htouches
        exact ⟨t, .inner hnext ht, htouches⟩
      · exact ⟨source, .self source, htouches⟩

theorem at?_singleton_value (h : ∀ t, Below source t → t.own.at? [key] = none) :
    source.value.at? [key] = none := by
  induction source using rec_includes with
  | h source ih =>
    have hlayers : ∀ u ∈ source.layers, u.at? [key] = none :=
      forall_layers (h source (.self source)) fun next hnext =>
        ih next hnext (Below.of_includes h next hnext)
    rw [value_eq]
    exact List.foldlRecOn (motive := fun base : Toml => base.at? [key] = none) _ _ rfl fun _ hbase u hu =>
      Toml.at?_singleton_overlay hbase (hlayers u hu)

end

/-! ## what a file says itself -/

section
variable {whole v : Toml} {key : String} {path : List String}

theorem at?_split (h : key ≠ includeKey) :
    (split whole).2.at? (key :: path) = whole.at? (key :: path) := by
  cases whole with
  | table fields =>
    show ((Table.without includeKey fields).lookup key).bind _ = (fields.lookup key).bind _
    rw [Table.lookup_without_of_ne h]
  | string | integer | float | boolean | moment | array => rfl

theorem touches_split (h : key ≠ includeKey) :
    (split whole).2.Touches (key :: path) ↔ whole.Touches (key :: path) := by
  cases whole with
  | table fields =>
    show Toml.Touches (.table (Table.without includeKey fields)) _ ↔ _
    rw [Toml.touches_table_cons, Toml.touches_table_cons, Table.lookup_without_of_ne h]
  | string | integer | float | boolean | moment | array => rfl

theorem at?_includeKey_split : (split whole).2.at? [includeKey] = none := by
  cases whole with
  | table fields =>
    show ((Table.without includeKey fields).lookup includeKey).bind _ = none
    rw [Table.lookup_without_self]
    rfl
  | string | integer | float | boolean | moment | array => rfl

theorem sorted_split (h : whole.Sorted) : (split whole).2.Sorted := by
  cases h with
  | leaf hleaf =>
    cases whole with
    | table fields => cases hleaf
    | string | integer | float | boolean | moment | array => exact .leaf hleaf
  | table hsorted hinner =>
    exact .table (hsorted.filter _) fun f hf => hinner f (List.mem_of_mem_filter hf)

theorem sorted_of_contents {files : Files} {file : String} (h : contents files file = .ok whole) :
    whole.Sorted := by
  obtain ⟨text, -, hparse⟩ := contents_eq_ok_iff.mp h
  exact Toml.sorted_of_parse? hparse

end

/-! ## precedence -/

/-- **how the value of a loaded file comes from the files that it includes and from its own** -/
structure Composed (files : Files) (directory : String) (whole : Toml) (source : Source) : Prop where
  /-- the files that it names, in order -/
  includes : Includes files directory (split whole).1 source.includes
  /-- the last layer that touches a path decides -/
  last : ∀ key path v, key ≠ includeKey → v.isTable = false →
    (source.value.at? (key :: path) = some v ↔
      Toml.LastSays (source.includes.map value ++ [whole]) (key :: path) v)
  own : ∀ key path v, key ≠ includeKey → v.isTable = false →
    whole.at? (key :: path) = some v → source.value.at? (key :: path) = some v
  later : ∀ before next after key path v, source.includes = before ++ next :: after →
    key ≠ includeKey → v.isTable = false → next.value.at? (key :: path) = some v →
    (∀ s ∈ after, ¬s.value.Touches (key :: path)) → ¬whole.Touches (key :: path) →
    source.value.at? (key :: path) = some v
  /-- a path that no file touches leads nowhere -/
  unbound : ∀ key path, key ≠ includeKey →
    (∀ t inner, Below source t → contents files t.path = .ok inner → ¬inner.Touches (key :: path)) →
    source.value.at? (key :: path) = none
  noIncludes : source.value.at? [includeKey] = none

section
variable {files : Files} {file directory : String} {whole : Toml} {source t : Source}

theorem Resolves.own_of_below (value : contents files file = .ok whole)
    (h : Resolves files file directory whole source) (ht : Below source t) :
    ∃ inner, contents files t.path = .ok inner ∧ t.own = (split inner).2 := by
  induction ht generalizing file directory whole with
  | self source =>
    obtain ⟨includes, rfl, -⟩ := h.eq
    exact ⟨whole, value, rfl⟩
  | @inner source next t hnext ht ih =>
    obtain ⟨includes, rfl, hincludes⟩ := h.eq
    obtain ⟨found, inner, value, hinner⟩ := hincludes.exists_of_mem hnext
    exact ih value hinner

theorem resolves_composed (value : contents files file = .ok whole)
    (h : Resolves files file directory whole source) : Composed files directory whole source := by
  have hown := fun t (ht : Below source t) => h.own_of_below value ht
  have hsorted : ∀ t, Below source t → t.own.Sorted := by
    intro t ht
    obtain ⟨inner, hinner, hsplit⟩ := hown t ht
    rw [hsplit]
    exact sorted_split (sorted_of_contents hinner)
  obtain ⟨includes, rfl, hincludes⟩ := h.eq
  have hlast : ∀ key path v, key ≠ includeKey → v.isTable = false →
      ((mk file (split whole).2 includes).value.at? (key :: path) = some v ↔
        Toml.LastSays (includes.map Source.value ++ [whole]) (key :: path) v) := by
    intro key path v hkey hv
    rw [at?_value_iff hsorted hv]
    show Toml.LastSays (includes.map Source.value ++ [(split whole).2]) _ _ ↔ _
    simp only [Toml.lastSays_append, Toml.lastSays_singleton, List.forall_mem_singleton,
      at?_split hkey, touches_split hkey]
  constructor
  case includes => exact hincludes
  case last => exact hlast
  case own =>
    intro key path v hkey hv hat
    refine (hlast key path v hkey hv).mpr (Toml.lastSays_append.mpr (.inl ?_))
    exact Toml.lastSays_singleton.mpr ⟨.inl (by rw [hat]; rfl), hat⟩
  case later =>
    intro before next after key path v hsplit hkey hv hat hafter hwhole
    refine (hlast key path v hkey hv).mpr ?_
    refine ⟨before.map Source.value, next.value, after.map Source.value ++ [whole], ?_, ?_, hat, ?_⟩
    · rw [show includes = _ from hsplit]
      simp
    · exact .inl (by rw [hat]; rfl)
    · rw [List.forall_mem_append, List.forall_mem_map, List.forall_mem_singleton]
      exact ⟨hafter, hwhole⟩
  case unbound =>
    intro key path hkey huntouched
    refine Toml.at?_of_untouched fun htouches => ?_
    obtain ⟨t, ht, htouches⟩ := exists_touches_of_value hsorted htouches
    obtain ⟨inner, hinner, hsplit⟩ := hown t ht
    rw [hsplit, touches_split hkey] at htouches
    exact huntouched t inner ht hinner htouches
  case noIncludes =>
    refine at?_singleton_value fun t ht => ?_
    obtain ⟨inner, -, hsplit⟩ := hown t ht
    rw [hsplit]
    exact at?_includeKey_split

end

namespace Shared

/-- the second file of the root says something else than the one that the first includes -/
def overridden : Files := files "domain = \"zeta\""

def other : Toml := .table [("domain", .string "zeta")]

def loaded : Source :=
  .mk "/d/r" .emptyTable [.mk "/d/a" .emptyTable [.mk "/d/c" leaf []], .mk "/d/b" other []]

theorem parse_other : Toml.parse? "domain = \"zeta\"" = some other := by cbv

theorem including_overridden :
    ∃ log, Including overridden 0 "/d" (split both).1 {} (.ok loaded.includes) log := by
  obtain ⟨ha, hb, hc⟩ : IsPlain "a" ∧ IsPlain "b" ∧ IsPlain "c" := by
    simpa only [List.forall_mem_cons, List.not_mem_nil, false_implies, implies_true, and_true]
      using isPlain_of_mem
  have hlocate : ∀ {name text : String}, IsPlain name →
      (texts "domain = \"zeta\"").lookup ("/d/" ++ name) = some text →
      locate overridden "/d" name = .ok ("/d/" ++ name) := fun hplain hread => locate_eq hplain hread
  have hdirectory : ∀ {name : String}, IsPlain name → directoryOf ("/d/" ++ name) "/d" = "/d" :=
    fun hplain => hplain.2.2.2.2
  have hsecond : Including overridden 0 "/d" ["b"] (Log.enter "/d/c" (Log.enter "/d/a" {}))
      (.ok [.mk "/d/b" other []]) _ :=
    .next (hlocate hb rfl) (by decide +kernel) (contents_eq rfl parse_other) (by decide)
      (.done _ _ _) (.done _ _ _)
  have hinner : Including overridden 1 "/d" (split single).1 (Log.enter "/d/a" {})
      (.ok [.mk "/d/c" leaf []]) _ :=
    .next (hlocate hc rfl) (by decide +kernel) (contents_eq rfl parse_leaf) (by decide)
      (.done _ _ _) (.done _ _ _)
  rw [← hdirectory ha] at hinner
  exact ⟨_, .next (hlocate ha rfl) (by decide +kernel) (contents_eq rfl parse_single) (by decide)
    hinner hsecond⟩

end Shared

theorem resolves_composed_overridden :
    contents Shared.overridden "/d/r" = .ok Shared.both ∧
    Resolves Shared.overridden "/d/r" "/d" Shared.both Shared.loaded ∧
    Composed Shared.overridden "/d" Shared.both Shared.loaded ∧
    Shared.loaded.value.at? ["domain"] = some (.string "zeta") := by
  have value : contents Shared.overridden "/d/r" = .ok Shared.both :=
    Shared.contents_eq rfl Shared.parse_both
  obtain ⟨log, hincluding⟩ := Shared.including_overridden
  have hresolves : Resolves Shared.overridden "/d/r" "/d" Shared.both Shared.loaded :=
    hincluding.resolves (Nat.zero_le _)
  exact ⟨value, hresolves, resolves_composed value hresolves, by cbv⟩

end Source

end Relay.Settings
