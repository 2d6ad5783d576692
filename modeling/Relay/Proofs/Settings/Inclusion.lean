import Mathlib.Data.List.Nodup
import Relay.Proofs.Settings.Chain

/-!
# What becomes of included files

A run that includes the files of some names is compared with the places below the file that the names are
from.

* `Noted`   what is read meanwhile, however the run ends: every file once, and for a name at some place;
* `Grown`   what a run to the end has seen: the files at all the places, and no others;
* `Cause`   why a run breaks off: some place below the file is to blame.
-/

namespace Relay.Settings.Source

/-! ## what is read -/

/-- the paths that are noted while files are included, `depth` below the root -/
structure Noted (files : Files) (depth : Nat) (f : Opened) (log log' : Log) (more : List String) :
    Prop where
  seen : log'.seen = more ++ log.seen
  reads : log'.reads = more ++ log.reads
  nodup : more.Nodup
  fresh : ∀ path ∈ more, path ∉ log.seen
  named : ∀ path ∈ more, ∃ x directory name, Names files f x directory name ∧
    locate files directory name = .ok path ∧ depth + x.length ≤ depthLimit + 1

namespace Noted

section
variable {files : Files} {depth depth' : Nat} {f g : Opened} {log log' log'' : Log}
  {more more' : List String}

theorem none (f : Opened) : Noted files depth f log log [] where
  seen := rfl
  reads := rfl
  nodup := List.nodup_nil
  fresh _ h := absurd h List.not_mem_nil
  named _ h := absurd h List.not_mem_nil

theorem append (h : Noted files depth f log log' more) (h' : Noted files depth f log' log'' more') :
    Noted files depth f log log'' (more' ++ more) where
  seen := by rw [h'.seen, h.seen, List.append_assoc]
  reads := by rw [h'.reads, h.reads, List.append_assoc]
  nodup := by
    refine List.nodup_append'.mpr ⟨h'.nodup, h.nodup, fun path hnew hold => ?_⟩
    apply h'.fresh path hnew
    rw [h.seen]
    exact List.mem_append_left _ hold
  fresh := by
    intro path hpath
    rcases List.mem_append.mp hpath with hnew | hold
    · have hfresh := h'.fresh path hnew
      rw [h.seen, List.mem_append, not_or] at hfresh
      exact hfresh.2
    · exact h.fresh path hold
  named := by
    intro path hpath
    rcases List.mem_append.mp hpath with hnew | hold
    · exact h'.named path hnew
    · exact h.named path hold

/-- the names below one file are among those below another -/
theorem lift (hnames : ∀ x directory name, Names files g x directory name →
      ∃ y, Names files f y directory name ∧ depth + y.length = depth' + x.length)
    (h : Noted files depth' g log log' more) : Noted files depth f log log' more where
  seen := h.seen
  reads := h.reads
  nodup := h.nodup
  fresh := h.fresh
  named := by
    intro path hpath
    obtain ⟨x, directory, name, hname, located, hdepth⟩ := h.named path hpath
    obtain ⟨y, hname, hlength⟩ := hnames x directory name hname
    exact ⟨y, directory, name, hname, located, hlength ▸ hdepth⟩

end

section
variable {files : Files} {depth : Nat} {file directory name found : String} {names : List String}
  {log log' : Log} {more : List String}

theorem entered (hdepth : depth ≤ depthLimit) (located : locate files directory name = .ok found)
    (fresh : found ∉ log.seen) :
    Noted files depth ⟨file, directory, name :: names⟩ log (log.enter found) [found] where
  seen := rfl
  reads := rfl
  nodup := List.nodup_singleton found
  fresh path h := by
    rw [List.mem_singleton.mp h]
    exact fresh
  named path h := by
    rw [List.mem_singleton.mp h]
    exact ⟨[0], directory, name, names_zero, located, Nat.add_le_add_right hdepth 1⟩

theorem child {whole : Toml} (located : locate files directory name = .ok found)
    (value : contents files found = .ok whole)
    (h : Noted files (depth + 1) (childOf found directory whole) log log' more) :
    Noted files depth ⟨file, directory, name :: names⟩ log log' more := by
  refine h.lift fun x directory' name' hname => ⟨0 :: x, names_zero_cons located value hname, ?_⟩
  rw [List.length_cons]
  omega

theorem others (h : Noted files depth ⟨file, directory, names⟩ log log' more) :
    Noted files depth ⟨file, directory, name :: names⟩ log log' more := by
  refine h.lift fun x directory' name' hname => ?_
  cases x with
  | nil => exact hname.elim
  | cons i x => exact ⟨(i + 1) :: x, names_succ.mpr hname, rfl⟩

end

end Noted

theorem Including.noted {files : Files} {depth : Nat} {directory : String} {names : List String}
    {log log' : Log} {outcome : Except Flaw (List Source)}
    (h : Including files depth directory names log outcome log') (hdepth : depth ≤ depthLimit)
    (file : String) : ∃ more, Noted files depth ⟨file, directory, names⟩ log log' more := by
  induction h generalizing file with
  | done => exact ⟨[], .none _⟩
  | refused => exact ⟨[], .none _⟩
  | circular => exact ⟨[], .none _⟩
  | unread located fresh => exact ⟨_, .entered hdepth located fresh⟩
  | tooDeep located fresh => exact ⟨_, .entered hdepth located fresh⟩
  | broken located fresh value within _ ih =>
    obtain ⟨more, hmore⟩ := ih within _
    exact ⟨_, (Noted.entered hdepth located fresh).append (hmore.child located value)⟩
  | next located fresh value within _ _ ihInner ihRest =>
    obtain ⟨more, hmore⟩ := ihInner within _
    obtain ⟨rest, hrest⟩ := ihRest hdepth file
    exact ⟨_, ((Noted.entered hdepth located fresh).append (hmore.child located value)).append
      hrest.others⟩

/-! ## runs to the end -/

/-- what a run to the end has seen of the files that `f` includes, `depth` below the root -/
structure Grown (files : Files) (depth : Nat) (f : Opened) (log log' : Log) : Prop where
  kept : ∀ path ∈ log.seen, path ∈ log'.seen
  new : ∀ i x g, Leads files f (i :: x) g → g.file ∉ log.seen ∧ g.file ∈ log'.seen
  old : ∀ path ∈ log'.seen, path ∈ log.seen ∨ ∃ i x g, Leads files f (i :: x) g ∧ g.file = path
  oneWay : ∀ i x g j y h, Leads files f (i :: x) g → Leads files f (j :: y) h → g.file = h.file →
    i :: x = j :: y
  within : ∀ i x g, Leads files f (i :: x) g → depth + (x.length + 1) ≤ depthLimit
  allFit : AllFit files f

namespace Grown

theorem nil (files : Files) (depth : Nat) (file directory : String) (log : Log) :
    Grown files depth ⟨file, directory, []⟩ log log := by
  have hopens : ∀ i g, ¬Opens files ⟨file, directory, []⟩ i g := by
    intro i g h
    obtain ⟨name, hname, _⟩ := h.located
    simp at hname
  constructor
  case kept => exact fun _ h => h
  case new =>
    rintro i x g ⟨h, hh, _⟩
    exact absurd hh (hopens i h)
  case old => exact fun _ h => .inl h
  case oneWay =>
    rintro i x g j y h ⟨k, hk, _⟩
    exact absurd hk (hopens i k)
  case within =>
    rintro i x g ⟨h, hh, _⟩
    exact absurd hh (hopens i h)
  case allFit =>
    intro x directory' name hname
    cases x with
    | nil => exact hname.elim
    | cons i x =>
      rcases hname with ⟨_, hname, _⟩ | ⟨h, hh, _⟩
      · simp at hname
      · exact absurd hh (hopens i h)

section
variable {files : Files} {depth : Nat} {f : Opened} {log log' : Log}

/-- the same with the file itself, which has been seen before -/
theorem oneWay_of_mem (hgrown : Grown files depth f log log') (hf : f.file ∈ log.seen) {x y : List Nat}
    {g h : Opened} (hg : Leads files f x g) (hh : Leads files f y h) (hfile : g.file = h.file) :
    x = y := by
  cases x with
  | nil =>
    obtain rfl : g = f := hg
    cases y with
    | nil => rfl
    | cons j y =>
      have hnew := (hgrown.new j y h hh).1
      rw [← hfile] at hnew
      exact absurd hf hnew
  | cons i x =>
    cases y with
    | nil =>
      obtain rfl : h = f := hh
      have hnew := (hgrown.new i x g hg).1
      rw [hfile] at hnew
      exact absurd hf hnew
    | cons j y => exact hgrown.oneWay i x g j y h hg hh hfile

end

section
variable {files : Files} {depth : Nat} {file directory name found : String} {names : List String}
  {log log' log'' : Log} {whole : Toml}

/-- the files below the one that is entered, and this one -/
theorem of_child (h : Grown files (depth + 1) (childOf found directory whole) (log.enter found) log')
    (fresh : found ∉ log.seen) {x : List Nat} {g : Opened}
    (hg : Leads files (childOf found directory whole) x g) :
    g.file ∉ log.seen ∧ g.file ∈ log'.seen := by
  cases x with
  | nil =>
    obtain rfl : g = childOf found directory whole := hg
    exact ⟨fresh, h.kept found List.mem_cons_self⟩
  | cons i x =>
    obtain ⟨hnew, hmem⟩ := h.new i x g hg
    exact ⟨fun hold => hnew (List.mem_cons_of_mem found hold), hmem⟩

/-- the file of the first name is entered, and then those of the others are -/
theorem next (located : locate files directory name = .ok found) (fresh : found ∉ log.seen)
    (value : contents files found = .ok whole) (within : depth < depthLimit)
    (hinner : Grown files (depth + 1) (childOf found directory whole) (log.enter found) log')
    (hrest : Grown files depth ⟨file, directory, names⟩ log' log'') :
    Grown files depth ⟨file, directory, name :: names⟩ log log'' := by
  have hzero : ∀ {x g}, Leads files ⟨file, directory, name :: names⟩ (0 :: x) g ↔
      Leads files (childOf found directory whole) x g := leads_zero located value
  have hkept : ∀ path ∈ log.seen, path ∈ log'.seen := fun path h =>
    hinner.kept path (List.mem_cons_of_mem found h)
  constructor
  case kept => exact fun path h => hrest.kept path (hkept path h)
  case new =>
    intro i x g hg
    cases i with
    | zero =>
      obtain ⟨hnew, hmem⟩ := hinner.of_child fresh (hzero.mp hg)
      exact ⟨hnew, hrest.kept _ hmem⟩
    | succ i =>
      obtain ⟨hnew, hmem⟩ := hrest.new i x g (leads_succ.mp hg)
      exact ⟨fun hold => hnew (hkept _ hold), hmem⟩
  case old =>
    intro path hpath
    rcases hrest.old path hpath with hpath | ⟨i, x, g, hg, hfile⟩
    · rcases hinner.old path hpath with hpath | ⟨i, x, g, hg, hfile⟩
      · rcases List.mem_cons.mp hpath with rfl | hpath
        · exact .inr ⟨0, [], _, hzero.mpr rfl, rfl⟩
        · exact .inl hpath
      · exact .inr ⟨0, i :: x, g, hzero.mpr hg, hfile⟩
    · exact .inr ⟨i + 1, x, g, leads_succ.mpr hg, hfile⟩
  case oneWay =>
    intro i x g j y h hg hh hfile
    match i, j with
    | 0, 0 =>
      have hsame := hinner.oneWay_of_mem List.mem_cons_self (hzero.mp hg) (hzero.mp hh) hfile
      rw [hsame]
    | 0, j + 1 =>
      have hold := (hinner.of_child fresh (hzero.mp hg)).2
      rw [hfile] at hold
      exact absurd hold (hrest.new j y h (leads_succ.mp hh)).1
    | i + 1, 0 =>
      have hold := (hinner.of_child fresh (hzero.mp hh)).2
      rw [← hfile] at hold
      exact absurd hold (hrest.new i x g (leads_succ.mp hg)).1
    | i + 1, j + 1 =>
      have hsame := hrest.oneWay i x g j y h (leads_succ.mp hg) (leads_succ.mp hh) hfile
      rw [List.cons.injEq] at hsame
      rw [hsame.1, hsame.2]
  case within =>
    intro i x g hg
    cases i with
    | zero =>
      cases x with
      | nil => exact within
      | cons j x =>
        have hdepth := hinner.within j x g (hzero.mp hg)
        rw [List.length_cons]
        omega
    | succ i => exact hrest.within i x g (leads_succ.mp hg)
  case allFit =>
    intro x directory' name' hname
    match x, hname with
    | [], hname => exact hname.elim
    | 0 :: x, .inl ⟨_, hname, hdirectory⟩ =>
      obtain rfl : name = name' := Option.some.inj hname
      subst hdirectory
      exact ⟨found, whole, locate_eq_ok_iff.mp located, value⟩
    | 0 :: x, .inr ⟨h, hopens, hname⟩ =>
      obtain rfl := (opens_zero located value).unique hopens
      exact hinner.allFit x directory' name' hname
    | (i + 1) :: x, hname => exact hrest.allFit (i :: x) directory' name' (names_succ.mp hname)

end

end Grown

theorem Including.grown {files : Files} {depth : Nat} {directory : String} {names : List String}
    {log log' : Log} {includes : List Source}
    (h : Including files depth directory names log (.ok includes) log') (file : String) :
    Grown files depth ⟨file, directory, names⟩ log log' := by
  generalize houtcome : (Except.ok includes : Except Flaw (List Source)) = outcome at h
  induction h generalizing file includes with
  | done depth directory log => exact .nil files depth file directory log
  | refused => cases houtcome
  | circular => cases houtcome
  | unread => cases houtcome
  | tooDeep => cases houtcome
  | broken => cases houtcome
  | @next _ _ _ _ _ _ _ _ _ _ outcome located fresh value within _ _ ihInner ihRest =>
    cases outcome with
    | error flaw => cases houtcome
    | ok sources => exact .next located fresh value within (ihInner _ rfl) (ihRest file rfl)

/-! ## runs that break off -/

/-- what is to blame for a flaw among the files that `f` includes, `depth` below the root -/
inductive Cause (files : Files) (depth : Nat) (f : Opened) (log : Log) : Flaw → Prop
  | refused {x : List Nat} {directory name : String} {flaw : Flaw}
      (named : Names files f x directory name) (refused : locate files directory name = .error flaw) :
      Cause files depth f log flaw
  | unread {x : List Nat} {directory name found : String} {flaw : Flaw}
      (named : Names files f x directory name) (located : locate files directory name = .ok found)
      (value : contents files found = .error flaw) : Cause files depth f log flaw
  | tooDeep {x : List Nat} {g : Opened} (leads : Leads files f x g)
      (deep : depthLimit < depth + x.length) : Cause files depth f log (.tooDeep depthLimit)
  /-- the file has been seen before -/
  | again {x : List Nat} {directory name found : String} (named : Names files f x directory name)
      (located : locate files directory name = .ok found) (seen : found ∈ log.seen) :
      Cause files depth f log (.circular name)
  /-- the file is also at another place -/
  | twice {x y : List Nat} {directory name : String} {g : Opened}
      (named : Names files f x directory name) (located : locate files directory name = .ok g.file)
      (other : Leads files f y g) (apart : y ≠ x) : Cause files depth f log (.circular name)

namespace Cause

variable {files : Files} {depth : Nat} {file directory name found : String} {names : List String}
  {log log' : Log} {whole : Toml} {flaw : Flaw}

theorem child (located : locate files directory name = .ok found)
    (value : contents files found = .ok whole)
    (h : Cause files (depth + 1) (childOf found directory whole) (log.enter found) flaw) :
    Cause files depth ⟨file, directory, name :: names⟩ log flaw := by
  cases h with
  | refused named refused => exact .refused (names_zero_cons located value named) refused
  | unread named located' value' => exact .unread (names_zero_cons located value named) located' value'
  | @tooDeep x g leads deep =>
    refine .tooDeep ((leads_zero located value).mpr leads) ?_
    rw [List.length_cons]
    omega
  | @again x directory' name' found' named located' seen =>
    have named' : Names files ⟨file, directory, name :: names⟩ (0 :: x) directory' name' :=
      names_zero_cons located value named
    rcases List.mem_cons.mp seen with rfl | seen
    · -- the file that is being included, whose own place is a shorter one
      refine .twice named' located' (leads_first located value) fun hplace => ?_
      rw [← (List.cons.inj hplace).2] at named
      exact named
    · exact .again named' located' seen
  | twice named located' other apart =>
    refine .twice (names_zero_cons located value named) located'
      ((leads_zero located value).mpr other) fun hplace => apart ?_
    exact (List.cons.inj hplace).2

/-- what is seen again by the names after the first was seen before, or is below the first -/
theorem others (located : locate files directory name = .ok found)
    (value : contents files found = .ok whole)
    (hinner : Grown files (depth + 1) (childOf found directory whole) (log.enter found) log')
    (h : Cause files depth ⟨file, directory, names⟩ log' flaw) :
    Cause files depth ⟨file, directory, name :: names⟩ log flaw := by
  have hnames : ∀ {x directory' name'}, Names files ⟨file, directory, names⟩ x directory' name' →
      ∃ i x', x = i :: x' ∧
        Names files ⟨file, directory, name :: names⟩ ((i + 1) :: x') directory' name' := by
    intro x directory' name' hname
    cases x with
    | nil => exact hname.elim
    | cons i x => exact ⟨i, x, rfl, names_succ.mpr hname⟩
  cases h with
  | refused named refused =>
    obtain ⟨_, _, _, named⟩ := hnames named
    exact .refused named refused
  | unread named located' value' =>
    obtain ⟨_, _, _, named⟩ := hnames named
    exact .unread named located' value'
  | @tooDeep x g leads deep =>
    cases x with
    | nil => exact .tooDeep (x := []) rfl deep
    | cons i x => exact .tooDeep (leads_succ.mpr leads) deep
  | again named located' seen =>
    obtain ⟨i, x, _, named⟩ := hnames named
    rcases hinner.old _ seen with seen | ⟨j, y, g, hg, hfile⟩
    · rcases List.mem_cons.mp seen with rfl | seen
      · exact .twice named located' (leads_first located value) (by simp)
      · exact .again named located' seen
    · subst hfile
      exact .twice named located' ((leads_zero located value).mpr hg) (by simp)
  | @twice x y _ _ g named located' other apart =>
    obtain ⟨i, x, rfl, named'⟩ := hnames named
    cases y with
    | nil =>
      obtain rfl : g = ⟨file, directory, names⟩ := other
      exact .twice (y := []) (g := ⟨file, directory, name :: names⟩) named' located' rfl (by simp)
    | cons j y =>
      refine .twice named' located' (leads_succ.mpr other) fun hplace => apart ?_
      simpa using hplace

end Cause

theorem Including.cause {files : Files} {depth : Nat} {directory : String} {names : List String}
    {log log' : Log} {flaw : Flaw}
    (h : Including files depth directory names log (.error flaw) log') (file : String) :
    Cause files depth ⟨file, directory, names⟩ log flaw := by
  generalize houtcome : (Except.error flaw : Except Flaw (List Source)) = outcome at h
  induction h generalizing file flaw with
  | done => cases houtcome
  | refused located =>
    cases houtcome
    exact .refused names_zero located
  | circular located seen =>
    cases houtcome
    exact .again names_zero located seen
  | unread located fresh value =>
    cases houtcome
    exact .unread names_zero located value
  | tooDeep located fresh value deep =>
    cases houtcome
    exact .tooDeep (leads_first located value) (Nat.lt_succ_of_le deep)
  | broken located fresh value within _ ih =>
    cases houtcome
    exact .child located value (ih _ rfl)
  | @next _ _ _ _ _ _ _ _ _ _ outcome located fresh value within inner _ _ ihRest =>
    cases outcome with
    | ok sources => cases houtcome
    | error flaw' =>
      cases houtcome
      exact .others located value (inner.grown _) (ihRest file rfl)

end Relay.Settings.Source
