import Relay.Proofs.Toml.Overlay
import Relay.Toml.Document

/-!
# The value of a TOML text is sorted

* `Draft.Proper`    a draft whose words and quoted texts are no tables. Its value is sorted
                    (`Draft.Proper.sorted`), for the fields of a table are put in one by one;
* `Reader.Yields`   a property of what a reader yields.

The readers of values yield proper drafts, and headers and entries keep the fields of a draft proper. So
the value of a text is sorted: `sorted_of_parse?`.
-/

namespace Relay

namespace Text.Reader

variable {α β : Type} {P : α → Prop} {Q : β → Prop}

/-- whatever a reader yields has a property -/
def Yields (P : α → Prop) (r : Reader α) : Prop := ∀ cs a rest, r cs = some (a, rest) → P a

theorem yields_pure {a : α} (h : P a) : Yields P (pure a) := by
  intro cs b rest hb
  obtain ⟨rfl, -⟩ := Prod.mk.inj (Option.some.inj hb)
  exact h

theorem yields_failure : Yields P failure := by
  intro cs b rest hb
  cases hb

theorem yields_lift {o : Option α} (h : ∀ a, o = some a → P a) : Yields P (liftM o : Reader α) := by
  intro cs a rest ha
  cases o with
  | none => cases ha
  | some b =>
    obtain ⟨rfl, -⟩ := Prod.mk.inj (Option.some.inj ha)
    exact h _ rfl

theorem Yields.bind {r : Reader α} {next : α → Reader β} (hr : Yields P r)
    (hnext : ∀ a, P a → Yields Q (next a)) : Yields Q (r >>= next) := by
  intro cs b rest hb
  have hrun : (r >>= next) cs = (r cs).bind fun found => next found.1 found.2 := rfl
  rw [hrun] at hb
  obtain ⟨⟨a, left⟩, ha, hb⟩ := Option.bind_eq_some_iff.mp hb
  exact hnext a (hr cs a left ha) left b rest hb

/-- what is read first may be anything -/
theorem yields_bind {r : Reader α} {next : α → Reader β} (hnext : ∀ a, Yields Q (next a)) :
    Yields Q (r >>= next) :=
  Yields.bind (P := fun _ => True) (fun _ _ _ _ => trivial) fun a _ => hnext a

theorem Yields.collectUpTo {step : Reader (List α × Bool)}
    (h : Yields (fun found => ∀ a ∈ found.1, P a) step) (n : Nat) :
    Yields (fun found => ∀ a ∈ found, P a) (collectUpTo step n) := by
  induction n with
  | zero =>
    intro cs a rest ha
    cases ha
  | succ n ih =>
    refine h.bind fun found hfound => ?_
    obtain ⟨found, isLast⟩ := found
    cases isLast with
    | true => exact yields_pure hfound
    | false =>
      refine ih.bind fun more hmore => yields_pure fun a ha => ?_
      rcases List.mem_append.mp ha with ha | ha
      · exact hfound a ha
      · exact hmore a ha

theorem Yields.collect {step : Reader (List α × Bool)}
    (h : Yields (fun found => ∀ a ∈ found.1, P a) step) :
    Yields (fun found => ∀ a ∈ found, P a) (collect step) :=
  fun cs => h.collectUpTo (cs.length + 1) cs

theorem Yields.of_whole? {r : Reader α} {text : String} {a : α} (h : Yields P r)
    (ha : whole? r text = some a) : P a := by
  unfold whole? wholeOf? at ha
  split at ha
  · rename_i b hb
    obtain rfl := Option.some.inj ha
    exact h _ _ _ hb
  · cases ha

end Text.Reader

namespace Toml

open Text (Reader)
open Text.Reader

/-- what each step keeps holds at the end, if the steps do not fail -/
theorem foldlM_keeps {α β : Type} {P : β → Prop} {Q : α → Prop} {step : β → α → Option β}
    (hstep : ∀ {a b b'}, Q a → P b → step b a = some b' → P b') {as : List α} (has : ∀ a ∈ as, Q a)
    {b b' : β} (h : P b) (hb : as.foldlM step b = some b') : P b' := by
  induction as generalizing b with
  | nil =>
    obtain rfl := Option.some.inj hb
    exact h
  | cons a rest ih =>
    rw [List.foldlM_cons] at hb
    obtain ⟨next, hnext, hb⟩ := Option.bind_eq_some_iff.mp hb
    have hkept : P next := hstep (has a List.mem_cons_self) h hnext
    exact ih (fun a ha => has a (List.mem_cons_of_mem _ ha)) hkept hb

/-! ## drafts -/

namespace Draft

/-- what is no table in the text is none in its draft -/
inductive Proper : Draft → Prop
  | plain {v : Toml} (h : v.isTable = false) : Proper (plain v)
  | array (items : List Draft) : Proper (array items)
  | closed {fields : Fields} (h : ∀ f ∈ fields, Proper f.2) : Proper (closed fields)
  | table {origin : Origin} {fields : Fields} (h : ∀ f ∈ fields, Proper f.2) :
      Proper (table origin fields)
  | series (latest : Fields) (earlier : List Fields) : Proper (series latest earlier)

/-- all entries are proper -/
def Fields.Proper (fields : Fields) : Prop := ∀ f ∈ fields, Draft.Proper f.2

section
variable {fields : Fields} {d : Draft} {v : Toml}

theorem isTable_of_moment? (h : moment? d = some v) : v.isTable = false := by
  unfold moment? at h
  split at h
  · obtain ⟨m, _, rfl⟩ := Option.map_eq_some_iff.mp h
    rfl
  · cases h

/-- fields are put into a table one by one, the last first -/
theorem sorted_of_fieldsToml? {entries : List (String × Toml)}
    (h : ∀ f ∈ fields, ∀ {v : Toml}, f.2.toml? = some v → v.Sorted)
    (hentries : fieldsToml? fields = some entries) : (Toml.table entries).Sorted := by
  induction fields generalizing entries with
  | nil =>
    rw [fieldsToml?] at hentries
    obtain rfl := Option.some.inj hentries
    exact sorted_emptyTable
  | cons f rest ih =>
    obtain ⟨key, d⟩ := f
    rw [fieldsToml?] at hentries
    obtain ⟨v, hv, hentries⟩ := Option.bind_eq_some_iff.mp hentries
    obtain ⟨more, hmore, hentries⟩ := Option.bind_eq_some_iff.mp hentries
    obtain rfl := Option.some.inj hentries
    have hrest := ih (fun f hf => h f (List.mem_cons_of_mem _ hf)) hmore
    exact Sorted.put (h _ List.mem_cons_self hv) hrest

theorem sorted_of_tableToml? (h : ∀ f ∈ fields, ∀ {v : Toml}, f.2.toml? = some v → v.Sorted)
    (hv : tableToml? fields = some v) : v.Sorted := by
  cases fields with
  | nil =>
    rw [tableToml?] at hv
    obtain rfl := Option.some.inj hv
    exact sorted_emptyTable
  | cons f rest =>
    obtain ⟨key, d⟩ := f
    rw [tableToml?] at hv
    split at hv
    · exact .leaf (isTable_of_moment? hv)
    · have hfields : ∃ entries,
          fieldsToml? ((key, d) :: rest) = some entries ∧ Toml.table entries = v := by
        obtain ⟨w, hw, hv⟩ := Option.bind_eq_some_iff.mp hv
        obtain ⟨more, hmore, hv⟩ := Option.bind_eq_some_iff.mp hv
        refine ⟨Table.put key w more, ?_, Option.some.inj hv⟩
        rw [fieldsToml?, hw, hmore]
        rfl
      obtain ⟨entries, hentries, rfl⟩ := hfields
      exact sorted_of_fieldsToml? h hentries

theorem isTable_of_tablesToml? {after : List Toml} {earlier : List Fields}
    (h : tablesToml? after earlier = some v) : v.isTable = false := by
  induction earlier generalizing after with
  | nil =>
    rw [tablesToml?] at h
    obtain rfl := Option.some.inj h
    rfl
  | cons fields rest ih =>
    rw [tablesToml?] at h
    obtain ⟨w, _, h⟩ := Option.bind_eq_some_iff.mp h
    exact ih h

theorem Proper.sorted (hd : d.Proper) (hv : d.toml? = some v) : v.Sorted := by
  induction hd generalizing v with
  | plain h =>
    rw [toml?] at hv
    obtain rfl := Option.some.inj hv
    exact .leaf h
  | array items =>
    rw [toml?] at hv
    obtain ⟨values, _, rfl⟩ := Option.map_eq_some_iff.mp hv
    exact .leaf rfl
  | closed _ ih =>
    rw [toml?] at hv
    exact sorted_of_tableToml? ih hv
  | table _ ih =>
    rw [toml?] at hv
    exact sorted_of_tableToml? ih hv
  | series latest earlier =>
    rw [toml?] at hv
    obtain ⟨w, _, hv⟩ := Option.bind_eq_some_iff.mp hv
    exact .leaf (isTable_of_tablesToml? hv)

end

/-! ## headers and entries -/

section
variable {fields fields' : Fields} {key : String} {path : List String} {d : Draft}

theorem Fields.Proper.set (hd : d.Proper) (h : fields.Proper) : (Fields.set key d fields).Proper := by
  induction fields with
  | nil =>
    intro f hf
    obtain rfl := List.mem_singleton.mp hf
    exact hd
  | cons f rest ih =>
    obtain ⟨k, e⟩ := f
    unfold Fields.set
    split
    · exact List.forall_mem_cons.mpr ⟨hd, fun f hf => h f (List.mem_cons_of_mem _ hf)⟩
    · exact List.forall_mem_cons.mpr
        ⟨h _ List.mem_cons_self, ih fun f hf => h f (List.mem_cons_of_mem _ hf)⟩

theorem Fields.Proper.of_lookup (h : fields.Proper) (hd : fields.lookup key = some d) : d.Proper := by
  induction fields with
  | nil => cases hd
  | cons f rest ih =>
    obtain ⟨k, e⟩ := f
    rw [List.lookup_cons] at hd
    split at hd
    · obtain rfl := Option.some.inj hd
      exact h _ List.mem_cons_self
    · exact ih (fun f hf => h f (List.mem_cons_of_mem _ hf)) hd

theorem Proper.of_table {origin : Origin} {inner : Fields} (h : (Draft.table origin inner).Proper) :
    inner.Proper := by
  cases h with
  | table h => exact h

theorem proper_nil : Fields.Proper [] := fun _ h => absurd h List.not_mem_nil

/-- a field is bound to the draft that is made of new fields -/
theorem Fields.Proper.enter {inner? : Option Fields} {wrap : Fields → Draft} (h : fields.Proper)
    (hwrap : ∀ inner, inner? = some inner → (wrap inner).Proper)
    (hf : (do return Fields.set key (← inner?.map wrap) fields) = some fields') : fields'.Proper := by
  obtain ⟨entry, hentry, hf⟩ := Option.bind_eq_some_iff.mp hf
  obtain ⟨inner, hinner, rfl⟩ := Option.map_eq_some_iff.mp hentry
  obtain rfl := Option.some.inj hf
  exact Fields.Proper.set (hwrap inner hinner) h

/-- a change in a table keeps what is around it proper -/
theorem proper_alterAt {change : Fields → Option Fields}
    (hchange : ∀ {fields fields'}, Fields.Proper fields → change fields = some fields' →
      Fields.Proper fields')
    (h : fields.Proper) (hf : alterAt change path fields = some fields') : fields'.Proper := by
  induction path generalizing fields fields' with
  | nil => exact hchange h hf
  | cons key path ih =>
    rw [alterAt] at hf
    split at hf
    · exact h.enter (fun inner hinner => .table (ih proper_nil hinner)) hf
    · rename_i hlookup
      exact h.enter (fun inner hinner => .table (ih (h.of_lookup hlookup).of_table hinner)) hf
    · exact h.enter (fun latest _ => .series latest _) hf
    · cases hf

theorem proper_openTable (h : fields.Proper) (hf : openTable key fields = some fields') :
    fields'.Proper := by
  unfold openTable at hf
  split at hf
  · obtain rfl := Option.some.inj hf
    exact Fields.Proper.set (.table proper_nil) h
  · rename_i inner hlookup
    obtain rfl := Option.some.inj hf
    have hinner := (h.of_lookup hlookup).of_table
    exact Fields.Proper.set (.table hinner) fun f hf => h f (List.mem_filter.mp hf).1
  · cases hf

theorem proper_openNext (h : fields.Proper) (hf : openNext key fields = some fields') :
    fields'.Proper := by
  unfold openNext at hf
  split at hf
  · obtain rfl := Option.some.inj hf
    exact Fields.Proper.set (.series _ _) h
  · obtain rfl := Option.some.inj hf
    exact Fields.Proper.set (.series _ _) h
  · cases hf

theorem proper_insertAt {isOpen : Bool} (hd : d.Proper) (h : fields.Proper)
    (hf : insertAt isOpen key d path fields = some fields') : fields'.Proper := by
  induction path generalizing isOpen fields fields' with
  | nil =>
    rw [insertAt] at hf
    split at hf
    · obtain rfl := Option.some.inj hf
      exact Fields.Proper.set hd h
    · cases hf
  | cons next path ih =>
    rw [insertAt] at hf
    split at hf
    · exact h.enter (fun inner hinner => .table (ih proper_nil hinner)) hf
    · cases hf
    · rename_i hlookup
      exact h.enter (fun inner hinner => .table (ih (h.of_lookup hlookup).of_table hinner)) hf
    · exact h.enter (fun latest _ => .series latest _) hf
    · cases hf

theorem proper_insert (hd : d.Proper) (h : fields.Proper) (hf : insert path d fields = some fields') :
    fields'.Proper := by
  unfold insert at hf
  split at hf
  · exact proper_insertAt hd h hf
  · cases hf

theorem proper_ofEntries? {entries : List (List String × Draft)} (h : ∀ e ∈ entries, e.2.Proper)
    (hf : ofEntries? entries = some fields') : fields'.Proper :=
  foldlM_keeps proper_insert h proper_nil hf

end

end Draft

/-! ## words and values -/

/-- no value, or one that is no table -/
def NoTable (o : Option Toml) : Prop := ∀ v, o = some v → v.isTable = false

section
variable {α : Type} {o o' : Option Toml} {v : Toml}

theorem noTable_none : NoTable none := fun _ h => by cases h

theorem noTable_some (h : v.isTable = false) : NoTable (some v) := by
  intro w hw
  obtain rfl := Option.some.inj hw
  exact h

theorem noTable_bind {a? : Option α} {f : α → Option Toml} (h : ∀ a, NoTable (f a)) :
    NoTable (a?.bind f) := by
  intro v hv
  obtain ⟨a, _, hv⟩ := Option.bind_eq_some_iff.mp hv
  exact h a v hv

theorem noTable_orElse (h : NoTable o) (h' : NoTable o') : NoTable (o <|> o') := by
  cases o with
  | none => exact h'
  | some v => exact h

end

namespace Word

variable (cs : List Char)

theorem noTable_inRange? (i : Int) : NoTable (inRange? i) := by
  unfold inRange?
  split
  · exact noTable_some rfl
  · exact noTable_none

theorem noTable_based? (base : Nat) (isDigit : Char → Bool) : NoTable (based? base isDigit cs) :=
  noTable_bind fun _ => noTable_inRange? _

theorem noTable_integer? : NoTable (integer? cs) := by
  unfold integer?
  split
  · exact noTable_based? _ _ _
  · exact noTable_based? _ _ _
  · exact noTable_based? _ _ _
  · exact noTable_bind fun _ => noTable_inRange? _

theorem noTable_notFinite? (negative : Bool) : NoTable (notFinite? negative cs) := by
  unfold notFinite?
  split
  · exact noTable_some rfl
  · split
    · exact noTable_some rfl
    · exact noTable_none

theorem noTable_decimal? (negative : Bool) : NoTable (decimal? negative cs) := by
  have hlast : ∀ x : Binary64, NoTable
      (if (x.isInfinite && !negative) = true then none else some (Toml.float x)) := by
    intro x
    split
    · exact noTable_none
    · exact noTable_some rfl
  unfold decimal?
  refine noTable_bind fun _ => noTable_bind fun whole => ?_
  -- with an exponent or without, and each with a fraction or without
  split
  · split
    · exact noTable_bind fun fraction => noTable_bind fun exponent => hlast _
    · exact noTable_bind fun fraction => noTable_bind fun exponent => hlast _
  · split
    · exact noTable_bind fun fraction => noTable_bind fun exponent => hlast _
    · exact noTable_bind fun fraction => noTable_bind fun exponent => hlast _

theorem noTable_value? : NoTable (value? cs) := by
  unfold value?
  split
  · exact noTable_some rfl
  · split
    · exact noTable_some rfl
    · refine noTable_orElse ?_ (noTable_orElse (noTable_integer? cs) ?_)
      · intro v hv
        obtain ⟨m, _, rfl⟩ := Option.map_eq_some_iff.mp hv
        rfl
      · exact noTable_orElse (noTable_notFinite? _ _) (noTable_decimal? _ _)

end Word

theorem yields_word : Yields (fun v => v.isTable = false) word := by
  have hvalue : ∀ cs, Yields (fun v => v.isTable = false) (liftM (Word.value? cs) : Reader Toml) :=
    fun cs => yields_lift (Word.noTable_value? cs)
  unfold word
  refine yields_bind fun cs => yields_bind fun ahead => ?_
  split
  · split
    · exact yields_bind fun _ => yields_bind fun time => hvalue _
    · exact hvalue _
  · exact hvalue _

section
variable {value : Reader Draft}

theorem yields_arrayOf : Yields Draft.Proper (arrayOf value) :=
  yields_bind fun _ => yields_bind fun items => yields_pure (.array items)

variable (h : Yields Draft.Proper value)
include h

theorem yields_entry : Yields (fun e => e.2.Proper) (entry value) :=
  yields_bind fun _ => yields_bind fun _ => yields_bind fun _ => h.bind fun _ hd => yields_pure hd

theorem yields_tableStep : Yields (fun found => ∀ e ∈ found.1, e.2.Proper) (tableStep value) := by
  refine (yields_entry h).bind fun e he => ?_
  have hone : ∀ e' ∈ [e], e'.2.Proper := List.forall_mem_singleton.mpr he
  refine yields_bind fun _ => yields_bind fun another => ?_
  cases another with
  | true => exact yields_pure hone
  | false => exact yields_bind fun _ => yields_pure hone

theorem yields_braces : Yields Draft.Proper (braces value) := by
  refine yields_bind fun _ => yields_bind fun _ => yields_bind fun isEmpty => ?_
  cases isEmpty with
  | true => exact yields_pure (.closed Draft.proper_nil)
  | false =>
    refine (yields_tableStep h).collect.bind fun entries hentries => ?_
    refine (yields_lift fun fields => Draft.proper_ofEntries? hentries).bind fun fields hfields => ?_
    exact yields_pure (.closed hfields)

end

theorem yields_valueWith {array table : Reader Draft} (harray : Yields Draft.Proper array)
    (htable : Yields Draft.Proper table) : Yields Draft.Proper (valueWith array table) := by
  refine yields_bind fun next => ?_
  split
  · exact yields_bind fun s => yields_pure (.plain rfl)
  · exact yields_bind fun s => yields_pure (.plain rfl)
  · exact harray
  · exact htable
  · exact yields_word.bind fun v hv => yields_pure (.plain hv)

theorem yields_value (nesting : Nat) : Yields Draft.Proper (value nesting) := by
  induction nesting with
  | zero => exact yields_valueWith yields_failure yields_failure
  | succ nesting ih => exact yields_valueWith yields_arrayOf (yields_braces ih)

/-! ## texts -/

namespace Statement

/-- the draft of an entry is proper -/
def Proper : Statement → Prop
  | header _ => True
  | seriesHeader _ => True
  | entry _ d => d.Proper

theorem yields_next : Yields Proper next := by
  refine yields_bind fun isHeader => ?_
  cases isHeader with
  | true =>
    refine yields_bind fun isSeries => ?_
    cases isSeries with
    | true => exact yields_bind fun path => yields_bind fun _ => yields_bind fun _ => yields_pure trivial
    | false => exact yields_bind fun path => yields_bind fun _ => yields_pure trivial
  | false => exact (yields_entry (yields_value nestingLimit)).bind fun e he => yields_pure he

theorem yields_line : Yields (fun found => ∀ s ∈ found.1, s.Proper) line := by
  have hrest : ∀ found : List Statement, (∀ s ∈ found, s.Proper) →
      Yields (fun found => ∀ s ∈ found.1, s.Proper) (do
        blanks
        comment
        if ← lineEndIf then return (found, false)
        if (← Reader.peek).isNone then return (found, true) else failure) := by
    intro found hfound
    refine yields_bind fun _ => yields_bind fun _ => yields_bind fun isEnd => ?_
    cases isEnd with
    | true => exact yields_pure hfound
    | false =>
      refine yields_bind fun ahead => ?_
      split
      · exact yields_pure hfound
      · exact yields_failure
  have hnone : ∀ s ∈ ([] : List Statement), s.Proper := fun _ h => absurd h List.not_mem_nil
  refine yields_bind fun _ => yields_bind fun ahead => ?_
  split
  · exact hrest [] hnone
  · exact hrest [] hnone
  · exact hrest [] hnone
  · exact hrest [] hnone
  · exact yields_next.bind fun s hs => hrest [s] (List.forall_mem_singleton.mpr hs)

theorem proper_of_ofText? {text : String} {statements : List Statement}
    (h : ofText? text = some statements) : ∀ s ∈ statements, s.Proper := by
  have hall : Yields (fun found => ∀ s ∈ found, s.Proper) all := yields_bind fun _ => yields_line.collect
  exact hall.of_whole? h

end Statement

namespace Taken

theorem proper_enter {t t' : Taken} {path : List String}
    {change : String → Draft.Fields → Option Draft.Fields}
    (hchange : ∀ {key fields fields'}, Draft.Fields.Proper fields → change key fields = some fields' →
      Draft.Fields.Proper fields')
    (h : t.fields.Proper) (ht : t.enter path change = some t') : t'.fields.Proper := by
  obtain ⟨key, _, ht⟩ := Option.bind_eq_some_iff.mp ht
  obtain ⟨fields, hfields, ht⟩ := Option.bind_eq_some_iff.mp ht
  obtain rfl := Option.some.inj ht
  exact Draft.proper_alterAt hchange h hfields

theorem proper_take {t t' : Taken} {s : Statement} (hs : s.Proper) (h : t.fields.Proper)
    (ht : t.take s = some t') : t'.fields.Proper := by
  cases s with
  | header path => exact proper_enter Draft.proper_openTable h ht
  | seriesHeader path => exact proper_enter Draft.proper_openNext h ht
  | entry path d =>
    obtain ⟨fields, hfields, ht⟩ := Option.bind_eq_some_iff.mp ht
    obtain rfl := Option.some.inj ht
    exact Draft.proper_alterAt (Draft.proper_insert hs) h hfields

end Taken

/-- **what a text says is sorted** -/
theorem sorted_of_parse? {text : String} {v : Toml} (h : parse? text = some v) : v.Sorted := by
  obtain ⟨statements, hstatements, h⟩ := Option.bind_eq_some_iff.mp h
  obtain ⟨taken, htaken, h⟩ := Option.bind_eq_some_iff.mp h
  have hproper : taken.fields.Proper :=
    foldlM_keeps Taken.proper_take (Statement.proper_of_ofText? hstatements) Draft.proper_nil htaken
  exact Draft.sorted_of_tableToml? (fun f hf _ hv => (hproper f hf).sorted hv) h

end Toml

end Relay
