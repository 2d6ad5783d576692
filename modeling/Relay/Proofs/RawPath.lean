import Relay.RawPath
import Relay.Proofs.Path

/-!
# Steps of paths of bytes

What can be read of a joined path is what can be read of the directory, joined to the same path
(`lossyText_join`): the slash between them is a byte of its own, whatever stands in front of it.

`RawPath.components` reads a path of bytes as the steps it takes. If the path is text they are the steps of
the text (`components_ofText`), and it is text if the names of its steps are (`isText_of_components`).
-/

namespace Relay.RawPath

/-! ## what can be read -/

theorem utf8EncodeChar_slash : String.utf8EncodeChar '/' = [slash] := rfl

theorem lossyText_ofText (text : String) : (ofText text).lossyText = text := by
  rw [lossyText, ofText, Text.decode_encode, String.ofList_toList]

theorem toList_lossyText (p : RawPath) : p.lossyText.toList = Text.decode p.bytes :=
  String.toList_ofList

theorem decode_append_slash (front : List UInt8) (path : String) :
    Text.decode (front ++ slash :: (ofText path).bytes) = Text.decode front ++ '/' :: path.toList := by
  rw [Text.decode_append_sep utf8EncodeChar_slash, ofText, Text.decode_encode]

section
variable {directory : RawPath} {b : UInt8} (h : directory.bytes.getLast? = some b)
include h

theorem toList_lossyText_of_slash (hb : b = slash) :
    ∃ front, directory.bytes = front ++ [slash] ∧
      directory.lossyText.toList = Text.decode front ++ ['/'] := by
  obtain ⟨front, hfront⟩ := List.getLast?_eq_some_iff.mp h
  rw [hb] at hfront
  refine ⟨front, hfront, ?_⟩
  rw [toList_lossyText, hfront, Text.decode_append_sep utf8EncodeChar_slash]
  rfl

theorem exists_getLast?_lossyText (hb : b ≠ slash) :
    ∃ c, directory.lossyText.toList.getLast? = some c ∧ c ≠ '/' := by
  obtain ⟨front, hfront⟩ := List.getLast?_eq_some_iff.mp h
  rw [toList_lossyText]
  have hne : Text.decode directory.bytes ≠ [] := by
    rw [Ne, Text.decode_eq_nil_iff, hfront]
    exact List.concat_ne_nil b front
  refine ⟨_, List.getLast?_eq_some_getLast hne, fun hslash => hb ?_⟩
  have hread : Text.decode directory.bytes = (Text.decode directory.bytes).dropLast ++ ['/'] := by
    rw [← hslash, List.dropLast_append_getLast hne]
  obtain ⟨_, hbytes⟩ := Text.exists_append_of_decode utf8EncodeChar_slash hread
  rw [hbytes, List.getLast?_concat] at h
  exact (Option.some.inj h).symm

end

/-- **joining and reading may be done in either order** -/
theorem lossyText_join (directory : RawPath) (path : String) :
    (directory.join path).lossyText = Path.join directory.lossyText path := by
  unfold join Path.join
  by_cases habsolute : Path.isAbsolute path = true
  · rw [if_pos habsolute, if_pos habsolute, lossyText_ofText]
  rw [if_neg habsolute, if_neg habsolute]
  refine String.toList_inj.mp ?_
  cases hlast : directory.bytes.getLast? with
  | none =>
    have hempty : directory.lossyText.toList = [] := by
      rw [toList_lossyText, List.getLast?_eq_none_iff.mp hlast]
      rfl
    rw [hempty]
    exact congrArg String.toList (lossyText_ofText path)
  | some b =>
    by_cases hb : b = slash
    · obtain ⟨front, hfront, hread⟩ := toList_lossyText_of_slash hlast hb
      simp only [hread, List.getLast?_concat, if_pos hb, if_true, String.toList_append]
      rw [toList_lossyText, hfront, List.append_assoc, List.singleton_append, decode_append_slash,
        List.append_assoc, List.singleton_append]
    · obtain ⟨c, hc, hne⟩ := exists_getLast?_lossyText hlast hb
      simp only [hc, if_neg hb, if_neg hne, String.toList_append]
      rw [toList_lossyText, decode_append_slash, toList_lossyText, List.append_assoc]
      rfl

/-! ## steps -/

/-- one step of a path, as `Path.Component`, whose name need not be text -/
inductive Component
  | root
  | current
  | parent
  | normal (name : List UInt8)
deriving DecidableEq

def dot : UInt8 := 0x2E

/-- a step that a run between slashes takes, after the start of a path -/
def ofRun? (run : List UInt8) : Option Component :=
  if run = [] ∨ run = [dot] then none
  else if run = [dot, dot] then some .parent
  else some (.normal run)

/-- the steps of a path -/
def components (p : RawPath) : List Component :=
  let runs := Text.split slash p.bytes
  if p.bytes.head? = some slash then .root :: runs.filterMap ofRun?
  else if runs.head? = some [dot] then .current :: runs.tail.filterMap ofRun?
  else runs.filterMap ofRun?

/-- a step of a text, in bytes -/
def Component.ofText : Path.Component → Component
  | .root => .root
  | .current => .current
  | .parent => .parent
  | .normal name => .normal (Text.encode name.toList)

theorem ofRun?_encode (run : List Char) :
    ofRun? (Text.encode run) = (Path.ofRun? run).map Component.ofText := by
  have hnil : Text.encode run = [] ↔ run = [] := Text.encode_inj run []
  have hcurrent : Text.encode run = [dot] ↔ run = ['.'] := Text.encode_inj run ['.']
  have hparent : Text.encode run = [dot, dot] ↔ run = ['.', '.'] := Text.encode_inj run ['.', '.']
  unfold ofRun? Path.ofRun?
  simp only [hnil, hcurrent, hparent]
  split
  · rfl
  · split
    · rfl
    · simp [Component.ofText]

theorem head?_ofText (text : String) :
    (ofText text).bytes.head? = some slash ↔ Path.isAbsoluteChars text.toList = true := by
  unfold ofText
  cases text.toList with
  | nil => exact iff_of_false (by simp [Text.encode]) (by simp [Path.isAbsoluteChars])
  | cons c cs =>
    by_cases hc : c = '/'
    · subst hc
      exact iff_of_true rfl rfl
    · refine iff_of_false (fun hhead => hc ?_) (by simp [Path.isAbsoluteChars, hc])
      rw [Text.encode_cons, List.head?_append_of_ne_nil _ String.utf8EncodeChar_ne_nil] at hhead
      exact (Text.mem_utf8EncodeChar_iff utf8EncodeChar_slash c).mp (List.mem_of_mem_head? hhead)

section
variable (runs : List (List Char))

theorem filterMap_ofRun?_encode : (runs.map Text.encode).filterMap ofRun? =
    (runs.filterMap Path.ofRun?).map Component.ofText := by
  rw [List.filterMap_map, List.map_filterMap]
  exact List.filterMap_congr fun run _ => ofRun?_encode run

theorem head?_map_encode : (runs.map Text.encode).head? = some [dot] ↔ runs.head? = some ['.'] := by
  cases runs with
  | nil => exact iff_of_false (by simp) (by simp)
  | cons run runs =>
    rw [List.map_cons, List.head?_cons, List.head?_cons, Option.some_inj, Option.some_inj]
    exact Text.encode_inj run ['.']

end

/-- **the steps of a text** -/
theorem components_ofText (text : String) :
    (ofText text).components = (Path.components text).map Component.ofText := by
  have hruns : Text.split slash (ofText text).bytes = (Text.split '/' text.toList).map Text.encode :=
    Text.split_encode utf8EncodeChar_slash text.toList
  unfold components
  simp only [hruns, head?_map_encode, head?_ofText, ← List.map_tail, filterMap_ofRun?_encode]
  rw [Path.components, Path.componentsOfChars]
  simp only [apply_ite (List.map Component.ofText), List.map_cons, Component.ofText]

/-! ## paths that are text -/

def IsText (p : RawPath) : Prop := ∃ text, p = ofText text

theorem mem_components {p : RawPath} {run : List UInt8} {step : Component}
    (hrun : run ∈ Text.split slash p.bytes) (hstep : ofRun? run = some step) :
    step ∈ p.components := by
  have hmem : step ∈ (Text.split slash p.bytes).filterMap ofRun? :=
    List.mem_filterMap.mpr ⟨run, hrun, hstep⟩
  unfold components
  simp only
  split
  · exact List.mem_cons_of_mem _ hmem
  · split
    · rename_i hhead
      obtain ⟨runs, hruns⟩ := List.head?_eq_some_iff.mp hhead
      rw [hruns, List.filterMap_cons_none rfl] at hmem
      rw [hruns]
      exact List.mem_cons_of_mem _ hmem
    · exact hmem

/-- **a path is text if all names on it are** -/
theorem isText_of_components {p : RawPath}
    (h : ∀ name, .normal name ∈ p.components → ∃ cs, name = Text.encode cs) : p.IsText := by
  have hruns : ∀ run ∈ Text.split slash p.bytes, Text.encode (Text.decode run) = run := by
    intro run hrun
    suffices hcs : ∃ cs, run = Text.encode cs by
      obtain ⟨cs, rfl⟩ := hcs
      rw [Text.decode_encode]
    by_cases hnil : run = []
    · exact ⟨[], hnil⟩
    by_cases hcurrent : run = [dot]
    · exact ⟨['.'], hcurrent⟩
    by_cases hparent : run = [dot, dot]
    · exact ⟨['.', '.'], hparent⟩
    refine h run (mem_components hrun ?_)
    rw [ofRun?, if_neg (not_or.mpr ⟨hnil, hcurrent⟩), if_neg hparent]
  have hall : ((Text.split slash p.bytes).map Text.decode).map Text.encode =
      Text.split slash p.bytes := by
    rw [List.map_map]
    exact (List.map_congr_left hruns).trans (List.map_id _)
  refine ⟨String.ofList (Text.join '/' ((Text.split slash p.bytes).map Text.decode)), ?_⟩
  rw [ofText, String.toList_ofList, Text.encode_join utf8EncodeChar_slash, hall, Text.join_split]

/-- **what is not text lies above no text** -/
theorem isText_of_prefix {p : RawPath} {text : String} (h : p.components <+: (ofText text).components) :
    p.IsText := by
  refine isText_of_components fun name hname => ?_
  have hmem := h.subset hname
  rw [components_ofText] at hmem
  obtain ⟨step, -, hstep⟩ := List.mem_map.mp hmem
  cases step with
  | normal name => exact ⟨name.toList, (Component.normal.inj hstep).symm⟩
  | root | current | parent => cases hstep

end Relay.RawPath
