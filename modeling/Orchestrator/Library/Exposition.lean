import Mathlib.Data.List.Basic
import Mathlib.Data.String.Basic
import Orchestrator.Library.TextOrder

/-!
# The text format of metrics

A page of metrics has a line for each sample, with the name of its metric, its labels in braces
and its value, and lines of comments. The value of a label is quoted, and a backslash, a quote
and a line feed in it are escaped. A reader goes once over each line; it reads back what was
written.
-/

namespace Orchestrator.Library.Exposition

set_option autoImplicit false

structure Sample where
  name : String
  labels : List (String × String)
  value : String
deriving DecidableEq

/-- What a sample is a value of. -/
def Sample.series (s : Sample) : String × List (String × String) := (s.name, s.labels)

inductive Line where
  | comment (text : String)
  | sample (sample : Sample)
deriving DecidableEq

def escapeChar (c : Char) : List Char :=
  if c = '\\' then ['\\', '\\'] else if c = '\"' then ['\\', '\"']
  else if c = '\n' then ['\\', 'n'] else [c]

def escape (cs : List Char) : List Char := cs.flatMap escapeChar

def unescapeChar (c : Char) : Option Char :=
  if c = '\\' then some '\\' else if c = '\"' then some '\"'
  else if c = 'n' then some '\n' else none

def nameChar (c : Char) : Bool := c.isAlphanum || c = '_' || c = ':'

def labelText (label : String × String) : List Char :=
  label.1.toList ++ '=' :: '\"' :: (escape label.2.toList ++ ['\"'])

def labelsText (labels : List (String × String)) : List Char :=
  if labels = [] then [] else '{' :: ([','].intercalate (labels.map labelText) ++ ['}'])

def Sample.text (s : Sample) : List Char :=
  s.name.toList ++ (labelsText s.labels ++ ' ' :: s.value.toList)

def Line.text : Line → List Char
  | comment text => text.toList
  | sample s => s.text

def Line.sample? : Line → Option Sample
  | comment _ => none
  | sample s => some s

def page (lines : List Line) : String :=
  String.intercalate "\n" (lines.map fun line => String.ofList line.text) ++ "\n"

/-- How far the reader has got with a line. -/
inductive Scan where
  | name (read : List Char)
  | label (metric : List Char) (labels : List (String × String)) (read : List Char)
  | assigned (metric : List Char) (labels : List (String × String)) (key : List Char)
  | quoted (metric : List Char) (labels : List (String × String)) (key read : List Char)
  | escaped (metric : List Char) (labels : List (String × String)) (key read : List Char)
  | closed (metric : List Char) (labels : List (String × String))
  | labelled (metric : List Char) (labels : List (String × String))
  | value (metric : List Char) (labels : List (String × String)) (read : List Char)
  | failed

namespace Scan

def next : Scan → Char → Scan
  | name read, c =>
    if nameChar c then name (read ++ [c]) else if c = '{' then label read [] []
    else if c = ' ' then value read [] [] else failed
  | label metric labels read, c =>
    if nameChar c then label metric labels (read ++ [c])
    else if c = '=' ∧ read ≠ [] then assigned metric labels read else failed
  | assigned metric labels key, c =>
    if c = '\"' then quoted metric labels key [] else failed
  | quoted metric labels key read, c =>
    if c = '\\' then escaped metric labels key read
    else if c = '\"' then closed metric (labels ++ [(String.ofList key, String.ofList read)])
    else quoted metric labels key (read ++ [c])
  | escaped metric labels key read, c =>
    match unescapeChar c with
    | some c => quoted metric labels key (read ++ [c])
    | none => failed
  | closed metric labels, c =>
    if c = ',' then label metric labels [] else if c = '}' then labelled metric labels else failed
  | labelled metric labels, c => if c = ' ' then value metric labels [] else failed
  | value metric labels read, c => if c = ' ' then failed else value metric labels (read ++ [c])
  | failed, _ => failed

def sample? : Scan → Option Sample
  | value metric labels read =>
    if metric = [] ∨ read = [] then none
    else some ⟨String.ofList metric, labels, String.ofList read⟩
  | _ => none

end Scan

def readSample (line : List Char) : Option Sample := (line.foldl Scan.next (.name [])).sample?

def silent (line : List Char) : Bool := line.head?.all (· = '#')

def readLines (lines : List (List Char)) : Option (List Sample) :=
  (lines.filter fun line => !silent line).mapM readSample

def read (page : String) : Option (List Sample) := readLines (page.toList.splitOn '\n')

def isName (s : String) : Bool := s ≠ "" && s.toList.all nameChar

def isComment (text : String) : Bool :=
  text.toList.head? = some '#' && !text.toList.contains '\n'

structure Sample.Legal (s : Sample) : Prop where
  name : isName s.name = true
  labels : ∀ label ∈ s.labels, isName label.1 = true
  value : s.value ≠ "" ∧ ' ' ∉ s.value.toList ∧ '\n' ∉ s.value.toList

def Line.Legal : Line → Prop
  | comment text => isComment text = true
  | sample s => s.Legal

section Escapes
variable {c : Char} {cs : List Char}

theorem escapeChar_of_plain (h : c ∉ ['\\', '\"', '\n']) : escapeChar c = [c] := by
  simp only [List.mem_cons, List.not_mem_nil, or_false, not_or] at h
  rw [escapeChar, if_neg h.1, if_neg h.2.1, if_neg h.2.2]

theorem escape_of_plain (h : ∀ c ∈ cs, c ∉ ['\\', '\"', '\n']) : escape cs = cs := by
  induction cs with
  | nil => rfl
  | cons c cs ih =>
    rw [escape, List.flatMap_cons, escapeChar_of_plain (h c List.mem_cons_self)]
    exact congrArg (c :: ·) (ih fun d hd => h d (List.mem_cons_of_mem c hd))

theorem newline_notMem_escape (cs : List Char) : '\n' ∉ escape cs := by
  intro hmem
  obtain ⟨c, -, hc⟩ := List.mem_flatMap.mp hmem
  unfold escapeChar at hc
  split_ifs at hc with h₁ h₂ h₃
  · revert hc
    decide
  · revert hc
    decide
  · revert hc
    decide
  · exact h₃ (List.mem_singleton.mp hc).symm

end Escapes

theorem toList_ne_nil {s : String} (h : s ≠ "") : s.toList ≠ [] :=
  fun hnil => h (String.toList_inj.mp hnil)

theorem isComment_iff {text : String} :
    isComment text = true ↔ text.toList.head? = some '#' ∧ '\n' ∉ text.toList := by
  simp [isComment]

theorem isName_iff {s : String} :
    isName s = true ↔ s.toList ≠ [] ∧ ∀ c ∈ s.toList, nameChar c = true := by
  rw [isName, Bool.and_eq_true, decide_eq_true_eq, List.all_eq_true]
  exact and_congr_left' ⟨toList_ne_nil, fun h heq => h (congrArg String.toList heq)⟩

section Lines
variable {metric key read cs : List Char} {labels : List (String × String)}

theorem foldl_collects (state : List Char → Scan)
    (h : ∀ read, ∀ c ∈ cs, (state read).next c = state (read ++ [c])) :
    cs.foldl Scan.next (state read) = state (read ++ cs) := by
  induction cs generalizing read with
  | nil => rw [List.append_nil, List.foldl_nil]
  | cons c cs ih =>
    have hrest : ∀ read, ∀ d ∈ cs, (state read).next d = state (read ++ [d]) :=
      fun read d hd => h read d (List.mem_cons_of_mem c hd)
    rw [List.foldl_cons, h read c List.mem_cons_self, ih hrest, List.append_assoc,
      List.singleton_append]

theorem foldl_name (h : ∀ c ∈ cs, nameChar c = true) :
    cs.foldl Scan.next (.name read) = .name (read ++ cs) :=
  foldl_collects Scan.name fun _ c hc => if_pos (h c hc)

theorem foldl_label (h : ∀ c ∈ cs, nameChar c = true) :
    cs.foldl Scan.next (.label metric labels read) = .label metric labels (read ++ cs) :=
  foldl_collects (Scan.label metric labels) fun _ c hc => if_pos (h c hc)

theorem foldl_value (h : ' ' ∉ cs) :
    cs.foldl Scan.next (.value metric labels read) = .value metric labels (read ++ cs) := by
  apply foldl_collects (Scan.value metric labels)
  intro read c hc
  have hblank : c ≠ ' ' := ne_of_mem_of_not_mem hc h
  exact if_neg hblank

theorem foldl_escapeChar (c : Char) :
    (escapeChar c).foldl Scan.next (.quoted metric labels key read) =
      .quoted metric labels key (read ++ [c]) := by
  unfold escapeChar
  split_ifs with hslash hquote hline
  · rw [hslash]
    rfl
  · rw [hquote]
    rfl
  · rw [hline]
    rfl
  · rw [List.foldl_cons, List.foldl_nil, Scan.next, if_neg hslash, if_neg hquote]

theorem foldl_escape (cs : List Char) :
    (escape cs).foldl Scan.next (.quoted metric labels key read) =
      .quoted metric labels key (read ++ cs) := by
  induction cs generalizing read with
  | nil => rw [List.append_nil]; rfl
  | cons c cs ih =>
    have hrest : (escape cs).foldl Scan.next (.quoted metric labels key (read ++ [c])) =
        .quoted metric labels key (read ++ [c] ++ cs) := ih
    rw [escape, List.flatMap_cons, List.foldl_append, foldl_escapeChar]
    rw [List.append_assoc, List.singleton_append] at hrest
    exact hrest

theorem foldl_labelText {label : String × String} (h : isName label.1 = true) :
    (labelText label).foldl Scan.next (.label metric labels []) =
      .closed metric (labels ++ [label]) := by
  obtain ⟨hkey, hchars⟩ := isName_iff.mp h
  have hassign : (Scan.label metric labels label.1.toList).next '=' =
      .assigned metric labels label.1.toList := by
    rw [Scan.next, if_neg (by decide), if_pos ⟨rfl, hkey⟩]
  have hopen : (Scan.assigned metric labels label.1.toList).next '\"' =
      .quoted metric labels label.1.toList [] := rfl
  have hclose : (Scan.quoted metric labels label.1.toList label.2.toList).next '\"' =
      .closed metric (labels ++ [label]) := by
    rw [Scan.next, if_neg (by decide), if_pos rfl, String.ofList_toList, String.ofList_toList]
  rw [labelText, List.foldl_append, foldl_label hchars, List.nil_append, List.foldl_cons, hassign,
    List.foldl_cons, hopen, List.foldl_append, foldl_escape, List.nil_append, List.foldl_cons,
    List.foldl_nil, hclose]

theorem foldl_labels {label : String × String} {rest : List (String × String)}
    (h : ∀ l ∈ label :: rest, isName l.1 = true) :
    ([','].intercalate ((label :: rest).map labelText)).foldl Scan.next (.label metric labels []) =
      .closed metric (labels ++ label :: rest) := by
  induction rest generalizing label labels with
  | nil =>
    rw [List.map_singleton, List.intercalate_singleton]
    exact foldl_labelText (h label List.mem_cons_self)
  | cons label' rest ih =>
    have hcomma : (Scan.closed metric (labels ++ [label])).next ',' =
        .label metric (labels ++ [label]) [] := rfl
    have hrest : ([','].intercalate ((label' :: rest).map labelText)).foldl Scan.next
        (.label metric (labels ++ [label]) []) =
          .closed metric (labels ++ [label] ++ label' :: rest) :=
      ih fun l hl => h l (List.mem_cons_of_mem label hl)
    rw [List.map_cons, List.map_cons, List.intercalate_cons_cons, List.foldl_append,
      List.foldl_append, foldl_labelText (h label List.mem_cons_self), List.foldl_cons,
      List.foldl_nil, hcomma]
    rw [List.map_cons] at hrest
    rw [hrest, List.append_assoc, List.singleton_append]

theorem foldl_labelsText (h : ∀ l ∈ labels, isName l.1 = true) :
    (labelsText labels ++ [' ']).foldl Scan.next (.name metric) = .value metric labels [] := by
  have hblank : (Scan.name metric).next ' ' = .value metric [] [] := by
    rw [Scan.next, if_neg (by decide), if_neg (by decide), if_pos rfl]
  have hopen : (Scan.name metric).next '{' = .label metric [] [] := by
    rw [Scan.next, if_neg (by decide), if_pos rfl]
  cases labels with
  | nil => exact hblank
  | cons label rest =>
    have hend : (Scan.closed metric (label :: rest)).next '}' =
        .labelled metric (label :: rest) := by
      rw [Scan.next, if_neg (by decide), if_pos rfl]
    have hvalue : (Scan.labelled metric (label :: rest)).next ' ' =
        .value metric (label :: rest) [] := rfl
    rw [labelsText, if_neg (List.cons_ne_nil _ _), List.cons_append, List.append_assoc,
      List.foldl_cons, hopen, List.foldl_append, foldl_labels h, List.nil_append,
      List.singleton_append, List.foldl_cons, hend, List.foldl_cons, hvalue, List.foldl_nil]

theorem readSample_text {s : Sample} (h : s.Legal) : readSample s.text = some s := by
  obtain ⟨hname, hlabels, hvalue, hblank, -⟩ := h
  have hline : s.text = s.name.toList ++ ((labelsText s.labels ++ [' ']) ++ s.value.toList) := by
    rw [Sample.text, List.append_assoc, List.singleton_append]
  obtain ⟨hmetric, hchars⟩ := isName_iff.mp hname
  rw [readSample, hline, List.foldl_append, foldl_name hchars, List.nil_append,
    List.foldl_append, foldl_labelsText hlabels, foldl_value hblank, List.nil_append, Scan.sample?,
    if_neg (not_or.mpr ⟨hmetric, toList_ne_nil hvalue⟩), String.ofList_toList, String.ofList_toList]

end Lines

section Pages
variable {lines : List Line} {labels : List (String × String)}

theorem newline_notMem_name {s : String} (h : isName s = true) : '\n' ∉ s.toList := by
  intro hmem
  have hchar := (isName_iff.mp h).2 '\n' hmem
  revert hchar
  decide

theorem newline_notMem_label {label : String × String} (h : isName label.1 = true) :
    '\n' ∉ labelText label := by
  intro hmem
  simp only [labelText, List.mem_append, List.mem_cons, List.not_mem_nil, or_false] at hmem
  rcases hmem with hmem | hmem | hmem | hmem | hmem
  · exact newline_notMem_name h hmem
  · exact absurd hmem (by decide)
  · exact absurd hmem (by decide)
  · exact newline_notMem_escape _ hmem
  · exact absurd hmem (by decide)

theorem newline_notMem_labels (h : ∀ l ∈ labels, isName l.1 = true) : '\n' ∉ labelsText labels := by
  have hlabels : ∀ c ∈ [','].intercalate (labels.map labelText), c ≠ '\n' := by
    refine TextOrder.forall_intercalate (by decide) fun piece hpiece c hc => ?_
    obtain ⟨label, hlabel, rfl⟩ := List.mem_map.mp hpiece
    exact ne_of_mem_of_not_mem hc (newline_notMem_label (h label hlabel))
  rw [labelsText]
  split_ifs
  · exact List.not_mem_nil
  · intro hmem
    simp only [List.mem_cons, List.mem_append, List.not_mem_nil, or_false] at hmem
    rcases hmem with hmem | hmem | hmem
    · exact absurd hmem (by decide)
    · exact hlabels _ hmem rfl
    · exact absurd hmem (by decide)

theorem newline_notMem_text {line : Line} (h : line.Legal) : '\n' ∉ line.text := by
  cases line with
  | comment text => exact (isComment_iff.mp h).2
  | sample s =>
    obtain ⟨hname, hlabels, -, -, hvalue⟩ := h
    intro hmem
    simp only [Line.text, Sample.text, List.mem_append, List.mem_cons] at hmem
    rcases hmem with hmem | hmem | hmem | hmem
    · exact newline_notMem_name hname hmem
    · exact newline_notMem_labels hlabels hmem
    · exact absurd hmem (by decide)
    · exact hvalue hmem

theorem page_append {lines' : List Line} (h : lines ≠ []) (h' : lines' ≠ []) :
    page (lines ++ lines') = page lines ++ page lines' := by
  have hne : (lines.map fun line => String.ofList line.text) ≠ [] := by simpa using h
  have hne' : (lines'.map fun line => String.ofList line.text) ≠ [] := by simpa using h'
  rw [page, List.map_append, String.intercalate_append_of_ne_nil hne hne', page, page]
  simp only [String.append_assoc]

theorem toList_page (h : lines ≠ []) :
    (page lines).toList = ['\n'].intercalate (lines.map Line.text ++ [[]]) := by
  have hne : (lines.map fun line => String.ofList line.text) ≠ [] := by simpa using h
  have hpage : page lines =
      String.intercalate "\n" ((lines.map fun line => String.ofList line.text) ++ [""]) := by
    rw [String.intercalate_append_of_ne_nil hne (List.cons_ne_nil _ _),
      String.intercalate_singleton, String.append_empty, page]
  have htexts : (lines.map fun line => String.ofList line.text).map String.toList =
      lines.map Line.text := by
    rw [List.map_map]
    exact List.map_congr_left fun line _ => String.toList_ofList
  rw [hpage, String.toList_intercalate, List.map_append, htexts]
  rfl

theorem silent_sample {s : Sample} (h : isName s.name = true) : silent s.text = false := by
  obtain ⟨hne, hchars⟩ := isName_iff.mp h
  obtain ⟨c, cs, hcons⟩ := List.exists_cons_of_ne_nil hne
  have hc : c ≠ '#' := by
    rintro rfl
    have hchar := hchars '#' (hcons ▸ List.mem_cons_self)
    revert hchar
    decide
  rw [silent, Sample.text, hcons]
  simpa using hc

theorem readLines_text (h : ∀ line ∈ lines, line.Legal) :
    readLines (lines.map Line.text) = some (lines.filterMap Line.sample?) := by
  induction lines with
  | nil => rfl
  | cons line lines ih =>
    have hline := h line List.mem_cons_self
    have ih := ih fun line' hmem => h line' (List.mem_cons_of_mem line hmem)
    unfold readLines at ih ⊢
    cases line with
    | comment text =>
      have hsilent : silent (Line.comment text).text = true := by
        rw [silent, Line.text, (isComment_iff.mp hline).1]
        rfl
      rw [List.map_cons, List.filter_cons_of_neg (by simp [hsilent]), ih]
      rfl
    | sample s =>
      have hspeaks : silent (Line.sample s).text = false := silent_sample hline.name
      rw [List.map_cons, List.filter_cons_of_pos (by simp [hspeaks]), List.mapM_cons, ih,
        Line.text, readSample_text hline]
      rfl

/-- A page is read back as the samples that were written on it. -/
theorem read_page (hne : lines ≠ []) (h : ∀ line ∈ lines, line.Legal) :
    read (page lines) = some (lines.filterMap Line.sample?) := by
  have hlines : ∀ text ∈ lines.map Line.text ++ [[]], '\n' ∉ text := by
    intro text hmem
    rcases List.mem_append.mp hmem with hmem | hmem
    · obtain ⟨line, hline, rfl⟩ := List.mem_map.mp hmem
      exact newline_notMem_text (h line hline)
    · rw [List.mem_singleton.mp hmem]
      exact List.not_mem_nil
  have hsilent : readLines (lines.map Line.text ++ [[]]) = readLines (lines.map Line.text) := by
    rw [readLines, List.filter_append, List.filter_cons_of_neg (by decide), List.filter_nil,
      List.append_nil]
    rfl
  rw [read, toList_page hne, List.splitOn_intercalate _ hlines (by simp), hsilent, readLines_text h]

end Pages

end Orchestrator.Library.Exposition
