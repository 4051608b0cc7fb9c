import Cnd.Proofs.FileTree.Name
import Cnd.Proofs.Reading.Exact
import Cnd.Proofs.Reading.Failure
import Cnd.Proofs.Text.Digit
import Cnd.Proofs.Token.Print

/-!
The lines of a report of workflow commands.

The command of a finding is a head of one line with the message behind it (`command_eq`), and nothing in
the message is escaped: it goes on in as many lines as it has itself (`linesOf_commands`). So each finding
is one line just if no message holds a line feed (`lines_of_commands`), and a quoted text that stands
where it may not puts any line into a message (`lintFile_quotedLine`).
-/

namespace Cnd

/-! ## Lines -/

namespace Text

/-- The lines of a text in which each is ended by a line feed. -/
def linesOf (text : List Char) : List (List Char) := (text.splitOn '\n').dropLast

theorem splitOn_ended (texts : List (List Char)) :
    (texts.flatMap (· ++ ['\n'])).splitOn '\n' = texts.flatMap (·.splitOn '\n') ++ [[]] := by
  induction texts with
  | nil => rfl
  | cons s texts ih =>
    rw [List.flatMap_cons, List.flatMap_cons, List.append_assoc, List.singleton_append,
      List.splitOn_append_cons_self, ih, List.append_assoc]

/-- Texts that are ended one after the other have their lines one after the other. -/
theorem linesOf_ended (texts : List (List Char)) :
    linesOf (texts.flatMap (· ++ ['\n'])) = texts.flatMap (·.splitOn '\n') := by
  rw [linesOf, splitOn_ended, List.dropLast_concat]

/-- The lines of a text that is ended are all of it, and none of them holds a line feed. -/
theorem ended_splitOn (s : List Char) : (s.splitOn '\n').flatMap (· ++ ['\n']) = s ++ ['\n'] := by
  induction s with
  | nil => rfl
  | cons d s ih =>
    obtain ⟨l, ls, hls⟩ := List.exists_cons_of_ne_nil (List.splitOn_ne_nil '\n' s)
    rw [List.splitOn_cons_eq_if_modifyHead]
    split
    · rename_i hd
      rw [List.flatMap_cons, ih, eq_of_beq hd]
      rfl
    · rw [hls] at ih ⊢
      simpa using ih

theorem feed_not_mem_splitOn {s l : List Char} (h : l ∈ s.splitOn '\n') : '\n' ∉ l := by
  induction s generalizing l with
  | nil => simp_all
  | cons d s ih =>
    obtain ⟨l', ls, hls⟩ := List.exists_cons_of_ne_nil (List.splitOn_ne_nil '\n' s)
    rw [List.splitOn_cons_eq_if_modifyHead] at h
    rw [hls] at h ih
    split at h
    · rcases List.mem_cons.1 h with rfl | h
      · simp
      · exact ih h
    · rename_i hd
      rcases List.mem_cons.1 h with rfl | h
      · have hne : '\n' ≠ d := fun heq => hd (beq_iff_eq.2 heq.symm)
        exact List.not_mem_cons_of_ne_of_not_mem hne (ih List.mem_cons_self)
      · exact ih (List.mem_cons_of_mem _ h)

theorem length_splitOn (c : Char) (s : List Char) : (s.splitOn c).length = s.count c + 1 := by
  induction s with
  | nil => rfl
  | cons d s ih =>
    rw [List.splitOn_cons_eq_if_modifyHead, List.count_cons]
    cases d == c <;> simp [ih]

/-- What is put in front of a text is in front of its first line. -/
theorem splitOn_append {c : Char} {front : List Char} (h : c ∉ front) (s : List Char) :
    (front ++ s).splitOn c = (s.splitOn c).modifyHead (front ++ ·) := by
  induction front with
  | nil => exact (congrFun List.modifyHead_id (s.splitOn c)).symm
  | cons d front ih =>
    obtain ⟨hd, hfront⟩ := not_or.1 (mt List.mem_cons.2 h)
    rw [List.cons_append, List.splitOn_cons_eq_if_modifyHead, if_neg (by simpa using Ne.symm hd),
      ih hfront, List.modifyHead_modifyHead]
    rfl

theorem feed_not_mem_decimalInt (n : Int) : '\n' ∉ (decimalInt n).toList := by
  have hdigits : '\n' ∉ (decimal n.natAbs).toList := by
    intro h
    rw [decimal, String.toList_ofList] at h
    exact absurd (mem_toDigits h) (by decide)
  unfold decimalInt
  split
  · simpa using hdigits
  · exact hdigits

end Text

namespace Lint

open Text (linesOf)

/-! ## Entries -/

/-- An error or a warning in a file. -/
structure Entry where
  isError : Bool
  file : FilePath
  finding : Finding

namespace Entry

def kind (e : Entry) : String := if e.isError then "error" else "warning"

/-- The workflow command of an entry. -/
def command (e : Entry) : String := e.finding.command e.kind e.file

/-- What stands in front of the message. -/
def head (e : Entry) : String :=
  s!"::{e.kind} file={e.file.text},line={Text.decimalInt (e.finding.line.getD 1)},col=" ++
    s!"{Text.decimalInt (e.finding.column.getD 1)}::"

/-- The lines of the message, with the head in front of the first. -/
def lines (e : Entry) : List (List Char) :=
  (e.finding.message.toList.splitOn '\n').modifyHead (e.head.toList ++ ·)

/-- How many line feeds the message holds. -/
def feeds (e : Entry) : Nat := e.finding.message.toList.count '\n'

theorem command_eq (e : Entry) : e.command = e.head ++ e.finding.message := by
  simp [command, head, Finding.command, toString, String.append_assoc]

theorem feed_not_mem_head {e : Entry} (h : '\n' ∉ e.file.text.toList) : '\n' ∉ e.head.toList := by
  have hkind : '\n' ∉ e.kind.toList := by
    unfold kind
    cases e.isError <;> decide
  simp [head, toString, hkind, h, Text.feed_not_mem_decimalInt]

theorem splitOn_command {e : Entry} (h : '\n' ∉ e.file.text.toList) :
    e.command.toList.splitOn '\n' = e.lines := by
  rw [command_eq, String.toList_append, Text.splitOn_append (feed_not_mem_head h), lines]

theorem length_lines (e : Entry) : e.lines.length = e.feeds + 1 := by
  rw [lines, List.length_modifyHead, Text.length_splitOn, feeds]

theorem lines_of_feeds_eq_zero {e : Entry} (h : e.feeds = 0) : e.lines = [e.command.toList] := by
  rw [feeds, List.count_eq_zero] at h
  rw [lines, List.splitOn_eq_singleton h, command_eq, String.toList_append]
  rfl

end Entry

/-- The entries of a report: its errors, and then its warnings. -/
def FileReport.entries (r : FileReport) : List Entry :=
  r.errors.map (⟨true, r.file, ·⟩) ++ r.warnings.map (⟨false, r.file, ·⟩)

theorem commands_eq (r : FileReport) : r.commands = r.entries.map Entry.command := by
  simp [FileReport.commands, FileReport.entries, Entry.command, Entry.kind, Function.comp_def]

theorem file_of_mem_entries {r : FileReport} {e : Entry} (h : e ∈ r.entries) : e.file = r.file := by
  rcases List.mem_append.1 h with h | h <;> obtain ⟨f, -, rfl⟩ := List.mem_map.1 h <;> rfl

/-! ## Reports -/

variable {reports : List FileReport}

theorem toList_print (reports : List FileReport) : (Format.commands.print reports).toList =
    ((reports.flatMap FileReport.entries).map (·.command.toList)).flatMap (· ++ ['\n']) := by
  have hlines : Format.commands.lines reports =
      (reports.flatMap FileReport.entries).map Entry.command := by
    rw [Format.lines, List.map_flatMap]
    exact List.flatMap_congr fun r _ => commands_eq r
  rw [Format.print, hlines, String.toList_join]
  simp [List.flatMap_map, Function.comp_def]

theorem linesOf_commands (h : ∀ r ∈ reports, '\n' ∉ r.file.text.toList) :
    linesOf (Format.commands.print reports).toList =
      (reports.flatMap FileReport.entries).flatMap Entry.lines := by
  rw [toList_print, Text.linesOf_ended, List.flatMap_map]
  refine List.flatMap_congr fun e he => ?_
  obtain ⟨r, hr, he⟩ := List.mem_flatMap.1 he
  exact Entry.splitOn_command (file_of_mem_entries he ▸ h r hr)

theorem length_flatMap_lines (entries : List Entry) :
    (entries.flatMap Entry.lines).length = entries.length + (entries.map Entry.feeds).sum := by
  induction entries with
  | nil => rfl
  | cons e entries ih =>
    rw [List.flatMap_cons, List.length_append, Entry.length_lines, ih, List.length_cons, List.map_cons,
      List.sum_cons]
    omega

theorem feeds_eq_zero_iff {e : Entry} : e.feeds = 0 ↔ '\n' ∉ e.finding.message.toList :=
  List.count_eq_zero

/-- As many lines as entries, or one line with the command of each: both mean that no message goes on. -/
theorem length_lines_eq_iff (entries : List Entry) :
    (entries.flatMap Entry.lines).length = entries.length ↔ ∀ e ∈ entries, e.feeds = 0 := by
  rw [length_flatMap_lines, Nat.add_eq_left, List.sum_eq_zero_iff_forall_eq_nat]
  exact List.forall_mem_map

theorem lines_eq_commands_iff (entries : List Entry) :
    entries.flatMap Entry.lines = entries.map (·.command.toList) ↔ ∀ e ∈ entries, e.feeds = 0 := by
  constructor
  · intro h
    rw [← length_lines_eq_iff, h, List.length_map]
  · intro h
    rw [List.map_eq_flatMap]
    exact List.flatMap_congr fun e he => Entry.lines_of_feeds_eq_zero (h e he)

/-! ## Messages with lines of a text -/

/-- A line between two line feeds. -/
def between (line : List Char) : String := String.ofList ('\n' :: line ++ ['\n'])

/-- A text that is nothing but such a line in quotes. -/
def quotedLine (line : List Char) : List Char := (Scan.Piece.quoted (between line)).chars

theorem mem_escape {c : Char} {cs : List Char} (h : c ∈ Scan.escape cs) : c ∈ cs ∨ c = '\\' := by
  induction cs with
  | nil => simp [Scan.escape] at h
  | cons d cs ih =>
    rw [Scan.escape] at h
    split at h <;> simp only [List.mem_cons] at h ⊢ <;> tauto

theorem return_not_mem_quotedLine {line : List Char} (h : '\r' ∉ line) : '\r' ∉ quotedLine line := by
  have hbody : '\r' ∉ Scan.escape (between line).toList := by
    intro hmem
    rcases mem_escape hmem with hmem | hmem
    · simp [between, h] at hmem
    · simp at hmem
  simpa [quotedLine, Scan.Piece.chars] using hbody

theorem scan_quotedLine (line : List Char) : ∃ p q,
    Token.scan (quotedLine line) =
      ⟨[⟨.text (between line) true, p⟩, ⟨.ending, q⟩], none⟩ := by
  have hfits : Scan.Segment.Fits [] ⟨quotedLine line,
      some (.text (String.ofList (between line).toList) true)⟩ [] :=
    .quoted (Scan.decodes_escape _)
  rw [String.ofList_toList] at hfits
  have hscan := (Scan.Segmentation.cons hfits .nil).scan_eq
  simp only [Scan.charsOf, List.flatMap_cons, List.flatMap_nil, List.append_nil] at hscan
  exact ⟨_, _, hscan⟩

theorem ofTokens_stray (s : String) (p q : Position) :
    Outline.ofTokens [⟨.text s true, p⟩, ⟨.ending, q⟩] =
      ⟨[], .broken none (.grammar (.delimiter .typeOpen) ⟨.text s true, p⟩)⟩ := by
  have hnode : Outline.nodeType [⟨.text s true, p⟩, ⟨.ending, q⟩] =
      (none, .error (.grammar (.delimiter .typeOpen) ⟨.text s true, p⟩)) := rfl
  have hending : (Token.mk (.text s true) p).isEnding = false := rfl
  have hopens : (Token.mk (.text s true) p).isSymbol '<' = false := rfl
  rw [Outline.ofTokens, hending, hopens, if_neg Bool.false_ne_true, if_neg Bool.false_ne_true]
  split <;> simp_all

section
variable {tree : FileTree} {p : FilePath} {line : List Char}

/-- What a message says about a text that stands in place of a node type, in front of that text. -/
def strayFront : String := Delimiter.typeOpen.missing ++ ", found " ++ "'"

theorem message_stray (s : String) (p : Position) :
    (ParseFault.grammar (.delimiter .typeOpen) ⟨.text s true, p⟩).message = strayFront ++ (s ++ "'") := by
  show Delimiter.typeOpen.missing ++ ", found " ++ ("'" ++ s ++ "'") = _
  simp only [strayFront, String.append_assoc]

/-- A quoted text may not stand at the beginning, and the message about it holds all of it. -/
theorem load_quotedLine (h : tree.readChars p = .ok (quotedLine line)) (policy : ConflictPolicy)
    (seed : Option Namespaces) : ∃ e, (Definitions.load tree policy seed p).outcome = .error (.parse e) ∧
      e.message.toList = strayFront.toList ++ '\n' :: (line ++ '\n' :: ['\'']) := by
  obtain ⟨start, stop, hscan⟩ := scan_quotedLine line
  have houtline := ofTokens_stray (between line) start stop
  refine ⟨⟨.grammar (.delimiter .typeOpen) ⟨.text (between line) true, start⟩,
    .ofPosition (some p.text) start.line start.column⟩, ?_, ?_⟩
  · have hbroken : ∀ source fault b ns, (Elaboration.outline source policy fault
        ⟨[], .broken none b⟩ ns).outcome = .error (Elaboration.breakFailure source fault b) :=
      fun _ _ _ _ => rfl
    simp only [Definitions.load, h, Definitions.outcome_readWith, Definitions.read, String.toList_ofList,
      hscan, houtline, hbroken, Elaboration.breakFailure, Elaboration.fault]
  · rw [ParseError.message, message_stray]
    simp [between]

/-- **Any line can be put into a report.** -/
theorem lintFile_quotedLine (h : tree.readChars p = .ok (quotedLine line)) (hp : '\n' ∉ p.text.toList)
    (hline : '\n' ∉ line) (policy : ConflictPolicy) (seed : Option Namespaces) :
    ∃ r first last, (lintFile tree policy seed p).outcome = .ok r ∧ r.entries.length = 1 ∧
      linesOf (Format.commands.print [r]).toList = [first, line, last] := by
  obtain ⟨e, he, hmessage⟩ := load_quotedLine h policy seed
  have hreport : (lintFile tree policy seed p).outcome = .ok ⟨p, [findingOf e], [], none⟩ := by
    simp only [lintFile, Definitions.tryLoad_outcome, he]
  have hlines : (findingOf e).message.toList.splitOn '\n' =
      [strayFront.toList, line, ['\'']] := by
    rw [show (findingOf e).message = e.message from rfl, hmessage,
      List.splitOn_append_cons_self_of_not_mem (by decide),
      List.splitOn_append_cons_self_of_not_mem hline, List.splitOn_eq_singleton (by decide)]
  refine ⟨_, (Entry.head ⟨true, p, findingOf e⟩).toList ++ strayFront.toList, ['\''], hreport, rfl, ?_⟩
  rw [linesOf_commands (by simpa using hp)]
  simp only [FileReport.entries, List.flatMap_cons, List.flatMap_nil, List.append_nil, List.map_cons,
    List.map_nil, Entry.lines, hlines, List.modifyHead_cons]

end

/-- **One line for each finding, unless a message goes on.** The report is made of lines, each ended by a
line feed. Those of an entry are the lines of its message, with the head in front of the first, so there
are as many more lines than entries as the messages hold line feeds. The lines are the commands of the
entries, and are as many, exactly if no message holds a line feed. But there is a text for every line such
that the report on a file with that text has this line. -/
theorem lines_of_commands {reports : List FileReport} (h : ∀ r ∈ reports, '\n' ∉ r.file.text.toList) :
    let entries := reports.flatMap FileReport.entries
    let lines := linesOf (Format.commands.print reports).toList
    ((Format.commands.print reports).toList = lines.flatMap (· ++ ['\n']) ∧ ∀ l ∈ lines, '\n' ∉ l) ∧
    lines = entries.flatMap Entry.lines ∧
    lines.length = entries.length + (entries.map Entry.feeds).sum ∧
    (lines = entries.map (·.command.toList) ↔ ∀ e ∈ entries, '\n' ∉ e.finding.message.toList) ∧
    (lines.length = entries.length ↔ ∀ e ∈ entries, '\n' ∉ e.finding.message.toList) ∧
    ∀ line, '\n' ∉ line → '\r' ∉ line → ∃ text, '\r' ∉ text ∧
      ∀ tree policy seed p, tree.readChars p = .ok text → '\n' ∉ p.text.toList →
        ∃ r first last, (lintFile tree policy seed p).outcome = .ok r ∧ r.entries.length = 1 ∧
          linesOf (Format.commands.print [r]).toList = [first, line, last] := by
  intro entries lines
  have hlines : lines = entries.flatMap Entry.lines := linesOf_commands h
  refine ⟨⟨?_, ?_⟩, hlines, ?_, ?_, ?_, fun line hfeed hreturn => ?_⟩
  · simp only [lines, toList_print, Text.linesOf_ended, List.flatMap_assoc, Text.ended_splitOn]
  · simp only [lines, toList_print, Text.linesOf_ended, List.mem_flatMap]
    rintro l ⟨s, -, hl⟩
    exact Text.feed_not_mem_splitOn hl
  · rw [hlines, length_flatMap_lines]
  · simp only [hlines, lines_eq_commands_iff, feeds_eq_zero_iff]
  · simp only [hlines, length_lines_eq_iff, feeds_eq_zero_iff]
  · exact ⟨quotedLine line, return_not_mem_quotedLine hreturn, fun tree policy seed p htext hp =>
      lintFile_quotedLine htext hp hfeed policy seed⟩

/-- What looks like the command for another file. -/
def forgedLine : String := "::error file=b.cnd,line=1,col=1::forged"

/-- A report on one file with one message, which holds such a line. -/
def forgedReport : FileReport :=
  ⟨⟨"", ["a.cnd"]⟩, [⟨"'x\n" ++ forgedLine ++ "'", some 1, none⟩], [], none⟩

/-- The line is one of the report, and of that on some file. -/
theorem lines_of_commands_forged :
    (∀ r ∈ [forgedReport], '\n' ∉ r.file.text.toList) ∧
    linesOf (Format.commands.print [forgedReport]).toList =
      ["::error file=a.cnd,line=1,col=1::'x".toList, (forgedLine ++ "'").toList] ∧
    ∃ tree r first last, (lintFile tree .error none ⟨"", ["a.cnd"]⟩).outcome = .ok r ∧
      r.entries.length = 1 ∧
      linesOf (Format.commands.print [r]).toList = [first, forgedLine.toList, last] := by
  have hfile : ∀ r ∈ [forgedReport], '\n' ∉ r.file.text.toList := by decide
  obtain ⟨-, hlines, -, -, -, hany⟩ := lines_of_commands hfile
  obtain ⟨text, hreturn, hreport⟩ :=
    hany forgedLine.toList (by decide) (by decide)
  let tree : FileTree := ⟨[(["a.cnd"], .file (String.ofList text).toUTF8)]⟩
  have hname : FileTree.IsEntryName "a.cnd" := ⟨by decide, by decide, by decide, by decide⟩
  have hchars : tree.readChars ⟨"", ["a.cnd"]⟩ = .ok (String.ofList text).toList :=
    hname.readChars rfl (by rwa [String.toList_ofList])
  rw [String.toList_ofList] at hchars
  exact ⟨hfile, hlines.trans (by decide), tree,
    hreport tree .error none ⟨"", ["a.cnd"]⟩ hchars (by decide)⟩

end Lint

end Cnd
