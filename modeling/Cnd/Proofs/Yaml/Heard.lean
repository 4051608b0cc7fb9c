import Cnd.Yaml.Write

/-!
What a YAML document gives back of the texts that are written in it.

In single quotes line breaks are written as they are. A line feed has a break of its own in front, so
it is not folded, and the separators of lines and paragraphs never are; but the next-line character
(`\x85`) is folded and normalised as a line feed would be. All else comes back as it was, so a value
is given back unchanged exactly if no text in it has that character and fits single quotes
(`readBack_eq_self_iff`).
-/

namespace Cnd.Yaml

open Write

/-! ## Texts -/

/-- Whether the first character is a line break. -/
def breaksFirst (s : List Char) : Bool := (s.head?.map Write.isBreak).getD false

/-- A text in single quotes as it is read. The first break of several is folded into the others, and
one alone into a blank; `afterBreak` is whether a break stands in front. -/
def heard (afterBreak : Bool) : List Char → List Char
  | [] => []
  | c :: rest =>
    if c == '\x85' then
      (if afterBreak then ['\n'] else if breaksFirst rest then [] else [' ']) ++ heard true rest
    else c :: heard (Write.isBreak c) rest

theorem heard_cons (afterBreak : Bool) (c : Char) (rest : List Char) :
    heard afterBreak (c :: rest) =
      if c == '\x85' then
        (if afterBreak then ['\n'] else if breaksFirst rest then [] else [' ']) ++ heard true rest
      else c :: heard (Write.isBreak c) rest := rfl

theorem nextLine_not_mem_heard (s : List Char) (afterBreak : Bool) : '\x85' ∉ heard afterBreak s := by
  induction s generalizing afterBreak with
  | nil => exact List.not_mem_nil
  | cons c s ih =>
    rw [heard_cons]
    split
    · rw [List.mem_append, not_or]
      refine ⟨?_, ih true⟩
      split
      · decide
      · split <;> decide
    · rename_i hc
      rw [List.mem_cons, not_or]
      exact ⟨fun h => hc (beq_iff_eq.2 h.symm), ih _⟩

theorem heard_eq_self {s : List Char} (h : '\x85' ∉ s) (afterBreak : Bool) : heard afterBreak s = s := by
  induction s generalizing afterBreak with
  | nil => rfl
  | cons c s ih =>
    rw [List.mem_cons, not_or] at h
    rw [heard_cons, if_neg (by simpa using Ne.symm h.1), ih h.2]

theorem heard_eq_self_iff {s : List Char} {afterBreak : Bool} : heard afterBreak s = s ↔ '\x85' ∉ s :=
  ⟨fun h => h ▸ nextLine_not_mem_heard s afterBreak, fun h => heard_eq_self h afterBreak⟩

/-- What a break in the text does not change about how the rest is read. -/
theorem heard_of_not_breaksFirst {s : List Char} (h : breaksFirst s = false) :
    heard true s = heard false s := by
  cases s with
  | nil => rfl
  | cons c s =>
    have hc : c ≠ '\x85' := fun hc => by simp [breaksFirst, hc, Write.isBreak] at h
    rw [heard_cons, heard_cons, if_neg (by simpa using hc), if_neg (by simpa using hc)]

/-- A text as it is read. -/
def readText (s : String) : String :=
  if formOf s.toList == .single then String.ofList (heard false s.toList) else s

/-- A text that is not changed: it has no next-line character, or is written in double quotes. -/
def Survives (s : String) : Prop := '\x85' ∈ s.toList → fitsSingle s.toList = false

/-- What is asked of a text without quotes. -/
theorem fitsPlain_cons {c : Char} {s : List Char} : fitsPlain (c :: s) = true ↔
    fitsSingle (c :: s) = true ∧ (∀ d ∈ c :: s, Write.isBreak d = false) ∧ c ≠ ' ' ∧
      (c :: s).getLast? ≠ some ' ' ∧ opensOther (c :: s) = false ∧ holdsMark c s = false ∧
      Tag.ofPlain (String.ofList (c :: s)) = .str := by
  simp [fitsPlain, and_assoc]

theorem readText_eq_self_iff {s : String} : readText s = s ↔ Survives s := by
  rw [readText, Survives]
  unfold formOf
  split
  · rename_i hplain
    have hbreak : '\x85' ∉ s.toList := fun hmem => by
      cases hs : s.toList with
      | nil => simp [hs] at hmem
      | cons c rest =>
        rw [hs] at hplain hmem
        exact absurd ((fitsPlain_cons.1 hplain).2.1 _ hmem) (by decide)
    simp [hbreak]
  split
  · rename_i hsingle
    rw [if_pos (by rfl), ← String.toList_inj, String.toList_ofList, heard_eq_self_iff, hsingle]
    simp
  · rename_i hsingle
    simp [hsingle]

/-! ## Values -/

mutual
/-- A value as it is read. -/
def readBack : Data → Data
  | .text s => .text (readText s)
  | .list xs => .list (readItems xs)
  | .map es => .map (readEntries es)
  | d => d

def readItems : List Data → List Data
  | [] => []
  | x :: xs => readBack x :: readItems xs

/-- The keys of entries are given back as they are. -/
def readEntries : List (Data × Data) → List (Data × Data)
  | [] => []
  | (k, v) :: es => (k, readBack v) :: readEntries es
end

mutual
/-- The texts in a value, apart from the keys. -/
def textsIn : Data → List String
  | .text s => [s]
  | .list xs => textsInItems xs
  | .map es => textsInEntries es
  | _ => []

def textsInItems : List Data → List String
  | [] => []
  | x :: xs => textsIn x ++ textsInItems xs

def textsInEntries : List (Data × Data) → List String
  | [] => []
  | (_, v) :: es => textsIn v ++ textsInEntries es
end

mutual
/-- **A value is given back as it was exactly if each text in it survives.** -/
theorem readBack_eq_self_iff (d : Data) : readBack d = d ↔ ∀ s ∈ textsIn d, Survives s := by
  cases d with
  | text s => simp [readBack, textsIn, readText_eq_self_iff]
  | list xs => simp [readBack, textsIn, readItems_eq_self_iff xs]
  | map es => simp [readBack, textsIn, readEntries_eq_self_iff es]
  | null | bool | int | float | bytes | date | time | tuple | set => simp [readBack, textsIn]

theorem readItems_eq_self_iff (xs : List Data) :
    readItems xs = xs ↔ ∀ s ∈ textsInItems xs, Survives s := by
  cases xs with
  | nil => simp [readItems, textsInItems]
  | cons x xs =>
    simp [readItems, textsInItems, or_imp, forall_and, readBack_eq_self_iff x,
      readItems_eq_self_iff xs]

theorem readEntries_eq_self_iff (es : List (Data × Data)) :
    readEntries es = es ↔ ∀ s ∈ textsInEntries es, Survives s := by
  cases es with
  | nil => simp [readEntries, textsInEntries]
  | cons e es =>
    obtain ⟨k, v⟩ := e
    simp [readEntries, textsInEntries, or_imp, forall_and, readBack_eq_self_iff v,
      readEntries_eq_self_iff es]
end

end Cnd.Yaml
