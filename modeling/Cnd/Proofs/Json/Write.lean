import Cnd.Json.Read
import Cnd.Json.Write
import Cnd.Proofs.Data

/-!
What documents look like: the lines of lists and mappings (`toList_bracketed`), the character that a
value starts with (`starts_writeAt`), and the characters that there are at all (`printed_writeAt`).

All is about plain values: those without numbers, and whose mappings are from different texts.
-/

namespace Cnd.Json

/-! ## Lines -/

theorem skipBlanks_lineStart (depth : Nat) (s : List Char) :
    skipBlanks ((lineStart depth).toList ++ s) = skipBlanks s := by
  have hblank : ∀ c ∈ (lineStart depth).toList, isBlank c = true := by
    intro c hc
    simp only [lineStart, String.toList_append, String.toList_ofList, List.mem_append,
      List.mem_replicate] at hc
    rcases hc with hc | ⟨-, rfl⟩
    · rw [List.mem_singleton.1 hc]
      rfl
    · rfl
  rw [skipBlanks, List.dropWhile_append_of_pos hblank, skipBlanks]

theorem skipBlanks_cons {c : Char} (h : isBlank c = false) (s : List Char) :
    skipBlanks (c :: s) = c :: s := by
  rw [skipBlanks, List.dropWhile_cons_of_neg (by rw [h]; exact Bool.false_ne_true)]

/-- Lines behind the first one, each behind a comma. -/
def linesBehind (depth : Nat) (lines : List String) : List Char :=
  lines.flatMap fun l => ',' :: ((lineStart depth).toList ++ l.toList)

theorem toList_intercalate (sep l : String) (ls : List String) :
    (sep.intercalate (l :: ls)).toList = l.toList ++ ls.flatMap fun m => sep.toList ++ m.toList := by
  induction ls generalizing l with
  | nil => simp
  | cons m ls ih => rw [String.intercalate_cons_cons, String.toList_append, String.toList_append, ih]; simp

theorem toList_bracketed (opening closing : String) (depth : Nat) (l : String) (ls : List String) :
    (bracketed opening closing depth (l :: ls)).toList =
      opening.toList ++ ((lineStart (depth + 1)).toList ++ (l.toList ++
        (linesBehind (depth + 1) ls ++ ((lineStart depth).toList ++ closing.toList)))) := by
  rw [bracketed, if_neg (by simp)]
  rw [String.toList_append, String.toList_append, String.toList_append, String.toList_append,
    toList_intercalate]
  simp [linesBehind]

/-! ## Values -/

/-- A value of truth values, texts and nulls, in lists and in mappings from different texts. -/
inductive Plain : Data → Prop
  | null : Plain .null
  | bool (b : Bool) : Plain (.bool b)
  | text (s : String) : Plain (.text s)
  | list (xs : List Data) (items : ∀ x ∈ xs, Plain x) : Plain (.list xs)
  | map (ms : List (String × Data)) (names : (ms.map (·.1)).Nodup) (values : ∀ m ∈ ms, Plain m.2) :
      Plain (.map (Data.named ms))

/-- A text begins with a character that neither parts nor ends values. -/
def Starts (s : List Char) : Prop :=
  ∃ c, s.head? = some c ∧ isBlank c = false ∧ c ≠ ']' ∧ c ≠ '\x7d'

theorem Starts.skipBlanks {s : List Char} (h : Starts s) (rest : List Char) :
    skipBlanks (s ++ rest) = s ++ rest := by
  obtain ⟨c, hs, hc, -⟩ := h
  obtain ⟨more, rfl⟩ := List.head?_eq_some_iff.1 hs
  exact skipBlanks_cons hc (more ++ rest)

theorem Starts.ne_cons {s : List Char} (h : Starts s) {rest t : List Char} :
    s ++ rest ≠ ']' :: t ∧ s ++ rest ≠ '\x7d' :: t := by
  obtain ⟨c, hs, -, hl, hm⟩ := h
  obtain ⟨more, rfl⟩ := List.head?_eq_some_iff.1 hs
  simp [hl, hm]

theorem writeAt_null (depth : Nat) : writeAt depth .null = scalar .null := rfl

theorem writeAt_bool (depth : Nat) (b : Bool) : writeAt depth (.bool b) = scalar (.bool b) := rfl

theorem writeAt_text (depth : Nat) (s : String) : writeAt depth (.text s) = quote s := rfl

theorem writeAt_list (depth : Nat) (xs : List Data) :
    writeAt depth (.list xs) = bracketed "[" "]" depth (writeItems (depth + 1) xs) := rfl

theorem writeAt_map (depth : Nat) (es : List (Data × Data)) :
    writeAt depth (.map es) = bracketed "\x7b" "\x7d" depth (writeMembers (depth + 1) es) := rfl

theorem starts_writeAt {d : Data} (h : Plain d) (depth : Nat) : Starts (writeAt depth d).toList := by
  cases h with
  | null => exact ⟨'n', by rw [writeAt_null]; rfl, rfl, by decide, by decide⟩
  | bool b =>
    rw [writeAt_bool]
    cases b
    · exact ⟨'f', rfl, rfl, by decide, by decide⟩
    · exact ⟨'t', rfl, rfl, by decide, by decide⟩
  | text s => exact ⟨'"', by simp [writeAt_text, quote], rfl, by decide, by decide⟩
  | list xs =>
    refine ⟨'[', ?_, rfl, by decide, by decide⟩
    rw [writeAt_list]
    cases writeItems (depth + 1) xs with
    | nil => simp [bracketed]
    | cons l ls => simp [toList_bracketed]
  | map ms =>
    refine ⟨'\x7b', ?_, rfl, by decide, by decide⟩
    rw [writeAt_map]
    cases writeMembers (depth + 1) (Data.named ms) with
    | nil => simp [bracketed]
    | cons l ls => simp [toList_bracketed]

theorem writeItems_eq_map (depth : Nat) (xs : List Data) :
    writeItems depth xs = xs.map (writeAt depth) := by
  induction xs with
  | nil => rfl
  | cons x xs ih => rw [List.map_cons, ← ih]; rfl

/-- The line of a member. -/
def memberText (depth : Nat) (m : String × Data) : String :=
  memberName (.text m.1) ++ ": " ++ writeAt depth m.2

theorem toList_memberText (depth : Nat) (m : String × Data) :
    (memberText depth m).toList =
      '"' :: (m.1.toList.flatMap escapeChar ++ '"' :: ':' :: ' ' :: (writeAt depth m.2).toList) := by
  simp [memberText, memberName, quote]

theorem starts_memberText (depth : Nat) (m : String × Data) : Starts (memberText depth m).toList :=
  ⟨'"', by rw [toList_memberText]; rfl, rfl, by decide, by decide⟩

theorem writeMembers_named (depth : Nat) (ms : List (String × Data)) :
    writeMembers depth (Data.named ms) = ms.map (memberText depth) := by
  induction ms with
  | nil => rfl
  | cons m ms ih => rw [List.map_cons, ← ih]; rfl

/-! ## The characters of a document -/

/-- Line breaks and the printable characters of ASCII. -/
def IsPrinted (c : Char) : Prop := c = '\n' ∨ ' '.toNat ≤ c.toNat ∧ c.toNat ≤ '~'.toNat

instance (c : Char) : Decidable (IsPrinted c) := inferInstanceAs (Decidable (_ ∨ _))

def Printed (s : List Char) : Prop := ∀ c ∈ s, IsPrinted c

instance (s : List Char) : Decidable (Printed s) := List.decidableBAll _ s

theorem Printed.append {s t : List Char} (hs : Printed s) (ht : Printed t) : Printed (s ++ t) :=
  List.forall_mem_append.2 ⟨hs, ht⟩

theorem printed_paddedHex (w n : Nat) : Printed (Text.paddedHex w n) := by
  have hdigit : ∀ m < 16, IsPrinted (Text.hexDigit m) := by decide
  induction w generalizing n with
  | zero => simp [Text.paddedHex, Printed]
  | succ w ih =>
    exact (ih _).append fun c hc => List.mem_singleton.1 hc ▸ hdigit _ (Nat.mod_lt _ (by decide))

/-- What a character is written as: itself, a letter or sign behind a backslash, one unit, or two
halves. -/
inductive Escaped (c : Char) : List Char → Prop
  | itself (h : IsPrinted c) (hq : c ≠ '"') (hb : c ≠ '\\') (hcontrol : ¬ c.toNat < 0x20) :
      Escaped c [c]
  | sign {d : Char} (hd : IsPrinted d) (h : unescape? d = some c) : Escaped c ['\\', d]
  | unit (h : c.toNat < 0x10000) : Escaped c ('\\' :: 'u' :: Text.paddedHex 4 c.toNat)
  | halves (h : 0x10000 ≤ c.toNat) :
      Escaped c ('\\' :: 'u' :: (Text.paddedHex 4 (halves c.toNat).1 ++
        '\\' :: 'u' :: Text.paddedHex 4 (halves c.toNat).2))

theorem escaped_escapeChar (c : Char) : Escaped c (escapeChar c) := by
  unfold escapeChar
  extract_lets unit
  split
  · rename_i h
    rcases Bool.or_eq_true_iff.1 h with h | h <;>
      (rw [beq_iff_eq.1 h]; exact .sign (by decide) rfl)
  rename_i hspecial
  -- the five control characters that have a letter
  iterate 5
    split
    · rename_i h
      rw [beq_iff_eq.1 h]
      exact .sign (by decide) rfl
  split
  · rename_i h
    have hne : c ≠ '"' ∧ c ≠ '\\' := by simpa using hspecial
    have hrange := Bool.and_eq_true_iff.1 h
    have hblank : ' '.toNat ≤ c.toNat := of_decide_eq_true hrange.1
    exact .itself (.inr ⟨hblank, of_decide_eq_true hrange.2⟩) hne.1 hne.2 (Nat.not_lt.2 hblank)
  split
  · rename_i h
    exact .unit h
  · rename_i h
    exact .halves (Nat.not_lt.1 h)

theorem Escaped.printed {c : Char} {s : List Char} (h : Escaped c s) : Printed s := by
  have hunit : ∀ n, Printed ('\\' :: 'u' :: Text.paddedHex 4 n) := fun n =>
    Printed.append (s := ['\\', 'u']) (by decide) (printed_paddedHex 4 n)
  cases h with
  | itself h => exact fun d hd => List.mem_singleton.1 hd ▸ h
  | sign hd =>
    exact Printed.append (s := ['\\']) (by decide) fun e he => List.mem_singleton.1 he ▸ hd
  | unit => exact hunit _
  | halves => exact (hunit _).append (hunit _)

theorem printed_quote (s : String) : Printed (quote s).toList := by
  rw [quote, String.toList_ofList]
  refine Printed.append (s := ['"']) (by decide) (Printed.append ?_ (by decide))
  exact fun c hc => let ⟨d, _, hd⟩ := List.mem_flatMap.1 hc; (escaped_escapeChar d).printed c hd

theorem printed_lineStart (depth : Nat) : Printed (lineStart depth).toList := by
  intro c hc
  simp only [lineStart, String.toList_append, String.toList_ofList, List.mem_append,
    List.mem_replicate] at hc
  rcases hc with hc | ⟨-, rfl⟩
  · exact .inl (List.mem_singleton.1 hc)
  · decide

theorem printed_bracketed {opening closing : String} {lines : List String} (depth : Nat)
    (ho : Printed opening.toList) (hc : Printed closing.toList)
    (hlines : ∀ l ∈ lines, Printed l.toList) :
    Printed (bracketed opening closing depth lines).toList := by
  cases lines with
  | nil =>
    rw [bracketed, List.isEmpty_nil, if_pos rfl, String.toList_append]
    exact ho.append hc
  | cons l ls =>
    obtain ⟨hl, hls⟩ := List.forall_mem_cons.1 hlines
    have hbehind : Printed (linesBehind (depth + 1) ls) := fun c hc => by
      obtain ⟨m, hm, hc⟩ := List.mem_flatMap.1 hc
      exact Printed.append (s := [',']) (by decide) ((printed_lineStart _).append (hls m hm)) c hc
    rw [toList_bracketed]
    exact ho.append ((printed_lineStart _).append (hl.append
      (hbehind.append ((printed_lineStart _).append hc))))

/-- A document is made of printable characters of ASCII and line breaks. -/
theorem printed_writeAt {d : Data} (h : Plain d) (depth : Nat) : Printed (writeAt depth d).toList := by
  induction h generalizing depth with
  | null =>
    rw [writeAt_null]
    decide
  | bool b =>
    rw [writeAt_bool]
    revert b
    decide
  | text s =>
    rw [writeAt_text]
    exact printed_quote s
  | list xs _ ih =>
    rw [writeAt_list, writeItems_eq_map]
    refine printed_bracketed depth (by decide) (by decide) (List.forall_mem_map.2 fun x hx => ?_)
    exact ih x hx _
  | map ms _ _ ih =>
    rw [writeAt_map, writeMembers_named]
    refine printed_bracketed depth (by decide) (by decide) (List.forall_mem_map.2 fun m hm => ?_)
    rw [memberText, String.toList_append, String.toList_append]
    exact ((printed_quote _).append (by decide)).append (ih m hm _)

end Cnd.Json
