import Cnd.Proofs.Data
import Cnd.Proofs.Yaml.Text

/-!
The tokens of a document.

Values are written as blocks, so reading a value is reading its blocks one behind the other and then
closing what they opened (`readsValue`). What is read of a value does not depend on the columns: these
are its `valueLexemes`, with no start and end for the items of a list that stand at the column of a key.
-/

namespace Cnd.Yaml

open Write (value blocks newLine blanks)

/-! ## Values and their lexemes -/

/-- A value of truth values, texts and nulls, in lists and in mappings from different texts of one
line, of at most a given depth. -/
inductive Regular : Nat → Data → Prop
  | null (n : Nat) : Regular n .null
  | bool (n : Nat) (b : Bool) : Regular n (.bool b)
  | text (n : Nat) (s : String) : Regular n (.text s)
  | list (n : Nat) (xs : List Data) (items : ∀ x ∈ xs, Regular n x) : Regular (n + 1) (.list xs)
  | map (n : Nat) (ms : List (String × Data)) (names : (ms.map (·.1)).Nodup)
      (keys : ∀ m ∈ ms, Scalar.InLine m.1.toList) (values : ∀ m ∈ ms, Regular n m.2) :
      Regular (n + 1) (.map (Data.named ms))

theorem Regular.members {n : Nat} {ms : List (String × Data)} (h : Regular (n + 1) (.map (Data.named ms))) :
    (ms.map (·.1)).Nodup ∧ ∀ m ∈ ms, Scalar.InLine m.1.toList ∧ Regular n m.2 := by
  generalize hd : Data.map (Data.named ms) = d at h
  cases h with
  | map n ms' names keys values =>
    obtain rfl : ms = ms' := by
      refine List.map_injective_iff.2 (fun a b hab => ?_) (Data.map.inj hd)
      obtain ⟨hname, hvalue⟩ := Prod.mk.inj hab
      exact Prod.ext (Data.text.inj hname) hvalue
    exact ⟨names, fun m hm => ⟨keys m hm, values m hm⟩⟩
  | _ => cases hd

/-- The words for null and the truth values. -/
def wordLexeme (word : String) : Lexeme := .scalar word true

mutual
/-- What a value is read as, below a key or below another sign. -/
def valueLexemes (belowKey : Bool) : Data → List Lexeme
  | .null => [wordLexeme "null"]
  | .bool b => [wordLexeme (if b then "true" else "false")]
  | .text s => [textLexeme s]
  | .list [] => [.openList, .closeList]
  | .map [] => [.openMap, .closeMap]
  | .list (x :: xs) =>
    if belowKey then itemLexemes (x :: xs)
    else .sequenceStart :: itemLexemes (x :: xs) ++ [.blockEnd]
  | .map (e :: es) => .mappingStart :: entryLexemes (e :: es) ++ [.blockEnd]
  | _ => []

def itemLexemes : List Data → List Lexeme
  | [] => []
  | x :: xs => .entry :: valueLexemes false x ++ itemLexemes xs

def entryLexemes : List (Data × Data) → List Lexeme
  | [] => []
  | (k, d) :: es =>
    .key :: textLexeme (String.ofList (Write.keyText k)) :: .value ::
      valueLexemes (Write.isSimpleKey (Write.keyText k)) d ++ entryLexemes es
end

theorem valueLexemes_text (belowKey : Bool) (s : String) :
    valueLexemes belowKey (.text s) = [textLexeme s] := rfl

theorem valueLexemes_list (belowKey : Bool) (x : Data) (xs : List Data) :
    valueLexemes belowKey (.list (x :: xs)) =
      if belowKey then itemLexemes (x :: xs)
      else .sequenceStart :: (itemLexemes (x :: xs) ++ [.blockEnd]) := rfl

theorem valueLexemes_map (belowKey : Bool) (m : String × Data) (ms : List (String × Data)) :
    valueLexemes belowKey (.map (Data.named (m :: ms))) =
      .mappingStart :: (entryLexemes (Data.named (m :: ms)) ++ [.blockEnd]) := rfl

theorem itemLexemes_nil : itemLexemes [] = [] := rfl

theorem itemLexemes_cons (x : Data) (xs : List Data) :
    itemLexemes (x :: xs) = .entry :: (valueLexemes false x ++ itemLexemes xs) := rfl

theorem itemLexemes_eq (xs : List Data) :
    itemLexemes xs = xs.flatMap fun x => .entry :: valueLexemes false x := by
  induction xs with
  | nil => rfl
  | cons x xs ih => rw [itemLexemes_cons, ih, List.flatMap_cons, List.cons_append]

/-- The lexemes of a member. -/
def memberLexemes (m : String × Data) : List Lexeme :=
  .key :: textLexeme m.1 :: .value :: valueLexemes (Write.isSimpleKey m.1.toList) m.2

theorem entryLexemes_named (ms : List (String × Data)) :
    entryLexemes (Data.named ms) = ms.flatMap memberLexemes := by
  induction ms with
  | nil => rfl
  | cons m ms ih =>
    rw [List.flatMap_cons, ← ih]
    simp [Data.named, entryLexemes, memberLexemes, Write.keyText]

/-! ## Blocks -/

/-- An item of a list. -/
def itemText (indent : Nat) (d : Data) : List Char := '-' :: value indent (indent + 1) false d

theorem items_eq (indent : Nat) (xs : List Data) : Write.items indent xs = xs.map (itemText indent) := by
  induction xs with
  | nil => rfl
  | cons x xs ih =>
    rw [List.map_cons, ← ih]
    rfl

/-- A member whose key stands on the line of its value. -/
def simpleText (indent : Nat) (m : String × Data) : List Char :=
  let written := Write.text (indent + 2) indent false m.1.toList
  written ++ ':' :: value indent (indent + written.length + 1) true m.2

/-- A member whose key is set apart from its value. -/
def apartText (indent : Nat) (m : String × Data) : List Char :=
  '?' :: ' ' :: Write.text (indent + 2) (indent + 2) true m.1.toList ++
    newLine indent ++ ':' :: value indent (indent + 1) false m.2

def memberText (indent : Nat) (m : String × Data) : List Char :=
  if Write.isSimpleKey m.1.toList then simpleText indent m else apartText indent m

theorem entries_named (indent : Nat) (ms : List (String × Data)) :
    Write.entries indent (Data.named ms) = ms.map (memberText indent) := by
  induction ms with
  | nil => rfl
  | cons m ms ih =>
    rw [List.map_cons, ← ih]
    rfl

theorem blocks_cons (start : List Char) (indent : Nat) (b : List Char) (bs : List (List Char)) :
    blocks start indent (b :: bs) = start ++ blocks [] indent (b :: bs) := by
  simp [blocks]

theorem blocks_cons_cons (indent : Nat) (b b' : List Char) (bs : List (List Char)) :
    blocks [] indent (b :: b' :: bs) = b ++ (newLine indent ++ blocks [] indent (b' :: bs)) := by
  simp [blocks]

/-- The items of a list stand at the column of its key, or deeper than another sign. -/
theorem value_list (indent column : Nat) (belowKey : Bool) (x : Data) (xs : List Data) :
    value indent column belowKey (.list (x :: xs)) =
      if belowKey then newLine indent ++ blocks [] indent ((x :: xs).map (itemText indent))
      else blanks (indent + 2 - column) ++
        blocks [] (indent + 2) ((x :: xs).map (itemText (indent + 2))) := by
  have hvalue : value indent column belowKey (.list (x :: xs)) =
      if belowKey then blocks (newLine indent) indent (Write.items indent (x :: xs))
      else blocks (blanks (indent + 2 - column)) (indent + 2)
        (Write.items (indent + 2) (x :: xs)) :=
    rfl
  rw [hvalue, items_eq, items_eq]
  split <;> exact blocks_cons ..

/-- The members of a mapping stand deeper than any sign. -/
theorem value_map (indent column : Nat) (belowKey : Bool) (p : String × Data) (ms : List (String × Data)) :
    value indent column belowKey (.map (Data.named (p :: ms))) =
      (if belowKey then newLine (indent + 2) else blanks (indent + 2 - column)) ++
        blocks [] (indent + 2) ((p :: ms).map (memberText (indent + 2))) := by
  have hvalue : value indent column belowKey (.map (Data.named (p :: ms))) =
      blocks (if belowKey then newLine (indent + 2) else blanks (indent + 2 - column)) (indent + 2)
        (Write.entries (indent + 2) (Data.named (p :: ms))) := rfl
  rw [hvalue, entries_named]
  exact blocks_cons ..

namespace Reading

variable {r r₀ : Reading} {t next : List Char} {j k m : Nat} {i : Int} {o : List Int} {allowed : Bool}

theorem Stands.passBlanks (h : Stands r (blanks m ++ t) j i o allowed) (hr : Comes r₀ r) (ht : Starts t) :
    ∃ r₁, Leads r₀ r₁ ∧ Stands r₁ t (j + m) i o allowed ∧ r₁.lexemes = r.lexemes := by
  have hrest := Cursor.rest_advance_blanks h.rest
  have hblanks : ∀ ch ∈ blanks m, Cursor.IsWide ch := fun ch hch => by
    rw [List.eq_of_mem_replicate hch]
    exact ⟨rfl, by decide⟩
  have hmark := Cursor.mark_advance h.rest hblanks
  rw [blanks, List.length_replicate] at hmark
  refine ⟨_, hr.settles (settle_blanks h.possible h.rest ht) ?_, ⟨hrest, ?_, h.depth, h.indent, h.outer,
    h.keyAllowed, h.possible, ⟨h.sound.count, h.sound.marks, h.sound.ordered⟩⟩, rfl⟩
  · rw [hrest, h.rest, List.length_append]
    exact Nat.le_add_left ..
  · rw [Cursor.column, hmark, h.column]

theorem Stands.passLine (h : Stands r (newLine m ++ t) j i o allowed) (hr : Comes r₀ r) (ht : Starts t) :
    ∃ r₁, Leads r₀ r₁ ∧ Stands r₁ t m i o true ∧ r₁.lexemes = r.lexemes := by
  have hrest := Cursor.rest_advance_newLine h.rest
  have hnone : ∀ p ∈ r.possible, p.2.required = false ∧ p.2.place.line ≤ r.cursor.line := by
    simp [h.possible]
  refine ⟨_, hr.settles (settle_newLine h.depth h.rest ht hnone) ?_, ⟨hrest, ?_, h.depth, h.indent,
    h.outer, rfl, rfl, ⟨h.sound.count, h.sound.marks, h.sound.ordered⟩⟩, rfl⟩
  · rw [hrest, h.rest, List.length_append]
    exact Nat.le_add_left ..
  · rw [Cursor.column, Cursor.mark_newLine h.rest]

/-- A block is read at its column, where the block that it belongs to may have to be opened. -/
def ReadsBlock (j : Nat) (opening : Lexeme) (b : List Char) (ls : List Lexeme) : Prop :=
  ∀ (r : Reading) (i : Int) (o : List Int) (k : Nat) (next : List Char), i ≤ j → k ≤ j → Starts next →
    Stands r (b ++ (newLine k ++ next)) j i o true →
    ∃ r', Leads r r' ∧ Stands r' next k j (outerAt i o j) true ∧
      r'.lexemes = r.lexemes ++ opensAt i j opening ++ ls

/-- **Blocks of one column are read one behind the other.** -/
theorem readsBlock_blocks {α : Type} {opening : Lexeme} {f : α → List Char} {g : α → List Lexeme}
    {l : List α} (hne : l ≠ []) (hstarts : ∀ a ∈ l, ∀ t, Starts (f a ++ t))
    (h : ∀ a ∈ l, ReadsBlock j opening (f a) (g a)) :
    ReadsBlock j opening (blocks [] j (l.map f)) (l.flatMap g) := by
  induction l with
  | nil => exact absurd rfl hne
  | cons a l ih =>
    obtain ⟨hfirst, hrest⟩ := List.forall_mem_cons.1 h
    intro r i o k next hij hk hnext hr
    cases l with
    | nil =>
      rw [List.map_cons, List.map_nil, blocks] at hr
      simp only [List.flatMap_nil, List.append_nil, List.nil_append] at hr
      simpa using hfirst r i o k next hij hk hnext hr
    | cons b l =>
      rw [List.map_cons, List.map_cons, blocks_cons_cons, List.append_assoc, List.append_assoc] at hr
      have hstart : Starts (blocks [] j (f b :: l.map f) ++ (newLine k ++ next)) := by
        rw [blocks, List.nil_append, List.append_assoc]
        exact hstarts b (by simp) _
      obtain ⟨r₁, hleads, hstands, hlexemes⟩ :=
        hfirst r i o j _ hij (Nat.le_refl _) hstart hr
      obtain ⟨r', hleads', hstands', hlexemes'⟩ :=
        ih (by simp) (fun a ha => hstarts a (List.mem_cons_of_mem _ ha)) hrest r₁ j (outerAt i o j) k next
          (Int.le_refl _) hk hnext hstands
      refine ⟨r', hleads.trans hleads', ?_, ?_⟩
      · rwa [outerAt, if_neg (Int.lt_irrefl _)] at hstands'
      · rw [hlexemes', hlexemes, opensAt, opensAt, if_neg (Int.lt_irrefl _), List.flatMap_cons]
        simp

/-- A value is read behind its sign, which ends at column `c`, up to the line behind it. Its lines must
not reach the width of a line. -/
def ReadsValue (n : Nat) (d : Data) : Prop :=
  ∀ (belowKey : Bool) (r₀ r : Reading) (i c k : Nat) (o : List Int) (next : List Char), Comes r₀ r →
    Stands r (value i c belowKey d ++ (newLine k ++ next)) c i o (!belowKey) →
    i < c → (belowKey = false → c = i + 1) → k ≤ i → i + 2 * n + 2 < Write.width → Starts next →
    ∃ r', Leads r₀ r' ∧ Stands r' next k i o true ∧ r'.lexemes = r.lexemes ++ valueLexemes belowKey d

theorem starts_plain {indent column : Nat} {split : Bool} {s : List Char} (hs : Scalar.IsPlainText s)
    (t : List Char) : Starts (Write.plain indent split column none s ++ t) := by
  obtain ⟨hne, hfirst, -, hline, hopens, -⟩ := hs
  obtain ⟨ch, s, rfl⟩ := List.exists_cons_of_ne_nil hne
  have hch : ch ≠ ' ' := by simpa using hfirst
  have hink := (hline ch (List.mem_cons_self ..)).resolve_left hch
  have hhash : ch ≠ '#' := by
    rintro rfl
    simp [Write.opensOther] at hopens
  obtain ⟨hbreak, hmark⟩ := Scalar.isWide_of_isInk hink
  rw [Scalar.plain_cons hch]
  exact .cons (by simp [hch, hhash, hbreak, hmark]) _

theorem starts_text (indent column : Nat) (split : Bool) (s t : List Char) :
    Starts (Write.text indent column split s ++ t) := by
  rcases formOf_cases s with ⟨hform, hfits⟩ | ⟨hform, -⟩ | hform
  · simp only [Write.text, hform]
    exact starts_plain (Scalar.isPlainText_of_fitsPlain hfits) t
  · simp only [Write.text, hform]
    exact .cons rfl _
  · simp only [Write.text, hform]
    exact .cons rfl _

/-- A word for null or a truth value. -/
theorem isPlainText_word {s : List Char} (hs : s ∈ ["null".toList, "true".toList, "false".toList]) :
    Scalar.IsPlainText s ∧ ' ' ∉ s := by
  have hink : ∀ s ∈ ["null".toList, "true".toList, "false".toList],
      (s.all fun ch => decide (IsInk ch)) = true := by decide
  refine ⟨⟨?_, ?_, ?_, fun ch hch => .inr (isInk_of_all (hink s hs) hch), ?_, ?_⟩, ?_⟩ <;> revert s <;>
    decide

theorem plain_word {indent column : Nat} {split : Bool} {previous : Option Char} {s : List Char}
    (hs : ' ' ∉ s) : Write.plain indent split column previous s = s := by
  induction s generalizing column previous with
  | nil => rfl
  | cons ch s ih =>
    rw [List.mem_cons, not_or] at hs
    rw [Scalar.plain_cons (Ne.symm hs.1), ih hs.2]

theorem readsValue_word {n : Nat} {d : Data} (word : String)
    (hword : word.toList ∈ ["null".toList, "true".toList, "false".toList])
    (hd : ∀ i c belowKey, value i c belowKey d = ' ' :: word.toList)
    (hl : ∀ belowKey, valueLexemes belowKey d = [wordLexeme word]) : ReadsValue n d := by
  intro belowKey r₀ r i c k o next hr h hi hc hk hwidth hnext
  obtain ⟨hs, hblank⟩ := isPlainText_word hword
  have hwritten : word.toList = Write.plain (i + 2) true (c + 1) none word.toList :=
    (plain_word hblank).symm
  rw [hd, hwritten] at h
  obtain ⟨r₁, hleads, hstands, hlexemes⟩ := Stands.passBlanks (m := 1) h hr (starts_plain hs _)
  obtain ⟨r', hleads', hstands', hlexemes'⟩ := hstands.plainText hs (by omega) (by omega) (by omega)
    (by omega) (by omega) (by omega) hnext
  refine ⟨r', hleads.trans hleads', hstands', ?_⟩
  rw [hlexemes', hlexemes, hl, wordLexeme, String.ofList_toList]

theorem readsValue_text (n : Nat) (s : String) : ReadsValue n (.text s) := by
  intro belowKey r₀ r i c k o next hr h hi hc hk hwidth hnext
  have hvalue : value i c belowKey (.text s) = ' ' :: Write.text (i + 2) (c + 1) true s.toList := by
    simp [value, Write.scalar]
  rw [hvalue] at h
  obtain ⟨r₁, hleads, hstands, hlexemes⟩ :=
    Stands.passBlanks (m := 1) h hr (starts_text (i + 2) (c + 1) true s.toList _)
  obtain ⟨r', hleads', hstands', hlexemes'⟩ := hstands.text (by omega) (by omega) (by omega) (by omega)
    (by omega) (by omega) (by omega) hnext
  refine ⟨r', hleads.trans hleads', hstands', ?_⟩
  rw [hlexemes', hlexemes, valueLexemes_text]

theorem readsValue_brackets {n : Nat} {d : Data} {a b : Char} {opening closing : Lexeme}
    (hpair : IsPair a b opening closing) (hd : ∀ i c belowKey, value i c belowKey d = [' ', a, b])
    (hl : ∀ belowKey, valueLexemes belowKey d = [opening, closing]) : ReadsValue n d := by
  intro belowKey r₀ r i c k o next hr h hi hc hk hwidth hnext
  rw [hd] at h
  have hstarts : Starts (a :: b :: (newLine k ++ next)) := by cases hpair <;> exact .cons rfl _
  obtain ⟨r₁, hleads, hstands, hlexemes⟩ := Stands.passBlanks (m := 1) h hr hstarts
  obtain ⟨r', hleads', hstands', hlexemes'⟩ := hstands.brackets hpair (by omega) (by omega) hnext
  refine ⟨r', hleads.trans hleads', hstands', ?_⟩
  rw [hlexemes', hlexemes, hl]

/-- Blocks that a value is made of, at a deeper column or, below a key, at the same one. -/
theorem ReadsBlock.value {opening : Lexeme} {b : List Char} {ls : List Lexeme} {c : Nat}
    (hb : ReadsBlock j opening b ls) (hstarts : ∀ t, Starts (b ++ t)) {start : List Char}
    {below : Nat} (hstart : start = blanks (j - c) ∧ c ≤ j ∧ allowed = true ∨ start = newLine j)
    (hr : Comes r₀ r) (h : Stands r (start ++ b ++ (newLine k ++ next)) c below o allowed)
    (hj : below ≤ j) (hk : k ≤ below) (hnext : Starts next) :
    ∃ r', Leads r₀ r' ∧ Stands r' next k below o true ∧
      r'.lexemes = r.lexemes ++ if below < j then opening :: ls ++ [.blockEnd] else ls := by
  rw [List.append_assoc] at h
  obtain ⟨r₁, hleads, hstands, hlexemes⟩ : ∃ r₁, Leads r₀ r₁ ∧
      Stands r₁ (b ++ (newLine k ++ next)) j below o true ∧ r₁.lexemes = r.lexemes := by
    rcases hstart with ⟨rfl, hc, rfl⟩ | rfl
    · have hpassed := h.passBlanks hr (hstarts _)
      rwa [Nat.add_sub_cancel' hc] at hpassed
    · exact h.passLine hr (hstarts _)
  obtain ⟨r₂, hleads', hstands', hlexemes'⟩ :=
    hb r₁ below o k next (by omega) (by omega) hnext hstands
  by_cases hlt : below < j
  · rw [outerAt, if_pos (by omega)] at hstands'
    obtain ⟨r', hleads'', hlexemes'', hstands''⟩ := hstands'.closes (by omega)
    refine ⟨r', (hleads.trans hleads').trans hleads'', hstands'', ?_⟩
    rw [hlexemes'', hlexemes', hlexemes, opensAt, if_pos (by omega), if_pos hlt]
    simp
  · have heq : j = below := by omega
    subst heq
    rw [outerAt, if_neg (by omega)] at hstands'
    refine ⟨r₂, hleads.trans hleads', hstands', ?_⟩
    rw [hlexemes', hlexemes, opensAt, if_neg (by omega), if_neg hlt, List.append_nil]

/-- A value begins with a gap. -/
theorem value_gap {n i c : Nat} {belowKey : Bool} {d : Data} (hd : Regular n d)
    (hc : belowKey = false → c = i + 1) (t : List Char) :
    isGap ((value i c belowKey d ++ t).headD endChar) = true := by
  have hblank : belowKey = false → blanks (i + 2 - c) = [' '] := fun hbelow => by
    rw [hc hbelow, show i + 2 - (i + 1) = 1 by omega]
    rfl
  cases hd with
  | null | text => simp [value, isGap]
  | bool b => simp [value, isGap]
  | list n xs =>
    cases xs with
    | nil => simp [value, isGap]
    | cons x xs =>
      rw [value_list]
      cases belowKey
      · simp [hblank, isGap]
      · simp [newLine, isGap, isBreakOrEnd, isBreak]
  | map n ms =>
    cases ms with
    | nil => simp [Data.named, value, isGap]
    | cons p ms =>
      rw [value_map]
      cases belowKey
      · simp [hblank, isGap]
      · simp [newLine, isGap, isBreakOrEnd, isBreak]

theorem readsBlock_item {n : Nat} {d : Data} (hregular : Regular n d) (hd : ReadsValue n d)
    (hwidth : j + 2 * n + 2 < Write.width) :
    ReadsBlock j .sequenceStart (itemText j d) (.entry :: valueLexemes false d) := by
  intro r i o k next hij hk hnext h
  obtain ⟨r₁, hcomes, hstands, hlexemes⟩ := h.sign .entry (value_gap hregular (fun _ => rfl) _) hij
  obtain ⟨r', hleads, hstands', hlexemes'⟩ := hd false r r₁ j (j + 1) k (outerAt i o j) next hcomes hstands
    (by omega) (fun _ => rfl) hk hwidth hnext
  refine ⟨r', hleads, hstands', ?_⟩
  rw [hlexemes', hlexemes]
  simp

theorem readsBlock_simple {n : Nat} {p : String × Data} (hregular : Regular n p.2)
    (hd : ReadsValue n p.2) (hkey : Scalar.InLine p.1.toList)
    (hsimple : Write.isSimpleKey p.1.toList = true) (hwidth : j + 2 * n + 2 < Write.width) :
    ReadsBlock j .mappingStart (simpleText j p) (memberLexemes p) := by
  intro r i o k next hij hk hnext h
  rw [simpleText, List.append_assoc] at h
  obtain ⟨r₁, hcomes, hstands, hlexemes⟩ := h.simpleKey hkey hsimple hij (by omega) (by omega)
    (value_gap hregular (by simp) _)
  obtain ⟨r', hleads, hstands', hlexemes'⟩ := hd true r r₁ j _ k (outerAt i o j) next hcomes hstands
    (by omega) (by simp) hk hwidth hnext
  refine ⟨r', hleads, hstands', ?_⟩
  rw [hlexemes', hlexemes, memberLexemes, hsimple]
  simp

theorem readsBlock_apart {n : Nat} {p : String × Data} (hregular : Regular n p.2)
    (hd : ReadsValue n p.2) (hsimple : Write.isSimpleKey p.1.toList = false)
    (hwidth : j + 2 * n + 2 < Write.width) :
    ReadsBlock j .mappingStart (apartText j p) (memberLexemes p) := by
  intro r i o k next hij hk hnext h
  rw [apartText] at h
  simp only [List.append_assoc, List.cons_append] at h
  obtain ⟨r₁, hcomes, hstands, hlexemes⟩ := h.sign .key rfl hij
  obtain ⟨r₂, hleads, hstands, hlexemes₂⟩ :=
    Stands.passBlanks (m := 1) hstands hcomes (starts_text (j + 2) (j + 2) true p.1.toList _)
  obtain ⟨r₃, hleads₃, hstands, hlexemes₃⟩ := hstands.text (by omega) (by omega) (by omega) (by omega)
    (by omega) (by omega) (by omega) (.cons rfl _)
  obtain ⟨r₄, hcomes₄, hstands, hlexemes₄⟩ := hstands.sign .value (value_gap hregular (fun _ => rfl) _)
    (Int.le_refl _)
  obtain ⟨r', hleads', hstands', hlexemes'⟩ := hd false r r₄ j (j + 1) k _ next
    ((hleads.trans hleads₃).comes hcomes₄) hstands (by omega) (fun _ => rfl) hk hwidth hnext
  refine ⟨r', hleads', ?_, ?_⟩
  · rwa [outerAt, if_neg (Int.lt_irrefl _)] at hstands'
  · rw [hlexemes', hlexemes₄, hlexemes₃, hlexemes₂, hlexemes, memberLexemes, hsimple,
      show opensAt (j : Int) j .mappingStart = [] from if_neg (Int.lt_irrefl _)]
    simp

theorem readsBlock_member {n : Nat} {p : String × Data} (hregular : Regular n p.2)
    (hd : ReadsValue n p.2) (hkey : Scalar.InLine p.1.toList) (hwidth : j + 2 * n + 2 < Write.width) :
    ReadsBlock j .mappingStart (memberText j p) (memberLexemes p) := by
  rw [memberText]
  split
  · rename_i hsimple
    exact readsBlock_simple hregular hd hkey hsimple hwidth
  · rename_i hsimple
    exact readsBlock_apart hregular hd (by simpa using hsimple) hwidth

theorem starts_memberText (p : String × Data) (t : List Char) : Starts (memberText j p ++ t) := by
  rw [memberText]
  split
  · rw [simpleText, List.append_assoc]
    exact starts_text _ _ _ _ _
  · exact .cons rfl _

theorem readsValue_list {n : Nat} {xs : List Data} (hitems : ∀ x ∈ xs, Regular n x)
    (hread : ∀ x ∈ xs, ReadsValue n x) : ReadsValue (n + 1) (.list xs) := by
  cases xs with
  | nil =>
    exact readsValue_brackets .list (fun _ _ _ => rfl) (fun _ => rfl)
  | cons x xs =>
    intro belowKey r₀ r i c k o next hr h hi hc hk hwidth hnext
    have hblocks : ∀ j, j + 2 * n + 2 < Write.width → ReadsBlock j .sequenceStart
        (blocks [] j ((x :: xs).map (itemText j))) (itemLexemes (x :: xs)) := fun j hj => by
      rw [itemLexemes_eq]
      exact readsBlock_blocks (by simp) (fun _ _ _ => .cons rfl _)
        fun y hy => readsBlock_item (hitems y hy) (hread y hy) hj
    have hstarts : ∀ j t, Starts (blocks [] j ((x :: xs).map (itemText j)) ++ t) := fun j t => .cons rfl _
    rw [value_list] at h
    cases belowKey with
    | true =>
      have hread := (hblocks i (by omega)).value (hstarts i) (.inr rfl) hr h (Nat.le_refl _) hk hnext
      simpa [valueLexemes_list] using hread
    | false =>
      have hcolumn := hc rfl
      have hread := (hblocks (i + 2) (by omega)).value (hstarts (i + 2))
        (.inl ⟨rfl, by omega, rfl⟩) hr h (by omega) hk hnext
      simpa [valueLexemes_list] using hread

theorem readsValue_map {n : Nat} {ms : List (String × Data)} (hkeys : ∀ p ∈ ms, Scalar.InLine p.1.toList)
    (hvalues : ∀ p ∈ ms, Regular n p.2) (hread : ∀ p ∈ ms, ReadsValue n p.2) :
    ReadsValue (n + 1) (.map (Data.named ms)) := by
  cases ms with
  | nil =>
    exact readsValue_brackets .map (fun _ _ _ => rfl) (fun _ => rfl)
  | cons p ms =>
    intro belowKey r₀ r i c k o next hr h hi hc hk hwidth hnext
    have hblocks : ReadsBlock (i + 2) .mappingStart
        (blocks [] (i + 2) ((p :: ms).map (memberText (i + 2)))) (entryLexemes (Data.named (p :: ms))) := by
      rw [entryLexemes_named]
      exact readsBlock_blocks (by simp) (fun q _ t => starts_memberText q t)
        fun q hq => readsBlock_member (hvalues q hq) (hread q hq) (hkeys q hq) (by omega)
    have hstarts : ∀ t, Starts (blocks [] (i + 2) ((p :: ms).map (memberText (i + 2))) ++ t) := fun t => by
      rw [List.map_cons, blocks, List.nil_append, List.append_assoc]
      exact starts_memberText p _
    rw [value_map] at h
    cases belowKey with
    | true =>
      have hread := hblocks.value hstarts (.inr rfl) hr h (by omega) hk hnext
      simpa [valueLexemes_map] using hread
    | false =>
      have hcolumn := hc rfl
      have hread := hblocks.value hstarts (.inl ⟨rfl, by omega, rfl⟩) hr h (by omega) hk hnext
      simpa [valueLexemes_map] using hread

/-- **Every value is read from what it is written as.** -/
theorem readsValue {n : Nat} {d : Data} (hd : Regular n d) : ReadsValue n d := by
  induction hd with
  | null n =>
    exact readsValue_word "null" (by simp) (fun _ _ _ => rfl) (fun _ => rfl)
  | bool n b =>
    refine readsValue_word (if b then "true" else "false") (by cases b <;> simp) (fun _ _ _ => ?_)
      (fun _ => rfl)
    cases b <;> rfl
  | text n s => exact readsValue_text n s
  | list n xs hitems ih => exact readsValue_list hitems ih
  | map n ms _ hkeys hvalues ih => exact readsValue_map hkeys hvalues ih

end Reading

end Cnd.Yaml
