import Cnd.Proofs.Yaml.Meaning
import Cnd.Proofs.Yaml.Tokens

/-!
The tree of a document.

Reading a node takes the lexemes of a value and leaves what stands behind them, and the node means the
value as it is read back (`gives_value`). No node of a document has an anchor or a tag of its own.
-/

namespace Cnd.Yaml.Node

open Read

/-! ## What reading takes -/

def Ahead.lexemes (s : Ahead) : List Lexeme := s.tokens.map (·.lexeme)

/-- Reading takes some lexemes in front of others, and gives something with a property. -/
def Gives {α : Type} (read : Read α) (ls next : List Lexeme) (p : α → Prop) : Prop :=
  ∀ s : Ahead, s.lexemes = ls ++ next → ∃ a s', read s = .ok (a, s') ∧ s'.lexemes = next ∧ p a

section

variable {α β : Type} {l : Lexeme} {ls b next : List Lexeme} {p : α → Prop} {q : β → Prop}

theorem bind_of_eq {x : Read α} {f : α → Read β} {s s' : Ahead} {a : α} (h : x s = .ok (a, s')) :
    (x >>= f) s = f a s' := by
  simp only [Bind.bind, StateT.bind, Except.bind, h]

theorem Gives.bind {x : Read α} {f : α → Read β} (hx : Gives x ls (b ++ next) p)
    (hf : ∀ a, p a → Gives (f a) b next q) : Gives (x >>= f) (ls ++ b) next q := by
  intro s hs
  obtain ⟨a, s₁, hread, hs₁, ha⟩ := hx s (by rw [hs, List.append_assoc])
  rw [bind_of_eq hread]
  exact hf a ha s₁ hs₁

theorem Gives.imp {x : Read α} {q : α → Prop} (hx : Gives x ls next p) (h : ∀ a, p a → q a) :
    Gives x ls next q := fun s hs => by
  obtain ⟨a, s', hread, hs', ha⟩ := hx s hs
  exact ⟨a, s', hread, hs', h a ha⟩

theorem gives_pure {a : α} (ha : p a) : Gives (pure a) [] next p := fun s hs => ⟨a, s, rfl, hs, ha⟩

theorem Gives.map {x : Read α} {f : α → β} (hx : Gives x ls next p) (hf : ∀ a, p a → q (f a)) :
    Gives (x >>= fun a => pure (f a)) ls next q := by
  have h : Gives (x >>= fun a => pure (f a)) (ls ++ []) next q := hx.bind fun a ha => gives_pure (hf a ha)
  rwa [List.append_nil] at h

/-! ## Single tokens -/

variable {s : Ahead} {t : Token} {ts : List Token}

theorem exists_of_lexemes (h : s.lexemes = l :: ls) :
    ∃ t ts, s.tokens = t :: ts ∧ t.lexeme = l ∧ ts.map (·.lexeme) = ls :=
  List.map_eq_cons_iff.1 h

theorem peek_eq (h : s.tokens = t :: ts) : peek s = .ok (t, s) := by rw [peek, h]

theorem skip_eq (h : s.tokens = t :: ts) : skip s = .ok ((), { s with tokens := ts }) := by
  show Except.ok ((), { s with tokens := s.tokens.tail }) = _
  rw [h, List.tail_cons]

theorem next?_eq (h : s.tokens = t :: ts) : next? l s =
    if t.lexeme == l then .ok (some t, { s with tokens := ts }) else .ok (none, s) := by
  rw [next?, bind_of_eq (peek_eq h)]
  split
  · rw [bind_of_eq (skip_eq h)]
    rfl
  · rfl

theorem gives_next? : Gives (next? l) [l] next fun t => ∃ token, t = some token := by
  intro s hs
  obtain ⟨t, ts, htokens, rfl, hts⟩ := exists_of_lexemes hs
  exact ⟨_, { s with tokens := ts }, by rw [next?_eq htokens, if_pos (beq_self_eq_true _)], hts, t, rfl⟩

theorem gives_next?_none {l' : Lexeme} (h : l' ≠ l) : Gives (next? l) [] (l' :: next) (· = none) := by
  intro s hs
  obtain ⟨t, ts, htokens, rfl, hts⟩ := exists_of_lexemes hs
  exact ⟨_, _, by rw [next?_eq htokens, if_neg (by simpa using h)], hs, rfl⟩

theorem gives_skip : Gives skip [l] next fun _ => True := by
  intro s hs
  obtain ⟨t, ts, htokens, rfl, hts⟩ := exists_of_lexemes hs
  exact ⟨(), { s with tokens := ts }, skip_eq htokens, hts, trivial⟩

theorem gives_expect : Gives (expect l) [l] next fun _ => True := by
  refine gives_next?.bind (b := []) ?_
  rintro _ ⟨token, rfl⟩
  exact gives_pure trivial

/-- What is not left out is read. -/
theorem Gives.present {stops : List Lexeme} {m : Mark} {read : Read Node} {p : Node → Prop}
    (h : Gives read ls next p) (hl : ∃ l, ls.head? = some l ∧ l ∉ stops) :
    Gives (presentOr stops m read) ls next p := by
  intro s hs
  obtain ⟨l, hfirst, hl⟩ := hl
  obtain ⟨ls, rfl⟩ := List.head?_eq_some_iff.1 hfirst
  obtain ⟨t, ts, htokens, rfl, hts⟩ := exists_of_lexemes hs
  have hnext : isNext stops s = .ok (stops.contains t.lexeme, s) := by
    rw [isNext, bind_of_eq (peek_eq htokens)]
    rfl
  rw [presentOr, bind_of_eq hnext, if_neg (by simpa using hl)]
  exact h s hs

theorem Gives.entryValue {stops : List Lexeme} {read : Read Node} {p : Node → Prop}
    (h : Gives read ls next p) (hl : ∃ l, ls.head? = some l ∧ l ∉ stops) :
    Gives (entryValue stops read) (.value :: ls) next p := by
  refine gives_next?.bind (b := ls) ?_
  rintro _ ⟨token, rfl⟩
  exact h.present hl

/-! ## Nodes -/

variable {fuel : Nat} {inBlock loose : Bool}

/-- Before a lexeme of no anchor and no tag there are no properties. -/
theorem properties_eq (h : s.tokens = t :: ts) (hanchor : ∀ name, t.lexeme ≠ .anchor name)
    (htag : ∀ handle suffix, t.lexeme ≠ .tag handle suffix) :
    properties s = .ok (⟨none, none, none⟩, s) := by
  have hnone : anchor? s = .ok ((none, none), s) ∧ tag? s = .ok ((none, none), s) := by
    rw [anchor?, tag?, bind_of_eq (peek_eq h), bind_of_eq (peek_eq h)]
    cases hl : t.lexeme with
    | anchor name => exact absurd hl (hanchor name)
    | tag handle suffix => exact absurd hl (htag handle suffix)
    | _ => exact ⟨rfl, rfl⟩
  rw [properties, bind_of_eq hnone.1]
  dsimp only
  rw [bind_of_eq hnone.2]
  rfl

theorem gives_scalar {text : String} {isPlain : Bool} :
    Gives (node (fuel + 1) inBlock loose) [.scalar text isPlain] next fun n =>
      ∃ mark, n = .scalar (if isPlain then .ofPlain text else .str) text mark := by
  intro s hs
  obtain ⟨⟨lexeme, start, stop⟩, ts, htokens, rfl, hts⟩ := exists_of_lexemes hs
  refine ⟨_, { s with tokens := ts }, ?_, hts, start, rfl⟩
  rw [node, bind_of_eq (peek_eq htokens)]
  dsimp only
  rw [bind_of_eq (properties_eq htokens (by simp) (by simp)), bind_of_eq (peek_eq htokens)]
  dsimp only
  rw [bind_of_eq (skip_eq htokens)]
  cases isPlain <;> rfl

theorem gives_opening {opening : Opening} {p : Node → Prop} (h : openingOf inBlock loose l = some opening)
    (hread : ∀ start, Gives (collection fuel none start opening) (l :: ls) next p) :
    Gives (node (fuel + 1) inBlock loose) (l :: ls) next p := by
  intro s hs
  obtain ⟨⟨lexeme, start, stop⟩, ts, htokens, rfl, hts⟩ := exists_of_lexemes hs
  obtain ⟨a, s', hcollection, hs', ha⟩ := hread start s hs
  have hclaim : Properties.claim ⟨none, none, none⟩ s = .ok ((), s) := rfl
  refine ⟨a, s', ?_, hs', ha⟩
  rw [node, bind_of_eq (peek_eq htokens)]
  -- an anchor, a tag and a scalar open nothing
  cases lexeme with
  | entry | openList | openMap | sequenceStart | mappingStart =>
    dsimp only
    rw [bind_of_eq (properties_eq htokens (by simp) (by simp)), bind_of_eq (peek_eq htokens)]
    dsimp only
    rw [h]
    exact (bind_of_eq hclaim).trans (bind_of_eq hcollection)
  | _ => cases h

end

/-! ## What nodes mean -/

/-- A node means a value as it is read back, wherever the node stands. -/
def Echoes (n : Node) (d : Data) : Prop := ∀ depth, n.meaning depth = .ok (readBack d)

/-- An entry of a mapping is a member as it is read back. -/
def EchoesMember (e : Node × Node) (m : String × Data) : Prop :=
  (∃ mark, e.1 = .scalar .str m.1 mark) ∧ Echoes e.2 m.2

section

variable {mark : Mark}

theorem echoes_sequence {items : List Node} {xs : List Data} (h : List.Forall₂ Echoes items xs) :
    Echoes (.sequence .seq items mark) (.list xs) := by
  intro depth
  have hall : Meaning.all (meanings (depth + 1) items) = .ok (readItems xs) := by
    rw [Meaning.all_eq_ok]
    induction h with
    | nil =>
      rw [meanings, readItems]
      exact .nil
    | cons hx _ ih =>
      rw [meanings, readItems]
      exact .cons (hx _) ih
  rw [meaning]
  simp only [hall]
  rw [readBack]
  rfl

theorem readEntries_named (ms : List (String × Data)) :
    readEntries (Data.named ms) = Data.named (ms.map fun m => (m.1, readBack m.2)) := by
  induction ms with
  | nil =>
    rw [Data.named, List.map_nil, readEntries]
    rfl
  | cons m ms ih =>
    rw [Data.named, List.map_cons, readEntries, ← Data.named, ih]
    rfl

theorem all_own {entries : List (Node × Node)} {ms : List (String × Data)}
    (h : List.Forall₂ EchoesMember entries ms) (depth : Nat) :
    Meaning.all (own depth entries) = .ok (readEntries (Data.named ms)) := by
  rw [Meaning.all_eq_ok]
  induction h with
  | nil =>
    rw [own, Data.named, List.map_nil, readEntries]
    exact .nil
  | @cons e m entries ms hm _ ih =>
    obtain ⟨k, v⟩ := e
    obtain ⟨⟨mark, rfl⟩, hv⟩ := hm
    rw [own, if_neg (by simp [Node.tag]), key_text, Data.named, List.map_cons, readEntries]
    exact .cons (Meaning.both_eq_ok.2 ⟨rfl, hv depth⟩) ih

theorem echoes_mapping {entries : List (Node × Node)} {ms : List (String × Data)}
    (h : List.Forall₂ EchoesMember entries ms) (hnames : (ms.map (·.1)).Nodup) :
    Echoes (.mapping .map entries mark) (.map (Data.named ms)) := by
  intro depth
  have hkeys : TextKeys entries := fun e he => by
    obtain ⟨m, -, ⟨mark, hm⟩, -⟩ := exists_of_forall₂ h.flip he
    exact ⟨_, m.1, mark, hm, rfl⟩
  have hread : ((ms.map fun m => (m.1, readBack m.2)).map (·.1)).Nodup := by
    rwa [List.map_map]
  have htable : table (depth + 1) entries = .ok (readEntries (Data.named ms)) := by
    rw [table, merged_eq_nil hkeys]
    simp only [List.nil_append, all_own h]
    rw [readEntries_named]
    exact congrArg Except.ok (Data.foldl_insert_named hread)
  rw [meaning, htable, readBack]
  rfl

/-- A scalar of a text is a text, whether it has quotes or not. -/
theorem tag_textLexeme (s : String) :
    (if Write.formOf s.toList == .plain then Tag.ofPlain (readText s) else .str) = .str := by
  split
  · rename_i hform
    rw [readText, eq_of_beq hform]
    rcases formOf_cases s.toList with ⟨-, hfits⟩ | ⟨hform', -⟩ | hform'
    · cases hs : s.toList with
      | nil => simp [hs, Write.fitsPlain] at hfits
      | cons c rest =>
        rw [hs] at hfits
        have htag := (fitsPlain_cons.1 hfits).2.2.2.2.2.2
        rwa [← hs, String.ofList_toList] at htag
    all_goals
      rw [hform'] at hform
      cases hform
  · rfl

end

/-! ## Values -/

/-- Reading a node takes the lexemes of a value and gives a node of it. A list below a key ends where no
item follows. -/
def GivesValue (d : Data) : Prop :=
  ∀ (belowKey loose : Bool) (fuel : Nat) (next : List Lexeme),
    (belowKey = true → loose = true ∧ ∃ l, next.head? = some l ∧ l ≠ .entry) →
    3 * (valueLexemes belowKey d).length ≤ fuel →
    Gives (node fuel true loose) (valueLexemes belowKey d) next (Echoes · d)

section

variable {n fuel : Nat} {loose belowKey : Bool} {d : Data} {next : List Lexeme} {xs : List Data}
  {ms : List (String × Data)}

/-- A value begins neither with the sign of an entry nor, but below a key, with that of an item. -/
theorem head_valueLexemes (hd : Regular n d) (belowKey : Bool) :
    ∃ l, (valueLexemes belowKey d).head? = some l ∧ l ∉ blockStops ∧ (belowKey = false → l ≠ .entry) := by
  cases hd with
  | null | bool | text => simp [valueLexemes, wordLexeme, textLexeme, blockStops]
  | list n xs =>
    cases xs <;> cases belowKey <;> simp [valueLexemes, itemLexemes_cons, blockStops]
  | map n ms => cases ms <;> simp [valueLexemes, Data.named, blockStops]

theorem head_item (hd : Regular n d) {stops : List Lexeme} (hstops : ∀ l ∈ stops, l = .entry ∨ l ∈ blockStops) :
    ∃ l, (valueLexemes false d).head? = some l ∧ l ∉ stops := by
  obtain ⟨l, hl, hblock, hentry⟩ := head_valueLexemes hd false
  exact ⟨l, hl, fun hmem => (hstops l hmem).elim (hentry rfl) hblock⟩

theorem length_valueLexemes_pos (hd : Regular n d) (belowKey : Bool) :
    0 < (valueLexemes belowKey d).length := by
  obtain ⟨l, hl, -⟩ := head_valueLexemes hd belowKey
  obtain ⟨ls, hls⟩ := List.head?_eq_some_iff.1 hl
  rw [hls]
  exact Nat.succ_pos _

theorem gives_text (s : String) : Gives (node (fuel + 1) true loose) [textLexeme s] next
    fun n => ∃ mark, n = .scalar .str (readText s) mark := by
  have h : Gives (node (fuel + 1) true loose) [textLexeme s] next _ := gives_scalar
  rwa [tag_textLexeme] at h

theorem givesValue_text (s : String) : GivesValue (.text s) := by
  intro belowKey loose fuel next hnext hfuel
  rw [valueLexemes_text] at hfuel ⊢
  obtain ⟨fuel, rfl⟩ : ∃ m, fuel = m + 1 := ⟨fuel - 1, by simp at hfuel; omega⟩
  refine (gives_text s).imp ?_
  rintro _ ⟨mark, rfl⟩ depth
  rw [meaning, readBack]
  rfl

theorem givesValue_word {word : String} (hl : ∀ belowKey, valueLexemes belowKey d = [wordLexeme word])
    (hd : ∀ mark, Echoes (.scalar (.ofPlain word) word mark) d) : GivesValue d := by
  intro belowKey loose fuel next hnext hfuel
  rw [hl] at hfuel ⊢
  obtain ⟨fuel, rfl⟩ : ∃ m, fuel = m + 1 := ⟨fuel - 1, by simp at hfuel; omega⟩
  refine gives_scalar.imp ?_
  rintro _ ⟨mark, rfl⟩
  exact hd mark

theorem gives_blockItems (hregular : ∀ x ∈ xs, Regular n x) (hread : ∀ x ∈ xs, GivesValue x)
    (hpos : 0 < fuel) (hfuel : 3 * (itemLexemes xs).length ≤ fuel + 2) :
    Gives (blockItems fuel) (itemLexemes xs ++ [.blockEnd]) next
      fun items => List.Forall₂ Echoes items xs := by
  induction xs generalizing fuel with
  | nil =>
    obtain ⟨fuel, rfl⟩ := Nat.exists_eq_succ_of_ne_zero (Nat.ne_of_gt hpos)
    rw [blockItems, itemLexemes_nil]
    refine (gives_next?_none (by simp)).bind (b := [.blockEnd]) ?_
    rintro _ rfl
    exact gives_expect.bind (b := []) fun _ _ => gives_pure .nil
  | cons x xs ih =>
    obtain ⟨fuel, rfl⟩ := Nat.exists_eq_succ_of_ne_zero (Nat.ne_of_gt hpos)
    obtain ⟨hx, hxs⟩ := List.forall_mem_cons.1 hregular
    obtain ⟨hread, hreads⟩ := List.forall_mem_cons.1 hread
    have hlength := length_valueLexemes_pos hx false
    simp only [itemLexemes_cons, List.length_cons, List.length_append] at hfuel
    rw [blockItems, itemLexemes_cons, List.cons_append, List.append_assoc]
    refine gives_next?.bind (b := valueLexemes false x ++ (itemLexemes xs ++ [.blockEnd])) ?_
    rintro _ ⟨token, rfl⟩
    refine ((hread false false fuel _ (by simp) (by omega)).present
      (head_item hx (by simp [blockStops]))).bind fun item hitem => ?_
    exact (ih hxs hreads (by omega) (by omega)).map fun items hitems => .cons hitem hitems

theorem gives_looseItems (hregular : ∀ x ∈ xs, Regular n x) (hread : ∀ x ∈ xs, GivesValue x)
    (hnext : ∃ l, next.head? = some l ∧ l ≠ .entry)
    (hpos : 0 < fuel) (hfuel : 3 * (itemLexemes xs).length ≤ fuel + 2) :
    Gives (looseItems fuel) (itemLexemes xs) next fun items => List.Forall₂ Echoes items xs := by
  induction xs generalizing fuel with
  | nil =>
    obtain ⟨fuel, rfl⟩ := Nat.exists_eq_succ_of_ne_zero (Nat.ne_of_gt hpos)
    obtain ⟨l, hfirst, hl⟩ := hnext
    obtain ⟨next, rfl⟩ := List.head?_eq_some_iff.1 hfirst
    rw [looseItems, itemLexemes_nil]
    refine (gives_next?_none hl).bind (b := []) ?_
    rintro _ rfl
    exact gives_pure .nil
  | cons x xs ih =>
    obtain ⟨fuel, rfl⟩ := Nat.exists_eq_succ_of_ne_zero (Nat.ne_of_gt hpos)
    obtain ⟨hx, hxs⟩ := List.forall_mem_cons.1 hregular
    obtain ⟨hread, hreads⟩ := List.forall_mem_cons.1 hread
    have hlength := length_valueLexemes_pos hx false
    simp only [itemLexemes_cons, List.length_cons, List.length_append] at hfuel
    rw [looseItems, itemLexemes_cons]
    refine gives_next?.bind (b := valueLexemes false x ++ itemLexemes xs) ?_
    rintro _ ⟨token, rfl⟩
    refine ((hread false false fuel _ (by simp) (by omega)).present
      (head_item hx (by simp [blockStops]))).bind fun item hitem => ?_
    exact (ih hxs hreads (by omega) (by omega)).map fun items hitems => .cons hitem hitems

/-- Behind the value of an entry comes another entry or the end of the mapping. -/
theorem head_entryLexemes (ms : List (String × Data)) (next : List Lexeme) :
    ∃ l, (entryLexemes (Data.named ms) ++ ([Lexeme.blockEnd] ++ next)).head? = some l ∧ l ≠ .entry := by
  cases ms with
  | nil => simp [Data.named, entryLexemes]
  | cons m ms => simp [Data.named, entryLexemes]

theorem gives_blockEntries (hregular : ∀ m ∈ ms, Scalar.InLine m.1.toList ∧ Regular n m.2)
    (hread : ∀ m ∈ ms, GivesValue m.2) (hpos : 0 < fuel)
    (hfuel : 3 * (entryLexemes (Data.named ms)).length ≤ fuel + 2) :
    Gives (blockEntries fuel) (entryLexemes (Data.named ms) ++ [.blockEnd]) next
      fun entries => List.Forall₂ EchoesMember entries ms := by
  induction ms generalizing fuel with
  | nil =>
    obtain ⟨fuel, rfl⟩ := Nat.exists_eq_succ_of_ne_zero (Nat.ne_of_gt hpos)
    rw [blockEntries, Data.named, List.map_nil, entryLexemes]
    refine (gives_next?_none (by simp)).bind (b := [.blockEnd]) ?_
    rintro _ rfl
    exact gives_expect.bind (b := []) fun _ _ => gives_pure .nil
  | cons m ms ih =>
    obtain ⟨fuel, rfl⟩ := Nat.exists_eq_succ_of_ne_zero (Nat.ne_of_gt hpos)
    obtain ⟨⟨hkey, hm⟩, hms⟩ := List.forall_mem_cons.1 hregular
    obtain ⟨hread, hreads⟩ := List.forall_mem_cons.1 hread
    have hlexemes : entryLexemes (Data.named (m :: ms)) ++ [.blockEnd] =
        [.key] ++ ([textLexeme m.1] ++ ((.value :: valueLexemes (Write.isSimpleKey m.1.toList) m.2) ++
          (entryLexemes (Data.named ms) ++ [.blockEnd]))) := by
      simp [entryLexemes_named, memberLexemes]
    have hlength : (entryLexemes (Data.named (m :: ms))).length =
        3 + (valueLexemes (Write.isSimpleKey m.1.toList) m.2).length +
          (entryLexemes (Data.named ms)).length := by
      simp only [entryLexemes_named, List.flatMap_cons, memberLexemes, List.length_append, List.length_cons]
      omega
    have hfirst : ∃ l, [textLexeme m.1].head? = some l ∧ l ∉ blockStops :=
      ⟨_, rfl, by simp [textLexeme, blockStops]⟩
    obtain ⟨l, hl, hstop, -⟩ := head_valueLexemes hm (Write.isSimpleKey m.1.toList)
    obtain ⟨fuel, rfl⟩ : ∃ k, fuel = k + 1 := ⟨fuel - 1, by omega⟩
    rw [blockEntries, hlexemes]
    refine gives_next?.bind ?_
    rintro _ ⟨token, rfl⟩
    refine ((gives_text m.1).present hfirst).bind ?_
    rintro _ ⟨mark, rfl⟩
    refine ((hread _ true (fuel + 1) _ (fun _ => ⟨rfl, ?_⟩) (by omega)).entryValue ⟨l, hl, hstop⟩).bind
      fun value hvalue => ?_
    · rw [List.append_assoc]
      exact head_entryLexemes ms next
    · refine (ih hms hreads (by omega) (by omega)).map fun entries hentries => .cons ⟨?_, hvalue⟩ hentries
      exact ⟨mark, by rw [Reading.readText_of_inLine hkey]⟩

theorem collection_succ (tag : Option Tag) (start : Mark) (opening : Opening) :
    collection (fuel + 1) tag start opening = do
      match opening with
      | .loose => return .sequence (tag.getD .seq) (← looseItems fuel) start
      | .list => skip; return .sequence (tag.getD .seq) (← listItems fuel true) start
      | .map => skip; return .mapping (tag.getD .map) (← mapEntries fuel true) start
      | .blockList => skip; return .sequence (tag.getD .seq) (← blockItems fuel) start
      | .blockMap => skip; return .mapping (tag.getD .map) (← blockEntries fuel) start :=
  rfl

/-- A list without items is in brackets. -/
theorem gives_noItems :
    Gives (node (fuel + 3) true loose) [.openList, .closeList] next (Echoes · (.list [])) := by
  refine gives_opening rfl fun start => ?_
  rw [collection_succ]
  refine gives_skip.bind (b := [.closeList]) fun _ _ => ?_
  rw [listItems]
  refine Gives.map (p := (· = [])) ?_ ?_
  · refine gives_next?.bind (b := []) ?_
    rintro _ ⟨token, rfl⟩
    exact gives_pure rfl
  · rintro _ rfl
    exact echoes_sequence .nil

/-- Below a key the items of a list have no sign around them. -/
theorem gives_looseList {x : Data} (hregular : ∀ y ∈ x :: xs, Regular n y)
    (hread : ∀ y ∈ x :: xs, GivesValue y) (hnext : ∃ l, next.head? = some l ∧ l ≠ .entry)
    (hfuel : 3 * (itemLexemes (x :: xs)).length ≤ fuel) :
    Gives (node fuel true true) (itemLexemes (x :: xs)) next (Echoes · (.list (x :: xs))) := by
  have hlength := length_valueLexemes_pos (hregular x (by simp)) false
  have hitems : 2 ≤ (itemLexemes (x :: xs)).length := by
    simp only [itemLexemes_cons, List.length_cons, List.length_append]
    omega
  obtain ⟨fuel, rfl⟩ : ∃ k, fuel = k + 2 := ⟨fuel - 2, by omega⟩
  have hloose : Gives (looseItems fuel) (itemLexemes (x :: xs)) next _ :=
    gives_looseItems hregular hread hnext (by omega) (by omega)
  rw [itemLexemes_cons] at hloose ⊢
  refine gives_opening rfl fun start => ?_
  rw [collection_succ]
  exact hloose.map fun items hitems => echoes_sequence hitems

theorem gives_blockList (hregular : ∀ x ∈ xs, Regular n x) (hread : ∀ x ∈ xs, GivesValue x)
    (hfuel : 3 * (itemLexemes xs).length + 3 ≤ fuel) :
    Gives (node fuel true loose) (.sequenceStart :: (itemLexemes xs ++ [.blockEnd])) next
      (Echoes · (.list xs)) := by
  obtain ⟨fuel, rfl⟩ : ∃ k, fuel = k + 2 := ⟨fuel - 2, by omega⟩
  refine gives_opening rfl fun start => ?_
  rw [collection_succ]
  refine gives_skip.bind (b := itemLexemes xs ++ [.blockEnd]) fun _ _ => ?_
  exact (gives_blockItems hregular hread (by omega) (by omega)).map
    fun items hitems => echoes_sequence hitems

theorem givesValue_list (hregular : ∀ x ∈ xs, Regular n x) (hread : ∀ x ∈ xs, GivesValue x) :
    GivesValue (.list xs) := by
  intro belowKey loose fuel next hnext hfuel
  cases xs with
  | nil =>
    simp only [valueLexemes, List.length_cons, List.length_nil] at hfuel ⊢
    obtain ⟨fuel, rfl⟩ : ∃ k, fuel = k + 3 := ⟨fuel - 3, by omega⟩
    exact gives_noItems
  | cons x xs =>
    cases belowKey with
    | true =>
      obtain ⟨rfl, hend⟩ := hnext rfl
      rw [valueLexemes_list, if_pos rfl] at hfuel ⊢
      exact gives_looseList hregular hread hend hfuel
    | false =>
      rw [valueLexemes_list, if_neg Bool.false_ne_true] at hfuel ⊢
      simp only [List.length_cons, List.length_append, List.length_nil] at hfuel
      exact gives_blockList hregular hread (by omega)

/-- A mapping without entries is in braces. -/
theorem gives_noEntries :
    Gives (node (fuel + 3) true loose) [.openMap, .closeMap] next (Echoes · (.map (Data.named []))) := by
  refine gives_opening rfl fun start => ?_
  rw [collection_succ]
  refine gives_skip.bind (b := [.closeMap]) fun _ _ => ?_
  rw [mapEntries]
  refine Gives.map (p := (· = [])) ?_ ?_
  · refine gives_next?.bind (b := []) ?_
    rintro _ ⟨token, rfl⟩
    exact gives_pure rfl
  · rintro _ rfl
    exact echoes_mapping .nil .nil

theorem givesValue_map (hnames : (ms.map (·.1)).Nodup)
    (hregular : ∀ m ∈ ms, Scalar.InLine m.1.toList ∧ Regular n m.2)
    (hread : ∀ m ∈ ms, GivesValue m.2) : GivesValue (.map (Data.named ms)) := by
  intro belowKey loose fuel next hnext hfuel
  cases ms with
  | nil =>
    simp only [valueLexemes, Data.named, List.map_nil, List.length_cons, List.length_nil] at hfuel ⊢
    obtain ⟨fuel, rfl⟩ : ∃ k, fuel = k + 3 := ⟨fuel - 3, by omega⟩
    exact gives_noEntries
  | cons m ms =>
    rw [valueLexemes_map] at hfuel ⊢
    simp only [List.length_cons, List.length_append, List.length_nil] at hfuel
    obtain ⟨fuel, rfl⟩ : ∃ k, fuel = k + 2 := ⟨fuel - 2, by omega⟩
    refine gives_opening rfl fun start => ?_
    rw [collection_succ]
    refine gives_skip.bind (b := entryLexemes (Data.named (m :: ms)) ++ [.blockEnd]) fun _ _ => ?_
    exact (gives_blockEntries hregular hread (by omega) (by omega)).map
      fun entries hentries => echoes_mapping hentries hnames

/-- **Every value is read from its lexemes, as it is read back.** -/
theorem givesValue (hd : Regular n d) : GivesValue d := by
  induction hd with
  | null n =>
    refine givesValue_word (fun _ => rfl) fun mark depth => ?_
    rw [meaning, show readBack .null = .null by simp [readBack]]
    rfl
  | bool n b =>
    refine givesValue_word (fun _ => rfl) fun mark depth => ?_
    rw [meaning, show readBack (.bool b) = .bool b by simp [readBack]]
    cases b <;> rfl
  | text n s => exact givesValue_text s
  | list n xs hitems ih => exact givesValue_list hitems ih
  | map n ms hnames hkeys hvalues ih =>
    exact givesValue_map hnames (fun m hm => ⟨hkeys m hm, hvalues m hm⟩) ih

end

/-! ## Documents -/

section

variable {n fuel : Nat} {ms : List (String × Data)}

theorem gives_document (hne : ms ≠ []) (hd : Regular (n + 1) (.map (Data.named ms)))
    (hfuel : 3 * (valueLexemes false (.map (Data.named ms))).length ≤ fuel) :
    Gives (document fuel) (valueLexemes false (.map (Data.named ms))) [.textEnd]
      fun root => ∃ n, root = some n ∧ Echoes n (.map (Data.named ms)) := by
  intro s hs
  obtain ⟨root, s', hread, hs', hroot⟩ := givesValue hd false false fuel [.textEnd] (by simp) hfuel s hs
  obtain ⟨m, ms, rfl⟩ := List.exists_cons_of_ne_nil hne
  rw [valueLexemes_map] at hs
  obtain ⟨t, ts, htokens, hfirst, -⟩ := exists_of_lexemes hs
  obtain ⟨t', ts', htokens', hlast, hts'⟩ := exists_of_lexemes hs'
  have hends : skipEnds s' = .ok ((), s') := by
    show Except.ok ((), { s' with tokens := s'.tokens.dropWhile (·.lexeme == Lexeme.documentEnd) }) = _
    rw [htokens', List.dropWhile_cons_of_neg (by simp [hlast]), ← htokens']
  have hnext : isNext [.textEnd] s' = .ok (true, s') := by
    rw [isNext, bind_of_eq (peek_eq htokens'), hlast]
    rfl
  refine ⟨some root, s', ?_, hs', root, rfl, hroot⟩
  rw [document, bind_of_eq (peek_eq htokens), hfirst]
  simp only [isDirective, Bool.false_or]
  rw [if_neg (by decide), if_neg (by decide), bind_of_eq hread, bind_of_eq hends, bind_of_eq hnext]
  rfl

/-- **The tree of a document means the mapping that is written, as it is read back.** -/
theorem ofText_document (hne : ms ≠ []) (hd : Regular (n + 1) (.map (Data.named ms)))
    (hwidth : 2 * n + 2 < Write.width) :
    ∃ root, ofText (Write.document (.map (Data.named ms)) ++ ['\n']) = .ok (some root) ∧
      Echoes root (.map (Data.named ms)) := by
  have hlexemes := tokens_document hne hd hwidth
  have hvalue : valueLexemes false (.map (Data.named ms)) =
      .mappingStart :: (entryLexemes (Data.named ms) ++ [.blockEnd]) := by
    obtain ⟨m, ms, rfl⟩ := List.exists_cons_of_ne_nil hne
    exact valueLexemes_map ..
  let found := Tokens.ofText (Write.document (.map (Data.named ms)) ++ ['\n'])
  have htokens : found.tokens.map (·.lexeme) = valueLexemes false (.map (Data.named ms)) ++ [.textEnd] := by
    rw [hlexemes, hvalue]
    simp
  have hlength : found.tokens.length = (valueLexemes false (.map (Data.named ms))).length + 1 := by
    rw [← List.length_map (·.lexeme), htokens, List.length_append]
    rfl
  have hdocument : Gives (document (3 * found.tokens.length + 3)) _ _ _ :=
    gives_document hne hd (by omega)
  obtain ⟨_, s', hread, -, root, rfl, hroot⟩ :=
    hdocument ⟨found.tokens, found.fault.getD .malformed, usualHandles, []⟩ htokens
  refine ⟨root, ?_, hroot⟩
  rw [ofText, hread]
  rfl

end

end Cnd.Yaml.Node

namespace Cnd.Yaml

/-- **A mapping that is written as a document is read as `readBack` says**: nothing of it is at fault, and
all but its next-line characters in single quotes are there. -/
theorem read_document {n : Nat} {ms : List (String × Data)} (hne : ms ≠ [])
    (hd : Regular (n + 1) (.map (Data.named ms))) (hwidth : 2 * n + 2 < Write.width) :
    read (write (.map (Data.named ms))).toList = .ok (readBack (.map (Data.named ms))) := by
  obtain ⟨root, hroot, hechoes⟩ := Node.ofText_document hne hd hwidth
  have hdata : root.toData = .ok (readBack (.map (Data.named ms))) := by
    rw [Node.toData, hechoes 0]
  rw [read, readTree, write, String.toList_ofList, hroot]
  simp only [hdata]
  rfl

end Cnd.Yaml
