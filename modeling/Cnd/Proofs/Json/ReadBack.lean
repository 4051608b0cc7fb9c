import Cnd.Proofs.Json.Write
import Cnd.Proofs.Text.Digit

/-!
Documents are read as the values that they were written for (`read_write`).

Each character of a text is read from what it is written as, be it a letter, an escape or one or two
halves of a code point (`Escaped.textBody`). A value is read from its text at any depth and
whatever follows it, which carries the induction (`readsBack_of_plain`).
-/

namespace Cnd.Json

/-! ## Characters -/

/-- Four digits are the number that they were written for. -/
theorem unit?_paddedHex {n : Nat} (h : n < 0x10000) (c : Char) (rest : List Char) :
    unit? (Text.paddedHex 4 n ++ c :: rest) = some (n, c :: rest) := by
  have hvalue (m : Nat) : Text.hexValue? (Text.hexDigit (m % 16)) = some (m % 16) :=
    Text.hexValue?_hexDigit (Nat.mod_lt m (by decide))
  simp only [Text.paddedHex, List.nil_append, List.cons_append, unit?, hvalue,
    Option.bind_eq_bind, Option.bind_some, Option.pure_def, Option.some.injEq, Prod.mk.injEq, and_true]
  omega

theorem textBody_skip (start : Nat) (passed rest : List Char) :
    textBody start passed.length (passed ++ rest) = textBody start 0 rest := by
  induction passed with
  | nil => rfl
  | cons c passed ih => exact ih

/-- The content of a text with a character in front. -/
def withChar (c : Char) (p : List Char × List Char) : List Char × List Char := (c :: p.1, p.2)

theorem textBody_escape {c d : Char} (h : unescape? c = some d) (start : Nat) (rest : List Char) :
    textBody start 0 ('\\' :: c :: rest) = (textBody start 0 rest).map (withChar d) := by
  unfold unescape? at h
  split at h
  case h_9 => cases h
  all_goals
    rw [← Option.some.inj h]
    rfl

theorem textBody_unicode (start : Nat) (rest : List Char) :
    textBody start 0 ('\\' :: 'u' :: rest) =
      match codePoint? rest with
      | none => failAt .badCodePoint ('u' :: rest)
      | some (n, width) => (textBody start width rest).map (withChar (Char.ofNat n)) := rfl

theorem textBody_codePoint {n : Nat} (spelled rest : List Char)
    (h : codePoint? (spelled ++ rest) = some (n, spelled.length)) (start : Nat) :
    textBody start 0 ('\\' :: 'u' :: (spelled ++ rest)) =
      (textBody start 0 rest).map (withChar (Char.ofNat n)) := by
  rw [textBody_unicode, h]
  simp only [textBody_skip]

theorem textBody_plain {c : Char} (hq : c ≠ '"') (hb : c ≠ '\\') (hp : ¬ c.toNat < 0x20) (start : Nat)
    (rest : List Char) :
    textBody start 0 (c :: rest) = (textBody start 0 rest).map (withChar c) := by
  rw [textBody, if_neg hp]
  · rfl
  · exact hq
  all_goals simp [hb]

theorem isHighHalf_iff {n : Nat} : isHighHalf n = true ↔ 0xD800 ≤ n ∧ n < 0xDC00 := by
  simp [isHighHalf]

theorem isLowHalf_iff {n : Nat} : isLowHalf n = true ↔ 0xDC00 ≤ n ∧ n < 0xE000 := by
  simp [isLowHalf]

/-- A code point that is no half is spelled by one unit. -/
theorem codePoint?_unit {n : Nat} (hn : n < 0x10000) (hh : isHighHalf n = false) (d : Char)
    (rest : List Char) : codePoint? (Text.paddedHex 4 n ++ d :: rest) = some (n, 4) := by
  rw [codePoint?, unit?_paddedHex hn]
  simp only [hh]

/-- A code point past the first plane is spelled by its two halves. -/
theorem codePoint?_halves {high low : Nat} (hh : isHighHalf high = true) (hl : isLowHalf low = true)
    (d : Char) (rest : List Char) :
    codePoint? (Text.paddedHex 4 high ++ '\\' :: 'u' :: (Text.paddedHex 4 low ++ d :: rest)) =
      some (0x10000 + (high - 0xD800) * 1024 + (low - 0xDC00), 10) := by
  have hhigh := (isHighHalf_iff.1 hh).2
  have hlow := (isLowHalf_iff.1 hl).2
  rw [codePoint?, unit?_paddedHex (Nat.lt_trans hhigh (by decide))]
  simp only [hh, unit?_paddedHex (n := low) (Nat.lt_trans hlow (by decide)), hl, if_true]

/-- A character of the first plane is read from its unit. -/
theorem textBody_unit (start : Nat) {c : Char} (h : c.toNat < 0x10000) (d : Char)
    (rest : List Char) :
    textBody start 0 ('\\' :: 'u' :: (Text.paddedHex 4 c.toNat ++ d :: rest)) =
      (textBody start 0 (d :: rest)).map (withChar c) := by
  have hvalid : c.toNat < 0xD800 ∨ 0xDFFF < c.toNat ∧ c.toNat < 0x110000 := c.valid
  have hhalf : isHighHalf c.toNat = false := by
    rw [← Bool.not_eq_true, isHighHalf_iff]
    omega
  have hspelled := codePoint?_unit h hhalf d rest
  have hread := textBody_codePoint (Text.paddedHex 4 c.toNat) (d :: rest)
    (by rw [Text.length_paddedHex]; exact hspelled) start
  rw [Char.ofNat_toNat] at hread
  exact hread

/-- A character past the first plane is read from its two halves. -/
theorem textBody_halves (start : Nat) {c : Char} (h : 0x10000 ≤ c.toNat) (d : Char)
    (rest : List Char) :
    textBody start 0 ('\\' :: 'u' :: (Text.paddedHex 4 (halves c.toNat).1 ++
        '\\' :: 'u' :: (Text.paddedHex 4 (halves c.toNat).2 ++ d :: rest))) =
      (textBody start 0 (d :: rest)).map (withChar c) := by
  have hvalid : c.toNat < 0xD800 ∨ 0xDFFF < c.toNat ∧ c.toNat < 0x110000 := c.valid
  have hhigh : isHighHalf (halves c.toNat).1 = true := by
    rw [isHighHalf_iff]
    simp only [halves]
    omega
  have hlow : isLowHalf (halves c.toNat).2 = true := by
    rw [isLowHalf_iff]
    simp only [halves]
    omega
  have hcode : 0x10000 + ((halves c.toNat).1 - 0xD800) * 1024 + ((halves c.toNat).2 - 0xDC00) =
      c.toNat := by
    simp only [halves]
    omega
  have hspelled := codePoint?_halves hhigh hlow d rest
  rw [hcode] at hspelled
  have hread := textBody_codePoint (Text.paddedHex 4 (halves c.toNat).1 ++
    '\\' :: 'u' :: Text.paddedHex 4 (halves c.toNat).2) (d :: rest)
    (by simpa [Text.length_paddedHex] using hspelled) start
  rw [Char.ofNat_toNat] at hread
  simpa using hread

/-- **What a character is written as is read as that character.** -/
theorem Escaped.textBody {c : Char} {s : List Char} (h : Escaped c s) (start : Nat) (d : Char)
    (rest : List Char) :
    Json.textBody start 0 (s ++ d :: rest) =
      (Json.textBody start 0 (d :: rest)).map (withChar c) := by
  cases h with
  | itself _ hq hb hcontrol => exact textBody_plain hq hb hcontrol _ _
  | sign _ h => exact textBody_escape h _ _
  | unit h => exact textBody_unit start h d rest
  | halves h => simpa using textBody_halves start h d rest

/-- **What a text is written as is read as that text.** -/
theorem textBody_escape_append (start : Nat) (cs rest : List Char) :
    textBody start 0 (cs.flatMap escapeChar ++ '"' :: rest) = .ok (cs, rest) := by
  induction cs with
  | nil => rfl
  | cons c cs ih =>
    obtain ⟨d, more, hmore⟩ : ∃ d more, cs.flatMap escapeChar ++ '"' :: rest = d :: more := by
      cases h : cs.flatMap escapeChar ++ '"' :: rest with
      | nil => simp at h
      | cons d more => exact ⟨d, more, rfl⟩
    rw [List.flatMap_cons, List.append_assoc, hmore, (escaped_escapeChar c).textBody, ← hmore, ih]
    rfl

/-! ## Readers -/

/-- A reader gives a value, and what follows it. -/
def Gives {α : Type} {s : List Char} (x : Step α s) (a : α) (rest : List Char) : Prop :=
  x.map (fun p => (p.1, p.2.val)) = .ok (a, rest)

theorem Gives.exists_eq {α : Type} {s rest : List Char} {x : Step α s} {a : α} (h : Gives x a rest) :
    ∃ hlt, x = .ok (a, ⟨rest, hlt⟩) := by
  obtain ⟨⟨b, ⟨r, hlt⟩⟩, rfl, hb⟩ := map_eq_ok h
  obtain ⟨rfl, rfl⟩ := Prod.mk.inj hb
  exact ⟨hlt, rfl⟩

theorem gives_text (s : String) (rest : List Char) :
    Gives (text (s.toList.flatMap escapeChar ++ '"' :: rest)) s rest := by
  have hbody := fun start => textBody_escape_append start s.toList rest
  unfold Gives text
  split
  · rename_i h
    rw [hbody] at h
    simp at h
  · rename_i body r h
    rw [hbody] at h
    obtain ⟨rfl, rfl⟩ := Prod.mk.inj (Except.ok.inj h)
    simp [Except.map]

/-! ## Values -/

/-- What begins a value, the value, and what follows it, as far as values are written. -/
inductive Reads : List Char → Data → List Char → Prop
  | null (rest : List Char) : Reads ((scalar .null).toList ++ rest) .null rest
  | bool (b : Bool) (rest : List Char) : Reads ((scalar (.bool b)).toList ++ rest) (.bool b) rest
  | text {s rest : List Char} {t : String} (h : Gives (text s) t rest) :
      Reads ('"' :: s) (.text t) rest
  | noItems {s rest : List Char} (h : skipBlanks s = ']' :: rest) : Reads ('[' :: s) (.list []) rest
  | items {s rest : List Char} {xs : List Data} (hs : ∀ t, skipBlanks s ≠ ']' :: t)
      (h : Gives (items (skipBlanks s)) xs rest) : Reads ('[' :: s) (.list xs) rest
  | noMembers {s rest : List Char} (h : skipBlanks s = '\x7d' :: rest) :
      Reads ('\x7b' :: s) (.map []) rest
  | members {s rest : List Char} {es : List (Data × Data)} (hs : ∀ t, skipBlanks s ≠ '\x7d' :: t)
      (h : Gives (members [] (skipBlanks s)) es rest) : Reads ('\x7b' :: s) (.map es) rest

theorem Reads.gives {s rest : List Char} {d : Data} (h : Reads s d rest) :
    Gives (value s) d rest := by
  cases h with
  | null =>
    rw [Gives, value]
    · rfl
    all_goals simp [scalar]
  | bool b =>
    cases b
    all_goals
      rw [Gives, value]
      · rfl
      all_goals simp [scalar]
  | text h =>
    obtain ⟨_, h⟩ := h.exists_eq
    rw [Gives, value, h]
    rfl
  | noItems h =>
    rw [Gives, value]
    split
    · rename_i r hr
      obtain rfl := (List.cons.inj (hr.symm.trans h)).2
      rfl
    · rename_i hr
      exact absurd h (hr rest)
  | items hs h =>
    obtain ⟨_, h⟩ := h.exists_eq
    rw [Gives, value]
    split
    · rename_i r hr
      exact absurd hr (hs r)
    · rw [h]
      rfl
  | noMembers h =>
    rw [Gives, value]
    split
    · rename_i r hr
      obtain rfl := (List.cons.inj (hr.symm.trans h)).2
      rfl
    · rename_i hr
      exact absurd h (hr rest)
  | members hs h =>
    obtain ⟨_, h⟩ := h.exists_eq
    rw [Gives, value]
    split
    · rename_i r hr
      exact absurd hr (hs r)
    · rw [h]
      rfl

/-! ## Items and members -/

theorem gives_items_last {s t rest : List Char} {d : Data} (h : Gives (value s) d t)
    (ht : skipBlanks t = ']' :: rest) : Gives (items s) [d] rest := by
  obtain ⟨_, h⟩ := h.exists_eq
  rw [Gives, items, h]
  simp only [bind, Except.bind]
  split
  · rename_i r hr
    obtain rfl := (List.cons.inj (hr.symm.trans ht)).2
    rfl
  · rename_i r hr
    simp [hr] at ht
  · rename_i hr _
    exact absurd ht (hr rest)

theorem gives_items_cons {s t u rest : List Char} {d : Data} {ds : List Data}
    (h : Gives (value s) d t) (ht : skipBlanks t = ',' :: u)
    (hu : Gives (items (skipBlanks u)) ds rest) : Gives (items s) (d :: ds) rest := by
  obtain ⟨_, h⟩ := h.exists_eq
  obtain ⟨_, hu⟩ := hu.exists_eq
  rw [Gives, items, h]
  simp only [bind, Except.bind]
  split
  · rename_i r hr
    simp [hr] at ht
  · rename_i r hr
    obtain rfl := (List.cons.inj (hr.symm.trans ht)).2
    rw [hu]
    rfl
  · rename_i hr
    exact absurd ht (hr u)

/-- The members that are read, the first being one of the given name and value. -/
theorem gives_members {done es : List (Data × Data)} {name : String} {d : Data}
    {s t u v rest : List Char} (hname : Gives (text s) name t) (ht : skipBlanks t = ':' :: u)
    (hvalue : Gives (value (skipBlanks u)) d v)
    (hv : skipBlanks v = '\x7d' :: rest ∧ es = Data.insert done (.text name) d ∨
      ∃ w, skipBlanks v = ',' :: w ∧
        Gives (members (Data.insert done (.text name) d) (skipBlanks w)) es rest) :
    Gives (members done ('"' :: s)) es rest := by
  obtain ⟨_, hname⟩ := hname.exists_eq
  obtain ⟨_, hvalue⟩ := hvalue.exists_eq
  rw [Gives, members, hname]
  simp only [bind, Except.bind]
  split
  · rename_i r hr
    obtain rfl := (List.cons.inj (hr.symm.trans ht)).2
    rw [hvalue]
    dsimp only
    rcases hv with ⟨hv, rfl⟩ | ⟨w, hv, hw⟩
    · split
      · rename_i r' hr'
        obtain rfl := (List.cons.inj (hr'.symm.trans hv)).2
        rfl
      · rename_i r' hr'
        simp [hr'] at hv
      · rename_i hr' _
        exact absurd hv (hr' rest)
    · obtain ⟨_, hw⟩ := hw.exists_eq
      split
      · rename_i r' hr'
        simp [hr'] at hv
      · rename_i r' hr'
        obtain rfl := (List.cons.inj (hr'.symm.trans hv)).2
        rw [hw]
        rfl
      · rename_i hr'
        exact absurd hv (hr' w)
  · rename_i hr
    exact absurd ht (hr u)

/-! ## Lists and mappings -/

/-- A value is read from what it is written as at any depth, whatever follows. -/
def ReadsBack (d : Data) : Prop :=
  ∀ depth rest, Gives (value ((writeAt depth d).toList ++ rest)) d rest

theorem gives_items {xs : List Data} (hxs : ∀ x ∈ xs, Plain x ∧ ReadsBack x) {x : Data}
    (hx : ReadsBack x) (depth : Nat) (after rest : List Char) (ha : skipBlanks after = ']' :: rest) :
    Gives (items ((writeAt depth x).toList ++ (linesBehind depth (writeItems depth xs) ++ after)))
      (x :: xs) rest := by
  induction xs generalizing x with
  | nil => exact gives_items_last (hx depth _) ha
  | cons y ys ih =>
    obtain ⟨hplain, hy⟩ := hxs y List.mem_cons_self
    refine gives_items_cons (hx depth _) (u := (lineStart depth).toList ++ ((writeAt depth y).toList ++
      (linesBehind depth (writeItems depth ys) ++ after))) ?_ ?_
    · rw [← skipBlanks_cons (c := ',') rfl]
      simp [linesBehind, writeItems]
    · rw [skipBlanks_lineStart, (starts_writeAt hplain depth).skipBlanks]
      exact ih (fun z hz => hxs z (List.mem_cons_of_mem _ hz)) hy

theorem gives_member {done es : List (Data × Data)} {m : String × Data} {t rest : List Char}
    (hplain : Plain m.2) (hm : ReadsBack m.2) (depth : Nat)
    (ht : skipBlanks t = '\x7d' :: rest ∧ es = Data.insert done (.text m.1) m.2 ∨
      ∃ u, skipBlanks t = ',' :: u ∧
        Gives (members (Data.insert done (.text m.1) m.2) (skipBlanks u)) es rest) :
    Gives (members done ((memberText depth m).toList ++ t)) es rest := by
  have hblank : ∀ s, skipBlanks (' ' :: s) = skipBlanks s := fun _ => rfl
  have hvalue : Gives (value (skipBlanks (' ' :: ((writeAt depth m.2).toList ++ t)))) m.2 t := by
    rw [hblank, (starts_writeAt hplain depth).skipBlanks t]
    exact hm depth t
  rw [toList_memberText, List.cons_append, List.append_assoc]
  exact gives_members (gives_text m.1 _) (skipBlanks_cons rfl _) hvalue ht

/-- The members behind those that are read already. -/
theorem gives_members_behind {ms : List (String × Data)} (hms : ∀ m ∈ ms, Plain m.2 ∧ ReadsBack m.2)
    {m : String × Data} (hm : Plain m.2 ∧ ReadsBack m.2) (done : List (String × Data))
    (hnames : ((done ++ m :: ms).map (·.1)).Nodup) (depth : Nat) {after rest : List Char}
    (ha : skipBlanks after = '\x7d' :: rest) :
    Gives (members (Data.named done)
        ((memberText depth m).toList ++ (linesBehind depth (ms.map (memberText depth)) ++ after)))
      (Data.named (done ++ m :: ms)) rest := by
  induction ms generalizing m done with
  | nil =>
    have hnew := not_mem_of_nodup_map hnames
    exact gives_member hm.1 hm.2 depth (.inl ⟨ha, (Data.insert_named hnew m.2).symm⟩)
  | cons n ms ih =>
    have hnew := not_mem_of_nodup_map hnames
    obtain ⟨hn, hms⟩ := List.forall_mem_cons.1 hms
    refine gives_member hm.1 hm.2 depth (.inr ⟨(lineStart depth).toList ++
      ((memberText depth n).toList ++ (linesBehind depth (ms.map (memberText depth)) ++ after)), ?_, ?_⟩)
    · rw [← skipBlanks_cons (c := ',') rfl]
      simp [linesBehind]
    · rw [Data.insert_named hnew, skipBlanks_lineStart, (starts_memberText depth n).skipBlanks]
      rw [List.append_cons] at hnames
      have hrest := ih hms hn (done ++ [m]) hnames
      rw [← List.append_cons] at hrest
      exact hrest

theorem gives_value_listLines {depth : Nat} {l : String} {ls : List String} {rest : List Char}
    {xs : List Data} (hl : Starts l.toList)
    (h : Gives (items (l.toList ++ (linesBehind (depth + 1) ls ++
      ((lineStart depth).toList ++ ']' :: rest)))) xs rest) :
    Gives (value ((bracketed "[" "]" depth (l :: ls)).toList ++ rest)) (.list xs) rest := by
  have hskip : ∀ s, skipBlanks ((lineStart (depth + 1)).toList ++ (l.toList ++ s)) = l.toList ++ s :=
    fun s => by rw [skipBlanks_lineStart, hl.skipBlanks]
  have hshape : (bracketed "[" "]" depth (l :: ls)).toList ++ rest = '[' ::
      ((lineStart (depth + 1)).toList ++ (l.toList ++ (linesBehind (depth + 1) ls ++
        ((lineStart depth).toList ++ ']' :: rest)))) := by
    simp [toList_bracketed]
  rw [← hskip] at h
  have hvalue := (Reads.items (fun t => by rw [hskip]; exact hl.ne_cons.1) h).gives
  rw [hshape]
  exact hvalue

theorem gives_value_mapLines {depth : Nat} {l : String} {ls : List String} {rest : List Char}
    {es : List (Data × Data)} (hl : Starts l.toList)
    (h : Gives (members [] (l.toList ++ (linesBehind (depth + 1) ls ++
      ((lineStart depth).toList ++ '\x7d' :: rest)))) es rest) :
    Gives (value ((bracketed "\x7b" "\x7d" depth (l :: ls)).toList ++ rest)) (.map es) rest := by
  have hskip : ∀ s, skipBlanks ((lineStart (depth + 1)).toList ++ (l.toList ++ s)) = l.toList ++ s :=
    fun s => by rw [skipBlanks_lineStart, hl.skipBlanks]
  have hshape : (bracketed "\x7b" "\x7d" depth (l :: ls)).toList ++ rest = '\x7b' ::
      ((lineStart (depth + 1)).toList ++ (l.toList ++ (linesBehind (depth + 1) ls ++
        ((lineStart depth).toList ++ '\x7d' :: rest)))) := by
    simp [toList_bracketed]
  rw [← hskip] at h
  have hvalue := (Reads.members (fun t => by rw [hskip]; exact hl.ne_cons.2) h).gives
  rw [hshape]
  exact hvalue

/-- **A value is read from what it is written as.** -/
theorem readsBack_of_plain {d : Data} (h : Plain d) : ReadsBack d := by
  induction h with
  | null =>
    intro depth rest
    rw [writeAt_null]
    exact (Reads.null rest).gives
  | bool b =>
    intro depth rest
    rw [writeAt_bool]
    exact (Reads.bool b rest).gives
  | text s =>
    intro depth rest
    have hquote : (writeAt depth (.text s)).toList ++ rest =
        '"' :: (s.toList.flatMap escapeChar ++ '"' :: rest) := by
      simp [writeAt_text, quote]
    rw [hquote]
    exact (Reads.text (gives_text s rest)).gives
  | list xs hplain ih =>
    intro depth rest
    have hend : skipBlanks ((lineStart depth).toList ++ (']' :: rest)) = ']' :: rest := by
      rw [skipBlanks_lineStart, skipBlanks_cons rfl]
    cases xs with
    | nil => simpa [writeAt_list, writeItems, bracketed] using
        (Reads.noItems (skipBlanks_cons rfl rest)).gives
    | cons x xs =>
      rw [writeAt_list, writeItems]
      refine gives_value_listLines (starts_writeAt (hplain x List.mem_cons_self) _) ?_
      exact gives_items (fun y hy => ⟨hplain y (.tail _ hy), ih y (.tail _ hy)⟩)
        (ih x List.mem_cons_self) _ _ _ hend
  | map ms hnames hplain ih =>
    intro depth rest
    have hend : skipBlanks ((lineStart depth).toList ++ ('\x7d' :: rest)) = '\x7d' :: rest := by
      rw [skipBlanks_lineStart, skipBlanks_cons rfl]
    rw [writeAt_map, writeMembers_named]
    cases ms with
    | nil => simpa [Data.named, bracketed] using
        (Reads.noMembers (skipBlanks_cons rfl rest)).gives
    | cons m ms =>
      refine gives_value_mapLines (starts_memberText _ m) ?_
      exact gives_members_behind (fun y hy => ⟨hplain y (.tail _ hy), ih y (.tail _ hy)⟩)
        ⟨hplain m List.mem_cons_self, ih m List.mem_cons_self⟩ [] hnames _ hend

/-! ## Documents -/

/-- **A document is read as the value that it was written for.** -/
theorem read_write {d : Data} (h : Plain d) : read (write d).toList = .ok d := by
  have hstart := starts_writeAt h 0
  have hvalue := readsBack_of_plain h 0 []
  have hskip := hstart.skipBlanks []
  rw [List.append_nil] at hvalue hskip
  rw [← hskip] at hvalue
  have hmark : ∀ t, (write d).toList ≠ '\ufeff' :: t := fun t ht => by
    have hprinted := printed_writeAt h 0 '\ufeff' (by rw [← write, ht]; exact List.mem_cons_self)
    exact absurd hprinted (by decide)
  have hdocument : document (write d).toList = .ok d := by
    unfold document
    split
    · rename_i t ht
      exact absurd ht (hmark t)
    · obtain ⟨_, hvalue⟩ := hvalue.exists_eq
      rw [write, hvalue]
      rfl
  rw [read, hdocument]

end Cnd.Json
