import Cnd.TextFile
import Mathlib.Data.List.Basic

/-!
A text is read back from its own bytes (`decode_toUTF8`), whatever its characters are; and what a file
of such bytes holds is the text with one kind of line break (`ofBytes_toUTF8`).

A character is one to four bytes, the first of which announces how many follow and between which
bounds the second lies. Each byte behind the first holds six bits of the code point.
-/

namespace Cnd.Text

namespace Utf8

/-! ## The bytes of a text -/

theorem loop_toList (bytes : ByteArray) (i : Nat) (acc : List UInt8) :
    ByteArray.toList.loop bytes i acc = acc.reverse ++ bytes.data.toList.drop i := by
  fun_induction ByteArray.toList.loop bytes i acc with
  | case1 i acc hi ih =>
    have hget : bytes.data.toList.drop i = bytes.get! i :: bytes.data.toList.drop (i + 1) := by
      have hlen : i < bytes.data.toList.length := by simpa using hi
      rw [List.drop_eq_getElem_cons hlen]
      simp [ByteArray.get!, hi]
    rw [ih, hget]
    simp
  | case2 i acc hi =>
    have hlen : bytes.data.toList.length ≤ i := by simpa using hi
    rw [List.drop_eq_nil_of_le hlen, List.append_nil]

theorem toList_eq (bytes : ByteArray) : bytes.toList = bytes.data.toList := by
  rw [ByteArray.toList, loop_toList]
  rfl

theorem toList_toUTF8 (s : String) : s.toUTF8.toList = s.toList.flatMap String.utf8EncodeChar := by
  rw [toList_eq, String.toUTF8_eq_toByteArray, ← String.utf8Encode_toList, List.utf8Encode,
    List.toList_data_toByteArray]

/-! ## One character -/

theorem toNat_ofNat {m : Nat} (h : m < 256) : (UInt8.ofNat m).toNat = m :=
  UInt8.toNat_ofNat_of_lt' h

/-- The shape that a first byte announces, by its number. -/
theorem shape_ofNat {m : Nat} (h : m < 256) :
    shape (UInt8.ofNat m) =
      if m < 0x80 then some (0, 0x80, 0xBF)
      else if m < 0xC2 then none
      else if m < 0xE0 then some (1, 0x80, 0xBF)
      else if m = 0xE0 then some (2, 0xA0, 0xBF)
      else if m = 0xED then some (2, 0x80, 0x9F)
      else if m < 0xF0 then some (2, 0x80, 0xBF)
      else if m = 0xF0 then some (3, 0x90, 0xBF)
      else if m < 0xF4 then some (3, 0x80, 0xBF)
      else if m = 0xF4 then some (3, 0x80, 0x8F)
      else none := by
  simp only [shape, UInt8.lt_iff_toNat_lt, beq_iff_eq, ← UInt8.toNat_inj, toNat_ofNat h]
  rfl

theorem leadBits_ofNat {m n : Nat} (h : m < 256) :
    leadBits (UInt8.ofNat m) (n + 1) = m % Nat.pow 2 (6 - (n + 1)) := by
  rw [leadBits, if_neg (by simp), toNat_ofNat h]

/-- A byte that may come second, or any later one. -/
theorem tails_ofNat {n code taken m : Nat} {low high : UInt8} {rest : List UInt8}
    (h : m < 256) (hl : low.toNat ≤ m) (hh : m ≤ high.toNat) :
    tails (n + 1) low high code taken (UInt8.ofNat m :: rest) =
      tails n 0x80 0xBF (code * 64 + m % 64) (taken + 1) rest := by
  have hfits : (low ≤ UInt8.ofNat m && UInt8.ofNat m ≤ high) = true := by
    simp only [UInt8.le_iff_toNat_le, toNat_ofNat h, Bool.and_eq_true, decide_eq_true_eq]
    exact ⟨hl, hh⟩
  rw [tails, if_pos hfits, toNat_ofNat h]

/-- A later byte holds six bits. -/
theorem tails_sixBits (n code taken x : Nat) (rest : List UInt8) :
    tails (n + 1) 0x80 0xBF code taken (UInt8.ofNat (x % 64 + 128) :: rest) =
      tails n 0x80 0xBF (code * 64 + x % 64) (taken + 1) rest := by
  have hlow : (0x80 : UInt8).toNat = 128 := rfl
  have hhigh : (0xBF : UInt8).toNat = 191 := rfl
  rw [tails_ofNat (by omega) (by omega) (by omega)]
  congr 2
  omega

theorem decodeFrom_nil (offset : Nat) (acc : List Char) :
    decodeFrom offset 0 [] acc = .ok acc.reverse := rfl

theorem decodeFrom_skip_cons (offset skip : Nat) (b : UInt8) (rest : List UInt8) (acc : List Char) :
    decodeFrom offset (skip + 1) (b :: rest) acc = decodeFrom (offset + 1) skip rest acc := rfl

theorem decodeFrom_cons (offset : Nat) (b : UInt8) (rest : List UInt8) (acc : List Char) :
    decodeFrom offset 0 (b :: rest) acc =
      match shape b with
      | none => .error ⟨offset, 1, b, .invalidStart⟩
      | some (n, low, high) =>
        let (taken, misfit, code) := tails n low high (leadBits b n) 0 rest
        if misfit then .error ⟨offset, taken + 1, b, .invalidContinuation⟩
        else if taken < n then .error ⟨offset, taken + 1, b, .unexpectedEnd⟩
        else decodeFrom (offset + 1) n rest (Char.ofNat code :: acc) := rfl

/-- The bytes of a sequence that are passed over. -/
theorem decodeFrom_skip (bytes rest : List UInt8) (offset : Nat) (acc : List Char) :
    decodeFrom offset bytes.length (bytes ++ rest) acc =
      decodeFrom (offset + bytes.length) 0 rest acc := by
  induction bytes generalizing offset with
  | nil => rfl
  | cons b bytes ih =>
    rw [List.length_cons, List.cons_append, decodeFrom_skip_cons, ih]
    congr 1
    omega

/-- A sequence whose bytes all fit is a character. -/
theorem decodeFrom_fits {b low high : UInt8} {rest : List UInt8} {offset code : Nat}
    {acc : List Char} (bytes : List UInt8) (hs : shape b = some (bytes.length, low, high))
    (ht : tails bytes.length low high (leadBits b bytes.length) 0 (bytes ++ rest) =
      (bytes.length, false, code)) :
    decodeFrom offset 0 (b :: bytes ++ rest) acc =
      decodeFrom (offset + 1 + bytes.length) 0 rest (Char.ofNat code :: acc) := by
  rw [List.cons_append, decodeFrom_cons, hs]
  simp only [ht, Bool.false_eq_true, if_false, Nat.lt_irrefl, decodeFrom_skip]

/-- Of a character of three bytes the second lies where the first has announced it. -/
theorem shape_three {v : Nat} (hv : v < 0xD800 ∨ 0xDFFF < v) (hl : 2047 < v) (hh : v ≤ 65535) :
    ∃ low high : UInt8, shape (UInt8.ofNat (v / 4096 % 16 + 224)) = some (2, low, high) ∧
      low.toNat ≤ v / 64 % 64 + 128 ∧ v / 64 % 64 + 128 ≤ high.toNat := by
  rw [shape_ofNat (by omega), if_neg (by omega), if_neg (by omega), if_neg (by omega)]
  split
  · exact ⟨_, _, rfl, by simp; omega, by simp; omega⟩
  split
  · exact ⟨_, _, rfl, by simp, by simp; omega⟩
  · rw [if_pos (by omega)]
    exact ⟨_, _, rfl, by simp, by simp; omega⟩

/-- So it does of a character of four bytes. -/
theorem shape_four {v : Nat} (hl : 65535 < v) (hh : v < 0x110000) :
    ∃ low high : UInt8, shape (UInt8.ofNat (v / 262144 % 8 + 240)) = some (3, low, high) ∧
      low.toNat ≤ v / 4096 % 64 + 128 ∧ v / 4096 % 64 + 128 ≤ high.toNat := by
  rw [shape_ofNat (by omega), if_neg (by omega), if_neg (by omega), if_neg (by omega),
    if_neg (by omega), if_neg (by omega), if_neg (by omega)]
  split
  · exact ⟨_, _, rfl, by simp; omega, by simp; omega⟩
  split
  · exact ⟨_, _, rfl, by simp, by simp; omega⟩
  · rw [if_pos (by omega)]
    exact ⟨_, _, rfl, by simp, by simp; omega⟩

/-- What a character is written with is decoded as that character. -/
theorem decodeFrom_encodeChar (c : Char) (rest : List UInt8) (offset : Nat) (acc : List Char) :
    ∃ offset', decodeFrom offset 0 (String.utf8EncodeChar c ++ rest) acc =
      decodeFrom offset' 0 rest (c :: acc) := by
  have hv : c.val.toNat < 0xD800 ∨ 0xDFFF < c.val.toNat ∧ c.val.toNat < 0x110000 := c.valid
  have hc : Char.ofNat c.val.toNat = c := Char.ofNat_toNat c
  generalize hn : c.val.toNat = v at hv hc
  simp only [String.utf8EncodeChar, hn]
  -- one, two, three and four bytes
  split
  · have hs : shape (UInt8.ofNat v) = some (0, 0x80, 0xBF) := by
      rw [shape_ofNat (by omega), if_pos (by omega)]
    refine ⟨_, (decodeFrom_fits [] hs ?_).trans (by rw [hc])⟩
    simp only [List.length_nil, tails, leadBits, beq_self_eq_true, if_true]
    rw [toNat_ofNat (by omega)]
  split
  · have hs : shape (UInt8.ofNat (v / 64 % 32 + 192)) = some (1, 0x80, 0xBF) := by
      rw [shape_ofNat (by omega), if_neg (by omega), if_neg (by omega), if_pos (by omega)]
    refine ⟨_, (decodeFrom_fits [_] hs ?_).trans (by rw [hc])⟩
    rw [List.singleton_append, List.length_singleton, tails_sixBits, leadBits_ofNat (by omega), tails]
    simp only [Nat.reduceAdd, Nat.reduceSub, Nat.pow_eq, Nat.reducePow, Prod.mk.injEq, true_and]
    omega
  split
  · obtain ⟨low, high, hs, hl, hh⟩ := shape_three (v := v) (by omega) (by omega) (by omega)
    refine ⟨_, (decodeFrom_fits [_, _] hs ?_).trans (by rw [hc])⟩
    rw [List.cons_append, List.singleton_append, List.length_cons, List.length_singleton,
      tails_ofNat (by omega) hl hh, tails_sixBits, leadBits_ofNat (by omega), tails]
    simp only [Nat.reduceAdd, Nat.reduceSub, Nat.pow_eq, Nat.reducePow, Prod.mk.injEq, true_and]
    omega
  · obtain ⟨low, high, hs, hl, hh⟩ := shape_four (v := v) (by omega) (by omega)
    refine ⟨_, (decodeFrom_fits [_, _, _] hs ?_).trans (by rw [hc])⟩
    rw [List.cons_append, List.cons_append, List.singleton_append, List.length_cons,
      List.length_cons, List.length_singleton, tails_ofNat (by omega) hl hh, tails_sixBits,
      tails_sixBits, leadBits_ofNat (by omega), tails]
    simp only [Nat.reduceAdd, Nat.reduceSub, Nat.pow_eq, Nat.reducePow, Prod.mk.injEq, true_and]
    omega

/-! ## Texts -/

theorem decodeFrom_encode (cs acc : List Char) (offset : Nat) :
    decodeFrom offset 0 (cs.flatMap String.utf8EncodeChar) acc = .ok (acc.reverse ++ cs) := by
  induction cs generalizing acc offset with
  | nil => rw [List.flatMap_nil, decodeFrom_nil, List.append_nil]
  | cons c cs ih =>
    obtain ⟨offset', hchar⟩ := decodeFrom_encodeChar c (cs.flatMap String.utf8EncodeChar) offset acc
    rw [List.flatMap_cons, hchar, ih, List.reverse_cons, List.append_assoc, List.singleton_append]

/-- **A text is read back from its bytes.** -/
theorem decode_toUTF8 (s : String) : decode s.toUTF8 = .ok s.toList := by
  rw [decode, toList_toUTF8, decodeFrom_encode]
  rfl

end Utf8

/-! ## Line breaks -/

theorem ofBytes_toUTF8 (s : String) : ofBytes s.toUTF8 = .ok (unifyLineBreaks s.toList) := by
  rw [ofBytes, Utf8.decode_toUTF8]
  rfl

theorem unifyLineBreaks_eq_self {s : List Char} (h : '\r' ∉ s) : unifyLineBreaks s = s := by
  fun_induction unifyLineBreaks s with
  | case1 => rfl
  | case2 | case3 => simp at h
  | case4 c rest _ _ ih => rw [ih fun hr => h (List.mem_cons_of_mem c hr)]

end Cnd.Text
