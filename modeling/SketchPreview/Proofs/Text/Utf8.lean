import SketchPreview.Text.Utf8

/-!
UTF-8 reads back what it writes, and reads nothing else.  The arithmetic is in two statements about
one step of the reader: behind the bytes of a character `next` finds that character, whatever
follows (`next_append`), and it finds a character only behind its bytes (`eq_of_next_char`).  Strict
reading and reading with replacement then give a text back by induction on the text.
-/

namespace SketchPreview
namespace Text
namespace Utf8

/-! ## One step of the reader, by the width of the character -/

theorem follows_of_le {a b : UInt8} (hlow : 0x80 ≤ b.toNat) (hhigh : b.toNat ≤ 0xBF)
    (hE0 : a.toNat = 0xE0 → 0xA0 ≤ b.toNat) (hED : a.toNat = 0xED → b.toNat ≤ 0x9F)
    (hF0 : a.toNat = 0xF0 → 0x90 ≤ b.toNat) (hF4 : a.toNat = 0xF4 → b.toNat ≤ 0x8F) :
    follows a b = true := by
  simp only [follows, beq_iff_eq, ← UInt8.toNat_inj, UInt8.le_iff_toNat_le, UInt8.reduceToNat]
  repeat' split
  all_goals
    rw [Bool.and_eq_true, decide_eq_true_eq, decide_eq_true_eq]
    omega

section Width

variable {a b c d : UInt8} (r : List UInt8)

theorem next_one (ha : a.toNat < 0x80) : next (a :: r) = .char (Char.ofNat a.toNat) r := by
  have hascii : a < 0x80 := UInt8.lt_iff_toNat_lt.mpr ha
  simp [next, hascii]

/-- A byte that begins a character of several bytes. -/
theorem not_first (ha : 0xC2 ≤ a.toNat) (ha' : a.toNat ≤ 0xF4) :
    ¬ a < 0x80 ∧ (decide (a < 0xC2) || decide (0xF4 < a)) = false := by
  simp only [Bool.or_eq_false_iff, decide_eq_false_iff_not, UInt8.lt_iff_toNat_lt,
    UInt8.reduceToNat]
  omega

theorem next_two (ha : 0xC2 ≤ a.toNat) (ha' : a.toNat < 0xE0) (hb : follows a b = true) :
    next (a :: b :: r) = .char (assemble (a.toNat - 0xC0) [b]) r := by
  obtain ⟨h, h'⟩ := not_first ha (by omega)
  have hwidth : a < 0xE0 := UInt8.lt_iff_toNat_lt.mpr ha'
  simp [next, h, h', hb, hwidth]

theorem next_three (ha : 0xE0 ≤ a.toNat) (ha' : a.toNat < 0xF0) (hb : follows a b = true)
    (hc : isTail c = true) :
    next (a :: b :: c :: r) = .char (assemble (a.toNat - 0xE0) [b, c]) r := by
  obtain ⟨h, h'⟩ := not_first (by omega) (by omega : a.toNat ≤ 0xF4)
  have hwidth : ¬ a < 0xE0 := by
    rw [UInt8.lt_iff_toNat_lt, Nat.not_lt]
    exact ha
  have hwidth' : a < 0xF0 := UInt8.lt_iff_toNat_lt.mpr ha'
  simp [next, h, h', hb, hc, hwidth, hwidth']

theorem next_four (ha : 0xF0 ≤ a.toNat) (ha' : a.toNat ≤ 0xF4) (hb : follows a b = true)
    (hc : isTail c = true) (hd : isTail d = true) :
    next (a :: b :: c :: d :: r) = .char (assemble (a.toNat - 0xF0) [b, c, d]) r := by
  obtain ⟨h, h'⟩ := not_first (by omega) ha'
  have hwidth : ¬ a < 0xE0 := by
    rw [UInt8.lt_iff_toNat_lt, Nat.not_lt]
    exact Nat.le_trans (by decide) ha
  have hwidth' : ¬ a < 0xF0 := by
    rw [UInt8.lt_iff_toNat_lt, Nat.not_lt]
    exact ha
  simp [next, h, h', hb, hc, hd, hwidth, hwidth']

end Width

/-! ## The bytes of a character -/

theorem toNat_ofNat_lt {n : Nat} (h : n < 256) : (UInt8.ofNat n).toNat = n :=
  UInt8.toNat_ofNat_of_lt' h

/-- The value and the class of a byte behind the first. -/
theorem tail_byte (n : Nat) : (UInt8.ofNat (n % 64 + 128)).toNat = n % 64 + 128 ∧
    isTail (UInt8.ofNat (n % 64 + 128)) = true := by
  have hvalue : (UInt8.ofNat (n % 64 + 128)).toNat = n % 64 + 128 := toNat_ofNat_lt (by omega)
  refine ⟨hvalue, ?_⟩
  rw [isTail, Bool.and_eq_true, decide_eq_true_eq, decide_eq_true_eq, UInt8.le_iff_toNat_le,
    UInt8.le_iff_toNat_le, hvalue]
  show 128 ≤ n % 64 + 128 ∧ n % 64 + 128 ≤ 191
  omega

theorem next_append (c : Char) (rest : List UInt8) :
    next (String.utf8EncodeChar c ++ rest) = .char c rest := by
  have hv : c.toNat < 0xD800 ∨ 0xDFFF < c.toNat ∧ c.toNat < 0x110000 := c.valid
  have hchar : ∀ n, n = c.toNat → Char.ofNat n = c := by
    intro n hn
    rw [hn, c.ofNat_toNat]
  rw [String.utf8EncodeChar, show c.val.toNat = c.toNat from rfl]
  generalize c.toNat = v at hv hchar
  obtain ⟨hlast, hlasttail⟩ := tail_byte v
  obtain ⟨hthird, hthirdtail⟩ := tail_byte (v / 64)
  obtain ⟨hsecond, -⟩ := tail_byte (v / 4096)
  split
  · have ha : (UInt8.ofNat v).toNat = v := toNat_ofNat_lt (by omega)
    rw [List.cons_append, List.nil_append, next_one rest (by omega), hchar _ ha]
  split
  · have ha : (UInt8.ofNat (v / 64 % 32 + 192)).toNat = v / 64 + 192 := by
      rw [toNat_ofNat_lt] <;> omega
    have hfollows : follows (UInt8.ofNat (v / 64 % 32 + 192)) (UInt8.ofNat (v % 64 + 128)) =
        true := by
      apply follows_of_le <;> omega
    rw [List.cons_append, List.cons_append, List.nil_append,
      next_two rest (by omega) (by omega) hfollows, assemble, List.foldl_cons, List.foldl_nil,
      ha, hlast, hchar]
    omega
  split
  · have ha : (UInt8.ofNat (v / 4096 % 16 + 224)).toNat = v / 4096 + 224 := by
      rw [toNat_ofNat_lt] <;> omega
    have hfollows : follows (UInt8.ofNat (v / 4096 % 16 + 224))
        (UInt8.ofNat (v / 64 % 64 + 128)) = true := by
      apply follows_of_le <;> omega
    rw [List.cons_append, List.cons_append, List.cons_append, List.nil_append,
      next_three rest (by omega) (by omega) hfollows hlasttail, assemble, List.foldl_cons,
      List.foldl_cons, List.foldl_nil, ha, hthird, hlast, hchar]
    omega
  · have ha : (UInt8.ofNat (v / 262144 % 8 + 240)).toNat = v / 262144 + 240 := by
      rw [toNat_ofNat_lt] <;> omega
    have hfollows : follows (UInt8.ofNat (v / 262144 % 8 + 240))
        (UInt8.ofNat (v / 4096 % 64 + 128)) = true := by
      apply follows_of_le <;> omega
    rw [List.cons_append, List.cons_append, List.cons_append, List.cons_append, List.nil_append,
      next_four rest (by omega) (by omega) hfollows hthirdtail hlasttail, assemble,
      List.foldl_cons, List.foldl_cons, List.foldl_cons, List.foldl_nil, ha, hsecond, hthird,
      hlast, hchar]
    omega

/-- The first 128 characters are one byte each, and their bytes stand in no other character. -/
theorem mem_utf8EncodeChar_iff {c d : Char} (hd : d.toNat < 128) :
    UInt8.ofNat d.toNat ∈ String.utf8EncodeChar c ↔ c = d := by
  have hdv : (UInt8.ofNat d.toNat).toNat = d.toNat := toNat_ofNat_lt (by omega)
  have hlarge : ∀ n, 128 ≤ n → n < 256 → UInt8.ofNat d.toNat ≠ UInt8.ofNat n := by
    intro n hlow hhigh heq
    have hn : (UInt8.ofNat n).toNat = n := toNat_ofNat_lt hhigh
    rw [← heq, hdv] at hn
    omega
  have htail : ∀ n, UInt8.ofNat d.toNat ≠ UInt8.ofNat (n % 64 + 128) :=
    fun n => hlarge _ (by omega) (by omega)
  rw [String.utf8EncodeChar, show c.val.toNat = c.toNat from rfl]
  constructor
  · intro h
    split at h
    · have hc : (UInt8.ofNat c.toNat).toNat = c.toNat := toNat_ofNat_lt (by omega)
      rw [← List.mem_singleton.mp h, hdv] at hc
      rw [← c.ofNat_toNat, ← d.ofNat_toNat, hc]
    · exfalso
      split at h
      · simp only [List.mem_cons, List.not_mem_nil, or_false, htail] at h
        exact hlarge _ (by omega) (by omega) h
      split at h
      · simp only [List.mem_cons, List.not_mem_nil, or_false, htail] at h
        exact hlarge _ (by omega) (by omega) h
      · simp only [List.mem_cons, List.not_mem_nil, or_false, htail] at h
        exact hlarge _ (by omega) (by omega) h
  · intro h
    subst h
    rw [if_pos (by omega)]
    exact List.mem_singleton_self _

theorem utf8EncodeChar_of_lt {c : Char} (h : c.toNat < 128) :
    String.utf8EncodeChar c = [UInt8.ofNat c.toNat] := by
  rw [String.utf8EncodeChar, show c.val.toNat = c.toNat from rfl, if_pos (by omega)]

/-! ## Reading back -/

@[simp] theorem encode_nil : encode [] = [] := rfl

@[simp] theorem encode_cons (c : Char) (t : Text) :
    encode (c :: t) = String.utf8EncodeChar c ++ encode t := rfl

@[simp] theorem encode_append (a b : Text) : encode (a ++ b) = encode a ++ encode b :=
  List.flatMap_append

theorem decodeFrom_nil (index : Nat) : decodeFrom index [] = .ok [] := by
  rw [decodeFrom]
  rfl

theorem decodeFrom_append (index : Nat) (c : Char) (rest : List UInt8) :
    decodeFrom index (String.utf8EncodeChar c ++ rest) =
      (decodeFrom (index + c.utf8Size) rest).map (c :: ·) := by
  have hnext := next_append c rest
  rw [decodeFrom]
  split
  · rename_i h
    simp [hnext] at h
  · rename_i d r h
    rw [hnext] at h
    obtain ⟨rfl, rfl⟩ := Front.char.inj h
    rfl
  · rename_i h
    simp [hnext] at h
  · rename_i h
    simp [hnext] at h

theorem decodeFrom_encode (index : Nat) (t : Text) : decodeFrom index (encode t) = .ok t := by
  induction t generalizing index with
  | nil => exact decodeFrom_nil index
  | cons c t ih =>
    rw [encode_cons, decodeFrom_append, ih]
    rfl

theorem decode_encode (t : Text) : decode (encode t) = .ok t := decodeFrom_encode 0 t

theorem decodeLossy_nil : decodeLossy [] = [] := by
  rw [decodeLossy]
  rfl

theorem decodeLossy_append (c : Char) (rest : List UInt8) :
    decodeLossy (String.utf8EncodeChar c ++ rest) = c :: decodeLossy rest := by
  have hnext := next_append c rest
  rw [decodeLossy]
  split
  · rename_i h
    simp [hnext] at h
  · rename_i d r h
    rw [hnext] at h
    obtain ⟨rfl, rfl⟩ := Front.char.inj h
    rfl
  · rename_i h
    simp [hnext] at h
  · rename_i h
    simp [hnext] at h

theorem decodeLossy_encode (t : Text) : decodeLossy (encode t) = t := by
  induction t with
  | nil => exact decodeLossy_nil
  | cons c t ih => rw [encode_cons, decodeLossy_append, ih]

/-! ## Nothing else is read

A character comes only from its own bytes, so bytes that are read as a text are those of the text. -/

theorem bounds_of_follows {a b : UInt8} (h : follows a b = true) :
    0x80 ≤ b.toNat ∧ b.toNat ≤ 0xBF ∧ (a.toNat = 0xE0 → 0xA0 ≤ b.toNat) ∧
      (a.toNat = 0xED → b.toNat ≤ 0x9F) ∧ (a.toNat = 0xF0 → 0x90 ≤ b.toNat) ∧
      (a.toNat = 0xF4 → b.toNat ≤ 0x8F) := by
  simp only [follows, beq_iff_eq, ← UInt8.toNat_inj, UInt8.le_iff_toNat_le, UInt8.reduceToNat] at h
  repeat' split at h
  all_goals
    rw [Bool.and_eq_true, decide_eq_true_eq, decide_eq_true_eq] at h
    omega

theorem bounds_of_isTail {b : UInt8} (h : isTail b = true) : 0x80 ≤ b.toNat ∧ b.toNat ≤ 0xBF := by
  simpa only [isTail, Bool.and_eq_true, decide_eq_true_eq, UInt8.le_iff_toNat_le,
    UInt8.reduceToNat] using h

theorem toNat_ofNat {n : Nat} (h : n < 0xD800 ∨ 0xDFFF < n ∧ n < 0x110000) :
    (Char.ofNat n).toNat = n := by
  rw [Char.ofNat, dif_pos h]
  rfl

theorem ofNat_eq {b : UInt8} {n : Nat} (h : n = b.toNat) : UInt8.ofNat n = b := by
  rw [h, UInt8.ofNat_toNat]

theorem toNat_val (c : Char) : c.val.toNat = c.toNat := rfl

section Width

variable {a b c d : UInt8}

theorem utf8EncodeChar_two (ha : 0xC2 ≤ a.toNat) (ha' : a.toNat < 0xE0)
    (hb : follows a b = true) :
    String.utf8EncodeChar (assemble (a.toNat - 0xC0) [b]) = [a, b] := by
  have hb := bounds_of_follows hb
  have hc : (assemble (a.toNat - 0xC0) [b]).toNat = (a.toNat - 0xC0) * 64 + (b.toNat - 0x80) := by
    refine toNat_ofNat (n := (a.toNat - 0xC0) * 64 + (b.toNat - 0x80)) ?_
    omega
  rw [String.utf8EncodeChar, toNat_val, hc, if_neg (by omega), if_pos (by omega),
    ofNat_eq (b := a) (by omega), ofNat_eq (b := b) (by omega)]

theorem utf8EncodeChar_three (ha : 0xE0 ≤ a.toNat) (ha' : a.toNat < 0xF0)
    (hb : follows a b = true) (hc : isTail c = true) :
    String.utf8EncodeChar (assemble (a.toNat - 0xE0) [b, c]) = [a, b, c] := by
  have hb := bounds_of_follows hb
  have hc := bounds_of_isTail hc
  have hv : (assemble (a.toNat - 0xE0) [b, c]).toNat =
      ((a.toNat - 0xE0) * 64 + (b.toNat - 0x80)) * 64 + (c.toNat - 0x80) := by
    refine toNat_ofNat
      (n := ((a.toNat - 0xE0) * 64 + (b.toNat - 0x80)) * 64 + (c.toNat - 0x80)) ?_
    omega
  rw [String.utf8EncodeChar, toNat_val, hv, if_neg (by omega), if_neg (by omega),
    if_pos (by omega), ofNat_eq (b := a) (by omega), ofNat_eq (b := b) (by omega),
    ofNat_eq (b := c) (by omega)]

theorem utf8EncodeChar_four (ha : 0xF0 ≤ a.toNat) (ha' : a.toNat ≤ 0xF4)
    (hb : follows a b = true) (hc : isTail c = true) (hd : isTail d = true) :
    String.utf8EncodeChar (assemble (a.toNat - 0xF0) [b, c, d]) = [a, b, c, d] := by
  have hb := bounds_of_follows hb
  have hc := bounds_of_isTail hc
  have hd := bounds_of_isTail hd
  have hv : (assemble (a.toNat - 0xF0) [b, c, d]).toNat =
      (((a.toNat - 0xF0) * 64 + (b.toNat - 0x80)) * 64 + (c.toNat - 0x80)) * 64 +
        (d.toNat - 0x80) := by
    refine toNat_ofNat (n := (((a.toNat - 0xF0) * 64 + (b.toNat - 0x80)) * 64 +
      (c.toNat - 0x80)) * 64 + (d.toNat - 0x80)) ?_
    omega
  rw [String.utf8EncodeChar, toNat_val, hv, if_neg (by omega), if_neg (by omega),
    if_neg (by omega), ofNat_eq (b := a) (by omega), ofNat_eq (b := b) (by omega),
    ofNat_eq (b := c) (by omega), ofNat_eq (b := d) (by omega)]

end Width

theorem eq_of_next_char {bytes rest : List UInt8} {c : Char} (h : next bytes = .char c rest) :
    bytes = String.utf8EncodeChar c ++ rest := by
  -- One case for each width; in all others there is no character at the front.
  unfold next at h
  split at h
  · simp at h
  rename_i a r
  split at h
  · rename_i ha
    obtain ⟨rfl, rfl⟩ := Front.char.inj h
    have ha : a.toNat < 0x80 := UInt8.lt_iff_toNat_lt.mp ha
    have hc : (Char.ofNat a.toNat).toNat = a.toNat := toNat_ofNat (by omega)
    rw [utf8EncodeChar_of_lt (by omega), hc, UInt8.ofNat_toNat]
    rfl
  split at h
  · simp at h
  rename_i hfirst
  simp only [Bool.or_eq_true, decide_eq_true_eq, not_or, UInt8.lt_iff_toNat_lt, UInt8.reduceToNat,
    Nat.not_lt] at hfirst
  split at h
  · simp at h
  split at h
  · simp at h
  rename_i hb
  rw [Bool.not_eq_true', Bool.not_eq_false] at hb
  split at h
  · rename_i ha
    obtain ⟨rfl, rfl⟩ := Front.char.inj h
    rw [utf8EncodeChar_two hfirst.1 (UInt8.lt_iff_toNat_lt.mp ha) hb]
    rfl
  rename_i ha
  rw [UInt8.lt_iff_toNat_lt, Nat.not_lt] at ha
  split at h
  · simp at h
  split at h
  · simp at h
  rename_i hc
  rw [Bool.not_eq_true', Bool.not_eq_false] at hc
  split at h
  · rename_i ha'
    obtain ⟨rfl, rfl⟩ := Front.char.inj h
    rw [utf8EncodeChar_three ha (UInt8.lt_iff_toNat_lt.mp ha') hb hc]
    rfl
  rename_i ha'
  rw [UInt8.lt_iff_toNat_lt, Nat.not_lt] at ha'
  split at h
  · simp at h
  split at h
  · simp at h
  rename_i hd
  rw [Bool.not_eq_true', Bool.not_eq_false] at hd
  obtain ⟨rfl, rfl⟩ := Front.char.inj h
  rw [utf8EncodeChar_four ha' hfirst.2 hb hc hd]
  rfl

theorem eq_nil_of_next {bytes : List UInt8} (h : next bytes = .nothing) : bytes = [] := by
  cases bytes with
  | nil => rfl
  | cons a r =>
    simp only [next] at h
    repeat' split at h
    all_goals cases h

theorem eq_encode_of_decodeFrom {index : Nat} {bytes : List UInt8} {t : Text}
    (h : decodeFrom index bytes = .ok t) : bytes = encode t := by
  fun_induction decodeFrom index bytes generalizing t with
  | case1 index bytes hnext =>
    obtain rfl := Except.ok.inj h
    exact eq_nil_of_next hnext
  | case2 index bytes c rest hnext _ ih =>
    cases hrest : decodeFrom (index + c.utf8Size) rest with
    | error fault =>
      rw [hrest] at h
      cases h
    | ok u =>
      rw [hrest] at h
      obtain rfl := Except.ok.inj h
      rw [eq_of_next_char hnext, ih hrest, encode_cons]
  | case3 => cases h
  | case4 => cases h

theorem decode_eq_ok_iff {bytes : List UInt8} {t : Text} :
    decode bytes = .ok t ↔ bytes = encode t := by
  constructor
  · exact eq_encode_of_decodeFrom
  · rintro rfl
    exact decode_encode t

/-- Only the bytes of a character are shown as that character, but for the one that stands for
faults. -/
theorem eq_of_decodeLossy_cons {bytes : List UInt8} {c : Char} {t : Text} (hc : c ≠ '\uFFFD')
    (h : decodeLossy bytes = c :: t) :
    ∃ rest, bytes = String.utf8EncodeChar c ++ rest ∧ decodeLossy rest = t := by
  rw [decodeLossy] at h
  split at h
  · simp at h
  · rename_i d rest hnext
    obtain ⟨rfl, ht⟩ := List.cons.inj h
    exact ⟨rest, eq_of_next_char hnext, ht⟩
  · exact absurd (List.cons.inj h).1.symm hc
  · exact absurd (List.cons.inj h).1.symm hc

end Utf8
end Text
end SketchPreview
