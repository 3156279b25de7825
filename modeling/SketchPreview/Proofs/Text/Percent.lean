import SketchPreview.Proofs.Text.Utf8
import SketchPreview.Text.Percent
import SketchPreview.Uri.Segments

/-!
Percent encoding reads back what it writes, byte by byte (`decodeBytes_encode`), and what it writes
holds no character that ends or divides a path (`isSafe_of_mem_encode`).  A dot is never escaped, so
of the encoded texts only the dot and the two dots themselves are segments that a URI works off
(`isHere_encode`, `isAbove_encode`).
-/

namespace SketchPreview
namespace Text
namespace Percent

/-! ## Hexadecimal digits -/

theorem hexDigit_spec {n : Nat} (h : n < 16) :
    (hexDigit n).toNat < 128 ∧
      hexValue? (UInt8.ofNat (hexDigit n).toNat) = some (UInt8.ofNat n) := by
  revert n
  decide

theorem eq_of_hexDigit_eq {n m : Nat} (hn : n < 16) (hm : m < 16) (h : hexDigit n = hexDigit m) :
    n = m := by
  have hvalue := (hexDigit_spec hn).2
  rw [h, (hexDigit_spec hm).2, Option.some.injEq, ← UInt8.toNat_inj,
    Utf8.toNat_ofNat_lt (by omega), Utf8.toNat_ofNat_lt (by omega)] at hvalue
  exact hvalue.symm

/-! ## One byte -/

theorem toNat_of_isUnreserved {b : UInt8} (h : isUnreserved b = true) :
    (0x41 ≤ b.toNat ∧ b.toNat ≤ 0x5A) ∨ (0x61 ≤ b.toNat ∧ b.toNat ≤ 0x7A) ∨
      (0x30 ≤ b.toNat ∧ b.toNat ≤ 0x39) ∨ b.toNat = 0x2D ∨ b.toNat = 0x5F ∨ b.toNat = 0x2E ∨
      b.toNat = 0x7E := by
  simp only [isUnreserved, Bool.or_eq_true, Bool.and_eq_true, decide_eq_true_eq, beq_iff_eq,
    ← UInt8.toNat_inj, UInt8.le_iff_toNat_le, UInt8.reduceToNat] at h
  omega

theorem toNat_char {b : UInt8} : (Char.ofNat b.toNat).toNat = b.toNat := by
  have hb := b.toNat_lt
  exact Utf8.toNat_ofNat (Or.inl (by omega))

theorem decodeBytes_cons {b : UInt8} (h : b ≠ 0x25) (rest : List UInt8) :
    decodeBytes (b :: rest) = b :: decodeBytes rest := by
  rw [decodeBytes]
  intro x y r hb
  exact absurd hb h

theorem decodeBytes_encodeByte (b : UInt8) (rest : List UInt8) :
    decodeBytes (Utf8.encode (encodeByte b) ++ rest) = b :: decodeBytes rest := by
  have hb := b.toNat_lt
  rw [encodeByte]
  split
  · rename_i h
    have hcases := toNat_of_isUnreserved h
    have hchar : Utf8.encode [Char.ofNat b.toNat] = [b] := by
      rw [Utf8.encode_cons, Utf8.utf8EncodeChar_of_lt (by rw [toNat_char]; omega), toNat_char,
        UInt8.ofNat_toNat]
      rfl
    rw [hchar, List.singleton_append, decodeBytes_cons]
    intro heq
    subst heq
    simp at hcases
  · obtain ⟨hhigh, hhighvalue⟩ := hexDigit_spec (show b.toNat / 16 < 16 by omega)
    obtain ⟨hlow, hlowvalue⟩ := hexDigit_spec (show b.toNat % 16 < 16 by omega)
    have hvalue : UInt8.ofNat (b.toNat / 16) * 16 + UInt8.ofNat (b.toNat % 16) = b := by
      rw [← UInt8.toNat_inj, UInt8.toNat_add, UInt8.toNat_mul, Utf8.toNat_ofNat_lt (by omega),
        Utf8.toNat_ofNat_lt (by omega)]
      show (b.toNat / 16 * 16 % 256 + b.toNat % 16) % 256 = b.toNat
      omega
    rw [Utf8.encode_cons, Utf8.encode_cons, Utf8.encode_cons, Utf8.encode_nil,
      Utf8.utf8EncodeChar_of_lt hhigh, Utf8.utf8EncodeChar_of_lt hlow]
    show decodeBytes (0x25 :: UInt8.ofNat (hexDigit (b.toNat / 16)).toNat ::
      UInt8.ofNat (hexDigit (b.toNat % 16)).toNat :: rest) = b :: decodeBytes rest
    rw [decodeBytes, hhighvalue, hlowvalue]
    dsimp only
    rw [hvalue]

/-- A character of encoded text: none that a URI gives a meaning to, but for the percent sign. -/
def isSafe (c : Char) : Bool :=
  0x20 < c.toNat && c != '/' && c != '?' && c != '#'

theorem isSafe_of_mem_encodeByte {b : UInt8} {c : Char} (h : c ∈ encodeByte b) :
    isSafe c = true := by
  have hdigit : ∀ n, n < 16 → isSafe (hexDigit n) = true := by decide
  have hb := b.toNat_lt
  rw [encodeByte] at h
  split at h
  · rename_i hb
    have hcases := toNat_of_isUnreserved hb
    rw [List.mem_singleton] at h
    subst h
    simp only [isSafe, Bool.and_eq_true, decide_eq_true_eq, bne_iff_ne, ne_eq,
      ← Char.toNat_inj, toNat_char, Char.reduceToNat]
    omega
  · simp only [List.mem_cons, List.not_mem_nil, or_false] at h
    rcases h with rfl | rfl | rfl
    · decide
    · exact hdigit _ (by omega)
    · exact hdigit _ (by omega)

/-- An escape is never the one for a dot. -/
theorem behindDot?_encodeByte (b : UInt8) (rest : Text) :
    Uri.Segments.behindDot? (encodeByte b ++ rest) = if b = 0x2E then some rest else none := by
  have hb := b.toNat_lt
  by_cases hdot : b = 0x2E
  · subst hdot
    rfl
  rw [if_neg hdot, encodeByte]
  have hne : b.toNat ≠ 0x2E := by
    intro h
    exact hdot (UInt8.toNat_inj.mp h)
  split
  · rename_i h
    have hcases := toNat_of_isUnreserved h
    have hpoint : Char.ofNat b.toNat ≠ '.' := by
      rw [ne_eq, ← Char.toNat_inj, toNat_char]
      exact hne
    have hpercent : Char.ofNat b.toNat ≠ '%' := by
      rw [ne_eq, ← Char.toNat_inj, toNat_char]
      show b.toNat ≠ 0x25
      omega
    rw [List.singleton_append, Uri.Segments.behindDot?]
    · exact fun r hr => absurd (List.cons.inj hr).1 hpoint
    · exact fun e r hr => absurd (List.cons.inj hr).1 hpercent
  · have hlower : ∀ n, n < 16 → hexDigit n ≠ 'e' := by decide
    rw [List.cons_append, List.cons_append, List.singleton_append]
    by_cases htwo : hexDigit (b.toNat / 16) = '2'
    · have hhigh : b.toNat / 16 = 2 := eq_of_hexDigit_eq (by omega) (by omega) htwo
      have hupper : hexDigit (b.toNat % 16) ≠ 'E' := by
        intro h
        have hlow : b.toNat % 16 = 14 := eq_of_hexDigit_eq (by omega) (by omega) h
        omega
      rw [htwo, Uri.Segments.behindDot?, if_neg]
      simp [hlower (b.toNat % 16) (by omega), hupper]
    · rw [Uri.Segments.behindDot?]
      · exact fun r hr => absurd (List.cons.inj hr).1 (by decide)
      · intro e r hr
        exact absurd (List.cons.inj (List.cons.inj hr).2).1 htwo

/-! ## Texts -/

theorem decodeBytes_encode (t : Text) (rest : List UInt8) :
    decodeBytes (Utf8.encode (encode t) ++ rest) = Utf8.encode t ++ decodeBytes rest := by
  rw [encode]
  induction Utf8.encode t with
  | nil => rfl
  | cons b bytes ih =>
    rw [List.flatMap_cons, Utf8.encode_append, List.append_assoc, decodeBytes_encodeByte, ih]
    rfl

theorem isSafe_of_mem_encode {t : Text} {c : Char} (h : c ∈ encode t) : isSafe c = true := by
  obtain ⟨b, -, hc⟩ := List.mem_flatMap.mp h
  exact isSafe_of_mem_encodeByte hc

@[simp] theorem encode_nil : encode [] = [] := rfl

theorem encode_cons (c : Char) (t : Text) :
    encode (c :: t) = (String.utf8EncodeChar c).flatMap encodeByte ++ encode t := by
  rw [encode, Utf8.encode_cons, List.flatMap_append, encode]

theorem behindDot?_encode_cons (c : Char) (t : Text) :
    Uri.Segments.behindDot? (encode (c :: t)) = if c = '.' then some (encode t) else none := by
  rw [encode_cons]
  by_cases hc : c = '.'
  · subst hc
    exact behindDot?_encodeByte 0x2E (encode t)
  · cases hbytes : String.utf8EncodeChar c with
    | nil => exact absurd hbytes String.utf8EncodeChar_ne_nil
    | cons b bytes =>
      have hb : b ≠ 0x2E := by
        intro heq
        have hmem : UInt8.ofNat '.'.toNat ∈ String.utf8EncodeChar c := by
          rw [hbytes, heq]
          exact List.mem_cons_self
        exact hc ((Utf8.mem_utf8EncodeChar_iff (by decide)).mp hmem)
      rw [if_neg hc, List.flatMap_cons, List.append_assoc, behindDot?_encodeByte, if_neg hb]

theorem encode_eq_nil_iff {t : Text} : encode t = [] ↔ t = [] := by
  constructor
  · intro h
    have hbytes := decodeBytes_encode t []
    rw [h, show decodeBytes [] = [] from rfl, List.append_nil, List.append_nil] at hbytes
    have ht := Utf8.decode_encode t
    rw [← hbytes] at ht
    have hnil : Utf8.decode (decodeBytes (Utf8.encode [])) = .ok [] := Utf8.decodeFrom_nil 0
    rw [hnil] at ht
    exact (Except.ok.inj ht).symm
  · intro h
    rw [h, encode_nil]

theorem isHere_encode (t : Text) : Uri.Segments.isHere (encode t) = true ↔ t = ['.'] := by
  rw [Uri.Segments.isHere, beq_iff_eq]
  cases t with
  | nil => simp [Uri.Segments.behindDot?]
  | cons c t =>
    rw [behindDot?_encode_cons]
    by_cases hc : c = '.'
    · rw [if_pos hc, Option.some.injEq, encode_eq_nil_iff, List.cons.injEq]
      exact ⟨fun h => ⟨hc, h⟩, fun h => h.2⟩
    · simp [hc]

theorem isAbove_encode (t : Text) :
    Uri.Segments.isAbove (encode t) = true ↔ t = ['.', '.'] := by
  rw [Uri.Segments.isAbove, beq_iff_eq]
  cases t with
  | nil => simp [Uri.Segments.behindDot?]
  | cons c t =>
    rw [behindDot?_encode_cons]
    by_cases hc : c = '.'
    · have hhere := isHere_encode t
      rw [Uri.Segments.isHere, beq_iff_eq] at hhere
      rw [if_pos hc, Option.bind_some, hhere, List.cons.injEq]
      exact ⟨fun h => ⟨hc, h⟩, fun h => h.2⟩
    · simp [hc]

end Percent
end Text
end SketchPreview
