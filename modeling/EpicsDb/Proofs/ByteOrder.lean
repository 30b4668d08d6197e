import Mathlib.Data.String.Basic

/-!
# The order of texts

Texts are compared by their characters.  This is the order of their bytes in UTF-8: a character with
a larger code never has a smaller encoding, and no encoding starts another one.

* `encode_append_lt` compares two characters, with any bytes behind them.
* `lt_iff_bytes_lt` compares texts, and `le_of_prefix` texts of which one starts the other.
-/

namespace EpicsDb.Text

/-- The bytes of a text in UTF-8. -/
def bytes (s : String) : List UInt8 :=
  s.toUTF8.data.toList

theorem bytes_eq_flatMap (s : String) : bytes s = s.toList.flatMap String.utf8EncodeChar := by
  rw [bytes, String.toUTF8, ← String.utf8Encode_toList, List.utf8Encode, List.data_toByteArray,
    List.toList_toArray]

/-! ## Characters -/

/-- A byte decides, unless it is the same on both sides. -/
theorem byte_cons_lt {m n : Nat} {us vs : List UInt8} (hn : n < 256) (hle : m ≤ n)
    (h : m = n → us < vs) : UInt8.ofNat m :: us < UInt8.ofNat n :: vs := by
  rw [List.cons_lt_cons_iff]
  by_cases heq : m = n
  · exact .inr ⟨by rw [heq], h heq⟩
  · left
    rw [UInt8.lt_iff_toNat_lt, UInt8.toNat_ofNat', UInt8.toNat_ofNat']
    omega

theorem toNat_val_lt (c : Char) : c.val.toNat < 0x110000 := by
  rcases c.valid with h | ⟨-, h⟩
  · exact Nat.lt_trans h (by decide)
  · exact h

/-- The encoding of a smaller character is smaller, whatever follows. -/
theorem encode_append_lt {c d : Char} (h : c < d) (us vs : List UInt8) :
    String.utf8EncodeChar c ++ us < String.utf8EncodeChar d ++ vs := by
  have hlt : c.val.toNat < d.val.toNat := h
  have hmax : d.val.toNat < 0x110000 := toNat_val_lt d
  simp only [String.utf8EncodeChar]
  generalize c.val.toNat = v at hlt ⊢
  generalize d.val.toNat = w at hlt hmax ⊢
  -- the larger character is not encoded in fewer bytes; if it takes more, the first byte decides
  split_ifs <;> try omega
  · exact byte_cons_lt (by omega) (by omega) (by omega)
  · exact byte_cons_lt (by omega) (by omega) (by omega)
  · exact byte_cons_lt (by omega) (by omega) (by omega)
  · exact byte_cons_lt (by omega) (by omega) (by omega)
  · exact byte_cons_lt (by omega) (by omega) fun _ => byte_cons_lt (by omega) (by omega) (by omega)
  · exact byte_cons_lt (by omega) (by omega) (by omega)
  · exact byte_cons_lt (by omega) (by omega) (by omega)
  · exact byte_cons_lt (by omega) (by omega) fun _ => byte_cons_lt (by omega) (by omega) fun _ =>
      byte_cons_lt (by omega) (by omega) (by omega)
  · exact byte_cons_lt (by omega) (by omega) (by omega)
  · exact byte_cons_lt (by omega) (by omega) fun _ => byte_cons_lt (by omega) (by omega) fun _ =>
      byte_cons_lt (by omega) (by omega) fun _ => byte_cons_lt (by omega) (by omega) (by omega)

/-! ## Texts -/

theorem flatMap_encode_lt {cs ds : List Char} (h : cs < ds) :
    cs.flatMap String.utf8EncodeChar < ds.flatMap String.utf8EncodeChar := by
  induction h with
  | @nil d ds =>
    rw [List.flatMap_nil, List.flatMap_cons]
    obtain ⟨byte, later, hbytes⟩ :=
      List.exists_cons_of_ne_nil (String.utf8EncodeChar_ne_nil (c := d))
    rw [hbytes]
    exact List.nil_lt_cons _ _
  | rel hlt =>
    rw [List.flatMap_cons, List.flatMap_cons]
    exact encode_append_lt hlt _ _
  | cons _ ih =>
    rw [List.flatMap_cons, List.flatMap_cons]
    exact List.append_left_lt ih

/-- Texts are in the order of their bytes. -/
theorem lt_iff_bytes_lt {s t : String} : s < t ↔ bytes s < bytes t := by
  have hbytes : ∀ {s t : String}, s < t → bytes s < bytes t := by
    intro s t h
    rw [bytes_eq_flatMap, bytes_eq_flatMap]
    exact flatMap_encode_lt (String.lt_iff_toList_lt.mp h)
  refine ⟨hbytes, fun h => ?_⟩
  rcases lt_trichotomy s t with hlt | rfl | hgt
  · exact hlt
  · exact absurd h (List.lt_irrefl _)
  · exact absurd h (List.lt_asymm (hbytes hgt))

theorem le_iff_bytes_le {s t : String} : s ≤ t ↔ bytes s ≤ bytes t := by
  rw [← not_lt, lt_iff_bytes_lt, List.not_lt]

/-- A text comes before the longer texts that it starts. -/
theorem lt_of_append_cons {s t : String} {c : Char} {rest : List Char}
    (h : t.toList = s.toList ++ c :: rest) : s < t := by
  rw [String.lt_iff_toList_lt, h]
  nth_rewrite 1 [← List.append_nil s.toList]
  exact List.append_left_lt (List.nil_lt_cons c rest)

theorem le_of_prefix {s t : String} (h : s.toList <+: t.toList) : s ≤ t := by
  obtain ⟨rest, hrest⟩ := h
  cases rest with
  | nil =>
    rw [List.append_nil] at hrest
    exact (String.toList_inj.mp hrest).le
  | cons c rest => exact (lt_of_append_cons hrest.symm).le

end EpicsDb.Text
