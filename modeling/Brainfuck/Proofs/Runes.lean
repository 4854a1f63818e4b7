import Brainfuck.Proofs.Scanning

/-!
# Runes

A text falls into runes in one way: where the encoding of a character starts, that is a rune, and
every other byte is a rune by itself. So no byte of a broken sequence takes the bytes after it with
it, and an ASCII byte always is a rune.

## Main Definitions

* `Decoded` — a text and its runes, by the encodings of characters
* `Rune.Sequence` — the forms of a rune of several bytes

## Main Results

* `Rune.width_cases`, `Rune.width_of_sequence` — how many bytes a rune takes
* `Rune.sequence_encoding`, `Rune.exists_encoding` — sequences are encodings of characters
* `decoded_iff` — the runes of a text are its decoding
* `runes_append` — a text that starts with an ASCII byte starts with a rune
-/

namespace Brainfuck

/-- A text falls into pieces: the encodings of characters and, where none starts, single bytes. -/
inductive Decoded : Bytes → List Bytes → Prop where
  | nil : Decoded [] []
  | character (c : Char) {rest : Bytes} {pieces : List Bytes} : Decoded rest pieces →
      Decoded (String.utf8EncodeChar c ++ rest) (String.utf8EncodeChar c :: pieces)
  | stray {b : UInt8} {rest : Bytes} {pieces : List Bytes} :
      (∀ c : Char, ¬ String.utf8EncodeChar c <+: b :: rest) → Decoded rest pieces →
      Decoded (b :: rest) ([b] :: pieces)

namespace Rune

/-! ## Sequences of several bytes -/

theorem isTail_iff {c : UInt8} : isTail c = true ↔ 0x80 ≤ c.toNat ∧ c.toNat ≤ 0xBF := by
  simp [isTail, UInt8.le_iff_toNat_le]

theorem isSecond_iff {b c : UInt8} :
    isSecond b c = true ↔ (0x80 ≤ c.toNat ∧ c.toNat ≤ 0xBF) ∧ (b.toNat = 0xE0 → 0xA0 ≤ c.toNat) ∧
      (b.toNat = 0xF0 → 0x90 ≤ c.toNat) ∧ (b.toNat = 0xED → c.toNat ≤ 0x9F) ∧
      (b.toNat = 0xF4 → c.toNat ≤ 0x8F) := by
  have hiff (n : UInt8) : b = n ↔ b.toNat = n.toNat := UInt8.toNat_inj.symm
  simp only [isSecond, Bool.and_eq_true, decide_eq_true_eq, UInt8.le_iff_toNat_le, hiff,
    apply_ite UInt8.toNat, UInt8.reduceToNat]
  grind

theorem inRange_iff {low high b : UInt8} :
    (decide (low ≤ b) && decide (b ≤ high)) = true ↔
      low.toNat ≤ b.toNat ∧ b.toNat ≤ high.toNat := by
  simp [UInt8.le_iff_toNat_le]

/-- The forms of a rune of several bytes. -/
inductive Sequence : Bytes → Prop where
  | two {b c : UInt8} : 0xC2 ≤ b.toNat ∧ b.toNat ≤ 0xDF → isSecond b c = true → Sequence [b, c]
  | three {b c d : UInt8} : 0xE0 ≤ b.toNat ∧ b.toNat ≤ 0xEF → isSecond b c = true →
      isTail d = true → Sequence [b, c, d]
  | four {b c d e : UInt8} : 0xF0 ≤ b.toNat ∧ b.toNat ≤ 0xF4 → isSecond b c = true →
      isTail d = true → isTail e = true → Sequence [b, c, d, e]

variable {b : UInt8} {rest s : Bytes}

/-- More than one byte is taken only for a sequence. -/
theorem width_cases (b : UInt8) (rest : Bytes) :
    width b rest = 1 ∨ Sequence (b :: rest.take (width b rest - 1)) := by
  fun_cases width b rest
  case case1 hb c rest hc => exact .inr (.two (inRange_iff.mp hb) hc)
  case case4 hb c d rest htail =>
      obtain ⟨hc, hd⟩ := Bool.and_eq_true_iff.mp htail
      exact .inr (.three (inRange_iff.mp hb) hc hd)
  case case7 hb c d e rest htail =>
      obtain ⟨hcd, he⟩ := Bool.and_eq_true_iff.mp htail
      obtain ⟨hc, hd⟩ := Bool.and_eq_true_iff.mp hcd
      exact .inr (.four (inRange_iff.mp hb) hc hd he)
  all_goals exact .inl rfl

/-- A sequence is taken as a whole, whatever follows. -/
theorem width_of_sequence (h : Sequence (b :: s)) (rest : Bytes) :
    width b (s ++ rest) = s.length + 1 := by
  have hrange (low high : UInt8) :
      (decide (low ≤ b) && decide (b ≤ high)) = true ↔
        low.toNat ≤ b.toNat ∧ b.toNat ≤ high.toNat := inRange_iff
  cases h with
  | two hb hc =>
      have hb₂ := (hrange 0xC2 0xDF).mpr hb
      simp [width, hb₂, hc]
  | three hb hc hd =>
      have hb₂ := mt (hrange 0xC2 0xDF).mp (show ¬(0xC2 ≤ b.toNat ∧ b.toNat ≤ 0xDF) by omega)
      have hb₃ := (hrange 0xE0 0xEF).mpr hb
      simp [width, hb₂, hb₃, hc, hd]
  | four hb hc hd he =>
      have hb₂ := mt (hrange 0xC2 0xDF).mp (show ¬(0xC2 ≤ b.toNat ∧ b.toNat ≤ 0xDF) by omega)
      have hb₃ := mt (hrange 0xE0 0xEF).mp (show ¬(0xE0 ≤ b.toNat ∧ b.toNat ≤ 0xEF) by omega)
      have hb₄ := (hrange 0xF0 0xF4).mpr hb
      simp [width, hb₂, hb₃, hb₄, hc, hd, he]

/-- The encoding of a character that is not ASCII is a sequence: no surrogate and no overlong form
is needed for it. -/
theorem sequence_encoding {c : Char} (h : 0x80 ≤ c.val.toNat) :
    Sequence (String.utf8EncodeChar c) := by
  have hvalid : c.val.toNat < 0xD800 ∨ 0xDFFF < c.val.toNat ∧ c.val.toNat < 0x110000 := c.valid
  have hnat (n : Nat) (hn : n < 256) : (UInt8.ofNat n).toNat = n := by
    rw [UInt8.toNat_ofNat']
    omega
  have htail (n : Nat) : isTail (UInt8.ofNat (n % 64 + 128)) = true := by
    rw [isTail_iff, hnat _ (by omega)]
    omega
  unfold String.utf8EncodeChar
  generalize c.val.toNat = v at h hvalid
  dsimp only
  rw [if_neg (by omega)]
  by_cases htwo : v ≤ 0x7FF
  · rw [if_pos htwo]
    refine .two ?_ ?_
    · rw [hnat _ (by omega)]
      omega
    · rw [isSecond_iff, hnat _ (by omega), hnat _ (by omega)]
      omega
  rw [if_neg htwo]
  by_cases hthree : v ≤ 0xFFFF
  · rw [if_pos hthree]
    refine .three ?_ ?_ (htail v)
    · rw [hnat _ (by omega)]
      omega
    · rw [isSecond_iff, hnat _ (by omega), hnat _ (by omega)]
      omega
  · rw [if_neg hthree]
    refine .four ?_ ?_ (htail _) (htail v)
    · rw [hnat _ (by omega)]
      omega
    · rw [isSecond_iff, hnat _ (by omega), hnat _ (by omega)]
      omega

theorem exists_char {v : Nat} (h : v < 0xD800 ∨ 0xDFFF < v ∧ v < 0x110000) :
    ∃ c : Char, c.val.toNat = v :=
  ⟨Char.ofNatAux v h, rfl⟩

/-- Every sequence encodes a character. -/
theorem exists_encoding (h : Sequence s) : ∃ c : Char, String.utf8EncodeChar c = s := by
  have hbyte (b : UInt8) (n : Nat) (hn : n = b.toNat) : UInt8.ofNat n = b := by
    rw [hn, UInt8.ofNat_toNat]
  cases h with
  | @two b c hb hc =>
      rw [isSecond_iff] at hc
      obtain ⟨x, hx⟩ := exists_char (v := (b.toNat - 0xC0) * 64 + (c.toNat - 0x80)) (by omega)
      refine ⟨x, ?_⟩
      rw [String.utf8EncodeChar, hx, if_neg (by omega), if_pos (by omega), hbyte b _ (by omega),
        hbyte c _ (by omega)]
  | @three b c d hb hc hd =>
      rw [isSecond_iff] at hc
      rw [isTail_iff] at hd
      obtain ⟨x, hx⟩ := exists_char
        (v := ((b.toNat - 0xE0) * 64 + (c.toNat - 0x80)) * 64 + (d.toNat - 0x80)) (by omega)
      refine ⟨x, ?_⟩
      rw [String.utf8EncodeChar, hx, if_neg (by omega), if_neg (by omega), if_pos (by omega),
        hbyte b _ (by omega), hbyte c _ (by omega), hbyte d _ (by omega)]
  | @four b c d e hb hc hd he =>
      rw [isSecond_iff] at hc
      rw [isTail_iff] at hd he
      obtain ⟨x, hx⟩ := exists_char (v := (((b.toNat - 0xF0) * 64 + (c.toNat - 0x80)) * 64 +
        (d.toNat - 0x80)) * 64 + (e.toNat - 0x80)) (by omega)
      refine ⟨x, ?_⟩
      rw [String.utf8EncodeChar, hx, if_neg (by omega), if_neg (by omega), if_neg (by omega),
        hbyte b _ (by omega), hbyte c _ (by omega), hbyte d _ (by omega), hbyte e _ (by omega)]

theorem encoding_of_ascii {c : Char} (h : c.val.toNat < 0x80) :
    String.utf8EncodeChar c = [UInt8.ofNat c.val.toNat] := by
  rw [String.utf8EncodeChar, if_pos (by omega)]

/-- An ASCII byte is a rune by itself. -/
theorem width_of_ascii (h : b < 0x80) (rest : Bytes) : width b rest = 1 := by
  have hb : b.toNat < 0x80 := UInt8.lt_iff_toNat_lt.mp h
  obtain hone | hsequence := width_cases b rest
  · exact hone
  · generalize rest.take (width b rest - 1) = s at hsequence
    cases hsequence <;> omega

/-- The encoding of a character at the head of a text is its first rune. -/
theorem width_of_encoding {c : Char} (h : String.utf8EncodeChar c = b :: s) (rest : Bytes) :
    width b (s ++ rest) = s.length + 1 := by
  by_cases hc : c.val.toNat < 0x80
  · rw [encoding_of_ascii hc] at h
    cases h
    refine width_of_ascii ?_ rest
    show (UInt8.ofNat c.val.toNat).toNat < 0x80
    rw [UInt8.toNat_ofNat']
    omega
  · exact width_of_sequence (h ▸ sequence_encoding (Nat.le_of_not_lt hc)) rest

end Rune

/-! ## The runes of a text -/

theorem runesFrom_eq (pending : Nat) (t : Bytes) :
    runesFrom pending t = runes (t.drop pending) := by
  induction t generalizing pending with
  | nil => simp [runes, runesFrom]
  | cons b rest ih =>
      cases pending with
      | zero => rfl
      | succ pending => exact ih pending

theorem runes_cons (b : UInt8) (rest : Bytes) :
    runes (b :: rest) = Rune.ofHead b rest :: runes (rest.drop (Rune.width b rest - 1)) := by
  rw [runes, runesFrom, runesFrom_eq]

/-- The first rune of a text that starts with the encoding of a character. -/
theorem runes_of_encoding {c : Char} (rest : Bytes) :
    (runes (String.utf8EncodeChar c ++ rest)).map (·.bytes) =
      String.utf8EncodeChar c :: (runes rest).map (·.bytes) := by
  obtain ⟨b, s, henc⟩ := List.exists_cons_of_ne_nil (String.utf8EncodeChar_ne_nil (c := c))
  rw [henc, List.cons_append, runes_cons, List.map_cons, Rune.ofHead, Rune.width_of_encoding henc]
  simp

/-- The first rune of a text that starts with no encoding. -/
theorem runes_of_stray {b : UInt8} {rest : Bytes}
    (h : ∀ c : Char, ¬ String.utf8EncodeChar c <+: b :: rest) :
    (runes (b :: rest)).map (·.bytes) = [b] :: (runes rest).map (·.bytes) := by
  have hwidth : Rune.width b rest = 1 := by
    refine (Rune.width_cases b rest).resolve_right ?_
    intro hsequence
    obtain ⟨c, hc⟩ := Rune.exists_encoding hsequence
    refine h c ⟨rest.drop (Rune.width b rest - 1), ?_⟩
    rw [hc, List.cons_append, List.take_append_drop]
  rw [runes_cons, List.map_cons, Rune.ofHead, hwidth]
  simp

/-- Every text that is not empty starts with the encoding of a character, or with a byte that starts
none. -/
theorem decoded_runes (t : Bytes) : Decoded t ((runes t).map (·.bytes)) := by
  induction hn : t.length using Nat.strongRecOn generalizing t with
  | ind n ih =>
      cases t with
      | nil => exact .nil
      | cons b rest =>
          by_cases h : ∃ c : Char, String.utf8EncodeChar c <+: b :: rest
          · obtain ⟨c, rest', hc⟩ := h
            have hpos := List.length_pos_iff.mpr (String.utf8EncodeChar_ne_nil (c := c))
            rw [← hc, List.length_append] at hn
            rw [← hc, runes_of_encoding]
            exact .character c (ih rest'.length (by omega) rest' rfl)
          · have hstray := not_exists.mp h
            rw [runes_of_stray hstray]
            rw [List.length_cons] at hn
            exact .stray hstray (ih rest.length (by omega) rest rfl)

/-- The runes of a text are its decoding, and there is no other. -/
theorem decoded_iff {t : Bytes} {pieces : List Bytes} :
    Decoded t pieces ↔ pieces = (runes t).map (·.bytes) := by
  constructor
  · intro h
    induction h with
    | nil => rfl
    | character c _ ih => rw [runes_of_encoding, ih]
    | stray hstray _ ih => rw [runes_of_stray hstray, ih]
  · rintro rfl
    exact decoded_runes t

/-- A text that starts with an ASCII byte starts with a rune, whatever comes before it. -/
theorem runes_append (s : Bytes) {t : Bytes} (ht : StartsAscii t) :
    runes (s ++ t) = runes s ++ runes t := by
  induction hn : s.length using Nat.strongRecOn generalizing s with
  | ind n ih =>
      cases s with
      | nil => rfl
      | cons b s =>
          have hle := Rune.width_le b s
          rw [List.length_cons] at hn
          rw [List.cons_append, runes_cons, runes_cons, Rune.ofHead, Rune.ofHead,
            Rune.width_append b s ht, List.take_append_of_le_length hle,
            List.drop_append_of_le_length hle, List.cons_append]
          refine congrArg (_ :: ·) (ih _ ?_ _ rfl)
          rw [List.length_drop]
          omega

end Brainfuck
