import SchemaLedger.Proofs.Outcome
import SchemaLedger.Proofs.Text.CodePoint
import SchemaLedger.Text.Utf8

/-!
# What is encoded is decoded again

The bytes of a character are read back as that character, whatever follows them,
and whatever is read as a character has its bytes.  The cases are those of the
number of bytes.  A name is read from any bytes, and its text has just these.
-/

namespace SchemaLedger
namespace Utf8

theorem toNat_ofNat {n : Nat} (h : n < 256) : (UInt8.ofNat n).toNat = n := by
  rw [UInt8.toNat_ofNat']
  exact Nat.mod_eq_of_lt h

theorem continuations?_ofNat {n : Nat} (h : n < 256) :
    continuations? (UInt8.ofNat n) =
      if n < 0x80 then some 0
      else if n < 0xC2 then none
      else if n < 0xE0 then some 1
      else if n < 0xF0 then some 2
      else if n < 0xF5 then some 3
      else none := by
  simp only [continuations?, UInt8.lt_iff_toNat_lt, toNat_ofNat h]
  rfl

theorem isContinuation_ofNat {n : Nat} (h : n < 64) :
    isContinuation (UInt8.ofNat (n + 128)) = true := by
  have hbyte : n + 128 < 256 := by omega
  simp only [isContinuation, UInt8.le_iff_toNat_le, toNat_ofNat hbyte, Bool.and_eq_true,
    decide_eq_true_eq]
  have hlow : (0x80 : UInt8).toNat = 128 := rfl
  have hhigh : (0xBF : UInt8).toNat = 191 := rfl
  omega

theorem payload_ofNat {n : Nat} (h : n < 64) : payload (UInt8.ofNat (n + 128)) = n := by
  have hbyte : n + 128 < 256 := by omega
  rw [payload, toNat_ofNat hbyte]
  omega

theorem ofNat_eq_iff {n : Nat} (h : n < 256) (b : UInt8) : UInt8.ofNat n = b ↔ n = b.toNat := by
  rw [← UInt8.toNat_inj, toNat_ofNat h]

/-- The second byte is in range when it is a continuation and the four special
first bytes come with what they allow. -/
theorem isSecond_ofNat {m n : Nat} (hm : m < 256) (hn : n < 64) (hE0 : m = 0xE0 → 0x20 ≤ n)
    (hF0 : m = 0xF0 → 0x10 ≤ n) (hED : m = 0xED → n < 0x20) (hF4 : m = 0xF4 → n < 0x10) :
    isSecond (UInt8.ofNat m) (UInt8.ofNat (n + 128)) = true := by
  have hbyte : n + 128 < 256 := by omega
  have hnumbers : (0xE0 : UInt8).toNat = 0xE0 ∧ (0xF0 : UInt8).toNat = 0xF0 ∧
      (0xED : UInt8).toNat = 0xED ∧ (0xF4 : UInt8).toNat = 0xF4 := ⟨rfl, rfl, rfl, rfl⟩
  simp only [isSecond, ofNat_eq_iff hm, hnumbers, UInt8.le_iff_toNat_le, toNat_ofNat hbyte,
    Bool.and_eq_true, decide_eq_true_eq]
  constructor
  · split
    · next heq => exact Nat.add_le_add_right (hE0 heq) 128
    · split
      · next heq => exact Nat.add_le_add_right (hF0 heq) 128
      · exact Nat.le_add_left 128 n
  · have h9F : (0x9F : UInt8).toNat = 159 := rfl
    have h8F : (0x8F : UInt8).toNat = 143 := rfl
    have hBF : (0xBF : UInt8).toNat = 191 := rfl
    split
    · next heq =>
      have := hED heq
      omega
    · split
      · next heq =>
        have := hF4 heq
        omega
      · omega

variable (start : Nat) (rest : Bytes)

theorem decodeFrom_one {a : Nat} (ha : a < 0x80) :
    decodeFrom start (UInt8.ofNat a :: rest) =
      (decodeFrom (start + 1) rest).map (CodePoint.ofNat a :: ·) := by
  have hbyte : a < 256 := by omega
  have hcount : continuations? (UInt8.ofNat a) = some 0 := by
    rw [continuations?_ofNat hbyte, if_pos ha]
  rw [decodeFrom.eq_def]
  simp only [hcount, toNat_ofNat hbyte]

theorem decodeFrom_two {a b : Nat} (ha : a < 32) (hb : b < 64) (hshort : 2 ≤ a) :
    decodeFrom start (UInt8.ofNat (a + 192) :: UInt8.ofNat (b + 128) :: rest) =
      (decodeFrom (start + 2) rest).map (CodePoint.ofNat (a * 64 + b) :: ·) := by
  have hbyte : a + 192 < 256 := by omega
  have hcount : continuations? (UInt8.ofNat (a + 192)) = some 1 := by
    rw [continuations?_ofNat hbyte, if_neg (by omega), if_neg (by omega), if_pos (by omega)]
  have hsecond : isSecond (UInt8.ofNat (a + 192)) (UInt8.ofNat (b + 128)) = true :=
    isSecond_ofNat hbyte hb (by omega) (by omega) (by omega) (by omega)
  have hlead : (a + 192) % 32 = a := by omega
  rw [decodeFrom.eq_def]
  simp only [hcount, hsecond, toNat_ofNat hbyte, payload_ofNat hb, hlead,
    Bool.not_true, Bool.false_eq_true,
    if_false]

theorem decodeFrom_three {a b c : Nat} (ha : a < 16) (hb : b < 64) (hc : c < 64)
    (hshort : a = 0 → 32 ≤ b) (hsurrogate : a = 13 → b < 32) :
    decodeFrom start
        (UInt8.ofNat (a + 224) :: UInt8.ofNat (b + 128) :: UInt8.ofNat (c + 128) :: rest) =
      (decodeFrom (start + 3) rest).map (CodePoint.ofNat ((a * 64 + b) * 64 + c) :: ·) := by
  have hbyte : a + 224 < 256 := by omega
  have hcount : continuations? (UInt8.ofNat (a + 224)) = some 2 := by
    rw [continuations?_ofNat hbyte, if_neg (by omega), if_neg (by omega), if_neg (by omega),
      if_pos (by omega)]
  have hsecond : isSecond (UInt8.ofNat (a + 224)) (UInt8.ofNat (b + 128)) = true :=
    isSecond_ofNat hbyte hb (by omega) (by omega) (by omega) (by omega)
  have hlead : (a + 224) % 16 = a := by omega
  rw [decodeFrom.eq_def]
  simp only [hcount, hsecond, isContinuation_ofNat hc, toNat_ofNat hbyte, payload_ofNat hb,
    payload_ofNat hc, hlead, Bool.not_true, Bool.false_eq_true, if_false]

theorem decodeFrom_four {a b c e : Nat} (ha : a < 5) (hb : b < 64) (hc : c < 64) (he : e < 64)
    (hshort : a = 0 → 16 ≤ b) (hlast : a = 4 → b < 16) :
    decodeFrom start (UInt8.ofNat (a + 240) :: UInt8.ofNat (b + 128) :: UInt8.ofNat (c + 128) ::
        UInt8.ofNat (e + 128) :: rest) =
      (decodeFrom (start + 4) rest).map
        (CodePoint.ofNat (((a * 64 + b) * 64 + c) * 64 + e) :: ·) := by
  have hbyte : a + 240 < 256 := by omega
  have hcount : continuations? (UInt8.ofNat (a + 240)) = some 3 := by
    rw [continuations?_ofNat hbyte, if_neg (by omega), if_neg (by omega), if_neg (by omega),
      if_neg (by omega), if_pos (by omega)]
  have hsecond : isSecond (UInt8.ofNat (a + 240)) (UInt8.ofNat (b + 128)) = true :=
    isSecond_ofNat hbyte hb (by omega) (by omega) (by omega) (by omega)
  have hlead : (a + 240) % 8 = a := by omega
  rw [decodeFrom.eq_def]
  simp only [hcount, hsecond, isContinuation_ofNat hc, isContinuation_ofNat he, toNat_ofNat hbyte,
    payload_ofNat hb, payload_ofNat hc, payload_ofNat he, hlead, Bool.not_true, Bool.false_eq_true,
    if_false]

theorem decodeFrom_char (c : Char) :
    decodeFrom start (String.utf8EncodeChar c ++ rest) =
      (decodeFrom (start + (String.utf8EncodeChar c).length) rest).map (.char c :: ·) := by
  have hvalid := c.valid
  have hchar : CodePoint.ofNat c.val.toNat = .char c := CodePoint.ofNat_toNat (.char c)
  unfold UInt32.isValidChar Nat.isValidChar at hvalid
  unfold String.utf8EncodeChar
  simp only
  generalize c.val.toNat = v at hvalid hchar
  split
  · exact (decodeFrom_one start rest (by omega)).trans (by rw [hchar]; rfl)
  · split
    · have hvalue : v / 64 % 32 * 64 + v % 64 = v := by omega
      refine (decodeFrom_two start rest (a := v / 64 % 32) (b := v % 64) (by omega) (by omega)
        (by omega)).trans ?_
      rw [hvalue, hchar]
      rfl
    · split
      · have hvalue : (v / 4096 % 16 * 64 + v / 64 % 64) * 64 + v % 64 = v := by omega
        refine (decodeFrom_three start rest (a := v / 4096 % 16) (b := v / 64 % 64) (c := v % 64)
          (by omega) (by omega) (by omega) (by omega) (by omega)).trans ?_
        rw [hvalue, hchar]
        rfl
      · have hvalue : ((v / 262144 % 8 * 64 + v / 4096 % 64) * 64 + v / 64 % 64) * 64 + v % 64 =
            v := by omega
        refine (decodeFrom_four start rest (a := v / 262144 % 8) (b := v / 4096 % 64)
          (c := v / 64 % 64) (e := v % 64) (by omega) (by omega) (by omega) (by omega) (by omega)
          (by omega)).trans ?_
        rw [hvalue, hchar]
        rfl

/-- Bytes below `80` stand for themselves wherever they are. -/
theorem toNat_of_mem_bytesOf {c : CodePoint} {b : UInt8} (h : b ∈ bytesOf c)
    (hb : b.toNat < 0x80) : c.toNat = b.toNat := by
  have hhigh : ∀ n, 0x80 ≤ n → n < 256 → b ≠ UInt8.ofNat n := by
    rintro n hn hlt rfl
    rw [toNat_ofNat hlt] at hb
    omega
  cases c with
  | char c =>
    show c.val.toNat = b.toNat
    simp only [bytesOf, String.utf8EncodeChar] at h
    split at h
    · rw [List.mem_singleton.1 h, toNat_ofNat (by omega)]
    · exfalso
      split at h
      · simp only [List.mem_cons, List.not_mem_nil, or_false] at h
        rcases h with h | h
        · exact hhigh _ (by omega) (by omega) h
        · exact hhigh _ (by omega) (by omega) h
      · split at h
        · simp only [List.mem_cons, List.not_mem_nil, or_false] at h
          rcases h with h | h | h
          · exact hhigh _ (by omega) (by omega) h
          · exact hhigh _ (by omega) (by omega) h
          · exact hhigh _ (by omega) (by omega) h
        · simp only [List.mem_cons, List.not_mem_nil, or_false] at h
          rcases h with h | h | h | h
          · exact hhigh _ (by omega) (by omega) h
          · exact hhigh _ (by omega) (by omega) h
          · exact hhigh _ (by omega) (by omega) h
          · exact hhigh _ (by omega) (by omega) h
  | surrogate offset =>
    exfalso
    have hoffset := offset.isLt
    simp only [bytesOf] at h
    split at h
    · next hescape =>
      rw [CodePoint.isEscape, Bool.and_eq_true, decide_eq_true_eq, decide_eq_true_eq] at hescape
      simp only [CodePoint.toNat, CodePoint.firstSurrogate] at hescape
      have hbyte : UInt8.ofNat offset = UInt8.ofNat (offset % 256) := by
        rw [← UInt8.toNat_inj, UInt8.toNat_ofNat', UInt8.toNat_ofNat', Nat.mod_mod]
      exact hhigh _ (by omega) (by omega) (hbyte ▸ List.mem_singleton.1 h)
    · simp only [List.mem_cons, List.not_mem_nil, or_false] at h
      rcases h with rfl | h | h
      · exact absurd hb (by decide)
      · exact hhigh _ (by omega) (by omega) h
      · exact hhigh _ (by omega) (by omega) h

theorem exists_mem_bytesOf (c : CodePoint) : ∃ b, b ∈ bytesOf c := by
  cases c with
  | char c =>
    unfold bytesOf String.utf8EncodeChar
    simp only
    split
    · exact ⟨_, List.mem_cons_self⟩
    · split
      · exact ⟨_, List.mem_cons_self⟩
      · split <;> exact ⟨_, List.mem_cons_self⟩
  | surrogate offset =>
    unfold bytesOf
    simp only
    split <;> exact ⟨_, List.mem_cons_self⟩

theorem char_mem_of_mem_encode {t : Text} {b : UInt8} (h : b ∈ encode t) (hb : b.toNat < 0x80) :
    CodePoint.ofNat b.toNat ∈ t := by
  obtain ⟨c, hc, hbyte⟩ := List.mem_flatMap.1 h
  rw [← toNat_of_mem_bytesOf hbyte hb, CodePoint.ofNat_toNat]
  exact hc

theorem encode_append (a b : Text) : encode (a ++ b) = encode a ++ encode b :=
  List.flatMap_append

theorem decode_encode {t : Text} (h : t.Plain) : decode (encode t) = .ok t := by
  have hfrom : ∀ start, decodeFrom start (encode t) = .ok t := by
    induction t with
    | nil => exact fun _ => rfl
    | cons c rest ih =>
      intro start
      obtain ⟨hc, hrest⟩ := Text.plain_cons.1 h
      cases c with
      | surrogate offset => cases hc
      | char c =>
        have hshape : encode (.char c :: rest) = String.utf8EncodeChar c ++ encode rest := rfl
        rw [hshape, decodeFrom_char, ih hrest]
        rfl
  exact hfrom 0

theorem decode_encode_text (s : String) : decode (encode s.text) = .ok s.text :=
  decode_encode (Text.plain_text s)

/-! ## What is decoded -/

/-- A character and its bytes. -/
def Spells (c : CodePoint) (bytes : Bytes) : Prop :=
  c.isChar = true ∧ encode [c] = bytes

theorem spells_ofNat {n : Nat} (h : n.isValidChar) : Spells (CodePoint.ofNat n)
    (if n ≤ 0x7F then [UInt8.ofNat n]
    else if n ≤ 0x7FF then [UInt8.ofNat (n / 64 % 32 + 192), UInt8.ofNat (n % 64 + 128)]
    else if n ≤ 0xFFFF then
      [UInt8.ofNat (n / 4096 % 16 + 224), UInt8.ofNat (n / 64 % 64 + 128),
        UInt8.ofNat (n % 64 + 128)]
    else
      [UInt8.ofNat (n / 262144 % 8 + 240), UInt8.ofNat (n / 4096 % 64 + 128),
        UInt8.ofNat (n / 64 % 64 + 128), UInt8.ofNat (n % 64 + 128)]) := by
  obtain ⟨hchar, hvalue⟩ := CodePoint.ofNat_eq_char h
  rw [hchar]
  refine ⟨rfl, ?_⟩
  simp only [encode, bytesOf, List.flatMap_singleton, String.utf8EncodeChar, hvalue]

theorem eq_ofNat {b : UInt8} {n : Nat} (h : n = b.toNat) : UInt8.ofNat n = b := by
  rw [h, UInt8.ofNat_toNat]

/-- What the number of bytes behind it says about a first byte. -/
theorem continuations?_eq_some {b : UInt8} {more : Nat} (h : continuations? b = some more) :
    more = 0 ∧ b.toNat < 0x80 ∨ more = 1 ∧ 0xC2 ≤ b.toNat ∧ b.toNat < 0xE0 ∨
      more = 2 ∧ 0xE0 ≤ b.toNat ∧ b.toNat < 0xF0 ∨ more = 3 ∧ 0xF0 ≤ b.toNat ∧ b.toNat < 0xF5 := by
  rw [← UInt8.ofNat_toNat (x := b), continuations?_ofNat b.toNat_lt] at h
  grind

/-- What a second byte that may stand behind a first one is. -/
theorem isSecond_eq_true {first b : UInt8} (h : isSecond first b = true) :
    0x80 ≤ b.toNat ∧ b.toNat < 0xC0 ∧ (first.toNat = 0xE0 → 0xA0 ≤ b.toNat) ∧
      (first.toNat = 0xF0 → 0x90 ≤ b.toNat) ∧ (first.toNat = 0xED → b.toNat < 0xA0) ∧
      (first.toNat = 0xF4 → b.toNat < 0x90) := by
  have hfirst : ∀ m : UInt8, first = m ↔ first.toNat = m.toNat := fun m => UInt8.toNat_inj.symm
  simp only [isSecond, Bool.and_eq_true, decide_eq_true_eq, hfirst, UInt8.le_iff_toNat_le,
    apply_ite UInt8.toNat, UInt8.reduceToNat] at h
  grind

theorem isContinuation_eq_true {b : UInt8} (h : isContinuation b = true) :
    0x80 ≤ b.toNat ∧ b.toNat < 0xC0 := by
  simp only [isContinuation, Bool.and_eq_true, decide_eq_true_eq, UInt8.le_iff_toNat_le,
    UInt8.reduceToNat] at h
  omega

theorem spells_one {b : UInt8} (h : b.toNat < 0x80) :
    Spells (CodePoint.ofNat b.toNat) [b] := by
  have hspells := spells_ofNat (n := b.toNat) (.inl (by omega))
  rwa [if_pos (by omega), UInt8.ofNat_toNat] at hspells

theorem spells_two {b b₁ : UInt8} (hb : 0xC2 ≤ b.toNat ∧ b.toNat < 0xE0)
    (h₁ : isSecond b b₁ = true) :
    Spells (CodePoint.ofNat (b.toNat % 32 * 64 + payload b₁)) [b, b₁] := by
  obtain ⟨hlow, hhigh, -⟩ := isSecond_eq_true h₁
  unfold payload
  have hspells := spells_ofNat (n := b.toNat % 32 * 64 + b₁.toNat % 64) (.inl (by omega))
  rwa [if_neg (by omega), if_pos (by omega), eq_ofNat (b := b) (by omega),
    eq_ofNat (b := b₁) (by omega)] at hspells

theorem spells_three {b b₁ b₂ : UInt8} (hb : 0xE0 ≤ b.toNat ∧ b.toNat < 0xF0)
    (h₁ : isSecond b b₁ = true) (h₂ : isContinuation b₂ = true) :
    Spells (CodePoint.ofNat ((b.toNat % 16 * 64 + payload b₁) * 64 + payload b₂))
      [b, b₁, b₂] := by
  obtain ⟨hlow, hhigh, hE0, -, hED, -⟩ := isSecond_eq_true h₁
  have hlast := isContinuation_eq_true h₂
  unfold payload
  have hspells := spells_ofNat
    (n := (b.toNat % 16 * 64 + b₁.toNat % 64) * 64 + b₂.toNat % 64)
    (by unfold Nat.isValidChar; omega)
  rwa [if_neg (by omega), if_neg (by omega), if_pos (by omega), eq_ofNat (b := b) (by omega),
    eq_ofNat (b := b₁) (by omega), eq_ofNat (b := b₂) (by omega)] at hspells

theorem spells_four {b b₁ b₂ b₃ : UInt8} (hb : 0xF0 ≤ b.toNat ∧ b.toNat < 0xF5)
    (h₁ : isSecond b b₁ = true) (h₂ : isContinuation b₂ = true)
    (h₃ : isContinuation b₃ = true) :
    Spells (CodePoint.ofNat
        (((b.toNat % 8 * 64 + payload b₁) * 64 + payload b₂) * 64 + payload b₃))
      [b, b₁, b₂, b₃] := by
  obtain ⟨hlow, hhigh, -, hF0, -, hF4⟩ := isSecond_eq_true h₁
  have hthird := isContinuation_eq_true h₂
  have hlast := isContinuation_eq_true h₃
  unfold payload
  have hspells := spells_ofNat
    (n := ((b.toNat % 8 * 64 + b₁.toNat % 64) * 64 + b₂.toNat % 64) * 64 + b₃.toNat % 64)
    (by unfold Nat.isValidChar; omega)
  rwa [if_neg (by omega), if_neg (by omega), if_neg (by omega), eq_ofNat (b := b) (by omega),
    eq_ofNat (b := b₁) (by omega), eq_ofNat (b := b₂) (by omega),
    eq_ofNat (b := b₃) (by omega)] at hspells

theorem Spells.cons {c : CodePoint} {front rest : Bytes} {t : Text} {decoded : Except Fault Text}
    (h : Spells c front) (hdecoded : decoded.map (c :: ·) = .ok t)
    (hrest : ∀ {more : Text}, decoded = .ok more → encode more = rest ∧ more.Plain) :
    encode t = front ++ rest ∧ t.Plain := by
  obtain ⟨more, hmore, rfl⟩ := Outcome.map_eq_ok.1 hdecoded
  obtain ⟨hencode, hplain⟩ := hrest hmore
  exact ⟨by rw [← List.singleton_append, encode_append, h.2, hencode],
    Text.plain_cons.2 ⟨h.1, hplain⟩⟩

/-- What is decoded holds characters only and has the bytes that it was decoded
from. -/
theorem encode_of_decodeFrom {bytes : Bytes} {t : Text} (h : decodeFrom start bytes = .ok t) :
    encode t = bytes ∧ t.Plain := by
  fun_induction decodeFrom start bytes generalizing t with
  | case1 =>
    cases h
    exact ⟨rfl, Text.plain_nil⟩
  | case3 start b rest hcount ih =>
    have hb := continuations?_eq_some hcount
    exact (spells_one (by omega)).cons h ih
  | case6 start b hcount b₁ rest hsecond ih =>
    have hb := continuations?_eq_some hcount
    exact (spells_two (by omega) (by simpa using hsecond)).cons h ih
  | case11 start b hcount b₁ hsecond b₂ rest hthird ih =>
    have hb := continuations?_eq_some hcount
    exact (spells_three (by omega) (by simpa using hsecond) (by simpa using hthird)).cons h ih
  | case18 start b more hzero hone htwo hcount b₁ hsecond b₂ hthird b₃ rest hlast ih =>
    have hb : 0xF0 ≤ b.toNat ∧ b.toNat < 0xF5 := by
      rcases continuations?_eq_some hcount with ⟨h, -⟩ | ⟨h, -⟩ | ⟨h, -⟩ | ⟨-, hb⟩
      · exact (hzero h).elim
      · exact (hone h).elim
      · exact (htwo h).elim
      · exact hb
    exact (spells_four hb (by simpa using hsecond) (by simpa using hthird)
      (by simpa using hlast)).cons h ih
  | _ => cases h

theorem decode_eq_ok {bytes : Bytes} {t : Text} :
    decode bytes = .ok t ↔ t.Plain ∧ bytes = encode t := by
  constructor
  · intro h
    obtain ⟨hencode, hplain⟩ := encode_of_decodeFrom 0 h
    exact ⟨hplain, hencode.symm⟩
  · rintro ⟨hplain, rfl⟩
    exact decode_encode hplain

/-! ## Names -/

theorem character?_eq_some {b : UInt8} {rest : Bytes} {c : CodePoint} {length : Nat} :
    character? (b :: rest) = some (c, length) ↔
      ∃ more, continuations? b = some more ∧ length = more + 1 ∧
        decode ((b :: rest).take (more + 1)) = .ok [c] := by
  rw [character?]
  cases continuations? b with
  | none => simp
  | some more =>
    simp only [Option.some.injEq, exists_eq_left']
    split
    · next d hd =>
      rw [hd]
      simp only [Option.some.injEq, Prod.mk.injEq, Except.ok.injEq, List.cons.injEq, and_true]
      exact ⟨fun h => ⟨h.2.symm, h.1⟩, fun h => ⟨h.2, h.1.symm⟩⟩
    · next hd => exact ⟨nofun, fun h => absurd h.2 (hd c)⟩

/-- Only bytes from `80` on belong to no character. -/
theorem le_of_character?_eq_none {b : UInt8} {rest : Bytes} (h : character? (b :: rest) = none) :
    0x80 ≤ b.toNat := by
  by_contra hlow
  have hcount : continuations? b = some 0 := by
    rw [← UInt8.ofNat_toNat (x := b), continuations?_ofNat b.toNat_lt, if_pos (by omega)]
  have hspells := spells_one (b := b) (by omega)
  have hsome : character? (b :: rest) = some (CodePoint.ofNat b.toNat, 1) := by
    refine character?_eq_some.2 ⟨0, hcount, rfl, decode_eq_ok.2 ⟨?_, ?_⟩⟩
    · exact Text.plain_cons.2 ⟨hspells.1, Text.plain_nil⟩
    · rw [hspells.2]
      rfl
  rw [h] at hsome
  cases hsome

theorem escape_eq (b : UInt8) :
    ∃ offset : Fin 0x800, CodePoint.escape b = .surrogate offset ∧
      offset.val = 0x400 + b.toNat := by
  have hlt := b.toNat_lt
  have hin : CodePoint.firstSurrogate ≤ 0xDC00 + b.toNat ∧
      0xDC00 + b.toNat < CodePoint.firstSurrogate + 0x800 := by
    unfold CodePoint.firstSurrogate
    omega
  refine ⟨⟨0xDC00 + b.toNat - CodePoint.firstSurrogate, by omega⟩, dif_pos hin, ?_⟩
  show 0xDC00 + b.toNat - 0xD800 = 0x400 + b.toNat
  omega

theorem isEscape_escape {b : UInt8} (h : 0x80 ≤ b.toNat) :
    (CodePoint.escape b).isEscape = true := by
  obtain ⟨offset, hescape, hoffset⟩ := escape_eq b
  have hlt := b.toNat_lt
  have hnumber : (CodePoint.surrogate offset).toNat = 0xDC00 + b.toNat := by
    rw [CodePoint.toNat, CodePoint.firstSurrogate, hoffset]
    omega
  rw [hescape, CodePoint.isEscape, hnumber, Bool.and_eq_true, decide_eq_true_eq, decide_eq_true_eq]
  omega

theorem encode_escape {b : UInt8} (h : 0x80 ≤ b.toNat) : encode [.escape b] = [b] := by
  have hescape := isEscape_escape h
  obtain ⟨offset, heq, hoffset⟩ := escape_eq b
  rw [heq] at hescape ⊢
  have hbyte : UInt8.ofNat offset = b := by
    rw [← UInt8.toNat_inj, UInt8.toNat_ofNat', hoffset]
    have := b.toNat_lt
    omega
  rw [encode, List.flatMap_singleton, bytesOf, if_pos hescape, hbyte]

theorem encode_readNameFrom (skip : Nat) (bytes : Bytes) :
    encode (readNameFrom skip bytes) = bytes.drop skip := by
  fun_induction readNameFrom skip bytes with
  | case1 skip => simp [encode]
  | case2 skip b rest ih => exact ih
  | case3 b rest c length hsome ih =>
    obtain ⟨more, -, rfl, hdecode⟩ := character?_eq_some.1 hsome
    rw [← List.singleton_append, encode_append, ← (decode_eq_ok.1 hdecode).2, ih]
    exact List.take_append_drop (more + 1) (b :: rest)
  | case4 b rest hnone ih =>
    rw [← List.singleton_append, encode_append, encode_escape (le_of_character?_eq_none hnone), ih]
    rfl

/-- The text of a name has the bytes of the name. -/
theorem encode_readName (bytes : Bytes) : encode (readName bytes) = bytes :=
  encode_readNameFrom 0 bytes

/-- The text of a name can be written as one. -/
theorem fits_of_mem_readName {bytes : Bytes} {c : CodePoint} (h : c ∈ readName bytes) :
    c.isChar = true ∨ c.isEscape = true := by
  have hfrom : ∀ skip, c ∈ readNameFrom skip bytes → c.isChar = true ∨ c.isEscape = true := by
    clear h
    intro skip hc
    fun_induction readNameFrom skip bytes with
    | case1 skip => cases hc
    | case2 skip b rest ih => exact ih hc
    | case3 b rest d length hsome ih =>
      rcases List.mem_cons.1 hc with rfl | hc
      · obtain ⟨more, -, -, hdecode⟩ := character?_eq_some.1 hsome
        exact .inl ((decode_eq_ok.1 hdecode).1 c List.mem_cons_self)
      · exact ih hc
    | case4 b rest hnone ih =>
      rcases List.mem_cons.1 hc with rfl | hc
      · exact .inr (isEscape_escape (le_of_character?_eq_none hnone))
      · exact ih hc
  exact hfrom 0 h

theorem readNameFrom_eq_drop (skip : Nat) (bytes : Bytes) :
    readNameFrom skip bytes = readName (bytes.drop skip) := by
  induction bytes generalizing skip with
  | nil =>
    cases skip <;> rfl
  | cons b rest ih =>
    cases skip with
    | zero => rfl
    | succ skip => exact ih skip

theorem continuations?_head (c : Char) :
    ∃ b more, String.utf8EncodeChar c = b :: more ∧ continuations? b = some more.length := by
  have hvalid := c.valid
  unfold UInt32.isValidChar Nat.isValidChar at hvalid
  unfold String.utf8EncodeChar
  simp only
  generalize c.val.toNat = v at hvalid
  split
  · exact ⟨_, _, rfl, (continuations?_ofNat (by omega)).trans (if_pos (by omega))⟩
  · split
    · refine ⟨_, _, rfl, (continuations?_ofNat (by omega)).trans ?_⟩
      rw [if_neg (by omega), if_neg (by omega), if_pos (by omega)]
      rfl
    · split
      · refine ⟨_, _, rfl, (continuations?_ofNat (by omega)).trans ?_⟩
        rw [if_neg (by omega), if_neg (by omega), if_neg (by omega), if_pos (by omega)]
        rfl
      · refine ⟨_, _, rfl, (continuations?_ofNat (by omega)).trans ?_⟩
        rw [if_neg (by omega), if_neg (by omega), if_neg (by omega), if_neg (by omega),
          if_pos (by omega)]
        rfl

theorem readName_char (c : Char) (rest : Bytes) :
    readName (String.utf8EncodeChar c ++ rest) = .char c :: readName rest := by
  obtain ⟨b, more, hbytes, hcount⟩ := continuations?_head c
  have htake : (b :: (more ++ rest)).take (more.length + 1) = encode [.char c] := by
    rw [encode, List.flatMap_singleton, bytesOf, hbytes, List.take_succ_cons, List.take_left]
  have hsome : character? (b :: (more ++ rest)) = some (.char c, more.length + 1) :=
    character?_eq_some.2 ⟨_, hcount, rfl, by
      rw [htake]
      exact decode_encode (Text.plain_cons.2 ⟨rfl, Text.plain_nil⟩)⟩
  rw [hbytes, List.cons_append, readName, readNameFrom, hsome]
  simp only [Nat.add_sub_cancel, readNameFrom_eq_drop, List.drop_left]

/-- The name of a plain text is read back as the text. -/
theorem readName_encode {t : Text} (h : t.Plain) : readName (encode t) = t := by
  induction t with
  | nil => rfl
  | cons c rest ih =>
    obtain ⟨hc, hrest⟩ := Text.plain_cons.1 h
    cases c with
    | surrogate offset => cases hc
    | char c =>
      have hshape : encode (.char c :: rest) = String.utf8EncodeChar c ++ encode rest := rfl
      rw [hshape, readName_char, ih hrest]

/-! ## What cannot be written -/

theorem unencodable?_eq_none {fits : CodePoint → Bool} {t : Text} :
    unencodable? fits start t = none ↔ ∀ c ∈ t, fits c = true := by
  induction t generalizing start with
  | nil => simp [unencodable?]
  | cons c rest ih =>
    rw [unencodable?, List.forall_mem_cons]
    cases hc : fits c with
    | false => simp
    | true => simpa using ih (start + 1)

theorem encodeStrict_eq_ok {t : Text} {data : Bytes} :
    encodeStrict t = .ok data ↔ t.Plain ∧ data = encode t := by
  rw [encodeStrict]
  split
  · next fault hfault =>
    have hplain : ¬t.Plain := fun hplain => by
      rw [(unencodable?_eq_none 0).2 hplain] at hfault
      cases hfault
    simp [hplain]
  · next hnone =>
    have hplain : t.Plain := (unencodable?_eq_none 0).1 hnone
    simp [hplain, eq_comm]

theorem encodeStrict_of_plain {t : Text} (h : t.Plain) : encodeStrict t = .ok (encode t) :=
  encodeStrict_eq_ok.2 ⟨h, rfl⟩

end Utf8
end SchemaLedger
