import ExecutionNode.Image.Basic

/-!
# Images in memory and in files

Whatever an image is made from, its size is checked, so the register that counts its words never
counts below one. Its bytes and its words determine each other.
-/

namespace ExecutionNode.Image

/-! ## Words -/

theorem ofWords_eq_ok_iff {words : List Word} {i : Image} :
    ofWords words = .ok i ↔ i.words = words := by
  constructor
  · exact words_of_ofWords
  · rintro rfl
    exact ofWords_words i

theorem exists_ofWords_iff {words : List Word} :
    (∃ i, ofWords words = .ok i) ↔ 1 ≤ words.length ∧ words.length ≤ slotCount := by
  constructor
  · rintro ⟨i, hi⟩
    rw [← words_of_ofWords hi]
    exact ⟨i.length_pos, i.length_le⟩
  · rintro ⟨hpos, hle⟩
    exact ⟨⟨words, hpos, hle⟩, ofWords_eq_ok_iff.mpr rfl⟩

theorem ofWords_eq_error_iff {words : List Word} {e : ImageError} :
    ofWords words = .error e ↔ words.length = 0 ∧ e = .empty ∨
      slotCount < words.length ∧ e = .tooLarge words.length := by
  unfold ofWords
  by_cases hpos : 0 < words.length
  · by_cases hle : words.length ≤ slotCount
    · simp [hpos, hle, Nat.ne_of_gt hpos, Nat.not_lt_of_le hle]
    · simp [hpos, hle, Nat.ne_of_gt hpos, Nat.lt_of_not_le hle, eq_comm]
  · have hzero : words.length = 0 := by omega
    simp [hzero, eq_comm]

/-- The register holds the number of words less one. -/
structure Counted (i : Image) : Prop where
  words : 1 ≤ i.words.length ∧ i.words.length ≤ 16
  /-- The number of words is not cut, and 1 can be taken from it. -/
  no_underflow : (BitVec.ofNat 16 i.length).toNat = i.length ∧ 1#16 ≤ BitVec.ofNat 16 i.length
  /-- The mask takes nothing away. -/
  config_eq : i.config = BitVec.ofNat 16 i.length - 1#16
  config_toNat : i.config.toNat = i.length - 1

theorem counted (i : Image) : i.Counted := by
  have hpos : 1 ≤ i.length := i.length_pos
  have hle : i.length ≤ 16 := i.length_le
  have hcount : (BitVec.ofNat 16 i.length).toNat = i.length := by
    rw [BitVec.toNat_ofNat]
    omega
  have hconfig : i.config.toNat = i.length - 1 := by
    have hmask : (BitVec.ofNat 16 (i.length - 1)).toNat = i.length - 1 := by
      rw [BitVec.toNat_ofNat]
      omega
    rw [config, BitVec.toNat_and, hmask]
    exact (Nat.and_two_pow_sub_one_eq_mod _ 4).trans (Nat.mod_eq_of_lt (by omega))
  refine ⟨⟨i.length_pos, i.length_le⟩, ⟨hcount, ?_⟩, ?_, hconfig⟩
  · rw [BitVec.le_def, hcount]
    exact hpos
  · apply BitVec.eq_of_toNat_eq
    rw [hconfig, BitVec.toNat_sub_of_le, hcount]
    · rfl
    · rw [BitVec.le_def, hcount]
      exact hpos

/-! ## Bytes -/

theorem length_flatMap_bytes (words : List Word) :
    (words.flatMap Word.bytes).length = 2 * words.length := by
  have hbytes : ∀ w : Word, w.bytes.length = 2 := fun _ => rfl
  rw [List.length_flatMap, List.map_congr_left fun w _ => hbytes w, List.map_const',
    List.sum_replicate_nat, Nat.mul_comm]

theorem length_bytes (i : Image) : i.bytes.length = 2 * i.length := length_flatMap_bytes i.words

theorem length_pairs : (bytes : List UInt8) → (pairs bytes).length = bytes.length / 2
  | [] => rfl
  | [_] => by simp [pairs]
  | low :: high :: rest => by
    have ih := length_pairs rest
    simp only [pairs, List.length_cons, ih]
    omega

theorem flatMap_bytes_pairs :
    (bytes : List UInt8) → bytes.length % 2 = 0 → (pairs bytes).flatMap Word.bytes = bytes
  | [], _ => rfl
  | [_], h => absurd h (by decide : 1 % 2 ≠ 0)
  | low :: high :: rest, h => by
    have hrest : rest.length % 2 = 0 := by
      simp only [List.length_cons] at h
      omega
    have ih := flatMap_bytes_pairs rest hrest
    simp [pairs, Word.bytes, ih]

theorem ofBytes_bytes (i : Image) : ofBytes i.bytes = .ok i := by
  have heven : i.bytes.length % 2 = 0 := by rw [length_bytes, Nat.mul_mod_right]
  rw [ofBytes, if_pos heven, bytes, pairs_flatMap_bytes, ofWords_words]

theorem ofBytes_eq_ok_iff {bytes : List UInt8} {i : Image} :
    ofBytes bytes = .ok i ↔ i.bytes = bytes := by
  constructor
  · intro h
    unfold ofBytes at h
    split at h
    · next heven => rw [Image.bytes, words_of_ofWords h, flatMap_bytes_pairs bytes heven]
    · cases h
  · rintro rfl
    exact ofBytes_bytes i

theorem exists_ofBytes_iff {bytes : List UInt8} :
    (∃ i, ofBytes bytes = .ok i) ↔
      bytes.length % 2 = 0 ∧ 2 ≤ bytes.length ∧ bytes.length ≤ 32 := by
  unfold ofBytes
  split
  · next heven =>
    rw [exists_ofWords_iff, length_pairs, slotCount]
    omega
  · next hodd => simp [hodd]

/-- The bytes that are refused, and why. -/
inductive Refused (bytes : List UInt8) : ImageError → Prop
  | odd (h : bytes.length % 2 = 1) : Refused bytes (.oddLength bytes.length)
  | empty (h : bytes.length = 0) : Refused bytes .empty
  | large (heven : bytes.length % 2 = 0) (h : 32 < bytes.length) :
    Refused bytes (.tooLarge (bytes.length / 2))

theorem ofBytes_eq_error_iff {bytes : List UInt8} {e : ImageError} :
    ofBytes bytes = .error e ↔ Refused bytes e := by
  unfold ofBytes
  by_cases heven : bytes.length % 2 = 0
  · rw [if_pos heven, ofWords_eq_error_iff, length_pairs, slotCount]
    constructor
    · rintro (⟨hzero, rfl⟩ | ⟨hlarge, rfl⟩)
      · exact .empty (by omega)
      · exact .large heven (by omega)
    · rintro (hodd | hzero | ⟨-, hlarge⟩)
      · omega
      · exact .inl ⟨by omega, rfl⟩
      · exact .inr ⟨by omega, rfl⟩
  · rw [if_neg heven]
    constructor
    · rintro ⟨⟩
      exact .odd (by omega)
    · rintro (_ | hzero | ⟨heven', -⟩)
      · rfl
      · omega
      · exact absurd heven' heven

/-- **An image is what its bytes say.** Every way to make an image checks the number of words. An
image is read back from its bytes, bytes that give an image are the bytes of that image, and an odd
number of bytes is refused as odd however large it is. -/
theorem stored_as_bytes :
    (∀ i : Image, i.Counted) ∧
    (∀ words i, ofWords words = .ok i ↔ i.words = words) ∧
    (∀ words, (∃ i, ofWords words = .ok i) ↔ 1 ≤ words.length ∧ words.length ≤ 16) ∧
    (∀ raw i, ofRaw raw = .ok i ↔ i.words = raw.words) ∧
    (∀ bytes i, ofBytes bytes = .ok i ↔ i.bytes = bytes) ∧
    (∀ bytes, (∃ i, ofBytes bytes = .ok i) ↔
      bytes.length % 2 = 0 ∧ 2 ≤ bytes.length ∧ bytes.length ≤ 32) ∧
    ∀ bytes e, ofBytes bytes = .error e ↔ Refused bytes e :=
  ⟨counted, fun _ _ => ofWords_eq_ok_iff, fun _ => exists_ofWords_iff, fun _ _ => ofWords_eq_ok_iff,
    fun _ _ => ofBytes_eq_ok_iff, fun _ => exists_ofBytes_iff, fun _ _ => ofBytes_eq_error_iff⟩

example : ofBytes (List.replicate 35 0) = .error (.oddLength 35) := by rfl

end ExecutionNode.Image
