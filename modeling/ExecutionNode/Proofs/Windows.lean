import ExecutionNode.Image.Window
import ExecutionNode.Listing
import ExecutionNode.Proofs.Storage
import Mathlib.Tactic.IntervalCases

/-!
# Windows of stored images

A window is cut from a file by two slices, each taken after a check that it lies in range, so sizes
of 64 bits suffice for it and nothing is cut short. Pairs of bytes are words, so an even window of
a stored image is a part of that image, and is listed as that part.
-/

namespace ExecutionNode

namespace Window

/-! ## The bytes in a window -/

/-- The window lies in the file. -/
structure Fits (window : Window) (file : List UInt8) : Prop where
  skip_le : window.skip ≤ file.length
  length_le : ∀ n ∈ window.length, n ≤ file.length - window.skip

/-- The positions of a file that a window looks at. -/
def Covers (window : Window) (k : Nat) : Prop :=
  window.skip ≤ k ∧ ∀ n ∈ window.length, k < window.skip + n

/-- What is in a window: bytes that others may stand around. -/
inductive Holds : Window → List UInt8 → List UInt8 → Prop
  | rest (before bytes : List UInt8) : Holds ⟨before.length, none⟩ (before ++ bytes) bytes
  | part (before bytes after : List UInt8) :
    Holds ⟨before.length, some bytes.length⟩ (before ++ bytes ++ after) bytes

theorem take_of_holds {window : Window} {file bytes : List UInt8}
    (h : window.Holds file bytes) : window.take file = .ok bytes := by
  cases h with
  | rest before => simp [take]
  | part before bytes after =>
    have hrest : (before ++ bytes ++ after).drop before.length = bytes ++ after := by simp
    rw [take, if_neg (by simp)]
    dsimp only
    rw [hrest, if_neg (by simp), List.take_left]

theorem exists_holds {window : Window} {file : List UInt8} (h : window.Fits file) :
    ∃ bytes, window.Holds file bytes := by
  obtain ⟨skip, length⟩ := window
  obtain ⟨hskip, hlength⟩ := h
  have hbefore : (file.take skip).length = skip := List.length_take_of_le hskip
  cases length with
  | none =>
    have hrest := Holds.rest (file.take skip) (file.drop skip)
    rw [hbefore, List.take_append_drop] at hrest
    exact ⟨_, hrest⟩
  | some n =>
    have hbytes : ((file.drop skip).take n).length = n :=
      List.length_take_of_le (by simpa using hlength n rfl)
    have hpart := Holds.part (file.take skip) ((file.drop skip).take n) ((file.drop skip).drop n)
    rw [hbefore, hbytes, List.append_assoc, List.take_append_drop, List.take_append_drop] at hpart
    exact ⟨_, hpart⟩

theorem getElem?_of_holds {window : Window} {file bytes : List UInt8}
    (h : window.Holds file bytes) (k : Nat) :
    (window.Covers (window.skip + k) → bytes[k]? = file[window.skip + k]?) ∧
      (¬ window.Covers (window.skip + k) → bytes[k]? = none) := by
  cases h with
  | rest before => simp [Covers, List.getElem?_append_right]
  | part before bytes after =>
    constructor
    · rintro ⟨-, hlt⟩
      have hk : k < bytes.length := by simpa using hlt
      simp [List.getElem?_append_right, List.getElem?_append_left hk]
    · intro hover
      simpa [Covers] using hover

theorem holds_unique {window : Window} {file file' bytes bytes' : List UInt8}
    (h : window.Holds file bytes) (h' : window.Holds file' bytes')
    (hagree : ∀ k, window.Covers k → file[k]? = file'[k]?) : bytes = bytes' := by
  apply List.ext_getElem?
  intro k
  by_cases hk : window.Covers (window.skip + k)
  · rw [(getElem?_of_holds h k).1 hk, (getElem?_of_holds h' k).1 hk, hagree _ hk]
  · rw [(getElem?_of_holds h k).2 hk, (getElem?_of_holds h' k).2 hk]

/-! ## Loading and its messages -/

theorem load_of_holds {window : Window} {file bytes : List UInt8} (h : window.Holds file bytes) :
    window.load file = (Image.ofBytes bytes).mapError .image := by
  rw [load, take_of_holds h]

theorem load_cases (window : Window) (file : List UInt8) :
    file.length < window.skip ∧ window.load file = .error .skipTooLarge ∨
    window.skip ≤ file.length ∧ (∃ n ∈ window.length, file.length - window.skip < n) ∧
      window.load file = .error .lengthTooLarge ∨
    window.Fits file ∧ ∃ bytes, window.Holds file bytes ∧
      window.load file = (Image.ofBytes bytes).mapError .image := by
  by_cases hskip : window.skip ≤ file.length
  · right
    by_cases hlength : ∃ n ∈ window.length, file.length - window.skip < n
    · obtain ⟨n, hn, hlong⟩ := hlength
      refine .inl ⟨hskip, ⟨n, hn, hlong⟩, ?_⟩
      simp [load, take, Nat.not_lt.mpr hskip, Option.mem_def.mp hn, hlong]
    · have hfits : window.Fits file :=
        ⟨hskip, fun n hn => Nat.le_of_not_lt fun hlong => hlength ⟨n, hn, hlong⟩⟩
      obtain ⟨bytes, hbytes⟩ := exists_holds hfits
      exact .inr ⟨hfits, bytes, hbytes, load_of_holds hbytes⟩
  · have hlarge := Nat.lt_of_not_le hskip
    exact .inl ⟨hlarge, by simp [load, take, hlarge]⟩

end Window

theorem ImageError.dash_notMem_message (e : ImageError) : '-' ∉ e.message := by
  have hdecimal : ∀ n, '-' ∉ Numeral.decimal n := fun n h =>
    absurd (Numeral.isDigit_of_mem_decimal h) (by decide)
  intro h
  cases e with
  | empty => exact absurd h (by decide)
  | tooLarge count =>
    rcases List.mem_append.mp h with h | h
    · rcases List.mem_append.mp h with h | h
      · rcases List.mem_append.mp h with h | h
        · exact hdecimal count h
        · exact absurd h (by decide)
      · exact hdecimal slotCount h
    · exact absurd h (by decide)
  | oddLength length =>
    rcases List.mem_append.mp h with h | h
    · rcases List.mem_append.mp h with h | h
      · exact absurd h (by decide)
      · exact hdecimal length h
    · exact absurd h (by decide)

theorem LoadError.eq_of_failure {e e' : LoadError} (he : e = .skipTooLarge ∨ e = .lengthTooLarge)
    (h : e'.failure = e.failure) : e' = e := by
  cases e' with
  | missingFile path => rcases he with rfl | rfl <;> cases congrArg Failure.cause h
  | image cause =>
    -- The messages about windows name options, and options are written with dashes.
    have hdash : '-' ∈ e.failure.message := by rcases he with rfl | rfl <;> decide
    have htext : cause.message = e.failure.message := congrArg Failure.message h
    exact absurd (htext ▸ hdash) cause.dash_notMem_message
  | skipTooLarge =>
    rcases he with rfl | rfl
    · rfl
    · exact absurd h (by decide)
  | lengthTooLarge =>
    rcases he with rfl | rfl
    · exact absurd h (by decide)
    · rfl

namespace Window

/-- The loader gives up with a message and no cause. -/
def Refuses (window : Window) (path : Text) (file : List UInt8) (message : Text) : Prop :=
  ∃ e, window.loadFile path (some file) = .error e ∧ e.failure = { message := message }

theorem refuses_iff {window : Window} {file : List UInt8} {e : LoadError} {message : Text}
    (he : e = .skipTooLarge ∨ e = .lengthTooLarge) (hmessage : e.failure = { message := message })
    (path : Text) : window.Refuses path file message ↔ window.load file = .error e := by
  constructor
  · rintro ⟨e', hload, hfailure⟩
    rw [← LoadError.eq_of_failure he (hfailure.trans hmessage.symm)]
    exact hload
  · exact fun hload => ⟨e, hload, hmessage⟩

theorem load_eq_skipTooLarge_iff {window : Window} {file : List UInt8} :
    window.load file = .error .skipTooLarge ↔ file.length < window.skip := by
  rcases load_cases window file with ⟨hlarge, hload⟩ | ⟨hskip, -, hload⟩ | ⟨hfits, bytes, -, hload⟩
  · simp [hload, hlarge]
  · simp [hload, hskip]
  · have hskip := hfits.skip_le
    rw [hload]
    cases Image.ofBytes bytes <;> simp [Except.mapError, hskip]

theorem load_eq_lengthTooLarge_iff {window : Window} {file : List UInt8} :
    window.load file = .error .lengthTooLarge ↔
      window.skip ≤ file.length ∧ ∃ n ∈ window.length, file.length - window.skip < n := by
  rcases load_cases window file with
    ⟨hlarge, hload⟩ | ⟨hskip, hlong, hload⟩ | ⟨hfits, bytes, -, hload⟩
  · exact iff_of_false (by simp [hload]) fun h => Nat.not_lt.mpr h.1 hlarge
  · exact iff_of_true hload ⟨hskip, hlong⟩
  · refine iff_of_false ?_ fun ⟨_, n, hn, hlong⟩ => Nat.not_lt.mpr (hfits.length_le n hn) hlong
    rw [hload]
    cases Image.ofBytes bytes <;> simp [Except.mapError]

/-- What the loader makes of a window of a file. -/
structure Loads (window : Window) (path : Text) (file : List UInt8) : Prop where
  skip : window.Refuses path file "--skip exceeds file size".toList ↔ file.length < window.skip
  length : window.Refuses path file "--len exceeds remaining file size after skip".toList ↔
    window.skip ≤ file.length ∧ ∃ n ∈ window.length, file.length - window.skip < n
  image : window.Fits file → ∃ bytes, window.Holds file bytes ∧
    window.loadFile path (some file) = (Image.ofBytes bytes).mapError .image

theorem loads (window : Window) (path : Text) (file : List UInt8) : window.Loads path file := by
  refine ⟨(refuses_iff (.inl rfl) rfl path).trans load_eq_skipTooLarge_iff,
    (refuses_iff (.inr rfl) rfl path).trans load_eq_lengthTooLarge_iff, ?_⟩
  intro hfits
  obtain ⟨bytes, hbytes⟩ := exists_holds hfits
  exact ⟨bytes, hbytes, load_of_holds hbytes⟩

theorem load_congr {window : Window} {file file' : List UInt8} (h : window.Fits file)
    (h' : window.Fits file') (hagree : ∀ k, window.Covers k → file[k]? = file'[k]?) :
    window.load file = window.load file' := by
  obtain ⟨bytes, hbytes⟩ := exists_holds h
  obtain ⟨bytes', hbytes'⟩ := exists_holds h'
  rw [load_of_holds hbytes, load_of_holds hbytes', holds_unique hbytes hbytes' hagree]

/-! ## Sizes of 64 bits -/

/-- The bytes from a position on. There is nothing if the position is out of range. -/
def sliceFrom? (bytes : List UInt8) (start : BitVec 64) : Option (List UInt8) :=
  if start.toNat ≤ bytes.length then some (bytes.drop start.toNat) else none

/-- The bytes before a position. There is nothing if the position is out of range. -/
def sliceTo? (bytes : List UInt8) (stop : BitVec 64) : Option (List UInt8) :=
  if stop.toNat ≤ bytes.length then some (bytes.take stop.toNat) else none

/-- A window cut out by these slices, with sizes that are compared as words of 64 bits. -/
def cut? (skip : BitVec 64) (length : Option (BitVec 64)) (file : List UInt8) :
    Option (Except LoadError (List UInt8)) :=
  if BitVec.ofNat 64 file.length < skip then some (.error .skipTooLarge)
  else (sliceFrom? file skip).bind fun rest =>
    match length with
    | none => some (.ok rest)
    | some n =>
      if BitVec.ofNat 64 rest.length < n then some (.error .lengthTooLarge)
      else (sliceTo? rest n).map .ok

/-- **No slice is out of range.** The checks come before the slices, and no size is beyond its
word. -/
theorem cut?_eq {file : List UInt8} (hfile : file.length < 2 ^ 64) (skip : BitVec 64)
    (length : Option (BitVec 64)) :
    cut? skip length file = some (take ⟨skip.toNat, length.map BitVec.toNat⟩ file) := by
  -- No size in sight is beyond the size of the file, so words compare as their numbers do.
  have hsize : ∀ bytes : List UInt8, bytes.length ≤ file.length → ∀ n : BitVec 64,
      BitVec.ofNat 64 bytes.length < n ↔ bytes.length < n.toNat := by
    intro bytes hle n
    rw [BitVec.lt_def, BitVec.toNat_ofNat, Nat.mod_eq_of_lt (Nat.lt_of_le_of_lt hle hfile)]
  by_cases hskip : file.length < skip.toNat
  · rw [cut?, take, if_pos ((hsize file (Nat.le_refl _) skip).mpr hskip), if_pos hskip]
  · have hrest : (file.drop skip.toNat).length ≤ file.length := by simp
    rw [cut?, take, if_neg (mt (hsize file (Nat.le_refl _) skip).mp hskip), if_neg hskip,
      sliceFrom?, if_pos (Nat.le_of_not_lt hskip), Option.bind_some]
    cases length with
    | none => rfl
    | some n =>
      dsimp only [Option.map_some]
      by_cases hn : (file.drop skip.toNat).length < n.toNat
      · rw [if_pos ((hsize _ hrest n).mpr hn), if_pos hn]
      · rw [if_neg (mt (hsize _ hrest n).mp hn), if_neg hn, sliceTo?,
          if_pos (Nat.le_of_not_lt hn), Option.map_some]

end Window

/-! ## Parts of an image -/

namespace Image

theorem length_take_drop {i : Image} {first count : Nat} (hle : first + count ≤ i.length) :
    ((i.words.drop first).take count).length = count := by
  apply List.length_take_of_le
  rw [List.length_drop]
  exact Nat.le_sub_of_add_le' hle

/-- The image of `count` words, the first of them at `first`. -/
def part (i : Image) (first count : Nat) (hpos : 1 ≤ count) (hle : first + count ≤ i.length) :
    Image where
  words := (i.words.drop first).take count
  length_pos := by
    rw [length_take_drop hle]
    exact hpos
  length_le := by
    rw [length_take_drop hle]
    exact Nat.le_trans (Nat.le_of_add_left_le hle) i.length_le

/-- The image has these words of another one, and they are listed as they are there but for their
slots. -/
structure PartOf (i whole : Image) (first count : Nat) : Prop where
  length : i.length = count ∧ (Listing.ofImage i).entries.length = count
  words : ∀ k < count, i.words[k]? = whole.words[first + k]?
  entries : ∀ k < count, ∃ e, (Listing.ofImage whole).entries[first + k]? = some e ∧
    (Listing.ofImage i).entries[k]? = some { e with slot := k }

section Part

variable {i : Image} {first count : Nat} (hpos : 1 ≤ count) (hle : first + count ≤ i.length)

include hpos hle

theorem partOf_part : (i.part first count hpos hle).PartOf i first count := by
  have hlength : (i.part first count hpos hle).length = count := length_take_drop hle
  have hwords : ∀ k < count, (i.part first count hpos hle).words[k]? = i.words[first + k]? := by
    intro k hk
    rw [part, List.getElem?_take_of_lt hk, List.getElem?_drop]
  refine ⟨⟨hlength, by rw [Listing.length_entries, hlength]⟩, hwords, ?_⟩
  intro k hk
  obtain ⟨w, hw⟩ : ∃ w, i.words[first + k]? = some w :=
    ⟨_, List.getElem?_eq_getElem (Nat.lt_of_lt_of_le (Nat.add_lt_add_left hk first) hle)⟩
  refine ⟨.ofWord (first + k) w, ?_, ?_⟩
  · rw [Listing.getElem?_entries, hw, Option.map_some]
  · rw [Listing.getElem?_entries, hwords k hk, hw, Option.map_some]
    rfl

theorem load_part :
    Window.load ⟨2 * first, some (2 * count)⟩ i.bytes = .ok (i.part first count hpos hle) := by
  have hbefore : ((i.words.take first).flatMap Word.bytes).length = 2 * first := by
    rw [length_flatMap_bytes, List.length_take_of_le (Nat.le_of_add_right_le hle)]
  have hpart : (i.part first count hpos hle).bytes.length = 2 * count := by
    rw [length_bytes, (partOf_part hpos hle).length.1]
  have hbytes : i.bytes = (i.words.take first).flatMap Word.bytes ++
      (i.part first count hpos hle).bytes ++
      ((i.words.drop first).drop count).flatMap Word.bytes := by
    rw [bytes, bytes, part, List.append_assoc, ← List.flatMap_append, List.take_append_drop,
      ← List.flatMap_append, List.take_append_drop]
  have hholds := Window.Holds.part ((i.words.take first).flatMap Word.bytes)
    (i.part first count hpos hle).bytes (((i.words.drop first).drop count).flatMap Word.bytes)
  rw [hbefore, hpart, ← hbytes] at hholds
  rw [Window.load_of_holds hholds, ofBytes_bytes]
  rfl

end Part

end Image

namespace Window

/-- **Windows of a file.** No slice is out of range for sizes of 64 bits. The loader says whether
the start or the length of a window is beyond the file, and otherwise reads just the bytes in the
window. So the other bytes do not matter, and an even window of an image is a part of it. -/
theorem windows_of_file :
    (∀ (skip : BitVec 64) (length : Option (BitVec 64)) (file : List UInt8),
      file.length < 2 ^ 64 →
      cut? skip length file = some (take ⟨skip.toNat, length.map BitVec.toNat⟩ file)) ∧
    (∀ (window : Window) (path : Text) (file : List UInt8), window.Loads path file) ∧
    (∀ (window : Window) (file file' : List UInt8), window.Fits file → window.Fits file' →
      (∀ k, window.Covers k → file[k]? = file'[k]?) →
      ∀ path path', window.loadFile path (some file) = window.loadFile path' (some file')) ∧
    ∀ (img : Image) (first count : Nat), 1 ≤ count → first + count ≤ img.length → ∀ path,
      ∃ part : Image, loadFile ⟨2 * first, some (2 * count)⟩ path (some img.bytes) = .ok part ∧
        part.PartOf img first count := by
  refine ⟨fun skip length file hfile => cut?_eq hfile skip length, loads, ?_, ?_⟩
  · intro window file file' h h' hagree path path'
    exact load_congr h h' hagree
  · intro img first count hpos hle path
    exact ⟨img.part first count hpos hle, Image.load_part hpos hle, Image.partOf_part hpos hle⟩

theorem windows_of_file_header :
    let window : Window := ⟨2, some 4⟩
    let file : List UInt8 := [0xFF, 0xFF, 0x02, 0xD8, 0xA5, 0x01, 0x00, 0x48]
    let other : List UInt8 := [0x00, 0x01, 0x02, 0xD8, 0xA5, 0x01]
    let img : Image := ⟨[0xD802#16, 0x01A5#16, 0x4800#16], by decide, by decide⟩
    (file.length < 2 ^ 64 ∧ cut? 2#64 (some 4#64) file = some (take window file)) ∧
    (window.Fits file ∧ window.Fits other ∧ (∀ k, window.Covers k → file[k]? = other[k]?) ∧
      window.loadFile "a".toList (some file) = window.loadFile "b".toList (some other)) ∧
    (1 ≤ 2 ∧ 1 + 2 ≤ img.length ∧ ∃ part : Image,
      loadFile ⟨2 * 1, some (2 * 2)⟩ "c".toList (some img.bytes) = .ok part ∧
        part.PartOf img 1 2) := by
  intro window file other img
  obtain ⟨hcut, -, hcongr, hpart⟩ := windows_of_file
  have hfile : window.Fits file := ⟨by decide, by rintro _ ⟨⟩; decide⟩
  have hother : window.Fits other := ⟨by decide, by rintro _ ⟨⟩; decide⟩
  have hagree : ∀ k, window.Covers k → file[k]? = other[k]? := by
    rintro k ⟨hlow, hhigh⟩
    have hhigh : k < 6 := hhigh 4 rfl
    have hlow : 2 ≤ k := hlow
    interval_cases k <;> rfl
  exact ⟨⟨by decide, hcut 2#64 (some 4#64) file (by decide)⟩,
    ⟨hfile, hother, hagree, hcongr window file other hfile hother hagree _ _⟩,
    by decide, by decide, hpart img 1 2 (by decide) (by decide) _⟩

end Window

end ExecutionNode
