import ExecutionNode.Proofs.Marks
import ExecutionNode.Proofs.Storage

/-!
# Columns of a listing

A line of a listing has its slot in four columns and the bytes of its word, if they are shown, in
seven more. Nothing that is printed ends a line, so the columns can be cut out again: the bytes in
them are those of the image, and what is left is the listing without bytes.
-/

namespace ExecutionNode

/-! ## Entries of a report -/

namespace Entry

def text? (e : Entry) : Option Text := e.text.toOption

def error? (e : Entry) : Option Text :=
  match e.text with
  | .ok _ => none
  | .error error => some error.message

theorem json_eq (e : Entry) :
    e.json = .object (("slot".toList, .number e.slot) :: ("word".toList, .number e.word.toNat) ::
      ((e.text?.map fun t => ("text".toList, .string t)).toList ++
        (e.error?.map fun t => ("error".toList, .string t)).toList)) := by
  obtain ⟨slot, w, text⟩ := e
  cases text <;> rfl

/-- What an entry says of the word at a slot, and what the document of a report has of it. -/
structure Reports (e : Entry) (slot : Nat) (w : Word) : Prop where
  slot_eq : e.slot = slot
  word_eq : e.word = w
  text : ∀ t, e.text? = some t ↔ w.disassemble = .ok t
  error : ∀ t, e.error? = some t ↔ ∃ error, w.decode = .error error ∧ t = error.message
  one : e.text?.isSome ↔ ¬ e.error?.isSome
  decodes : e.text?.isSome ↔ ∃ i, w.decode = .ok i
  document : e.json =
    .object (("slot".toList, .number slot) :: ("word".toList, .number w.toNat) ::
      ((e.text?.map fun t => ("text".toList, .string t)).toList ++
        (e.error?.map fun t => ("error".toList, .string t)).toList))

theorem reports_ofWord (slot : Nat) (w : Word) : (ofWord slot w).Reports slot w := by
  cases h : w.decode with
  | ok i =>
    have htext : (ofWord slot w).text = .ok i.render := Word.disassemble_of_decode h
    refine ⟨rfl, rfl, ?_, ?_, ?_, ?_, json_eq _⟩ <;>
      simp [text?, error?, htext, h, Word.disassemble_of_decode h, Except.toOption]
  | error e =>
    have hw := Word.disassemble_of_error h
    have htext : (ofWord slot w).text = .error e := hw
    refine ⟨rfl, rfl, ?_, ?_, ?_, ?_, json_eq _⟩ <;>
      simp [text?, error?, htext, h, hw, Except.toOption, eq_comm]

/-! ## Columns of a line -/

theorem length_label {slot : Nat} (h : slot < 100) : (label slot).length = 4 := by
  have hdigits : (Numeral.decimal slot).length ≤ 2 :=
    Numeral.length_decimal_le (Nat.le_of_lt_succ h)
  have hcolon : ": ".toList.length = 2 := rfl
  rw [label, List.length_append, List.length_append, List.length_replicate]
  omega

theorem byteColumn_eq (w : Word) :
    byteColumn w = Numeral.hexadecimal 2 w.lowByte.toNat ++ ' ' ::
      (Numeral.hexadecimal 2 w.highByte.toNat ++ "  ".toList) := by
  simp [byteColumn, Word.bytes]

theorem length_byteColumn (w : Word) : (byteColumn w).length = 7 := by
  simp [byteColumn_eq]

end Entry

namespace Text

/-- The columns of a line in which the bytes are shown. -/
def byteColumns (line : Text) : Text := (line.drop 4).take 7

def withoutBytes (line : Text) : Text := line.take 4 ++ line.drop 11

end Text

namespace Entry

section Row

variable {slot : Nat} (h : slot < 100) (w : Word)

include h

theorem take_row (showBytes : Bool) : (row showBytes slot w).take 4 = label slot := by
  rw [row, List.append_assoc, ← length_label h, List.take_left]

theorem byteColumns_row : Text.byteColumns (row true slot w) = byteColumn w := by
  rw [Text.byteColumns, row, if_pos rfl, List.append_assoc, ← length_label h, List.drop_left,
    ← length_byteColumn w, List.take_left]

theorem drop_row (showBytes : Bool) :
    (row showBytes slot w).drop (if showBytes then 11 else 4) = (ofWord slot w).content := by
  have hcolumns : (label slot ++ if showBytes then byteColumn w else []).length =
      if showBytes then 11 else 4 := by
    cases showBytes <;> simp [length_label h, length_byteColumn]
  rw [← hcolumns, row, List.drop_left]

theorem withoutBytes_row : Text.withoutBytes (row true slot w) = row false slot w := by
  have hrest : (row true slot w).drop 11 = (ofWord slot w).content := drop_row h w true
  rw [Text.withoutBytes, take_row h, hrest, row_false, line]

end Row

theorem mark_row_iff (showBytes : Bool) (slot : Nat) (w : Word) :
    "<invalid>".toList <:+: row showBytes slot w ↔ (ofWord slot w).error?.isSome := by
  cases h : w.decode with
  | ok i =>
    have hangle : '<' ∉ row showBytes slot w := fun hmem =>
      angle_notMem_render h slot showBytes (List.mem_append_left _ hmem)
    have htext := (reports_ofWord slot w).decodes.mpr ⟨i, h⟩
    exact iff_of_false (mark_absent hangle) ((reports_ofWord slot w).one.mp htext)
  | error e =>
    have herror := ((reports_ofWord slot w).error _).mpr ⟨e, h, rfl⟩
    refine iff_of_true ?_ (by rw [herror]; rfl)
    rw [row, content_of_error h]
    exact ⟨_, ' ' :: w.hex, by rw [List.append_assoc]⟩

end Entry

/-! ## Reading the bytes -/

namespace Text

def hexDigits : Text := "0123456789abcdef".toList

/-- The byte of two digits in lower case. -/
def readByte? : Text → Option UInt8
  | [high, low] => do
    let high ← hexDigits.idxOf? high
    let low ← hexDigits.idxOf? low
    some (.ofNat (16 * high + low))
  | _ => none

def readBytes (t : Text) : List UInt8 := (tokens t).filterMap readByte?

theorem idxOf?_digitChar : ∀ d < 16, hexDigits.idxOf? d.digitChar = some d := by decide

theorem readByte?_hexadecimal (b : UInt8) :
    readByte? (Numeral.hexadecimal 2 b.toNat) = some b := by
  have hdigits : Numeral.hexadecimal 2 b.toNat =
      [(b.toNat / 16 % 16).digitChar, (b.toNat % 16).digitChar] := rfl
  have hvalue : 16 * (b.toNat / 16 % 16) + b.toNat % 16 = b.toNat := by
    have := b.toNat_lt
    omega
  rw [hdigits, readByte?, idxOf?_digitChar _ (Nat.mod_lt _ (by decide)),
    idxOf?_digitChar _ (Nat.mod_lt _ (by decide))]
  simp only [Option.bind_eq_bind, Option.bind_some]
  rw [hvalue, UInt8.ofNat_toNat]

theorem token_hexadecimal {width : Nat} (h : 0 < width) (n : Nat) :
    (Numeral.hexadecimal width n).Token := by
  refine ⟨?_, fun c hc => Numeral.isInk_of_mem_hexadecimal hc⟩
  intro hnil
  rw [← Numeral.length_hexadecimal width n, hnil] at h
  exact Nat.lt_irrefl 0 h

theorem readBytes_byteColumn (w : Word) : readBytes (Entry.byteColumn w) = w.bytes := by
  have htoken := token_hexadecimal (Nat.zero_lt_succ 1)
  have hlast : tokens (Numeral.hexadecimal 2 w.highByte.toNat ++ "  ".toList) =
      [Numeral.hexadecimal 2 w.highByte.toNat] :=
    tokens_token_blank (htoken w.highByte.toNat) [' ']
  rw [readBytes, Entry.byteColumn_eq, tokens_token_blank (htoken w.lowByte.toNat), hlast]
  simp [readByte?_hexadecimal, Word.bytes]

end Text

namespace Listing

/-- The bytes in the columns of a text, line by line. -/
def shownBytes (t : Text) : List UInt8 :=
  (Text.lines t).flatMap fun line => Text.readBytes (Text.byteColumns line)

theorem slot_lt_of_mem_zipIdx {img : Image} {w : Word} {slot : Nat}
    (h : (w, slot) ∈ img.words.zipIdx) : slot < 100 := by
  have hslot : slot < img.words.length := by simpa using (List.mem_zipIdx h).2.1
  exact Nat.lt_of_lt_of_le hslot (Nat.le_trans img.length_le (by decide))

/-- **The bytes of an image can be read off its listing.** -/
theorem shownBytes_render (img : Image) : shownBytes ((ofImage img).render true) = img.bytes := by
  have hlast : Text.readBytes (Text.byteColumns []) = [] := rfl
  rw [shownBytes, lines_render, List.flatMap_append, List.flatMap_singleton, hlast, List.append_nil,
    rows, List.flatMap_map]
  calc img.words.zipIdx.flatMap
        (fun p => Text.readBytes (Text.byteColumns (Entry.row true p.2 p.1)))
      = img.words.zipIdx.flatMap (fun p => p.1.bytes) := by
        apply List.flatMap_congr
        rintro ⟨w, slot⟩ hmem
        rw [Entry.byteColumns_row (slot_lt_of_mem_zipIdx hmem), Text.readBytes_byteColumn]
    _ = (img.words.zipIdx.map Prod.fst).flatMap Word.bytes := by rw [List.flatMap_map]
    _ = img.bytes := by rw [List.zipIdx_map_fst, Image.bytes]

theorem render_injective : Function.Injective fun img => (ofImage img).render true := by
  intro img img' (h : (ofImage img).render true = (ofImage img').render true)
  have hbytes : img.bytes = img'.bytes := by
    rw [← shownBytes_render, ← shownBytes_render, h]
  exact Except.ok.inj ((img.ofBytes_bytes.symm.trans (congrArg _ hbytes)).trans img'.ofBytes_bytes)

/-- **Without its bytes a listing is the plain one.** -/
theorem map_withoutBytes_render (img : Image) :
    Text.unlines ((Text.lines ((ofImage img).render true)).map Text.withoutBytes) =
      (ofImage img).render false := by
  have hrows : (rows true img.words).map Text.withoutBytes = rows false img.words := by
    rw [rows, List.map_map, rows]
    apply List.map_congr_left
    rintro ⟨w, slot⟩ hmem
    exact Entry.withoutBytes_row (slot_lt_of_mem_zipIdx hmem) w
  have hlast : Text.withoutBytes [] = [] := rfl
  rw [lines_render, List.map_append, hrows, List.map_singleton, hlast, ← lines_render,
    Text.unlines_lines]

/-! ## Entries and lines -/

theorem getElem?_entries_of_set {img img' : Image} {k : Nat} {w : Word}
    (h : img'.words = img.words.set k w) {slot : Nat} (hslot : slot ≠ k) :
    (ofImage img').entries[slot]? = (ofImage img).entries[slot]? := by
  rw [getElem?_entries, getElem?_entries, h, List.getElem?_set_ne (Ne.symm hslot)]

theorem config_of_set {img img' : Image} {k : Nat} {w : Word}
    (h : img'.words = img.words.set k w) : (ofImage img').config = (ofImage img).config := by
  have hlength : img'.length = img.length := by
    rw [Image.length, h, List.length_set]
    rfl
  simp only [ofImage, Image.config, hlength]

end Listing

/-- How a line shows an entry. -/
structure Entry.ShownBy (e : Entry) (showBytes : Bool) (line : Text) : Prop where
  newline : '\n' ∉ line
  slot : line.take 4 = label e.slot ∧ (label e.slot).length = 4
  bytes : showBytes → Text.byteColumns line =
    Numeral.hexadecimal 2 e.word.lowByte.toNat ++ ' ' ::
      (Numeral.hexadecimal 2 e.word.highByte.toNat ++ "  ".toList)
  rest : line.drop (if showBytes then 11 else 4) =
    e.text?.getD ("<invalid> ".toList ++ e.word.hex)
  mark : "<invalid>".toList <:+: line ↔ e.error?.isSome

theorem Entry.content_eq (e : Entry) :
    e.content = e.text?.getD ("<invalid> ".toList ++ e.word.hex) := by
  obtain ⟨slot, w, text⟩ := e
  cases text <;> rfl

theorem Entry.shownBy_row {slot : Nat} (h : slot < 100) (w : Word) (showBytes : Bool) :
    (ofWord slot w).ShownBy showBytes (row showBytes slot w) := by
  refine ⟨?_, ⟨take_row h w showBytes, length_label h⟩, ?_, ?_, mark_row_iff showBytes slot w⟩
  · exact Text.notMem_of_printed (printed_row showBytes slot w) (by decide)
  · rintro rfl
    rw [byteColumns_row h, byteColumn_eq]
    rfl
  · rw [drop_row h, content_eq]

namespace Listing

theorem getElem?_rows (showBytes : Bool) (words : List Word) (slot : Nat) :
    (rows showBytes words)[slot]? = words[slot]?.map (Entry.row showBytes slot) := by
  simp [rows, List.getElem?_zipIdx, Function.comp_def]

theorem exists_row {img : Image} {slot : Nat} {e : Entry} (showBytes : Bool)
    (h : (ofImage img).entries[slot]? = some e) :
    ∃ line, (rows showBytes img.words)[slot]? = some line ∧ e.ShownBy showBytes line := by
  rw [getElem?_entries] at h
  obtain ⟨w, hw, rfl⟩ := Option.map_eq_some_iff.mp h
  have hslot : slot < 100 :=
    slot_lt_of_mem_zipIdx (List.mem_of_getElem? (by rw [List.getElem?_zipIdx, hw]; simp; rfl))
  refine ⟨_, ?_, Entry.shownBy_row hslot w showBytes⟩
  rw [getElem?_rows, hw, Option.map_some]

/-- **A listing is faithful to its image.** There is one entry for each word, made of that word
alone, and one line for each entry. The bytes that are shown are those of the image, so no two
images are listed alike, and without them the listing is the plain one. -/
theorem listing_faithful :
    (∀ img : Image, (ofImage img).entries.length = img.length ∧
      ∀ (slot : Nat) (w : Word), img.words[slot]? = some w →
        ∃ e, (ofImage img).entries[slot]? = some e ∧ e.Reports slot w) ∧
    (∀ (img img' : Image) (k : Nat) (w : Word), img'.words = img.words.set k w →
      (ofImage img').config = (ofImage img).config ∧
      ∀ slot, slot ≠ k → (ofImage img').entries[slot]? = (ofImage img).entries[slot]?) ∧
    (∀ (img : Image) (showBytes : Bool), ∃ ls : List Text,
      (ofImage img).render showBytes = ls.flatMap (· ++ ['\n']) ∧ ls.length = img.length ∧
      ∀ (slot : Nat) (e : Entry), (ofImage img).entries[slot]? = some e →
        ∃ line, ls[slot]? = some line ∧ e.ShownBy showBytes line) ∧
    (∀ img : Image, shownBytes ((ofImage img).render true) = img.bytes) ∧
    (Function.Injective fun img => (ofImage img).render true) ∧
    ∀ img : Image, Text.unlines ((Text.lines ((ofImage img).render true)).map Text.withoutBytes) =
      (ofImage img).render false := by
  refine ⟨?_, ?_, ?_, shownBytes_render, render_injective, map_withoutBytes_render⟩
  · refine fun img => ⟨length_entries img, ?_⟩
    intro slot w hw
    refine ⟨.ofWord slot w, ?_, Entry.reports_ofWord slot w⟩
    rw [getElem?_entries, hw, Option.map_some]
  · intro img img' k w h
    exact ⟨config_of_set h, fun slot hslot => getElem?_entries_of_set h hslot⟩
  · intro img showBytes
    refine ⟨rows showBytes img.words, render_ofImage img showBytes, ?_, ?_⟩
    · simp [rows, Image.length]
    · exact fun slot e he => exists_row showBytes he

theorem listing_faithful_invalid :
    let img : Image := ⟨[0xC802#16, 0x4001#16, 0xD801#16], by decide, by decide⟩
    let img' : Image := ⟨[0xC802#16, 0x4800#16, 0xD801#16], by decide, by decide⟩
    let e : Entry := .ofWord 1 0x4001#16
    (img.words[1]? = some 0x4001#16 ∧
      ∃ e, (ofImage img).entries[1]? = some e ∧ e.Reports 1 0x4001#16) ∧
    (img'.words = img.words.set 1 0x4800#16 ∧ (ofImage img').config = (ofImage img).config ∧
      2 ≠ 1 ∧ (ofImage img').entries[2]? = (ofImage img).entries[2]?) ∧
    ((ofImage img).entries[1]? = some e ∧ ∃ ls : List Text,
      (ofImage img).render true = ls.flatMap (· ++ ['\n']) ∧ ls.length = 3 ∧
        ∃ line, ls[1]? = some line ∧ e.ShownBy true line) := by
  intro img img' e
  obtain ⟨hreports, hset, hlines, -⟩ := listing_faithful
  obtain ⟨ls, hrender, hlength, hshown⟩ := hlines img true
  have hchanged := hset img img' 1 0x4800#16 rfl
  exact ⟨⟨rfl, (hreports img).2 1 _ rfl⟩,
    ⟨rfl, hchanged.1, by decide, hchanged.2 2 (by decide)⟩,
    rfl, ls, hrender, hlength, hshown 1 e rfl⟩

end Listing

end ExecutionNode
