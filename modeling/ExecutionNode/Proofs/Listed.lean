import ExecutionNode.Listing
import ExecutionNode.Proofs.Canonical
import ExecutionNode.Proofs.Literals

/-!
# A listing as a source

A line of a listing defines the decimal of its slot as a label, and the text of its word is the
instruction. So the statements of a listing are known, and with them its labels and references.
-/

namespace ExecutionNode

/-! ## Lines -/

namespace Entry

/-- The tokens behind the slot of a line. -/
def body (w : Word) : List Text :=
  match w.decode with
  | .ok i => i.tokens
  | .error _ => ["<invalid>".toList, w.hex]

/-- A line without bytes and without its line feed. -/
def line (slot : Nat) (w : Word) : Text := label slot ++ (ofWord slot w).content

/-- A line without its line feed. -/
def row (showBytes : Bool) (slot : Nat) (w : Word) : Text :=
  label slot ++ (if showBytes then byteColumn w else []) ++ (ofWord slot w).content

theorem row_false (slot : Nat) (w : Word) : row false slot w = line slot w := by
  simp [row, line]

theorem content_of_decode {w : Word} {i : Instruction} (h : w.decode = .ok i) (slot : Nat) :
    (ofWord slot w).content = i.render := by
  rw [content, ofWord, Word.disassemble_of_decode h]

theorem content_of_error {w : Word} {e : DecodeError} (h : w.decode = .error e) (slot : Nat) :
    (ofWord slot w).content = "<invalid>".toList ++ ' ' :: w.hex := by
  rw [content, ofWord, Word.disassemble_of_error h]
  rfl

theorem tokens_content (slot : Nat) (w : Word) : Text.tokens (ofWord slot w).content = body w := by
  have hinvalid : Text.Token "<invalid>".toList :=
    ⟨List.cons_ne_nil _ _, List.all_eq_true.mp rfl⟩
  unfold body
  cases h : w.decode with
  | ok i => rw [content_of_decode h, i.tokens_render]
  | error e =>
    rw [content_of_error h, Text.tokens_token_blank hinvalid, Text.tokens_token w.token_hex]

theorem printed_content (slot : Nat) (w : Word) :
    ∀ c ∈ (ofWord slot w).content, Text.isPrinted c = true := by
  cases h : w.decode with
  | ok i =>
    rw [content_of_decode h]
    exact i.printed_render
  | error e =>
    rw [content_of_error h, List.forall_mem_append, List.forall_mem_cons]
    exact ⟨List.all_eq_true.mp rfl, rfl,
      fun c hc => Text.isPrinted_of_isInk (w.token_hex.ink c hc)⟩

theorem length_content_le (slot : Nat) (w : Word) : (ofWord slot w).content.length ≤ 16 := by
  cases h : w.decode with
  | ok i =>
    rw [content_of_decode h]
    exact Instruction.length_render_le (Instruction.holdable_of_decode h)
  | error e =>
    have hinvalid : "<invalid>".toList.length = 9 := rfl
    rw [content_of_error h, List.length_append, List.length_cons, Word.length_hex, hinvalid]

theorem printed_label (slot : Nat) : ∀ c ∈ label slot, Text.isPrinted c = true := by
  rw [label, List.forall_mem_append, List.forall_mem_append]
  refine ⟨⟨?_, ?_⟩, List.all_eq_true.mp rfl⟩
  · intro c hc
    rw [List.eq_of_mem_replicate hc]
    decide
  · intro c hc
    exact Text.isPrinted_of_isInk ((Numeral.token_decimal slot).ink c hc)

theorem printed_byteColumn (w : Word) : ∀ c ∈ byteColumn w, Text.isPrinted c = true := by
  rw [byteColumn, List.forall_mem_append]
  refine ⟨?_, List.all_eq_true.mp rfl⟩
  intro c hc
  obtain ⟨b, -, hb⟩ := List.mem_flatMap.mp hc
  rcases List.mem_append.mp hb with hb | hb
  · exact Text.isPrinted_of_isInk (Numeral.isInk_of_mem_hexadecimal hb)
  · rw [List.mem_singleton.mp hb]
    decide

theorem printed_row (showBytes : Bool) (slot : Nat) (w : Word) :
    ∀ c ∈ row showBytes slot w, Text.isPrinted c = true := by
  rw [row, List.forall_mem_append, List.forall_mem_append]
  refine ⟨⟨printed_label slot, ?_⟩, printed_content slot w⟩
  cases showBytes with
  | true => exact printed_byteColumn w
  | false => exact List.forall_mem_nil _

theorem printed_line (slot : Nat) (w : Word) : ∀ c ∈ line slot w, Text.isPrinted c = true := by
  rw [← row_false]
  exact printed_row false slot w

theorem length_line_le {slot : Nat} (h : slot < 100) (w : Word) : (line slot w).length ≤ 20 := by
  have hdigits : (Numeral.decimal slot).length ≤ 2 :=
    Numeral.length_decimal_le (Nat.le_of_lt_succ h)
  have hcolon : ": ".toList.length = 2 := rfl
  have hcontent := length_content_le slot w
  rw [line, label, List.length_append, List.length_append, List.length_append,
    List.length_replicate]
  omega

theorem tokens_line (slot : Nat) (w : Word) :
    Text.tokens (line slot w) = (Numeral.decimal slot ++ [':']) :: body w := by
  have htoken : Text.Token (Numeral.decimal slot ++ [':']) := by
    refine ⟨by simp, ?_⟩
    rw [List.forall_mem_append]
    exact ⟨(Numeral.token_decimal slot).ink, List.all_eq_true.mp rfl⟩
  have hline : line slot w = List.replicate (2 - (Numeral.decimal slot).length) ' ' ++
      (Numeral.decimal slot ++ [':'] ++ ' ' :: (ofWord slot w).content) := by
    simp [line, label]
  rw [hline, Text.tokens_replicate_blank, Text.tokens_token_blank htoken, tokens_content]

theorem body_of_decode {w : Word} {i : Instruction} (h : w.decode = .ok i) : body w = i.tokens := by
  rw [body, h]

theorem body_ne_nil (w : Word) : body w ≠ [] := by
  unfold body Instruction.tokens
  (repeat' split) <;> exact List.cons_ne_nil _ _

end Entry

namespace Listing

def rows (showBytes : Bool) (words : List Word) : List Text :=
  words.zipIdx.map fun (w, slot) => Entry.row showBytes slot w

theorem newline_notMem_of_mem_rows {showBytes : Bool} {words : List Word} {l : Text}
    (h : l ∈ rows showBytes words) : '\n' ∉ l := by
  obtain ⟨⟨w, slot⟩, -, rfl⟩ := List.mem_map.mp h
  exact Text.notMem_of_printed (Entry.printed_row showBytes slot w) (by decide)

theorem render_ofImage (img : Image) (showBytes : Bool) :
    (ofImage img).render showBytes = (rows showBytes img.words).flatMap (· ++ ['\n']) := by
  rw [render, ofImage, List.flatMap_map, rows, List.flatMap_map]
  rfl

theorem lines_render (img : Image) (showBytes : Bool) :
    Text.lines ((ofImage img).render showBytes) = rows showBytes img.words ++ [[]] := by
  rw [render_ofImage, Text.lines_flatMap]
  exact fun l hl => newline_notMem_of_mem_rows hl

end Listing

namespace Assembly

theorem ofSourceLine_line (slot : Nat) (w : Word) :
    Statement.ofSourceLine (Entry.line slot w) = ⟨some (Numeral.decimal slot), Entry.body w⟩ := by
  have hname := labelName?_eq_some_iff.mpr (rfl : Numeral.decimal slot ++ [':'] = _)
  rw [ofSourceLine_of_printed (Entry.printed_line slot w), Entry.tokens_line, Statement.ofTokens,
    hname]

/-! ## Statements -/

def listedLines (words : List Word) : List Text :=
  words.zipIdx.map fun (w, slot) => Entry.line slot w

/-- The statements of a listing, but for the empty one of its last line. -/
def listed (words : List Word) : List Statement :=
  words.zipIdx.map fun (w, slot) => ⟨some (Numeral.decimal slot), Entry.body w⟩

theorem map_ofSourceLine_listedLines (words : List Word) :
    (listedLines words).map .ofSourceLine = listed words := by
  rw [listedLines, List.map_map, listed]
  apply List.map_congr_left
  rintro ⟨w, slot⟩ -
  dsimp only [Function.comp_apply]
  rw [ofSourceLine_line]

theorem lines_render (img : Image) :
    Text.lines ((Listing.ofImage img).render false) = listedLines img.words ++ [[]] := by
  rw [Listing.lines_render, Listing.rows, listedLines]
  simp only [Entry.row_false]

theorem length_listed (words : List Word) : (listed words).length = words.length := by
  simp [listed]

theorem listedLines_append (xs ys : List Word) :
    ∃ tail, listedLines (xs ++ ys) = listedLines xs ++ tail := by
  rw [listedLines, List.zipIdx_append, List.map_append]
  exact ⟨_, rfl⟩

theorem listed_append (xs ys : List Word) : ∃ tail, listed (xs ++ ys) = listed xs ++ tail := by
  rw [listed, List.zipIdx_append, List.map_append]
  exact ⟨_, rfl⟩

theorem listedLines_concat (words : List Word) (w : Word) :
    listedLines (words ++ [w]) = listedLines words ++ [Entry.line words.length w] := by
  simp [listedLines, List.zipIdx_append]

theorem listed_concat (words : List Word) (w : Word) :
    listed (words ++ [w]) =
      listed words ++ [⟨some (Numeral.decimal words.length), Entry.body w⟩] := by
  simp [listed, List.zipIdx_append]

theorem instructions_listed (words : List Word) :
    instructions (listed words) = words.map Entry.body := by
  have hbodies : (listed words).map Statement.body = words.map Entry.body := by
    calc (listed words).map Statement.body
        = (words.zipIdx.map Prod.fst).map Entry.body := by rw [listed, List.map_map, List.map_map]; rfl
      _ = words.map Entry.body := by rw [List.zipIdx_map_fst]
  rw [instructions, hbodies]
  apply List.filter_eq_self.mpr
  rw [List.forall_mem_map]
  intro w _
  simpa using Entry.body_ne_nil w

/-! ## Labels -/

/-- The label table of a listing: every slot is called by its decimal. -/
def slotLabels (count : Nat) : LabelTable := (List.range count).map fun n => (Numeral.decimal n, n)

theorem definitions_listed (words : List Word) :
    definitions (listed words) = slotLabels words.length := by
  induction words using List.reverseRecOn with
  | nil => rfl
  | append_singleton words w ih =>
    rw [listed_concat, definitions_concat, ih, instructions_listed, List.length_map]
    simp [slotLabels, List.range_succ]

theorem slots_slotLabels (count : Nat) : (slotLabels count).slots = List.range count := by
  simp [slotLabels, LabelTable.slots, Function.comp_def]

theorem valid_slotLabels {count : Nat} (h : count ≤ slotCount) : (slotLabels count).Valid := by
  refine ⟨?_, ?_, ?_⟩
  · intro n hn
    rw [slots_slotLabels, List.mem_range] at hn
    omega
  · have hnames : (slotLabels count).names = (List.range count).map Numeral.decimal := by
      simp [slotLabels, LabelTable.names, Function.comp_def]
    rw [hnames]
    exact List.nodup_range.map fun _ _ h => Numeral.decimal_injective h
  · rw [slots_slotLabels]
    exact List.nodup_range

theorem lookup_slotLabels (count n : Nat) :
    (slotLabels count).lookup (Numeral.decimal n) = if n < count then some n else none := by
  induction count with
  | zero => rfl
  | succ count ih =>
    have hconcat : slotLabels (count + 1) = slotLabels count ++ [(Numeral.decimal count, count)] := by
      simp [slotLabels, List.range_succ]
    rw [hconcat, List.lookup_append, ih]
    by_cases hn : n = count
    · simp [hn]
    · have hne : (Numeral.decimal n == Numeral.decimal count) = false := by
        simpa using fun h => hn (Numeral.decimal_injective h)
      have hlt : n < count + 1 ↔ n < count := by omega
      simp [List.lookup_cons, hne, hlt]

end Assembly

end ExecutionNode
