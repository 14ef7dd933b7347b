import ExecutionNode.Proofs.FirstFault
import ExecutionNode.Proofs.Meaning
import Mathlib.Data.List.TakeWhile

/-!
# What a log tells

The log of an assembly is told from the statements: each line that is taken logs its label and then
its word, and each jump that is linked logs its slots. Words and labels of the program can be had
from the log alone.
-/

namespace ExecutionNode.Assembly

/-! ## Events of lines and jumps -/

def Statement.labelEvents (s : Statement) (slot : Nat) : List Event :=
  (s.label.map fun name => .labelBound name slot).toList

def Statement.bodyEvents (s : Statement) (line slot : Nat) : List Event :=
  ((Command.ofTokens? s.body).map fun c => .encoded line slot c.word).toList

/-- The label of a line comes first. -/
def Located.events (l : Located) : List Event :=
  l.statement.labelEvents l.slot ++ l.statement.bodyEvents l.line l.slot

/-- What the pass logs when it takes all lines, in line order. -/
def passEvents (ss : List Statement) : List Event := (located ss).flatMap Located.events

def Reference.event (labels : LabelTable) (r : Reference) : Event :=
  .linked r.label r.slot (slotOf labels r.label)

theorem passEvents_concat (ss : List Statement) (s : Statement) :
    passEvents (ss ++ [s]) = passEvents ss ++
      Located.events ⟨s, ss.length + 1, (instructions ss).length⟩ := by
  rw [passEvents, located_concat, List.flatMap_append, List.flatMap_singleton]
  rfl

/-! ## The log of the pass -/

/-- The events of a step, which logs nothing if it fails. -/
def eventsUnless {ε : Type} (failure : Option ε) (events : List Event) : List Event :=
  match failure with
  | some _ => []
  | none => events

@[simp] theorem eventsUnless_none {ε : Type} (events : List Event) :
    eventsUnless (none : Option ε) events = events := rfl

@[simp] theorem eventsUnless_some {ε : Type} (e : ε) (events : List Event) :
    eventsUnless (some e) events = [] := rfl

namespace Pass

theorem takeLabel_events (p : Pass) (hlast : p.lastLabelled = some p.next ↔ p.next ∈ p.labels.slots)
    (s : Statement) : (p.takeLabel s.label).events =
      eventsUnless (labelFault? p.labels p.next s.label) (s.labelEvents p.next) := by
  obtain ⟨label, body⟩ := s
  rcases label with - | name
  · rfl
  · simp only [takeLabel, bindLabel, labelFault?, isFull, decide_eq_true_eq, hlast,
      lookup_isSome_iff, or_comm (a := p.next ∈ p.labels.slots)]
    by_cases hfull : slotCount ≤ p.next
    · rw [if_pos hfull, if_pos hfull]
      rfl
    · rw [if_neg hfull, if_neg hfull]
      split <;> rfl

theorem takeBody_events (p : Pass) (s : Statement) (line : Nat) :
    (p.takeBody line s.body).events =
      eventsUnless (bodyFault? p.next s.body) (s.bodyEvents line p.next) := by
  obtain ⟨label, body⟩ := s
  rcases body with - | ⟨mnemonic, operands⟩
  · rfl
  · simp only [takeBody, bodyFault?, isFull, decide_eq_true_eq]
    cases hop : Opcode.ofMnemonic? mnemonic with
    | none => rfl
    | some op =>
      dsimp only
      by_cases hfull : slotCount ≤ p.next
      · rw [if_pos hfull, if_pos hfull]
        rfl
      · rw [if_neg hfull, if_neg hfull, Logged.events_bind]
        cases hread : Command.read op operands with
        | error cause => rfl
        | ok c =>
          simp [Logged.ofExcept, place, Logged.log, Statement.bodyEvents, Command.ofTokens?, hop,
            hread, Except.toOption]

theorem labels_ofStatements (ss : List Statement) : (ofStatements ss).labels = definitions ss := rfl

theorem takeStatement_events (ss : List Statement) (s : Statement) :
    ((ofStatements ss).takeStatement (ss.length + 1) s).events =
      eventsUnless (labelFault? (definitions ss) (instructions ss).length s.label)
        (s.labelEvents (instructions ss).length ++
          eventsUnless (bodyFault? (instructions ss).length s.body)
            (s.bodyEvents (ss.length + 1) (instructions ss).length)) := by
  have hlast := lastLabelled_ofStatements ss
  have hresult := takeLabel_result _ hlast s.label
  have hlabel := takeLabel_events _ hlast s
  rw [next_ofStatements, labels_ofStatements] at hresult hlabel
  unfold takeStatement
  cases hfault : labelFault? (definitions ss) (instructions ss).length s.label with
  | some cause =>
    rw [hfault] at hresult hlabel
    rw [Logged.events_bind_of_error hresult, hlabel]
    rfl
  | none =>
    rw [hfault] at hresult hlabel
    rw [Logged.events_bind_of_ok hresult, hlabel, takeBody_events, next_withLabel,
      next_ofStatements]
    rfl

theorem takeLine_events (limit : Nat) (ss : List Statement) (raw : Text) :
    ((ofStatements ss).takeLine limit (ss.length + 1) raw).events =
      if (Text.dropReturn raw).length ≤ limit then
        ((ofStatements ss).takeStatement (ss.length + 1) (.ofSourceLine raw)).events
      else [] := by
  unfold takeLine Logged.atLine Statement.read
  rw [Logged.events_bind]
  by_cases h : (Text.dropReturn raw).length ≤ limit
  · simp only [h, if_true]
    rfl
  · simp only [h, if_false]
    rfl

theorem takeLine_events_of_none {limit : Nat} {ss : List Statement} {raw : Text}
    (h : lineFault? limit ss raw = none) :
    ((ofStatements ss).takeLine limit (ss.length + 1) raw).events =
      Located.events ⟨.ofSourceLine raw, ss.length + 1, (instructions ss).length⟩ := by
  obtain ⟨hshort, hlabel, hbody⟩ := lineFault?_eq_none_iff.mp h
  rw [takeLine_events, if_pos hshort, takeStatement_events, hlabel, hbody]
  rfl

end Pass

/-- The line is short enough to be read, and its label, if it has one, is new in name and slot. -/
def LabelAccepted (limit : Nat) (earlier : List Statement) (raw : Text) : Prop :=
  (Text.dropReturn raw).length ≤ limit ∧ (definitions (earlier ++ [.ofSourceLine raw])).Valid

theorem labelAccepted_iff {limit : Nat} {earlier : List Statement} (h : (definitions earlier).Valid)
    {raw : Text} : LabelAccepted limit earlier raw ↔ (Text.dropReturn raw).length ≤ limit ∧
      labelFault? (definitions earlier) (instructions earlier).length
        (Statement.ofSourceLine raw).label = none := by
  rw [LabelAccepted, valid_definitions_concat_iff, and_iff_right h]

namespace Pass

section Refused

variable {limit : Nat} {ss : List Statement} {raw : Text} (hvalid : (definitions ss).Valid)

include hvalid

theorem takeLine_events_of_labelAccepted (h : LabelAccepted limit ss raw) {cause : Cause}
    (hfault : lineFault? limit ss raw = some cause) :
    ((ofStatements ss).takeLine limit (ss.length + 1) raw).events =
      (Statement.ofSourceLine raw).labelEvents (instructions ss).length := by
  obtain ⟨hshort, hlabel⟩ := (labelAccepted_iff hvalid).mp h
  have hbody : bodyFault? (instructions ss).length (Statement.ofSourceLine raw).body ≠ none := by
    intro hbody
    rw [lineFault?_eq_none_iff.mpr ⟨hshort, hlabel, hbody⟩] at hfault
    cases hfault
  obtain ⟨cause', hcause⟩ := Option.ne_none_iff_exists'.mp hbody
  rw [takeLine_events, if_pos hshort, takeStatement_events, hlabel, hcause]
  exact List.append_nil _

theorem takeLine_events_of_not_labelAccepted (h : ¬ LabelAccepted limit ss raw) :
    ((ofStatements ss).takeLine limit (ss.length + 1) raw).events = [] := by
  rw [labelAccepted_iff hvalid, not_and] at h
  rw [takeLine_events]
  split
  · next hshort =>
    obtain ⟨cause, hcause⟩ := Option.ne_none_iff_exists'.mp (h hshort)
    rw [takeStatement_events, hcause]
    rfl
  · rfl

end Refused

theorem takeLines_append_events_of_ok {limit : Nat} {xs : List Text} {p q : Pass} {line : Nat}
    (h : (p.takeLines limit line xs).result = .ok q) (ys : List Text) :
    (p.takeLines limit line (xs ++ ys)).events = (p.takeLines limit line xs).events ++
      (q.takeLines limit (line + xs.length) ys).events := by
  induction xs generalizing p line with
  | nil =>
    cases h
    rfl
  | cons raw rest ih =>
    unfold takeLines at h
    rw [Logged.result_bind] at h
    cases hline : (p.takeLine limit line raw).result with
    | error f =>
      rw [hline] at h
      cases h
    | ok p' =>
      rw [hline] at h
      have hrest := ih h
      rw [List.cons_append, takeLines, takeLines, Logged.events_bind_of_ok hline,
        Logged.events_bind_of_ok hline, hrest, List.append_assoc, List.length_cons,
        Nat.add_right_comm, Nat.add_assoc line]

theorem takeLines_singleton_events (limit : Nat) (p : Pass) (line : Nat) (raw : Text) :
    (p.takeLines limit line [raw]).events = (p.takeLine limit line raw).events := by
  rw [takeLines, Logged.events_bind]
  cases (p.takeLine limit line raw).result <;> simp [takeLines]

theorem takeLines_eq_ok {limit : Nat} {ls : List Text} (h : firstFault? limit ls = none) :
    (takeLines limit {} 1 ls).result = .ok (ofStatements (ls.map .ofSourceLine)) := by
  rw [takeLines_result, h, okUnless_none]

/-- **The log of lines that are taken.** -/
theorem takeLines_events {limit : Nat} {ls : List Text} (h : firstFault? limit ls = none) :
    (takeLines limit {} 1 ls).events = passEvents (ls.map .ofSourceLine) := by
  induction ls using List.reverseRecOn with
  | nil => rfl
  | append_singleton ls raw ih =>
    rw [firstFault?_concat, Option.or_eq_none_iff, Option.map_eq_none_iff] at h
    have hline := takeLine_events_of_none h.2
    rw [List.length_map] at hline
    rw [takeLines_append_events_of_ok (takeLines_eq_ok h.1), ih h.1, Nat.add_comm 1,
      takeLines_singleton_events, hline, List.map_append, List.map_singleton, passEvents_concat,
      List.length_map]

theorem takeLines_events_of_fault {limit : Nat} {earlier : List Text} {raw : Text}
    (hearlier : firstFault? limit earlier = none) {cause : Cause}
    (hcause : lineFault? limit (earlier.map .ofSourceLine) raw = some cause) (later : List Text) :
    (takeLines limit {} 1 (earlier ++ raw :: later)).events =
      passEvents (earlier.map .ofSourceLine) ++
        ((ofStatements (earlier.map .ofSourceLine)).takeLine limit (earlier.length + 1) raw).events := by
  have hresult := takeLine_ofStatements limit (earlier.map .ofSourceLine) raw
  rw [List.length_map, hcause] at hresult
  rw [takeLines_append_events_of_ok (takeLines_eq_ok hearlier), takeLines_events hearlier,
    Nat.add_comm 1, takeLines, Logged.events_bind_of_error hresult]

end Pass

/-! ## The log of a run -/

theorem link_events (labels : LabelTable) (words : List Word) (refs : List Reference) :
    (link labels words refs).events =
      (refs.takeWhile fun r => (labels.lookup r.label).isSome).map (Reference.event labels) := by
  induction refs generalizing words with
  | nil => rfl
  | cons r rest ih =>
    unfold link
    cases hlookup : labels.lookup r.label with
    | none => simp [hlookup, Logged.fail]
    | some slot =>
      simp [hlookup, Logged.events_bind, Logged.log, ih, Reference.event, slotOf_of_lookup hlookup]

section Run

variable {config : Config} {source : Text}

theorem assembleLogged_events_of_firstFault? {f : Fault}
    (h : firstFault? config.maxLineLength (Text.lines source) = some f) :
    (assembleLogged config source).events =
      (Pass.takeLines config.maxLineLength {} 1 (Text.lines source)).events := by
  have hresult := Pass.takeLines_result config.maxLineLength (Text.lines source)
  rw [h, okUnless_some] at hresult
  rw [assembleLogged, Logged.events_bind_of_error hresult]

theorem assembleLogged_events_of_accepted
    (h : firstFault? config.maxLineLength (Text.lines source) = none) :
    (assembleLogged config source).events = passEvents (statements source) ++
      (((references (statements source)).takeWhile fun r =>
        ((definitions (statements source)).lookup r.label).isSome).map
          (Reference.event (definitions (statements source))) ++
      eventsUnless
        (undefinedFault? (definitions (statements source)) (references (statements source)))
        [.assembled (instructions (statements source)).length
          (definitions (statements source)).length]) := by
  have hpass := Pass.takeLines_eq_ok h
  have hlink := link_result (definitions (statements source))
    (Pass.ofStatements (statements source)).words (references (statements source))
  rw [assembleLogged, Logged.events_bind_of_ok hpass, Pass.takeLines_events h]
  congr 1
  cases hfault : undefinedFault? (definitions (statements source)) (references (statements source))
    with
  | some f =>
    rw [hfault] at hlink
    exact (Logged.events_bind_of_error hlink _).trans
      ((link_events _ _ _).trans (List.append_nil _).symm)
  | none =>
    rw [hfault] at hlink
    have hlength : (patch (definitions (statements source))
        (Pass.ofStatements (statements source)).words (references (statements source))).length =
          (instructions (statements source)).length := by
      rw [length_patch, Pass.ofStatements, List.length_map]
    refine (Logged.events_bind_of_ok hlink _).trans ?_
    rw [hlength, Pass.labels_ofStatements, link_events]
    rfl

end Run

/-! ## Reading a log -/

namespace Event

/-- Line and slot of a word. -/
def encoded? : Event → Option (Nat × Nat)
  | encoded line slot _ => some (line, slot)
  | _ => none

def bound? : Event → Option (Text × Nat)
  | labelBound label slot => some (label, slot)
  | _ => none

/-- Label, slot and target of a jump. -/
def linked? : Event → Option (Text × Nat × Nat)
  | linked label source target => some (label, source, target)
  | _ => none

/-- What an event does to the words so far. -/
def replay (words : List Word) : Event → List Word
  | encoded _ _ w => words ++ [w]
  | linked _ source target => words.modify source (· ||| BitVec.ofNat 16 target)
  | _ => words

end Event

section Views

variable (s : Statement) (slot : Nat)

theorem filterMap_labelEvents {α : Type} (view : Event → Option α) :
    (s.labelEvents slot).filterMap view =
      (s.label.bind fun name => view (.labelBound name slot)).toList := by
  unfold Statement.labelEvents
  cases s.label with
  | none => rfl
  | some name => cases h : view (.labelBound name slot) <;> simp [h]

theorem filterMap_bodyEvents {α : Type} (view : Event → Option α) (line : Nat) :
    (s.bodyEvents line slot).filterMap view =
      ((Command.ofTokens? s.body).bind fun c => view (.encoded line slot c.word)).toList := by
  unfold Statement.bodyEvents
  cases Command.ofTokens? s.body with
  | none => rfl
  | some c => cases h : view (.encoded line slot c.word) <;> simp [h]

theorem replay_labelEvents (words : List Word) :
    (s.labelEvents slot).foldl Event.replay words = words := by
  unfold Statement.labelEvents
  cases s.label <;> rfl

theorem bodyEvents_eq {s : Statement} (h : ∀ body ∈ instructions [s], ∃ c : Command, c.WrittenAs body)
    (line slot : Nat) : s.bodyEvents line slot =
      (instructions [s]).map fun body => .encoded line slot (wordOf Command.word body) := by
  obtain ⟨label, body⟩ := s
  rcases body with - | ⟨mnemonic, operands⟩
  · rfl
  · rw [instructions_cons_body] at h ⊢
    obtain ⟨c, hc⟩ := h _ (List.mem_singleton_self _)
    rw [Statement.bodyEvents, ofTokens?_of_writtenAs hc, List.map_singleton, wordOf_of_writtenAs hc]
    rfl

end Views

theorem written_of_concat {ss : List Statement} {s : Statement}
    (h : Encodable (instructions (ss ++ [s]))) :
    ∀ body ∈ instructions [s], ∃ c : Command, c.WrittenAs body := by
  intro body hbody
  apply h.written
  rw [instructions_append]
  exact List.mem_append_right _ hbody

section Pass

variable (ss : List Statement)

theorem linked?_passEvents : (passEvents ss).filterMap Event.linked? = [] := by
  induction ss using List.reverseRecOn with
  | nil => rfl
  | append_singleton ss s ih =>
    simp [passEvents_concat, Located.events, ih, filterMap_labelEvents, filterMap_bodyEvents,
      Event.linked?]

theorem bound?_passEvents : (passEvents ss).filterMap Event.bound? = definitions ss := by
  induction ss using List.reverseRecOn with
  | nil => rfl
  | append_singleton ss s ih =>
    cases hlabel : s.label <;>
      simp [passEvents_concat, Located.events, ih, filterMap_labelEvents, filterMap_bodyEvents,
        Event.bound?, definitions_concat, hlabel]

variable {ss}

theorem encoded?_passEvents (h : Encodable (instructions ss)) :
    ((passEvents ss).filterMap Event.encoded?).map Prod.snd = List.range (instructions ss).length ∧
    ((passEvents ss).filterMap Event.encoded?).Pairwise (fun d e => d.1 < e.1) ∧
    ∀ e ∈ (passEvents ss).filterMap Event.encoded?, e.1 ≤ ss.length := by
  -- The last part bounds the earlier lines, so that the next line is behind them.
  induction ss using List.reverseRecOn with
  | nil => exact ⟨rfl, List.Pairwise.nil, by simp [passEvents, located]⟩
  | append_singleton ss s ih =>
    obtain ⟨hslots, hascend, hle⟩ := ih (encodable_instructions_concat_iff.mp h).1
    have hview : (passEvents (ss ++ [s])).filterMap Event.encoded? =
        (passEvents ss).filterMap Event.encoded? ++
          (instructions [s]).map fun _ => (ss.length + 1, (instructions ss).length) := by
      simp [passEvents_concat, Located.events, filterMap_labelEvents, Event.encoded?,
        bodyEvents_eq (written_of_concat h), List.filterMap_map, Function.comp_def]
    rw [hview, instructions_append, List.length_append]
    obtain ⟨label, body⟩ := s
    rcases body with - | ⟨mnemonic, operands⟩
    · rw [instructions_nil_body, List.map_nil, List.append_nil]
      refine ⟨hslots, hascend, ?_⟩
      intro e he
      have := hle e he
      rw [List.length_append]
      omega
    · rw [instructions_cons_body, List.map_singleton, List.map_append, hslots]
      refine ⟨(List.range_succ).symm, ?_, ?_⟩
      · rw [List.pairwise_append]
        refine ⟨hascend, List.pairwise_singleton _ _, ?_⟩
        intro e he d hd
        have := hle e he
        rw [List.mem_singleton.mp hd]
        omega
      · rw [List.forall_mem_append, List.forall_mem_singleton, List.length_append]
        refine ⟨fun e he => ?_, Nat.le_refl _⟩
        have := hle e he
        omega

theorem replay_encoded (word : List Text → Word) (line slot : Nat) (bodies : List (List Text))
    (words : List Word) :
    (bodies.map fun body => Event.encoded line slot (word body)).foldl Event.replay words =
      words ++ bodies.map word := by
  induction bodies generalizing words with
  | nil => simp
  | cons body rest ih => simp [Event.replay, ih]

theorem replay_passEvents (h : Encodable (instructions ss)) :
    (passEvents ss).foldl Event.replay [] = (instructions ss).map (wordOf Command.word) := by
  induction ss using List.reverseRecOn with
  | nil => rfl
  | append_singleton ss s ih =>
    rw [passEvents_concat, List.foldl_append, ih (encodable_instructions_concat_iff.mp h).1,
      Located.events, List.foldl_append, replay_labelEvents, bodyEvents_eq (written_of_concat h),
      replay_encoded, instructions_append, List.map_append]

end Pass

section Links

variable (labels : LabelTable) (refs : List Reference)

theorem encoded?_links : (refs.map (Reference.event labels)).filterMap Event.encoded? = [] := by
  simp [Event.encoded?, Reference.event]

theorem bound?_links : (refs.map (Reference.event labels)).filterMap Event.bound? = [] := by
  simp [Event.bound?, Reference.event]

theorem linked?_links : (refs.map (Reference.event labels)).filterMap Event.linked? =
    refs.map fun r => (r.label, r.slot, slotOf labels r.label) := by
  simp [Event.linked?, Reference.event, List.filterMap_map, Function.comp_def]

theorem replay_links (h : ∀ n ∈ labels.slots, n < 64) (words : List Word) :
    (refs.map (Reference.event labels)).foldl Event.replay words = patch labels words refs := by
  induction refs generalizing words with
  | nil => rfl
  | cons r rest ih =>
    have hslot : withSlot (slotOf labels r.label) =
        (· ||| BitVec.ofNat 16 (slotOf labels r.label)) :=
      funext (withSlot_of_lt (slotOf_lt (by omega) h r.label))
    unfold patch at ih ⊢
    rw [List.foldl_cons, hslot, ← ih]
    rfl

end Links

/-! ## What the log of a run is -/

/-- Words are logged slot after slot, and going down the lines. -/
structure WordsInOrder (log : List Event) : Prop where
  slots : (log.filterMap Event.encoded?).map Prod.snd =
    List.range (log.filterMap Event.encoded?).length
  lines : (log.filterMap Event.encoded?).Pairwise fun d e => d.1 < e.1

/-- The log of a run that gives a program. -/
structure LogOfProgram (ss : List Statement) (p : Program) (log : List Event) : Prop where
  events : log = passEvents ss ++ (references ss).map (Reference.event p.labels) ++
    [.assembled p.words.length p.labels.length]
  words : log.foldl Event.replay [] = p.words
  labels : log.filterMap Event.bound? = p.labels
  labels_once : p.labels.names.Nodup
  jumps_ascend : (log.filterMap Event.linked?).Pairwise fun d e => d.2.1 < e.2.1
  jumps : ∀ k : Nat, (∃ e ∈ log.filterMap Event.linked?, e.2.1 = k) ↔
    ∃ w, p.words[k]? = some w ∧ w.isSlotJump = true
  targets : ∀ e ∈ log.filterMap Event.linked?, p.labels.lookup e.1 = some e.2.2

/-- The log of a run that ends at a line, `earlier` being what the lines before it say. -/
structure LogOfLineFault (limit : Nat) (earlier : List Statement) (raw : Text) (log : List Event) :
    Prop where
  accepted : LabelAccepted limit earlier raw → log = passEvents earlier ++
    (Statement.ofSourceLine raw).labelEvents (instructions earlier).length
  refused : ¬ LabelAccepted limit earlier raw → log = passEvents earlier
  unlinked : log.filterMap Event.linked? = []

/-- The log of a run that ends at a jump without a label: all jumps before it are linked. -/
structure LogOfJumpFault (ss : List Statement) (line : Nat) (log : List Event) : Prop where
  events : log = passEvents ss ++
    ((references ss).filter (·.line < line)).map (Reference.event (definitions ss))
  targets : ∀ e ∈ log.filterMap Event.linked?, (definitions ss).lookup e.1 = some e.2.2

theorem wordsInOrder_append {ss : List Statement} (h : Encodable (instructions ss))
    {tail : List Event} (htail : tail.filterMap Event.encoded? = []) :
    WordsInOrder (passEvents ss ++ tail) := by
  obtain ⟨hslots, hascend, -⟩ := encoded?_passEvents h
  have hview : (passEvents ss ++ tail).filterMap Event.encoded? =
      (passEvents ss).filterMap Event.encoded? := by
    rw [List.filterMap_append, htail, List.append_nil]
  have hlength := congrArg List.length hslots
  rw [List.length_map, List.length_range] at hlength
  refine ⟨?_, ?_⟩
  · rw [hview, hslots, hlength]
  · rw [hview]
    exact hascend

theorem exists_reference_slot_iff {limit : Nat} {source : Text} (h : Assembles limit source)
    {k : Nat} : (∃ r ∈ references (statements source), r.slot = k) ↔
      ∃ w, (program (statements source)).words[k]? = some w ∧ w.isSlotJump = true := by
  have hslots := h.labels_valid.slots_lt_field
  constructor
  · rintro ⟨r, hr, hk⟩
    obtain ⟨op, hop, rest, hbody⟩ := exists_reference_at_iff.mp ⟨r, hr, hk, rfl⟩
    have hjump := Command.WrittenAs.jump hop r.label rest
    refine ⟨_, ?_, Command.isSlotJump_linked hslots hjump⟩
    rw [program, List.getElem?_map, hbody, Option.map_some, wordOf_of_writtenAs hjump]
  · rintro ⟨w, hw, hjump⟩
    rw [program, List.getElem?_map, Option.map_eq_some_iff] at hw
    obtain ⟨body, hbody, rfl⟩ := hw
    obtain ⟨c, hc, -⟩ := exists_command_of_assembles h (List.mem_of_getElem? hbody)
    rw [wordOf_of_writtenAs hc, Command.isSlotJump_linked hslots hc] at hjump
    obtain ⟨label, hlabel⟩ := Option.isSome_iff_exists.mp hjump
    obtain ⟨op, hop, rest, rfl⟩ := label?_of_writtenAs hc hlabel
    obtain ⟨r, hr, hk, -⟩ := exists_reference_at_iff.mpr ⟨op, hop, rest, hbody⟩
    exact ⟨r, hr, hk⟩

section Outcome

variable {config : Config} {source : Text}

theorem logOfProgram {p : Program} (hp : assemble config source = .ok p) :
    WordsInOrder (assembleLogged config source).events ∧
    LogOfProgram (statements source) p (assembleLogged config source).events := by
  obtain ⟨h, rfl⟩ := assembles_of_assemble hp
  obtain ⟨haccepted, hdefined⟩ := assembles_iff.mp h
  have hslots := h.labels_valid.slots_lt_field
  have hnames := undefinedFault?_eq_none_iff.mp hdefined
  have hall : (references (statements source)).takeWhile (fun r =>
      ((definitions (statements source)).lookup r.label).isSome) = references (statements source) :=
    List.takeWhile_eq_self_iff.mpr fun r hr => (lookup_isSome_iff _ _).mpr (hnames r hr)
  have hevents := assembleLogged_events_of_accepted (accepted_iff_firstFault?.mp haccepted)
  rw [hall, hdefined, eventsUnless_none] at hevents
  have hlinked : (assembleLogged config source).events.filterMap Event.linked? =
      (references (statements source)).map fun r =>
        (r.label, r.slot, slotOf (definitions (statements source)) r.label) := by
    rw [hevents, List.filterMap_append, List.filterMap_append, linked?_passEvents, linked?_links]
    exact List.append_nil _
  constructor
  · rw [hevents]
    apply wordsInOrder_append h.encodable
    rw [List.filterMap_append, encoded?_links]
    rfl
  · refine ⟨?_, ?_, ?_, h.labels_valid.names_nodup, ?_, ?_, ?_⟩
    · rw [hevents, program, List.length_map, List.append_assoc]
    · rw [hevents, List.foldl_append, List.foldl_append, replay_passEvents h.encodable,
        replay_links _ _ hslots, patch_references hslots]
      rfl
    · rw [hevents, List.filterMap_append, List.filterMap_append, bound?_passEvents, bound?_links]
      exact List.append_nil _
    · rw [hlinked, List.pairwise_map]
      exact (references_ascend _).imp And.right
    · intro k
      simp only [hlinked, List.mem_map, exists_exists_and_eq_and]
      exact exists_reference_slot_iff h
    · rw [hlinked, List.forall_mem_map]
      intro r hr
      exact lookup_slotOf (hnames r hr)

theorem logOfLineFault {line : Nat} {cause : Cause}
    (h : firstFault? config.maxLineLength (Text.lines source) = some ⟨line, cause⟩) :
    WordsInOrder (assembleLogged config source).events ∧
    ∃ earlier raw later, Text.lines source = earlier ++ raw :: later ∧
      line = earlier.length + 1 ∧ LogOfLineFault config.maxLineLength
        (earlier.map .ofSourceLine) raw (assembleLogged config source).events := by
  obtain ⟨earlier, raw, later, hlines, hearlier, hcause, hline⟩ := firstFault?_eq_some_iff.mp h
  have haccepted := accepted_iff_firstFault?.mpr hearlier
  have hvalid := haccepted.labels_valid
  have hevents := assembleLogged_events_of_firstFault? h
  rw [hlines, Pass.takeLines_events_of_fault hearlier hcause] at hevents
  have hlength : (earlier.map Statement.ofSourceLine).length = earlier.length := List.length_map _
  rw [← hlength] at hevents
  by_cases hlabel : LabelAccepted config.maxLineLength (earlier.map .ofSourceLine) raw
  · rw [Pass.takeLine_events_of_labelAccepted hvalid hlabel hcause] at hevents
    rw [hevents]
    refine ⟨wordsInOrder_append haccepted.encodable ?_, earlier, raw, later, hlines, hline,
      fun _ => rfl, fun hno => absurd hlabel hno, ?_⟩
    · simp [filterMap_labelEvents, Event.encoded?]
    · simp [linked?_passEvents, filterMap_labelEvents, Event.linked?]
  · rw [Pass.takeLine_events_of_not_labelAccepted hvalid hlabel, List.append_nil] at hevents
    rw [hevents]
    refine ⟨?_, earlier, raw, later, hlines, hline, fun hyes => absurd hyes hlabel, fun _ => rfl,
      linked?_passEvents _⟩
    simpa using wordsInOrder_append haccepted.encodable (rfl : [].filterMap Event.encoded? = [])

theorem logOfJumpFault {line : Nat} {label : Text}
    (haccepted : firstFault? config.maxLineLength (Text.lines source) = none)
    (h : undefinedFault? (definitions (statements source)) (references (statements source)) =
      some ⟨line, .undefinedLabel label⟩) :
    WordsInOrder (assembleLogged config source).events ∧
    LogOfJumpFault (statements source) line (assembleLogged config source).events := by
  have hevents := assembleLogged_events_of_accepted haccepted
  rw [h, eventsUnless_some, List.append_nil] at hevents
  obtain ⟨before, r, after, hrefs, hbefore, hr, hf⟩ := undefinedFault?_eq_some_iff.mp h
  cases hf
  have hlinked : (references (statements source)).takeWhile (fun r =>
      ((definitions (statements source)).lookup r.label).isSome) = before := by
    rw [hrefs, List.takeWhile_append_of_pos fun q hq => (lookup_isSome_iff _ _).mpr (hbefore q hq),
      List.takeWhile_cons_of_neg (by rwa [lookup_isSome_iff]), List.append_nil]
  rw [hlinked] at hevents
  rw [hevents]
  refine ⟨?_, ?_, ?_⟩
  · exact wordsInOrder_append (accepted_iff_firstFault?.mpr haccepted).encodable
      (encoded?_links _ _)
  · rw [filter_references_line_lt hrefs]
  · rw [List.filterMap_append, linked?_passEvents, linked?_links, List.nil_append,
      List.forall_mem_map]
    intro q hq
    exact lookup_slotOf (hbefore q hq)

end Outcome

/-- **The log says what the run has done.** -/
theorem log_of_assembly (config : Config) (source : Text) :
    WordsInOrder (assembleLogged config source).events ∧
    (∀ p, assemble config source = .ok p →
      LogOfProgram (statements source) p (assembleLogged config source).events) ∧
    (∀ line cause, assemble config source = .error ⟨line, cause⟩ →
      (∀ label, cause ≠ .undefinedLabel label) →
        ∃ earlier raw later, Text.lines source = earlier ++ raw :: later ∧
          line = earlier.length + 1 ∧ LogOfLineFault config.maxLineLength
            (earlier.map .ofSourceLine) raw (assembleLogged config source).events) ∧
    ∀ line label, assemble config source = .error ⟨line, .undefinedLabel label⟩ →
      LogOfJumpFault (statements source) line (assembleLogged config source).events := by
  have hwords : WordsInOrder (assembleLogged config source).events := by
    cases hresult : assemble config source with
    | ok p => exact (logOfProgram hresult).1
    | error f =>
      rcases assemble_eq_error_iff.mp hresult with h | ⟨haccepted, h⟩
      · exact (logOfLineFault h).1
      · obtain ⟨_, r, _, _, _, _, rfl⟩ := undefinedFault?_eq_some_iff.mp h
        exact (logOfJumpFault haccepted h).1
  refine ⟨hwords, fun p hp => (logOfProgram hp).2, ?_, ?_⟩
  · intro line cause h hcause
    exact (logOfLineFault (firstFault?_of_assemble h (isUndefined_eq_false_iff.mpr hcause))).2
  · intro line label h
    obtain ⟨haccepted, hundefined⟩ := undefinedFault?_of_assemble h rfl
    exact (logOfJumpFault haccepted hundefined).2

theorem log_of_assembly_jumps :
    let source := "A: JMP E\nJEZ A\nE:".toList
    let p : Program := ⟨[0x7002#16, 0x7040#16], [("A".toList, 0), ("E".toList, 2)]⟩
    let refused := "JMP A\nA: ADD X\nNOP".toList
    let unlinked := "A: JMP A\nJMP B\nJMP A".toList
    assemble {} source = .ok p ∧ LogOfProgram (statements source) p (assembleLogged {} source).events ∧
    assemble {} refused = .error ⟨2, .unparsableOperand "X".toList⟩ ∧
    (∃ earlier raw later, Text.lines refused = earlier ++ raw :: later ∧
      2 = earlier.length + 1 ∧ LogOfLineFault 18 (earlier.map .ofSourceLine) raw
        (assembleLogged {} refused).events) ∧
    assemble {} unlinked = .error ⟨2, .undefinedLabel "B".toList⟩ ∧
    LogOfJumpFault (statements unlinked) 2 (assembleLogged {} unlinked).events := by
  intro source p refused unlinked
  have hsource : assemble {} source = .ok p := by rfl
  have hrefused : assemble {} refused = .error ⟨2, .unparsableOperand "X".toList⟩ := by rfl
  have hunlinked : assemble {} unlinked = .error ⟨2, .undefinedLabel "B".toList⟩ := by rfl
  exact ⟨hsource, (log_of_assembly {} source).2.1 p hsource,
    hrefused, (log_of_assembly {} refused).2.2.1 2 _ hrefused (by simp),
    hunlinked, (log_of_assembly {} unlinked).2.2.2 2 _ hunlinked⟩

end ExecutionNode.Assembly
