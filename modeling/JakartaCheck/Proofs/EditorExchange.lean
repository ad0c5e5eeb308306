import JakartaCheck.Editor.Service
import JakartaCheck.Proofs.FamilyOffers
import JakartaCheck.Proofs.FixRegistration
import JakartaCheck.Proofs.LinePositions

/-!
# What an editor makes of an answer

An editor is told positions, and carries out changes between them. Every place between characters has
the position of just one place outside `\r\n` (`Text.clip`): a place inside `\r\n` has that of the one
in front of it. So a diagnostic or an edit between places that are `Placed` comes back from an editor
as it was, and any other edit comes back clipped.
-/

namespace JakartaCheck

open LineIndex (InsideCrLf)

namespace Text

variable {text : String} {offset : Nat}

theorem insideCrLf_iff : InsideCrLf text.toList offset ↔
    charBefore? text offset = some '\r' ∧ charAt? text offset = some '\n' := by
  rw [charBefore?_eq_some_iff, charAt?_eq_some_iff]
  constructor
  · rintro ⟨a, b, htext, rfl⟩
    have hlen : byteLen (a ++ ['\r']) = byteLen a + 1 := byteLen_append ..
    exact ⟨⟨a, '\n' :: b, by simpa using htext, hlen⟩, a ++ ['\r'], b, by simpa using htext, hlen⟩
  · rintro ⟨⟨a, rest, htext, ha⟩, front, b, htext', hfront⟩
    obtain ⟨rfl, rfl⟩ := append_inj_of_byteLen (htext.symm.trans htext') (ha.trans hfront.symm)
    exact ⟨a, b, by simpa using htext, ha.symm.trans (byteLen_append ..)⟩

instance (text : String) (offset : Nat) : Decidable (InsideCrLf text.toList offset) :=
  decidable_of_iff _ insideCrLf_iff.symm

/-- The place with the same position that does not lie inside `\r\n`. -/
def clip (text : String) (offset : Nat) : Nat :=
  if InsideCrLf text.toList offset then offset - 1 else offset

/-- A place between characters, and not inside `\r\n`. -/
structure Placed (text : String) (offset : Nat) : Prop where
  cut : isBoundary text offset
  outside : ¬ InsideCrLf text.toList offset

instance (text : String) (offset : Nat) : Decidable (Placed text offset) :=
  decidable_of_iff (isBoundary text offset ∧ ¬ InsideCrLf text.toList offset)
    ⟨fun h => ⟨h.1, h.2⟩, fun h => ⟨h.1, h.2⟩⟩

theorem Placed.clip_eq (h : Placed text offset) : clip text offset = offset := if_neg h.outside

theorem Placed.le (h : Placed text offset) : offset ≤ length text := (isBoundary_iff.1 h.cut).le

theorem clip_placed (h : isBoundary text offset) : Placed text (clip text offset) := by
  unfold clip
  split
  · rename_i inside
    obtain ⟨a, b, htext, rfl⟩ := inside
    refine ⟨isBoundary_iff.2 ⟨a, _, htext, rfl⟩, fun inside => ?_⟩
    have hreturn : charAt? text (byteLen a) = some '\r' := charAt?_eq_some_iff.2 ⟨a, _, htext, rfl⟩
    have hnewline := (insideCrLf_iff.1 inside).2
    rw [Nat.add_sub_cancel, hreturn] at hnewline
    cases hnewline
  · rename_i outside
    exact ⟨h, outside⟩

theorem clip_le_clip {start stop : Nat} (h : start ≤ stop) : clip text start ≤ clip text stop := by
  unfold clip
  rcases Nat.eq_or_lt_of_le h with rfl | hlt
  · exact Nat.le_refl _
  · split <;> split <;> omega

end Text

namespace LineIndex

variable {text : String} {offset : Nat}

/-- A place between characters has a position, and this is the position of the clipped place. -/
theorem exists_position (h : Text.isBoundary text offset) : ∃ p,
    (ofText text).position text offset = .ok p ∧
      (ofText text).offset? text p = some (Text.clip text offset) := by
  have hclip := Text.clip_placed h
  obtain ⟨cs, rfl⟩ : ∃ cs, text = String.ofList cs := ⟨text.toList, by simp⟩
  have hcut := Text.isBoundary_iff.1 h
  rw [String.toList_ofList] at hcut
  obtain ⟨p, hp⟩ := (exists_position_iff hcut.le).2 hcut
  refine ⟨p, hp, offset?_eq_some_iff_position.2 ⟨?_, ?_, ?_⟩⟩
  · simpa using Text.isBoundary_iff.1 hclip.cut
  · simpa using hclip.outside
  · unfold Text.clip
    split
    · rename_i inside
      rw [String.toList_ofList] at inside
      rw [← position_insideCrLf inside]
      exact hp
    · exact hp

end LineIndex

/-! ### Ranges and edits -/

/-- Both ends are places of the text outside `\r\n`, and in order. -/
structure Span.Placed (text : String) (s : Span) : Prop where
  ordered : s.start ≤ s.stop
  start_placed : Text.Placed text s.start
  stop_placed : Text.Placed text s.stop

namespace ByteRange

variable {text : String} {r : ByteRange}

def clip (text : String) (r : ByteRange) : ByteRange where
  start := Text.clip text r.start
  stop := Text.clip text r.stop
  start_le_stop := Text.clip_le_clip r.start_le_stop

theorem clip_eq (h : r.toSpan.Placed text) : r.clip text = r :=
  ByteRange.ext h.start_placed.clip_eq h.stop_placed.clip_eq

theorem fits_of_placed (h : r.toSpan.Placed text) : r.Fits text :=
  fits_of_cut h.start_placed.cut h.stop_placed.cut

/-- A range of a text is sent to an editor and comes back clipped. -/
theorem exists_range (h : r.Fits text) : ∃ positions,
    (LineIndex.ofText text).range text r = .ok positions ∧
      (LineIndex.ofText text).byteRange? text positions = some (r.clip text) := by
  obtain ⟨start, hstart, hstart'⟩ := LineIndex.exists_position h.2.1
  obtain ⟨stop, hstop, hstop'⟩ := LineIndex.exists_position h.2.2
  refine ⟨⟨start, stop⟩, ?_, ?_⟩
  · unfold LineIndex.range
    rw [hstart, hstop]
    rfl
  · unfold LineIndex.byteRange?
    simp only [hstart', hstop', Option.bind_eq_bind, Option.bind_some]
    exact dif_pos (r.clip text).start_le_stop

end ByteRange

/-- The edit that an editor carries out, if all it knows of the range are positions. -/
def Edit.clip (text : String) (e : Edit) : Edit := { e with range := e.range.clip text }

theorem Edit.clip_eq {text : String} {e : Edit} (h : e.range.toSpan.Placed text) : e.clip text = e := by
  unfold clip
  rw [ByteRange.clip_eq h]

/-- What is put in between `\r` and `\n` stands in front of both after clipping. -/
theorem Edit.applyAll_clip_ne {text : String} {offset : Nat} (inside : InsideCrLf text.toList offset)
    (new : String) {c : Char} {cs : List Char} (hnew : new.toList = c :: cs) (hc : c ≠ '\r') :
    Edit.applyAll text [.insert offset new] ≠
      Edit.applyAll text [(Edit.insert offset new).clip text] := by
  have hclip : Text.clip text offset = offset - 1 := if_pos inside
  obtain ⟨a, b, htext, rfl⟩ := inside
  have hlen : Text.byteLen (a ++ ['\r']) = Text.byteLen a + 1 := Text.byteLen_append ..
  have hfront : Edit.clip text (.insert (Text.byteLen a + 1) new) = .insert (Text.byteLen a) new := by
    unfold Edit.clip ByteRange.clip Edit.insert ByteRange.point
    simp only [hclip, Nat.add_sub_cancel]
  rw [hfront, ← hlen, Edit.applyAll_insert (b := '\n' :: b) (by simpa using htext),
    Edit.applyAll_insert htext]
  intro eq
  have same := String.ofList_injective (Except.ok.inj eq)
  rw [List.append_assoc] at same
  have heads := List.append_cancel_left same
  simp only [hnew, List.cons_append, List.nil_append, List.cons.injEq] at heads
  exact hc heads.1.symm

/-! ### Diagnostics -/

theorem find?_beq_eq_some {items : List String} {item : String} (h : item ∈ items) :
    items.find? (· == item) = some item := by
  cases found : items.find? (· == item) with
  | some other =>
    obtain rfl : other = item := by simpa using List.find?_some found
    rfl
  | none => exact absurd (List.find?_eq_none.1 found item h) (by simp)

theorem FixRegistry.canonicalCode?_eq_some {r : FixRegistry} {code : String} (h : code ∈ r.codes) :
    r.canonicalCode? code = some code := by
  unfold canonicalCode?
  rw [find?_beq_eq_some h]
  rfl

namespace Editor

variable {text : String}

theorem severityOf_severityNumber (s : Severity) : severityOf (some (severityNumber s)) = s := by
  cases s <;> rfl

/-- A diagnostic that an editor is sent comes back as it was. -/
theorem exists_message {fixes : FixRegistry} {d : Diagnostic}
    (small : Text.length text < ByteRange.modulus) (code : d.code ∈ fixes.codes)
    (source : d.source ∈ Source.all) (placed : d.span.Placed text) :
    ∃ m, Message.ofDiagnostic text (.ofText text) d = .ok m ∧
      m.toDiagnostic? text (.ofText text) fixes = some d := by
  have hrange : d.span.toRange = .ok ⟨d.span.start, d.span.stop, placed.ordered⟩ :=
    Span.toRange_eq placed.ordered (Nat.lt_of_le_of_lt placed.stop_placed.le small)
  have hplaced : (ByteRange.mk d.span.start d.span.stop placed.ordered).toSpan.Placed text := placed
  obtain ⟨positions, hsent, hback⟩ := ByteRange.exists_range (ByteRange.fits_of_placed hplaced)
  rw [ByteRange.clip_eq hplaced] at hback
  refine ⟨⟨positions, some (severityNumber d.severity), some (.text d.code), none, some d.source,
    d.message, none, none, d.data⟩, ?_, ?_⟩
  · unfold Message.ofDiagnostic
    rw [hrange]
    simp only [bind, Except.bind, hsent]
    rfl
  · have hsource : Source.known? d.source = some d.source := find?_beq_eq_some source
    simp only [Message.toDiagnostic?, FixRegistry.canonicalCode?_eq_some code, hback, hsource,
      severityOf_severityNumber, bind, Option.bind, Option.getD_some]
    rfl

/-! ### Changes -/

/-- The edit that an editor carries out for a change: none if a position does not exist. -/
def TextChange.toEdit? (text : String) (c : TextChange) : Option Edit :=
  ((LineIndex.ofText text).byteRange? text c.range).map fun range => ⟨range, c.newText⟩

/-- The text of an editor after changes, if they can be carried out. -/
def carryOut? (text : String) (changes : List TextChange) : Option String :=
  (changes.mapM (TextChange.toEdit? text)).bind fun edits => (Edit.applyAll text edits).toOption

/-- An edit that fits the text is carried out by an editor as the clipped one. -/
theorem exists_change {e : Edit} (h : e.range.Fits text) :
    ∃ c, TextChange.ofEdit text (.ofText text) e = .ok c ∧ c.toEdit? text = some (e.clip text) := by
  obtain ⟨positions, hsent, hback⟩ := ByteRange.exists_range h
  refine ⟨⟨positions, e.replacement⟩, ?_, ?_⟩
  · unfold TextChange.ofEdit
    rw [hsent]
    rfl
  · unfold TextChange.toEdit?
    rw [hback]
    rfl

theorem mapM_toEdit? {edits : List Edit} {changes : List TextChange}
    (h : List.Forall₂ (fun e c => c.toEdit? text = some (Edit.clip text e)) edits changes) :
    changes.mapM (TextChange.toEdit? text) = some (edits.map (Edit.clip text)) := by
  induction h with
  | nil => rfl
  | cons hc _ ih =>
    rw [List.mapM_cons, hc, ih]
    rfl

/-! ### Actions -/

/-- The action carries out the proposal: each change stands for the clipped edit, so that an editor
gets what the edits say if all of them are between places outside `\r\n`. -/
structure CarriesOut (unit : CompilationUnit) (uri : String) (m : Message) (p : Proposal)
    (a : CodeAction) : Prop where
  title : a.title = p.label
  origin : a.origin = m
  uri : a.uri = uri
  edits : a.changes.mapM (TextChange.toEdit? unit.text) = some (p.edits.map (Edit.clip unit.text))
  result : (∀ e ∈ p.edits, e.range.toSpan.Placed unit.text) → ∃ out,
    Edit.applyAll unit.text p.edits = .ok out ∧ carryOut? unit.text a.changes = some out

variable {unit : CompilationUnit} {uri : String} {m : Message} {d : Diagnostic}

theorem exists_action {p : Proposal} (hfits : ∀ e ∈ p.edits, e.range.Fits unit.text)
    (happlied : ∃ out, Edit.applyAll unit.text p.edits = .ok out) :
    ∃ a, Service.actionOf unit uri (.ofText unit.text) m p = .ok a ∧ CarriesOut unit uri m p a := by
  obtain ⟨changes, hchanges, hall⟩ := Family.exists_mapM_eq_ok fun e he => exists_change (hfits e he)
  have hedits := mapM_toEdit? hall
  refine ⟨⟨p.label, m, uri, changes⟩, ?_, rfl, rfl, rfl, hedits, fun hplaced => ?_⟩
  · unfold Service.actionOf
    rw [hchanges]
    rfl
  · obtain ⟨out, hout⟩ := happlied
    have hsame : p.edits.map (Edit.clip unit.text) = p.edits := by
      rw [List.map_congr_left fun e he => Edit.clip_eq (hplaced e he), List.map_id']
    refine ⟨out, hout, ?_⟩
    unfold carryOut?
    rw [hedits, hsame, Option.bind_some, hout]
    rfl

theorem fits_of_mem_proposalsFor {r : FixRegistry} {p : Proposal} (hp : p ∈ r.proposalsFor d unit) :
    (∀ e ∈ p.edits, e.range.Fits unit.text) ∧ ∃ out, Edit.applyAll unit.text p.edits = .ok out := by
  unfold FixRegistry.proposalsFor at hp
  split at hp
  · cases hp
  · split at hp
    · obtain ⟨drafted, -, hkept⟩ := List.mem_filterMap.1 hp
      have hfitted := FixRegistry.fitted_of_normalize? hkept
      obtain ⟨out, hout, -⟩ := hfitted.same
      exact ⟨hfitted.fits, out, hout⟩
    · cases hp

theorem exists_codeActions (s : Service) {source : DocumentSource} {token : CancelToken}
    {cancelled : List CancelToken} {range : PositionRange} {selection : ByteRange}
    (loaded : s.load? source uri = some unit) (running : token ∉ cancelled)
    (back : m.toDiagnostic? unit.text (.ofText unit.text) s.fixes = some d)
    (selected : (LineIndex.ofText unit.text).byteRange? unit.text range = some selection)
    (touched : d.span.intersects selection.toSpan) :
    ∃ actions, s.codeActions source token cancelled ⟨uri, range, [m]⟩ = .ok actions ∧
      List.Forall₂ (CarriesOut unit uri m) (s.fixes.proposalsFor d unit) actions := by
  obtain ⟨actions, hactions, hall⟩ := Family.exists_mapM_eq_ok
    (f := Service.actionOf unit uri (.ofText unit.text) m) (P := CarriesOut unit uri m)
    fun p hp => exists_action (fits_of_mem_proposalsFor hp).1 (fits_of_mem_proposalsFor hp).2
  refine ⟨actions, ?_, hall⟩
  have hanswer : s.actionsFor unit uri (.ofText unit.text) selection.toSpan m = .ok actions := by
    unfold Service.actionsFor
    simp only [back, touched, if_true, hactions]
  unfold Service.codeActions
  simp only [List.contains_eq_mem, running, decide_false, Bool.false_eq_true, if_false,
    List.isEmpty_cons, loaded, selected, List.mapM_cons, List.mapM_nil, hanswer]
  show Except.ok (List.flatten [actions]) = _
  simp

/-- Between places outside `\r\n` nothing is lost on the way to an editor and back: neither a
diagnostic, nor an edit. So the editor gets one action for each proposal for a diagnostic that it
shows, and carrying out the action does what the edits of the proposal say; a place inside `\r\n`
becomes the one in front of it. This is so whatever the service parses documents with, and whether or
not there are syntax errors. -/
theorem codeActions_carry_out (text : String) (small : Text.length text < ByteRange.modulus) :
    (∀ (fixes : FixRegistry) (d : Diagnostic), d.code ∈ fixes.codes → d.source ∈ Source.all →
      d.span.Placed text → ∃ m, Message.ofDiagnostic text (.ofText text) d = .ok m ∧
        m.toDiagnostic? text (.ofText text) fixes = some d) ∧
    (∀ e : Edit, e.range.toSpan.Placed text → ∃ c, TextChange.ofEdit text (.ofText text) e = .ok c ∧
      c.toEdit? text = some e) ∧
    ∀ (s : Service) (source : DocumentSource) (uri : String) (unit : CompilationUnit)
      (token : CancelToken) (cancelled : List CancelToken) (d : Diagnostic) (m : Message)
      (range : PositionRange) (selection : ByteRange),
      source uri = .ok text → CompilationUnit.lower? s.parser uri text = some unit →
      token ∉ cancelled →
      d.code ∈ s.fixes.codes → d.source ∈ Source.all → d.span.Placed text →
      Message.ofDiagnostic text (.ofText text) d = .ok m →
      (LineIndex.ofText text).byteRange? text range = some selection →
      d.span.intersects selection.toSpan →
      ∃ actions, s.codeActions source token cancelled ⟨uri, range, [m]⟩ = .ok actions ∧
        List.Forall₂ (CarriesOut unit uri m) (s.fixes.proposalsFor d unit) actions := by
  refine ⟨fun fixes d => exists_message small, fun e hplaced => ?_, ?_⟩
  · obtain ⟨c, hsent, hback⟩ := exists_change (ByteRange.fits_of_placed hplaced)
    rw [Edit.clip_eq hplaced] at hback
    exact ⟨c, hsent, hback⟩
  · intro s source uri unit token cancelled d m range selection read lowered running code known placed
      sent selected touched
    have loaded : s.load? source uri = some unit := by
      unfold Service.load?
      rw [read]
      exact lowered
    obtain ⟨tree, -, rfl⟩ := CompilationUnit.lower?_eq_some_iff.1 lowered
    obtain ⟨m', sent', back⟩ := exists_message small code known placed
    obtain rfl := Except.ok.inj (sent.symm.trans sent')
    exact exists_codeActions s loaded running back selected touched

/-- The changes for a class between two line breaks of two characters. -/
theorem codeActions_carry_out_implements : ∃ unit m actions,
    CompilationUnit.ofText? "file:///A.java" "\r\nclass A \x7b\x7d\r\n" = some unit ∧
    Message.ofDiagnostic "\r\nclass A \x7b\x7d\r\n" (.ofText "\r\nclass A \x7b\x7d\r\n")
      (.error Source.servlet Code.implementFilter "" ⟨8, 9⟩) = .ok m ∧
    (Service.ofSettings {}).codeActions (fun _ => .ok "\r\nclass A \x7b\x7d\r\n") 0 []
      ⟨"file:///A.java", ⟨⟨0, 0⟩, ⟨2, 0⟩⟩, [m]⟩ = .ok actions ∧
    List.Forall₂ (CarriesOut unit "file:///A.java" m)
      (FixRegistry.builtin.proposalsFor (.error Source.servlet Code.implementFilter "" ⟨8, 9⟩) unit)
      actions := by
  have lowered : (CompilationUnit.ofText? "file:///A.java" "\r\nclass A \x7b\x7d\r\n").isSome := by
    decide +kernel
  obtain ⟨unit, lowered⟩ := Option.isSome_iff_exists.1 lowered
  have code : Code.implementFilter ∈ FixRegistry.builtin.codes := by decide +kernel
  have source : Source.servlet ∈ Source.all := by decide
  have placed : (Span.mk 8 9).Placed "\r\nclass A \x7b\x7d\r\n" :=
    ⟨by decide, by decide +kernel, by decide +kernel⟩
  obtain ⟨messages, -, answers⟩ := codeActions_carry_out "\r\nclass A \x7b\x7d\r\n" (by decide)
  obtain ⟨m, sent, -⟩ := messages FixRegistry.builtin
    (.error Source.servlet Code.implementFilter "" ⟨8, 9⟩) code source placed
  obtain ⟨actions, answered, carried⟩ := answers (Service.ofSettings {}) (fun _ => .ok _)
    "file:///A.java" unit 0 [] (.error Source.servlet Code.implementFilter "" ⟨8, 9⟩) m
    ⟨⟨0, 0⟩, ⟨2, 0⟩⟩ ⟨0, 14, by decide⟩ rfl lowered List.not_mem_nil code source placed sent
    (by decide +kernel) (by decide)
  exact ⟨unit, m, actions, lowered, sent, answered, carried⟩

theorem proposalsFor_insert {r : FixRegistry} {fix : Fix} {proposals : List Proposal} {edit : Edit}
    (asked : r.entryFor? d.code = some fix) (proposed : fix.propose d unit = .ok proposals)
    (drafted : proposals.map Proposal.edits = [[edit]]) (fits : edit.range.Fits unit.text) :
    ∃ p, r.proposalsFor d unit = [p] ∧ p.edits = [edit] := by
  obtain ⟨p, none, rfl, edits, rest⟩ := List.map_eq_cons_iff.1 drafted
  obtain rfl := List.map_eq_nil_iff.1 rest
  have normal : FixRegistry.normalize? unit.text p = some p := by
    refine FixRegistry.normalize?_eq_some_iff.2 ⟨by simp [edits], rfl, ?_⟩
    rw [edits]
    exact Edit.normalize_of_separated (List.pairwise_singleton _ _) (by simpa using fits)
  refine ⟨p, ?_, edits⟩
  unfold FixRegistry.proposalsFor
  simp only [asked, proposed, List.filterMap_cons, normal, List.filterMap_nil]

/-- A class with a comment behind `extends`, which is taken for the superclass. -/
def commentedSuperclass : String :=
  "import jakarta.servlet.*;@jakarta.servlet.annotation.WebFilter(\"/\")" ++
    "class A extends//.A\r\nB\x7b\x7d"

/-- The comment ends inside `\r\n`. There the proposal puts the `implements` clause, and an editor in
front of the `\r`. -/
theorem codeActions_misplace_implements : ∃ unit findings d m p a out,
    CompilationUnit.ofText? "file:///A.java" commentedSuperclass = some unit ∧
    (Servlets.filterStructure.collect unit).result = .ok findings ∧ d ∈ findings ∧
    d.code ∈ FixRegistry.builtin.codes ∧ d.source ∈ Source.all ∧ d.span.Placed commentedSuperclass ∧
    Message.ofDiagnostic commentedSuperclass (.ofText commentedSuperclass) d = .ok m ∧
    FixRegistry.builtin.proposalsFor d unit = [p] ∧
    (Service.ofSettings {}).codeActions (fun _ => .ok commentedSuperclass) 0 []
      ⟨"file:///A.java", ⟨⟨0, 73⟩, ⟨0, 74⟩⟩, [m]⟩ = .ok [a] ∧
    Edit.applyAll commentedSuperclass p.edits = .ok out ∧
    carryOut? commentedSuperclass a.changes ≠ some out := by
  have facts : (CompilationUnit.ofText? "file:///A.java" commentedSuperclass).any fun unit =>
      unit.text == commentedSuperclass &&
      (Servlets.filterStructure.collect unit).result.toOption.any fun findings =>
      findings.any fun d => d.code == Code.implementFilter && d.source == Source.servlet &&
        d.span == ⟨73, 74⟩ &&
      (FixRegistry.builtin.entryFor? d.code).any fun fix =>
      (fix.propose d unit).toOption.any
        (·.map Proposal.edits == [[.insert 87 " implements Filter"]]) := by
    decide +kernel
  have code : Code.implementFilter ∈ FixRegistry.builtin.codes := by decide +kernel
  have source : Source.servlet ∈ Source.all := by decide
  have small : Text.length commentedSuperclass < ByteRange.modulus := by decide +kernel
  have placed : (Span.mk 73 74).Placed commentedSuperclass :=
    ⟨by decide, by decide +kernel, by decide +kernel⟩
  have selected : (LineIndex.ofText commentedSuperclass).byteRange? commentedSuperclass
      ⟨⟨0, 73⟩, ⟨0, 74⟩⟩ = some ⟨73, 74, by decide⟩ := by decide +kernel
  have inside : InsideCrLf commentedSuperclass.toList 87 := by decide +kernel
  simp only [Option.any_eq_true, List.any_eq_true, Bool.and_eq_true, beq_iff_eq] at facts
  obtain ⟨unit, lowered, same, findings, collected, d, found, ⟨⟨code_eq, source_eq⟩, span_eq⟩, fix,
    asked, proposals, proposed, drafted⟩ := facts
  rw [← code_eq] at code
  rw [← source_eq] at source
  rw [← span_eq] at placed
  rw [← same] at small placed selected inside lowered ⊢
  have fits : (Edit.insert 87 " implements Filter").range.Fits unit.text :=
    Edit.fits_insert (Text.isBoundary_iff.2 inside.cutAt)
  obtain ⟨p, handed, edits⟩ :=
    proposalsFor_insert asked (eq_ok_of_toOption proposed) drafted fits
  obtain ⟨m, sent, back⟩ := exists_message small code source placed
  have loaded : (Service.ofSettings {}).load? (fun _ => .ok unit.text) "file:///A.java" =
      some unit := lowered
  have running : (0 : CancelToken) ∉ [] := List.not_mem_nil
  have touched : d.span.intersects (ByteRange.mk 73 74 (by decide)).toSpan := by
    rw [span_eq]
    decide
  obtain ⟨actions, answered, carried⟩ :=
    exists_codeActions (Service.ofSettings {}) loaded running back selected touched
  obtain ⟨out, applied⟩ := (fits_of_mem_proposalsFor (handed ▸ List.mem_singleton_self p)).2
  rw [show (Service.ofSettings {}).fixes = FixRegistry.builtin from rfl, handed] at carried
  cases carried with
  | cons carries none =>
    rename_i a rest
    cases none
    refine ⟨unit, findings, d, m, p, a, out, lowered, eq_ok_of_toOption collected, found, code, source,
      placed, sent, handed, answered, applied, fun carried => ?_⟩
    unfold carryOut? at carried
    rw [carries.edits, Option.bind_some, edits] at carried
    rw [edits] at applied
    have blank : ' ' ≠ '\r' := by decide
    exact Edit.applyAll_clip_ne inside " implements Filter" rfl blank
      (applied.trans (eq_ok_of_toOption carried).symm)

end Editor

end JakartaCheck
