import ReportExchange.Proofs.Intake.Awaits
import ReportExchange.Proofs.Intake.Calls

namespace ReportExchange

open Xml Grammar

-- Takes every field, and keeps it as it is.
def Assembler.verbatim : Assembler Fields Fields where
  blank                 := []
  field fields tag text := .ok (fields ++ [(tag, text)])
  finish                := id

namespace Parser

variable {Draft Record : Type} {a : Assembler Draft Record} {readings : List Reading}
variable {es : List Event}

theorem all_of_isDocument (hr : readings.map (·.event) = es.map .ok ++ [.ok .done])
    (hd : .done ∉ es) {blocks : List Block} (hb : IsDocument (es.flatMap Event.tokens) blocks)
    {rs : List Record} (hm : a.Makes (blocks.flatMap (·.results)) rs) :
    ∃ given p, (ofReadings readings : Parser Draft).all a = (given, none, p) ∧
      given.map (·.1) = rs ∧ p.intake = ⟨.finished,
        recorded (fun _ => none) (blocks.flatMap (·.headerFields)),
        recorded (fun _ => none) (blocks.flatMap (·.operationFields))⟩ :=
  all_ofReadings hr ((Intake.takes_iff_isDocument hd).mpr ⟨blocks, hb, hm, rfl, rfl⟩) rfl

theorem isDocument_of_all (hr : readings.map (·.event) = es.map .ok ++ [.ok .done])
    (hd : .done ∉ es) {given : List (Record × Nat)} {p : Parser Draft}
    (h : (ofReadings readings).all a = (given, none, p)) :
    ∃ blocks, IsDocument (es.flatMap Event.tokens) blocks ∧
      ∃ rs, a.Makes (blocks.flatMap (·.results)) rs := by
  obtain ⟨ht, hp⟩ := takes_of_all_none hr hd h
  rcases hi : p.intake with ⟨place, header, operation⟩
  rw [hi] at ht hp
  obtain rfl : place = .finished := hp
  obtain ⟨blocks, hb, hm, _⟩ := (Intake.takes_iff_isDocument hd).mp ht
  exact ⟨blocks, hb, given.map (·.1), hm⟩

-- Events that can all be decoded are read without a fault if and only if they are a document. There
-- is then one record for every result, and the last value of every field of the envelope.
theorem accepts_documents (h : a.Accepting)
    (hr : readings.map (·.event) = es.map .ok ++ [.ok .done]) (hd : .done ∉ es) :
    ∃ given error p, (ofReadings readings).all a = (given, error, p) ∧
      (error = none ↔ ∃ blocks, IsDocument (es.flatMap Event.tokens) blocks) ∧
      ∀ blocks, IsDocument (es.flatMap Event.tokens) blocks →
        a.Makes (blocks.flatMap (·.results)) (given.map (·.1)) ∧
        p.intake.place = .finished ∧
        p.intake.header = recorded (fun _ => none) (blocks.flatMap (·.headerFields)) ∧
        p.intake.operation = recorded (fun _ => none) (blocks.flatMap (·.operationFields)) := by
  rcases hall : (ofReadings readings).all a with ⟨given, error, p⟩
  have accepted : ∀ {blocks}, IsDocument (es.flatMap Event.tokens) blocks →
      ∃ rs, a.Makes (blocks.flatMap (·.results)) rs ∧ given.map (·.1) = rs ∧ error = none ∧
        p.intake = ⟨.finished, recorded (fun _ => none) (blocks.flatMap (·.headerFields)),
          recorded (fun _ => none) (blocks.flatMap (·.operationFields))⟩ := by
    intro blocks hb
    obtain ⟨rs, hm⟩ := h.exists_makes (blocks.flatMap (·.results))
    obtain ⟨given', p', hall', hg, hp⟩ := all_of_isDocument hr hd hb hm
    cases hall.symm.trans hall'
    exact ⟨rs, hm, hg, rfl, hp⟩
  refine ⟨given, error, p, rfl, ⟨?found, ?given⟩, ?result⟩
  case found =>
    rintro rfl
    obtain ⟨blocks, hb, _⟩ := isDocument_of_all hr hd hall
    exact ⟨blocks, hb⟩
  case given =>
    rintro ⟨blocks, hb⟩
    obtain ⟨_, _, _, he, _⟩ := accepted hb
    exact he
  case result =>
    intro blocks hb
    obtain ⟨rs, hm, rfl, _, hp⟩ := accepted hb
    exact ⟨hm, by rw [hp], by rw [hp], by rw [hp]⟩

-- A message with everything that does not count, a field in pieces, and one that is stated twice.
def scattered : List Event :=
  [.aside, .text "\n", .opening Tag.message, .opening Tag.header, .empty "senderId", .cdata " ",
    .opening "senderId", .text "laboratory", .closing, .closing, .empty Tag.payload,
    .opening Tag.payload, .empty Tag.operation, .opening Tag.dataset, .opening Tag.result,
    .opening "cell", .text " a", .aside, .cdata "<b", .closing, .text " ", .empty "note", .closing,
    .empty Tag.result, .closing, .closing, .closing, .aside]

def scatteredReadings : List Reading :=
  (scattered ++ [Event.done]).map fun e => ⟨0, 0, .ok e⟩

theorem accepts_documents_scattered :
    Assembler.verbatim.Accepting ∧
      scatteredReadings.map (·.event) = scattered.map .ok ++ [.ok .done] ∧
      Event.done ∉ scattered ∧
      ∃ given p blocks, (ofReadings scatteredReadings).all Assembler.verbatim = (given, none, p) ∧
        IsDocument (scattered.flatMap Event.tokens) blocks ∧
        Assembler.verbatim.Makes (blocks.flatMap (·.results)) (given.map (·.1)) ∧
        given.map (·.1) = [[("cell", " a<b"), ("note", "")], []] ∧
        p.intake.header .senderId = some "laboratory" := by
  have ha : Assembler.verbatim.Accepting := fun _ _ _ => rfl
  have hr : scatteredReadings.map (·.event) = scattered.map .ok ++ [.ok .done] := rfl
  have hd : Event.done ∉ scattered := by decide
  obtain ⟨given, error, p, hall, hiff, hgiven⟩ := accepts_documents ha hr hd
  have hrun : let run := (ofReadings scatteredReadings).all Assembler.verbatim
      run.2.1 = none ∧ run.1.map (·.1) = [[("cell", " a<b"), ("note", "")], []] ∧
        run.2.2.intake.header .senderId = some "laboratory" := by decide +kernel
  rw [hall] at hrun
  obtain ⟨he, hg, hs⟩ := hrun
  cases he
  obtain ⟨blocks, hb⟩ := hiff.mp rfl
  exact ⟨ha, hr, hd, given, p, blocks, hall, hb, (hgiven blocks hb).1, hg, hs⟩

end Parser

end ReportExchange
