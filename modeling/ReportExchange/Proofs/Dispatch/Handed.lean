import ReportExchange.Dispatch.Send
import ReportExchange.Proofs.Report.Envelope

namespace ReportExchange

-- The event is no message that leaves.
def SendEvent.Stays (event : SendEvent) : Prop :=
  ∀ t payload, event ≠ .handed t payload

namespace Office

variable {Link α β : Type}

section Run

variable {m : Run Link α} {f : α → Run Link β} {line line' line'' : Line Link} {a : α} {b : β}
  {error : SendError}

theorem bind_run (m : Run Link α) (f : α → Run Link β) (line : Line Link) :
    (m >>= f) line = ExceptT.bindCont f (m line).1 (m line).2 :=
  rfl

theorem bind_of_ok (h : m line = (.ok a, line')) : (m >>= f) line = f a line' := by
  rw [bind_run, h]
  rfl

theorem bind_of_error (h : m line = (.error error, line')) :
    (m >>= f) line = (.error error, line') := by
  rw [bind_run, h]
  rfl

theorem bind_ok (h : (m >>= f) line = (.ok b, line'')) :
    ∃ a line', m line = (.ok a, line') ∧ f a line' = (.ok b, line'') := by
  rcases hm : m line with ⟨result, line'⟩
  cases result
  case error => rw [bind_of_error hm] at h; cases h
  case ok a  => exact ⟨a, line', rfl, (bind_of_ok hm).symm.trans h⟩

theorem bindCont_ok (f : α → Run Link β) (a : α) (line : Line Link) :
    ExceptT.bindCont (m := StateM (Line Link)) f (.ok a) line = f a line :=
  rfl

theorem note_run (event : SendEvent) (line : Line Link) :
    (note event : Run Link Unit) line = (.ok (), { line with events := line.events ++ [event] }) :=
  rfl

theorem get_run (line : Line Link) : (get : Run Link (Line Link)) line = (.ok line, line) :=
  rfl

theorem set_run (line line' : Line Link) : (set line' : Run Link PUnit) line = (.ok ⟨⟩, line') :=
  rfl

-- The run notes events of a kind, and leaves those that there are.
def Notes (P : SendEvent → Prop) (m : Run Link α) : Prop :=
  ∀ line, ∃ new, (m line).2.events = line.events ++ new ∧ ∀ event ∈ new, P event

namespace Notes

variable {P : SendEvent → Prop}

theorem pure (a : α) : Notes P (Pure.pure a : Run Link α) :=
  fun _ => ⟨[], (List.append_nil _).symm, List.forall_mem_nil _⟩

theorem throw (error : SendError) : Notes P (MonadExcept.throw error : Run Link α) :=
  fun _ => ⟨[], (List.append_nil _).symm, List.forall_mem_nil _⟩

theorem note {event : SendEvent} (h : P event) : Notes P (note event : Run Link Unit) :=
  fun _ => ⟨[event], rfl, List.forall_mem_singleton.mpr h⟩

-- Whatever a run has noted, what follows it adds to that.
theorem events_bind (m : Run Link α) (hf : ∀ a, Notes P (f a)) (line : Line Link) :
    ∃ more, ((m >>= f) line).2.events = (m line).2.events ++ more ∧ ∀ event ∈ more, P event := by
  rcases hm : m line with ⟨result, line'⟩
  cases result
  case error => exact ⟨[], by rw [bind_of_error hm, List.append_nil], List.forall_mem_nil _⟩
  case ok a  => exact bind_of_ok hm ▸ hf a line'

theorem bind (hm : Notes P m) (hf : ∀ a, Notes P (f a)) : Notes P (m >>= f) := by
  intro line
  obtain ⟨new, hn, hp⟩ := hm line
  obtain ⟨more, hm, hq⟩ := events_bind m hf line
  exact ⟨new ++ more, by rw [hm, hn, List.append_assoc], List.forall_mem_append.mpr ⟨hp, hq⟩⟩

end Notes

end Run

section Send

variable {o : Office Link} {report : Report} {op : Operation} {stamp : Stamp} {t : OperationType}
  {payload : String} {e : Exported} {line line' : Line Link}

theorem askDataset_run (o : Office Link) (id : String) (line : Line Link) :
    o.askDataset id line = ((o.transport.dataset id line.link).1.mapError .transport,
      ⟨(o.transport.dataset id line.link).2, line.events ++ [.asked id]⟩) := by
  simp only [askDataset, bind_run, note_run, bindCont_ok, get_run, set_run]
  cases (o.transport.dataset id line.link).1 <;> rfl

theorem handOver_run (o : Office Link) (t : OperationType) (payload : String) (line : Line Link) :
    o.handOver t payload line = ((o.transport.send t payload line.link).1.mapError .transport,
      ⟨(o.transport.send t payload line.link).2, line.events ++ [.handed t payload]⟩) := by
  simp only [handOver, bind_run, note_run, bindCont_ok, get_run, set_run]
  cases (o.transport.send t payload line.link).1 <;> rfl

theorem notes_checkRemote : Notes SendEvent.Stays (o.checkRemote report t) := by
  rw [checkRemote]
  cases t.carriesDataset <;> cases report.datasetId
  case true.some id =>
    refine Notes.bind (fun line => ⟨[.asked id], by rw [askDataset_run], by simp [SendEvent.Stays]⟩)
      fun remote => ?_
    cases remote
    case none => exact .pure ()
    case some remote =>
      dsimp only
      split
      case isTrue  => exact .pure ()
      case isFalse => exact .throw _
  case true.none  => exact .pure ()
  case false.none => exact .throw _
  case false.some => exact .pure ()

theorem notes_progress (n : Nat) : Notes SendEvent.Stays (note (.progress n) : Run Link Unit) :=
  .note fun _ _ => by simp

-- Nothing leaves before the export is done.
theorem notes_prepare (o : Office Link) (report : Report) (op : Operation) (stamp : Stamp) :
    Notes SendEvent.Stays (o.prepare report op stamp) := by
  have hgate : Notes SendEvent.Stays (gate report op.opType : Run Link Unit) := by
    rw [gate]
    split
    case isTrue  => exact .pure ()
    case isFalse => exact .throw _
  have hexport : Notes SendEvent.Stays
      (prepare.liftExcept (o.exportClean report op stamp) : Run Link Exported) := by
    cases o.exportClean report op stamp
    case error => exact .throw _
    case ok e  => exact .pure e
  exact hgate.bind fun _ => (notes_progress 1).bind fun _ => notes_checkRemote.bind fun _ =>
    (notes_progress 3).bind fun _ => hexport.bind fun _ => (notes_progress 6).bind fun _ => .pure _

theorem prepare_ok (h : o.prepare report op stamp line = (.ok e, line')) :
    report.status.permits (.send op.opType) ∧ o.exportClean report op stamp = .ok e := by
  obtain ⟨_, _, hgate, h⟩ := bind_ok h
  obtain ⟨_, _, _, h⟩ := bind_ok h
  obtain ⟨_, _, _, h⟩ := bind_ok h
  obtain ⟨_, _, _, h⟩ := bind_ok h
  obtain ⟨e', _, hexport, h⟩ := bind_ok h
  obtain ⟨_, _, _, h⟩ := bind_ok h
  cases h
  constructor
  case left =>
    rw [gate] at hgate
    split at hgate
    case isTrue hp => exact hp
    case isFalse   => cases hgate
  case right =>
    cases he : o.exportClean report op stamp <;> rw [he] at hexport <;> cases hexport
    rfl

-- Handing over is the first thing that is done with an exported message, and is done once.
theorem deliver_events (o : Office Link) (t : OperationType) (e : Exported) (line : Line Link) :
    ∃ new, (o.deliver t e line).2.events = line.events ++ [.handed t e.document] ++ new ∧
      ∀ event ∈ new, event.Stays := by
  obtain ⟨new, hn, hs⟩ := Notes.events_bind (o.handOver t e.document)
    (fun _ => (notes_progress 10).bind fun _ => .pure _) line
  rw [handOver_run] at hn
  exact ⟨new, hn, hs⟩

theorem announce_stays (result : Except SendError Receipt) : (announce result).Stays := by
  intro t payload
  cases result <;> simp [announce]

theorem exportReport_of_exportClean (h : o.exportClean report op stamp = .ok e) :
    exportReport o.archive o.sender stamp report.root op = .ok e := by
  rw [exportClean] at h
  split at h
  case h_1 => cases h
  case h_2 he =>
    split at h
    case isFalse => cases h
    case isTrue  => cases h; exact he

-- A message has left if and only if all that comes before that went well.
theorem handed_iff_prepared (hn : .handed t payload ∉ line.events) :
    .handed t payload ∈ (o.send report op stamp line).2.events ↔
      t = op.opType ∧ ∃ e line', o.prepare report op stamp line = (.ok e, line') ∧
        payload = e.document := by
  obtain ⟨notes, he, hstay⟩ := notes_prepare o report op stamp line
  rcases hp : o.prepare report op stamp line with ⟨result, mid⟩
  rw [hp] at he
  have hmid : .handed t payload ∉ mid.events := by
    rw [he, List.mem_append]
    exact fun hm => hm.elim hn fun hm => hstay _ hm t payload rfl
  cases result
  case error error =>
    have hs : (o.send report op stamp line).2.events = mid.events ++ [announce (.error error)] := by
      rw [send, bind_of_error hp]
    rw [hs, List.mem_append, List.mem_singleton]
    constructor
    case mp =>
      exact fun h => absurd (h.resolve_left hmid).symm (announce_stays _ t payload)
    case mpr =>
      rintro ⟨_, e, line', h, _⟩
      cases h
  case ok e =>
    obtain ⟨new, hd, hnew⟩ := o.deliver_events op.opType e mid
    have hs : (o.send report op stamp line).2.events =
        (o.deliver op.opType e mid).2.events ++ [announce (o.deliver op.opType e mid).1] := by
      rw [send, bind_of_ok hp]
      rfl
    rw [hs, hd]
    simp only [List.mem_append, List.mem_singleton]
    constructor
    case mp =>
      rintro (((h | h) | h) | h)
      · exact absurd h hmid
      · cases h
        exact ⟨rfl, e, mid, rfl, rfl⟩
      · exact absurd rfl (hnew _ h t payload)
      · exact absurd h.symm (announce_stays _ t payload)
    case mpr =>
      rintro ⟨rfl, e', line', h, rfl⟩
      cases h
      exact .inl (.inl (.inr rfl))

-- A message that has left is the one that was exported for the operation, after the gate.
theorem handed_of_send (h : .handed t payload ∈ (o.send report op stamp line).2.events)
    (hn : .handed t payload ∉ line.events) :
    t = op.opType ∧ report.status.permits (.send t) ∧
      ∃ e, o.exportClean report op stamp = .ok e ∧ payload = e.document := by
  obtain ⟨rfl, e, line', hp, rfl⟩ := (handed_iff_prepared hn).mp h
  have ⟨hpermit, hexport⟩ := prepare_ok hp
  exact ⟨rfl, hpermit, e, hexport, rfl⟩

end Send

end Office

theorem OperationType.read?_name (t : OperationType) : read? t.name = some t := by
  cases t <;> decide +kernel

open Office in
-- The message that leaves carries a dataset if the operation does that has passed the gate, and the
-- operation type written in it is that of this operation, unless the root states another one.
theorem handed_operation {Link : Type} {o : Office Link} {report : Report} {op : Operation}
    {stamp : Stamp} {link : Link} {t : OperationType} {payload : String}
    (h : .handed t payload ∈ (o.send report op stamp { link }).2.events) :
    t = op.opType ∧ report.status.permits (.send t) ∧
    ∃ e, exportReport o.archive o.sender stamp report.root op = .ok e ∧ payload = e.document ∧
      e.message.dataset.isSome = t.carriesDataset ∧
      (∀ text, (.opType, text) ∈ e.message.operation ↔
        text = (o.archive.stated report.root .operation "opType").getD t.name) ∧
      ((∀ text, (.opType, text) ∈ e.message.operation → OperationType.read? text = some t ∧
          (e.message.dataset.isSome ↔
            ∃ w, OperationType.read? text = some w ∧ w.carriesDataset)) ↔
        ∀ code, o.archive.stated report.root .operation "opType" = some code →
          OperationType.read? code = some t) := by
  obtain ⟨rfl, hp, e, he, rfl⟩ := handed_of_send h (by simp)
  have hx := exportReport_of_exportClean he
  have ⟨_, _, _, hd⟩ := envelope_of_exportReport hx
  have hmem (text : String) : (.opType, text) ∈ e.message.operation ↔
      text = (o.archive.stated report.root .operation "opType").getD op.opType.name := by
    have hg : Message.value? op.fields .opType = some op.opType.name := rfl
    have ht : OperationField.opType.tag = "opType" := rfl
    rw [mem_exported_operation_iff hx, hg, ht]
    cases o.archive.stated report.root .operation "opType" <;> simp [eq_comm]
  refine ⟨rfl, hp, e, hx, rfl, hd, hmem, ?_⟩
  constructor
  case mp =>
    intro hall code hc
    exact (hall code ((hmem code).mpr (by rw [hc, Option.getD_some]))).1
  case mpr =>
    intro hs text ht
    have hr : OperationType.read? text = some op.opType := by
      rw [(hmem text).mp ht]
      cases hc : o.archive.stated report.root .operation "opType"
      case none      => exact OperationType.read?_name op.opType
      case some code => exact hs code hc
    exact ⟨hr, by simp [hr, hd]⟩

namespace Lots

-- A connection that takes every message.
def office : Office Unit where
  archive := archive
  sender  := sender
  transport := {
    send _ _ _  := (.ok ⟨["OK"], none, none, ""⟩, ())
    dataset _ _ := (.ok none, ())
    ack _ _     := (.error .noConnection, ()) }

def report (root : Row) : Report where
  root   := root
  status := .draft

def isHanded (t : OperationType) : SendEvent → Bool
  | .handed t' _ => t' = t
  | _ => false

theorem exists_handed (t : OperationType) (root : Row) (op : Operation)
    (h : (office.send (report root) op stamp { link := () }).2.events.any (isHanded t)) :
    ∃ payload, .handed t payload ∈ (office.send (report root) op stamp { link := () }).2.events := by
  obtain ⟨event, hm, hh⟩ := List.any_eq_true.mp h
  cases event <;> simp only [isHanded, decide_eq_true_eq, Bool.false_eq_true] at hh
  case handed payload => exact ⟨payload, hh ▸ hm⟩

end Lots

open Lots in
theorem handed_operation_lots :
    ∃ (payload : String) (e : Exported), .handed .insert payload ∈
        (office.send (report plain) { opType := .insert } stamp { link := () }).2.events ∧
      payload = e.document ∧ e.message.dataset.isSome ∧
      (.opType, "Insert") ∈ e.message.operation := by
  obtain ⟨payload, h⟩ := exists_handed .insert plain { opType := .insert } (by decide +kernel)
  obtain ⟨_, _, e, _, hp, hd, hmem, _⟩ := handed_operation h
  refine ⟨payload, e, h, hp, hd, (hmem "Insert").mpr ?_⟩
  decide +kernel

-- An operation column takes the place of the operation type, and of nothing else that goes by it.
open Lots in
theorem handed_operation_overridden :
    ¬ ∀ (o : Office Unit) (report : Report) (op : Operation) (stamp : Stamp) (t : OperationType)
      (payload : String), o.archive.Sound → o.archive.Holds report.root →
      .handed t payload ∈ (o.send report op stamp { link := () }).2.events →
      ∃ e, exportReport o.archive o.sender stamp report.root op = .ok e ∧ payload = e.document ∧
        ∀ text, (.opType, text) ∈ e.message.operation → OperationType.read? text = some t ∧
          (e.message.dataset.isSome ↔
            ∃ w, OperationType.read? text = some w ∧ w.carriesDataset) := by
  intro h
  obtain ⟨payload, hh⟩ := exists_handed .insert stating { opType := .insert } (by decide +kernel)
  obtain ⟨e, he, _, hall⟩ := h office (report stating) _ stamp _ payload sound (by decide) hh
  have hs : archive.stated stating .operation OperationField.opType.tag = some "Submit" := by
    decide +kernel
  have hw := mem_exported_operation_iff he |>.mpr (by rw [report, office, hs, Option.some_or])
  have hn : OperationType.read? "Submit" = some .submit := OperationType.read?_name .submit
  cases hn.symm.trans (hall _ hw).1

end ReportExchange
