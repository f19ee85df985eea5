import ReportExchange.Proofs.Dispatch.Handed

namespace ReportExchange

namespace Office

variable {Link α β : Type}

section Run

variable {m : Run Link α} {f : α → Run Link β} {line line' : Line Link} {a : α} {error : SendError}

-- A run that comes to an end because the connection has failed.
def Breaks (m : Run Link α) (line : Line Link) : Prop :=
  ∃ error, (m line).1 = .error error ∧ error.reachedTransport

theorem breaks_of_error (h : m line = (.error error, line')) :
    Breaks m line ↔ error.reachedTransport := by
  rw [Breaks, h]
  constructor
  case mp  => rintro ⟨_, ⟨⟩, he⟩; exact he
  case mpr => exact fun he => ⟨error, rfl, he⟩

theorem not_breaks_of_ok (h : m line = (.ok a, line')) : ¬Breaks m line := by
  rw [Breaks, h]
  rintro ⟨_, ⟨⟩, _⟩

theorem breaks_bind_iff :
    Breaks (m >>= f) line ↔
      Breaks m line ∨ ∃ a line', m line = (.ok a, line') ∧ Breaks (f a) line' := by
  rcases hm : m line with ⟨result, mid⟩
  cases result
  case error error =>
    rw [breaks_of_error (bind_of_error hm), breaks_of_error hm]
    exact (or_iff_left fun ⟨_, _, h, _⟩ => by cases h).symm
  case ok a =>
    have hf : Breaks (m >>= f) line ↔ Breaks (f a) mid := by rw [Breaks, bind_of_ok hm, Breaks]
    rw [hf, or_iff_right (not_breaks_of_ok hm)]
    constructor
    case mp  => exact fun h => ⟨a, mid, rfl, h⟩
    case mpr => rintro ⟨_, _, h, hb⟩; cases h; exact hb

theorem not_breaks_pure (a : α) : ¬Breaks (pure a : Run Link α) line :=
  not_breaks_of_ok rfl

theorem breaks_throw_iff : Breaks (throw error : Run Link α) line ↔ error.reachedTransport :=
  breaks_of_error rfl

-- To note something is never what goes wrong.
theorem breaks_note_bind_iff {event : SendEvent} {f : Unit → Run Link β} :
    Breaks (note event >>= f) line ↔
      Breaks (f ()) { line with events := line.events ++ [event] } := by
  rw [Breaks, bind_of_ok (note_run event line), Breaks]

-- A question to the connection breaks a run if the answer is an error.
theorem breaks_of_mapError {answer : Except TransportError α}
    (h : m line = (answer.mapError .transport, line')) :
    Breaks m line ↔ ∃ cause, answer = .error cause := by
  cases answer
  case error cause => simp [breaks_of_error h, SendError.reachedTransport]
  case ok a        => simp [not_breaks_of_ok h]

end Run

section Send

variable {o : Office Link} {report : Report} {op : Operation} {stamp : Stamp} {t : OperationType}
  {link : Link} {line line' : Line Link} {error : SendError}

-- There may be a remote dataset in the way, and the connection fails to say so.
def Unanswered (o : Office Link) (report : Report) (t : OperationType) (link : Link) : Prop :=
  t.carriesDataset ∧
    ∃ id cause, report.datasetId = some id ∧ (o.transport.dataset id link).1 = .error cause

theorem breaks_checkRemote_iff :
    Breaks (o.checkRemote report t) line ↔ o.Unanswered report t line.link := by
  rw [checkRemote, Unanswered]
  cases t.carriesDataset <;> cases report.datasetId
  case false.none => simp [breaks_throw_iff, SendError.reachedTransport]
  case false.some => simp [not_breaks_pure]
  case true.none  => simp [not_breaks_pure]
  case true.some id =>
    dsimp only
    rw [breaks_bind_iff, breaks_of_mapError (askDataset_run o id line), or_iff_left]
    case _ => simp
    case _ =>
      -- Whatever is made of an answer, it is no failure of the connection.
      rintro ⟨remote, line', _, h⟩
      cases remote
      case none => exact not_breaks_pure () h
      case some remote =>
        dsimp only at h
        split at h
        case isTrue  => exact not_breaks_pure () h
        case isFalse => cases breaks_throw_iff.mp h

theorem not_breaks_exportClean :
    ¬Breaks (prepare.liftExcept (o.exportClean report op stamp) : Run Link Exported) line := by
  rw [exportClean]
  intro h
  split at h
  case h_1 => cases breaks_throw_iff.mp h
  case h_2 =>
    split at h
    case isTrue  => exact not_breaks_pure _ h
    case isFalse => cases breaks_throw_iff.mp h

-- Before the message leaves, the connection can fail over the remote dataset only.
theorem breaks_prepare_iff :
    Breaks (o.prepare report op stamp) line ↔
      report.status.permits (.send op.opType) ∧ o.Unanswered report op.opType line.link := by
  have hexport (line : Line Link) : ¬Breaks (do
      let exported ← prepare.liftExcept (o.exportClean report op stamp)
      note (.progress 6)
      return exported : Run Link Exported) line := by
    rw [breaks_bind_iff, or_iff_right not_breaks_exportClean]
    rintro ⟨exported, line', _, h⟩
    exact not_breaks_pure exported (breaks_note_bind_iff.mp h)
  have hcheck : Breaks (do
      note (.progress 1)
      o.checkRemote report op.opType
      note (.progress 3)
      let exported ← prepare.liftExcept (o.exportClean report op stamp)
      note (.progress 6)
      return exported : Run Link Exported) line ↔ o.Unanswered report op.opType line.link := by
    rw [breaks_note_bind_iff, breaks_bind_iff, breaks_checkRemote_iff, or_iff_left]
    rintro ⟨_, line', _, h⟩
    exact hexport _ (breaks_note_bind_iff.mp h)
  rw [prepare, breaks_bind_iff, gate, ← hcheck]
  split
  case isTrue hp =>
    rw [or_iff_right (not_breaks_pure ())]
    constructor
    case mp  => rintro ⟨_, _, h, hb⟩; cases h; exact ⟨hp, hb⟩
    case mpr => exact fun h => ⟨(), line, rfl, h.2⟩
  case isFalse hp =>
    refine iff_of_false ?_ fun h => hp h.1
    rintro (h | ⟨_, _, h, _⟩)
    case inl => cases breaks_throw_iff.mp h
    case inr => cases h

-- A message that has left can only fail to arrive.
theorem reachedTransport_of_deliver {exported : Exported}
    (h : o.deliver t exported line = (.error error, line')) : error.reachedTransport := by
  have hb : Breaks (o.deliver t exported) line := by
    rcases hs : (o.transport.send t exported.document line.link).1 with cause | ack
    case error =>
      exact breaks_bind_iff.mpr (.inl ((breaks_of_mapError (handOver_run ..)).mpr ⟨cause, hs⟩))
    case ok =>
      have hr := handOver_run o t exported.document line
      rw [hs] at hr
      rw [deliver, bind_of_ok hr] at h
      cases h
  exact (breaks_of_error h).mp hb

theorem failedVersion_inFlight (t : OperationType) :
    ∃ failed, t.inFlight.failedVersion = some failed := by
  cases t <;> exact ⟨_, rfl⟩

-- A failed send moves the status if and only if the connection has failed.
theorem statusAfter_ne_iff {current : Status} :
    error.statusAfter t current ≠ current ↔
      error.reachedTransport ∧ t.inFlight.failedVersion ≠ some current := by
  obtain ⟨failed, hf⟩ := failedVersion_inFlight t
  rw [SendError.statusAfter, hf]
  cases error.reachedTransport <;> simp

theorem send_of_prepare_error (h : o.prepare report op stamp line = (.error error, line')) :
    (o.send report op stamp line).1 = .error error := by
  rw [send, bind_of_error h]

theorem send_of_prepare_ok {exported : Exported}
    (h : o.prepare report op stamp line = (.ok exported, line')) :
    (o.send report op stamp line).1 = (o.deliver op.opType exported line').1 := by
  rw [send, bind_of_ok h]
  rfl

-- The connection fails while a report is sent if its message has been handed over in vain, or if
-- nothing could be handed over because the connection failed before that.
theorem reachedTransport_iff (h : (o.send report op stamp { link }).1 = .error error) :
    error.reachedTransport ↔
      (∃ payload, .handed op.opType payload ∈ (o.send report op stamp { link }).2.events) ∨
        report.status.permits (.send op.opType) ∧ o.Unanswered report op.opType link := by
  have hbreaks : Breaks (o.prepare report op stamp) { link } ↔
      report.status.permits (.send op.opType) ∧ o.Unanswered report op.opType link :=
    breaks_prepare_iff
  have hhanded : ∀ payload,
      .handed op.opType payload ∈ (o.send report op stamp { link }).2.events ↔
        ∃ e line', o.prepare report op stamp { link } = (.ok e, line') ∧ payload = e.document :=
    fun _ => (handed_iff_prepared List.not_mem_nil).trans (and_iff_right rfl)
  simp only [hhanded]
  rcases hp : o.prepare report op stamp { link } with ⟨result, mid⟩
  cases result
  case error cause =>
    cases (send_of_prepare_error hp).symm.trans h
    rw [← hbreaks, breaks_of_error hp, or_iff_right]
    rintro ⟨_, _, _, h, _⟩
    cases h
  case ok exported =>
    have hd := (send_of_prepare_ok hp).symm.trans h
    have hr : error.reachedTransport := reachedTransport_of_deliver (Prod.ext hd rfl)
    exact iff_of_true hr (.inl ⟨exported.document, exported, mid, rfl, rfl⟩)

-- Nothing leaves while nobody can say what is there already.
theorem not_handed_of_unanswered {payload : String} (h : o.Unanswered report op.opType link) :
    .handed t payload ∉ (o.send report op stamp { link }).2.events := by
  rw [handed_iff_prepared List.not_mem_nil]
  rintro ⟨_, exported, _, hp, _⟩
  exact not_breaks_of_ok hp (breaks_prepare_iff.mpr ⟨(prepare_ok hp).1, h⟩)

-- A send that fails moves the status of the report if its message has been handed over, and also if
-- the connection fails before that, over the remote dataset, when nothing has been handed over. In
-- all other cases the report stays as it is.
theorem status_moves_iff (h : (o.send report op stamp { link }).1 = .error error) :
    (error.statusAfter op.opType report.status ≠ report.status ↔
      op.opType.inFlight.failedVersion ≠ some report.status ∧
        ((∃ payload, .handed op.opType payload ∈ (o.send report op stamp { link }).2.events) ∨
          report.status.permits (.send op.opType) ∧ o.Unanswered report op.opType link)) ∧
    (o.Unanswered report op.opType link → ∀ t payload,
      .handed t payload ∉ (o.send report op stamp { link }).2.events) := by
  refine ⟨?_, fun hu _ _ => not_handed_of_unanswered hu⟩
  rw [statusAfter_ne_iff, reachedTransport_iff h]
  exact and_comm

end Send

end Office

namespace Lots

-- A connection that refuses every message, and knows of no dataset.
def closed : Office Unit where
  archive := archive
  sender  := sender
  transport := {
    send _ _ _  := (.error .forbidden, ())
    dataset _ _ := (.ok none, ())
    ack _ _     := (.error .noConnection, ()) }

-- A connection that is down.
def offline : Office Unit where
  archive := archive
  sender  := sender
  transport := {
    send _ _ _  := (.error .noConnection, ())
    dataset _ _ := (.error .noConnection, ())
    ack _ _     := (.error .noConnection, ()) }

-- The report on the plain lot, of which there may be a dataset already.
def uploaded : Report where
  root      := plain
  status    := .draft
  datasetId := some "DS-1"

end Lots

open Office Lots in
theorem status_moves_iff_lots :
    (closed.send uploaded { opType := .insert } stamp { link := () }).1 =
        .error (.transport .forbidden) ∧
      ∃ payload, .handed .insert payload ∈
        (closed.send uploaded { opType := .insert } stamp { link := () }).2.events := by
  have h : (closed.send uploaded { opType := .insert } stamp { link := () }).1 =
      .error (.transport .forbidden) :=
    (map_eq_error (f := fun _ => ())).mp (by decide +kernel)
  have hm := (status_moves_iff h).1.mp (by decide)
  refine ⟨h, hm.2.resolve_right ?_⟩
  rintro ⟨_, _, id, cause, _, ha⟩
  cases ha

-- A report is marked as failed although its message has never left.
open Office Lots in
theorem status_moves_unsent :
    ¬ ∀ (o : Office Unit) (report : Report) (op : Operation) (stamp : Stamp) (error : SendError),
      o.archive.Sound → o.archive.Holds report.root →
      (o.send report op stamp { link := () }).1 = .error error →
      error.statusAfter op.opType report.status ≠ report.status →
      ∃ payload, .handed op.opType payload ∈ (o.send report op stamp { link := () }).2.events := by
  intro h
  have hs : (offline.send uploaded { opType := .insert } stamp { link := () }).1 =
      .error (.transport .noConnection) :=
    (map_eq_error (f := fun _ => ())).mp (by decide +kernel)
  have hu : offline.Unanswered uploaded .insert () := ⟨rfl, "DS-1", .noConnection, rfl, rfl⟩
  obtain ⟨payload, hp⟩ := h offline uploaded _ stamp _ sound (by decide) hs (by decide)
  exact not_handed_of_unanswered hu hp

end ReportExchange
