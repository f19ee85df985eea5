import ReportExchange.Proofs.Dispatch.Handed

namespace ReportExchange

namespace SendEvent

-- The listener hears of progress and of the end; the other events are calls of the connection.
def isNotice : SendEvent → Bool
  | progress _ | completed | stopped _ => true
  | asked _ | handed _ _ => false

def isAsked : SendEvent → Bool
  | asked _ => true
  | _ => false

def isHanded : SendEvent → Bool
  | handed _ _ => true
  | _ => false

-- The notices of a send that goes all the way.
def stages : List SendEvent :=
  [progress 1, progress 3, progress 6, progress 10]

end SendEvent

open SendEvent

-- The state of a connection after the calls among the events have been made.
def Transport.after {Link : Type} (t : Transport Link) (events : List SendEvent) (link : Link) :
    Link :=
  events.foldl (fun link event => match event with
    | .asked id          => (t.dataset id link).2
    | .handed op payload => (t.send op payload link).2
    | _                  => link) link

namespace Office

variable {Link : Type} {o : Office Link} {report : Report} {op : Operation} {stamp : Stamp}
  {t : OperationType} {line : Line Link} {link : Link} {events : List SendEvent}

-- The line after further events, for which the connection has been used as they say.
def advance (o : Office Link) (line : Line Link) (events : List SendEvent) : Line Link :=
  ⟨o.transport.after events line.link, line.events ++ events⟩

theorem advance_advance (o : Office Link) (line : Line Link) (events more : List SendEvent) :
    o.advance (o.advance line events) more = o.advance line (events ++ more) := by
  simp [advance, Transport.after]

theorem advance_nil (o : Office Link) (line : Line Link) : o.advance line [] = line := by
  simp [advance, Transport.after]

-- The remote dataset is asked for if there may be one in the way.
def questions (report : Report) (t : OperationType) : List SendEvent :=
  match t.carriesDataset, report.datasetId with
  | true, some id => [.asked id]
  | _, _ => []

-- All that comes before the end of a send that goes all the way.
def fullCourse (report : Report) (t : OperationType) (payload : String) : List SendEvent :=
  .progress 1 :: questions report t ++
    [.progress 3, .progress 6, .handed t payload, .progress 10]

-- The remote dataset lets the operation pass. One that is in the way of a dataset does not exist, or
-- can be made editable; what carries no dataset needs to know the one that it is about.
def Clears (o : Office Link) (report : Report) (t : OperationType) (link : Link) : Prop :=
  match t.carriesDataset, report.datasetId with
  | true, none => True
  | true, some id => ∃ answer, (o.transport.dataset id link).1 = .ok answer ∧
    ∀ remote ∈ answer, remote.localStatus.existsRemotely → remote.localStatus.canBeMadeEditable
  | false, id => id.isSome

theorem mayOverwrite_iff {remote : RemoteDataset} :
    mayOverwrite remote ↔
      (remote.localStatus.existsRemotely → remote.localStatus.canBeMadeEditable) := by
  rw [mayOverwrite]
  cases remote.localStatus.existsRemotely <;> simp

theorem note_advance (o : Office Link) (line : Line Link) {event : SendEvent}
    (h : event.isNotice) : (note event : Run Link Unit) line = (.ok (), o.advance line [event]) := by
  rw [note_run, advance]
  cases event
  case asked  => cases h
  case handed => cases h
  all_goals rfl

theorem checkRemote_run (o : Office Link) (report : Report) (t : OperationType) (line : Line Link) :
    (o.checkRemote report t line).2 = o.advance line (questions report t) ∧
      ((o.checkRemote report t line).1 = .ok () ↔ o.Clears report t line.link) := by
  rw [checkRemote, questions, Clears]
  cases t.carriesDataset <;> cases report.datasetId
  case false.none => exact ⟨(o.advance_nil line).symm, iff_of_false (fun h => by cases h) (by simp)⟩
  case false.some => exact ⟨(o.advance_nil line).symm, iff_of_true rfl rfl⟩
  case true.none  => exact ⟨(o.advance_nil line).symm, iff_of_true rfl trivial⟩
  case true.some id =>
    have ha := askDataset_run o id line
    have hline : o.advance line [.asked id] =
        ⟨(o.transport.dataset id line.link).2, line.events ++ [.asked id]⟩ := rfl
    dsimp only
    rw [hline]
    cases hd : (o.transport.dataset id line.link).1 <;> rw [hd] at ha
    case error cause =>
      rw [bind_of_error ha]
      exact ⟨rfl, iff_of_false (by simp) (by simp)⟩
    case ok answer =>
      rw [bind_of_ok ha]
      cases answer
      case none        => exact ⟨rfl, iff_of_true rfl ⟨none, rfl, by simp⟩⟩
      case some remote =>
        dsimp only
        have hm : (∃ answer, Except.ok (ε := TransportError) (some remote) = .ok answer ∧
            ∀ remote ∈ answer, remote.localStatus.existsRemotely →
              remote.localStatus.canBeMadeEditable) ↔ mayOverwrite remote := by
          rw [mayOverwrite_iff]
          simp
        rw [hm]
        split
        case isTrue h  => exact ⟨rfl, iff_of_true rfl h⟩
        case isFalse h => exact ⟨rfl, iff_of_false (fun h => by cases h) h⟩

-- How far a send gets: to the first gate that it does not pass, or to its end.
inductive Course (o : Office Link) (report : Report) (op : Operation) (stamp : Stamp)
    (link : Link) : List SendEvent → Except SendError Receipt → Prop
  | refused :
    ¬ report.status.permits (.send op.opType) →
    Course o report op stamp link [] (.error (.notPermitted report.status (.send op.opType)))
  | blocked {error : SendError} :
    report.status.permits (.send op.opType) → ¬ o.Clears report op.opType link →
    Course o report op stamp link (.progress 1 :: questions report op.opType) (.error error)
  | unexported {error : SendError} :
    report.status.permits (.send op.opType) → o.Clears report op.opType link →
    o.exportClean report op stamp = .error error →
    Course o report op stamp link (.progress 1 :: questions report op.opType ++ [.progress 3])
      (.error error)
  | undelivered {e : Exported} {cause : TransportError} :
    report.status.permits (.send op.opType) → o.Clears report op.opType link →
    o.exportClean report op stamp = .ok e →
    (o.transport.send op.opType e.document
      (o.transport.after (questions report op.opType) link)).1 = .error cause →
    Course o report op stamp link (.progress 1 :: questions report op.opType ++
      [.progress 3, .progress 6, .handed op.opType e.document]) (.error (.transport cause))
  | delivered {e : Exported} {ack : Acknowledgement} :
    report.status.permits (.send op.opType) → o.Clears report op.opType link →
    o.exportClean report op stamp = .ok e →
    (o.transport.send op.opType e.document
      (o.transport.after (questions report op.opType) link)).1 = .ok ack →
    Course o report op stamp link (.progress 1 :: questions report op.opType ++
      [.progress 3, .progress 6, .handed op.opType e.document, .progress 10])
      (.ok ⟨op.opType.inFlight, e.summary, ack, e.document⟩)

section Prepare

variable (hp : report.status.permits (.send op.opType))

theorem prepare_of_not_permits (hp : ¬ report.status.permits (.send op.opType)) :
    o.prepare report op stamp line =
      (.error (.notPermitted report.status (.send op.opType)), line) := by
  have hg : (gate report op.opType : Run Link Unit) line =
      (.error (.notPermitted report.status (.send op.opType)), line) := by
    rw [gate, if_neg hp]
    rfl
  rw [prepare, bind_of_error hg]

include hp

-- Behind the gate of the status, the first notice is given and the remote dataset is looked at.
theorem prepare_of_permits :
    o.prepare report op stamp line = (do
      o.checkRemote report op.opType
      note (.progress 3)
      let exported ← prepare.liftExcept (o.exportClean report op stamp)
      note (.progress 6)
      return exported : Run Link Exported) (o.advance line [.progress 1]) := by
  have hg : (gate report op.opType : Run Link Unit) line = (.ok (), line) := by
    rw [gate, if_pos hp]
    rfl
  rw [prepare, bind_of_ok hg, bind_of_ok (note_advance o line rfl)]

theorem prepare_of_not_clears (hc : ¬ o.Clears report op.opType line.link) :
    ∃ error, o.prepare report op stamp line =
      (.error error, o.advance line (.progress 1 :: questions report op.opType)) := by
  have ⟨hl, hr⟩ := o.checkRemote_run report op.opType (o.advance line [.progress 1])
  rw [prepare_of_permits hp]
  rcases hm : o.checkRemote report op.opType (o.advance line [.progress 1]) with ⟨result, mid⟩
  rw [hm] at hl hr
  cases result
  case ok          => exact absurd (hr.mp rfl) hc
  case error error =>
    refine ⟨error, ?_⟩
    rw [bind_of_error hm]
    exact Prod.ext rfl (hl.trans (o.advance_advance ..))

theorem prepare_of_clears (hc : o.Clears report op.opType line.link) :
    o.prepare report op stamp line =
      match o.exportClean report op stamp with
      | .error error =>
        (.error error, o.advance line (.progress 1 :: questions report op.opType ++ [.progress 3]))
      | .ok e => (.ok e, o.advance line
        (.progress 1 :: questions report op.opType ++ [.progress 3, .progress 6])) := by
  have ⟨hl, hr⟩ := o.checkRemote_run report op.opType (o.advance line [.progress 1])
  have hm : o.checkRemote report op.opType (o.advance line [.progress 1]) =
      (.ok (), o.advance line (.progress 1 :: questions report op.opType)) :=
    Prod.ext (hr.mpr hc) (hl.trans (o.advance_advance ..))
  rw [prepare_of_permits hp, bind_of_ok hm, bind_of_ok (note_advance o _ rfl), advance_advance]
  cases o.exportClean report op stamp
  case error error => rfl
  case ok e =>
    have he : (prepare.liftExcept (.ok e) : Run Link Exported)
        (o.advance line (.progress 1 :: questions report op.opType ++ [.progress 3])) =
        (.ok e, o.advance line (.progress 1 :: questions report op.opType ++ [.progress 3])) := rfl
    rw [bind_of_ok he, bind_of_ok (note_advance o _ rfl), advance_advance]
    simp
    rfl

end Prepare

theorem send_of_error {error : SendError} {mid : Line Link}
    (h : o.prepare report op stamp line = (.error error, mid)) :
    o.send report op stamp line = (.error error, o.advance mid [announce (.error error)]) := by
  rw [send, bind_of_error h]
  rfl

theorem send_of_ok {e : Exported} {mid : Line Link}
    (h : o.prepare report op stamp line = (.ok e, mid)) :
    o.send report op stamp line =
      match (o.transport.send op.opType e.document mid.link).1 with
      | .error cause => (.error (.transport cause), o.advance mid
        [.handed op.opType e.document, announce (.error (.transport cause))])
      | .ok ack => (.ok ⟨op.opType.inFlight, e.summary, ack, e.document⟩, o.advance mid
        [.handed op.opType e.document, .progress 10, .completed]) := by
  have hh := handOver_run o op.opType e.document mid
  rw [send, bind_of_ok h, deliver]
  cases ha : (o.transport.send op.opType e.document mid.link).1 <;> rw [ha] at hh
  case error cause =>
    rw [bind_of_error hh]
    simp [advance, Transport.after, announce]
  case ok ack =>
    rw [bind_of_ok hh]
    have hd (more : Line Link) : (do
        note (.progress 10)
        return ⟨op.opType.inFlight, e.summary, ack, e.document⟩ : Run Link Receipt) more =
        (.ok ⟨op.opType.inFlight, e.summary, ack, e.document⟩, o.advance more [.progress 10]) := by
      rw [bind_of_ok (note_advance o more rfl)]
      rfl
    rw [hd]
    simp [advance, Transport.after, announce]

theorem course_of_send (o : Office Link) (report : Report) (op : Operation) (stamp : Stamp)
    (line : Line Link) :
    ∃ events, Course o report op stamp line.link events (o.send report op stamp line).1 ∧
      (o.send report op stamp line).2 =
        o.advance line (events ++ [announce (o.send report op stamp line).1]) := by
  by_cases hp : report.status.permits (.send op.opType)
  case neg =>
    rw [send_of_error (prepare_of_not_permits hp)]
    exact ⟨[], .refused hp, rfl⟩
  case pos =>
    by_cases hc : o.Clears report op.opType line.link
    case neg =>
      have ⟨error, he⟩ : ∃ error, o.prepare report op stamp line = (.error error, _) :=
        prepare_of_not_clears hp hc
      rw [send_of_error he, advance_advance]
      exact ⟨_, .blocked hp hc, rfl⟩
    case pos =>
      have hr : o.prepare report op stamp line = _ := prepare_of_clears hp hc
      cases hx : o.exportClean report op stamp <;> rw [hx] at hr
      case error error =>
        rw [send_of_error hr, advance_advance]
        exact ⟨_, .unexported hp hc hx, rfl⟩
      case ok e =>
        have hlink : (o.advance line (.progress 1 :: questions report op.opType ++
            [.progress 3, .progress 6])).link =
            o.transport.after (questions report op.opType) line.link := by
          simp [advance, Transport.after]
        rw [send_of_ok hr, hlink]
        cases ha : (o.transport.send op.opType e.document
          (o.transport.after (questions report op.opType) line.link)).1
        case error cause =>
          refine ⟨_, .undelivered hp hc hx ha, ?_⟩
          simp [advance_advance]
        case ok ack =>
          refine ⟨_, .delivered hp hc hx ha, ?_⟩
          simp [advance_advance, announce]

theorem exportClean_eq_ok_iff {e : Exported} :
    o.exportClean report op stamp = .ok e ↔
      exportReport o.archive o.sender stamp report.root op = .ok e ∧ e.summary.faults = [] := by
  rw [exportClean]
  cases exportReport o.archive o.sender stamp report.root op
  case error => simp
  case ok x  =>
    dsimp only
    split
    case isTrue h =>
      have hx : x.summary.faults = [] := List.isEmpty_iff.mp h
      simp only [Except.ok.injEq]
      exact ⟨fun he => ⟨he, he ▸ hx⟩, And.left⟩
    case isFalse h =>
      refine iff_of_false (by simp) ?_
      rintro ⟨he, hf⟩
      cases he
      exact h (List.isEmpty_iff.mpr hf)

theorem mem_questions_iff {event : SendEvent} :
    event ∈ questions report t ↔
      ∃ id, event = .asked id ∧ t.carriesDataset ∧ report.datasetId = some id := by
  rw [questions]
  cases t.carriesDataset <;> cases report.datasetId <;> simp

theorem filter_questions {p : SendEvent → Bool} (hp : ∀ id, p (.asked id) = false) :
    (questions report t).filter p = [] := by
  rw [List.filter_eq_nil_iff]
  intro event hm
  obtain ⟨id, rfl, _⟩ := mem_questions_iff.mp hm
  simp [hp]

theorem length_questions_le : (questions report t).length ≤ 1 := by
  rw [questions]
  split
  case h_1 => exact Nat.le_refl 1
  case h_2 => exact Nat.zero_le 1

namespace Course

variable {result : Except SendError Receipt}

theorem handed_iff (h : Course o report op stamp link events result) (payload : String) :
    .handed t payload ∈ events ↔
      t = op.opType ∧ report.status.permits (.send t) ∧ o.Clears report t link ∧
        ∃ e, o.exportClean report op stamp = .ok e ∧ payload = e.document := by
  have hq : ∀ payload, .handed t payload ∉ questions report op.opType := by
    simp [mem_questions_iff]
  cases h
  case refused hp          => simpa using fun e => by simp [e, hp]
  case blocked hp hc       => simpa [hq] using fun e _ => by simp [e, hc]
  case unexported hp hc hx => simp [hq, hx]
  case undelivered hp hc hx _ =>
    simp only [List.mem_append, List.mem_cons, hq, hx]
    simpa using fun e => by simp [e, hp, hc]
  case delivered hp hc hx _ =>
    simp only [List.mem_append, List.mem_cons, hq, hx]
    simpa using fun e => by simp [e, hp, hc]

theorem asked_iff (h : Course o report op stamp link events result) (id : String) :
    .asked id ∈ events ↔ report.status.permits (.send op.opType) ∧ op.opType.carriesDataset ∧
      report.datasetId = some id := by
  cases h
  case refused hp => simp [hp]
  all_goals simp_all [mem_questions_iff]

theorem isPrefix (h : Course o report op stamp link events result) :
    ∃ payload, events <+: fullCourse report op.opType payload := by
  cases h
  case undelivered e _ _ _ _ _ => exact ⟨e.document, [.progress 10], by simp [fullCourse]⟩
  case delivered e _ _ _ _ _   => exact ⟨e.document, [], by simp [fullCourse]⟩
  all_goals exact ⟨"", by simp [fullCourse]⟩

-- What the connection is called for, at most once each.
theorem calls (h : Course o report op stamp link events result) :
    (events.filter isAsked).length ≤ 1 ∧ (events.filter isHanded).length ≤ 1 := by
  have ha : ((questions report op.opType).filter isAsked).length ≤ 1 :=
    Nat.le_trans (List.length_filter_le ..) length_questions_le
  have hh : (questions report op.opType).filter isHanded = [] := filter_questions fun _ => rfl
  cases h
  case refused => simp
  all_goals simpa [List.filter_cons, hh, isAsked, isHanded] using ha

-- What the listener is told before the end.
theorem notices (h : Course o report op stamp link events result) :
    match result with
    | .ok receipt => events.filter isNotice = stages ∧ receipt.status = op.opType.inFlight
    | .error _    => events.filter isNotice <+: stages := by
  have hn : (questions report op.opType).filter isNotice = [] := filter_questions fun _ => rfl
  cases h
  case delivered => simp [List.filter_cons, hn, isNotice, stages]
  all_goals simp [List.filter_cons, hn, isNotice, stages]

end Course

-- A send goes along its course, and after the end, or the first gate that is shut, it gives one
-- notice of how it went. It asks for the remote dataset if the status permits the operation and there
-- may be one in the way. It hands over a message if moreover the remote dataset lets the operation
-- pass and the export has no failed formula, and the message is the one that has been exported. The
-- connection is called for nothing else, and for neither of these twice.
theorem send_gated (o : Office Link) (report : Report) (op : Operation) (stamp : Stamp)
    (line : Line Link) :
    ∃ events, (o.send report op stamp line).2 = o.advance line events ∧
      (∃ cut payload, cut <+: fullCourse report op.opType payload ∧
        events = cut ++ [announce (o.send report op stamp line).1]) ∧
      (events.filter isAsked).length ≤ 1 ∧
      (∀ id, .asked id ∈ events ↔ report.status.permits (.send op.opType) ∧
        op.opType.carriesDataset ∧ report.datasetId = some id) ∧
      (events.filter isHanded).length ≤ 1 ∧
      (∀ t payload, .handed t payload ∈ events ↔
        t = op.opType ∧ report.status.permits (.send t) ∧ o.Clears report t line.link ∧
        ∃ e, exportReport o.archive o.sender stamp report.root op = .ok e ∧
          e.summary.faults = [] ∧ payload = e.document) ∧
      match (o.send report op stamp line).1 with
      | .ok receipt => events.filter isNotice = stages ++ [.completed] ∧
          receipt.status = op.opType.inFlight
      | .error error => ∃ told, told <+: stages ∧
          events.filter isNotice = told ++ [.stopped error] := by
  obtain ⟨cut, hcourse, hline⟩ := course_of_send o report op stamp line
  generalize (o.send report op stamp line).1 = result at hcourse hline ⊢
  have hnotice : (announce result).isNotice ∧ (announce result).isAsked = false ∧
      (announce result).isHanded = false := by
    cases result <;> exact ⟨rfl, rfl, rfl⟩
  have hend (p : SendEvent → Bool) : (cut ++ [announce result]).filter p =
      cut.filter p ++ if p (announce result) then [announce result] else [] := by
    rw [List.filter_append, List.filter_singleton]
    cases p (announce result) <;> rfl
  have ⟨payload, hprefix⟩ := hcourse.isPrefix
  have ⟨hasked, hhanded⟩ := hcourse.calls
  refine ⟨_, hline, ⟨cut, payload, hprefix, rfl⟩, ?_, fun id => ?_, ?_, fun t payload => ?_, ?_⟩
  case refine_1 => simpa [hend, hnotice] using hasked
  case refine_2 =>
    rw [← hcourse.asked_iff]
    cases result <;> simp [announce]
  case refine_3 => simpa [hend, hnotice] using hhanded
  case refine_4 =>
    have he := hcourse.handed_iff (t := t) payload
    simp only [exportClean_eq_ok_iff, and_assoc] at he
    rw [← he]
    cases result <;> simp [announce]
  case refine_5 =>
    have hn := hcourse.notices
    rw [hend, if_pos hnotice.1]
    cases result
    case ok receipt  => exact ⟨by rw [hn.1, announce], hn.2⟩
    case error error => exact ⟨_, hn, rfl⟩

end Office

end ReportExchange
