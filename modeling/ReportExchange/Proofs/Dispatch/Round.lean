import ReportExchange.Proofs.Dispatch.Course

namespace ReportExchange

namespace Office

variable {Link : Type} {o : Office Link} {report : Report} {op : Operation} {stamp : Stamp}
  {line : Line Link}

-- The send comes to handing over its message, and the connection accepts it.
def Accepted (o : Office Link) (report : Report) (op : Operation) (stamp : Stamp)
    (line : Line Link) : Prop :=
  ∃ e mid ack, o.prepare report op stamp line = (.ok e, mid) ∧
    (o.transport.send op.opType e.document mid.link).1 = .ok ack

theorem accepted_iff :
    o.Accepted report op stamp line ↔ ∃ receipt, (o.send report op stamp line).1 = .ok receipt := by
  rcases hp : o.prepare report op stamp line with ⟨result, mid⟩
  rw [Accepted, hp]
  cases result
  case error error =>
    rw [send_of_error hp]
    exact iff_of_false nofun (by simp)
  case ok e =>
    rw [send_of_ok hp]
    cases ha : (o.transport.send op.opType e.document mid.link).1
    case error cause =>
      refine iff_of_false ?_ (by simp)
      rintro ⟨_, _, ack, he, ht⟩
      cases he
      cases ha.symm.trans ht
    case ok ack => exact iff_of_true ⟨e, mid, ack, rfl, ha⟩ ⟨_, rfl⟩

end Office

namespace Status

-- The status of a report after a send, which has been accepted or has failed.
def afterSend (s : Status) (t : OperationType) : Except SendError Receipt → Status
  | .ok receipt  => receipt.status
  | .error error => error.statusAfter t s

-- The status after an answer about it; without one it stays as it is.
def answered (s : Status) (answer : Except SendError Status) : Status :=
  answer.toOption.getD s

-- What moves the status of a report during a round, with the operations that are accepted by it.
-- Whom it goes through, what is reported and what is answered is different every time.
inductive Moves : Status → List OperationType → Status → Prop
  | accepted {Link : Type} {o : Office Link} {report : Report} {op : Operation} {stamp : Stamp}
      {line : Line Link} : o.Accepted report op stamp line →
    Moves report.status [op.opType]
      (report.status.afterSend op.opType (o.send report op stamp line).1)
  | failed {Link : Type} {o : Office Link} {report : Report} {op : Operation} {stamp : Stamp}
      {line : Line Link} : ¬ o.Accepted report op stamp line →
    Moves report.status [] (report.status.afterSend op.opType (o.send report op stamp line).1)
  | fetched {Link : Type} (o : Office Link) (s : Status) (id : MessageId) (link : Link) :
    Moves s [] (s.answered ((o.fetchAck s id link).1.map (·.1)))
  | applied (s : Status) (ack : Acknowledgement) : Moves s [] (s.answered (applyAck s ack))
  | refreshed {Link : Type} (o : Office Link) (report : Report) (link : Link) :
    Moves report.status [] (report.status.answered (o.refresh report link).1)

-- A run of moves, with all operations that are accepted in it.
inductive Round (s : Status) : List OperationType → Status → Prop
  | refl : Round s [] s
  | step {ops more : List OperationType} {mid t : Status} :
    Round s ops mid → Moves mid more t → Round s (ops ++ more) t

variable {s t : Status} {ops more : List OperationType}

theorem permits_send_iff {op : OperationType} (h : op.carriesDataset) :
    s.permits (.send op) ↔ s.canBeSent := by
  cases op
  case insert  => rfl
  case replace => rfl
  all_goals cases h

theorem canGetAck_inFlight (op : OperationType) : op.inFlight.canGetAck := by
  cases op <;> rfl

theorem not_canBeSent_of_canGetAck (h : s.canGetAck) : ¬ s.canBeSent := by
  cases s <;> simp_all [canGetAck, canBeSent]

-- What the authority says of a dataset does not bring its report back into the round.
theorem ofRemote_settled (r : RemoteStatus) :
    ¬ (ofRemote r).canGetAck ∧ ¬ (ofRemote r).canBeSent := by
  cases r <;> decide

theorem failedVersion_settled {op : OperationType} (h : op.inFlight.failedVersion = some t) :
    ¬ t.canGetAck ∧ (t.canBeSent → op.carriesDataset) := by
  cases op <;> cases h <;> decide

-- A move by which nothing is accepted. The report is under way or can be sent afterwards only if it
-- was so before.
structure Idle (s t : Status) : Prop where
  underWay : t.canGetAck → t = s
  sendable : t.canBeSent → s.canBeSent

theorem Idle.refl (s : Status) : Idle s s :=
  ⟨fun _ => rfl, id⟩

theorem idle_ofRemote (s : Status) (r : RemoteStatus) : Idle s (ofRemote r) :=
  have ⟨ha, hs⟩ := ofRemote_settled r
  ⟨fun h => absurd h ha, fun h => absurd h hs⟩

theorem idle_statusAfter {op : OperationType} {error : SendError}
    (hp : error.reachedTransport → s.permits (.send op)) : Idle s (error.statusAfter op s) := by
  rw [SendError.statusAfter]
  split
  case isFalse => exact .refl s
  case isTrue hr =>
    cases hf : op.inFlight.failedVersion
    case none        => exact .refl s
    case some failed =>
      have ⟨ha, hs⟩ := failedVersion_settled hf
      exact ⟨fun h => absurd h ha, fun h => (permits_send_iff (hs h)).mp (hp hr)⟩

theorem idle_applyAck (s : Status) (ack : Acknowledgement) :
    Idle s (s.answered (applyAck s ack)) := by
  rw [applyAck]
  split
  case isFalse => exact .refl s
  case isTrue  =>
    cases ack.datasetStatus
    case none        => exact .refl s
    case some remote => exact idle_ofRemote s remote

theorem idle_fetchAck {Link : Type} (o : Office Link) (s : Status) (id : MessageId) (link : Link) :
    Idle s (s.answered ((o.fetchAck s id link).1.map (·.1))) := by
  rw [Office.fetchAck]
  split
  case isFalse => exact .refl s
  case isTrue  =>
    rcases o.transport.ack id link with ⟨answer, _⟩
    cases answer
    case error  => exact .refl s
    case ok ack =>
      have h := idle_applyAck s ack
      dsimp only
      cases ha : applyAck s ack <;> rw [ha] at h
      case error => exact h
      case ok    => exact h

theorem idle_refresh {Link : Type} (o : Office Link) (report : Report) (link : Link) :
    Idle report.status (report.status.answered (o.refresh report link).1) := by
  rw [Office.refresh]
  split
  case isFalse => exact .refl _
  case isTrue  =>
    cases report.datasetId
    case none    => exact .refl _
    case some id =>
      dsimp only
      rcases o.transport.dataset id link with ⟨answer, _⟩
      cases answer
      case error => exact .refl _
      case ok remote =>
        cases remote
        case none        => exact .refl _
        case some remote => exact idle_ofRemote _ remote.status

-- An operation is accepted only if the status has permitted it, and then it is under way.
theorem afterSend_of_accepted {Link : Type} {o : Office Link} {report : Report} {op : Operation}
    {stamp : Stamp} {line : Line Link} (h : o.Accepted report op stamp line) :
    report.status.permits (.send op.opType) ∧
    report.status.afterSend op.opType (o.send report op stamp line).1 = op.opType.inFlight := by
  obtain ⟨events, hc, _⟩ := o.course_of_send report op stamp line
  obtain ⟨receipt, hr⟩ := Office.accepted_iff.mp h
  rw [hr] at hc ⊢
  match hc with
  | .delivered hp _ _ _ => exact ⟨hp, rfl⟩

theorem Moves.cases_accepted (h : Moves s ops t) :
    ops = [] ∧ Idle s t ∨ ∃ op, ops = [op] ∧ s.permits (.send op) ∧ t = op.inFlight := by
  cases h
  case fetched o id link   => exact .inl ⟨rfl, idle_fetchAck o s id link⟩
  case applied ack         => exact .inl ⟨rfl, idle_applyAck s ack⟩
  case refreshed o report link => exact .inl ⟨rfl, idle_refresh o report link⟩
  case failed o report op stamp line hn =>
    refine .inl ⟨rfl, ?_⟩
    obtain ⟨events, hc, _⟩ := o.course_of_send report op stamp line
    rw [Office.accepted_iff] at hn
    generalize (o.send report op stamp line).1 = result at hc hn ⊢
    cases hc
    case refused     => exact idle_statusAfter nofun
    case delivered   => exact absurd ⟨_, rfl⟩ hn
    all_goals exact idle_statusAfter fun _ => by assumption
  case accepted o report op stamp line ha =>
    obtain ⟨hp, ht⟩ := afterSend_of_accepted ha
    exact .inr ⟨op.opType, rfl, hp, ht⟩

-- What is known after a run of moves: how many datasets have been accepted, and what that has left.
structure Settled (s : Status) (ops : List OperationType) (t : Status) : Prop where
  once     : (ops.filter (·.carriesDataset)).length ≤ 1
  closed   : ∀ op ∈ ops, op.carriesDataset → ¬ t.canBeSent
  underWay : t.canGetAck → t = s ∧ ops = [] ∨ ∃ op, ops.getLast? = some op ∧ op.inFlight = t

theorem Settled.idle {mid : Status} (h : Settled s ops mid) (hi : Idle mid t) :
    Settled s ops t where
  once                := h.once
  closed op hm hd hs  := h.closed op hm hd (hi.sendable hs)
  underWay ht         := hi.underWay ht ▸ h.underWay (hi.underWay ht ▸ ht)

theorem Settled.accepted {mid : Status} {op : OperationType} (h : Settled s ops mid)
    (hp : mid.permits (.send op)) : Settled s (ops ++ [op]) op.inFlight where
  underWay _ := .inr ⟨op, by simp, rfl⟩
  closed _ _ _ := not_canBeSent_of_canGetAck (canGetAck_inFlight op)
  once := by
    rw [List.filter_append, List.length_append]
    cases hd : op.carriesDataset
    case false => simpa [hd] using h.once
    case true  =>
      -- The status has permitted to send a dataset, so none has been accepted before.
      have hn : ops.filter (·.carriesDataset) = [] :=
        List.filter_eq_nil_iff.mpr fun x hx hxd =>
          h.closed x hx hxd ((permits_send_iff hd).mp hp)
      simp [hn, hd]

theorem Round.settled (h : s.Round ops t) : Settled s ops t := by
  induction h
  case refl => exact ⟨by simp, nofun, fun _ => .inl ⟨rfl, rfl⟩⟩
  case step ops more mid t _ hm hi =>
    obtain ⟨rfl, hidle⟩ | ⟨op, rfl, hp, rfl⟩ := hm.cases_accepted
    case inl => exact (List.append_nil ops).symm ▸ hi.idle hidle
    case inr => exact hi.accepted hp

-- In a round, one dataset at most is accepted, and after that the status permits no other one to be
-- sent. A status that says that a message is under way is the one that the round has started in, or
-- comes from the operation that has been accepted last; it is entered in no other way.
theorem one_dataset_a_round (h : s.Round ops t) :
    (ops.filter (·.carriesDataset)).length ≤ 1 ∧
    (∀ op ∈ ops, op.carriesDataset → ∀ next, next.carriesDataset → ¬ t.permits (.send next)) ∧
    (t.canGetAck → t = s ∧ ops = [] ∨ ∃ op, ops.getLast? = some op ∧ op.inFlight = t) ∧
    ∀ more u, t.Moves more u → u.canGetAck →
      u = t ∧ more = [] ∨ ∃ op, more = [op] ∧ op.inFlight = u := by
  have hs := h.settled
  refine ⟨hs.once, fun op hm hd next hn => ?_, hs.underWay, fun more u hm hu => ?_⟩
  case refine_1 =>
    rw [permits_send_iff hn]
    exact hs.closed op hm hd
  case refine_2 =>
    obtain ⟨rfl, hidle⟩ | ⟨op, rfl, _, rfl⟩ := hm.cases_accepted
    case inl => exact .inl ⟨hidle.underWay hu, rfl⟩
    case inr => exact .inr ⟨op, rfl, rfl⟩

end Status

namespace Lots

-- The report on the plain lot once its dataset has been found valid.
def validated : Report where
  root      := plain
  status    := .valid
  datasetId := some "DS-1"

def approval : Acknowledgement :=
  ⟨["OK"], some "DS-1", some .valid, ""⟩

theorem accepted_of_isOk (report : Report) (op : Operation)
    (h : (office.send report op stamp { link := () }).1.isOk) :
    office.Accepted report op stamp { link := () } :=
  Office.accepted_iff.mpr (exists_eq_ok h)

open Status in
-- The plain lot is uploaded, found valid, and submitted.
theorem round : Round .draft [.insert, .submit] .submissionSent := by
  have hi := accepted_of_isOk (report plain) { opType := .insert } (by decide +kernel)
  have hs := accepted_of_isOk validated { opType := .submit } (by decide +kernel)
  have uploaded := Moves.accepted hi
  rw [(afterSend_of_accepted hi).2] at uploaded
  have found : Moves .uploaded [] .valid := .applied .uploaded approval
  have submitted := Moves.accepted hs
  rw [(afterSend_of_accepted hs).2] at submitted
  exact ((Round.refl.step uploaded).step found).step submitted

end Lots

open Lots Status in
theorem one_dataset_a_round_lots :
    Round .draft [.insert, .submit] .submissionSent ∧
    ([OperationType.insert, .submit].filter (·.carriesDataset)).length ≤ 1 ∧
    ∀ next, next.carriesDataset → ¬ submissionSent.permits (.send next) := by
  obtain ⟨hl, hc, _⟩ := one_dataset_a_round round
  exact ⟨round, hl, hc .insert (by decide) rfl⟩

end ReportExchange
