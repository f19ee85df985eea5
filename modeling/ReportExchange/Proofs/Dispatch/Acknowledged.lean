import ReportExchange.Proofs.Dispatch.Round

namespace ReportExchange

namespace Status

-- What applying one acknowledgement after the other comes to: the answer to each of them, with the
-- status that it leaves the report in. A step that fails leaves the status as it is.
def acknowledged (s : Status) : List Acknowledgement → List (Except SendError Status × Status)
  | []          => []
  | ack :: acks =>
    let answer := applyAck s ack
    (answer, s.answered answer) :: (s.answered answer).acknowledged acks

-- A step at which the status stands still.
def stays (s : Status) : Except SendError Status × Status :=
  (.ok s, s)

def decided (remote : RemoteStatus) : Except SendError Status × Status :=
  (.ok (ofRemote remote), ofRemote remote)

def refused (s : Status) : Except SendError Status × Status :=
  (.error (.notPermitted s .getAck), s)

variable {s : Status} {ack : Acknowledgement} {acks : List Acknowledgement}

theorem not_permits_ofRemote (remote : RemoteStatus) : ¬ (ofRemote remote).permits .getAck :=
  (ofRemote_settled remote).1

section Step

theorem applyAck_of_not_permits (h : ¬ s.permits .getAck) :
    applyAck s ack = .error (.notPermitted s .getAck) := by
  simp [applyAck, h]

theorem applyAck_of_not_isReady (h : s.permits .getAck) (ha : ¬ ack.isReady) :
    applyAck s ack = .ok s := by
  simp only [Acknowledgement.isReady, Option.not_isSome_iff_eq_none] at ha
  simp [applyAck, h, ha]

theorem applyAck_of_ready {remote : RemoteStatus} (h : s.permits .getAck)
    (ha : ack.datasetStatus = some remote) : applyAck s ack = .ok (ofRemote remote) := by
  simp [applyAck, h, ha]

end Step

section Run

theorem acknowledged_of_not_permits (h : ¬ s.permits .getAck) (acks : List Acknowledgement) :
    s.acknowledged acks = acks.map fun _ => s.refused := by
  induction acks
  case nil           => rfl
  case cons ack _ hi =>
    rw [acknowledged, applyAck_of_not_permits h, List.map_cons, ← hi]
    rfl

-- As long as none is ready, the status stays in place and the next one is asked of it again.
theorem acknowledged_append (h : s.permits .getAck) (ha : ∀ ack ∈ acks, ¬ ack.isReady)
    (more : List Acknowledgement) :
    s.acknowledged (acks ++ more) = (acks.map fun _ => s.stays) ++ s.acknowledged more := by
  induction acks
  case nil => rfl
  case cons ack acks hi =>
    have ⟨hack, ha⟩ := List.forall_mem_cons.mp ha
    rw [List.cons_append, acknowledged, applyAck_of_not_isReady h hack, List.map_cons,
      List.cons_append, ← hi ha]
    rfl

theorem acknowledged_ready {remote : RemoteStatus} (h : s.permits .getAck)
    (ha : ack.datasetStatus = some remote) :
    s.acknowledged (ack :: acks) =
      decided remote :: acks.map fun _ => (ofRemote remote).refused := by
  rw [acknowledged, applyAck_of_ready h ha,
    ← acknowledged_of_not_permits (not_permits_ofRemote remote) acks]
  rfl

end Run

-- While an acknowledgement may be asked for, those that are not ready leave the status in place, the
-- first one that is ready decides it, and every later one is refused. Else every one is refused.
theorem first_ready_decides (s : Status) (acks : List Acknowledgement) :
    if s.permits .getAck then
      (∀ ack ∈ acks, ¬ ack.isReady) ∧ (s.acknowledged acks = acks.map fun _ => s.stays) ∨
      ∃ pending ready later remote, acks = pending ++ ready :: later ∧
        (∀ ack ∈ pending, ¬ ack.isReady) ∧ ready.datasetStatus = some remote ∧
        s.acknowledged acks = (pending.map fun _ => s.stays) ++
          decided remote :: later.map fun _ => (ofRemote remote).refused
    else s.acknowledged acks = acks.map fun _ => s.refused := by
  split
  case isFalse h => exact acknowledged_of_not_permits h acks
  case isTrue h  =>
    cases hf : acks.find? (·.isReady)
    case none =>
      have ha := List.find?_eq_none.mp hf
      have hs := acknowledged_append h ha []
      rw [List.append_nil] at hs
      exact .inl ⟨ha, hs.trans (List.append_nil _)⟩
    case some ready =>
      obtain ⟨hr, pending, later, rfl, hp⟩ := List.find?_eq_some_iff_append.mp hf
      obtain ⟨remote, hr⟩ := Option.isSome_iff_exists.mp hr
      have hp : ∀ ack ∈ pending, ¬ ack.isReady := by simpa using hp
      refine .inr ⟨pending, ready, later, remote, rfl, hp, hr, ?_⟩
      rw [acknowledged_append h hp, acknowledged_ready h hr]

-- A dataset that is still waited for, found valid, and then rejected too late.
example : uploaded.acknowledged [⟨[], none, none, ""⟩, ⟨[], none, some .valid, ""⟩,
    ⟨[], none, some .rejected, ""⟩] = [uploaded.stays, decided .valid, valid.refused] := by
  rfl

end Status

end ReportExchange
