import ReportExchange.Intake.Parser

namespace ReportExchange

open Xml

namespace Intake

variable {Draft Record : Type} {a : Assembler Draft Record} {i i' i'' : Intake Draft}

-- Intake goes through events before the end of the input, and gives some records on the way.
inductive Takes (a : Assembler Draft Record) :
    Intake Draft → List Event → List Record → Intake Draft → Prop
  | nil {i : Intake Draft} : Takes a i [] [] i
  | silent {i i₁ i' : Intake Draft} {e : Event} {es : List Event} {rs : List Record} :
    e ≠ .done → i.take a e = .ok (i₁, none) → Takes a i₁ es rs i' → Takes a i (e :: es) rs i'
  | record {i i₁ i' : Intake Draft} {e : Event} {es : List Event} {r : Record} {rs : List Record} :
    e ≠ .done → i.take a e = .ok (i₁, some r) → Takes a i₁ es rs i' →
    Takes a i (e :: es) (r :: rs) i'

theorem Takes.append {es fs : List Event} {rs ss : List Record} (h : Takes a i es rs i')
    (hs : Takes a i' fs ss i'') : Takes a i (es ++ fs) (rs ++ ss) i'' := by
  induction h
  case nil                => exact hs
  case silent hd ht _ hi => exact .silent hd ht (hi hs)
  case record hd ht _ hi => exact .record hd ht (hi hs)

theorem takes_cons_iff {e : Event} {es : List Event} {rs : List Record} :
    Takes a i (e :: es) rs i'' ↔ e ≠ .done ∧ ∃ i' r ss, i.take a e = .ok (i', r) ∧
      Takes a i' es ss i'' ∧ rs = r.toList ++ ss := by
  constructor
  case mp =>
    rintro (_ | ⟨hd, ht, h⟩ | ⟨hd, ht, h⟩)
    case silent => exact ⟨hd, _, none, _, ht, h, rfl⟩
    case record => exact ⟨hd, _, some _, _, ht, h, rfl⟩
  case mpr =>
    rintro ⟨hd, i', _ | r, ss, ht, h, rfl⟩
    case none => exact .silent hd ht h
    case some => exact .record hd ht h

theorem Takes.done_not_mem {es : List Event} {rs : List Record} (h : Takes a i es rs i') :
    .done ∉ es := by
  induction h
  case nil              => exact List.not_mem_nil
  case silent hd _ _ hi => simp [Ne.symm hd, hi]
  case record hd _ _ hi => simp [Ne.symm hd, hi]

theorem Takes.length_le {es : List Event} {rs : List Record} (h : Takes a i es rs i') :
    rs.length ≤ es.length := by
  induction h
  case nil              => exact Nat.le_refl 0
  case silent _ _ _ hi => exact Nat.le_succ_of_le hi
  case record _ _ _ hi => exact Nat.succ_le_succ hi

-- Some events give nothing, then comes the one that gives the first record.
theorem Takes.first {es : List Event} {r : Record} {rs : List Record}
    (h : Takes a i es (r :: rs) i'') :
    ∃ fs e gs mid i', es = fs ++ e :: gs ∧ Takes a i fs [] mid ∧ e ≠ .done ∧
      mid.take a e = .ok (i', some r) ∧ Takes a i' gs rs i'' := by
  generalize hs : r :: rs = ss at h
  induction h
  case nil => cases hs
  case record e es _ _ hd ht h _ =>
    cases hs
    exact ⟨[], e, es, _, _, rfl, .nil, hd, ht, h⟩
  case silent e es _ hd ht _ hi =>
    obtain ⟨fs, e', gs, mid, i', rfl, hf, he⟩ := hi hs
    exact ⟨e :: fs, e', gs, mid, i', rfl, .silent hd ht hf, he⟩

-- A message is not over, and no failure has ended it.
def Place.isOpen : Place Draft → Bool
  | .finished | .failed => false
  | _ => true

theorem place_of_closed {r : Record} (h : i.closed a = .ok (i', some r)) : i'.place = .dataset := by
  rw [closed] at h
  split at h
  case h_3 => split at h <;> cases h
  case h_4 => cases h; rfl
  all_goals cases h

-- Records come where a result ends.
theorem place_of_take {e : Event} {r : Record} (h : i.take a e = .ok (i', some r)) :
    i'.place = .dataset := by
  cases e
  case closing => exact place_of_closed h
  case empty tag =>
    rw [take] at h
    cases ho : i.opened a tag <;> rw [ho] at h
    case error   => cases h
    case ok open' => exact place_of_closed h
  case opening tag =>
    rw [take] at h
    cases ho : i.opened a tag <;> rw [ho] at h <;> cases h
  case text s =>
    rw [take] at h
    cases hp : i.pushed s <;> rw [hp] at h <;> cases h
  case cdata s =>
    rw [take] at h
    cases hp : i.pushed s <;> rw [hp] at h <;> cases h
  all_goals cases h

end Intake

namespace Parser

variable {Draft Record : Type} {a : Assembler Draft Record} {p : Parser Draft}
variable {i final : Intake Draft} {r : Record} {rs : List Record} {es : List Event}
variable {readings : List Reading}

theorem pull_cons {n position : Nat} {reading : Reading} {e : Event}
    (hr : reading.event = .ok e) (hd : e ≠ .done) :
    pull a n position i (reading :: readings) =
      match i.take a e with
      | .error fault     =>
        (.error ⟨reading.start, fault⟩, ⟨readings, reading.stop, i.moved .failed, n⟩)
      | .ok (i, none)    => pull a n reading.stop i readings
      | .ok (i, some r)  => (.ok (some r), ⟨readings, reading.stop, i, n + 1⟩) := by
  rw [pull]
  split
  case h_1 he => cases hr.symm.trans he
  case h_2 he => cases hr.symm.trans he; exact absurd rfl hd
  case h_3 he => cases hr.symm.trans he; rfl

-- Events that give no record are passed over.
theorem pull_silent {front : List Reading} (hf : front.map (·.event) = es.map .ok)
    (ht : Intake.Takes a i es [] final) (n position : Nat) (back : List Reading) :
    ∃ position', pull a n position i (front ++ back) = pull a n position' final back := by
  generalize hs : ([] : List Record) = rs at ht
  induction ht generalizing front position
  case record => cases hs
  case nil =>
    obtain rfl := List.map_eq_nil_iff.mp hf
    exact ⟨position, rfl⟩
  case silent i i₁ i' e es rs hd ht _ hi =>
    obtain ⟨r, front, rfl, he, hf⟩ := List.map_eq_cons_iff.mp hf
    obtain ⟨position', hp⟩ := hi hf r.stop hs
    refine ⟨position', ?_⟩
    rw [← hp, List.cons_append, pull_cons he hd, ht]

theorem pull_end (n position : Nat) (hr : readings.map (·.event) = es.map .ok ++ [.ok .done])
    (ht : Intake.Takes a i es [] final) (hf : final.place = .finished) :
    ∃ position', pull a n position i readings = (.ok none, ⟨[], position', final, n⟩) := by
  obtain ⟨front, back, rfl, hfront, hback⟩ := List.map_eq_append_iff.mp hr
  obtain ⟨r, rfl, he⟩ := List.map_eq_singleton_iff.mp hback
  obtain ⟨position', hp⟩ := pull_silent hfront ht n position [r]
  refine ⟨r.stop, ?_⟩
  rw [hp, pull, he]
  simp only [conclude, Intake.ended, hf]

theorem pull_record (n position : Nat) {rest : List (Except Fault Event)}
    (hr : readings.map (·.event) = es.map .ok ++ rest) (ht : Intake.Takes a i es (r :: rs) final) :
    ∃ (q : Parser Draft) (fs : List Event), pull a n position i readings = (.ok (some r), q) ∧
      q.readings.map (·.event) = fs.map .ok ++ rest ∧ Intake.Takes a q.intake fs rs final ∧
      q.intake.place = .dataset := by
  obtain ⟨fs, e, gs, mid, i', rfl, hf, hd, he, hg⟩ := ht.first
  rw [List.map_append, List.append_assoc] at hr
  obtain ⟨front, back, rfl, hfront, hback⟩ := List.map_eq_append_iff.mp hr
  obtain ⟨reading, back, rfl, hre, hback⟩ := List.map_eq_cons_iff.mp hback
  obtain ⟨position', hp⟩ := pull_silent hfront hf n position (reading :: back)
  refine ⟨⟨back, reading.stop, i', n + 1⟩, gs, ?_, hback, hg, Intake.place_of_take he⟩
  rw [hp, pull_cons hre hd, he]

theorem next_eq_pull (h : p.intake.place.isOpen) :
    p.next a = pull a p.records p.position p.intake p.readings := by
  rw [next]
  split
  case h_1 hp => rw [hp] at h; cases h
  case h_2 hp => rw [hp] at h; cases h
  case h_3    => rfl

-- After the end there is nothing more.
theorem next_eq_self (h : p.intake.place.isOpen = false) : p.next a = (.ok none, p) := by
  rw [next]
  split
  case h_1 => rfl
  case h_2 => rfl
  case h_3 hf hn =>
    revert h
    cases hp : p.intake.place <;> simp_all [Intake.Place.isOpen]

end Parser

end ReportExchange
