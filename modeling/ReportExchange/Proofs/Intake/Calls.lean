import ReportExchange.Proofs.Intake.Takes

namespace ReportExchange

open Xml

namespace Parser

variable {Draft Record : Type} {a : Assembler Draft Record} {i final : Intake Draft}
variable {p q : Parser Draft} {rs ss : List Record} {es : List Event} {error : Option IntakeError}
variable {readings front back : List Reading}

-- What a call comes to: the machine goes through some events, until a result ends, or the input
-- after the message, or until there is a fault.
inductive Called (a : Assembler Draft Record) (n : Nat) (i : Intake Draft)
    (readings : List Reading) : Except IntakeError (Option Record) × Parser Draft → Prop
  | record {front : List Reading} {es : List Event} {r : Record} {q : Parser Draft} :
    readings = front ++ q.readings → front.map (·.event) = es.map .ok →
    Intake.Takes a i es [r] q.intake → q.intake.place = .dataset → q.records = n + 1 →
    Called a n i readings (.ok (some r), q)
  | finished {front back : List Reading} {es : List Event} {q : Parser Draft} :
    readings = front ++ back → front.map (·.event) = es.map .ok →
    Intake.Takes a i es [] q.intake → q.intake.place = .finished →
    (∀ r ∈ back.head?, r.event = .ok .done) → q.records = n → Called a n i readings (.ok none, q)
  | failed {front back : List Reading} {es : List Event} {final : Intake Draft} {e : IntakeError}
    {q : Parser Draft} :
    readings = front ++ back → front.map (·.event) = es.map .ok → Intake.Takes a i es [] final →
    (q.readings = back.tail ∨ q.readings = [] ∧ ∀ r ∈ back.head?, r.event = .ok .done) →
    q.intake.place = .failed → q.records = n → Called a n i readings (.error e, q)

theorem Called.silent {reading : Reading} {e : Event} {i' : Intake Draft} {n : Nat}
    {result : Except IntakeError (Option Record) × Parser Draft} (he : reading.event = .ok e)
    (hd : e ≠ .done) (ht : i.take a e = .ok (i', none)) (h : Called a n i' readings result) :
    Called a n i (reading :: readings) result := by
  have cons : ∀ {front es}, front.map (·.event) = es.map .ok →
      (reading :: front).map (·.event) = (e :: es).map .ok := by
    intro front es hes
    rw [List.map_cons, List.map_cons, he, hes]
  cases h
  case record hr hes htakes hp hn =>
    exact .record (congrArg (reading :: ·) hr) (cons hes) (.silent hd ht htakes) hp hn
  case finished hr hes htakes hp hb hn =>
    exact .finished (congrArg (reading :: ·) hr) (cons hes) (.silent hd ht htakes) hp hb hn
  case failed hr hes htakes hq hp hn =>
    exact .failed (congrArg (reading :: ·) hr) (cons hes) (.silent hd ht htakes) hq hp hn

theorem called_conclude (a : Assembler Draft Record) (n position : Nat) (i : Intake Draft)
    (hr : ∀ r ∈ readings.head?, r.event = .ok .done) :
    Called a n i readings (conclude n position i) := by
  rw [conclude, Intake.ended]
  split
  case h_2 => exact .failed (List.nil_append _).symm rfl .nil (.inr ⟨rfl, hr⟩) rfl rfl
  case h_1 h =>
    split at h
    case h_1 hp => exact .finished (List.nil_append _).symm rfl .nil hp hr rfl
    case h_2    => cases h

theorem called_pull (a : Assembler Draft Record) (n position : Nat) (i : Intake Draft)
    (readings : List Reading) : Called a n i readings (pull a n position i readings) := by
  induction readings generalizing position i
  case nil => exact called_conclude a n position i (by simp)
  case cons reading readings hi =>
    rw [pull]
    split
    case h_1 => exact .failed (List.nil_append _).symm rfl .nil (.inl rfl) rfl rfl
    case h_2 hd => exact called_conclude a n _ i (by simp [hd])
    case h_3 e hd he =>
      split
      case h_1    => exact .failed (List.nil_append _).symm rfl .nil (.inl rfl) rfl rfl
      case h_2 ht => exact .silent he hd ht (hi _ _)
      case h_3 ht =>
        have hes : [reading].map (·.event) = [e].map .ok := by rw [List.map_singleton, he]; rfl
        exact .record rfl hes (.record hd ht .nil) (Intake.place_of_take ht) rfl

-- Events that come before the end of a document are the beginning of its events.
theorem exists_append_of_map {fs : List Event} {stop : Except Fault Event}
    {rest : List (Except Fault Event)} (hstop : ∀ e, stop = .ok e → e = .done) (hf : .done ∉ fs)
    (h : es.map .ok ++ [stop] = fs.map .ok ++ rest) :
    ∃ gs, es = fs ++ gs ∧ rest = gs.map .ok ++ [stop] := by
  induction fs generalizing es
  case nil => exact ⟨es, rfl, h.symm⟩
  case cons f fs hi =>
    rw [List.mem_cons, not_or] at hf
    cases es
    case nil =>
      have hs : stop = .ok f := (List.cons.inj h).1
      exact absurd (hstop f hs).symm hf.1
    case cons e es =>
      obtain ⟨he, ht⟩ := List.cons.inj h
      obtain rfl : e = f := Except.ok.inj he
      obtain ⟨gs, rfl, hrest⟩ := hi hf.2 ht
      exact ⟨gs, rfl, hrest⟩

-- Nothing but the end of the document follows where it begins.
theorem eq_nil_of_head {gs : List Event} {stop : Except Fault Event} (hd : .done ∉ gs)
    (hb : ∀ r ∈ back.head?, r.event = .ok .done) (h : back.map (·.event) = gs.map .ok ++ [stop]) :
    gs = [] ∧ stop = .ok .done := by
  cases gs
  case nil =>
    obtain ⟨r, rfl, he⟩ := List.map_eq_singleton_iff.mp h
    exact ⟨rfl, he ▸ hb r rfl⟩
  case cons e gs =>
    obtain ⟨r, back, rfl, he, _⟩ := List.map_eq_cons_iff.mp h
    cases he.symm.trans (hb r rfl)
    exact absurd List.mem_cons_self hd

-- Calls that give records, one that does not, and what that leaves behind.
inductive Runs (a : Assembler Draft Record) :
    Parser Draft → List Record → Option IntakeError → Parser Draft → Prop
  | finished {p q : Parser Draft} :
    p.next a = (.ok none, q) → q.intake.place.isOpen = false → Runs a p [] none q
  | failed {p q : Parser Draft} {e : IntakeError} :
    p.next a = (.error e, q) → q.intake.place.isOpen = false → Runs a p [] (some e) q
  | record {p mid q : Parser Draft} {r : Record} {rs : List Record} {error : Option IntakeError} :
    p.next a = (.ok (some r), mid) → Runs a mid rs error q → Runs a p (r :: rs) error q

-- How far the machine has come when the calls are over: to the end of the input after the message, or
-- to the reading that is at fault.
def Stops (final : Intake Draft) (back : List Reading) (q : Parser Draft) :
    Option IntakeError → Prop
  | none   => q.intake = final ∧ final.place = .finished ∧ ∀ r ∈ back.head?, r.event = .ok .done
  | some _ => q.readings = back.tail ∨ q.readings = [] ∧ ∀ r ∈ back.head?, r.event = .ok .done

-- Every parser runs to an end, and gives the records of a run of the machine.
theorem exists_runs (a : Assembler Draft Record) (p : Parser Draft)
    (ho : p.intake.place.isOpen) :
    ∃ rs error q front back es final, p.Runs a rs error q ∧ p.readings = front ++ back ∧
      front.map (·.event) = es.map .ok ∧ Intake.Takes a p.intake es rs final ∧
      Stops final back q error := by
  induction hl : p.readings.length using Nat.strongRecOn generalizing p
  case ind n hi =>
  have hcall := called_pull a p.records p.position p.intake p.readings
  rw [← next_eq_pull ho] at hcall
  rcases hn : p.next a with ⟨answer, q⟩
  rw [hn] at hcall
  cases hcall
  case finished front back es hr hes hb ht hp _ =>
    exact ⟨[], none, q, front, back, es, _, .finished hn (by rw [hp]; rfl), hr, hes, ht,
      rfl, hp, hb⟩
  case failed front back es final e hr hes ht hq hp _ =>
    exact ⟨[], some e, q, front, back, es, final, .failed hn (by rw [hp]; rfl), hr, hes, ht, hq⟩
  case record front es r hes hr ht hp _ =>
    have ho' : q.intake.place.isOpen := by rw [hp]; rfl
    have hlt : q.readings.length < n := by
      have hle : 1 ≤ es.length := ht.length_le
      have hfront : front.length = es.length := by simpa using congrArg List.length hes
      rw [← hl, hr, List.length_append]
      omega
    obtain ⟨rs, error, q', front', back, es', final, hruns, hr', hes', ht', hs⟩ :=
      hi _ hlt q ho' rfl
    exact ⟨r :: rs, error, q', front ++ front', back, es ++ es', final, .record hn hruns,
      by rw [hr, hr', List.append_assoc], by simp [hes, hes'], ht.append ht', hs⟩

-- A run of the machine is the beginning of a run of the parser.
theorem runs_of_takes {rest : List (Except Fault Event)} (ho : p.intake.place.isOpen)
    (hr : p.readings.map (·.event) = es.map .ok ++ rest)
    (ht : Intake.Takes a p.intake es rs final) :
    ∃ (mid : Parser Draft) (fs : List Event), mid.intake.place.isOpen ∧
      mid.readings.map (·.event) = fs.map .ok ++ rest ∧
      Intake.Takes a mid.intake fs [] final ∧
      ∀ {ss error q}, mid.Runs a ss error q → p.Runs a (rs ++ ss) error q := by
  induction rs generalizing p es
  case nil => exact ⟨p, es, ho, hr, ht, id⟩
  case cons r rs hi =>
    obtain ⟨p₁, es₁, hp, hr₁, ht₁, ho₁⟩ := pull_record p.records p.position hr ht
    obtain ⟨mid, fs, hmid, hfs, htakes, hruns⟩ := hi (by rw [ho₁]; rfl) hr₁ ht₁
    rw [← next_eq_pull ho] at hp
    exact ⟨mid, fs, hmid, hfs, htakes, fun h => .record hp (hruns h)⟩

theorem Runs.pullAll {fuel : Nat} (h : p.Runs a rs error q) (hf : rs.length < fuel) :
    ∃ given, pullAll a fuel p = (given, error, q) ∧ given.map (·.1) = rs := by
  induction h generalizing fuel
  all_goals
    obtain ⟨fuel, rfl⟩ := Nat.exists_eq_add_one_of_ne_zero (Nat.ne_zero_of_lt hf)
    rw [Parser.pullAll]
  case finished hn _ => rw [hn]; exact ⟨[], rfl, rfl⟩
  case failed hn _   => rw [hn]; exact ⟨[], rfl, rfl⟩
  case record mid _ r _ _ hn _ hi =>
    obtain ⟨given, hall, rfl⟩ := hi (Nat.lt_of_succ_lt_succ hf)
    refine ⟨(r, mid.position) :: given, ?_, rfl⟩
    rw [hn]
    dsimp only
    rw [hall]

-- Reading a whole message gives the records of the run through its events.
theorem all_ofReadings (hr : readings.map (·.event) = es.map .ok ++ [.ok .done])
    (ht : Intake.Takes a {} es rs final) (hf : final.place = .finished) :
    ∃ given p, (ofReadings readings : Parser Draft).all a = (given, none, p) ∧
      given.map (·.1) = rs ∧ p.intake = final := by
  obtain ⟨mid, fs, ho, hfs, htakes, hruns⟩ :=
    runs_of_takes (p := ofReadings readings) rfl hr ht
  obtain ⟨position, hp⟩ := pull_end mid.records mid.position hfs htakes hf
  rw [← next_eq_pull ho] at hp
  have hlast := hruns (.finished hp (by rw [hf]; rfl))
  rw [List.append_nil] at hlast
  have hlen : readings.length = es.length + 1 := by simpa using congrArg List.length hr
  have hle : rs.length < readings.length + 1 := by have := ht.length_le; omega
  obtain ⟨given, hall, hg⟩ := hlast.pullAll hle
  exact ⟨given, _, hall, hg, rfl⟩

-- What reading a document gives are the records of a run of the machine, and of a run through the
-- whole document if there was no error.
theorem takes_of_all {given : List (Record × Nat)}
    (h : (ofReadings readings).all a = (given, error, q)) :
    ∃ front back es final, readings = front ++ back ∧ front.map (·.event) = es.map .ok ∧
      Intake.Takes a {} es (given.map (·.1)) final ∧ Stops final back q error := by
  obtain ⟨rs, error', q', front, back, es, final, hruns, hr, hes, ht, hs⟩ :=
    exists_runs a (ofReadings readings) rfl
  obtain rfl : readings = front ++ back := hr
  have hfront : front.length = es.length := by simpa using congrArg List.length hes
  have hle : rs.length < (front ++ back).length + 1 := by
    have := ht.length_le
    rw [List.length_append]
    omega
  obtain ⟨given', hall, hg⟩ := hruns.pullAll hle
  cases h.symm.trans hall
  exact ⟨front, back, es, final, rfl, hes, hg ▸ ht, hs⟩

-- A document that is read without an error has been gone through to its end.
theorem takes_of_all_none {given : List (Record × Nat)}
    (hr : readings.map (·.event) = es.map .ok ++ [.ok .done]) (hd : .done ∉ es)
    (h : (ofReadings readings).all a = (given, none, q)) :
    Intake.Takes a {} es (given.map (·.1)) q.intake ∧ q.intake.place = .finished := by
  obtain ⟨front, back, fs, final, rfl, hfs, ht, rfl, hp, hb⟩ := takes_of_all h
  rw [List.map_append, hfs] at hr
  obtain ⟨gs, rfl, hback⟩ := exists_append_of_map (by simp) ht.done_not_mem hr.symm
  obtain ⟨rfl, _⟩ := eq_nil_of_head (fun hm => hd (List.mem_append_right _ hm)) hb hback
  exact ⟨by simpa using ht, hp⟩

end Parser

end ReportExchange
