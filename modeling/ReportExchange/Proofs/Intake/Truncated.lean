import ReportExchange.Proofs.Intake.Calls
import ReportExchange.Proofs.Intake.Document
import ReportExchange.Proofs.Intake.Outline

namespace ReportExchange

open Xml Grammar Intake

namespace Parser

variable {Draft Record : Type} {a : Assembler Draft Record} {p q : Parser Draft}
variable {rs : List Record} {error : Option IntakeError}

-- The parser after a number of calls.
def pulled (a : Assembler Draft Record) (p : Parser Draft) : Nat → Parser Draft
  | 0     => p
  | n + 1 => pulled a (p.next a).2 n

-- What a call answers that comes after a number of others.
def answer (a : Assembler Draft Record) (p : Parser Draft) (n : Nat) :
    Except IntakeError (Option Record) :=
  ((p.pulled a n).next a).1

def recordOf : Except IntakeError (Option Record) → Option Record
  | .ok r    => r
  | .error _ => none

-- The records that a number of calls give.
def given (a : Assembler Draft Record) (p : Parser Draft) (n : Nat) : List Record :=
  (List.range n).filterMap fun k => recordOf (p.answer a k)

def answers (rs : List Record) (error : Option IntakeError) :
    List (Except IntakeError (Option Record)) :=
  rs.map (fun r => .ok (some r)) ++ (error.map Except.error).toList

-- The calls give these records one after the other, then the error if there is one, then nothing.
def Pulls (a : Assembler Draft Record) (p : Parser Draft) (rs : List Record)
    (error : Option IntakeError) : Prop :=
  ∀ n, p.answer a n = (answers rs error).getD n (.ok none)

theorem answer_succ (a : Assembler Draft Record) (p : Parser Draft) (n : Nat) :
    p.answer a (n + 1) = (p.next a).2.answer a n :=
  rfl

theorem given_succ (a : Assembler Draft Record) (p : Parser Draft) (n : Nat) :
    p.given a (n + 1) = (recordOf (p.next a).1).toList ++ (p.next a).2.given a n := by
  rw [given, List.range_succ_eq_map, List.filterMap_cons, List.filterMap_map]
  cases hr : recordOf (p.answer a 0) <;> rw [answer, pulled] at hr <;> rw [hr] <;> rfl

section Calls

-- Nothing comes after the end of a message, or after a fault.
theorem answer_of_closed (h : p.intake.place.isOpen = false) (n : Nat) :
    p.answer a n = .ok none := by
  induction n
  case zero      => rw [answer, pulled, next_eq_self h]
  case succ n hi => rw [answer_succ, next_eq_self h, hi]

-- A call that gives no record is the last one that does anything, and every record is counted.
theorem next_cases (a : Assembler Draft Record) (p : Parser Draft) :
    (p.next a).2.records = p.records + (recordOf (p.next a).1).toList.length ∧
      (recordOf (p.next a).1 = none → (p.next a).2.intake.place.isOpen = false) := by
  cases ho : p.intake.place.isOpen
  case false =>
    rw [next_eq_self ho]
    exact ⟨rfl, fun _ => ho⟩
  case true =>
    have hcall := called_pull a p.records p.position p.intake p.readings
    rw [← next_eq_pull ho] at hcall
    rcases hn : p.next a with ⟨answer, q⟩
    rw [hn] at hcall
    cases hcall
    case record hr       => exact ⟨hr, by simp [recordOf]⟩
    case finished _ hp hn => exact ⟨hn, fun _ => by rw [hp]; rfl⟩
    case failed hp hn    => exact ⟨hn, fun _ => by rw [hp]; rfl⟩

theorem records_pulled (a : Assembler Draft Record) (p : Parser Draft) (n : Nat) :
    (p.pulled a n).records = p.records + (p.given a n).length := by
  induction n generalizing p
  case zero => rfl
  case succ n hi =>
    rw [pulled, hi, (next_cases a p).1, given_succ, List.length_append, Nat.add_assoc]

theorem answer_after {n m : Nat} (h : recordOf (p.answer a n) = none) (hm : n < m) :
    p.answer a m = .ok none := by
  obtain ⟨m, rfl⟩ := Nat.exists_eq_add_one_of_ne_zero (Nat.ne_zero_of_lt hm)
  induction n generalizing p m
  case zero => exact answer_of_closed ((next_cases a p).2 h) m
  case succ n hi =>
    have hm := Nat.lt_of_succ_lt_succ hm
    obtain ⟨m, rfl⟩ := Nat.exists_eq_add_one_of_ne_zero (Nat.ne_zero_of_lt hm)
    exact hi h m hm

theorem answer_of_last {last : Except IntakeError (Option Record)} (hn : p.next a = (last, q))
    (hc : q.intake.place.isOpen = false) (n : Nat) : p.answer a n = [last].getD n (.ok none) := by
  cases n
  case zero   => rw [answer, pulled, hn]; rfl
  case succ n => rw [answer_succ, hn, answer_of_closed hc]; rfl

theorem Runs.pulls (h : p.Runs a rs error q) : p.Pulls a rs error := by
  induction h
  case failed hn hc => exact answer_of_last hn hc
  case finished hn hc =>
    intro n
    rw [answer_of_last hn hc]
    cases n <;> rfl
  case record hn _ hi =>
    intro n
    cases n
    case zero   => rw [answer, pulled, hn]; rfl
    case succ n => rw [answer_succ, hn, hi n]; rfl

theorem Runs.pulled_eq (h : p.Runs a rs error q) : p.pulled a (rs.length + 1) = q := by
  induction h
  case finished hn _  => rw [List.length_nil, pulled, pulled, hn]
  case failed hn _    => rw [List.length_nil, pulled, pulled, hn]
  case record hn _ hi => rw [List.length_cons, pulled, hn, hi]

end Calls

-- A document that is cut before its message has ended gives the records that come first in the whole
-- one, and then an error. They are the records of the results that have ended before the reading at
-- which the error is found, one for each.
theorem pulls_truncated (a : Assembler Draft Record) :
    (∀ (seen : List Event) (stop : Except Fault Event) (rest : List (Except Fault Event))
        (cut whole : List Reading),
      .done ∉ seen → ¬(Outline.of (seen.flatMap Event.tokens)).MessageEnded →
      (∀ e, stop = .ok e → e = .done) →
      cut.map (·.event) = seen.map .ok ++ [stop] →
      whole.map (·.event) = seen.map .ok ++ rest →
      ∃ (rs ss : List Record) (e : IntakeError) (error : Option IntakeError) (taken : List Event),
        (ofReadings cut).Pulls a rs (some e) ∧ (ofReadings whole).Pulls a (rs ++ ss) error ∧
        taken <+: seen ∧
        ((ofReadings cut).pulled a (rs.length + 1)).readings = cut.drop (taken.length + 1) ∧
        List.Forall₂ (IsRecordOf a) (Outline.of (taken.flatMap Event.tokens)).results rs) ∧
    ∀ (readings : List Reading) (n : Nat),
      ((ofReadings readings).pulled a n).records = ((ofReadings readings).given a n).length ∧
      (recordOf ((ofReadings readings).answer a n) = none →
        ∀ m, n < m → (ofReadings readings).answer a m = .ok none) := by
  constructor
  case right =>
    intro readings n
    exact ⟨by rw [records_pulled, ofReadings, Nat.zero_add], fun h m hm => answer_after h hm⟩
  case left =>
    intro seen stop rest cut whole hd hm hstop hcut hwhole
    obtain ⟨rs, error, q, front, back, taken, final, hruns, hr, htaken, ht, hs⟩ :=
      exists_runs a (ofReadings cut) rfl
    obtain rfl : cut = front ++ back := hr
    rw [List.map_append, htaken] at hcut
    obtain ⟨gs, rfl, hback⟩ := exists_append_of_map hstop ht.done_not_mem hcut.symm
    have hgs : .done ∉ gs := fun h => hd (List.mem_append_right _ h)
    have hfollows := follows_of_takes ht
    cases error
    -- There is an error: otherwise the machine has gone through the end of the message.
    case none =>
      obtain ⟨_, hp, hb⟩ := hs
      obtain ⟨rfl, _⟩ := eq_nil_of_head hgs hb hback
      have hmatch := hfollows.place
      rw [hp] at hmatch
      exact absurd hmatch (by rwa [List.append_nil] at hm)
    case some e =>
      -- The whole document takes the machine to the same place, and the parser goes on from there.
      rw [List.map_append, List.append_assoc] at hwhole
      obtain ⟨mid, _, ho, _, _, hmid⟩ := runs_of_takes (p := ofReadings whole) rfl hwhole ht
      obtain ⟨ss, error, _, _, _, _, _, hruns', _⟩ := exists_runs a mid ho
      refine ⟨rs, ss, e, error, taken, hruns.pulls, (hmid hruns').pulls, List.prefix_append .., ?_,
        hfollows.records⟩
      have hlen : front.length = taken.length := by simpa using congrArg List.length htaken
      rw [hruns.pulled_eq, ← hlen, List.drop_append, List.drop_of_length_le (Nat.le_succ _),
        List.nil_append, Nat.add_sub_cancel_left, List.drop_one]
      obtain hq | ⟨hq, hb⟩ := hs
      case inl => exact hq
      case inr =>
        obtain ⟨rfl, _⟩ := eq_nil_of_head hgs hb hback
        obtain ⟨r, rfl, _⟩ := List.map_eq_singleton_iff.mp hback
        exact hq

-- The same message up to the first of its results.
def scatteredSeen : List Event :=
  scattered.take 23

def scatteredCut : List Reading :=
  (scatteredSeen ++ [Event.done]).map fun e => ⟨0, 0, .ok e⟩

theorem pulls_truncated_scattered :
    Event.done ∉ scatteredSeen ∧
      ¬(Outline.of (scatteredSeen.flatMap Event.tokens)).MessageEnded ∧
      (∀ e, (.ok .done : Except Fault Event) = .ok e → e = .done) ∧
      scatteredCut.map (·.event) = scatteredSeen.map .ok ++ [.ok .done] ∧
      scatteredReadings.map (·.event) =
        scatteredSeen.map .ok ++ ((scattered.drop 23).map .ok ++ [.ok .done]) ∧
      ∃ (r : Fields) (ss : List Fields) (e : IntakeError) (error : Option IntakeError)
          (taken : List Event),
        (ofReadings scatteredCut).Pulls Assembler.verbatim [r] (some e) ∧
        (ofReadings scatteredReadings).Pulls Assembler.verbatim (r :: ss) error ∧
        taken <+: scatteredSeen ∧
        ((ofReadings scatteredCut).pulled Assembler.verbatim 2).readings =
          scatteredCut.drop (taken.length + 1) ∧
        List.Forall₂ (IsRecordOf Assembler.verbatim)
          (Outline.of (taken.flatMap Event.tokens)).results [r] ∧
        r = [("cell", " a<b"), ("note", "")] ∧ e = ⟨0, .unexpectedEnd Tag.dataset⟩ := by
  have hd : Event.done ∉ scatteredSeen := by decide
  have hm : ¬(Outline.of (scatteredSeen.flatMap Event.tokens)).MessageEnded := by
    rw [Outline.MessageEnded]
    decide +kernel
  have hs : ∀ e, (.ok .done : Except Fault Event) = .ok e → e = .done :=
    fun e he => (Except.ok.inj he).symm
  have hc : scatteredCut.map (·.event) = scatteredSeen.map .ok ++ [.ok .done] := rfl
  have hw : scatteredReadings.map (·.event) =
      scatteredSeen.map .ok ++ ((scattered.drop 23).map .ok ++ [.ok .done]) := rfl
  refine ⟨hd, hm, hs, hc, hw, ?_⟩
  obtain ⟨rs, ss, e, error, taken, hcut, hwhole, ht, hr, hrs⟩ :=
    (pulls_truncated Assembler.verbatim).1 _ _ _ _ _ hd hm hs hc hw
  have h₀ : (ofReadings scatteredCut).answer Assembler.verbatim 0 =
      .ok (some [("cell", " a<b"), ("note", "")]) := by decide +kernel
  have h₁ : (ofReadings scatteredCut).answer Assembler.verbatim 1 =
      .error ⟨0, .unexpectedEnd Tag.dataset⟩ := by decide +kernel
  rw [hcut 0] at h₀
  rw [hcut 1] at h₁
  rcases rs with _ | ⟨r, _ | ⟨_, _⟩⟩
  case nil       => cases h₀
  case cons.cons => cases h₁
  case cons.nil =>
    cases h₀
    cases h₁
    exact ⟨_, ss, _, error, taken, hcut, hwhole, ht, hr, hrs, rfl, rfl⟩

end Parser

end ReportExchange
