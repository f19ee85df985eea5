import ReportExchange.Proofs.Report.Chains

namespace ReportExchange

namespace Archive.Chain

variable {a : Archive} {k l m : Key} {ks : List Key}

theorem snoc (hc : a.Chain k ks l) (hl : a.Leads l m) : a.Chain k (ks ++ [m]) m := by
  induction hc with
  | nil          => exact .cons hl .nil
  | cons hk _ hi => exact .cons hk (hi hl)

-- Every row of a chain is in a lower table than the one before.
theorem length_add_height_le (h : a.Sound) (hc : a.Chain k ks m) :
    ks.length + h.height m.1 ≤ h.height k.1 := by
  induction hc with
  | nil => simp
  | cons hl _ hi =>
    have := h.height_leads hl
    rw [List.length_cons]
    omega

end Archive.Chain

namespace Walk

variable {a : Archive} {w w' : Walk} {root : Row} {f : Frame}

-- A turn of the loop takes a frame from the stack and visits its row.
def Turns (a : Archive) (w w' : Walk) : Prop :=
  w.stack ≠ [] ∧ step a w = .ok w'

-- The frame lies as deep below the root as it says.
def Below (a : Archive) (root : Row) (f : Frame) : Prop :=
  ∃ ks, a.Chain root.key ks f.row.key ∧ ks.length = f.depth

-- What is known of a walk between two turns.
structure Reached (a : Archive) (root : Row) (w : Walk) : Prop where
  ready : w.Ready a
  below : ∀ f ∈ w.stack, Below a root f

theorem reached_start (held : a.Holds root) :
    Reached a root { stack := [⟨root, [], 0⟩] } where
  ready := ⟨.empty, by simpa using held⟩
  below := by simpa using ⟨[], .nil, rfl⟩

theorem Below.depth_lt (h : a.Sound) (held : a.Holds root) (hf : Below a root f) :
    f.depth < a.catalog.tables.length := by
  obtain ⟨ks, hc, hd⟩ := hf
  have hl := hc.length_add_height_le h
  have hh : h.height root.key.1 < a.catalog.tables.length := h.height_lt held
  omega

namespace Turns

theorem eq_visiting (h : a.Sound) (hw : w.Ready a) (ht : Turns a w w') :
    ∃ f rest, w.stack = f :: rest ∧ w' = visiting a w f rest := by
  obtain ⟨f, rest, hs⟩ := List.exists_cons_of_ne_nil ht.1
  exact ⟨f, rest, hs, Except.ok.inj (ht.2.symm.trans (step_eq h hw hs))⟩

-- The rows below the one that is visited are one relation deeper.
theorem reached (h : a.Sound) (ht : Turns a w w') (hw : Reached a root w) : Reached a root w' := by
  obtain ⟨f, rest, hs, rfl⟩ := ht.eq_visiting h hw.ready
  refine ⟨ready_visiting h hw.ready hs, fun x hx => ?_⟩
  cases List.mem_append.mp hx
  case inr hx => exact hw.below x (hs ▸ List.mem_cons_of_mem _ hx)
  case inl hx =>
    obtain ⟨c, hc, rfl⟩ := List.mem_map.mp hx
    have hf : f ∈ w.stack := hs ▸ List.mem_cons_self
    obtain ⟨ks, hk, hd⟩ := hw.below f hf
    have hl : a.Leads f.row.key c.key := by
      rw [← Archive.key_resolved, ← Archive.mem_keys_below (hw.ready.held f hf).resolved]
      exact List.mem_map_of_mem hc
    exact ⟨ks ++ [c.key], hk.snoc hl, by simp [hd]⟩

-- One of the visits that the stack stands for has been made.
theorem pending_lt (h : a.Sound) (ht : Turns a w w') (hw : w.Ready a) :
    w'.visited = w.visited + 1 ∧
      (pending a h w.stack).length = (pending a h w'.stack).length + 1 := by
  obtain ⟨f, rest, hs⟩ := List.exists_cons_of_ne_nil ht.1
  obtain ⟨mid, hm, _, v, hp, e⟩ := step_ok h hw hs
  cases ht.2.symm.trans hm
  exact ⟨hp.visited, by rw [e, List.length_cons]⟩

end Turns

theorem acc_of_ready (h : a.Sound) (hw : w.Ready a) : Acc (fun w' w => Turns a w w') w := by
  induction hn : (pending a h w.stack).length using Nat.strong_induction_on generalizing w
  case _ n hi =>
    refine .intro w fun w' ht => ?_
    obtain ⟨f, rest, hs, rfl⟩ := ht.eq_visiting h hw
    have ⟨_, hl⟩ := ht.pending_lt h hw
    exact hi _ (by omega) (ready_visiting h hw hs) rfl

theorem turns_of_run {n : Nat} (h : run a n w = .ok w') :
    Relation.ReflTransGen (Turns a) w w' := by
  induction n generalizing w
  case zero =>
    cases h
    exact .refl
  case succ n hi =>
    rw [run] at h
    cases hs : w.stack
    case nil =>
      simp only [hs, List.isEmpty_nil, if_true] at h
      cases h
      exact .refl
    case cons f rest =>
      simp only [hs, List.isEmpty_cons] at h
      cases hm : step a w <;> simp only [hm] at h
      case ok mid => exact .head ⟨by simp [hs], hm⟩ (hi h)
      case error  => cases h

-- What turns keep: the visits that have been made and those to come are the same number as ever.
theorem kept_of_turns (h : a.Sound) (hw : Reached a root w)
    (ht : Relation.ReflTransGen (Turns a) w w') :
    Reached a root w' ∧ w'.visited + (pending a h w'.stack).length =
      w.visited + (pending a h w.stack).length := by
  induction ht
  case refl => exact ⟨hw, rfl⟩
  case tail mid w' _ ht hi =>
    obtain ⟨hmid, hn⟩ := hi
    have ⟨hv, hl⟩ := ht.pending_lt h hmid.ready
    exact ⟨ht.reached h hmid, by omega⟩

theorem stack_eq_nil_of_pending (h : a.Sound) (hw : w.Ready a) (hp : pending a h w.stack = []) :
    w.stack = [] := by
  cases hs : w.stack
  case nil => rfl
  case cons f rest =>
    obtain ⟨_, _, _, v, _, e⟩ := step_ok h hw hs
    cases hp.symm.trans e

-- The turns of a whole walk, after which nothing is left on the stack.
theorem exists_turns_through (h : a.Sound) (held : a.Holds root) :
    ∃ w, Relation.ReflTransGen (Turns a) { stack := [⟨root, [], 0⟩] } w ∧ w.stack = [] ∧
      (refresh a {} root).2.through a (refresh a {} root).1.1 (refresh a {} root).1.2 = .ok w := by
  obtain ⟨w, hw, hv⟩ := through_ok h held
  have ht := turns_of_run (through_refresh.symm.trans hw)
  obtain ⟨hs, hn⟩ := kept_of_turns h (reached_start held) ht
  refine ⟨w, ht, ?_, hw⟩
  refine stack_eq_nil_of_pending h hs.ready (List.length_eq_zero_iff.mp ?_)
  have hvis := hv.visited
  rw [pending_root h root] at hn
  simp only at hn hvis
  omega

-- Whatever is stored, the loop of a walk takes finitely many turns. None of them fails, all frames
-- lie less deep than there are tables, and when the loop has come to its end, the stack is empty.
theorem turns_end (h : a.Sound) (held : a.Holds root) :
    Acc (fun w' w => Turns a w w') { stack := [⟨root, [], 0⟩] } ∧
    (∀ w, Relation.ReflTransGen (Turns a) { stack := [⟨root, [], 0⟩] } w →
      (w.stack = [] ∨ ∃ w', Turns a w w') ∧
      w.visited ≤ (a.store.size + 1) ^ a.catalog.tables.length ∧
      ∀ f ∈ w.stack, f.depth < a.catalog.tables.length ∧
        ∃ ks, a.Chain root.key ks f.row.key ∧ ks.length = f.depth) ∧
    ∃ w, Relation.ReflTransGen (Turns a) { stack := [⟨root, [], 0⟩] } w ∧ w.stack = [] ∧
      (refresh a {} root).2.through a (refresh a {} root).1.1 (refresh a {} root).1.2 = .ok w := by
  have hstart := reached_start held
  refine ⟨acc_of_ready h hstart.ready, fun w hw => ?_, exists_turns_through h held⟩
  obtain ⟨hs, hn⟩ := kept_of_turns h hstart hw
  refine ⟨?_, ?_, fun f hf => ⟨(hs.below f hf).depth_lt h held, hs.below f hf⟩⟩
  case refine_1 =>
    cases hf : w.stack
    case nil         => exact .inl rfl
    case cons f rest => exact .inr ⟨_, by simp [hf], step_eq h hs.ready hf⟩
  case refine_2 =>
    have hl := Archive.length_visits_le h held [] (Nat.le_of_lt (h.height_lt held))
    rw [pending_root h root] at hn
    simp only at hn
    omega

end Walk

-- A shelf and its box, each of which names the other as the row above it. Only the way from the shelf
-- to the box is direct.
namespace Shelves

def definition : CatalogDefinition where
  tables := [
    { name := "shelf", traversable := true, generatesRecord := true },
    { name := "box", traversable := true, generatesRecord := true }]
  relations := [
    { parent := "shelf", child := "box" },
    { parent := "box", child := "shelf", direct := false }]

def records : List (String × List Record) := [
  ("shelf", [{ id := ⟨1⟩, cells := [("boxId", .plain "1")] }]),
  ("box", [{ id := ⟨1⟩, cells := [("shelfId", .plain "1")] }])]

def archive : Archive :=
  let catalog := (Catalog.build definition).toOption.getD ⟨[]⟩
  { catalog, store := (Store.ofTables catalog records).toOption.getD {} }

theorem sound : archive.Sound :=
  ⟨⟨definition, by decide⟩, by decide⟩

def shelf : Row :=
  (archive.store.rows "shelf").head (by decide)

end Shelves

open Shelves Walk in
theorem turns_end_shelf :
    archive.Holds shelf ∧
    Acc (fun w' w => Turns archive w w') { stack := [⟨shelf, [], 0⟩] } ∧
    ∃ w, Relation.ReflTransGen (Turns archive) { stack := [⟨shelf, [], 0⟩] } w ∧ w.stack = [] := by
  have held : archive.Holds shelf := by decide
  obtain ⟨ha, _, w, hw, hs, _⟩ := turns_end sound held
  exact ⟨held, ha, w, hw, hs⟩

end ReportExchange
