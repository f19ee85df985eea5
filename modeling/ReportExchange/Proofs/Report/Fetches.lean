import Mathlib.Data.Set.Card
import ReportExchange.Proofs.Report.Depth
import ReportExchange.Proofs.Report.Upward

namespace ReportExchange

open Formula

namespace Archive

-- The stored rows that are above one of the visited ones.
def ancestorsOf (a : Archive) (vs : List Visit) : Set Key :=
  {up | a.Stores up ∧ ∃ v ∈ vs, a.Ancestor v.row.key up}

theorem finite_stores (a : Archive) : {k : Key | a.Stores k}.Finite := by
  refine (List.finite_toSet (a.store.shelves.flatMap fun s => s.rows.map Row.key)).subset ?_
  intro k hk
  obtain ⟨s, hs⟩ := Option.isSome_iff_exists.mp hk
  have hm := List.mem_of_find?_eq_some hs
  rw [Store.rows] at hm
  split at hm
  case h_2 => cases hm
  case h_1 shelf hf =>
    refine List.mem_flatMap.mpr ⟨shelf, List.mem_of_find?_eq_some hf, ?_⟩
    exact key_of_find? hs ▸ List.mem_map_of_mem hm

theorem length_le_ncard {a : Archive} {ks : List Key} {vs : List Visit} (hn : ks.Nodup)
    (h : ∀ k ∈ ks, k ∈ a.ancestorsOf vs) : ks.length ≤ (a.ancestorsOf vs).ncard := by
  have hf : (a.ancestorsOf vs).Finite := a.finite_stores.subset fun _ hk => hk.1
  rw [← List.toFinset_card_of_nodup hn, ← Set.ncard_coe_finset]
  exact Set.ncard_le_ncard (fun k hk => h k (List.mem_toFinset.mp hk)) hf

end Archive

namespace Walk

variable {a : Archive} {w w' : Walk} {root : Row} {f : Frame} {rest : List Frame} {ks : List Key}
variable {vs : List Visit}

-- Turns of the loop, with the rows that the store is asked for on the way. The questions of a turn
-- are those of an inquiry that performs the resolution of the row that is visited.
inductive Fetches (a : Archive) : Walk → List Key → Walk → Prop
  | refl {w : Walk} : Fetches a w [] w
  | turn {w mid w' : Walk} {f : Frame} {rest : List Frame} {ks : List Key}
    {q : Inquiry (Row × List CellFault)} :
    w.stack = f :: rest → q.Performs a.catalog (fun s => resolveRow ⟨a.catalog, s⟩ f.row) →
    step a w = .ok mid → Fetches a mid ks w' → Fetches a w (q.fetched a w.cache ++ ks) w'

theorem exists_fetches_of_turns (h : Relation.ReflTransGen (Turns a) w w') :
    ∃ ks, Fetches a w ks w' := by
  induction h using Relation.ReflTransGen.head_induction_on
  case refl => exact ⟨[], .refl⟩
  case head w mid ht _ hi =>
    obtain ⟨f, rest, hs⟩ := List.exists_cons_of_ne_nil ht.1
    obtain ⟨q, hq⟩ := inquires_resolveRow (c := a.catalog) f.row
    obtain ⟨ks, hf⟩ := hi
    exact ⟨_, .turn hs hq ht.2 hf⟩

-- The rows that are still to be visited.
def ahead (F : a.Forest) (w : Walk) : List Key :=
  (pending a F.sound w.stack).map (·.row.key)

-- What is known of a walk through a forest that has made the given visits, and of the rows that it
-- has asked the store for. Such a row is above a stretch of the visits to come, and until this
-- stretch is over it is cached.
structure Once (F : a.Forest) (root : Row) (ks : List Key) (vs : List Visit) (w : Walk) : Prop where
  ready      : w.Ready a
  stands     : ∀ f ∈ w.stack, a.Stands f.row
  visits     : a.visits F.sound root [] = vs ++ pending a F.sound w.stack
  visited    : w.visited = vs.length
  contiguous : a.Contiguous (ahead F w)
  distinct   : ks.Nodup
  counted    : w.cache.fetches = ks.length
  asked      : ∀ up ∈ ks, up ∈ a.ancestorsOf vs
  stretch    : ∀ up ∈ ks, (ahead F w).Pairwise fun m l => a.Ancestor l up → a.Ancestor m up
  cached     : ∀ up ∈ ks, ∀ k ∈ (ahead F w).head?, a.Ancestor k up → w.cache.Has up

theorem once_start (F : a.Forest) (hr : a.store.find? root.table.name root.id = some root) :
    Once F root [] [] { stack := [⟨root, [], 0⟩] } := by
  have hs := (F.sound.stands_of_find? (k := root.key) hr).1
  have hp := pending_root F.sound root
  refine {
    ready      := ⟨.empty, by simpa using hs.holds⟩
    stands     := by simpa using hs
    visits     := by simp [hp]
    visited    := rfl
    contiguous := ?_
    distinct   := List.nodup_nil
    counted    := rfl
    asked      := nofun
    stretch    := nofun
    cached     := nofun }
  rw [ahead, hp]
  exact F.contiguous_visits hs.holds hs.stored []

-- A turn asks for none of the rows that have been asked for before.
theorem Once.turn {F : a.Forest} (ho : Once F root ks vs w) (hs : w.stack = f :: rest)
    {q : Inquiry (Row × List CellFault)}
    (hq : q.Performs a.catalog fun s => resolveRow ⟨a.catalog, s⟩ f.row) :
    Once F root (ks ++ q.fetched a w.cache) (vs ++ [Visit.of a f.row f.inherited])
      (visiting a w f rest) := by
  have hst := ho.stands f (hs ▸ List.mem_cons_self)
  have hp := pending_visiting F.sound ho.ready hs
  have hkey : (Visit.of a f.row f.inherited).row.key = f.row.key := Archive.key_resolved f.row
  have ha : ahead F w = f.row.key :: ahead F (visiting a w f rest) := by
    rw [ahead, hp, List.map_cons, hkey, ahead]
  have hm : (resolveRow a f.row).run w.cache = q.run a w.cache := hq a.store w.cache
  have hrun : (q.run a w.cache).2 = (visiting a w f rest).cache := by
    rw [← hm]
    rfl
  have hd : Drawn a (a.Ancestor f.row.key) w.cache (q.run a w.cache).2 := by
    rw [← hm]
    exact draws_resolveRow F hst w.cache ho.ready.cache
  have hK := F.lineage f.row.key
  obtain ⟨hn, hnew⟩ := hK.fetched_of_drawn q ho.ready.cache hd
  have hkept := (hK.grown ho.ready.cache hd).kept
  rw [hrun] at hnew hkept
  have hc := ho.contiguous
  have hstretch := ho.stretch
  have hcached := ho.cached
  rw [ha] at hc hstretch hcached
  cases hc with | cons hunder hc => ?_
  refine {
    ready      := ready_visiting F.sound ho.ready hs
    stands     := fun x hx => ?_
    visits     := by rw [ho.visits, hp, List.append_assoc, List.singleton_append]
    visited    := by rw [List.length_append, ← ho.visited]; rfl
    contiguous := hc
    distinct   := ?_
    counted    := ?_
    asked      := fun up hup => ?_
    stretch    := fun up hup => ?_
    cached     := fun up hup k hk hu => ?_ }
  case refine_1 =>
    cases List.mem_append.mp hx
    case inr hx => exact ho.stands x (hs ▸ List.mem_cons_of_mem _ hx)
    case inl hx =>
      obtain ⟨c, hc, rfl⟩ := List.mem_map.mp hx
      exact F.stands_below hst hc
  case refine_2 =>
    refine List.nodup_append.mpr ⟨ho.distinct, hn, fun up hup up' hup' e => ?_⟩
    subst e
    obtain ⟨hu, hno, _⟩ := hnew up hup'
    exact hno (hcached up hup _ rfl hu)
  case refine_3 =>
    have hf := q.fetches_run (a := a) ho.ready.cache
    rw [hrun, ho.counted] at hf
    rw [hf, List.length_append]
  case refine_4 =>
    obtain hup | hup := List.mem_append.mp hup
    case inl =>
      obtain ⟨hst, v, hv, hu⟩ := ho.asked up hup
      exact ⟨hst, v, List.mem_append_left _ hv, hu⟩
    case inr =>
      obtain ⟨hu, _⟩ := hnew up hup
      exact ⟨F.stores_of_ancestor hu, _, List.mem_append_right _ List.mem_cons_self, hkey ▸ hu⟩
  case refine_5 =>
    obtain hup | hup := List.mem_append.mp hup
    case inl => exact (List.pairwise_cons.mp (hstretch up hup)).2
    case inr => exact hunder up (hnew up hup).1
  case refine_6 =>
    obtain hup | hup := List.mem_append.mp hup
    case inr => exact (hnew up hup).2.2
    case inl =>
      -- The row that is visited now stands before the next one in the stretch below `up`.
      have hu' := (List.pairwise_cons.mp (hstretch up hup)).1 k (List.mem_of_mem_head? hk) hu
      exact hkept up hu' (hcached up hup _ rfl hu')

-- Whichever inquiries the turns perform.
theorem Fetches.once {F : a.Forest} (h : Fetches a w ks w') {before : List Key}
    (ho : Once F root before vs w) : ∃ us, Once F root (before ++ ks) us w' := by
  induction h generalizing before vs
  case refl => exact ⟨vs, by simpa using ho⟩
  case turn hs hq hm _ hi =>
    cases hm.symm.trans (step_eq F.sound ho.ready hs)
    obtain ⟨us, hu⟩ := hi (ho.turn hs hq)
    exact ⟨us, List.append_assoc .. ▸ hu⟩

theorem Once.take {F : a.Forest} (ho : Once F root ks vs w) :
    (a.visits F.sound root []).take w.visited = vs := by
  rw [ho.visits, ho.visited, List.take_left]

theorem Once.eq_visits {F : a.Forest} (ho : Once F root ks vs w) (hs : w.stack = []) :
    vs = a.visits F.sound root [] := by
  rw [ho.visits, hs]
  exact (List.append_nil vs).symm

end Walk

open Walk

variable {a : Archive} {root : Row}

-- An export with a dataset goes through the whole walk, any other one computes the root only.
theorem exists_fetches_of_exportReport (F : a.Forest) (held : a.Holds root) {sender : Sender}
    (hv : sender.validate = .ok ()) (stamp : Stamp) (op : Operation) :
    ∃ e ks w, exportReport a sender stamp root op = .ok e ∧
      Fetches a { stack := [⟨root, [], 0⟩] } ks w ∧
      (if op.opType.carriesDataset then w.stack = [] else w.visited = 1) ∧
      e.summary.fetches = w.cache.fetches := by
  rw [exportReport, hv]
  dsimp only
  by_cases ho : op.opType.carriesDataset
  case pos =>
    obtain ⟨w, ht, hs, hw⟩ := exists_turns_through F.sound held
    obtain ⟨ks, hf⟩ := exists_fetches_of_turns ht
    rw [if_pos ho, hw]
    refine ⟨_, ks, w, rfl, hf, ?_, rfl⟩
    rwa [if_pos ho]
  case neg =>
    have hready : Ready a { stack := [⟨root, [], 0⟩] } := ⟨.empty, by simpa using held⟩
    obtain ⟨q, hq⟩ := inquires_resolveRow (c := a.catalog) root
    rw [if_neg ho]
    refine ⟨_, _, _, rfl, .turn rfl hq (step_eq F.sound hready rfl) .refl, ?_, rfl⟩
    rw [if_neg ho]
    rfl

-- However far a walk through a forest has come, it has asked the store for different rows, and each
-- of them is above a row that has been visited. So there are no more questions in all than rows
-- above visited ones, whether the report is flattened or exported.
theorem fetches_once (F : a.Forest)
    (hr : a.store.find? root.table.name root.id = some root) :
    (∀ ks w, Fetches a { stack := [⟨root, [], 0⟩] } ks w →
      ks.Nodup ∧ w.cache.fetches = ks.length ∧
      ∀ k ∈ ks, k ∈ a.ancestorsOf ((a.visits F.sound root []).take w.visited)) ∧
    (∃ ks w, Fetches a { stack := [⟨root, [], 0⟩] } ks w ∧ w.stack = [] ∧
      flatten a root = .ok w.results ∧
      w.cache.fetches ≤ (a.ancestorsOf (a.visits F.sound root [])).ncard) ∧
    ∀ (sender : Sender) (stamp : Stamp) (op : Operation), sender.validate = .ok () →
      ∃ e ks w, exportReport a sender stamp root op = .ok e ∧
        Fetches a { stack := [⟨root, [], 0⟩] } ks w ∧
        (if op.opType.carriesDataset then w.stack = [] else w.visited = 1) ∧
        e.summary.fetches = ks.length ∧
        e.summary.fetches ≤ (a.ancestorsOf (if op.opType.carriesDataset then
          a.visits F.sound root [] else [Visit.of a root []])).ncard := by
  have hs := F.sound.stands_of_find? (k := root.key) hr
  have once {ks : List Key} {w : Walk} (h : Fetches a { stack := [⟨root, [], 0⟩] } ks w) :
      ∃ us, Once F root ks us w := h.once (once_start F hr)
  have whole {ks us w} (ho : Once F root ks us w) (he : w.stack = []) :
      w.cache.fetches ≤ (a.ancestorsOf (a.visits F.sound root [])).ncard := by
    rw [← ho.eq_visits he, ho.counted]
    exact Archive.length_le_ncard ho.distinct ho.asked
  refine ⟨fun ks w h => ?_, ?_, fun sender stamp op hv => ?_⟩
  case refine_1 =>
    obtain ⟨us, ho⟩ := once h
    exact ⟨ho.distinct, ho.counted, ho.take.symm ▸ ho.asked⟩
  case refine_2 =>
    obtain ⟨w, ht, he, hw⟩ := exists_turns_through F.sound hs.1.holds
    obtain ⟨ks, hf⟩ := exists_fetches_of_turns ht
    obtain ⟨us, ho⟩ := once hf
    refine ⟨ks, w, hf, he, ?_, whole ho he⟩
    rw [flatten]
    dsimp only
    rw [hw]
    rfl
  case refine_3 =>
    obtain ⟨e, ks, w, hx, hf, he, hc⟩ := exists_fetches_of_exportReport F hs.1.holds hv stamp op
    obtain ⟨us, ho⟩ := once hf
    refine ⟨e, ks, w, hx, hf, he, hc.trans ho.counted, ?_⟩
    split at he
    case isTrue hd =>
      rw [if_pos hd, hc]
      exact whole ho he
    case isFalse hd =>
      have hus : us = [Visit.of a root []] := by
        rw [← ho.take, he, Archive.visits_eq F.sound hs.1.holds]
        rfl
      rw [if_neg hd, hc, ho.counted, ← hus]
      exact Archive.length_le_ncard ho.distinct ho.asked

-- Wells that read the dye of their plate and the lot of their batch.
namespace Batches

def definition : CatalogDefinition where
  tables := [
    { name := "batch", traversable := true, columns := [{ id := "lot" }] },
    { name := "plate", traversable := true, columns := [{ id := "dye" }] },
    { name := "well", traversable := true, generatesRecord := true,
      columns := [
        { id := "stain", output := .record, codeFormula := some "%dye.code" },
        { id := "origin", output := .record, codeFormula := some "%lot.code" }] }]
  relations := [{ parent := "batch", child := "plate" }, { parent := "plate", child := "well" }]

def plateOf (id : Int64) (dye : String) : Record :=
  { id := ⟨id⟩, cells := [("batchId", .plain "1"), ("dye", .plain dye)] }

def wellOf (id : Int64) (plate : String) : Record :=
  { id := ⟨id⟩, cells := [("plateId", .plain plate)] }

def records : List (String × List Record) := [
  ("batch", [{ id := ⟨1⟩, cells := [("lot", .plain "L7")] }]),
  ("plate", [plateOf 1 "red", plateOf 2 "blue"]),
  ("well", [wellOf 1 "1", wellOf 2 "2", wellOf 3 "1", wellOf 4 "2"])]

def catalog : Catalog :=
  (Catalog.build definition).toOption.getD ⟨[]⟩

def archive : Archive where
  catalog := catalog
  store   := (Store.ofTables catalog records).toOption.getD {}

def batch : Row :=
  (archive.store.rows "batch").head (by decide)

theorem forest : archive.Forest where
  sound  := ⟨⟨definition, by decide⟩, by decide⟩
  single := by decide
  keys   := by decide
  closed := by decide +kernel
  made   := by
    cases h : Store.ofTables catalog records
    case error => exact ⟨[], by simpa [archive, h, Except.toOption] using .empty⟩
    case ok s  =>
      obtain ⟨seen, hs⟩ := Store.exists_history_of_ofTables h
      exact ⟨seen, by simpa [archive, h, Except.toOption] using hs⟩

end Batches

-- The four wells ask for the batch and for their plates, which makes three questions.
open Batches in
theorem fetches_once_batch :
    archive.store.find? batch.table.name batch.id = some batch ∧
    ∃ e ks w, exportReport archive (.named "LAB" "ORG") ⟨⟨"m"⟩, 0⟩ batch { opType := .insert } = .ok e ∧
      Fetches archive { stack := [⟨batch, [], 0⟩] } ks w ∧ w.stack = [] ∧ ks.Nodup ∧
      ks.length = 3 := by
  have hr : archive.store.find? batch.table.name batch.id = some batch := rfl
  obtain ⟨hall, _, hx⟩ := fetches_once forest hr
  obtain ⟨e, ks, w, he, hf, hs, hl, _⟩ :=
    hx (.named "LAB" "ORG") ⟨⟨"m"⟩, 0⟩ { opType := .insert } (by decide)
  refine ⟨hr, e, ks, w, he, hf, hs, (hall ks w hf).1, ?_⟩
  have h3 : (exportReport archive (.named "LAB" "ORG") ⟨⟨"m"⟩, 0⟩ batch { opType := .insert }).map
      (·.summary.fetches) = .ok 3 := by decide +kernel
  rw [he] at h3
  exact hl.symm.trans (Except.ok.inj h3)

end ReportExchange
