import ReportExchange.Proofs.Formula.Resolution
import ReportExchange.Proofs.Report.Forest

namespace ReportExchange

namespace Row

variable {child : Row}

-- A row that is below another by its key still is after the other has written into it.
theorem parentId_injectParent {parent : Row} (hp : parent.id.isSet)
    (h : child.parentId parent.table.name = some parent.id) :
    ((parent.injectParent child).getD child).parentId parent.table.name = some parent.id := by
  cases hi : parent.injectParent child
  case none   => exact h
  case some s => exact (parentId_of_injectParent hi hp).2

end Row

namespace Archive

-- The row may differ from the one that is stored in its place, but it is below the same row.
structure Stands (a : Archive) (row : Row) : Prop where
  holds  : a.Holds row
  stored : a.Stores row.key
  under  : ∀ k, row.Under k → a.Under row.key k

variable {a : Archive} {row c s up : Row} {k : Key}

theorem Sound.stands_of_find? (h : a.Sound) (hs : a.store.find? k.1 k.2 = some s) :
    a.Stands s ∧ s.key = k := by
  have hk := key_of_find? hs
  subst hk
  exact ⟨⟨h.holds_of_find? hs, by simp [Stores, hs], fun _ hu => ⟨s, hs, hu⟩⟩, rfl⟩

-- A row stands for the stored one as long as its keys for direct parents do not change.
theorem Stands.of_parentId_eq (hr : a.Stands row) (ht : s.table = row.table) (hi : s.id = row.id)
    (hp : ∀ r ∈ row.table.directParents, s.parentId r.parent = row.parentId r.parent) :
    a.Stands s ∧ s.key = row.key := by
  have hk : s.key = row.key := by rw [Row.key, ht, hi, Row.key]
  refine ⟨⟨hr.holds.of_table_eq ht, hk ▸ hr.stored, fun k hu => ?_⟩, hk⟩
  obtain ⟨r, hm, e, hu⟩ := hu
  rw [ht] at hm
  exact hk ▸ hr.under k ⟨r, hm, e, (hp r hm).symm.trans hu⟩

-- The rows below one that stands for a stored row do so too: what is written into them is what they
-- have been found by.
theorem Forest.stands_below (F : a.Forest) (hr : a.Stands row)
    (hc : c ∈ a.below (a.resolved row).1) : a.Stands c := by
  have held := F.sound.holds_below hc
  have hl : a.Leads row.key c.key := by
    rw [← key_resolved, ← mem_keys_below hr.holds.resolved]
    exact List.mem_map_of_mem hc
  refine ⟨held, stores_of_leads hl, fun k hu => ?_⟩
  obtain ⟨s, hs, r, hm, hp, hi⟩ := F.under_of_leads hr.stored hl
  obtain ⟨s', hs', _, e, _⟩ := F.sound.stored_of_mem_below hr.holds.resolved hc
  have hss : s' = s := by
    have hk : c.key = s'.key := e ▸ Row.key_injectParent _ s'
    rw [hk] at hs
    exact Option.some.inj (hs'.symm.trans hs)
  subst hss
  have hres := a.resolved_spares row
  have ht : c.table = s'.table := e ▸ (Row.spares_injectParent _ s').table
  -- The only parent of the row is the one that it has been reached from.
  have hw : c.parentId row.table.name = some row.id := by
    have hset : (a.resolved row).1.id.isSet := by
      rw [hres.id]
      exact F.isSet (k := row.key) hr.stored
    have hn : r.parent = (a.resolved row).1.table.name := hp.trans (congrArg Table.name hres.table).symm
    have hid : s'.parentId (a.resolved row).1.table.name = some (a.resolved row).1.id :=
      hn ▸ hi.trans (congrArg some hres.id.symm)
    have := Row.parentId_injectParent hset hid
    rwa [← e, hres.table, hres.id] at this
  have hk : c.Under row.key := ⟨r, ht ▸ hm, hp, hp ▸ hw⟩
  cases F.under_unique_of_row held hu hk
  exact ⟨s', hs, r, hm, hp, hi⟩

end Archive

namespace Formula

variable {α β : Type} {a : Archive} {K : String × RowId → Prop}

namespace Reading

theorem draws_parent {table : String} {id : RowId} (hk : K (table, id)) :
    Draws a K (Reading.parent a table id).run := by
  intro c _
  have h := performs_parent (c := a.catalog) table id a.store c
  refine .single ⟨(table, id), hk, ?_⟩
  exact congrArg Prod.snd h

theorem draws_bind {m : Reading α} {f : α → Reading β} (hs : Steady a m.run) (hm : Draws a K m.run)
    (hf : ∀ v, m.value = .ok v → Draws a K (f v).run) : Draws a K (m >>= f).run := by
  rw [ExceptT.run_bind]
  refine hm.bind hs ?_
  cases hv : fresh m.run
  case error => exact .pure _
  case ok v  => exact hf v hv

end Reading

open Reading

variable {row up : Row} {s : Sweep} {t : Table} {path : List Relation} {f : Formula}

theorem parent_of_mapError {table : String} {id : RowId}
    (h : (a.parent table id).mapError FormulaError.parent = .ok up) : a.parent table id = .ok up := by
  cases hu : a.parent table id <;> rw [hu] at h <;> cases h
  rfl

theorem stands_of_parent (h : a.Sound) {table : String} {id : RowId}
    (hp : a.parent table id = .ok up) : a.Stands up ∧ up.key = (table, id) :=
  h.stands_of_find? (k := (table, id)) (Archive.parent_eq_ok_iff.mp hp).2

-- A way up ends at the row that it starts from or above it.
theorem stands_follow (h : a.Sound) (hc : a.catalog.Climbs row.table path t) (hr : a.Stands row)
    (hv : (follow a row path).value = .ok up) :
    a.Stands up ∧ Relation.ReflTransGen a.Under row.key up.key := by
  induction path generalizing row
  case nil =>
    cases hv
    exact ⟨hr, .refl⟩
  case cons r rest hi =>
    cases hc with | cons hm ht hc => ?_
    rw [value_follow_cons] at hv
    cases hp : row.parentId r.parent <;> simp only [hp] at hv
    case none    => cases hv
    case some id =>
      obtain ⟨mid, hmid, hv⟩ := bind_eq_ok.mp hv
      have hmid := parent_of_mapError hmid
      obtain ⟨hs, hk⟩ := stands_of_parent h hmid
      have hu : a.Under row.key mid.key := hk ▸ hr.under _ ⟨r, hm, rfl, hp⟩
      obtain ⟨hup, hl⟩ := hi ((h.table_of_parent ht hmid).2 ▸ hc) hs hv
      exact ⟨hup, .head hu hl⟩

theorem draws_follow (h : a.Sound) (hc : a.catalog.Climbs row.table path t) (hr : a.Stands row) :
    Draws a (a.Ancestor row.key) (follow a row path).run := by
  induction path generalizing row
  case nil => exact .pure _
  case cons r rest hi =>
    cases hc with | cons hm ht hc => ?_
    rw [follow]
    cases hp : row.parentId r.parent
    case none    => exact .pure _
    case some id =>
      have hu : a.Under row.key (r.parent, id) := hr.under _ ⟨r, hm, rfl, hp⟩
      refine draws_bind (steady_parent _ _) (draws_parent (.single hu)) fun mid hmid => ?_
      have hmid := parent_of_mapError ((value_parent _ _).symm.trans hmid)
      obtain ⟨hs, hk⟩ := stands_of_parent h hmid
      refine (hi ((h.table_of_parent ht hmid).2 ▸ hc) hs).mono fun k hk' => ?_
      exact .head hu (hk ▸ hk')

theorem stands_ancestor (h : a.Sound) (hr : a.Stands row) {column : String}
    (hv : (ancestor a row column).value = .ok up) :
    a.Stands up ∧ Relation.ReflTransGen a.Under row.key up.key := by
  rw [value_ancestor] at hv
  cases hp : a.catalog.pathToAncestor row.table.name column <;> rw [hp] at hv
  case none      => cases hv
  case some path =>
    obtain ⟨_, hc, _⟩ := Catalog.climbs_of_pathToAncestor hr.holds hp
    exact stands_follow h hc hr hv

theorem draws_ancestor (h : a.Sound) (hr : a.Stands row) (column : String) :
    Draws a (a.Ancestor row.key) (ancestor a row column).run := by
  rw [ancestor]
  cases hp : a.catalog.pathToAncestor row.table.name column
  case none      => exact .pure _
  case some path =>
    obtain ⟨_, hc, _⟩ := Catalog.climbs_of_pathToAncestor hr.holds hp
    exact draws_follow h hc hr

theorem draws_lookUp (h : a.Sound) (hr : a.Stands row) (budget : Nat) (f : Formula) :
    Draws a (a.Ancestor row.key) (lookUp a budget row f).run := by
  induction budget generalizing row f
  case zero => exact .pure _
  case succ budget hi =>
    rw [lookUp]
    cases f.resolve row
    case some v =>
      cases v
      case resolved      => exact .pure _
      case deferred text =>
        dsimp only
        cases compile text
        case ok next => exact hi hr next
        case error   => exact .pure _
    case none =>
      refine draws_bind (steady_ancestor _ _) (draws_ancestor h hr _) fun up hup => ?_
      obtain ⟨hs, hl⟩ := stands_ancestor h hr hup
      exact (hi hs f).mono fun k hk => .trans_right hl hk

theorem draws_evaluate (h : a.Sound) (hs : a.Stands s.row) (f : Formula) :
    Draws a (a.Ancestor s.row.key) (evaluate a s f).run := by
  rw [evaluate]
  split
  case isTrue =>
    split
    case isTrue  => exact .pure _
    case isFalse =>
      split
      case isTrue  => exact .pure _
      case isFalse => exact .pure _
  case isFalse =>
    refine draws_bind (steady_ancestor _ _) (draws_ancestor h hs _) fun up hup => ?_
    obtain ⟨hu, hl⟩ := stands_ancestor h hs hup
    refine draws_bind (steady_lookUp _ _ _) ?_ fun _ _ => .pure _
    exact (draws_lookUp h hu chainLimit f).mono fun k hk => .trans_right hl hk

theorem draws_attempt (h : a.Sound) (hs : a.Stands s.row) (x : Target) :
    Draws a (a.Ancestor s.row.key) (attempt a s x) := by
  rw [attempt]
  split
  case isFalse => exact .pure s
  case isTrue  =>
    refine .bind ((inquires_evaluate s x.formula).steady a.store) (draws_evaluate h hs _) ?_
    split
    all_goals exact .pure _

-- What a sweep over the formulas of a row keeps of it: all that is not computed.
structure Sweep.Spares (row : Row) (s : Sweep) : Prop where
  table : s.row.table = row.table
  id    : s.row.id = row.id
  plain : ∀ x, row.table.formula? x = none → s.row.text x = row.text x

namespace Sweep.Spares

theorem start (hn : (row.table.columns.map (·.id)).Nodup) : (Sweep.start row).Spares row where
  table     := row.spares_uncomputed.table
  id        := row.spares_uncomputed.id
  plain x h := by simp [Sweep.start, Row.text_uncomputed hn, h]

theorem absorb (hs : s.Spares row) {x : CellHalf} (hx : (row.table.formula? x).isSome)
    (v : Except FormulaError (Option String)) : (s.absorb x v).Spares row := by
  match v with
  | .ok none     => exact hs
  | .error cause => exact ⟨hs.table, hs.id, hs.plain⟩
  | .ok (some value) =>
    cases hw : s.row.setHalf x.column x.half value
    case error =>
      have e : (s.settle x value).row = s.row := by simp [Sweep.settle, hw, Except.toOption]
      exact ⟨e ▸ hs.table, e ▸ hs.id, fun y hy => e ▸ hs.plain y hy⟩
    case ok r  =>
      have e : (s.settle x value).row = r := by simp [Sweep.settle, hw, Except.toOption]
      obtain ⟨ht, hi, _⟩ := Row.frame_of_put hw
      refine ⟨e ▸ ht.trans hs.table, e ▸ hi.trans hs.id, fun y hy => ?_⟩
      have hne : y ≠ x := by
        rintro rfl
        simp [hy] at hx
      exact e ▸ (Row.text_setHalf hw y).trans ((if_neg hne).trans (hs.plain y hy))

end Sweep.Spares

variable {ts : List Target}

theorem Sweep.Spares.stands (F : a.Forest) (hr : a.Stands row) (hs : s.Spares row) :
    a.Stands s.row ∧ s.row.key = row.key :=
  hr.of_parentId_eq hs.table hs.id fun r hm =>
    Row.parentId_congr (hs.plain _ (F.keys _ hr.holds.mem r hm))

section Sweeps

variable (F : a.Forest) (hr : a.Stands row)
  (hts : ∀ x ∈ ts, (row.table.formula? x.cell).isSome)

include F hr hts

theorem draws_pass (hs : s.Spares row) : Draws a (a.Ancestor row.key) (pass a ts s) := by
  rw [pass]
  induction ts generalizing s
  case nil => exact .pure s
  case cons x ts hi =>
    obtain ⟨hx, hts⟩ := List.forall_mem_cons.mp hts
    obtain ⟨hst, hk⟩ := hs.stands F hr
    have hv : fresh (attempt a s x) = s.tried a x := attempt_eq s x
    rw [List.foldlM_cons]
    refine .bind (steady_attempt s x) (hk ▸ draws_attempt F.sound hst x) (hi hts ?_)
    rw [hv, Sweep.tried]
    split
    case isTrue  => exact hs.absorb hx _
    case isFalse => exact hs

theorem draws_passes (n : Nat) (hs : s.Spares row) :
    Draws a (a.Ancestor row.key) (passes a ts n s) := by
  induction n generalizing s
  case zero => exact .pure s
  case succ n hi =>
    rw [passes]
    split
    case isTrue  => exact .pure s
    case isFalse =>
      refine .bind (steady_pass ts s) (draws_pass F hr hts hs) ?_
      have hround : (s.round a ts).Spares row :=
        Sweep.round_induction (fun x hx _ _ hs => hs.absorb (hts x hx) _) hs
      rw [fresh_pass]
      split
      case isTrue  => exact .pure _
      case isFalse => exact hi hround

end Sweeps

-- Resolving a row asks for its ancestors only.
theorem draws_resolveRow (F : a.Forest) (hr : a.Stands row) :
    Draws a (a.Ancestor row.key) (resolveRow a row) := by
  have hn := F.sound.catalog.columns _ hr.holds.mem
  rw [resolveRow]
  refine .bind (steady_passes _ _ _) (draws_passes F hr (fun x hx => ?_) _ ?_) (.pure _)
  case refine_1 => rw [(mem_targets hn).mp hx, Option.isSome_some]
  case refine_2 => exact .start hn

end Formula

end ReportExchange
