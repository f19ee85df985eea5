import ReportExchange.Proofs.Xml.Legible

namespace ReportExchange.Xml

open Text

namespace Cursor

-- Reading goes on from one cursor to another, with some events on the way. Every step reads
-- something.
inductive Path : Cursor → List Event → Cursor → Prop
  | nil {c : Cursor} : Path c [] c
  | cons {c c' : Cursor} {e : Event} {es : List Event} :
    c.step.event = .ok e → e ≠ .done → c.step.rest.length < c.rest.length →
    Path (c.advance c.step) es c' → Path c (e :: es) c'

theorem Path.append {c c' c'' : Cursor} {es fs : List Event} (h₁ : Path c es c')
    (h₂ : Path c' fs c'') : Path c (es ++ fs) c'' := by
  induction h₁
  case nil                => exact h₂
  case cons he hd hl _ hi => exact .cons he hd hl (hi h₂)

theorem Path.done_not_mem {c c' : Cursor} {es : List Event} (h : Path c es c') : .done ∉ es := by
  induction h
  case nil              => exact List.not_mem_nil
  case cons _ hd _ _ hi => simp [Ne.symm hd, hi]

theorem Path.length_le {c c' : Cursor} {es : List Event} (h : Path c es c') :
    es.length + c'.rest.length ≤ c.rest.length := by
  induction h
  case nil => simp
  case cons hl _ hi =>
    rw [List.length_cons]
    exact Nat.le_trans (by rw [Nat.add_right_comm]; exact Nat.succ_le_succ hi) hl

theorem readAll_events {c c' : Cursor} {es : List Event} (h : Path c es c') (hr : c'.rest = [])
    {fuel : Nat} (hf : c.rest.length < fuel) :
    (readAll fuel c).map (·.event) = es.map .ok ++ [.ok .done] := by
  induction h generalizing fuel
  case nil c =>
    cases fuel
    case zero => cases hf
    case succ =>
      have hs : c.step.event = .ok .done := by rw [step, hr]
      simp [readAll, hs]
  case cons c c' e es he hd hl _ hi =>
    cases fuel
    case zero => cases hf
    case succ fuel =>
      have hi := hi hr (Nat.lt_of_lt_of_le hl (Nat.le_of_lt_succ hf))
      rw [readAll, he]
      simp [hi]

end Cursor

-- The bytes read as the events wherever they stand, with some elements open before and after.
def Reads (piece : Bytes) (opens : List Bytes) (es : List Event) (opens' : List Bytes) : Prop :=
  ∀ rest position, ∃ position',
    Cursor.Path ⟨piece ++ rest, position, opens⟩ es ⟨rest, position', opens'⟩

namespace Reads

variable {piece more name : Bytes} {opens opens' opens'' : List Bytes} {es fs : List Event}

theorem nil : Reads [] opens [] opens :=
  fun _ position => ⟨position, .nil⟩

theorem append (h₁ : Reads piece opens es opens') (h₂ : Reads more opens' fs opens'') :
    Reads (piece ++ more) opens (es ++ fs) opens'' := by
  intro rest position
  have ⟨mid, p₁⟩ := h₁ (more ++ rest) position
  have ⟨position', p₂⟩ := h₂ rest mid
  exact ⟨position', List.append_assoc .. ▸ p₁.append p₂⟩

-- A piece that is read in one step.
theorem of_step {e : Event} (hp : piece ≠ []) (he : e ≠ .done)
    (h : ∀ rest position, ∃ consumed, (⟨piece ++ rest, position, opens⟩ : Cursor).step =
      ⟨.ok e, rest, consumed, opens'⟩) : Reads piece opens [e] opens' := by
  intro rest position
  have ⟨consumed, hs⟩ := h rest position
  refine ⟨position + consumed, .cons (by rw [hs]) he ?_ ?_⟩
  case refine_1 =>
    have := List.length_pos_iff.mpr hp
    rw [hs]
    simp only [List.length_append]
    omega
  case refine_2 =>
    rw [Cursor.advance, hs]
    exact .nil

end Reads

-- Markup with the given content.
def angled (content : Bytes) : Bytes :=
  lessThan :: (content ++ [greaterThan])

theorem angled_ne_nil (content : Bytes) : angled content ≠ [] :=
  List.cons_ne_nil _ _

theorem step_angled {b : UInt8} {content rest : Bytes} {position : Nat} {opens : List Bytes}
    (hb : b ≠ bang) (hq : b ≠ question) (hc : Quoted (b :: content)) :
    (⟨angled (b :: content) ++ rest, position, opens⟩ : Cursor).step =
      let c : Cursor := ⟨angled (b :: content) ++ rest, position, opens⟩
      if b = slash then c.endTag content rest else c.startTag (b :: content) rest := by
  have e : angled (b :: content) ++ rest = lessThan :: (b :: content ++ greaterThan :: rest) := by
    simp [angled]
  have hc := cutTag_of_quoted hc rest
  rw [Cursor.step, e]
  dsimp only
  rw [if_pos rfl, List.cons_append, Cursor.markup]
  rw [if_neg hb, if_neg hq, ← List.cons_append, hc]
  rfl

theorem decodeName_bytes (tag : String) : Cursor.decodeName (bytes tag) = .ok tag := by
  rw [Cursor.decodeName, decode_bytes]

theorem quoted_slash : Quoted [slash] :=
  .plain (by decide) .nil

theorem Quoted.append {bs more : Bytes} (h : Quoted bs) (hm : Quoted more) : Quoted (bs ++ more) := by
  induction h
  case nil                    => exact hm
  case plain hb _ hi          => exact .plain hb hi
  case quotation hq hn _ hi   => simpa using Quoted.quotation hq hn hi

namespace Legible

variable {tag : String} {opens : List Bytes}

theorem exists_eq_cons {name : Bytes} (h : Legible name) :
    ∃ b bs, name = b :: bs ∧ b ≠ slash ∧ b ≠ bang ∧ b ≠ question := by
  have ⟨b, bs, e⟩ := List.exists_cons_of_ne_nil h.nonempty
  have hb : b ∉ leads := h.first b (by simp [e])
  exact ⟨b, bs, e, by simpa [leads] using hb⟩

theorem reads_opening (h : Legible (bytes tag)) :
    Reads (angled (bytes tag)) opens [.opening tag] (bytes tag :: opens) := by
  refine .of_step (angled_ne_nil _) nofun fun rest position => ?_
  have ⟨b, content, e, hs, hb, hq⟩ := h.exists_eq_cons
  rw [e, step_angled hb hq (e ▸ h.quoted), ← e]
  dsimp only
  rw [if_neg hs, Cursor.startTag, if_neg h.last, h.nameOf_eq, decodeName_bytes]
  exact ⟨_, rfl⟩

theorem reads_empty (h : Legible (bytes tag)) :
    Reads (angled (bytes tag ++ [slash])) opens [.empty tag] opens := by
  refine .of_step (angled_ne_nil _) nofun fun rest position => ?_
  have ⟨b, content, e, hs, hb, hq⟩ := h.exists_eq_cons
  have hc := h.quoted.append quoted_slash
  rw [e, List.cons_append] at hc ⊢
  rw [step_angled hb hq hc, ← List.cons_append, ← e]
  dsimp only
  rw [if_neg hs, Cursor.startTag, if_pos List.getLast?_concat, List.dropLast_concat, h.nameOf_eq,
    decodeName_bytes]
  exact ⟨_, rfl⟩

theorem reads_closing (h : Legible (bytes tag)) :
    Reads (angled (slash :: bytes tag)) (bytes tag :: opens) [.closing] opens := by
  refine .of_step (angled_ne_nil _) nofun fun rest position => ?_
  rw [step_angled (by decide) (by decide) (.plain (by decide) h.quoted)]
  dsimp only
  rw [if_pos rfl, Cursor.endTag, h.all_isSpace, h.dropSpaceEnd_eq]
  dsimp only
  rw [if_neg Bool.false_ne_true, if_pos rfl]
  exact ⟨_, rfl⟩

end Legible

theorem lessThan_not_mem_bytes {raw : String} (h : '<' ∉ raw.toList) : lessThan ∉ bytes raw := by
  intro hb
  have ⟨c, hc, e⟩ := mem_of_mem_bytes hb (by decide)
  have e : c = '<' := Char.toNat_inj.mp e
  exact h (e ▸ hc)

theorem step_text {raw text : String} {tail : Bytes} {position : Nat} {opens : List Bytes}
    (hr : raw ≠ "") (hl : '<' ∉ raw.toList) (hu : unescape raw = .ok text) :
    (⟨bytes raw ++ lessThan :: tail, position, opens⟩ : Cursor).step =
      ⟨.ok (.text text), lessThan :: tail, (bytes raw).length, opens⟩ := by
  have hb := lessThan_not_mem_bytes hl
  have hall : ∀ b ∈ bytes raw, decide (b ≠ lessThan) = true :=
    fun b hm => decide_eq_true fun e => hb (e ▸ hm)
  have ⟨b, bs, e⟩ := List.exists_cons_of_ne_nil (mt bytes_eq_nil_iff.mp hr)
  have hne : b ≠ lessThan := fun e' => hb (e ▸ e' ▸ List.mem_cons_self)
  have ht : (bytes raw ++ lessThan :: tail).takeWhile (· ≠ lessThan) = bytes raw := by
    rw [List.takeWhile_append_of_pos hall, List.takeWhile_cons_of_neg (by simp), List.append_nil]
  have hd : (bytes raw ++ lessThan :: tail).dropWhile (· ≠ lessThan) = lessThan :: tail := by
    rw [List.dropWhile_append_of_pos hall, List.dropWhile_cons_of_neg (by simp)]
  have hev : Cursor.textEvent (bytes raw) = .ok (.text text) := by
    rw [Cursor.textEvent, decode_bytes]
    simp only [hu]
  rw [Cursor.step]
  split
  case h_1 hn => exact absurd hn (by simp)
  case h_2 b' bs' hn =>
    have hn : b = b' ∧ bs ++ lessThan :: tail = bs' := by
      simpa only [e, List.cons_append, List.cons.injEq] using hn
    rw [← hn.1, if_neg hne]
    dsimp only
    rw [ht, hd, hev]

-- Text is read up to the markup that follows it.
theorem reads_text {raw text : String} {more : Bytes} {opens opens' : List Bytes} {es : List Event}
    (hr : raw ≠ "") (hl : '<' ∉ raw.toList) (hu : unescape raw = .ok text)
    (hm : more.head? = some lessThan) (h : Reads more opens es opens') :
    Reads (bytes raw ++ more) opens (.text text :: es) opens' := by
  intro rest position
  have ⟨position', p⟩ := h rest (position + (bytes raw).length)
  have ⟨tail, e⟩ := List.head?_eq_some_iff.mp hm
  have hs : (⟨bytes raw ++ more ++ rest, position, opens⟩ : Cursor).step =
      ⟨.ok (.text text), more ++ rest, (bytes raw).length, opens⟩ := by
    rw [List.append_assoc, e]
    exact step_text hr hl hu
  refine ⟨position', .cons (by rw [hs]) nofun ?_ ?_⟩
  case refine_1 =>
    have := List.length_pos_iff.mpr (mt bytes_eq_nil_iff.mp hr)
    rw [hs]
    simp only [List.length_append]
    omega
  case refine_2 =>
    rw [Cursor.advance, hs]
    exact p

end ReportExchange.Xml
